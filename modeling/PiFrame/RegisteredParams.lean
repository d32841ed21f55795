import PiFrame.StringArrays
import PiFrame.WatchdogPackets

/-!
# The parameters that a daemon registers with

`fillInfo` strings the parameters of the program together in an array of 512 bytes.  It
looks at the length before it appends a parameter and a blank, not after, so the last
one it appends may be too long.

The model of the packets lets the call fail where the array is overrun; it is shown to
be the same call.
-/

namespace RegisteredParams

open CharBuffer Limits

/-- `argc` and `argv`, up to the null pointer: the name of the program is there, and as
many strings as are counted. -/
structure Arguments where
  argc : Nat
  argv : List CString
  named : argv ≠ []
  counted : argc ≤ argv.length

/-- The members of `struct PFWDRegister` that are filled. -/
structure Info where
  pid : BitVec 32
  name : Buffer maxNameLength
  params : Buffer maxParamLength
  eMode : BitVec 32
  timeout : BitVec 32

/-- The static `wdi.info` as the program starts with it. -/
def Info.zeroed : Info := ⟨0, ⟨fun _ => 0, false⟩, ⟨fun _ => 0, false⟩, 0, 0⟩

def blank : List UInt8 := [' '.toUInt8]

/-- The loop over the parameters; `len` is an `int`. -/
def collect : List CString → StringArray maxParamLength → Int → StringArray maxParamLength
  | [], params, _ => params
  | arg :: rest, params, len =>
      if len < maxParamLength then
        collect rest (strcat (strcat params arg) (ofText blank))
          ((len + (arg.strlen + 1)).bmod (2 ^ 32))
      else params

/-- The parameters that are counted. -/
def Arguments.params (args : Arguments) : List CString := (args.argv.take args.argc).drop 1

/-- `params` of `fillInfo`: nothing where `argv[1]` is null. -/
def collected (args : Arguments) : StringArray maxParamLength :=
  if (args.argv.drop 1).isEmpty then .empty _ else collect args.params (.empty _) 0

/-- `fillInfo`. -/
def fillInfo (info : Info) (pid : BitVec 32) (args : Arguments) (eMode timeout : BitVec 32) :
    Info :=
  { pid
    name := strncpy info.name (args.argv.head args.named) (maxNameLength - 1)
    params := strncpy info.params (collected args).string (maxParamLength - 1)
    eMode
    timeout }

/-- The parameters one after another, each with a blank behind it. -/
def written (params : List CString) : List UInt8 := params.flatMap fun arg => arg.text ++ blank

/-- The array was not overrun, and a beginning of the parameters is registered, with a
NUL in its array. -/
def Bounded (args : Arguments) (info : Info) : Prop :=
  (collected args).overrun = false ∧ info.params.overrun = false ∧
    ∃ last, last < maxParamLength ∧ ∃ hnul : info.params.bytes last = 0,
      (CString.mk info.params.bytes ⟨last, hnul⟩).text <+: written (args.argv.drop 1)

variable {params : StringArray maxParamLength} {rest : List CString} {arg : CString} {len : Int}
  {args : Arguments}

/-! ## The loop -/

@[simp] theorem text_blank : (ofText blank).text = blank := text_ofText (by decide)

@[simp] theorem strlen_blank : (ofText blank).strlen = 1 := strlen_ofText (by decide)

/-- One parameter and its blank. -/
def append (params : StringArray maxParamLength) (arg : CString) : StringArray maxParamLength :=
  strcat (strcat params arg) (ofText blank)

/-- An argument is appended with a blank behind it. -/
theorem append_text :
    (append params arg).string.text = params.string.text ++ (arg.text ++ blank) := by
  rw [append, strcat_text, strcat_text, text_blank, List.append_assoc]

/-- The parameters grow by the argument and the blank. -/
theorem append_strlen :
    (append params arg).string.strlen = params.string.strlen + (arg.strlen + 1) := by
  rw [append, strcat_strlen, strcat_strlen, strlen_blank, Nat.add_assoc]

/-- An argument overruns the array if the parameters are longer than the array with it. -/
theorem append_overrun : (append params arg).overrun = true ↔
    params.overrun = true ∨ maxParamLength ≤ (append params arg).string.strlen := by
  simp only [append, strcat_overrun, strcat_strlen, Bool.or_eq_true, decide_eq_true_eq, or_assoc]
  exact or_congr_right ⟨fun h => by omega, .inr⟩

/-- An array that was overrun stays so. -/
theorem collect_overrun (h : params.overrun = true) : (collect rest params len).overrun = true := by
  induction rest generalizing params len with
  | nil => exact h
  | cons arg rest ih =>
      rw [collect]
      split
      · exact ih (append_overrun.mpr (.inl h))
      · exact h

/-- An argument for which there is room overruns nothing. -/
theorem append_inside (hinside : params.overrun = false)
    (hroom : (append params arg).string.strlen < maxParamLength) :
    (append params arg).overrun = false := by
  rw [← Bool.not_eq_true, append_overrun, hinside]
  simp [hroom]

/-- As long as what is collected is short, the loop goes on to the next argument. -/
theorem collect_cons (hfits : params.string.strlen < maxParamLength) :
    collect (arg :: rest) params params.string.strlen
      = collect rest (append params arg)
          ((params.string.strlen + (arg.strlen + 1) : Int).bmod (2 ^ 32)) :=
  if_pos (by exact_mod_cast hfits)

/-- With room for the parameter the loop goes on, and `len` is the length again. -/
theorem collect_room (hfits : params.string.strlen < maxParamLength)
    (hroom : (append params arg).string.strlen < maxParamLength) :
    collect (arg :: rest) params params.string.strlen
      = collect rest (append params arg) (append params arg).string.strlen := by
  have hsmall : maxParamLength = 512 := rfl
  have hlen := @append_strlen params arg
  have hcount : (params.string.strlen + (arg.strlen + 1) : Int).bmod (2 ^ 32)
      = ((append params arg).string.strlen : Nat) := by
    rw [hlen, Int.bmod_eq_of_le (by omega) (by omega)]
    push_cast
    rfl
  rw [collect_cons hfits, hcount]

/-- Without room the array is overrun. -/
theorem collect_full (hfits : params.string.strlen < maxParamLength)
    (hfull : maxParamLength ≤ (append params arg).string.strlen) :
    (collect (arg :: rest) params params.string.strlen).overrun = true := by
  rw [collect_cons hfits]
  exact collect_overrun (append_overrun.mpr (.inr hfull))

/-- The array holds the parameters exactly if there is room for all of them; if not, a blank or
an argument is written past its end. -/
theorem collect_spec (hinside : params.overrun = false)
    (hfits : params.string.strlen < maxParamLength) :
    ((collect rest params params.string.strlen).overrun = false ↔
      params.string.strlen + (rest.map fun arg => arg.strlen + 1).sum < maxParamLength) ∧
    ((collect rest params params.string.strlen).overrun = false →
      (collect rest params params.string.strlen).string.text
        = params.string.text ++ written rest) := by
  induction rest generalizing params with
  | nil => exact ⟨iff_of_true hinside hfits, fun _ => (List.append_nil _).symm⟩
  | cons arg rest ih =>
      have hsum : ((arg :: rest).map fun arg => arg.strlen + 1).sum
          = (arg.strlen + 1) + (rest.map fun arg => arg.strlen + 1).sum := List.sum_cons
      have hlen := @append_strlen params arg
      rw [hsum]
      rcases Nat.lt_or_ge (append params arg).string.strlen maxParamLength with hroom | hfull
      · obtain ⟨hiff, htext⟩ := ih (append_inside hinside hroom) hroom
        rw [collect_room hfits hroom]
        refine ⟨hiff.trans (by omega), fun h => ?_⟩
        rw [htext h, append_text, List.append_assoc, written, written, List.flatMap_cons]
      · rw [collect_full hfits hfull]
        exact ⟨iff_of_false (by decide) (by omega), fun h => by cases h⟩

/-- From an empty array, the arguments are collected exactly if there is room for all of them
with their blanks. -/
theorem collect_empty (rest : List CString) :
    ((collect rest (.empty _) 0).overrun = false ↔
      (rest.map fun arg => arg.strlen + 1).sum < maxParamLength) ∧
    ((collect rest (.empty _) 0).overrun = false →
      (collect rest (.empty _) 0).string.text = written rest) := by
  have hzero : (StringArray.empty maxParamLength).string.strlen = 0 := by
    rw [← CString.length_text, StringArray.text_empty]
    rfl
  have hspec := @collect_spec (.empty maxParamLength) rest rfl (by rw [hzero]; decide)
  rwa [hzero, Nat.zero_add, StringArray.text_empty, List.nil_append] at hspec

/-! ## The call of the packets -/

/-- A string without its NUL. -/
def textOf (s : CString) : Watchdog.Str := ⟨s.text, CString.zero_notMem_text⟩

/-- The call of the packets fails where the array is overrun, and has the same
parameters otherwise. -/
theorem joinParams_eq (hinside : params.overrun = false)
    (hfits : params.string.strlen < maxParamLength) :
    Watchdog.joinParams params.string.text (rest.map textOf)
      = if (collect rest params params.string.strlen).overrun then none
        else some (collect rest params params.string.strlen).string.text := by
  induction rest generalizing params with
  | nil =>
      have hnil : collect [] params params.string.strlen = params := rfl
      rw [hnil, hinside]
      rfl
  | cons arg rest ih =>
      have htext : params.string.text ++ (textOf arg).val ++ [32]
          = (append params arg).string.text := by
        rw [append_text, List.append_assoc]
        rfl
      have hlen : params.string.text.length < maxParamLength := by
        rw [CString.length_text]
        exact hfits
      rw [List.map_cons, Watchdog.joinParams, if_pos hlen]
      simp only [htext, CString.length_text]
      rcases Nat.lt_or_ge (append params arg).string.strlen maxParamLength with hroom | hfull
      · rw [if_pos hroom, ih (append_inside hinside hroom) hroom, collect_room hfits hroom]
      · rw [if_neg (Nat.not_lt.mpr hfull), collect_full hfits hfull]
        rfl

/-! ## What is registered -/

/-- The written parameters are as long as the arguments with a blank for each. -/
theorem length_written (params : List CString) :
    (written params).length = (params.map fun arg => arg.strlen + 1).sum := by
  rw [written, List.length_flatMap]
  congr 1
  apply List.map_congr_left
  intro arg _
  rw [List.length_append, CString.length_text]
  rfl

/-- The counted parameters come first. -/
theorem written_prefix : written args.params <+: written (args.argv.drop 1) := by
  obtain ⟨others, hsplit⟩ : args.params <+: args.argv.drop 1 := by
    rw [Arguments.params, List.drop_take]
    exact List.take_prefix _ _
  rw [← hsplit, written, written, List.flatMap_append]
  exact List.prefix_append _ _

/-- The registration collects the arguments behind the name of the program. -/
theorem collected_eq : collected args = collect args.params (.empty _) 0 := by
  rw [collected]
  split
  · rename_i hnone
    have hnil : args.params = [] := by
      rw [List.isEmpty_iff] at hnone
      rw [Arguments.params, List.drop_take, hnone, List.take_nil]
    rw [hnil, collect]
  · rfl

/-- **Parameters.**  They are collected inside the array, and registered, exactly if they
come with their blanks to less than its size. -/
theorem bounded_iff (args : Arguments) (pid eMode timeout : BitVec 32) :
    Bounded args (fillInfo .zeroed pid args eMode timeout) ↔
      (args.params.map fun arg => arg.strlen + 1).sum < maxParamLength := by
  obtain ⟨hiff, htext⟩ := collect_empty args.params
  rw [← collected_eq] at hiff htext
  constructor
  · exact fun h => hiff.mp h.1
  · intro hroom
    have hinside := hiff.mpr hroom
    refine ⟨hinside, ?_, maxParamLength - 1, by decide, strncpy_terminated rfl, ?_⟩
    · exact strncpy_overrun
    · have hlen : (collected args).string.text.length ≤ maxParamLength - 1 := by
        rw [htext hinside, length_written]
        exact Nat.le_sub_one_of_lt hroom
      have hcopy := @strncpy_text maxParamLength Info.zeroed.params (collected args).string
        (maxParamLength - 1) rfl
      rw [List.take_of_length_le hlen, htext hinside] at hcopy
      exact hcopy ▸ written_prefix

/-- A daemon with a parameter of 511 bytes. -/
def longParam : Arguments where
  argc := 2
  argv := [ofText ("config".toList.map Char.toUInt8), ofText (List.replicate 511 'x'.toUInt8)]
  named := List.cons_ne_nil _ _
  counted := le_rfl

/-- The NUL comes behind the array. -/
theorem longParam_not_bounded :
    ¬ Bounded longParam (fillInfo .zeroed 7 longParam 0 30) := by
  intro ⟨hinside, _⟩
  have hparams : longParam.params = [ofText (List.replicate 511 'x'.toUInt8)] := rfl
  have hlen : (ofText (List.replicate 511 'x'.toUInt8)).strlen = 511 :=
    strlen_ofText_replicate (by decide)
  have hroom := (collect_empty longParam.params).1.mp (collected_eq ▸ hinside)
  rw [hparams, List.map_singleton, List.sum_singleton, hlen] at hroom
  exact absurd hroom (by decide)

end RegisteredParams

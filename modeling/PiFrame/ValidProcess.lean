import PiFrame.FileCopies
import PiFrame.WatchdogRestart

/-!
# Is it still the same program

`PFU_isValidProcess` reads the strings that a process was started with, from its `cmdline`
in `/proc`, and compares the first one with a name.  The array it reads them into may have
no NUL in it; but the comparison ends with the name, which is shorter.

The watchdog compares with the 63 bytes that it knows of a name, from which `basename` may
have taken the slashes at its end.  So it accepts no daemon whose name is longer, and one
whose name ends in slashes only if there is no other yet.
-/

namespace ValidProcess

open ByteMemory CharBuffer FileCopies Limits
open RegisteredParams (Arguments)
open Watchdog (basenameLeaves)
open WatchdogRestart

/-- `cmdline`: the strings, with their NULs. -/
def cmdline (argv : List CString) : List UInt8 := argv.flatMap fun arg => arg.text ++ [0]

/-- `strcmp` of what is in memory and a name: it goes on as far as the NUL of the name. -/
def sameName (memory : Memory) (programName : CString) : Bool :=
  strncmp memory programName.bytes (programName.strlen + 1)

/-- `PFU_isValidProcess` returns so.  The file may be missing, or not be opened; the kernel
answers the calls of `read` in its own way, and `tBuf` has what was on the stack. -/
inductive IsValidProcess (present : Bool) (opened : Option (List UInt8))
    (turns : Nat → SafeReads.Turn) (stack : Memory) (programName : CString) : Int → Prop
  | missing : present = false →
      IsValidProcess present opened turns stack programName 0
  | notOpened : present = true → opened = none →
      IsValidProcess present opened turns stack programName 0
  | read {content value tBuf} : present = true → opened = some content →
      Reads content turns stack maxPathLength 0 (.returned value tBuf) →
      IsValidProcess present opened turns stack programName
        (if 0 < value ∧ sameName tBuf programName then 1 else 0)

variable {memory stack : Memory} {name arg : CString} {argv : List CString} {i : Nat}
  {turns : Nat → SafeReads.Turn} {sched : SafeReads.Schedule} {rv : Int}
  {content : List UInt8}

/-! ## The comparison -/

theorem sameName_iff : sameName memory name = true ↔ ∀ i ≤ name.strlen, memory i = name.bytes i := by
  rw [sameName, strncmp, strncmpFrom_iff]
  simp only [Nat.zero_add, Nat.lt_succ_iff]
  constructor
  · intro h i hi
    -- Up to the NUL of the name there is none in the memory either.
    induction i using Nat.strongRecOn with
    | ind i ih =>
        refine h i hi fun j hj => ?_
        rw [ih j hj (by omega)]
        exact CString.of_lt_strlen (by omega)
  · intro h i hi _
    exact h i hi

/-- The bytes that have been read. -/
theorem store_take (hi : i < maxPathLength) (hlen : i < content.length) :
    (stack.store 0 (content.take maxPathLength)) i = content[i] := by
  have hget : (content.take maxPathLength)[i]? = some content[i] := by
    rw [List.getElem?_take_of_lt hi, List.getElem?_eq_getElem hlen]
  rw [Memory.store, if_pos (Nat.zero_le i), Nat.sub_zero, hget, Option.getD_some]

/-- The command line of a process is its arguments, each with a NUL behind it. -/
theorem cmdline_cons : cmdline (arg :: argv) = arg.text ++ 0 :: cmdline argv := by
  rw [cmdline, List.flatMap_cons, List.append_assoc]
  rfl

/-- The first string and its NUL. -/
theorem getElem_cmdline (hi : i ≤ arg.strlen)
    (hlen : i < (arg.text ++ 0 :: cmdline argv).length) :
    (arg.text ++ 0 :: cmdline argv)[i] = arg.bytes i := by
  rcases Nat.lt_or_eq_of_le hi with hlt | rfl
  · rw [List.getElem_append_left (by rwa [CString.length_text])]
    simp [CString.text]
  · rw [List.getElem_append_right (by rw [CString.length_text])]
    simp [arg.at_strlen]

/-- **The comparison.**  It finds the first string, however long it is. -/
theorem sameName_cmdline (hshort : name.strlen < maxPathLength) :
    sameName (stack.store 0 ((cmdline (arg :: argv)).take maxPathLength)) name = true ↔
      arg.text = name.text := by
  have hread : ∀ i ≤ arg.strlen, i < maxPathLength →
      (stack.store 0 ((cmdline (arg :: argv)).take maxPathLength)) i = arg.bytes i := by
    intro i hi hsize
    have hlen : i < (arg.text ++ 0 :: cmdline argv).length := by
      rw [List.length_append, CString.length_text, List.length_cons]
      omega
    rw [cmdline_cons, store_take hsize hlen, getElem_cmdline hi hlen]
  rw [sameName_iff, eq_comm, CString.text_eq_iff]
  constructor
  · intro h i hi
    rcases Nat.lt_or_ge arg.strlen name.strlen with hlt | hge
    · -- The NUL of the string would be a byte of the name.
      have hnul := h arg.strlen hlt.le
      rw [hread _ le_rfl (by omega), arg.at_strlen] at hnul
      exact absurd hnul.symm (CString.of_lt_strlen hlt)
    · rw [← h i hi, hread i (by omega) (by omega)]
  · intro h i hi
    have hlen : arg.strlen = name.strlen := by
      have htext := CString.text_eq_iff.mpr h
      rw [← CString.length_text, ← CString.length_text, htext]
    rw [hread i (by omega) (by omega), h i hi]

/-! ## The call -/

/-- What a call can read: something in front of a first string, and nothing else. -/
theorem zero_lt_value {value : Int} {tBuf : Memory}
    (hread : Reads (cmdline argv) turns stack maxPathLength 0 (.returned value tBuf))
    (hpos : 0 < value) :
    argv ≠ [] ∧ tBuf = stack.store 0 ((cmdline argv).take maxPathLength) := by
  obtain ⟨hvalue, htBuf⟩ := hread.value (by decide) hpos.le
  refine ⟨fun hnil => ?_, by rw [htBuf, List.drop_zero]⟩
  rw [hnil] at hvalue
  have hzero : (cmdline []).length = 0 := rfl
  rw [hzero] at hvalue
  omega

/-- If the call answers 1, the first argument of the process is the name. -/
theorem IsValidProcess.first (hshort : name.strlen < maxPathLength)
    (h : IsValidProcess true (some (cmdline argv)) turns stack name rv) :
    rv = 0 ∨ rv = 1 ∧ argv.head?.map CString.text = some name.text := by
  cases h with
  | missing hmissing => exact .inl rfl
  | notOpened _ hnone => exact .inl rfl
  | @read content value tBuf _ hopened hread =>
      cases hopened
      split
      · next hsame =>
        obtain ⟨hpos, hname⟩ := hsame
        obtain ⟨hsome, htBuf⟩ := zero_lt_value hread hpos
        obtain ⟨arg, rest, rfl⟩ := List.exists_cons_of_ne_nil hsome
        rw [htBuf, sameName_cmdline hshort] at hname
        exact .inr ⟨rfl, congrArg some hname⟩
      · exact .inl rfl

/-- Between interruptions the kernel delivers the file in pieces, and there is one result. -/
theorem isValidProcess_sched (hshort : name.strlen < maxPathLength) :
    IsValidProcess true (some (cmdline argv)) sched.turn stack name rv ↔
      rv = if argv.head?.map CString.text = some name.text then 1 else 0 := by
  have hread : Reads (cmdline argv) sched.turn stack maxPathLength 0
      (SafeReads.delivered (cmdline argv) stack maxPathLength 0) :=
    SafeReads.safeRead_returns (by decide)
  have hresult : (0 < ((min maxPathLength ((cmdline argv).length - 0) : Nat) : Int) ∧
      sameName (stack.store 0 (((cmdline argv).drop 0).take maxPathLength)) name = true) ↔
        argv.head?.map CString.text = some name.text := by
    cases argv with
    | nil => simp [cmdline]
    | cons arg rest =>
        have hlen : 0 < min maxPathLength ((cmdline (arg :: rest)).length - 0) := by
          rw [cmdline_cons, List.length_append, List.length_cons, maxPathLength]
          omega
        rw [List.drop_zero, sameName_cmdline hshort, and_iff_right (by exact_mod_cast hlen)]
        simp
  have hcall := @IsValidProcess.read _ _ _ _ name _ _ _ rfl rfl hread
  constructor
  · intro h
    cases h with
    | missing hmissing => cases hmissing
    | notOpened _ hnone => cases hnone
    | @read content value tBuf _ hopened hread' =>
        cases hopened
        cases hread'.unique hread
        exact if_congr hresult rfl rfl
  · rintro rfl
    rwa [if_congr hresult rfl rfl] at hcall

/-- **The same program.**  For a name that is shorter than the array and any strings of the
process, whatever is on the stack: the call never takes another program for it, however the
kernel answers; and between interruptions it has the value 1 exactly if the first string is
the name. -/
theorem isValidProcess_exact (argv : List CString) (stack : Memory) (name : CString)
    (hshort : name.strlen < maxPathLength) :
    (∀ turns rv, IsValidProcess true (some (cmdline argv)) turns stack name rv →
      rv = 0 ∨ rv = 1 ∧ argv.head?.map CString.text = some name.text) ∧
    ∀ sched : SafeReads.Schedule, ∀ rv,
      IsValidProcess true (some (cmdline argv)) sched.turn stack name rv ↔
        rv = if argv.head?.map CString.text = some name.text then 1 else 0 :=
  ⟨fun _ _ h => h.first hshort, fun _ _ => isValidProcess_sched hshort⟩

/-- A program with one parameter, read in two pieces. -/
theorem isValidProcess_exact_two_strings :
    IsValidProcess true
      (some (cmdline [ofText ("svc".toList.map Char.toUInt8), ofText ("-c".toList.map Char.toUInt8)]))
      SafeReads.interruptedOnce.turn (fun _ => 255) (ofText ("svc".toList.map Char.toUInt8)) 1 := by
  have hshort : (ofText ("svc".toList.map Char.toUInt8)).strlen < maxPathLength := by
    rw [strlen_ofText (by decide)]
    decide
  exact ((isValidProcess_exact [ofText ("svc".toList.map Char.toUInt8),
    ofText ("-c".toList.map Char.toUInt8)] (fun _ => 255) _ hshort).2
      SafeReads.interruptedOnce 1).mpr (if_pos rfl).symm

/-! ## The daemons of the watchdog -/

variable {args : Arguments} {pid eMode timeout : BitVec 32}

/-- A registered name is shorter than the array that `PFU_isValidProcess` reads into. -/
theorem compared_name_short (comparisons : Nat) :
    ((registered pid args eMode timeout).compared comparisons).name.string.strlen
      < maxPathLength := by
  have hle := length_compared_le (registered pid args eMode timeout) comparisons
  have hlt := @length_registered_name_lt args pid eMode timeout
  have hmax : maxNameLength < maxPathLength := by decide
  rw [← CString.length_text]
  omega

/-- The name is found if it was not cut off, nor trimmed by a comparison. -/
theorem head_eq_compared_name (comparisons : Nat) :
    args.argv.head?.map CString.text
        = some ((registered pid args eMode timeout).compared comparisons).name.string.text ↔
      (args.argv.head args.named).text.length < maxNameLength ∧
        (comparisons = 0 ∨
          basenameLeaves (args.argv.head args.named).text = (args.argv.head args.named).text) := by
  have hpos : 0 < maxNameLength := by decide
  rw [List.head?_eq_some_head args.named, Option.map_some, compared_name, registered_name,
    Option.some.injEq, eq_comm]
  by_cases hfirst : comparisons = 0
  · rw [if_pos hfirst, List.take_eq_self_iff, and_iff_left (.inl hfirst)]
    omega
  · rw [if_neg hfirst, kept_iff, or_iff_right hfirst]

/-- **Accepted daemons.**  Before `addServiceList` asks whether the process has the name that
was registered, it compares that name with those of the services in the list, and every
comparison takes the slashes off its end.  So a living daemon is accepted exactly if its name
is shorter than 64 bytes and, unless it is the first in the list, does not end in slashes.  If
it is accepted and has to be started again, after any comparisons more, it runs with
all its own strings exactly if its name does not end in slashes and every string is one
word. -/
theorem accepted_restarted (args : Arguments) (pid eMode timeout : BitVec 32)
    (comparisons more : Nat) (sched : SafeReads.Schedule) (stack stack' : Memory)
    (hroom : (args.params.map fun arg => arg.strlen + 1).sum < maxParamLength) :
    let program := (args.argv.head args.named).text
    let service := registered pid args eMode timeout
    let accepted := IsValidProcess true (some (cmdline args.argv)) sched.turn stack
      (service.compared comparisons).name.string 1
    (accepted ↔ program.length < maxNameLength ∧
      (comparisons = 0 ∨ basenameLeaves program = program)) ∧
      (accepted →
        (words (watchdogAction stack' (service.compared (comparisons + more))).2.string.text
            = Arguments.given args ++ [ampersand] ↔
          basenameLeaves program = program ∧ ∀ t ∈ Arguments.given args, IsWord t)) := by
  have haccepted : IsValidProcess true (some (cmdline args.argv)) sched.turn stack
      ((registered pid args eMode timeout).compared comparisons).name.string 1 ↔
        (args.argv.head args.named).text.length < maxNameLength ∧ (comparisons = 0 ∨
          basenameLeaves (args.argv.head args.named).text = (args.argv.head args.named).text) := by
    rw [isValidProcess_sched (compared_name_short comparisons), ← head_eq_compared_name comparisons]
    split
    · next h => exact iff_of_true rfl h
    · next h => exact iff_of_false (by decide) h
  refine ⟨haccepted, fun h => ?_⟩
  have hlen := (haccepted.mp h).1
  rw [words_watchdogAction_iff _ hroom, and_iff_right hlen]

/-- The daemon is accepted as the second in the list, and comes back with its option. -/
theorem accepted_restarted_with_option :
    IsValidProcess true (some (cmdline withOption.argv)) SafeReads.interruptedOnce.turn
        (fun _ => 255) ((registered 7 withOption 1 30).compared 1).name.string 1 ∧
      words (watchdogAction (fun _ => 0)
          ((registered 7 withOption 1 30).compared (1 + 2))).2.string.text
        = ["/system/bin/svc", "-c", "/mnt/cfg", "&"].map (·.toList.map Char.toUInt8) := by
  obtain ⟨haccepted, hwords⟩ := accepted_restarted withOption 7 1 30 1 2 SafeReads.interruptedOnce
    (fun _ => 255) (fun _ => 0) withOption_room
  rw [withOption_program] at haccepted
  rw [withOption_given, withOption_program] at hwords
  have h := haccepted.mpr ⟨by decide, .inr (by decide)⟩
  exact ⟨h, (hwords h).mpr ⟨by decide, by decide +kernel⟩⟩

end ValidProcess

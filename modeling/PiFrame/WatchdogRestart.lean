import PiFrame.RegisteredParams
import PiFrame.SeparatedFields
import PiFrame.WatchdogServices

/-!
# The command lines that restart a daemon

A service that does not answer is killed and started again by `watchdogAction`, with the
name and the parameters that it registered with.  The shell takes the command apart at
its blanks.  So a daemon comes back with its own arguments exactly if its name was not
cut off, and each of its arguments is one word.

The other characters that mean something to the shell are left out.
-/

namespace WatchdogRestart

open CharBuffer Limits
open RegisteredParams (Arguments Info fillInfo written)
open Watchdog (basename basenameLeaves trimSlashes)

/-! ## Words -/

/-- The byte between two words. -/
def space : UInt8 := ' '.toUInt8

/-- What stands between the blanks of a line. -/
def words (line : List UInt8) : List (List UInt8) := (line.splitOn space).filter (· ≠ [])

/-- One word: something, and no blank in it. -/
def IsWord (t : List UInt8) : Prop := t ≠ [] ∧ space ∉ t

instance : DecidablePred IsWord := fun t => inferInstanceAs (Decidable (t ≠ [] ∧ space ∉ t))

variable {t line : List UInt8} {lines : List (List UInt8)}

theorem words_append_space (t rest : List UInt8) :
    words (t ++ space :: rest) = words t ++ words rest := by
  rw [words, words, words, List.splitOn_append_cons_self, List.filter_append]

theorem words_nil : words [] = [] := by
  decide

theorem words_of_isWord (h : IsWord t) : words t = [t] := by
  rw [words, List.splitOn_eq_singleton h.2]
  simp [h.1]

theorem isWord_of_mem_words (h : t ∈ words line) : IsWord t := by
  obtain ⟨hmem, hsome⟩ := List.mem_filter.mp h
  exact ⟨of_decide_eq_true hsome, SeparatedFields.notMem_of_mem_splitOn hmem⟩

/-- Texts that are strung together with a blank behind each of them. -/
theorem words_flatMap_append (lines : List (List UInt8)) (rest : List UInt8) :
    words ((lines.flatMap fun line => line ++ [space]) ++ rest)
      = lines.flatMap words ++ words rest := by
  induction lines with
  | nil => rfl
  | cons line lines ih =>
      rw [List.flatMap_cons, List.append_assoc, List.append_assoc, List.singleton_append,
        words_append_space, ih, List.flatMap_cons, List.append_assoc]

theorem flatMap_words (h : ∀ line ∈ lines, IsWord line) : lines.flatMap words = lines := by
  induction lines with
  | nil => rfl
  | cons line lines ih =>
      rw [List.flatMap_cons, words_of_isWord (h line List.mem_cons_self),
        ih fun t ht => h t (List.mem_cons_of_mem _ ht)]
      rfl

/-- A line and texts give a word and the same texts exactly if they are words.  The line is a
front of the word, so it cannot be longer. -/
theorem words_eq_iff (hfront : line <+: t) :
    words line ++ lines.flatMap words = t :: lines ↔
      line = t ∧ ∀ u ∈ t :: lines, IsWord u := by
  constructor
  · intro h
    have hall : ∀ u ∈ t :: lines, IsWord u := by
      intro u hu
      rw [← h, List.mem_append, List.mem_flatMap] at hu
      rcases hu with hu | ⟨_, -, hu⟩ <;> exact isWord_of_mem_words hu
    rw [flatMap_words fun u hu => hall u (List.mem_cons_of_mem _ hu), ← List.singleton_append,
      List.append_left_inj] at h
    refine ⟨?_, hall⟩
    have hline : IsWord line := by
      constructor
      · rintro rfl
        rw [words_nil] at h
        cases h
      · exact fun hmem => (hall t List.mem_cons_self).2 (hfront.subset hmem)
    rw [words_of_isWord hline] at h
    exact List.singleton_inj.mp h
  · rintro ⟨rfl, hall⟩
    rw [words_of_isWord (hall _ List.mem_cons_self),
      flatMap_words fun u hu => hall u (List.mem_cons_of_mem _ hu)]
    rfl

/-! ## `watchdogAction` -/

/-- The strings of `struct PFWDRegister` as the service has them. -/
structure Service where
  name : StringArray maxNameLength
  params : StringArray maxParamLength

/-- `basename` of the name stores a NUL in front of the slashes at its end. -/
def Service.trim (service : Service) : Service :=
  { service with name := service.name.cut (basenameLeaves service.name.string.text).length }

/-- The service after `getServiceListWithName` has compared its name so many times: before
it is listed, with the name of every service that is, and afterwards with every name that is
looked for. -/
def Service.compared (service : Service) : Nat → Service
  | 0 => service
  | n + 1 => (service.compared n).trim

/-- `sizeof(cmd)`. -/
def sizeofCmd : Nat := 1024

/-- `PFWD_CMD_KILL_PROCESS`. -/
def pfwdCmdKillProcess : List UInt8 := "killall -9 ".toList.map Char.toUInt8

def ampersand : List UInt8 := ['&'.toUInt8]

/-- The command that kills the process; the array holds what was on the stack. -/
def killCommand (stack : Nat → UInt8) (service : Service) : StringArray sizeofCmd :=
  printInto ⟨stack, false⟩ sizeofCmd
    (ofText (pfwdCmdKillProcess ++ basename service.name.string.text))

/-- The command that starts it, after `basename` has shortened the name. -/
def startCommand (cmd : StringArray sizeofCmd) (service : Service) : StringArray sizeofCmd :=
  printInto cmd.toBuffer sizeofCmd
    (ofText (basenameLeaves service.name.string.text ++ space ::
      (service.params.string.text ++ space :: ampersand)))

/-- `watchdogAction` for the mode `RESTART`, not in debug mode: what `system` gets. -/
def watchdogAction (stack : Nat → UInt8) (service : Service) :
    StringArray sizeofCmd × StringArray sizeofCmd :=
  let kill := killCommand stack service
  (kill, startCommand kill service)

/-- What `PFWatchdogRegister` sends, as `addServiceList` copies it. -/
def registered (pid : BitVec 32) (args : Arguments) (eMode timeout : BitVec 32) : Service :=
  let info := fillInfo .zeroed pid args eMode timeout
  { name := ⟨info.name, maxNameLength - 1, strncpy_terminated rfl⟩
    params := ⟨info.params, maxParamLength - 1, strncpy_terminated rfl⟩ }

variable {service : Service} {args : Arguments} {pid eMode timeout : BitVec 32}
  {stack : Nat → UInt8} {cmd : StringArray sizeofCmd}

/-! ## The strings -/

theorem trimSlashes_isPrefix (name : List UInt8) : trimSlashes name <+: name :=
  List.rdropWhile_prefix _ name

/-- `basename` leaves a part of the name from its front on. -/
theorem basenameLeaves_isPrefix (name : List UInt8) : basenameLeaves name <+: name := by
  rw [basenameLeaves]
  split
  · exact List.prefix_rfl
  · exact trimSlashes_isPrefix name

/-- The last component is the end of a name without its slashes, or a single byte. -/
theorem basename_cases (name : List UInt8) :
    basename name = [46] ∨ basename name = [47] ∨ basename name <:+ trimSlashes name := by
  rw [basename]
  split
  · exact .inl rfl
  · split
    · exact .inr (.inl rfl)
    · exact .inr (.inr (List.rtakeWhile_suffix _ _))

theorem zero_notMem_basename {name : List UInt8} (h : 0 ∉ name) : 0 ∉ basename name := by
  rcases basename_cases name with heq | heq | hsuffix
  · rw [heq]; decide
  · rw [heq]; decide
  · exact fun hmem => h ((trimSlashes_isPrefix name).subset (hsuffix.subset hmem))

/-- The file name is not longer than the name, but for the "." of an empty one. -/
theorem length_basename_le (name : List UInt8) : (basename name).length ≤ name.length + 1 := by
  rcases basename_cases name with heq | heq | hsuffix
  · rw [heq, List.length_singleton]; omega
  · rw [heq, List.length_singleton]; omega
  · have hleft := hsuffix.length_le
    have hright := (trimSlashes_isPrefix name).length_le
    omega

/-- A name that has been through `basename` goes through it again unchanged. -/
theorem basenameLeaves_idem (name : List UInt8) :
    basenameLeaves (basenameLeaves name) = basenameLeaves name := by
  have hidem : trimSlashes (trimSlashes name) = trimSlashes name :=
    List.rdropWhile_idempotent _ name
  by_cases hall : trimSlashes name = []
  · have hleft : basenameLeaves name = name := if_pos hall
    rw [hleft]
    exact hleft
  · have hleft : basenameLeaves name = trimSlashes name := if_neg hall
    rw [hleft, basenameLeaves, hidem, if_neg hall]

/-- The slashes that `basename` has taken away make no difference to it. -/
theorem basename_basenameLeaves (name : List UInt8) :
    basename (basenameLeaves name) = basename name := by
  have hidem : trimSlashes (trimSlashes name) = trimSlashes name :=
    List.rdropWhile_idempotent _ name
  by_cases hall : trimSlashes name = []
  · rw [basenameLeaves, if_pos hall]
  · have hleft : basenameLeaves name = trimSlashes name := if_neg hall
    have hsome : name ≠ [] := by
      rintro rfl
      exact hall rfl
    rw [hleft, basename, basename, if_neg hall, if_neg hsome, hidem]

/-- The first comparison trims the name, and the others find nothing to do. -/
theorem compared_name (service : Service) (n : Nat) :
    (service.compared n).name.string.text =
      if n = 0 then service.name.string.text else basenameLeaves service.name.string.text := by
  induction n with
  | zero => rfl
  | succ n ih =>
      have hprefix := basenameLeaves_isPrefix (service.compared n).name.string.text
      have htrim : (service.compared (n + 1)).name.string.text =
          basenameLeaves (service.compared n).name.string.text := by
        have hlen := hprefix.length_le
        rw [CString.length_text] at hlen
        exact (StringArray.cut_text hlen).trans (List.prefix_iff_eq_take.mp hprefix).symm
      rw [htrim, ih, if_neg (Nat.succ_ne_zero n)]
      split
      · rfl
      · exact basenameLeaves_idem _

/-- Whatever has been compared, the kill command gets the same component. -/
theorem basename_compared (service : Service) (n : Nat) :
    basename (service.compared n).name.string.text = basename service.name.string.text := by
  rw [compared_name]
  split
  · rfl
  · exact basename_basenameLeaves _

/-- The start command is the same after any comparisons, since a comparison takes away no more
than `basename` does. -/
theorem basenameLeaves_compared (service : Service) (n : Nat) :
    basenameLeaves (service.compared n).name.string.text =
      basenameLeaves service.name.string.text := by
  rw [compared_name]
  split
  · rfl
  · exact basenameLeaves_idem _

/-- The lookups work on the name, not on the parameters. -/
theorem compared_params (service : Service) (n : Nat) :
    (service.compared n).params = service.params := by
  induction n with
  | zero => rfl
  | succ n ih => exact ih

/-- Comparing makes no name longer. -/
theorem length_compared_le (service : Service) (n : Nat) :
    (service.compared n).name.string.text.length ≤ service.name.string.text.length := by
  rw [compared_name]
  split
  · exact le_rfl
  · exact (basenameLeaves_isPrefix _).length_le

/-- The NUL of a string that was copied by `strncpy` stands in its array. -/
theorem registered_name :
    (registered pid args eMode timeout).name.string.text
      = (args.argv.head args.named).text.take (maxNameLength - 1) :=
  strncpy_text rfl

/-- The parameters are those of the program, if there was room for them. -/
theorem registered_params
    (hroom : (args.params.map fun arg => arg.strlen + 1).sum < maxParamLength) :
    (registered pid args eMode timeout).params.string.text = written args.params := by
  obtain ⟨hiff, htext⟩ := RegisteredParams.collect_empty args.params
  rw [← RegisteredParams.collected_eq] at hiff htext
  have hcopy : (registered pid args eMode timeout).params.string.text
      = (RegisteredParams.collected args).string.text.take (maxParamLength - 1) :=
    strncpy_text rfl
  rw [hcopy, htext (hiff.mpr hroom)]
  apply List.take_of_length_le
  rw [RegisteredParams.length_written]
  exact Nat.le_sub_one_of_lt hroom

/-- A text that is short enough is put into the array as it is. -/
theorem printInto_cmd {b : Buffer sizeofCmd} (hnul : 0 ∉ t) (hfits : t.length < sizeofCmd) :
    (printInto b sizeofCmd (ofText t)).string.text = t := by
  rw [printInto_text, text_ofText hnul]
  exact List.take_of_length_le (Nat.le_sub_one_of_lt hfits)

/-- No command is cut off. -/
theorem killCommand_text (hname : service.name.string.text.length < maxNameLength) :
    (killCommand stack service).string.text
      = pfwdCmdKillProcess ++ basename service.name.string.text := by
  have hshort := length_basename_le service.name.string.text
  have hkill : pfwdCmdKillProcess.length = 11 := by decide
  have hmax : maxNameLength = 64 := rfl
  apply printInto_cmd
  · rw [List.mem_append]
    rintro (h | h)
    · exact absurd h (by decide)
    · exact zero_notMem_basename CString.zero_notMem_text h
  · rw [List.length_append, hkill, sizeofCmd]
    omega

/-- The start command is whole: the name as `basename` leaves it, the parameters and the
ampersand. -/
theorem startCommand_text (hname : service.name.string.text.length < maxNameLength)
    (hparams : service.params.string.text.length < maxParamLength) :
    (startCommand cmd service).string.text
      = basenameLeaves service.name.string.text ++ space ::
          (service.params.string.text ++ space :: ampersand) := by
  have hshort := (basenameLeaves_isPrefix service.name.string.text).length_le
  have hmax : maxNameLength = 64 := rfl
  have hmaxParam : maxParamLength = 512 := rfl
  apply printInto_cmd
  · have hspace : (0 : UInt8) ≠ space := by decide
    have hamp : (0 : UInt8) ∉ ampersand := by decide
    simp only [List.mem_append, List.mem_cons, hspace, hamp, false_or, or_false, not_or]
    exact ⟨fun h => CString.zero_notMem_text ((basenameLeaves_isPrefix _).subset h),
      CString.zero_notMem_text⟩
  · simp only [List.length_append, List.length_cons, ampersand, sizeofCmd, List.length_nil]
    omega

/-! ## Round trip -/

/-- The strings that the program was started with. -/
def Arguments.given (args : Arguments) : List (List UInt8) :=
  (args.argv.head args.named).text :: args.params.map CString.text

/-- The parameters are the arguments, with a blank behind each. -/
theorem written_eq (params : List CString) :
    written params = (params.map CString.text).flatMap fun t => t ++ [space] := by
  rw [written, List.flatMap_map]
  rfl

theorem words_ampersand : words ampersand = [ampersand] := by
  decide

/-- A registered name is shorter than its array. -/
theorem length_registered_name_lt :
    (registered pid args eMode timeout).name.string.text.length < maxNameLength := by
  rw [registered_name, List.length_take]
  exact Nat.lt_of_le_of_lt (Nat.min_le_left _ _) (by decide)

/-- The command that starts a registered daemon is whole. -/
theorem startCommand_registered (comparisons : Nat)
    (hroom : (args.params.map fun arg => arg.strlen + 1).sum < maxParamLength) :
    (startCommand cmd ((registered pid args eMode timeout).compared comparisons)).string.text
      = basenameLeaves ((args.argv.head args.named).text.take (maxNameLength - 1)) ++ space ::
          (written args.params ++ space :: ampersand) := by
  have hparams := @registered_params _ pid eMode timeout hroom
  rw [startCommand_text, basenameLeaves_compared, compared_params, registered_name, hparams]
  · exact (length_compared_le _ _).trans_lt length_registered_name_lt
  · rw [compared_params, hparams, RegisteredParams.length_written]
    exact hroom

/-- The words of the command. -/
theorem words_startCommand (comparisons : Nat)
    (hroom : (args.params.map fun arg => arg.strlen + 1).sum < maxParamLength) :
    words (startCommand cmd
        ((registered pid args eMode timeout).compared comparisons)).string.text
      = words (basenameLeaves ((args.argv.head args.named).text.take (maxNameLength - 1)))
        ++ (args.params.map CString.text).flatMap words ++ [ampersand] := by
  have hline : written args.params ++ space :: ampersand
      = ((args.params.map CString.text).flatMap fun t => t ++ [space])
        ++ ([] ++ space :: ampersand) := by
    rw [written_eq, List.nil_append]
  rw [startCommand_registered comparisons hroom, words_append_space, hline,
    words_flatMap_append, words_append_space, words_nil, words_ampersand, List.nil_append,
    List.append_assoc]

/-- Nothing has been cut off or trimmed off a name exactly if it is short enough and does not
end in slashes. -/
theorem kept_iff {program : List UInt8} :
    basenameLeaves (program.take (maxNameLength - 1)) = program ↔
      program.length < maxNameLength ∧ basenameLeaves program = program := by
  have hpos : 0 < maxNameLength := by decide
  constructor
  · intro h
    have hlen := (basenameLeaves_isPrefix (program.take (maxNameLength - 1))).length_le
    rw [h, List.length_take] at hlen
    have hshort : program.length ≤ maxNameLength - 1 := by omega
    rw [List.take_of_length_le hshort] at h
    exact ⟨by omega, h⟩
  · rintro ⟨hshort, h⟩
    rwa [List.take_of_length_le (Nat.le_sub_one_of_lt hshort)]

/-- The words are those of the program exactly if its name was kept, and they are words. -/
theorem words_watchdogAction_iff (comparisons : Nat)
    (hroom : (args.params.map fun arg => arg.strlen + 1).sum < maxParamLength) :
    words (watchdogAction stack
        ((registered pid args eMode timeout).compared comparisons)).2.string.text
          = Arguments.given args ++ [ampersand] ↔
      (args.argv.head args.named).text.length < maxNameLength ∧
        basenameLeaves (args.argv.head args.named).text = (args.argv.head args.named).text ∧
        ∀ t ∈ Arguments.given args, IsWord t := by
  have hfront := (basenameLeaves_isPrefix
    ((args.argv.head args.named).text.take (maxNameLength - 1))).trans (List.take_prefix _ _)
  show words (startCommand (killCommand stack _) _).string.text = _ ↔ _
  rw [words_startCommand comparisons hroom, Arguments.given, List.append_left_inj, words_eq_iff hfront,
    kept_iff, and_assoc]

/-- **Restart.**  A daemon whose parameters were registered inside their array is killed by
the last component of the first 63 bytes of its name, however often that name has been
compared.  Both commands stay inside their array, and neither is cut off.  The daemon is
started in the background with the strings it was started with before exactly if its name
is shorter than 64 bytes and does not end in slashes, and each of its strings is one word. -/
theorem restarted_as_registered (stack : Nat → UInt8) (pid eMode timeout : BitVec 32)
    (args : Arguments) (comparisons : Nat)
    (hroom : (args.params.map fun arg => arg.strlen + 1).sum < maxParamLength) :
    let program := (args.argv.head args.named).text
    let service := (registered pid args eMode timeout).compared comparisons
    let kill := (watchdogAction stack service).1
    let start := (watchdogAction stack service).2
    kill.overrun = false ∧ start.overrun = false ∧
      kill.string.text = pfwdCmdKillProcess ++ basename (program.take (maxNameLength - 1)) ∧
      start.string.text = basenameLeaves (program.take (maxNameLength - 1)) ++ space ::
        (written args.params ++ space :: ampersand) ∧
      (words start.string.text = Arguments.given args ++ [ampersand] ↔
        program.length < maxNameLength ∧ basenameLeaves program = program ∧
          ∀ t ∈ Arguments.given args, IsWord t) := by
  intro program service
  have hkill : (killCommand stack service).overrun = false := printInto_overrun (by decide) le_rfl
  refine ⟨hkill, ?_, ?_, ?_, ?_⟩
  · exact (printInto_overrun (by decide) le_rfl).trans hkill
  · have hname : service.name.string.text.length < maxNameLength :=
      (length_compared_le _ _).trans_lt length_registered_name_lt
    have hlast : basename service.name.string.text = basename (program.take (maxNameLength - 1)) :=
      (basename_compared _ _).trans (congrArg basename registered_name)
    exact (killCommand_text hname).trans (congrArg _ hlast)
  · exact startCommand_registered comparisons hroom
  · exact words_watchdogAction_iff comparisons hroom

/-- A daemon with an option and a file. -/
def withOption : Arguments where
  argc := 3
  argv := [ofText ("/system/bin/svc".toList.map Char.toUInt8),
    ofText ("-c".toList.map Char.toUInt8), ofText ("/mnt/cfg".toList.map Char.toUInt8)]
  named := List.cons_ne_nil _ _
  counted := le_rfl

theorem withOption_program : (withOption.argv.head withOption.named).text
    = "/system/bin/svc".toList.map Char.toUInt8 :=
  text_ofText (by decide)

theorem withOption_given : Arguments.given withOption
    = ["/system/bin/svc", "-c", "/mnt/cfg"].map (·.toList.map Char.toUInt8) := by
  rw [Arguments.given, withOption_program]
  show _ :: [_, _] = _
  rw [text_ofText (by decide), text_ofText (by decide)]
  rfl

/-- The arguments of the example fit into the parameters. -/
theorem withOption_room :
    (withOption.params.map fun arg => arg.strlen + 1).sum < maxParamLength := by
  have hparams : withOption.params.map CString.text
      = ["-c", "/mnt/cfg"].map (·.toList.map Char.toUInt8) :=
    congrArg (List.drop 1) withOption_given
  rw [← RegisteredParams.length_written, written_eq, hparams]
  decide

/-- A program that was started with one option is restarted with it. -/
theorem restarted_as_registered_with_option :
    words (watchdogAction (fun _ => 0)
        ((registered 7 withOption 1 30).compared 1)).2.string.text
      = ["/system/bin/svc", "-c", "/mnt/cfg", "&"].map (·.toList.map Char.toUInt8) := by
  obtain ⟨-, -, -, -, hiff⟩ :=
    restarted_as_registered (fun _ => 0) 7 1 30 withOption 1 withOption_room
  rw [withOption_given, withOption_program] at hiff
  exact hiff.mpr ⟨by decide, by decide, by decide +kernel⟩

end WatchdogRestart

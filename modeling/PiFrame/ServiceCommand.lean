import PiFrame.EventHeader
import PiFrame.Limits
import PiFrame.StringArrays

/-!
# The command lines of the service daemon

`doServiceEvent` writes the requested command into an array of 512 bytes, cut off if it
must be, and appends a redirection and an ampersand without a look at the room that
is left.
-/

namespace ServiceCommand

open CharBuffer EventHeader Limits

/-- Both structures have the same members, of 660 bytes. -/
def pfeServiceSystem : BitVec 32 := mkeid epfModService 0 660 0
def pfeServiceRequestCommand : BitVec 32 := mkeid epfModService 101 660 0

def esvcCmdBackground : BitVec 32 := 1

/-- `struct PFEServiceSystem` and `struct PFEServiceRequestCommand`, their strings
ending inside their arrays. -/
structure PFEServiceSystem where
  id : BitVec 32
  key : BitVec 32
  eCmdType : BitVec 32
  command : CString
  resultPath : CString
  commandFits : command.strlen < maxCommandLength
  pathFits : resultPath.strlen < maxBasePathLength

/-- `struct PFEServiceReplyCommand`. -/
structure PFEServiceReplyCommand where
  key : BitVec 32
  result : Int
  resultSystem : Int
  errorNumber : Int
  deriving DecidableEq

def ervOk : Int := 0

/-- What the shell is given, and what comes of it. -/
structure Done where
  cmd : Buffer maxCommandLength
  reply : Option PFEServiceReplyCommand
  value : Int

def blank : List UInt8 := [' '.toUInt8]
def redirection : List UInt8 := ['>'.toUInt8, ' '.toUInt8]
def ampersand : List UInt8 := ['&'.toUInt8]

/-- The command line, in an array that holds what was on the stack. -/
def buildCommand (stack : Nat → UInt8) (sysevent : PFEServiceSystem) :
    StringArray maxCommandLength :=
  let cmd := printInto ⟨stack, false⟩ maxCommandLength (ofText (sysevent.command.text ++ blank))
  let cmd :=
    if sysevent.resultPath.bytes 0 ≠ 0 then
      strcat (strcat (strcat cmd (ofText redirection)) sysevent.resultPath) (ofText blank)
    else cmd
  if sysevent.eCmdType = esvcCmdBackground then strcat cmd (ofText ampersand) else cmd

/-- `WEXITSTATUS`. -/
def exitStatus (status : Int) : Int := status / 256 % 256

/-- `doServiceEvent`; `system` returns its value and `errno`. -/
def doServiceEvent (system : Buffer maxCommandLength → Int × Int) (stack : Nat → UInt8)
    (event : PFEServiceSystem) : Done :=
  let fgRequest := event.id = pfeServiceRequestCommand ∧ event.key ≠ 0
  let cmd : Buffer maxCommandLength :=
    if event.id = pfeServiceRequestCommand ∨ event.id = pfeServiceSystem then
      (buildCommand stack event).toBuffer
    else ⟨stack, false⟩
  let resultSystem := (system cmd).1
  let errorNumber := if resultSystem = -1 then (system cmd).2 else 0
  { cmd
    reply := if fgRequest then some ⟨event.key, ervOk, resultSystem, errorNumber⟩ else none
    value := exitStatus resultSystem }

/-- The whole command, the redirection where there is a path, and the ampersand for
a background command. -/
def requested (event : PFEServiceSystem) : List UInt8 :=
  event.command.text ++
    (if event.resultPath.text = [] then [] else blank ++ redirection ++ event.resultPath.text) ++
    if event.eCmdType = esvcCmdBackground then blank ++ ampersand else []

/-- The shell is given what was requested, up to blanks behind it, and it fits with its
NUL into the array. -/
def Built (event : PFEServiceSystem) (done : Done) : Prop :=
  done.cmd.overrun = false ∧ ∃ (hnul : ∃ i, done.cmd.bytes i = 0) (n : Nat),
    (CString.mk done.cmd.bytes hnul).text = requested event ++ List.replicate n ' '.toUInt8

/-- A foreground command without redirection, or one that leaves room for all that is
appended. -/
def Fits (event : PFEServiceSystem) : Prop :=
  (event.resultPath.text = [] ∧ event.eCmdType ≠ esvcCmdBackground) ∨
    event.command.strlen + (if event.resultPath.text = [] then 1 else event.resultPath.strlen + 4)
      + (if event.eCmdType = esvcCmdBackground then 1 else 0) < maxCommandLength

variable {stack : Nat → UInt8} {event : PFEServiceSystem}

/-! ## The line -/

/-- The strings that are appended to the command. -/
def appended (event : PFEServiceSystem) : List CString :=
  (if event.resultPath.text = [] then []
    else [ofText redirection, event.resultPath, ofText blank]) ++
    if event.eCmdType = esvcCmdBackground then [ofText ampersand] else []

/-- The command as `snprintf` leaves it. -/
def printed (event : PFEServiceSystem) : List UInt8 :=
  (event.command.text ++ blank).take (maxCommandLength - 1)

theorem bytes_zero_iff {s : CString} : s.bytes 0 = 0 ↔ s.text = [] := by
  rw [← List.length_eq_zero_iff, CString.length_text, CString.strlen_eq_iff]
  exact ⟨fun h => ⟨h, fun i hi => by cases hi⟩, fun h => h.1⟩

@[simp] theorem text_blank : (ofText blank).text = blank := text_ofText (by decide)

@[simp] theorem text_redirection : (ofText redirection).text = redirection :=
  text_ofText (by decide)

@[simp] theorem text_ampersand : (ofText ampersand).text = ampersand := text_ofText (by decide)

@[simp] theorem length_blank : blank.length = 1 := rfl

@[simp] theorem length_redirection : redirection.length = 2 := rfl

@[simp] theorem length_ampersand : ampersand.length = 1 := rfl

/-- The command is printed and then grows by `strcat`, piece by piece. -/
theorem buildCommand_eq : buildCommand stack event =
    strcats (printInto ⟨stack, false⟩ maxCommandLength (ofText (event.command.text ++ blank)))
      (appended event) := by
  rw [buildCommand, appended]
  simp only [ne_eq, bytes_zero_iff]
  by_cases hpath : event.resultPath.text = [] <;>
    by_cases hback : event.eCmdType = esvcCmdBackground <;>
    simp only [hpath, hback, not_true_eq_false, not_false_eq_true, if_true, if_false] <;> rfl

/-- What is printed is the front of the command that fits. -/
theorem printInto_command :
    (printInto ⟨stack, false⟩ maxCommandLength (ofText (event.command.text ++ blank)) :
      StringArray maxCommandLength).string.text = printed event := by
  have hnul : 0 ∉ event.command.text ++ blank := by
    rw [List.mem_append, not_or]
    exact ⟨CString.zero_notMem_text, by decide⟩
  rw [printInto_text, text_ofText hnul]
  rfl

/-- The built command is what is printed and what is appended. -/
theorem buildCommand_text : (buildCommand stack event).string.text
    = printed event ++ (appended event).flatMap CString.text := by
  rw [buildCommand_eq, strcats_text, printInto_command]

/-- The array is overrun when something is appended for which there is no room. -/
theorem buildCommand_overrun : (buildCommand stack event).overrun = true ↔ appended event ≠ [] ∧
    maxCommandLength ≤ (printed event).length
      + ((appended event).flatMap CString.text).length := by
  have hprint : (printInto ⟨stack, false⟩ maxCommandLength
      (ofText (event.command.text ++ blank)) : StringArray maxCommandLength).overrun = false :=
    printInto_overrun (by decide) le_rfl
  rw [← List.length_append, ← @buildCommand_text stack, CString.length_text, buildCommand_eq,
    strcats_overrun, hprint]
  simp

/-! ## What was requested -/

/-- Nothing is appended if there is neither a path for the result nor a background. -/
theorem appended_eq_nil_iff : appended event = [] ↔
    event.resultPath.text = [] ∧ event.eCmdType ≠ esvcCmdBackground := by
  rw [appended]
  by_cases hpath : event.resultPath.text = [] <;>
    by_cases hback : event.eCmdType = esvcCmdBackground <;> simp [hpath, hback]

/-- `snprintf` cuts the command off at the end of the array. -/
theorem length_printed : (printed event).length
    = min (maxCommandLength - 1) (event.command.strlen + 1) := by
  rw [printed, List.length_take, List.length_append, CString.length_text]
  rfl

/-- `strcat` appends the redirection with its path and the ampersand, whatever room there is. -/
theorem length_appended : ((appended event).flatMap CString.text).length
    = (if event.resultPath.text = [] then 0 else event.resultPath.strlen + 3)
      + if event.eCmdType = esvcCmdBackground then 1 else 0 := by
  rw [appended]
  by_cases hpath : event.resultPath.text = [] <;>
    by_cases hback : event.eCmdType = esvcCmdBackground <;> simp [hpath, hback] <;> omega

/-- A command with something behind it fits when all of it does. -/
theorem fits_iff : Fits event ↔ appended event = [] ∨ event.command.strlen + 1
    + ((appended event).flatMap CString.text).length < maxCommandLength := by
  rw [Fits, appended_eq_nil_iff, length_appended]
  refine or_congr_right ?_
  by_cases hpath : event.resultPath.text = [] <;>
    by_cases hback : event.eCmdType = esvcCmdBackground <;> simp [hpath, hback] <;> omega

/-- Where there is room the line is what was requested, and a blank at most: the blank that is
printed behind the command. -/
theorem line_eq (hfits : Fits event) : ∃ n,
    printed event ++ (appended event).flatMap CString.text
      = requested event ++ List.replicate n ' '.toUInt8 := by
  by_cases hroom : event.command.strlen + 1 < maxCommandLength
  · have hall : printed event = event.command.text ++ blank := by
      rw [printed, List.take_of_length_le]
      rw [List.length_append, CString.length_text]
      exact Nat.le_sub_one_of_lt hroom
    have hone : [' '.toUInt8] = blank := rfl
    refine ⟨if event.eCmdType = esvcCmdBackground then 0 else 1, ?_⟩
    rw [hall, appended, requested]
    by_cases hpath : event.resultPath.text = [] <;>
      by_cases hback : event.eCmdType = esvcCmdBackground <;>
      simp [hpath, hback, hone]
  · -- the command fills the array, and the blank behind it is cut off
    have hfull := event.commandFits
    have hnone : appended event = [] := (fits_iff.mp hfits).resolve_right (by omega)
    obtain ⟨hpath, hback⟩ := appended_eq_nil_iff.mp hnone
    have hcut : printed event = event.command.text := by
      have hlen : event.command.text.length = maxCommandLength - 1 := by
        rw [CString.length_text]
        omega
      rw [printed, ← hlen]
      exact List.take_left
    refine ⟨0, ?_⟩
    rw [hnone, hcut, requested, if_pos hpath, if_neg hback]
    simp

/-- Inside its array is only a line that fits: if there has been no overrun, the strings and
what stands between them are short enough. -/
theorem fits_of_inside (hinside : (buildCommand stack event).overrun = false) : Fits event := by
  have hlen := @length_printed event
  have hfull := event.commandFits
  have hsize : maxCommandLength = 512 := rfl
  rw [← Bool.not_eq_true, buildCommand_overrun] at hinside
  rw [fits_iff]
  by_cases hnone : appended event = []
  · exact .inl hnone
  · have hpos : 0 < ((appended event).flatMap CString.text).length := by
      have hsome := mt appended_eq_nil_iff.mpr hnone
      rw [length_appended]
      split
      · rw [if_pos (by simp_all)]
        omega
      · omega
    have hroom : ¬ maxCommandLength ≤ (printed event).length
        + ((appended event).flatMap CString.text).length := fun hlong => hinside ⟨hnone, hlong⟩
    exact .inr (by omega)

/-- A command that fits is built inside its array. -/
theorem inside_of_fits (hfits : Fits event) : (buildCommand stack event).overrun = false := by
  have hlen := @length_printed event
  rw [← Bool.not_eq_true, buildCommand_overrun]
  rintro ⟨hsome, hlong⟩
  have hroom := (fits_iff.mp hfits).resolve_left hsome
  omega

variable {system : Buffer maxCommandLength → Int × Int}

/-- A service event runs the command that was built. -/
theorem doServiceEvent_cmd
    (hid : event.id = pfeServiceRequestCommand ∨ event.id = pfeServiceSystem) :
    (doServiceEvent system stack event).cmd = (buildCommand stack event).toBuffer :=
  if_pos hid

/-- **Command lines.**  The shell is given what was requested exactly when there is room
for it, or nothing is appended. -/
theorem built_iff_fits (system : Buffer maxCommandLength → Int × Int) (stack : Nat → UInt8)
    (event : PFEServiceSystem)
    (hid : event.id = pfeServiceRequestCommand ∨ event.id = pfeServiceSystem) :
    Built event (doServiceEvent system stack event) ↔ Fits event := by
  rw [Built, doServiceEvent_cmd hid]
  constructor
  · exact fun ⟨hinside, _⟩ => fits_of_inside hinside
  · intro hfits
    obtain ⟨n, hn⟩ := line_eq hfits
    exact ⟨inside_of_fits hfits, (buildCommand stack event).terminated, n,
      buildCommand_text.trans hn⟩

/-- A command in the background whose output goes to a file. -/
def listing : PFEServiceSystem where
  id := pfeServiceSystem
  key := 0
  eCmdType := esvcCmdBackground
  command := ofText ("ls".toList.map Char.toUInt8)
  resultPath := ofText ("/tmp/ls".toList.map Char.toUInt8)
  commandFits := by rw [strlen_ofText (by decide)]; decide
  pathFits := by rw [strlen_ofText (by decide)]; decide

/-- The command of the example is built as it was asked for. -/
theorem listing_built : listing.id = pfeServiceSystem ∧
    Built listing (doServiceEvent (fun _ => (0, 0)) (fun _ => 0) listing) := by
  have hcommand : listing.command.strlen = 2 := strlen_ofText (by decide)
  have hpath : listing.resultPath.strlen = 7 := strlen_ofText (by decide)
  have hsome : listing.resultPath.text ≠ [] := by
    rw [← List.length_pos_iff, CString.length_text, hpath]
    decide
  have hback : listing.eCmdType = esvcCmdBackground := rfl
  refine ⟨rfl, (built_iff_fits (fun _ => (0, 0)) (fun _ => 0) listing (.inr rfl)).mpr (.inr ?_)⟩
  rw [hcommand, hpath, if_neg hsome, if_pos hback]
  decide

/-- A command of 510 bytes, to be run in the background. -/
def longCommand : PFEServiceSystem where
  id := pfeServiceSystem
  key := 0
  eCmdType := esvcCmdBackground
  command := ofText (List.replicate 510 'x'.toUInt8)
  resultPath := ofText []
  commandFits := by rw [strlen_ofText_replicate (by decide)]; decide
  pathFits := by rw [strlen_ofText (by decide)]; decide

/-- The ampersand overruns the array. -/
theorem longCommand_not_built :
    ¬ Built longCommand (doServiceEvent (fun _ => (0, 0)) (fun _ => 0) longCommand) := by
  intro ⟨hinside, _⟩
  rw [doServiceEvent_cmd (.inr rfl)] at hinside
  have hcommand : longCommand.command.strlen = 510 := strlen_ofText_replicate (by decide)
  have hpath : longCommand.resultPath.text = [] := text_ofText (by decide)
  have hback : longCommand.eCmdType = esvcCmdBackground := rfl
  rcases fits_of_inside hinside with ⟨-, hfore⟩ | hroom
  · exact hfore hback
  · rw [hcommand, if_pos hpath, if_pos hback] at hroom
    exact absurd hroom (by decide)

end ServiceCommand

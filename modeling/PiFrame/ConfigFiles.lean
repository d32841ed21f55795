import Mathlib.Logic.Function.Basic
import PiFrame.CJson
import PiFrame.Limits

/-!
# The configuration files

A class is kept in three files: the plain `name.json`, and `name.json.0` and
`name.json.1`, which `json_saveFile` writes in turn with a `LastTime:` line
behind the document.  The script `pf-getConfig` compares these lines to choose
the file to load, and `getValidDBFile` takes the counter of the next save from
the name of the chosen file.

`PF_SYSTEM_BASE` and `PF_DATA_BASE` are unset.  The class `runtime` has no file:
every loop over the classes passes over it.
-/

namespace ConfigFiles

open ByteText CJson Limits

/-- The classes that have a file. -/
inductive ConfigClass
  | system
  | network
  deriving DecidableEq, Repr

def ConfigClass.name : ConfigClass → Text
  | .system => "system".toList
  | .network => "network".toList

/-- `PF_DEF_USER_CONFIG_DIR` -/
def userConfigDir : Text := "/data/config/".toList

/-- `db->path`. -/
def dbPath (k : ConfigClass) : Text := userConfigDir ++ '/' :: (k.name ++ ".json".toList)

/-- The regular files by their path, a file that is written with more slashes elsewhere under
its `db->path`. -/
abbrev Files := Text → Option Text

/-! ## Saving -/

/-- What `json_saveFile` prints into the file. -/
def saveText (root : Node) (format : Bool) (tvSec : Nat) : Text :=
  (if format then cJsonPrint root else cJsonPrintUnformatted root)
    ++ ("\nLastTime:".toList ++ decimal tvSec)

/-- How far the writing of a file gets. -/
inductive Write
  | whole
  | firstBytes (n : Nat)
  | notOpened
  deriving DecidableEq, Repr

def Write.apply (file : Text) (text : Text) (files : Files) : Write → Files
  | .whole => Function.update files file (some text)
  | .firstBytes n => Function.update files file (some (text.take n))
  | .notOpened => files

/-- The file that a save with this counter writes. -/
def tmpPath (path : Text) (saveCount : Int) : Text := path ++ '.' :: decimal (saveCount % 2).toNat

def jsonSaveFile (path : Text) (root : Node) (format : Bool) (saveCount : Int) (tvSec : Nat)
    (write : Write) (files : Files) : Files :=
  write.apply (tmpPath path saveCount) (saveText root format tvSec) files

/-! ## pf-getConfig -/

/-- `grep "LastTime:"`. -/
def grepLastTime (content : Text) : List Text :=
  (lines content).filter fun line => decide ("LastTime:".toList <:+: line)

/-- `awk -F ":" '\x7b print $2 \x7d'` on one line. -/
def secondField (line : Text) : Text := (line.splitOn ':')[1]?.getD []

/-- A command substitution drops the newlines at the end. -/
def substitution (output : List Text) : Text :=
  (List.intercalate ['\n'] output).rdropWhile (· == '\n')

/-- `LastTime0` and `LastTime1`, for the file when it exists. -/
def lastTime : Option Text → Text
  | none => ['0']
  | some content =>
      let found := substitution ((grepLastTime content).map secondField)
      if found = [] then ['0'] else found

/-- The operand of `-eq`, `-ne` and `-ge`: a 64-bit number, or an error. -/
def shellInteger (t : Text) : Option Int :=
  match scanInteger t with
  | some (n, rest) =>
      if rest.dropWhile (fun c => c == ' ' || c == '\t') = [] ∧ -2 ^ 63 ≤ n ∧ n < 2 ^ 63 then some n
      else none
  | none => none

/-- A comparison in `[ .. ]`; with an operand that is no number it fails. -/
def test (compare : Int → Int → Bool) (left right : Option Int) : Bool :=
  match left, right with
  | some l, some r => compare l r
  | _, _ => false

/-- The comparisons of `pf-getConfig`: none for the plain file, else the suffix. -/
def choose (lastTime0 lastTime1 : Option Int) : Option Bool :=
  if test (· == ·) lastTime0 (some 0) && test (· == ·) lastTime1 (some 0) then none
  else if test (· != ·) lastTime0 (some 0) && test (· != ·) lastTime1 (some 0) then
    if test (fun l r => decide (r ≤ l)) lastTime0 lastTime1 then some false else some true
  else if test (· == ·) lastTime0 (some 0) then some true
  else if test (· == ·) lastTime1 (some 0) then some false
  else none

/-- The file with suffix `.0` or `.1`. -/
def slotPath (path : Text) (slot : Bool) : Text := path ++ (if slot then ['.', '1'] else ['.', '0'])

/-- The script `pf-getConfig`, for an absolute path. -/
def pfGetConfig (path : Text) (files : Files) : Text :=
  let lastTime0 := shellInteger (lastTime (files (slotPath path false)))
  let lastTime1 := shellInteger (lastTime (files (slotPath path true)))
  match choose lastTime0 lastTime1 with
  | none => path
  | some slot => slotPath path slot

/-! ## Loading -/

/-- `sscanf (p, ".%d", ..)`. -/
def sscanfDot : Text → Option Int
  | '.' :: rest => (scanInteger rest).map Prod.fst
  | _ => none

/-- `getValidDBFile`: the file to load, and `saveCount` as its name gives it. -/
def getValidDBFile (k : ConfigClass) (files : Files) : Text × Int :=
  let chosen := pfGetConfig (dbPath k) files
  let saveCount :=
    match strrchr '.' chosen with
    | some p => if p = ".json".toList then 0 else (sscanfDot p).getD 0
    | none => 0
  (chosen, saveCount)

/-- `PFU_readWholeFile`: nothing for a missing or empty file.  There is no NUL behind the text;
a parse that looks at the bytes there is modelled on top of this, in `ConfigStartup`. -/
def pfuReadWholeFile (file : Option Text) : Option Text :=
  match file with
  | none => none
  | some content => if content = [] then none else some (content.take maxFileBufferSize)

/-- `copyDefaultJson`: the process dies when there is no default. -/
def copyDefaultJson (shipped : ConfigClass → Option Text) (k : ConfigClass) (files : Files) :
    Option Files :=
  (shipped k).map fun content => Function.update files (dbPath k) (some content)

structure Opened where
  dbPath : Text
  saveCount : Int
  doc : Option Text

/-- `getVaildDBContent`.  No result stands for the end of the process. -/
def getVaildDBContent (shipped : ConfigClass → Option Text) (k : ConfigClass) (files : Files) :
    Files × Option Opened :=
  let first := getValidDBFile k files
  if (files first.1).isSome then
    (files, some ⟨first.1, first.2, pfuReadWholeFile (files first.1)⟩)
  else
    match copyDefaultJson shipped k files with
    | none => (files, none)
    | some files =>
        let second := getValidDBFile k files
        (files, some ⟨second.1, second.2, pfuReadWholeFile (files second.1)⟩)

/-- The `do .. while ( ! doc )` loop of `dbInit`, with the number of passes whose
document it still takes.  The pass after them gives up whatever it reads. -/
def readDoc (shipped : ConfigClass → Option Text) (k : ConfigClass) :
    Nat → Files → Files × Option Opened
  | 0, files => ((getVaildDBContent shipped k files).1, none)
  | passes + 1, files =>
      match getVaildDBContent shipped k files with
      | (files, none) => (files, none)
      | (files, some opened) =>
          if opened.doc.isSome then (files, some opened) else readDoc shipped k passes files

/-- What `dbInit` has found out about one class.  `root` is none when the file
could not be parsed. -/
structure Loaded where
  dbPath : Text
  root : Option Node
  saveCount : Int

/-- One class in `dbInit`, with the number of files it may still unlink: which document of which
file it ends with.  `JsonToMem`, which reads the document into the configuration or dies at it,
comes on top of this in `ConfigStartup.startClass`. -/
def dbInitClass (shipped : ConfigClass → Option Text) (k : ConfigClass) :
    Nat → Files → Files × Option Loaded
  | again, files =>
      match readDoc shipped k 2 files with
      | (files, none) => (files, none)
      | (files, some opened) =>
          match cJsonParse (opened.doc.getD []) with
          | some root => (files, some ⟨opened.dbPath, some root, opened.saveCount + 1⟩)
          | none =>
              match again with
              | 0 => (files, some ⟨opened.dbPath, none, opened.saveCount + 1⟩)
              | again + 1 => dbInitClass shipped k again (Function.update files opened.dbPath none)

/-- `dbInit`: class by class.  A failure ends the service. -/
def dbInit (shipped : ConfigClass → Option Text) (files : Files) :
    Files × Option (ConfigClass → Loaded) :=
  match dbInitClass shipped .system 3 files with
  | (files, none) => (files, none)
  | (files, some system) =>
      match dbInitClass shipped .network 3 files with
      | (files, none) => (files, none)
      | (files, some network) =>
          (files, some fun
            | .system => system
            | .network => network)

end ConfigFiles

import Mathlib.Data.Int.Bitwise
import PiFrame.ConfigStamps

/-!
# The configuration service

`configInit`, `configPut`, `dbSync`, `configExport` and `configImport` over the
files.  What the sections of the configuration are, and how they become
documents, is left to `Handlers`: `read` is `JsonToMem` and `write` is
`MemToJson`.
-/

namespace ConfigFiles

open ByteText CJson

/-- The reader and writer tables of the classes, the zeroed configuration, and
what `configInit` does to it after `dbInit`. -/
structure Handlers (Config : Type*) where
  blank : Config
  read : ConfigClass → Node → Config → Config
  write : ConfigClass → Config → Document
  finish : Config → Config

/-- The configuration in shared memory, and `dirty` and `saveCount` of each
`struct Database`. -/
structure Service (Config : Type*) where
  config : Config
  dirty : ConfigClass → Nat
  saveCount : ConfigClass → Int

variable {Config : Type*}

/-- `mask & (1 << i)`. -/
def inMask (mask : Int) : ConfigClass → Bool
  | .system => mask.testBit 0
  | .network => mask.testBit 1

/-- The configuration is changed and `configPut` marks the classes in the mask. -/
def configPut (mask : Int) (config : Config) (s : Service Config) : Service Config :=
  { s with
    config := config
    dirty := fun k => if inMask mask k then s.dirty k + 1 else s.dirty k }

/-- One class in `dbSync`.  What `json_saveFile` achieves is not looked at. -/
def syncClass (h : Handlers Config) (forceMask : Int) (now : ConfigClass → Clock)
    (write : ConfigClass → Write) (k : ConfigClass) (files : Files) (s : Service Config) :
    Files × Service Config :=
  if 0 < s.dirty k ∨ inMask forceMask k then
    (jsonSaveFile (dbPath k) (h.write k s.config).root true (s.saveCount k) (now k).sec (write k)
      files,
      { s with
        dirty := Function.update s.dirty k 0
        saveCount := Function.update s.saveCount k (s.saveCount k + 1) })
  else (files, s)

def dbSync (h : Handlers Config) (forceMask : Int) (now : ConfigClass → Clock)
    (write : ConfigClass → Write) (files : Files) (s : Service Config) : Files × Service Config :=
  let r := syncClass h forceMask now write .system files s
  syncClass h forceMask now write .network r.1 r.2

/-- `configInit`: the service is up when `dbInit` succeeds. -/
def configInit (h : Handlers Config) (shipped : ConfigClass → Option Text) (files : Files) :
    Files × Option (Service Config) :=
  let r := dbInit shipped files
  (r.1, r.2.map fun l =>
    let load := fun k (config : Config) =>
      match (l k).root with
      | some root => h.read k root config
      | none => config
    { config := h.finish (load .network (load .system h.blank))
      dirty := fun _ => 0
      saveCount := fun k => (l k).saveCount })

/-- The files `name.json` in a tar archive. -/
abbrev Archive := ConfigClass → Option Text

/-- `configExport`, for shell commands that succeed whenever they can: without a
class in the mask, or when a plain file is missing, there is no archive. -/
def configExport (h : Handlers Config) (mask : Int) (now : ConfigClass → Clock) (files : Files)
    (s : Service Config) : Files × Service Config × Option Archive :=
  let r := dbSync h 0 now (fun _ => .whole) files s
  let copied := fun k => if inMask mask k then r.1 (dbPath k) else none
  let complete := fun k => inMask mask k → (r.1 (dbPath k)).isSome
  let rmask := inMask mask .system || inMask mask .network
  (r.1, r.2, if rmask = true ∧ complete .system ∧ complete .network then some copied else none)

/-- The `cp` of `configImport`. -/
def importClass (mask : Int) (archive : Archive) (k : ConfigClass) (files : Files) : Files :=
  match inMask mask k, archive k with
  | true, some text => Function.update files (dbPath k) (some text)
  | _, _ => files

/-- `configImport` of an archive of this model, for shell commands that succeed.
It returns -1 when no class in the mask is in the archive. -/
def configImport (h : Handlers Config) (mask : Int) (archive : Archive) (now : ConfigClass → Clock)
    (files : Files) (s : Service Config) : Files × Service Config × Int :=
  let r := dbSync h 0 now (fun _ => .whole) files s
  let present := fun k => inMask mask k && (archive k).isSome
  if present .system || present .network then
    (importClass mask archive .network (importClass mask archive .system r.1), r.2, 0)
  else (r.1, r.2, -1)

end ConfigFiles

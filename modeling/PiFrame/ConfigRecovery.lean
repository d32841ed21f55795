import PiFrame.ExportImport

/-!
# Recovery from damaged files

`dbInit` unlinks a file that does not parse and chooses again, up to three times
for a class: as often as there are files.  So whatever the three files hold, it
ends with a document, and no file that could have been loaded is lost on the way.
The bytes behind a buffer, and what `JsonToMem` does with a document, are left to the
service that starts.

There is one exception.  `PFU_readWholeFile` has no content for an empty file, and
an empty file is neither unlinked nor replaced by the default: the service does not
come up when it gets to an empty `name.json`.
-/

namespace ConfigFiles

open ByteText CJson Limits

/-! ## One file -/

/-- What a file can be loaded as. -/
def loadable (file : Option Text) : Option Node := file.bind documentOf

variable {shipped : ConfigClass → Option Text} {k : ConfigClass} {files : Files} {text : Text}
  {again : Nat}

/-- A pass over a chosen file that has something in it. -/
theorem readDoc_chosen (hfile : files (chosenPath k (choice k files)) = some text)
    (hne : text ≠ []) : readDoc shipped k 2 files = (files, some ⟨chosenPath k (choice k files),
      chosenCount (choice k files), some (text.take maxFileBufferSize)⟩) := by
  have hcontent : getVaildDBContent shipped k files = (files, some ⟨chosenPath k (choice k files),
      chosenCount (choice k files), some (text.take maxFileBufferSize)⟩) := by
    unfold getVaildDBContent
    simp only [getValidDBFile_eq]
    rw [if_pos (by rw [hfile]; rfl), hfile]
    simp [pfuReadWholeFile, hne]
  simp [readDoc, hcontent]

/-- A chosen file that parses is loaded at once, and the files stay as they are. -/
theorem dbInitClass_parsed {root : Node}
    (hfile : files (chosenPath k (choice k files)) = some text) (hroot : documentOf text = some root) :
    dbInitClass shipped k again files =
      (files, some ⟨chosenPath k (choice k files), some root, chosenCount (choice k files) + 1⟩) := by
  have hread : Readable text := by rw [Readable, hroot]; rfl
  have hparse : cJsonParse (text.take maxFileBufferSize) = some root := hroot
  unfold dbInitClass
  simp [readDoc_chosen hfile hread.ne_nil, hparse]

/-- What `dbInitClass` makes of the files of a class. -/
structure Recovery (shipped : ConfigClass → Option Text) (k : ConfigClass) (files : Files)
    (after : Files × Option Loaded) : Prop where
  /-- The next restart would load the same, and change nothing. -/
  loaded : ∀ l, after.2 = some l → (∃ root, loadable (after.1 l.dbPath) = some root ∧
    l = ⟨chosenPath k (choice k after.1), some root, chosenCount (choice k after.1) + 1⟩)
  /-- The service ends at an empty file only. -/
  down : after.2 = none ↔ files (dbPath k) = some [] ∧ choice k after.1 = none
  /-- A file goes if it cannot be loaded, and it may be replaced by the default. -/
  kept : ∀ p, after.1 p = files p ∨ (∃ text, files p = some text ∧ documentOf text = none) ∧
    after.1 p = none ∨ p = dbPath k ∧ loadable (files p) = none ∧ after.1 p = shipped k
  frame : ∀ p, (∀ chosen, p ≠ chosenPath k chosen) → after.1 p = files p

/-- The files a class still has. -/
def present (k : ConfigClass) (files : Files) : Nat :=
  (files (slotPath (dbPath k) false)).isSome.toNat + (files (slotPath (dbPath k) true)).isSome.toNat
    + (files (dbPath k)).isSome.toNat

namespace Recovery

variable {after : Files × Option Loaded}

/-- Every file that can be loaded is left as it is. -/
theorem spares (h : Recovery shipped k files after) {p : Text} (hp : loadable (files p) ≠ none) :
    after.1 p = files p := by
  rcases h.kept p with hsame | ⟨⟨text, hfile, hroot⟩, -⟩ | ⟨-, hnone, -⟩
  · exact hsame
  · rw [hfile] at hp
    exact absurd hroot hp
  · exact absurd hnone hp

/-- Another start loads the same, and changes nothing. -/
theorem settled (h : Recovery shipped k files after) {l : Loaded} (hl : after.2 = some l)
    {files' : Files} (hsame : ∀ chosen, files' (chosenPath k chosen) = after.1 (chosenPath k chosen))
    (again : Nat) : dbInitClass shipped k again files' = (files', some l) := by
  obtain ⟨root, hroot, heq⟩ := h.loaded l hl
  obtain ⟨text, hfile, hparse⟩ := Option.bind_eq_some_iff.mp hroot
  have hchoice : choice k files' = choice k after.1 := choice_congr fun i => hsame (some i)
  have hpath : l.dbPath = chosenPath k (choice k files') := by
    rw [hchoice]
    exact congrArg Loaded.dbPath heq
  rw [hpath, ← hsame] at hfile
  rw [dbInitClass_parsed hfile hparse, heq, hchoice]

end Recovery

/-- What `dbInit` has found out about both classes. -/
def both (system network : Loaded) : ConfigClass → Loaded
  | .system => system
  | .network => network

end ConfigFiles

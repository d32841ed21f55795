import PiFrame.ConfigService
import PiFrame.SaveRecency

/-!
# Export and import against save and load

`configExport` and `configImport` handle the plain `name.json`, saves go to the
suffixed files, and a restart loads the plain file only when the script finds no
time in the suffixed ones.  The theorems say when the two views meet.
-/

namespace ConfigFiles

open ByteText CJson Limits Transition

/-- The document that `dbInit` reads from a file with this content. -/
def documentOf (content : Text) : Option Node :=
  cJsonParse (content.take maxFileBufferSize)

/-- A file that can be loaded. -/
def Readable (content : Text) : Prop := (documentOf content).isSome

instance (content : Text) : Decidable (Readable content) :=
  inferInstanceAs (Decidable ((documentOf content).isSome = true))

theorem Readable.ne_nil {content : Text} (h : Readable content) : content ≠ [] := by
  rintro rfl
  exact absurd h (by decide)

/-! ## What a restart loads -/

/-- The plain file is there, or nothing has been saved and it will be copied. -/
structure Ready (k : ConfigClass) (files : Files) : Prop where
  slots : SlotsWhole k files
  plain : (∃ text, files (dbPath k) = some text ∧ Readable text) ∨
    (files (dbPath k) = none ∧ choice k files = none)

/-- What `dbInit` makes of a class, read off the files that it leaves. -/
structure Restarted (k : ConfigClass) (files files' : Files) (l : Loaded) : Prop where
  frame : ∀ p, p ≠ dbPath k → files' p = files p
  plain : ∃ text, files' (dbPath k) = some text ∧ Readable text
  kept : files (dbPath k) ≠ none → files' = files
  root : l.root = (files' (chosenPath k (choice k files))).bind documentOf
  loaded : l.root.isSome

section Restart

variable {shipped : ConfigClass → Option Text} {k : ConfigClass} {files : Files}

/-- The plain file is loaded at the first try if there is no suffixed one to be chosen, and no
file changes. -/
theorem dbInitClass_readable {text : Text} (hchoice : choice k files = none)
    (hfile : files (dbPath k) = some text) (hread : Readable text) (again : Nat) :
    dbInitClass shipped k again files = (files, some ⟨dbPath k, documentOf text, 1⟩) := by
  obtain ⟨root, hroot⟩ := Option.isSome_iff_exists.mp hread
  have hcontent : getVaildDBContent shipped k files
      = (files, some ⟨dbPath k, 0, some (text.take maxFileBufferSize)⟩) := by
    unfold getVaildDBContent
    simp only [getValidDBFile_eq, hchoice, chosenPath, chosenCount]
    rw [if_pos (by rw [hfile]; rfl), hfile]
    simp [pfuReadWholeFile, hread.ne_nil]
  have hparse : cJsonParse (text.take maxFileBufferSize) = some root := hroot
  unfold dbInitClass
  simp [readDoc, hcontent, hparse, hroot]

/-- A missing plain file is copied from the default first. -/
theorem dbInitClass_copied {text : Text} (hchoice : choice k files = none)
    (hfile : files (dbPath k) = none) (hshipped : shipped k = some text) (hread : Readable text)
    (again : Nat) :
    dbInitClass shipped k again files
      = (Function.update files (dbPath k) (some text), some ⟨dbPath k, documentOf text, 1⟩) := by
  obtain ⟨root, hroot⟩ := Option.isSome_iff_exists.mp hread
  have hnext : choice k (Function.update files (dbPath k) (some text)) = none := by
    rw [choice_congr fun i => Function.update_of_ne (slotPath_ne_dbPath k k i) ..]
    exact hchoice
  have hcontent : getVaildDBContent shipped k files
      = (Function.update files (dbPath k) (some text),
        some ⟨dbPath k, 0, some (text.take maxFileBufferSize)⟩) := by
    unfold getVaildDBContent
    simp only [getValidDBFile_eq, hchoice, chosenPath, chosenCount, copyDefaultJson, hshipped]
    rw [if_neg (by rw [hfile]; simp)]
    simp [hnext, pfuReadWholeFile, hread.ne_nil]
  have hparse : cJsonParse (text.take maxFileBufferSize) = some root := hroot
  unfold dbInitClass
  simp [readDoc, hcontent, hparse, hroot]

/-- A class that is ready starts, from its slot, its plain file or its defaults. -/
theorem dbInitClass_ready (hshipped : ∀ k, ∃ text, shipped k = some text ∧ Readable text)
    (h : Ready k files) (again : Nat) :
    ∃ files' l, dbInitClass shipped k again files = (files', some l) ∧
      Restarted k files files' l := by
  cases hchoice : choice k files with
  | some i =>
      obtain ⟨a, hfile, hcomplete⟩ := h.slots.loadable i hchoice
      obtain ⟨-, -, hparse⟩ := SavedPart.parse hcomplete
      refine ⟨files, _, dbInitClass_slot hchoice hfile hcomplete again, fun _ _ => rfl, ?_,
        fun _ => rfl, ?_, rfl⟩
      · rcases h.plain with hplain | ⟨-, hnone⟩
        · exact hplain
        · rw [hchoice] at hnone
          contradiction
      · rw [hchoice]
        simp only [chosenPath, hfile, Option.bind_some, documentOf, hparse]
  | none =>
      rcases h.plain with ⟨text, hfile, hread⟩ | ⟨hfile, -⟩
      · refine ⟨files, _, dbInitClass_readable hchoice hfile hread again, fun _ _ => rfl,
          ⟨text, hfile, hread⟩, fun _ => rfl, ?_, hread⟩
        rw [hchoice]
        simp [chosenPath, hfile]
      · obtain ⟨text, htext, hread⟩ := hshipped k
        refine ⟨_, _, dbInitClass_copied hchoice hfile htext hread again,
          fun p hp => Function.update_of_ne hp .., ⟨text, Function.update_self .., hread⟩,
          fun hne => absurd hfile hne, ?_, hread⟩
        rw [hchoice]
        simp [chosenPath]

/-- Whether a class is ready depends on its slots and its plain file alone. -/
theorem Ready.frame {files' : Files} (h : Ready k files)
    (hslots : ∀ i, files' (slotPath (dbPath k) i) = files (slotPath (dbPath k) i))
    (hplain : files' (dbPath k) = files (dbPath k)) : Ready k files' where
  slots := by
    intro i
    rw [hslots]
    exact h.slots i
  plain := by
    rw [hplain, choice_congr hslots]
    exact h.plain

/-- **A restart.**  Every class is loaded, from the chosen file.  The classes have different
files, so the start of one does not disturb the other. -/
theorem dbInit_ready (hshipped : ∀ k, ∃ text, shipped k = some text ∧ Readable text)
    (h : ∀ k, Ready k files) :
    ∃ files' l, dbInit shipped files = (files', some l) ∧
      (∀ k i, files' (slotPath (dbPath k) i) = files (slotPath (dbPath k) i)) ∧
      (∀ k, ∃ text, files' (dbPath k) = some text ∧ Readable text) ∧
      ((∀ k, files (dbPath k) ≠ none) → files' = files) ∧
      ∀ k, (l k).root = (files' (chosenPath k (choice k files))).bind documentOf ∧
        (l k).root.isSome := by
  obtain ⟨files₁, system, hsys, hs⟩ := dbInitClass_ready hshipped (h .system) 3
  have hkeep : ∀ k i, files₁ (slotPath (dbPath k) i) = files (slotPath (dbPath k) i) := fun k i =>
    hs.frame _ (slotPath_ne_dbPath k .system i)
  have hplain₁ : files₁ (dbPath .network) = files (dbPath .network) := hs.frame _ (by decide)
  obtain ⟨files₂, network, hnet, hn⟩ :=
    dbInitClass_ready hshipped ((h .network).frame (hkeep .network) hplain₁) 3
  have hkeep₂ : ∀ k i, files₂ (slotPath (dbPath k) i) = files₁ (slotPath (dbPath k) i) := fun k i =>
    hn.frame _ (slotPath_ne_dbPath k .network i)
  have hplain₂ : files₂ (dbPath .system) = files₁ (dbPath .system) := hn.frame _ (by decide)
  refine ⟨files₂, _, by unfold dbInit; simp only [hsys, hnet]; rfl, ?_, ?_, ?_, ?_⟩
  · exact fun k i => (hkeep₂ k i).trans (hkeep k i)
  · intro k
    cases k with
    | system =>
        rw [hplain₂]
        exact hs.plain
    | network => exact hn.plain
  · intro hall
    rw [hn.kept (by rw [hplain₁]; exact hall .network), hs.kept (hall .system)]
  · intro k
    cases k with
    | system =>
        refine ⟨hs.root.trans ?_, hs.loaded⟩
        cases hc : choice .system files with
        | none => rw [chosenPath, hplain₂]
        | some i => rw [chosenPath, hkeep₂]
    | network =>
        refine ⟨hn.root.trans ?_, hn.loaded⟩
        rw [choice_congr (hkeep .network)]

end Restart

/-! ## What the service leaves in the files -/

section Sync

variable {Config : Type*} {h : Handlers Config} {forceMask : Int} {now : ConfigClass → Clock}
  {files : Files} {s : Service Config}

/-- `dbSync` does not touch the plain files, since it saves to the suffixed ones. -/
theorem dbSync_plain (write : ConfigClass → Write) (k : ConfigClass) :
    (dbSync h forceMask now write files s).1 (dbPath k) = files (dbPath k) := by
  have hclass : ∀ k' (files : Files) (s : Service Config),
      (syncClass h forceMask now write k' files s).1 (dbPath k) = files (dbPath k) := by
    intro k' files s
    unfold syncClass
    split
    · simp only [jsonSaveFile, tmpPath_eq]
      have hne := fun i => (slotPath_ne_dbPath k' k i).symm
      cases write k' with
      | whole => exact Function.update_of_ne (hne _) ..
      | firstBytes n => exact Function.update_of_ne (hne _) ..
      | notOpened => rfl
    · rfl
  unfold dbSync
  rw [hclass, hclass]

/-- A whole save keeps the suffixed files whole. -/
theorem SlotsWhole.save {k k' : ConfigClass} (hs : SlotsWhole k files) (d : Document) (count : Int)
    (now : Clock) :
    SlotsWhole k (jsonSaveFile (dbPath k') d.root true count now.sec .whole files) := by
  intro i
  rw [jsonSaveFile, tmpPath_eq]
  by_cases hi : slotPath (dbPath k) i = slotPath (dbPath k') (slotOf count)
  · right
    refine ⟨d, now, ?_⟩
    rw [hi]
    exact Function.update_self ..
  · have hother :
        Write.whole.apply (slotPath (dbPath k') (slotOf count)) (saveText d.root true now.sec)
        files (slotPath (dbPath k) i) = files (slotPath (dbPath k) i) := Function.update_of_ne hi ..
    rw [hother]
    exact hs i

theorem dbSync_whole (hs : ∀ k, SlotsWhole k files) (k : ConfigClass) :
    SlotsWhole k (dbSync h forceMask now (fun _ => .whole) files s).1 := by
  have hclass : ∀ k' (files : Files) (s : Service Config), (∀ k, SlotsWhole k files) →
      ∀ k, SlotsWhole k (syncClass h forceMask now (fun _ => .whole) k' files s).1 := by
    intro k' files s hs k
    unfold syncClass
    split
    · exact (hs k).save _ _ _
    · exact hs k
  exact hclass .network _ _ (hclass .system files s hs) k

end Sync

/-! ## Histories -/

/-- The files, and the service while it runs. -/
structure Machine (Config : Type*) where
  files : Files
  service : Option (Service Config)

inductive Action (Config : Type*)
  | put (mask : Int) (config : Config)
  | sync (forceMask : Int)
  | exported (mask : Int) (archive : Option Archive)
  | imported (mask : Int) (archive : Archive) (result : Int)
  | restart

/-- Configuration changes, saves, exports, imports of documents that can be
read, and restarts. -/
inductive ServiceStep {Config : Type*} (h : Handlers Config) (shipped : ConfigClass → Option Text) :
    Machine Config → Action Config → Machine Config → Prop
  | put {files : Files} {s : Service Config} (mask : Int) (config : Config) :
      ServiceStep h shipped ⟨files, some s⟩ (.put mask config) ⟨files, some (configPut mask config s)⟩
  | sync {files files' : Files} {s s' : Service Config} (forceMask : Int) (now : ConfigClass → Clock)
      (call : dbSync h forceMask now (fun _ => .whole) files s = (files', s')) :
      ServiceStep h shipped ⟨files, some s⟩ (.sync forceMask) ⟨files', some s'⟩
  | exported {files files' : Files} {s s' : Service Config} {archive : Option Archive} (mask : Int)
      (now : ConfigClass → Clock)
      (call : configExport h mask now files s = (files', s', archive)) :
      ServiceStep h shipped ⟨files, some s⟩ (.exported mask archive) ⟨files', some s'⟩
  | imported {files files' : Files} {s s' : Service Config} {result : Int} (mask : Int)
      (archive : Archive) (now : ConfigClass → Clock)
      (documents : ∀ k text, archive k = some text → Readable text)
      (call : configImport h mask archive now files s = (files', s', result)) :
      ServiceStep h shipped ⟨files, some s⟩ (.imported mask archive result) ⟨files', some s'⟩
  | restart {m : Machine Config} {files' : Files} {service : Option (Service Config)}
      (call : configInit h shipped m.files = (files', service)) :
      ServiceStep h shipped m .restart ⟨files', service⟩

/-- While the service runs, every class has its plain file and whole saves. -/
structure Sane {Config : Type*} (m : Machine Config) : Prop where
  slots : ∀ k, SlotsWhole k m.files
  plain : m.service.isSome → ∀ k, ∃ text, m.files (dbPath k) = some text ∧ Readable text
  fresh : m.service = none → ∀ k, Ready k m.files

/-- In every state of the machine, every class is ready. -/
theorem Sane.ready {Config : Type*} {m : Machine Config} (hm : Sane m) (k : ConfigClass) :
    Ready k m.files := by
  cases hs : m.service with
  | none => exact hm.fresh hs k
  | some s => exact ⟨hm.slots k, Or.inl (hm.plain (by rw [hs]; rfl) k)⟩

/-- An import replaces the plain file of a class if the mask names it and the archive has it, and
nothing else. -/
theorem importClass_spec (mask : Int) (archive : Archive) (k : ConfigClass) (files : Files) :
    (∀ p, p ≠ dbPath k → importClass mask archive k files p = files p) ∧
      importClass mask archive k files (dbPath k)
        = if inMask mask k ∧ (archive k).isSome then archive k else files (dbPath k) := by
  unfold importClass
  cases hmask : inMask mask k with
  | false => simp
  | true =>
      cases harchive : archive k with
      | none => simp
      | some text => simp +contextual [Function.update_of_ne]

section Import

variable {Config : Type*} {h : Handlers Config} {mask result : Int} {archive : Archive}
  {now : ConfigClass → Clock} {files files' : Files} {s s' : Service Config}

/-- What the import of both classes makes of the plain file of a class. -/
theorem imported_plain (k : ConfigClass) :
    importClass mask archive .network (importClass mask archive .system files) (dbPath k) =
      if inMask mask k ∧ (archive k).isSome then archive k else files (dbPath k) := by
  obtain ⟨hframe₁, hplain₁⟩ := importClass_spec mask archive .system files
  obtain ⟨hframe₂, hplain₂⟩ := importClass_spec mask archive .network
    (importClass mask archive .system files)
  cases k with
  | system => rw [hframe₂ _ (by decide), hplain₁]
  | network => rw [hplain₂, hframe₁ _ (by decide)]

/-- The import of both classes does not touch the files with a suffix. -/
theorem imported_slot (k : ConfigClass) (i : Bool) :
    importClass mask archive .network (importClass mask archive .system files)
      (slotPath (dbPath k) i) = files (slotPath (dbPath k) i) := by
  rw [(importClass_spec mask archive .network _).1 _ (slotPath_ne_dbPath k .network i),
    (importClass_spec mask archive .system files).1 _ (slotPath_ne_dbPath k .system i)]

/-- An import changes plain files only, and only those it takes from the archive.  The suffixed
files stay, so the next start may still choose one of them. -/
theorem configImport_files
    (hcall : configImport h mask archive now files s = (files', s', result)) :
    (∀ k i, files' (slotPath (dbPath k) i)
        = (dbSync h 0 now (fun _ => .whole) files s).1 (slotPath (dbPath k) i)) ∧
      (∀ k, files' (dbPath k) = files (dbPath k) ∨
        ∃ text, archive k = some text ∧ files' (dbPath k) = some text) ∧
      (result = 0 → ∀ k text, inMask mask k → archive k = some text →
        files' (dbPath k) = some text) := by
  unfold configImport at hcall
  simp only at hcall
  split at hcall
  · obtain ⟨rfl, hrest⟩ := Prod.mk.inj hcall
    obtain ⟨-, rfl⟩ := Prod.mk.inj hrest
    refine ⟨fun k i => imported_slot k i, ?_, ?_⟩
    · intro k
      rw [imported_plain, dbSync_plain]
      by_cases htaken : inMask mask k ∧ (archive k).isSome
      · obtain ⟨text, htext⟩ := Option.isSome_iff_exists.mp htaken.2
        rw [if_pos htaken]
        exact Or.inr ⟨text, htext, htext⟩
      · rw [if_neg htaken]
        exact Or.inl rfl
    · intro _ k text hk htext
      rw [imported_plain, if_pos ⟨hk, by rw [htext]; rfl⟩, htext]
  · obtain ⟨rfl, hrest⟩ := Prod.mk.inj hcall
    obtain ⟨-, rfl⟩ := Prod.mk.inj hrest
    exact ⟨fun _ _ => rfl, fun k => Or.inl (dbSync_plain _ k), nofun⟩

end Import

section Runs

variable {Config : Type*} {h : Handlers Config} {shipped : ConfigClass → Option Text}

/-- **Step rule.**  Saves write whole slots, imports write plain files that can be read, and a
restart loads what is there. -/
theorem Sane.step (hshipped : ∀ k, ∃ text, shipped k = some text ∧ Readable text)
    {m m' : Machine Config} {a : Action Config} (hm : Sane m)
    (hstep : ServiceStep h shipped m a m') :
    Sane m' := by
  cases hstep with
  | put mask config => exact ⟨hm.slots, fun _ => hm.plain rfl, nofun⟩
  | @sync files files' s s' forceMask now hcall =>
      obtain rfl : _ = files' := congrArg Prod.fst hcall
      refine ⟨dbSync_whole hm.slots, fun _ k => ?_, nofun⟩
      dsimp only
      rw [dbSync_plain]
      exact hm.plain rfl k
  | @exported files files' s s' archive mask now hcall =>
      obtain rfl : _ = files' := congrArg Prod.fst hcall
      refine ⟨dbSync_whole hm.slots, fun _ k => ?_, nofun⟩
      have hkeep : (configExport h mask now files s).1 (dbPath k) = files (dbPath k) :=
        dbSync_plain _ k
      dsimp only
      rw [hkeep]
      exact hm.plain rfl k
  | @imported files files' s s' result mask archive now hdocs hcall =>
      obtain ⟨hslots, hplain, -⟩ := configImport_files hcall
      refine ⟨fun k i => ?_, fun _ k => ?_, nofun⟩
      · dsimp only
        rw [hslots]
        exact dbSync_whole hm.slots k i
      · rcases hplain k with hold | ⟨text, hk, hnew⟩
        · dsimp only
          rw [hold]
          exact hm.plain rfl k
        · exact ⟨text, hnew, hdocs k text hk⟩
  | @restart _ files' service hcall =>
      obtain ⟨files₁, l, hinit, hslots, hplain, -, -⟩ := dbInit_ready hshipped hm.ready
      unfold configInit at hcall
      rw [hinit] at hcall
      obtain ⟨rfl, rfl⟩ := Prod.mk.inj hcall
      refine ⟨fun k i => ?_, fun _ => hplain, nofun⟩
      dsimp only
      rw [hslots]
      exact hm.slots k i

/-- **Run rule.**  A device on which no class has been saved, its plain files
being readable or missing. -/
theorem Sane.run (hshipped : ∀ k, ∃ text, shipped k = some text ∧ Readable text) {start : Files}
    (hfresh : ∀ k i, start (slotPath (dbPath k) i) = none)
    (hplain : ∀ k text, start (dbPath k) = some text → Readable text)
    {tr : List (Action Config)} {m : Machine Config}
    (hrun : Run (ServiceStep h shipped) ⟨start, none⟩ tr m) : Sane m := by
  apply hrun.invariant Sane
  · refine ⟨fun k i => Or.inl (hfresh k i), nofun, fun _ k => ⟨fun i => Or.inl (hfresh k i), ?_⟩⟩
    cases hk : start (dbPath k) with
    | some text => exact Or.inl ⟨text, hk, hplain k text hk⟩
    | none =>
        right
        refine ⟨hk, ?_⟩
        simp only [choice, hfresh, stamp_none]
        decide
  · exact fun m a m' hm hstep => Sane.step hshipped hm hstep

/-! ## Agreement -/

/-- The document that `dbInit` would load for a class. -/
def wouldLoad (shipped : ConfigClass → Option Text) (files : Files) (k : ConfigClass) :
    Option Node :=
  (dbInit shipped files).2.bind fun l => (l k).root

/-- The document in the suffixed file that the script takes, if it takes one. -/
def savedDocument (k : ConfigClass) (files : Files) : Option Node :=
  (choice k files).bind fun i => (files (slotPath (dbPath k) i)).bind documentOf

/-- With its plain files in place a restart loads the saved document, and the
plain one when nothing counts as saved. -/
theorem wouldLoad_eq (hshipped : ∀ k, ∃ text, shipped k = some text ∧ Readable text) {files : Files}
    (hslots : ∀ k, SlotsWhole k files)
    (hplain : ∀ k, ∃ text, files (dbPath k) = some text ∧ Readable text)
    {k : ConfigClass} {text : Text} (htext : files (dbPath k) = some text) :
    wouldLoad shipped files k = (savedDocument k files).orElse fun _ => documentOf text := by
  obtain ⟨files', l, hinit, -, -, hkept, hroot⟩ :=
    dbInit_ready hshipped fun k => ⟨hslots k, Or.inl (hplain k)⟩
  have hall : ∀ k, files (dbPath k) ≠ none := by
    intro k hnone
    obtain ⟨text', htext', -⟩ := hplain k
    rw [hnone] at htext'
    contradiction
  obtain rfl := hkept hall
  obtain ⟨hl, hsome⟩ := hroot k
  simp only [wouldLoad, hinit, Option.bind_some, hl, savedDocument]
  cases hc : choice k files' with
  | none => simp [chosenPath, htext]
  | some i =>
      rw [hl, hc] at hsome
      obtain ⟨root, hr⟩ := Option.isSome_iff_exists.mp hsome
      simp only [chosenPath] at hr
      simp [chosenPath, hr]

/-- A document is loaded exactly when no other document has been saved. -/
theorem orElse_eq_iff {saved plain : Option Node} :
    plain = (saved.orElse fun _ => plain) ↔ saved = none ∨ saved = plain := by
  cases saved with
  | none => simp
  | some root => simp [eq_comm]

/-- **Export and import against load.**  At any point of a history, with the
pending changes written as `dbSync(0)` writes them:

* the archive of `configExport` holds what `dbInit` would load for a class of the
  mask exactly when the script takes no suffixed file of the class, or takes one
  with the same document as the plain file;
* after `configImport` has returned 0, `dbInit` loads the archived document of a
  class exactly when the script takes no suffixed file of it, or takes one with
  that document. -/
theorem export_import_agree_iff (hshipped : ∀ k, ∃ text, shipped k = some text ∧ Readable text)
    {start : Files} (hfresh : ∀ k i, start (slotPath (dbPath k) i) = none)
    (hplain : ∀ k text, start (dbPath k) = some text → Readable text)
    {tr : List (Action Config)} {files : Files} {s : Service Config}
    (hrun : Run (ServiceStep h shipped) ⟨start, none⟩ tr ⟨files, some s⟩) :
    (∀ mask now files' s' archive, configExport h mask now files s = (files', s', some archive) →
      ∀ k, inMask mask k → ∃ text, files (dbPath k) = some text ∧ archive k = some text ∧
        (documentOf text = wouldLoad shipped files' k ↔
          savedDocument k (dbSync h 0 now (fun _ => .whole) files s).1 = none ∨
            savedDocument k (dbSync h 0 now (fun _ => .whole) files s).1 = documentOf text)) ∧
    (∀ mask archive now files' s', (∀ k text, archive k = some text → Readable text) →
      configImport h mask archive now files s = (files', s', 0) →
      ∀ k text, inMask mask k → archive k = some text →
        (documentOf text = wouldLoad shipped files' k ↔
          savedDocument k (dbSync h 0 now (fun _ => .whole) files s).1 = none ∨
            savedDocument k (dbSync h 0 now (fun _ => .whole) files s).1 = documentOf text)) := by
  have hsane := Sane.run hshipped hfresh hplain hrun
  refine ⟨?_, ?_⟩
  · intro mask now files' s' archive hcall k hk
    have hafter := hsane.step hshipped (ServiceStep.exported mask now hcall)
    obtain ⟨text, htext, -⟩ := hsane.plain rfl k
    have hsynced : (dbSync h 0 now (fun _ => .whole) files s).1 (dbPath k) = some text := by
      rw [dbSync_plain]
      exact htext
    unfold configExport at hcall
    obtain ⟨rfl, hrest⟩ := Prod.mk.inj hcall
    obtain ⟨rfl, harchive⟩ := Prod.mk.inj hrest
    split at harchive
    · obtain rfl := Option.some.inj harchive
      refine ⟨text, htext, by simp only [hk, if_true, hsynced], ?_⟩
      rw [wouldLoad_eq hshipped hafter.slots (hafter.plain rfl) hsynced]
      exact orElse_eq_iff
    · contradiction
  · intro mask archive now files' s' hdocs hcall k text hk harchive
    have hafter := hsane.step hshipped (ServiceStep.imported mask archive now hdocs hcall)
    obtain ⟨hslots, -, htaken⟩ := configImport_files hcall
    have htext := htaken rfl k text hk harchive
    have hsaved : savedDocument k files'
        = savedDocument k (dbSync h 0 now (fun _ => .whole) files s).1 := by
      simp only [savedDocument, choice_congr (hslots k), hslots]
    rw [wouldLoad_eq hshipped hafter.slots (hafter.plain rfl) htext, hsaved]
    exact orElse_eq_iff

/-- A configuration of one bit, written as an empty object or an empty array. -/
def bitHandlers : Handlers Bool where
  blank := false
  read _ _ config := config
  write _ config :=
    if config then ⟨.array .nil, trivial, by decide⟩ else ⟨.object .nil, trivial, fits_empty⟩
  finish := id

/-- Both defaults are the empty object. -/
def emptyDefaults : ConfigClass → Option Text := fun _ => some ['\x7b', '\x7d']

def firstSecond : ConfigClass → Clock := fun _ => ⟨1, Nat.one_pos, one_bounded⟩

/-- The device after its first start. -/
def firstStart : Files × Option (Service Bool) := configInit bitHandlers emptyDefaults fun _ => none

/-- The change of the system class and the export that follows it. -/
def changeAndExport : Option (Files × Service Bool × Option Archive) :=
  firstStart.2.map fun s => configExport bitHandlers 1 firstSecond firstStart.1 (configPut 1 true s)

/-- A service that has just started for the first time. -/
theorem firstStart_run {s : Service Bool} (hs : firstStart.2 = some s) :
    Run (ServiceStep bitHandlers emptyDefaults) ⟨fun _ => none, none⟩ [.restart]
      ⟨firstStart.1, some s⟩ :=
  Run.single (ServiceStep.restart (Prod.ext rfl hs))

theorem emptyDefaults_readable (k : ConfigClass) :
    ∃ text, emptyDefaults k = some text ∧ Readable text :=
  ⟨_, rfl, by decide⟩

/-- Before anything is saved the export is what a restart would load. -/
theorem export_import_agree_iff_unsaved : ∃ (files' : Files) (archive : Archive) (text : Text),
    archive .system = some text ∧ documentOf text = wouldLoad emptyDefaults files' .system := by
  have hup : firstStart.2.isSome = true := by decide
  obtain ⟨s, hs⟩ := Option.isSome_iff_exists.mp hup
  have hdone :
      ((firstStart.2.map fun s => configExport bitHandlers 1 firstSecond firstStart.1 s).bind
      fun r => r.2.2).isSome = true := by decide
  have hunsaved : (firstStart.2.map fun s => savedDocument .system
      (dbSync bitHandlers 0 firstSecond (fun _ => .whole) firstStart.1 s).1) = some none := by rfl
  rw [hs] at hdone hunsaved
  obtain ⟨archive, harchive⟩ := Option.isSome_iff_exists.mp hdone
  obtain ⟨text, -, htext, hiff⟩ := (export_import_agree_iff emptyDefaults_readable
    (fun _ _ => rfl) (by simp) (firstStart_run hs)).1 1 firstSecond _ _ archive
    (Prod.ext rfl (Prod.ext rfl harchive)) .system rfl
  exact ⟨_, archive, text, htext, hiff.mpr (Or.inl (Option.some.inj hunsaved))⟩

/-- The configuration is changed and exported: the archive still has the default,
while a restart would load the change. -/
theorem export_stale_after_change : ∃ (shipped : ConfigClass → Option Text) (tr : List (Action Bool))
    (files files' : Files) (s s' : Service Bool) (archive : Archive) (now : ConfigClass → Clock),
    (∀ k, ∃ text, shipped k = some text ∧ Readable text) ∧
      Run (ServiceStep bitHandlers shipped) ⟨fun _ => none, none⟩ tr ⟨files, some s⟩ ∧
      configExport bitHandlers 1 now files s = (files', s', some archive) ∧
      inMask 1 .system = true ∧
      ¬ ∃ text, archive .system = some text ∧ documentOf text = wouldLoad shipped files' .system := by
  have hup : firstStart.2.isSome = true := by decide
  have harchive : (changeAndExport.bind fun r => r.2.2.bind fun archive => archive .system)
      = some ['\x7b', '\x7d'] := by decide
  have hload : (changeAndExport.map fun r => wouldLoad emptyDefaults r.1 .system)
      = some (some (.array .nil)) := by rfl
  obtain ⟨s, hs⟩ := Option.isSome_iff_exists.mp hup
  rw [changeAndExport, hs, Option.map_some, Option.bind_some] at harchive
  rw [changeAndExport, hs, Option.map_some, Option.map_some] at hload
  obtain ⟨archive, hcall, hsystem⟩ := Option.bind_eq_some_iff.mp harchive
  refine ⟨emptyDefaults, _, firstStart.1, _, configPut 1 true s, _, archive, firstSecond,
    emptyDefaults_readable, (firstStart_run hs).snoc (ServiceStep.put 1 true),
    Prod.ext rfl (Prod.ext rfl hcall), by decide, ?_⟩
  rintro ⟨text, htext, hagree⟩
  obtain rfl := Option.some.inj (hsystem.symm.trans htext)
  rw [Option.some.inj hload] at hagree
  exact absurd hagree (by nofun)

end Runs

end ConfigFiles

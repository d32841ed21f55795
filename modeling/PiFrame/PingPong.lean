import PiFrame.AlternatingSlots
import PiFrame.ConfigStamps
import PiFrame.Transition

/-!
# Saves, power cuts and restarts

The two suffixed files of a class are the two slots of `AlternatingSlots`: the
slot of a save is the parity of `saveCount`, and a restart finds the parity
again in the name of the file that `pf-getConfig` has chosen.

A power cut leaves an initial part of the text that was being written and takes
the service down; a restart comes next, and it may also come at any other time.
-/

namespace ConfigFiles

open AlternatingSlots ByteText CJson Limits Transition

/-! ## Names -/

/-- The slot that a save with this counter writes. -/
def slotOf (saveCount : Int) : Bool := decide (saveCount % 2 = 1)

theorem slotOf_succ (n : Int) : slotOf (n + 1) = !slotOf n := by
  unfold slotOf
  rcases Int.emod_two_eq n with h | h
  · have hnext : (n + 1) % 2 = 1 := by omega
    simp [h, hnext]
  · have hnext : (n + 1) % 2 = 0 := by omega
    simp [h, hnext]

/-- The file of a save is the slot whose turn it is. -/
theorem tmpPath_eq (path : Text) (n : Int) : tmpPath path n = slotPath path (slotOf n) := by
  rcases Int.emod_two_eq n with h | h <;> simp [tmpPath, slotPath, slotOf, h] <;> decide

theorem strrchr_dbPath (k : ConfigClass) : strrchr '.' (dbPath k) = some ".json".toList := by
  cases k <;> decide

theorem strrchr_slotPath (k : ConfigClass) (i : Bool) :
    strrchr '.' (slotPath (dbPath k) i) = some (if i then ['.', '1'] else ['.', '0']) := by
  cases k <;> cases i <;> decide

/-- Two slots of one path are the same slot of the same class. -/
theorem slotPath_inj {k k' : ConfigClass} {i i' : Bool}
    (h : slotPath (dbPath k) i = slotPath (dbPath k') i') : k = k' ∧ i = i' := by
  revert h
  cases k <;> cases k' <;> cases i <;> cases i' <;> decide

theorem slotPath_ne_dbPath (k k' : ConfigClass) (i : Bool) :
    slotPath (dbPath k) i ≠ dbPath k' := by
  cases k <;> cases k' <;> cases i <;> decide

/-! ## What the script chooses -/

/-- The suffix that `pf-getConfig` chooses for a class, if any. -/
def choice (k : ConfigClass) (files : Files) : Option Bool :=
  choose (stamp (files (slotPath (dbPath k) false))) (stamp (files (slotPath (dbPath k) true)))

/-- The file of a choice. -/
def chosenPath (k : ConfigClass) : Option Bool → Text
  | none => dbPath k
  | some i => slotPath (dbPath k) i

/-- The counter that `getValidDBFile` reads from the name of a choice. -/
def chosenCount : Option Bool → Int
  | none => 0
  | some i => if i then 1 else 0

/-- The start takes the file of the choice, and counts on from its slot. -/
theorem getValidDBFile_eq (k : ConfigClass) (files : Files) :
    getValidDBFile k files = (chosenPath k (choice k files), chosenCount (choice k files)) := by
  have hpath : pfGetConfig (dbPath k) files = chosenPath k (choice k files) := by
    unfold pfGetConfig choice stamp chosenPath
    rfl
  unfold getValidDBFile
  simp only [hpath]
  cases hchoice : choice k files with
  | none => simp [chosenPath, chosenCount, strrchr_dbPath]
  | some i =>
      simp only [chosenPath, strrchr_slotPath]
      have hcount : ∀ i : Bool, (if (if i then ['.', '1'] else ['.', '0']) = ".json".toList then 0
          else (sscanfDot (if i then ['.', '1'] else ['.', '0'])).getD 0)
          = if i then (1 : Int) else 0 := by decide
      exact Prod.ext rfl (hcount i)

/-- The next save goes to the slot that was not chosen. -/
theorem slotOf_chosenCount (chosen : Option Bool) :
    slotOf (chosenCount chosen + 1) = nextTarget chosen := by
  rcases chosen with _ | _ | _ <;> decide

theorem choice_congr {k : ConfigClass} {files files' : Files}
    (h : ∀ i, files' (slotPath (dbPath k) i) = files (slotPath (dbPath k) i)) :
    choice k files' = choice k files := by
  simp [choice, h]

/-- With two readable times, a slot that is chosen has been saved, and nothing is
chosen only when none has. -/
theorem choose_sound {a b : Int} (ha : 0 ≤ a) (hb : 0 ≤ b) :
    (choose (some a) (some b) = none → a = 0 ∧ b = 0) ∧
      (choose (some a) (some b) = some false → 0 < a) ∧
      (choose (some a) (some b) = some true → 0 < b) := by
  simp only [choose, test]
  by_cases ha0 : a = 0 <;> by_cases hb0 : b = 0 <;> by_cases hle : b ≤ a <;>
    simp [ha0, hb0, hle] <;> omega

/-! ## What a slot holds -/

/-- A document that was being saved, and how many bytes of the save are there. -/
structure SavedPart where
  doc : Document
  now : Clock
  length : Nat

def SavedPart.text (a : SavedPart) : Text := (a.doc.save a.now).take a.length

/-- The document is complete. -/
def SavedPart.Complete (a : SavedPart) : Prop := a.doc.text.length ≤ a.length

/-- A file and what the slot it stands for holds. -/
def Holds (file : Option Text) : Option SavedPart → Prop
  | none => stamp file = some 0
  | some a => file = some a.text ∧ a.Complete ∧ ∃ v : Int, stamp file = some v ∧ 0 < v

/-- A slot has a time that is not negative, and one above 0 if it was ever written. -/
theorem Holds.stamp_nonneg {file : Option Text} {record : Option SavedPart}
    (h : Holds file record) :
    ∃ v : Int, stamp file = some v ∧ 0 ≤ v ∧ (0 < v ↔ record.isSome) := by
  cases record with
  | none => exact ⟨0, h, le_refl _, by simp⟩
  | some a =>
      obtain ⟨-, -, v, hv, hpos⟩ := h
      exact ⟨v, hv, hpos.le, by simp [hpos]⟩

/-- A complete part is read back whole. -/
theorem SavedPart.parse {a : SavedPart} (h : a.Complete) :
    ∃ rest, a.text = a.doc.text ++ rest ∧
      cJsonParse (a.text.take maxFileBufferSize) = some a.doc.root := by
  have hsplit : a.text = a.doc.text ++ ('\n' :: ("LastTime:".toList ++ decimal a.now.sec)).take
      (a.length - a.doc.text.length) := by
    rw [SavedPart.text, Document.save_eq, List.take_append, List.take_of_length_le h]
  refine ⟨_, hsplit, ?_⟩
  rw [hsplit, List.take_append, List.take_of_length_le (show a.doc.text.length ≤ _ from a.doc.fits)]
  exact a.doc.parse _

/-- The slots of a class agree with its files. -/
def SlotsHold (k : ConfigClass) (files : Files) (s : Slots SavedPart) : Prop :=
  ∀ i, Holds (files (slotPath (dbPath k) i)) (s.slot i)

/-- The script's choice is sound for the slots. -/
theorem SlotsHold.sound {k : ConfigClass} {files : Files} {s : Slots SavedPart}
    (h : SlotsHold k files s) : s.Sound (choice k files) := by
  obtain ⟨a, ha, hapos, haiff⟩ := (h false).stamp_nonneg
  obtain ⟨b, hb, hbpos, hbiff⟩ := (h true).stamp_nonneg
  obtain ⟨hnone, hfalse, htrue⟩ := choose_sound hapos hbpos
  have hchoice : choice k files = choose (some a) (some b) := by rw [choice, ha, hb]
  unfold Slots.Sound
  rw [hchoice]
  cases hc : choose (some a) (some b) with
  | none =>
      obtain ⟨ha0, hb0⟩ := hnone hc
      have hempty : ∀ i, ¬ (s.slot i).isSome := by
        intro i hi
        cases i with
        | false => exact absurd (haiff.mpr hi) (by omega)
        | true => exact absurd (hbiff.mpr hi) (by omega)
      intro i
      exact Option.not_isSome_iff_eq_none.mp (hempty i)
  | some i =>
      cases i with
      | false => exact haiff.mp (hfalse hc)
      | true => exact hbiff.mp (htrue hc)

/-! ## Loading -/

section Loading

variable {shipped : ConfigClass → Option Text}

/-- A chosen slot is loaded at the first try and no file changes. -/
theorem dbInitClass_slot {k : ConfigClass} {files : Files} {i : Bool} {a : SavedPart}
    (hchoice : choice k files = some i)
    (hfile : files (slotPath (dbPath k) i) = some a.text) (ha : a.Complete) (again : Nat) :
    dbInitClass shipped k again files
      = (files, some ⟨slotPath (dbPath k) i, some a.doc.root, chosenCount (some i) + 1⟩) := by
  obtain ⟨rest, htext, hparse⟩ := SavedPart.parse ha
  have hsome : a.text ≠ [] := by
    rw [htext]
    simp [a.doc.text_ne_nil]
  have hread : pfuReadWholeFile (files (slotPath (dbPath k) i))
      = some (a.text.take maxFileBufferSize) := by
    rw [hfile]
    simp [pfuReadWholeFile, hsome]
  have hcontent : getVaildDBContent shipped k files = (files,
      some ⟨slotPath (dbPath k) i, chosenCount (some i), some (a.text.take maxFileBufferSize)⟩) := by
    unfold getVaildDBContent
    simp only [getValidDBFile_eq, hchoice, chosenPath]
    rw [if_pos (by rw [hfile]; rfl), hread]
  unfold dbInitClass
  simp [readDoc, hcontent, hparse]

/-- Without a chosen slot only the plain file is touched: it is opened, or restored from the
defaults first. -/
theorem getVaildDBContent_plain {k : ConfigClass} {files files' : Files} {opened : Option Opened}
    (hchoice : choice k files = none)
    (h : getVaildDBContent shipped k files = (files', opened)) :
    (∀ p, p ≠ dbPath k → files' p = files p) ∧ choice k files' = none ∧
      ∀ o, opened = some o → o.dbPath = dbPath k ∧ o.saveCount = 0 := by
  unfold getVaildDBContent at h
  simp only [getValidDBFile_eq, hchoice, chosenPath, chosenCount] at h
  split at h
  · obtain ⟨rfl, rfl⟩ := Prod.mk.inj h
    refine ⟨fun _ _ => rfl, hchoice, ?_⟩
    intro o ho
    cases ho
    exact ⟨rfl, rfl⟩
  · split at h
    · obtain ⟨rfl, rfl⟩ := Prod.mk.inj h
      exact ⟨fun _ _ => rfl, hchoice, nofun⟩
    · rename_i files₂ hcopy
      have hframe : ∀ p, p ≠ dbPath k → files₂ p = files p := by
        obtain ⟨content, -, rfl⟩ := Option.map_eq_some_iff.mp hcopy
        intro p hp
        exact Function.update_of_ne hp ..
      have hchoice₂ : choice k files₂ = none :=
        (choice_congr fun i => hframe _ (slotPath_ne_dbPath k k i)).trans hchoice
      rw [hchoice₂] at h
      obtain ⟨rfl, rfl⟩ := Prod.mk.inj h
      refine ⟨hframe, hchoice₂, ?_⟩
      intro o ho
      cases ho
      exact ⟨rfl, rfl⟩

/-- Where no slot is chosen, the plain file is read, or restored and read.  A plain file that
cannot be parsed is unlinked on the way. -/
theorem readDoc_plain {k : ConfigClass} {passes : Nat} {files files' : Files}
    {opened : Option Opened} (hchoice : choice k files = none)
    (h : readDoc shipped k passes files = (files', opened)) :
    (∀ p, p ≠ dbPath k → files' p = files p) ∧ choice k files' = none ∧
      ∀ o, opened = some o → o.dbPath = dbPath k ∧ o.saveCount = 0 := by
  induction passes generalizing files with
  | zero =>
      rw [readDoc] at h
      obtain ⟨rfl, rfl⟩ := Prod.mk.inj h
      obtain ⟨hframe, hnext, -⟩ := getVaildDBContent_plain hchoice (Prod.mk.eta.symm)
      exact ⟨hframe, hnext, nofun⟩
  | succ passes ih =>
      rw [readDoc] at h
      split at h
      · rename_i hcontent
        obtain ⟨rfl, rfl⟩ := Prod.mk.inj h
        exact getVaildDBContent_plain hchoice hcontent
      · rename_i hcontent
        have hplain := getVaildDBContent_plain hchoice hcontent
        split at h
        · obtain ⟨rfl, rfl⟩ := Prod.mk.inj h
          exact hplain
        · obtain ⟨hframe, hnext, hopened⟩ := ih hplain.2.1 h
          exact ⟨fun p hp => (hframe p hp).trans (hplain.1 p hp), hnext, hopened⟩

/-- Where no slot is chosen, the class starts from its plain file with the first save before it. -/
theorem dbInitClass_plain {k : ConfigClass} {again : Nat} {files files' : Files}
    {loaded : Option Loaded} (hchoice : choice k files = none)
    (h : dbInitClass shipped k again files = (files', loaded)) :
    (∀ p, p ≠ dbPath k → files' p = files p) ∧
      ∀ l, loaded = some l → l.dbPath = dbPath k ∧ l.saveCount = 1 := by
  induction again generalizing files with
  | zero =>
      unfold dbInitClass at h
      split at h
      · rename_i hread
        obtain ⟨rfl, rfl⟩ := Prod.mk.inj h
        exact ⟨(readDoc_plain hchoice hread).1, nofun⟩
      · rename_i hread
        obtain ⟨hframe, -, hopened⟩ := readDoc_plain hchoice hread
        obtain ⟨hpath, hcount⟩ := hopened _ rfl
        split at h <;> obtain ⟨rfl, rfl⟩ := Prod.mk.inj h <;>
          exact ⟨hframe, by intro l hl; cases hl; exact ⟨hpath, by simp [hcount]⟩⟩
  | succ again ih =>
      unfold dbInitClass at h
      split at h
      · rename_i hread
        obtain ⟨rfl, rfl⟩ := Prod.mk.inj h
        exact ⟨(readDoc_plain hchoice hread).1, nofun⟩
      · rename_i hread
        obtain ⟨hframe, hnext, hopened⟩ := readDoc_plain hchoice hread
        obtain ⟨hpath, hcount⟩ := hopened _ rfl
        split at h
        · obtain ⟨rfl, rfl⟩ := Prod.mk.inj h
          exact ⟨hframe, by intro l hl; cases hl; exact ⟨hpath, by simp [hcount]⟩⟩
        · rename_i files₂ opened _ _
          -- the plain file is unlinked and read again
          have hslots : ∀ i, Function.update files₂ opened.dbPath none (slotPath (dbPath k) i)
              = files₂ (slotPath (dbPath k) i) := fun i =>
            Function.update_of_ne (by rw [hpath]; exact slotPath_ne_dbPath k k i) ..
          obtain ⟨hframe₂, hloaded⟩ := ih ((choice_congr hslots).trans hnext) h
          refine ⟨fun p hp => ?_, hloaded⟩
          rw [hframe₂ p hp, Function.update_of_ne (by rw [hpath]; exact hp), hframe p hp]

/-- Whenever a slot is chosen it has a complete document. -/
def Loadable (k : ConfigClass) (files : Files) : Prop :=
  ∀ i, choice k files = some i → ∃ a : SavedPart, files (slotPath (dbPath k) i) = some a.text ∧ a.Complete

theorem SlotsHold.loadable {k : ConfigClass} {files : Files} {s : Slots SavedPart}
    (h : SlotsHold k files s) : Loadable k files := by
  intro i hi
  have hsound := h.sound
  rw [hi] at hsound
  obtain ⟨a, ha⟩ := Option.isSome_iff_exists.mp hsound
  have hholds := h i
  rw [ha] at hholds
  exact ⟨a, hholds.1, hholds.2.1⟩

/-- Whether a class can be loaded depends on its two slots alone. -/
theorem Loadable.congr {k : ConfigClass} {files files' : Files}
    (hframe : ∀ i, files' (slotPath (dbPath k) i) = files (slotPath (dbPath k) i))
    (h : Loadable k files) : Loadable k files' := by
  intro i hi
  rw [choice_congr hframe] at hi
  rw [hframe]
  exact h i hi

/-- What a restart has loaded for a class, read off the files before it: the
chosen file, and the document in it when a slot was chosen. -/
structure LoadedFrom (k : ConfigClass) (files : Files) (l : Loaded) : Prop where
  path : l.dbPath = chosenPath k (choice k files)
  count : l.saveCount = chosenCount (choice k files) + 1
  root : ∀ i (a : SavedPart), choice k files = some i →
    files (slotPath (dbPath k) i) = some a.text → a.Complete → l.root = some a.doc.root

/-- **One class at a restart.**  The slots stay as they are, and when one is
chosen the class is loaded. -/
theorem dbInitClass_spec {k : ConfigClass} {again : Nat} {files files' : Files}
    {loaded : Option Loaded} (hs : Loadable k files)
    (h : dbInitClass shipped k again files = (files', loaded)) :
    (∀ p, p ≠ dbPath k → files' p = files p) ∧ (∀ l, loaded = some l → LoadedFrom k files l) ∧
      ((choice k files).isSome → loaded.isSome) := by
  cases hchoice : choice k files with
  | none =>
      obtain ⟨hframe, hloaded⟩ := dbInitClass_plain hchoice h
      refine ⟨hframe, fun l hl => ?_, nofun⟩
      obtain ⟨hpath, hcount⟩ := hloaded l hl
      exact ⟨by rw [hpath, hchoice]; rfl, by rw [hcount, hchoice]; rfl,
        fun _ _ hi => by rw [hchoice] at hi; contradiction⟩
  | some i =>
      obtain ⟨a, hfile, hcomplete⟩ := hs i hchoice
      rw [dbInitClass_slot hchoice hfile hcomplete] at h
      obtain ⟨rfl, rfl⟩ := Prod.mk.inj h
      refine ⟨fun _ _ => rfl, ?_, fun _ => rfl⟩
      intro l hl
      cases hl
      refine ⟨by rw [hchoice]; rfl, by rw [hchoice], ?_⟩
      intro j b hj hfile' hcomplete'
      obtain rfl : i = j := Option.some.inj (hchoice.symm.trans hj)
      -- both records describe the bytes of one file
      have htext : a.text = b.text := Option.some.inj (hfile.symm.trans hfile')
      obtain ⟨-, -, hparse⟩ := SavedPart.parse hcomplete
      obtain ⟨-, -, hparse'⟩ := SavedPart.parse hcomplete'
      rw [htext] at hparse
      exact hparse.symm.trans hparse'

/-- What a restart loads depends on the two slots alone. -/
theorem loadedFrom_congr {l : Loaded} {k : ConfigClass} {files files' : Files}
    (hframe : ∀ i, files' (slotPath (dbPath k) i) = files (slotPath (dbPath k) i))
    (h : LoadedFrom k files' l) : LoadedFrom k files l where
  path := by rw [← choice_congr hframe]; exact h.path
  count := by rw [← choice_congr hframe]; exact h.count
  root i a hi hfile ha := by
    apply h.root i a
    · rw [choice_congr hframe]
      exact hi
    · rw [hframe]
      exact hfile
    · exact ha

/-- `dbInit` is `dbInitClass` for one class and then for the other, on the files that the first
has left. -/
theorem dbInit_inv {files files' : Files} {loaded : Option (ConfigClass → Loaded)}
    (h : dbInit shipped files = (files', loaded)) :
    (dbInitClass shipped .system 3 files = (files', none) ∧ loaded = none) ∨
      ∃ files₁ system network, dbInitClass shipped .system 3 files = (files₁, some system) ∧
        dbInitClass shipped .network 3 files₁ = (files', network) ∧
        (∀ l, loaded = some l → l .system = system ∧ network = some (l .network)) ∧
        (network.isSome → loaded.isSome) := by
  unfold dbInit at h
  split at h
  · rename_i hsys
    obtain ⟨rfl, rfl⟩ := Prod.mk.inj h
    exact Or.inl ⟨hsys, rfl⟩
  · rename_i files₁ system hsys
    right
    split at h
    · rename_i hnet
      obtain ⟨rfl, rfl⟩ := Prod.mk.inj h
      exact ⟨files₁, system, none, hsys, hnet, nofun, nofun⟩
    · rename_i network hnet
      obtain ⟨rfl, rfl⟩ := Prod.mk.inj h
      refine ⟨files₁, system, some network, hsys, hnet, ?_, fun _ => rfl⟩
      intro l hl
      cases hl
      exact ⟨rfl, rfl⟩

/-- **A restart.**  The slots of both classes stay as they are; every class is
loaded from its choice, and when both have one the service comes up. -/
theorem dbInit_spec {files files' : Files} {loaded : Option (ConfigClass → Loaded)}
    (hslots : ∀ k, Loadable k files)
    (h : dbInit shipped files = (files', loaded)) :
    (∀ k i, files' (slotPath (dbPath k) i) = files (slotPath (dbPath k) i)) ∧
      (∀ l, loaded = some l → ∀ k, LoadedFrom k files (l k)) ∧
      ((∀ k, (choice k files).isSome) → loaded.isSome) := by
  rcases dbInit_inv h with ⟨hsys, rfl⟩ | ⟨files₁, system, network, hsys, hnet, hboth, hsome⟩
  · obtain ⟨hframe, -, hup⟩ := dbInitClass_spec (hslots .system) hsys
    exact ⟨fun k i => hframe _ (slotPath_ne_dbPath k .system i), nofun,
      fun hall => hup (hall .system)⟩
  · obtain ⟨hframe₁, hfrom₁, -⟩ := dbInitClass_spec (hslots .system) hsys
    have hkeep₁ : ∀ k i, files₁ (slotPath (dbPath k) i) = files (slotPath (dbPath k) i) :=
      fun k i => hframe₁ _ (slotPath_ne_dbPath k .system i)
    have hslots₁ : Loadable .network files₁ := (hslots .network).congr (hkeep₁ .network)
    obtain ⟨hframe₂, hfrom₂, hup₂⟩ := dbInitClass_spec hslots₁ hnet
    refine ⟨fun k i => ?_, ?_, ?_⟩
    · rw [hframe₂ _ (slotPath_ne_dbPath k .network i), hkeep₁]
    · intro l hl k
      obtain ⟨hsystem, hnetwork⟩ := hboth l hl
      cases k with
      | system => exact hsystem ▸ hfrom₁ system rfl
      | network => exact loadedFrom_congr (hkeep₁ .network) (hfrom₂ _ hnetwork)
    · intro hall
      apply hsome
      apply hup₂
      rw [choice_congr (hkeep₁ .network)]
      exact hall .network

end Loading

end ConfigFiles

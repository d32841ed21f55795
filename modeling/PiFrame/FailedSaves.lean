import PiFrame.ConfigService
import PiFrame.PingPongSafety

/-!
# Saves that fail

`dbSync` clears `dirty` and advances `saveCount` whatever `json_saveFile` has
achieved.  A save fails when the file cannot be opened or only a part of the
text is written.  `keeps_last_good` gives the histories in which this does no
harm: no change is pending when a save fails, and the save that fails does not
overwrite the last good file.
-/

namespace ConfigFiles

open ByteText CJson Transition

/-- One save of a class by `dbSync`, with whether a change was pending. -/
structure SaveRecord where
  k : ConfigClass
  doc : Document
  slot : Bool
  now : Clock
  write : Write
  pending : Bool

inductive Entry
  | put (mask : Int)
  | save (r : SaveRecord)

/-- The files and the running service. -/
structure Running (Config : Type*) where
  files : Files
  service : Service Config

variable {Config : Type*}

/-- Changes of the configuration, which touch the documents of the marked classes
only, and the saves that the loop of `dbSync` makes. -/
inductive SaveStep (h : Handlers Config) : Running Config → Entry → Running Config → Prop
  | put {m : Running Config} (mask : Int) (config : Config)
      (others : ∀ k, inMask mask k = false → h.write k config = h.write k m.service.config) :
      SaveStep h m (.put mask) ⟨m.files, configPut mask config m.service⟩
  | save {m : Running Config} (k : ConfigClass) (forceMask : Int) (now : ConfigClass → Clock)
      (write : ConfigClass → Write) (due : 0 < m.service.dirty k ∨ inMask forceMask k) :
      SaveStep h m
        (.save ⟨k, h.write k m.service.config, slotOf (m.service.saveCount k), now k, write k,
          decide (0 < m.service.dirty k)⟩)
        ⟨(syncClass h forceMask now write k m.files m.service).1,
          (syncClass h forceMask now write k m.files m.service).2⟩

/-- A call of `dbSync` is at most one save of each class. -/
theorem dbSync_run (h : Handlers Config) (forceMask : Int) (now : ConfigClass → Clock)
    (write : ConfigClass → Write) (m : Running Config) :
    ∃ tr, Run (SaveStep h) m tr ⟨(dbSync h forceMask now write m.files m.service).1,
      (dbSync h forceMask now write m.files m.service).2⟩ := by
  have hclass : ∀ (k : ConfigClass) (m : Running Config), ∃ tr, Run (SaveStep h) m tr
      ⟨(syncClass h forceMask now write k m.files m.service).1,
        (syncClass h forceMask now write k m.files m.service).2⟩ := by
    intro k m
    by_cases hdue : 0 < m.service.dirty k ∨ inMask forceMask k
    · exact ⟨_, Run.single (SaveStep.save k forceMask now write hdue)⟩
    · refine ⟨[], ?_⟩
      rw [syncClass, if_neg hdue]
      exact Run.nil
  obtain ⟨tr₁, hfirst⟩ := hclass .system m
  obtain ⟨tr₂, hsecond⟩ := hclass .network
    ⟨(syncClass h forceMask now write .system m.files m.service).1,
      (syncClass h forceMask now write .system m.files m.service).2⟩
  exact ⟨tr₁ ++ tr₂, hfirst.append hsecond⟩

/-! ## What the history says -/

/-- The saves of a class. -/
def savesOf (k : ConfigClass) : List Entry → List SaveRecord
  | [] => []
  | .put _ :: rest => savesOf k rest
  | .save r :: rest => if r.k = k then r :: savesOf k rest else savesOf k rest

/-- The saves of two histories one behind the other. -/
theorem savesOf_append (k : ConfigClass) (front back : List Entry) :
    savesOf k (front ++ back) = savesOf k front ++ savesOf k back := by
  induction front with
  | nil => rfl
  | cons e rest ih =>
      cases e with
      | put mask => exact ih
      | save r =>
          simp only [List.cons_append, savesOf, ih]
          split <;> simp

/-- The last save of the class that succeeded. -/
def lastGood (k : ConfigClass) (tr : List Entry) : Option SaveRecord :=
  ((savesOf k tr).filter fun r => r.write = .whole).getLast?

/-- The class was changed and no save has succeeded since. -/
def Unsaved (k : ConfigClass) (tr : List Entry) : Prop :=
  ∃ front mask back, tr = front ++ .put mask :: back ∧ inMask mask k = true ∧
    ∀ r ∈ savesOf k back, r.write ≠ .whole

/-- The readings of the clock at the saves of the class strictly increase. -/
def Increasing (k : ConfigClass) (tr : List Entry) : Prop :=
  (savesOf k tr).Pairwise fun r r' => r.now.sec < r'.now.sec

/-- A save, if it fails, finds no change pending and leaves the last good file alone. -/
def Harmless (tr : List Entry) (r : SaveRecord) : Prop :=
  r.doc.Clean ∧ (r.write ≠ .whole → r.pending = false ∧
    (r.write = .notOpened ∨ ∀ g, lastGood r.k tr = some g → g.slot ≠ r.slot))

/-- Every save of the history was harmless when it was made. -/
def AllHarmless (tr : List Entry) : Prop :=
  ∀ front r back, tr = front ++ .save r :: back → Harmless front r

/-- What a restart would load has the document of the last successful save, and a
change that was not saved is still marked. -/
def Keeps (k : ConfigClass) (tr : List Entry) (m : Running Config) : Prop :=
  (∀ g, lastGood k tr = some g →
    ∃ rest, m.files (chosenPath k (choice k m.files)) = some (g.doc.text ++ rest)) ∧
  (Unsaved k tr → 0 < m.service.dirty k)

@[simp] theorem savesOf_put (k : ConfigClass) (tr : List Entry) (mask : Int) :
    savesOf k (tr ++ [.put mask]) = savesOf k tr := by
  rw [savesOf_append]
  simp [savesOf]

theorem savesOf_save (tr : List Entry) (r : SaveRecord) :
    savesOf r.k (tr ++ [.save r]) = savesOf r.k tr ++ [r] := by
  rw [savesOf_append]
  simp [savesOf]

/-- A save of another class is none of this class. -/
theorem savesOf_other {k : ConfigClass} (tr : List Entry) {r : SaveRecord} (hk : r.k ≠ k) :
    savesOf k (tr ++ [.save r]) = savesOf k tr := by
  rw [savesOf_append]
  simp [savesOf, hk]

theorem lastGood_whole (tr : List Entry) {r : SaveRecord} (hr : r.write = .whole) :
    lastGood r.k (tr ++ [.save r]) = some r := by
  rw [lastGood, savesOf_save, List.filter_append]
  simp [hr]

/-- A save that failed leaves the last good one as it was. -/
theorem lastGood_failed (tr : List Entry) {r : SaveRecord} (hr : r.write ≠ .whole) :
    lastGood r.k (tr ++ [.save r]) = lastGood r.k tr := by
  rw [lastGood, savesOf_save, List.filter_append]
  simp [hr, lastGood]

/-- The last entry makes a change, or the change is older and the entry does not save it. -/
theorem unsaved_snoc {k : ConfigClass} {tr : List Entry} {e : Entry} (h : Unsaved k (tr ++ [e])) :
    (∃ mask, e = .put mask ∧ inMask mask k = true) ∨
      Unsaved k tr ∧ ∀ r ∈ savesOf k [e], r.write ≠ .whole := by
  obtain ⟨front, mask, back, heq, hk, hback⟩ := h
  induction back using List.reverseRecOn with
  | nil =>
      obtain ⟨-, hlast⟩ := List.append_inj' heq rfl
      exact Or.inl ⟨mask, List.singleton_inj.mp hlast, hk⟩
  | append_singleton back e' _ =>
      rw [← List.cons_append, ← List.append_assoc] at heq
      obtain ⟨htr, hlast⟩ := List.append_inj' heq rfl
      rw [savesOf_append, ← hlast] at hback
      obtain ⟨hback, hlast⟩ := List.forall_mem_append.mp hback
      exact Or.inr ⟨⟨front, mask, back, htr, hk, hback⟩, hlast⟩

/-- A change is unsaved after a put, and stays so until a save succeeds. -/
theorem unsaved_snoc_put {k : ConfigClass} {tr : List Entry} {mask : Int}
    (h : Unsaved k (tr ++ [.put mask])) : inMask mask k = true ∨ Unsaved k tr := by
  rcases unsaved_snoc h with ⟨mask', heq, hk⟩ | ⟨hold, -⟩
  · cases heq
    exact Or.inl hk
  · exact Or.inr hold

/-- A change that is unsaved after a save was unsaved before it, and the save failed or was of
another class. -/
theorem unsaved_snoc_save {k : ConfigClass} {tr : List Entry} {r : SaveRecord}
    (h : Unsaved k (tr ++ [.save r])) : Unsaved k tr ∧ (r.k = k → r.write ≠ .whole) := by
  rcases unsaved_snoc h with ⟨mask, heq, -⟩ | ⟨hold, hlast⟩
  · cases heq
  · refine ⟨hold, fun hk => hlast r ?_⟩
    rw [savesOf, if_pos hk]
    exact List.mem_cons_self

/-! ## The invariant -/

/-- A time that is over before any later reading of the clock. -/
def Past (k : ConfigClass) (tr : List Entry) (v : Int) : Prop :=
  ∀ t : Nat, 0 < t → (∀ r ∈ savesOf k tr, r.now.sec < t) → v < t

theorem Past.mono {k : ConfigClass} {tr : List Entry} {v : Int} (h : Past k tr v) (e : Entry) :
    Past k (tr ++ [e]) v := by
  intro t ht hall
  apply h t ht
  intro r hr
  apply hall
  rw [savesOf_append]
  exact List.mem_append_left _ hr

/-- The file beside the last good one: older, or another copy of its document. -/
def Yields (file : Option Text) (g : SaveRecord) : Prop :=
  (∃ v : Int, stamp file = some v ∧ v < g.now.sec) ∨
    ∃ a : SavedPart, file = some a.text ∧ a.Complete ∧ a.doc = g.doc

structure Kept (h : Handlers Config) (k : ConfigClass) (tr : List Entry) (m : Running Config) :
    Prop where
  times : ∀ i, ∃ v : Int, stamp (m.files (slotPath (dbPath k) i)) = some v ∧ 0 ≤ v ∧ Past k tr v
  good : ∀ g, lastGood k tr = some g → g.doc.Clean ∧
    m.files (slotPath (dbPath k) g.slot) = some (g.doc.save g.now) ∧
    Yields (m.files (slotPath (dbPath k) (!g.slot))) g
  unchanged : m.service.dirty k = 0 → ∀ g, lastGood k tr = some g →
    h.write k m.service.config = g.doc
  marked : Unsaved k tr → 0 < m.service.dirty k

/-- The later one of two times wins: its slot is the one that the script chooses. -/
theorem choice_newer {k : ConfigClass} {files : Files} {i : Bool} {x y : Int}
    (hx : stamp (files (slotPath (dbPath k) i)) = some x)
    (hy : stamp (files (slotPath (dbPath k) (!i))) = some y) (hy0 : 0 ≤ y) (hlt : y < x) :
    choice k files = some i := by
  have hx0 : x ≠ 0 := by omega
  have hle : y ≤ x := hlt.le
  have hnot : ¬ x ≤ y := by omega
  unfold choice
  cases i with
  | false =>
      rw [Bool.not_false] at hy
      by_cases h0 : y = 0 <;> simp [hx, hy, choose, test, hx0, h0, hle]
  | true =>
      rw [Bool.not_true] at hy
      by_cases h0 : y = 0 <;> simp [hx, hy, choose, test, hx0, h0, hnot]

section Kept

variable {h : Handlers Config} {k : ConfigClass} {tr : List Entry} {m m' : Running Config}

/-- The invariant is enough for what is claimed of a restart: the slot of the last good save is
newer than the other one, or both have its document. -/
theorem Kept.keeps (hkept : Kept h k tr m) : Keeps k tr m := by
  refine ⟨fun g hg => ?_, hkept.marked⟩
  obtain ⟨hclean, hfile, hother⟩ := hkept.good g hg
  have hstamp : stamp (m.files (slotPath (dbPath k) g.slot)) = some (g.now.sec : Int) := by
    rw [hfile]
    exact stamp_save hclean g.now
  obtain ⟨y, hy, hy0, -⟩ := hkept.times (!g.slot)
  rcases hother with ⟨v, hv, hlt⟩ | ⟨a, ha, hcomplete, hdoc⟩
  · obtain rfl : y = v := Option.some.inj (hy.symm.trans hv)
    rw [choice_newer hstamp hy hy0 hlt]
    exact ⟨_, hfile.trans (by rw [Document.save_eq])⟩
  · have hsome : ∃ j, choice k m.files = some j := by
      have hpos := g.now.positive
      cases hc : choice k m.files with
      | some j => exact ⟨j, rfl⟩
      | none =>
          exfalso
          unfold choice at hc
          cases hslot : g.slot with
          | false =>
              rw [hslot] at hstamp hy
              rw [hstamp, show stamp (m.files (slotPath (dbPath k) true)) = some y from hy] at hc
              have hzero := (choose_sound (by omega) hy0).1 hc
              omega
          | true =>
              rw [hslot] at hstamp hy
              rw [hstamp, show stamp (m.files (slotPath (dbPath k) false)) = some y from hy] at hc
              have hzero := (choose_sound hy0 (by omega)).1 hc
              omega
    obtain ⟨j, hj⟩ := hsome
    rw [hj]
    by_cases hslot : j = g.slot
    · rw [chosenPath, hslot]
      exact ⟨_, hfile.trans (by rw [Document.save_eq])⟩
    · obtain rfl : j = !g.slot := by cases j <;> cases hg : g.slot <;> simp_all
      obtain ⟨rest, htext, -⟩ := SavedPart.parse hcomplete
      exact ⟨rest, by rw [chosenPath, ha, htext, hdoc]⟩

/-- What the other class does leaves this one as it is. -/
theorem Kept.other (hkept : Kept h k tr m) {e : Entry}
    (hsaves : savesOf k (tr ++ [e]) = savesOf k tr)
    (hunsaved : Unsaved k (tr ++ [e]) → Unsaved k tr)
    (hfiles : ∀ i, m'.files (slotPath (dbPath k) i) = m.files (slotPath (dbPath k) i))
    (hdirty : m'.service.dirty k = m.service.dirty k)
    (hdoc : h.write k m'.service.config = h.write k m.service.config) :
    Kept h k (tr ++ [e]) m' := by
  have hgood : lastGood k (tr ++ [e]) = lastGood k tr := by rw [lastGood, hsaves, lastGood]
  refine ⟨fun i => ?_, fun g hg => ?_, fun hzero g hg => ?_, fun hu => ?_⟩
  · obtain ⟨v, hv, hv0, hpast⟩ := hkept.times i
    exact ⟨v, by rw [hfiles, hv], hv0, hpast.mono e⟩
  · rw [hgood] at hg
    rw [hfiles, hfiles]
    exact hkept.good g hg
  · rw [hgood] at hg
    rw [hdoc]
    exact hkept.unchanged (by rw [← hdirty]; exact hzero) g hg
  · rw [hdirty]
    exact hkept.marked (hunsaved hu)

/-- A change of the configuration marks its class and touches no file. -/
theorem Kept.put (hkept : Kept h k tr m) {mask : Int} {config : Config}
    (others : ∀ k, inMask mask k = false → h.write k config = h.write k m.service.config) :
    Kept h k (tr ++ [.put mask]) ⟨m.files, configPut mask config m.service⟩ := by
  cases hmask : inMask mask k with
  | false =>
      apply hkept.other (savesOf_put k tr mask)
      · intro hu
        rcases unsaved_snoc_put hu with hk | hold
        · rw [hmask] at hk
          contradiction
        · exact hold
      · exact fun _ => rfl
      · simp [configPut, hmask]
      · exact others k hmask
  | true =>
      have hgood : lastGood k (tr ++ [.put mask]) = lastGood k tr := by
        rw [lastGood, savesOf_put, lastGood]
      have hdirty : 0 < (configPut mask config m.service).dirty k := by simp [configPut, hmask]
      refine ⟨fun i => ?_, fun g hg => ?_, fun hzero => ?_, fun _ => hdirty⟩
      · obtain ⟨v, hv, hv0, hpast⟩ := hkept.times i
        exact ⟨v, hv, hv0, hpast.mono _⟩
      · rw [hgood] at hg
        exact hkept.good g hg
      · exact absurd hzero hdirty.ne'

/-- A save that succeeds, at a later time than all saves before it: its slot is the newest, and
so it is the one that a restart chooses. -/
theorem Kept.saved (hkept : Kept h k tr m) {r : SaveRecord} (hk : r.k = k) (hclean : r.doc.Clean)
    (hwhole : r.write = .whole) (hlater : ∀ r' ∈ savesOf k tr, r'.now.sec < r.now.sec)
    (hfile : m'.files (slotPath (dbPath k) r.slot) = some (r.doc.save r.now))
    (hother : m'.files (slotPath (dbPath k) (!r.slot)) = m.files (slotPath (dbPath k) (!r.slot)))
    (hdoc : h.write k m'.service.config = r.doc) :
    Kept h k (tr ++ [.save r]) m' := by
  subst hk
  obtain ⟨v, hv, hv0, hpast⟩ := hkept.times (!r.slot)
  refine ⟨fun i => ?_, fun g hg => ?_, fun _ g hg => ?_, fun hu => ?_⟩
  · by_cases hi : i = r.slot
    · refine ⟨r.now.sec, by rw [hi, hfile]; exact stamp_save hclean r.now, by omega, ?_⟩
      intro t _ hall
      have hlt := hall r (by rw [savesOf_save]; simp)
      omega
    · obtain rfl : i = !r.slot := by cases i <;> cases hr : r.slot <;> simp_all
      exact ⟨v, by rw [hother, hv], hv0, hpast.mono _⟩
  · rw [lastGood_whole tr hwhole] at hg
    obtain rfl := Option.some.inj hg
    exact ⟨hclean, hfile, Or.inl ⟨v, by rw [hother, hv], hpast _ r.now.positive hlater⟩⟩
  · rw [lastGood_whole tr hwhole] at hg
    obtain rfl := Option.some.inj hg
    exact hdoc
  · exact absurd hwhole ((unsaved_snoc_save hu).2 rfl)

/-- A save that fails without a change being pending and beside the last good file.  The last
good file is not written to, and so a restart still finds it. -/
theorem Kept.failed (hkept : Kept h k tr m) {r : SaveRecord} (hk : r.k = k) (hclean : r.doc.Clean)
    (hfail : r.write ≠ .whole) (hclear : m.service.dirty k = 0)
    (hdirty : m'.service.dirty k = 0)
    (hsame : r.doc = h.write k m.service.config)
    (hdoc : h.write k m'.service.config = h.write k m.service.config)
    (hfiles : (∀ i, m'.files (slotPath (dbPath k) i) = m.files (slotPath (dbPath k) i)) ∨
      ((∀ g, lastGood k tr = some g → g.slot ≠ r.slot) ∧
        (∃ n, m'.files (slotPath (dbPath k) r.slot) = some ((r.doc.save r.now).take n)) ∧
        m'.files (slotPath (dbPath k) (!r.slot)) = m.files (slotPath (dbPath k) (!r.slot)))) :
    Kept h k (tr ++ [.save r]) m' := by
  subst hk
  have hgood := lastGood_failed tr hfail
  refine ⟨fun i => ?_, fun g hg => ?_, fun _ g hg => ?_, fun hu => ?_⟩
  · rcases hfiles with hkeep | ⟨-, ⟨n, hpart⟩, hother⟩
    · obtain ⟨v, hv, hv0, hpast⟩ := hkept.times i
      exact ⟨v, by rw [hkeep, hv], hv0, hpast.mono _⟩
    · by_cases hi : i = r.slot
      · rw [hi, hpart]
        rcases stamp_cut hclean r.now n with hzero | ⟨-, v, hv, hpos, hle⟩
        · exact ⟨0, hzero, le_refl _, fun t ht _ => by exact_mod_cast ht⟩
        · refine ⟨v, hv, hpos.le, fun t _ hall => ?_⟩
          have hlt := hall r (by rw [savesOf_save]; simp)
          omega
      · obtain rfl : i = !r.slot := by cases i <;> cases hr : r.slot <;> simp_all
        obtain ⟨v, hv, hv0, hpast⟩ := hkept.times (!r.slot)
        exact ⟨v, by rw [hother, hv], hv0, hpast.mono _⟩
  · rw [hgood] at hg
    obtain ⟨hgclean, hfile, hyields⟩ := hkept.good g hg
    rcases hfiles with hkeep | ⟨haway, ⟨n, hpart⟩, hother⟩
    · rw [hkeep, hkeep]
      exact ⟨hgclean, hfile, hyields⟩
    · have hslot : r.slot = !g.slot := by
        have hne := haway g hg
        cases hr : r.slot <;> cases hgs : g.slot <;> simp_all
      rw [hslot, Bool.not_not] at hother
      rw [hslot] at hpart
      rw [hother, hpart]
      refine ⟨hgclean, hfile, ?_⟩
      rcases stamp_cut hclean r.now n with hzero | ⟨hlen, -⟩
      · exact Or.inl ⟨0, hzero, by exact_mod_cast g.now.positive⟩
      · exact Or.inr ⟨⟨r.doc, r.now, n⟩, rfl, hlen, hsame.trans (hkept.unchanged hclear g hg)⟩
  · rw [hgood] at hg
    exact hdoc.trans (hkept.unchanged hclear g hg)
  · exact absurd (hkept.marked (unsaved_snoc_save hu).1) (by omega)

/-- One save by `dbSync`, at a later time than all saves of the class before it.  The cases are
whether it is made at all, and whether it succeeds. -/
theorem Kept.save (hkept : Kept h k tr m) (forceMask : Int) (now : ConfigClass → Clock)
    (write : ConfigClass → Write) (due : 0 < m.service.dirty k ∨ inMask forceMask k)
    {r : SaveRecord}
    (hr : r = ⟨k, h.write k m.service.config, slotOf (m.service.saveCount k), now k, write k,
      decide (0 < m.service.dirty k)⟩)
    (hharmless : Harmless tr r) (hlater : ∀ r' ∈ savesOf k tr, r'.now.sec < r.now.sec) :
    Kept h k (tr ++ [.save r]) ⟨(syncClass h forceMask now write k m.files m.service).1,
      (syncClass h forceMask now write k m.files m.service).2⟩ := by
  let st : Store := ⟨m.files, none⟩
  have hsync : syncClass h forceMask now write k m.files m.service
      = (st.save k (h.write k m.service.config) (now k) m.service.saveCount (write k),
        { m.service with
          dirty := Function.update m.service.dirty k 0
          saveCount := Function.update m.service.saveCount k (m.service.saveCount k + 1) }) := by
    rw [syncClass, if_pos due]
    rfl
  obtain ⟨hclean, hfail⟩ := hharmless
  have hk : r.k = k := by rw [hr]
  have hdoc : r.doc = h.write k m.service.config := by rw [hr]
  have hslot : r.slot = slotOf (m.service.saveCount k) := by rw [hr]
  have hnow : r.now = now k := by rw [hr]
  have hwrite : r.write = write k := by rw [hr]
  have hspare : (!r.slot) ≠ slotOf (m.service.saveCount k) := by rw [hslot]; simp
  rw [hsync]
  by_cases hwhole : r.write = .whole
  · apply hkept.saved hk hclean hwhole hlater
    · rw [hdoc, hslot, hnow, ← hwrite, hwhole]
      exact st.save_self ..
    · exact st.save_spare k _ _ _ _ hspare
    · exact hdoc.symm
  · obtain ⟨hpending, haway⟩ := hfail hwhole
    have hclear : m.service.dirty k = 0 := by simpa [hr] using hpending
    refine hkept.failed hk hclean hwhole hclear (Function.update_self ..) hdoc rfl ?_
    rcases hw : write k with _ | n | _
    · exact absurd (hwrite.trans hw) hwhole
    · right
      refine ⟨?_, ⟨n, ?_⟩, st.save_spare k _ _ _ (.firstBytes n) hspare⟩
      · rw [hwrite, hw, hk] at haway
        exact haway.resolve_left nofun
      · rw [hdoc, hslot, hnow]
        dsimp only
        rw [Store.save_files]
        exact Function.update_self ..
    · left
      intro i
      dsimp only
      rw [Store.save_files]
      rfl

/-- **Step rule.**  A change marks the class; a save of another class leaves the files alone; a
save of this one succeeds or is harmless. -/
theorem Kept.step (hkept : Kept h k tr m) {e : Entry} (hstep : SaveStep h m e m')
    (hharmless : ∀ r, e = .save r → Harmless tr r) (hinc : Increasing k (tr ++ [e])) :
    Kept h k (tr ++ [e]) m' := by
  cases hstep with
  | put mask config others => exact hkept.put others
  | save k' forceMask now write due =>
      by_cases hk : k' = k
      · subst hk
        apply hkept.save forceMask now write due rfl (hharmless _ rfl)
        intro r' hr'
        have hpair := hinc
        rw [Increasing, savesOf_save tr ⟨k', _, _, _, _, _⟩, List.pairwise_append] at hpair
        exact hpair.2.2 r' hr' _ (List.mem_singleton_self _)
      · let st : Store := ⟨m.files, none⟩
        apply hkept.other (savesOf_other tr hk)
        · exact fun hu => (unsaved_snoc_save hu).1
        · intro i
          rw [syncClass, if_pos due]
          exact st.save_other (Ne.symm hk) _ _ _ _ i
        · rw [syncClass, if_pos due]
          exact Function.update_of_ne (Ne.symm hk) ..
        · rw [syncClass, if_pos due]

/-- **Run rule.**  The service starts with no saved file and nothing marked. -/
theorem Kept.run {start : Running Config}
    (hfresh : ∀ k i, start.files (slotPath (dbPath k) i) = none)
    (hrun : Run (SaveStep h) start tr m) (hharmless : AllHarmless tr) (hinc : Increasing k tr) :
    Kept h k tr m := by
  revert hharmless hinc
  refine hrun.history (fun tr m => AllHarmless tr → Increasing k tr → Kept h k tr m) ?_ ?_
  · intro _ _
    refine ⟨fun i => ⟨0, ?_, le_refl _, fun t ht _ => by exact_mod_cast ht⟩, nofun, nofun, ?_⟩
    · rw [hfresh, stamp_none]
    · rintro ⟨front, mask, back, heq, -⟩
      simp at heq
  · intro tr m e m' _ ih hstep hharmless hinc
    refine Kept.step (ih ?_ ?_) hstep ?_ hinc
    · intro front r back heq
      exact hharmless front r (back ++ [e]) (by simp [heq])
    · rw [Increasing, savesOf_append, List.pairwise_append] at hinc
      exact hinc.1
    · rintro r rfl
      exact hharmless tr r [] rfl

end Kept

/-- **Failed saves.**  Take a run of changes and saves of a service that starts
with no suffixed file, in which the readings of the clock increase.  If every save
that fails finds no change pending and leaves the last good file alone, then what
a restart would load is always the document of the last successful save, and a
class whose last change is not saved is still marked. -/
theorem keeps_last_good {h : Handlers Config} {start m : Running Config} {tr : List Entry}
    (hfresh : ∀ k i, start.files (slotPath (dbPath k) i) = none)
    (hrun : Run (SaveStep h) start tr m) (hinc : ∀ k, Increasing k tr) (hharmless : AllHarmless tr)
    (k : ConfigClass) : Keeps k tr m :=
  (Kept.run hfresh hrun hharmless (hinc k)).keeps

/-! ## A run in which failed saves lose the configuration -/

def emptyDocument : Document := ⟨.object .nil, trivial, fits_empty⟩

/-- A service whose configuration is always written as the empty document. -/
def emptyHandlers : Handlers Unit := ⟨(), fun _ _ _ => (), fun _ _ => emptyDocument, id⟩

def freshStart : Running Unit := ⟨fun _ => none, ⟨(), fun _ => 0, fun _ => 1⟩⟩

/-- A change of the system class. -/
def changeSystem (m : Running Unit) : Running Unit := ⟨m.files, configPut 1 () m.service⟩

/-- A save of the system class, made because `forceMask` asks for it. -/
def saveSystem (now : Clock) (write : Write) (m : Running Unit) : Running Unit :=
  let r := syncClass emptyHandlers 1 (fun _ => now) (fun _ => write) .system m.files m.service
  ⟨r.1, r.2⟩

def saveEntry (now : Clock) (write : Write) (m : Running Unit) : Entry :=
  .save ⟨.system, emptyDocument, slotOf (m.service.saveCount .system), now, write,
    decide (0 < m.service.dirty .system)⟩

theorem changeSystem_step (m : Running Unit) :
    SaveStep emptyHandlers m (.put 1) (changeSystem m) :=
  SaveStep.put 1 () (fun _ _ => rfl)

theorem saveSystem_step (now : Clock) (write : Write) (m : Running Unit) :
    SaveStep emptyHandlers m (saveEntry now write m) (saveSystem now write m) :=
  SaveStep.save .system 1 (fun _ => now) (fun _ => write) (Or.inr (by decide))

/-- The save of the example writes the slot whose turn it is. -/
theorem saveSystem_files (now : Clock) (write : Write) (m : Running Unit) :
    (saveSystem now write m).files
      = write.apply (slotPath (dbPath .system) (slotOf (m.service.saveCount .system)))
        (emptyDocument.save now) m.files := by
  let st : Store := ⟨m.files, none⟩
  have hdue : 0 < m.service.dirty .system ∨ inMask 1 .system := Or.inr (by decide)
  rw [saveSystem, syncClass, if_pos hdue]
  exact st.save_files .system emptyDocument now m.service.saveCount write

def firstClock : Clock := ⟨1, Nat.one_pos, one_bounded⟩

def secondClock : Clock := ⟨2, by decide, by decide⟩

def thirdClock : Clock := ⟨3, by decide, by decide⟩

/-- The empty document has no line that the script takes for a time. -/
theorem emptyDocument_clean : emptyDocument.Clean := by
  unfold Document.Clean
  decide

/-- A change is saved. -/
theorem keeps_last_good_first_save : Keeps .system
    [.put 1, saveEntry firstClock .whole (changeSystem freshStart)]
    (saveSystem firstClock .whole (changeSystem freshStart)) := by
  have hrun := (Run.single (changeSystem_step freshStart)).snoc
    (saveSystem_step firstClock .whole (changeSystem freshStart))
  apply keeps_last_good (fun _ _ => rfl) hrun
  · intro k
    cases k <;> simp [Increasing, savesOf, saveEntry]
  · intro front r back heq
    have hmem : Entry.save r ∈
        [Entry.put 1] ++ [saveEntry firstClock .whole (changeSystem freshStart)] := by
      rw [heq]
      simp
    obtain rfl : r = _ := by simpa [saveEntry] using hmem
    exact ⟨emptyDocument_clean, fun hfail => absurd rfl hfail⟩

/-- A change is saved, the next change is lost on a full device, and a forced save
on the full device overwrites the good file.  Nothing is marked any more. -/
theorem failed_saves_lose : ∃ (tr : List Entry) (m : Running Unit) (g : SaveRecord),
    Run (SaveStep emptyHandlers) freshStart tr m ∧ (∀ k, Increasing k tr) ∧
      (∀ k config, (emptyHandlers.write k config).Clean) ∧ lastGood .system tr = some g ∧
      ¬ (∃ rest, m.files (chosenPath .system (choice .system m.files)) = some (g.doc.text ++ rest)) ∧
      Unsaved .system tr ∧ m.service.dirty .system = 0 := by
  let m₁ := changeSystem freshStart
  let m₂ := saveSystem firstClock .whole m₁
  let m₃ := changeSystem m₂
  let m₄ := saveSystem secondClock (.firstBytes 0) m₃
  let m₅ := saveSystem thirdClock (.firstBytes 0) m₄
  have hrun :=
    (Run.single (changeSystem_step freshStart)).snoc (saveSystem_step firstClock .whole m₁)
  have hrun :=
    (hrun.snoc (changeSystem_step m₂)).snoc (saveSystem_step secondClock (.firstBytes 0) m₃)
  have hrun := hrun.snoc (saveSystem_step thirdClock (.firstBytes 0) m₄)
  refine ⟨_, m₅, _, hrun, ?_, fun _ _ => emptyDocument_clean, rfl, ?_, ?_, ?_⟩
  · intro k
    cases k <;> simp [Increasing, savesOf, saveEntry, firstClock, secondClock, thirdClock]
  · have hslots : ∀ i, m₅.files (slotPath (dbPath .system) i) = some [] := by
      intro i
      simp only [m₅, m₄, saveSystem_files]
      cases i <;> rfl
    have hchoice : choice .system m₅.files = none := by
      rw [choice, hslots, hslots]
      decide
    have hempty : m₅.files (dbPath .system) = none := by
      simp only [m₅, m₄, m₃, m₂, changeSystem, saveSystem_files]
      rfl
    rw [hchoice, chosenPath, hempty]
    rintro ⟨rest, hrest⟩
    contradiction
  · refine ⟨[.put 1, saveEntry firstClock .whole m₁], 1,
      [saveEntry secondClock (.firstBytes 0) m₃, saveEntry thirdClock (.firstBytes 0) m₄], rfl,
      by decide, ?_⟩
    simp [savesOf, saveEntry]
  · rfl

end ConfigFiles

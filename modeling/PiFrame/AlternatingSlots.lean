import Mathlib.Logic.Function.Basic

/-!
# Two slots written in turn

A writer keeps its last record in one of two slots and always writes the other
one, so that a write that does not finish can spoil only the slot that is not
needed.  After a restart some complete slot is loaded and the other one is
written next.

The records are of any type.  `Guarded` is what every operation keeps: each
complete slot has its origin, and once a write has completed there is a complete
slot that the next write does not touch.
-/

namespace AlternatingSlots

/-- A slot holds a complete record or nothing that can be loaded.  `target` is
the slot of the next write while the writer is up. -/
structure Slots (α : Type*) where
  slot : Bool → Option α
  target : Option Bool

variable {α : Type*}

/-- Put `record` into slot `i`. -/
def Slots.put (s : Slots α) (i : Bool) (record : Option α) (target : Option Bool) : Slots α :=
  ⟨Function.update s.slot i record, target⟩

/-- The slot to write after a load: not the one that was loaded. -/
def nextTarget : Option Bool → Bool
  | some i => !i
  | none => true

/-- The writer comes up with the slot it has loaded, if there was one. -/
def Slots.load (s : Slots α) (chosen : Option Bool) : Slots α :=
  ⟨s.slot, some (nextTarget chosen)⟩

@[simp] theorem Slots.put_slot (s : Slots α) (i : Bool) (record : Option α) (target : Option Bool) :
    (s.put i record target).slot i = record :=
  Function.update_self ..

@[simp] theorem Slots.put_other (s : Slots α) (i : Bool) (record : Option α)
    (target : Option Bool) :
    (s.put i record target).slot (!i) = s.slot (!i) :=
  Function.update_of_ne (by simp) ..

/-- A choice that loads a complete slot whenever there is one. -/
def Slots.Sound (s : Slots α) (chosen : Option Bool) : Prop :=
  match chosen with
  | some i => (s.slot i).isSome
  | none => ∀ i, s.slot i = none

structure Guarded (written : α → Prop) (completed : Prop) (s : Slots α) : Prop where
  origin : ∀ i a, s.slot i = some a → written a
  spare : completed → ∀ i, s.target = some i → (s.slot (!i)).isSome
  resting : completed → s.target = none → ∃ i, (s.slot i).isSome

variable {written written' : α → Prop} {completed completed' : Prop} {s : Slots α}

/-- Once a write has completed, a sound choice is never empty. -/
theorem Guarded.chosen (h : Guarded written completed s) (hdone : completed) {chosen : Option Bool}
    (hsound : s.Sound chosen) : ∃ i a, chosen = some i ∧ s.slot i = some a ∧ written a := by
  have hfull : ∃ i, (s.slot i).isSome := by
    cases htarget : s.target with
    | none => exact h.resting hdone htarget
    | some i => exact ⟨!i, h.spare hdone i htarget⟩
  cases chosen with
  | none =>
      obtain ⟨i, hi⟩ := hfull
      rw [hsound i] at hi
      contradiction
  | some i =>
      obtain ⟨a, ha⟩ := Option.isSome_iff_exists.mp hsound
      exact ⟨i, a, rfl, ha, h.origin i a ha⟩

/-- A complete write: the slot holds what has been written, and the other slot is the next
target. -/
theorem Guarded.write (h : Guarded written completed s) {i : Bool} {a : α} (ha : written' a)
    (hmono : ∀ b, written b → written' b) :
    Guarded written' completed' (s.put i (some a) (some !i)) where
  origin j b hb := by
    by_cases hj : j = i
    · subst hj
      rw [Slots.put_slot] at hb
      exact Option.some.inj hb ▸ ha
    · obtain rfl : j = !i := by cases i <;> cases j <;> simp_all
      rw [Slots.put_other] at hb
      exact hmono b (h.origin _ b hb)
  spare _ j hj := by
    obtain rfl : (!i) = j := Option.some.inj hj
    simp
  resting _ hnone := nomatch hnone

/-- A write that is cut off, by which the writer goes down. -/
theorem Guarded.cut (h : Guarded written completed s) {i : Bool} (htarget : s.target = some i)
    {record : Option α} (hrecord : ∀ a, record = some a → written' a)
    (hmono : ∀ b, written b → written' b) (hdone : completed' → completed) :
    Guarded written' completed' (s.put i record none) where
  origin j b hb := by
    by_cases hj : j = i
    · subst hj
      rw [Slots.put_slot] at hb
      exact hrecord b hb
    · obtain rfl : j = !i := by cases i <;> cases j <;> simp_all
      rw [Slots.put_other] at hb
      exact hmono b (h.origin _ b hb)
  spare _ _ hj := nomatch hj
  resting hc _ := ⟨!i, by rw [Slots.put_other]; exact h.spare (hdone hc) i htarget⟩

/-- The writer goes down without a write. -/
theorem Guarded.stop (h : Guarded written completed s) :
    Guarded written completed ⟨s.slot, none⟩ where
  origin := h.origin
  spare _ _ hj := nomatch hj
  resting hc _ := by
    cases htarget : s.target with
    | none => exact h.resting hc htarget
    | some i => exact ⟨!i, h.spare hc i htarget⟩

/-- The writer comes up with a sound choice. -/
theorem Guarded.load (h : Guarded written completed s) {chosen : Option Bool}
    (hsound : s.Sound chosen) : Guarded written completed (s.load chosen) where
  origin := h.origin
  spare hc j hj := by
    obtain ⟨i, a, rfl, ha, -⟩ := h.chosen hc hsound
    have hji : (!i) = j := Option.some.inj hj
    rw [← hji, Bool.not_not]
    exact Option.isSome_iff_exists.mpr ⟨a, ha⟩
  resting _ hnone := nomatch hnone

/-- Two empty slots guard nothing yet. -/
theorem Guarded.empty {target : Option Bool} (hnone : ¬ completed) :
    Guarded written completed (⟨fun _ => none, target⟩ : Slots α) where
  origin _ _ h := nomatch h
  spare hc := absurd hc hnone
  resting hc := absurd hc hnone

end AlternatingSlots

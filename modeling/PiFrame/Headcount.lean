import Mathlib.Data.Finset.Card
import Mathlib.Algebra.Order.Ring.Int

/-!
# Counting heads

A reference count is right when it is the number of those who hold a
reference.  `Count P n` says so without a list of all candidates, of which
there may be infinitely many: the elements with `P` are those of some finite
set of `n` elements.  One element at a time comes or goes.
-/

namespace Headcount

variable {α : Type*} {P Q : α → Prop} {n : Int} {a : α}

/-- Exactly `n` elements have the property `P`. -/
def Count (P : α → Prop) (n : Int) : Prop :=
  ∃ s : Finset α, (∀ a, a ∈ s ↔ P a) ∧ n = s.card

theorem Count.zero (h : ∀ a, ¬ P a) : Count P 0 :=
  ⟨∅, fun a => iff_of_false (Finset.notMem_empty a) (h a), rfl⟩

theorem Count.congr (h : Count P n) (hPQ : ∀ a, P a ↔ Q a) : Count Q n := by
  obtain ⟨s, hs, hn⟩ := h
  exact ⟨s, fun a => (hs a).trans (hPQ a), hn⟩

/-- One more element has the property. -/
theorem Count.enter (h : Count P n) (ha : ¬ P a) (hQ : ∀ x, Q x ↔ x = a ∨ P x) :
    Count Q (n + 1) := by
  classical
  obtain ⟨s, hs, rfl⟩ := h
  have hnew : a ∉ s := fun hmem => ha ((hs a).mp hmem)
  refine ⟨insert a s, fun x => ?_, ?_⟩
  · rw [Finset.mem_insert, hs, hQ]
  · rw [Finset.card_insert_of_notMem hnew]
    rfl

/-- One element loses the property. -/
theorem Count.leave (h : Count P n) (ha : P a) (hQ : ∀ x, Q x ↔ x ≠ a ∧ P x) :
    Count Q (n - 1) := by
  classical
  obtain ⟨s, hs, rfl⟩ := h
  have hmem : a ∈ s := (hs a).mpr ha
  have hpos := Finset.card_pos.mpr ⟨a, hmem⟩
  refine ⟨s.erase a, fun x => ?_, ?_⟩
  · rw [Finset.mem_erase, hs, hQ]
  · rw [Finset.card_erase_of_mem hmem]
    omega

/-- A count of zero leaves nobody. -/
theorem Count.empty (h : Count P 0) (a : α) : ¬ P a := by
  obtain ⟨s, hs, hn⟩ := h
  have hs0 : s = ∅ := Finset.card_eq_zero.mp (Int.ofNat_eq_zero.mp hn.symm)
  rw [← hs, hs0]
  exact Finset.notMem_empty a

/-- A count other than zero leaves somebody. -/
theorem Count.exists (h : Count P n) (hn : n ≠ 0) : ∃ a, P a := by
  obtain ⟨s, hs, rfl⟩ := h
  have hne : s.Nonempty := Finset.card_ne_zero.mp fun hzero => hn (by rw [hzero]; rfl)
  obtain ⟨a, ha⟩ := hne
  exact ⟨a, (hs a).mp ha⟩

theorem Count.pos (h : Count P n) (ha : P a) : 0 < n := by
  obtain ⟨s, hs, rfl⟩ := h
  exact Int.natCast_pos.mpr (Finset.card_pos.mpr ⟨a, (hs a).mpr ha⟩)

/-- There are at most `n` elements with the property `P`: a reference count
that may be too high but never too low. -/
def Covers (P : α → Prop) (n : Int) : Prop :=
  ∃ s : Finset α, (∀ a, P a → a ∈ s) ∧ s.card ≤ n

theorem Covers.zero (h : ∀ a, ¬ P a) : Covers P 0 :=
  ⟨∅, fun a ha => absurd ha (h a), le_rfl⟩

theorem Covers.mono (h : Covers P n) (hQ : ∀ a, Q a → P a) : Covers Q n := by
  obtain ⟨s, hs, hn⟩ := h
  exact ⟨s, fun a ha => hs a (hQ a ha), hn⟩

theorem Covers.le {m : Int} (h : Covers P n) (hnm : n ≤ m) : Covers P m := by
  obtain ⟨s, hs, hn⟩ := h
  exact ⟨s, hs, hn.trans hnm⟩

theorem Covers.nonneg (h : Covers P n) : 0 ≤ n := by
  obtain ⟨s, -, hn⟩ := h
  omega

theorem Covers.enter (h : Covers P n) (hQ : ∀ x, Q x → x = a ∨ P x) : Covers Q (n + 1) := by
  classical
  obtain ⟨s, hs, hn⟩ := h
  have hcard : (insert a s).card ≤ s.card + 1 := Finset.card_insert_le a s
  refine ⟨insert a s, fun x hx => ?_, by omega⟩
  rcases hQ x hx with rfl | hx
  · exact Finset.mem_insert_self ..
  · exact Finset.mem_insert_of_mem (hs x hx)

/-- Without one of them the bound may be lower by one. -/
theorem Covers.leave (h : Covers P n) (ha : P a) (hQ : ∀ x, Q x → x ≠ a ∧ P x) :
    Covers Q (n - 1) := by
  classical
  obtain ⟨s, hs, hn⟩ := h
  have hmem : a ∈ s := hs a ha
  have hpos := Finset.card_pos.mpr ⟨a, hmem⟩
  have hcard := Finset.card_erase_of_mem hmem
  refine ⟨s.erase a, fun x hx => ?_, by omega⟩
  obtain ⟨hne, hx⟩ := hQ x hx
  exact Finset.mem_erase.mpr ⟨hne, hs x hx⟩

/-- One element takes the place of another. -/
theorem Covers.replace {b : α} (h : Covers P n) (ha : P a)
    (hQ : ∀ x, Q x → x = b ∨ x ≠ a ∧ P x) : Covers Q n := by
  have hleft : Covers (fun x => x ≠ a ∧ P x) (n - 1) := h.leave ha fun x hx => hx
  have hagain := hleft.enter hQ
  rwa [Int.sub_add_cancel] at hagain

theorem Covers.empty (h : Covers P 0) (a : α) : ¬ P a := by
  obtain ⟨s, hs, hn⟩ := h
  have hs0 : s = ∅ := Finset.card_eq_zero.mp (by omega)
  intro ha
  have hmem := hs a ha
  rw [hs0] at hmem
  exact Finset.notMem_empty a hmem

end Headcount

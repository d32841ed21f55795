import Mathlib.Algebra.BigOperators.Group.Finset.Basic
import Mathlib.Algebra.Order.BigOperators.Group.Finset
import Mathlib.Data.Finset.Basic
import Mathlib.Data.Int.Cast.Basic
import Mathlib.Data.Multiset.Count
import Mathlib.Tactic.Abel

/-!
# Counted references

A ledger for objects that are created by one party, handed to any number of
others and destroyed with the last reference.  Four things are recorded: which
objects are live, the counter kept in each of them, which of them still belong
to their creator, and the bag of all references in circulation.

`Ledger.Sound` says that every counter is the number of references and that
the live objects are exactly those somebody can still reach.  Each operation
keeps it under the one condition that the code using it has to meet; an object
that belongs to its creator must not be destroyed by a counter that reaches
zero, so the creator gives it up before the first reference is dropped.
-/

namespace ReferenceLedger

variable {α : Type*} [DecidableEq α]

/-- Live objects, their counters, the ones still owned, and all references. -/
@[ext] structure Ledger (α : Type*) where
  live : Finset α
  count : α → Int
  owned : Set α
  refs : Multiset α

/-- Counters count, and live means reachable. -/
structure Ledger.Sound (l : Ledger α) : Prop where
  counted : ∀ b ∈ l.live, l.count b = l.refs.count b
  live_iff : ∀ b, b ∈ l.live ↔ b ∈ l.owned ∨ b ∈ l.refs

/-- A new object in the hands of its creator. -/
def Ledger.create (l : Ledger α) (b : α) : Ledger α where
  live := insert b l.live
  count := Function.update l.count b 0
  owned := insert b l.owned
  refs := l.refs

/-- The creator destroys an object. -/
def Ledger.discard (l : Ledger α) (b : α) : Ledger α where
  live := l.live.erase b
  count := l.count
  owned := l.owned \ {b}
  refs := l.refs

/-- One more reference. -/
def Ledger.share (l : Ledger α) (b : α) : Ledger α where
  live := l.live
  count := Function.update l.count b (l.count b + 1)
  owned := l.owned
  refs := b ::ₘ l.refs

/-- The creator gives the object up. -/
def Ledger.surrender (l : Ledger α) (b : α) : Ledger α where
  live := l.live
  count := l.count
  owned := l.owned \ {b}
  refs := l.refs

/-- One reference less; the object goes when the counter reaches zero. -/
def Ledger.drop (l : Ledger α) (b : α) : Ledger α where
  live := if l.count b = 1 then l.live.erase b else l.live
  count := Function.update l.count b (l.count b - 1)
  owned := l.owned
  refs := l.refs.erase b

namespace Ledger.Sound

variable {l : Ledger α} {b : α}

theorem live_of_owned (h : l.Sound) (hb : b ∈ l.owned) : b ∈ l.live :=
  (h.live_iff b).mpr (Or.inl hb)

theorem live_of_ref (h : l.Sound) (hb : b ∈ l.refs) : b ∈ l.live :=
  (h.live_iff b).mpr (Or.inr hb)

/-- A buffer that was not live starts without references, in the hands of its owner. -/
theorem create (h : l.Sound) (hb : b ∉ l.live) : (l.create b).Sound := by
  have hrefs : b ∉ l.refs := fun hr => hb (h.live_of_ref hr)
  constructor
  · intro c hc
    simp only [Ledger.create] at hc ⊢
    by_cases hcb : c = b
    · rw [hcb, Function.update_self, Multiset.count_eq_zero_of_notMem hrefs, Int.ofNat_zero]
    · rw [Function.update_of_ne hcb]
      exact h.counted c ((Finset.mem_insert.mp hc).resolve_left hcb)
  · intro c
    simp only [Ledger.create, Finset.mem_insert, Set.mem_insert_iff, h.live_iff c, or_assoc]

/-- The owner may free a buffer to which nobody has a reference. -/
theorem discard (h : l.Sound) (hb : b ∉ l.refs) : (l.discard b).Sound := by
  constructor
  · intro c hc
    exact h.counted c (Finset.mem_of_mem_erase hc)
  · intro c
    simp only [Ledger.discard, Finset.mem_erase, Set.mem_sdiff, Set.mem_singleton_iff, h.live_iff c]
    constructor
    · rintro ⟨hne, ho | hr⟩
      · exact Or.inl ⟨ho, hne⟩
      · exact Or.inr hr
    · rintro (⟨ho, hne⟩ | hr)
      · exact ⟨hne, Or.inl ho⟩
      · exact ⟨fun heq => hb (heq ▸ hr), Or.inr hr⟩

/-- A reference to a live buffer may be added, if the count goes up with it. -/
theorem share (h : l.Sound) (hb : b ∈ l.live) : (l.share b).Sound := by
  constructor
  · intro c hc
    simp only [Ledger.share] at hc ⊢
    by_cases hcb : c = b
    · rw [hcb, Function.update_self, Multiset.count_cons_self, h.counted b hb, Int.natCast_succ]
    · rw [Function.update_of_ne hcb, Multiset.count_cons_of_ne hcb]
      exact h.counted c hc
  · intro c
    simp only [Ledger.share, Multiset.mem_cons]
    constructor
    · intro hc
      rcases (h.live_iff c).mp hc with ho | hr
      · exact Or.inl ho
      · exact Or.inr (Or.inr hr)
    · rintro (ho | rfl | hr)
      · exact h.live_of_owned ho
      · exact hb
      · exact h.live_of_ref hr

/-- The owner may let go of a buffer that somebody refers to: the references keep it alive. -/
theorem surrender (h : l.Sound) (hb : b ∈ l.refs) : (l.surrender b).Sound := by
  constructor
  · exact h.counted
  · intro c
    simp only [Ledger.surrender, Set.mem_sdiff, Set.mem_singleton_iff, h.live_iff c]
    constructor
    · rintro (ho | hr)
      · by_cases hcb : c = b
        · exact Or.inr (hcb ▸ hb)
        · exact Or.inl ⟨ho, hcb⟩
      · exact Or.inr hr
    · rintro (⟨ho, -⟩ | hr)
      · exact Or.inl ho
      · exact Or.inr hr

/-- The counter reads one exactly when the last reference is about to go. -/
theorem count_eq_one_iff (h : l.Sound) (hb : b ∈ l.refs) :
    l.count b = 1 ↔ b ∉ l.refs.erase b := by
  have hcount := h.counted b (h.live_of_ref hb)
  have hpos := Multiset.count_pos.mpr hb
  have herase : (l.refs.erase b).count b = l.refs.count b - 1 := Multiset.count_erase_self b l.refs
  rw [← Multiset.count_eq_zero, herase, hcount]
  omega

/-- One reference is given up, and the buffer is freed with the last one.  As the count is
exact, nobody else can refer to it then. -/
theorem drop (h : l.Sound) (hb : b ∈ l.refs) (howned : b ∉ l.owned) : (l.drop b).Sound := by
  have hone := h.count_eq_one_iff hb
  have hlive := h.live_of_ref hb
  constructor
  · intro c hc
    have hc' : c ∈ l.live := by
      simp only [Ledger.drop] at hc
      split at hc
      · exact Finset.mem_of_mem_erase hc
      · exact hc
    simp only [Ledger.drop]
    by_cases hcb : c = b
    · have hpos := Multiset.count_pos.mpr hb
      rw [hcb, Function.update_self, Multiset.count_erase_self, h.counted b hlive]
      omega
    · rw [Function.update_of_ne hcb, Multiset.count_erase_of_ne hcb]
      exact h.counted c hc'
  · intro c
    by_cases hcb : c = b
    · subst hcb
      simp only [Ledger.drop, howned, false_or]
      split
      · rename_i h1
        simpa using hone.mp h1
      · rename_i h1
        exact ⟨fun _ => by_contra fun hn => h1 (hone.mpr hn), fun _ => hlive⟩
    · have hmem : c ∈ (l.drop b).live ↔ c ∈ l.live := by
        simp only [Ledger.drop]
        split
        · simp [hcb]
        · exact Iff.rfl
      rw [hmem, h.live_iff c]
      simp only [Ledger.drop, Multiset.mem_erase_of_ne hcb]

end Ledger.Sound

/-! ## References counted holder by holder -/

/-- All references of the holders in `holders`. -/
def held {κ : Type*} (holders : Finset κ) (hand : κ → Multiset α) : Multiset α :=
  ∑ k ∈ holders, hand k

variable {κ : Type*} {holders : Finset κ} {hand : κ → Multiset α}

omit [DecidableEq α] in
/-- Something is held if it is in the hand of one of the holders. -/
theorem mem_held {b : α} : b ∈ held holders hand ↔ ∃ k ∈ holders, b ∈ hand k := by
  unfold held
  exact Multiset.mem_sum

variable [DecidableEq κ]

omit [DecidableEq α] in
/-- Changing one hand exchanges its part of the bag. -/
theorem held_update {k : κ} (hk : k ∈ holders) (new : Multiset α) :
    held holders (Function.update hand k new) + hand k = held holders hand + new := by
  unfold held
  rw [← Finset.add_sum_erase _ _ hk, ← Finset.add_sum_erase _ hand hk, Function.update_self]
  have hrest : ∑ x ∈ holders.erase k, Function.update hand k new x =
      ∑ x ∈ holders.erase k, hand x :=
    Finset.sum_congr rfl fun x hx => Function.update_of_ne (Finset.ne_of_mem_erase hx) _ _
  rw [hrest]
  abel

omit [DecidableEq α] in
/-- A holder with an empty hand may join. -/
theorem held_insert (hand : κ → Multiset α) {k : κ} (hk : hand k = 0) :
    held (insert k holders) hand = held holders hand := by
  unfold held
  by_cases hmem : k ∈ holders
  · rw [Finset.insert_eq_of_mem hmem]
  · rw [Finset.sum_insert hmem, hk, zero_add]

omit [DecidableEq α] in
/-- A holder with an empty hand may leave. -/
theorem held_erase (hand : κ → Multiset α) {k : κ} (hk : hand k = 0) :
    held (holders.erase k) hand = held holders hand := by
  unfold held
  exact Finset.sum_erase _ hk

end ReferenceLedger

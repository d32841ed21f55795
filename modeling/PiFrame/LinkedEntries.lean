import Mathlib.Data.Finset.Basic

/-!
# Entries of one linked list

Records are allocated on a heap, some of them are linked into a list, and
pointers to them lie about in many places.  A pointer is an address; what it
points to may have been freed meanwhile.  `fault` is raised by an access to a
record that is not allocated, and by taking a record out of the list that is
not in it, so that a program is memory safe when `fault` stays down.

The operations are those of the kernel's `list.h` and its allocator.  Their
lemmas say what they do when nothing is wrong.
-/

namespace LinkedEntries

/-- The heap and the list. -/
structure Entries (α : Type*) where
  mem : Nat → α
  live : Finset Nat
  list : List Nat
  fault : Bool

namespace Entries

variable {α : Type*}

/-- An access to record `a`. -/
def touch (r : Entries α) (a : Nat) : Entries α :=
  { r with fault := r.fault || decide (a ∉ r.live) }

/-- `list_for_each_entry` up to the first record with `p`. -/
def walk (r : Entries α) (p : α → Bool) : List Nat → Entries α × Option Nat
  | [] => (r, none)
  | a :: rest => if p (r.mem a) then (r.touch a, some a) else (r.touch a).walk p rest

def find (r : Entries α) (p : α → Bool) : Entries α × Option Nat :=
  r.walk p r.list

/-- `kzalloc`, and the stores to the new record. -/
def kzalloc (r : Entries α) (a : Nat) (entry : α) : Entries α :=
  { r with mem := Function.update r.mem a entry, live := insert a r.live }

def kfree (r : Entries α) (a : Nat) : Entries α :=
  { r.touch a with live := r.live.erase a }

def listAddTail (r : Entries α) (a : Nat) : Entries α :=
  { r.touch a with list := r.list ++ [a] }

/-- `list_del`; a record that is in no list has no neighbours. -/
def listDel (r : Entries α) (a : Nat) : Entries α :=
  { r.touch a with
    list := r.list.erase a
    fault := (r.touch a).fault || decide (a ∉ r.list) }

/-- A store to record `a`. -/
def modify (r : Entries α) (a : Nat) (f : α → α) : Entries α :=
  { r.touch a with mem := Function.update r.mem a (f (r.mem a)) }

variable {r : Entries α} {a : Nat} {p : α → Bool}

theorem touch_of_live (ha : a ∈ r.live) : r.touch a = r := by
  simp [touch, ha]

/-- A walk over entries that are there finds the first one that fits, and touches nothing that
has been freed. -/
theorem walk_of_live {list : List Nat} (hlive : ∀ a ∈ list, a ∈ r.live) :
    r.walk p list = (r, list.find? fun a => p (r.mem a)) := by
  induction list with
  | nil => rfl
  | cons b list ih =>
      have hb := touch_of_live (hlive b List.mem_cons_self)
      have hrest := ih fun a ha => hlive a (List.mem_cons_of_mem b ha)
      by_cases hp : p (r.mem b) = true
      · simp [walk, hb, hp]
      · simp [walk, hb, hp, hrest]

/-- A search of a sound list finds the first entry that fits, and no fault. -/
theorem find_of_live (hlive : ∀ a ∈ r.list, a ∈ r.live) :
    r.find p = (r, r.list.find? fun a => p (r.mem a)) :=
  walk_of_live hlive

/-- A record that was found is in the list and is there, and it is one that was looked for. -/
theorem of_find (hlive : ∀ a ∈ r.list, a ∈ r.live) {r' : Entries α} {found : Option Nat}
    (hfind : r.find p = (r', found)) :
    r' = r ∧ (∀ a, found = some a → a ∈ r.list ∧ p (r.mem a) = true) ∧
      (found = none → ∀ a ∈ r.list, p (r.mem a) = false) := by
  rw [find_of_live hlive, Prod.mk.injEq] at hfind
  obtain ⟨rfl, rfl⟩ := hfind
  refine ⟨rfl, fun a ha => ?_, fun hnone a ha => ?_⟩
  · have hp := List.find?_some ha
    exact ⟨List.mem_of_find?_eq_some ha, hp⟩
  · rw [← Bool.not_eq_true]
    exact List.find?_eq_none.mp hnone a ha

/-- An entry that is there goes to the end of the list. -/
theorem listAddTail_of_live (ha : a ∈ r.live) :
    r.listAddTail a = { r with list := r.list ++ [a] } := by
  rw [listAddTail, touch_of_live ha]

theorem listDel_of_mem (ha : a ∈ r.live) (hlist : a ∈ r.list) :
    r.listDel a = { r with list := r.list.erase a } := by
  simp [listDel, touch_of_live ha, hlist]

theorem kfree_of_live (ha : a ∈ r.live) : r.kfree a = { r with live := r.live.erase a } := by
  rw [kfree, touch_of_live ha]

theorem modify_of_live (ha : a ∈ r.live) (f : α → α) :
    r.modify a f = { r with mem := Function.update r.mem a (f (r.mem a)) } := by
  rw [modify, touch_of_live ha]

/-- Two stores to the same record are one store of both. -/
theorem modify_modify (ha : a ∈ r.live) (f g : α → α) :
    (r.modify a f).modify a g = r.modify a fun x => g (f x) := by
  have hstill : a ∈ (r.modify a f).live := ha
  rw [modify_of_live hstill, modify_of_live ha, modify_of_live ha]
  dsimp only
  rw [Function.update_self, Function.update_idem]

theorem modify_eq_self (ha : a ∈ r.live) {f : α → α} (hf : f (r.mem a) = r.mem a) :
    r.modify a f = r := by
  rw [modify_of_live ha, hf, Function.update_eq_self]

/-- The entry that is written holds what was written. -/
@[simp] theorem modify_mem_self (f : α → α) : (r.modify a f).mem a = f (r.mem a) :=
  Function.update_self ..

theorem modify_mem_of_ne (f : α → α) {b : Nat} (hb : b ≠ a) : (r.modify a f).mem b = r.mem b :=
  Function.update_of_ne hb ..

/-- An allocation leaves the other entries as they were. -/
theorem kzalloc_mem_of_ne {entry : α} {b : Nat} (hb : b ≠ a) :
    (r.kzalloc a entry).mem b = r.mem b :=
  Function.update_of_ne hb ..

/-- What a store leaves alone is read as before, in the record that is written and in the others. -/
theorem modify_read {β : Type*} {g : α → β} {f : α → α} (hg : ∀ x, g (f x) = g x) (b : Nat) :
    g ((r.modify a f).mem b) = g (r.mem b) := by
  by_cases hb : b = a
  · rw [hb, modify_mem_self, hg]
  · rw [modify_mem_of_ne f hb]

end Entries

end LinkedEntries

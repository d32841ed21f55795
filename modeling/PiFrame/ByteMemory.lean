import Mathlib.Algebra.Order.Group.Nat
import Mathlib.Data.List.Basic

/-!
# Bytes in memory

A memory has a byte at every place.  Bytes are stored and loaded one behind the
other.  What is loaded from a place is what was stored there, and a store elsewhere
does not change it.
-/

namespace ByteMemory

abbrev Memory := Nat → UInt8

/-- Bytes are stored from place `p` on. -/
def Memory.store (m : Memory) (p : Nat) (data : List UInt8) : Memory :=
  fun i => if p ≤ i then (data[i - p]?).getD (m i) else m i

/-- The `n` bytes from place `p` on. -/
def Memory.load (m : Memory) (p n : Nat) : List UInt8 :=
  (List.range n).map fun i => m (p + i)

/-- Several stores, their places counted from `p`. -/
def Memory.stores (m : Memory) (p : Nat) (rows : List (Nat × List UInt8)) : Memory :=
  rows.foldl (fun m row => m.store (p + row.1) row.2) m

/-- The stores leave the `n` bytes from place `q` on alone, counted from the same place. -/
def Spares (rows : List (Nat × List UInt8)) (q n : Nat) : Prop :=
  ∀ row ∈ rows, row.1 + row.2.length ≤ q ∨ q + n ≤ row.1

instance (rows : List (Nat × List UInt8)) (q n : Nat) : Decidable (Spares rows q n) :=
  inferInstanceAs (Decidable (∀ row ∈ rows, row.1 + row.2.length ≤ q ∨ q + n ≤ row.1))

variable {m : Memory} {p q n i : Nat} {data front back : List UInt8}

theorem store_nil : m.store p [] = m := by
  funext i
  simp [Memory.store]

/-- What is stored behind something is stored with it. -/
theorem store_append :
    (m.store p front).store (p + front.length) back = m.store p (front ++ back) := by
  funext i
  simp only [Memory.store]
  by_cases hp : p ≤ i
  · simp only [if_pos hp]
    by_cases hi : p + front.length ≤ i
    · have hfront : front[i - p]? = none := List.getElem?_eq_none (by omega)
      rw [if_pos hi, List.getElem?_append_right (by omega), hfront, Option.getD_none, Nat.sub_sub]
    · rw [if_neg hi, List.getElem?_append_left (by omega)]
  · rw [if_neg hp, if_neg hp, if_neg (by omega)]

theorem store_apply_of_apart (h : i < p ∨ p + data.length ≤ i) : m.store p data i = m i := by
  rw [Memory.store]
  split
  · rw [List.getElem?_eq_none (by omega), Option.getD_none]
  · rfl

/-- What has been stored can be loaded. -/
@[simp] theorem load_store : (m.store p data).load p data.length = data := by
  refine List.ext_getElem (by simp [Memory.load]) fun i _ hi => ?_
  simp [Memory.load, Memory.store, hi]

/-- A store elsewhere changes nothing that is loaded. -/
theorem load_store_of_apart (h : p + data.length ≤ q ∨ q + n ≤ p) :
    (m.store p data).load q n = m.load q n := by
  refine List.map_congr_left fun i hi => store_apply_of_apart ?_
  have hlt := List.mem_range.1 hi
  omega

/-- **Frame rule.**  Stores that spare some bytes do not change what is loaded there. -/
theorem load_stores_of_spares {rows : List (Nat × List UInt8)} (h : Spares rows q n) :
    (m.stores p rows).load (p + q) n = m.load (p + q) n := by
  induction rows generalizing m with
  | nil => rfl
  | cons row rows ih =>
      have hrow := h row List.mem_cons_self
      calc (m.stores p (row :: rows)).load (p + q) n
          = ((m.store (p + row.1) row.2).stores p rows).load (p + q) n := rfl
        _ = (m.store (p + row.1) row.2).load (p + q) n :=
            ih fun r hr => h r (List.mem_cons_of_mem row hr)
        _ = m.load (p + q) n := load_store_of_apart (by omega)

end ByteMemory

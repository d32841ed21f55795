import Mathlib.Data.Nat.ModEq
import Mathlib.Logic.Function.Iterate
import PiFrame.Transition

/-!
# Names that come back

A generator numbers its calls and hands out a name for each.  With a counter of
finitely many values the names come back in cycles: two calls get the same name
exactly when they are a multiple of the cycle apart.

The counters here leave out zero, which is the name of nothing.
-/

namespace CyclicNames

/-- Two calls get the same name when they are a multiple of `m` apart. -/
def Cyclic {α : Type*} (m : Nat) (name : Nat → α) : Prop :=
  ∀ i j, name i = name j ↔ i ≡ j [MOD m]

section Windows

variable {α β : Type*} {m : Nat} {name : Nat → α}

/-- Within a cycle every call gets a name of its own. -/
theorem Cyclic.ne_of_window {i j : Nat} (h : Cyclic m name) (hij : i < j) (hwindow : j - i < m) :
    name i ≠ name j := by
  intro heq
  have hdvd : m ∣ j - i := (Nat.modEq_iff_dvd' hij.le).1 ((h i j).1 heq)
  have hle := Nat.le_of_dvd (Nat.sub_pos_of_lt hij) hdvd
  omega

/-- Names that are told apart come round as before. -/
theorem Cyclic.comp (h : Cyclic m name) {f : α → β} (hf : Function.Injective f) :
    Cyclic m (fun i => f (name i)) :=
  fun _ _ => hf.eq_iff.trans (h _ _)

/-- A generator may have been called before. -/
theorem Cyclic.shift (h : Cyclic m name) (first : Nat) : Cyclic m (fun i => name (first + i)) :=
  fun _ _ => (h _ _).trans ⟨Nat.ModEq.add_left_cancel' first, Nat.ModEq.add_left first⟩

theorem cyclic_mod (m : Nat) : Cyclic m (fun i => i % m) :=
  fun _ _ => Iff.rfl

end Windows

/-! ## Counters without zero -/

/-- The counter goes on by one below `n`, and once more at zero. -/
def next (n k : Nat) : Nat :=
  if (k + 1) % n = 0 then 1 else (k + 1) % n

/-- The counter after so many calls, and the name that the next call gets. -/
def value (n start i : Nat) : Nat :=
  (next n)^[i] start

variable {n k start i : Nat}

/-- Below the wrap, the counter goes through 1 to `n - 1` and never to 0. -/
theorem next_eq (hpos : 0 < k) (hlt : k < n) : next n k = k % (n - 1) + 1 := by
  unfold next
  by_cases hlast : k = n - 1
  · rw [if_pos (by rw [hlast, Nat.sub_add_cancel (by omega), Nat.mod_self]), hlast, Nat.mod_self]
  · rw [Nat.mod_eq_of_lt (by omega), if_neg (Nat.succ_ne_zero k), Nat.mod_eq_of_lt (by omega)]

theorem value_succ : value n start (i + 1) = next n (value n start i) :=
  Function.iterate_succ_apply' (next n) i start

theorem value_eq (hpos : 0 < start) (hlt : start < n) :
    value n start i = (start - 1 + i) % (n - 1) + 1 := by
  induction i with
  | zero =>
      have hsmall : (start - 1) % (n - 1) = start - 1 := Nat.mod_eq_of_lt (by omega)
      rw [Nat.add_zero (start - 1), hsmall, Nat.sub_add_cancel hpos]
      rfl
  | succ i ih =>
      have hmod : (start - 1 + i) % (n - 1) < n - 1 := Nat.mod_lt _ (by omega)
      rw [value_succ, ih, next_eq (Nat.succ_pos _) (by omega), Nat.succ_eq_add_one, Nat.mod_add_mod,
        Nat.add_assoc]

theorem value_ne_zero (hpos : 0 < start) (hlt : start < n) : value n start i ≠ 0 := by
  rw [value_eq hpos hlt]
  exact Nat.succ_ne_zero _

/-- **Cycle of the counter.**  It goes through all its values but zero. -/
theorem cyclic_value (hpos : 0 < start) (hlt : start < n) : Cyclic (n - 1) (value n start) := by
  have hmod := (((cyclic_mod (n - 1)).shift (start - 1)).comp Nat.succ_injective)
  intro i j
  rw [value_eq hpos hlt, value_eq hpos hlt]
  exact hmod i j

/-! ## Generators -/

section Generators

open Transition

variable {σ ε : Type*} {step : σ → ε → σ → Prop} {s t : σ} {tr : List ε}

/-- The calls among the steps take the values of a counter one after the other, and no
other step changes it. -/
structure Counting (step : σ → ε → σ → Prop) (counter : σ → Nat) (n : Nat)
    (call : ε → Bool) : Prop where
  called : ∀ {s e t}, step s e t → call e = true → counter t = next n (counter s)
  other : ∀ {s e t}, step s e t → call e = false → counter t = counter s

variable {counter : σ → Nat} {call : ε → Bool}

/-- After a run the counter has moved once for each call in it. -/
theorem Counting.run (h : Counting step counter n call) (hrun : Run step s tr t) :
    counter t = value n (counter s) (tr.filter call).length := by
  induction hrun with
  | nil => rfl
  | @snoc tr t u e _ hlast ih =>
      rw [List.filter_append, List.length_append]
      cases hcall : call e with
      | true =>
          rw [h.called hlast hcall, ih, List.filter_cons_of_pos hcall]
          exact value_succ.symm
      | false =>
          rw [h.other hlast hcall, ih, List.filter_cons_of_neg (by simp [hcall])]
          rfl

/-- The calls of a run find the values of the counter in their order. -/
theorem Counting.value_of_call (h : Counting step counter n call) (hrun : Run step s tr t)
    {i : Nat} {e : ε} (hi : (tr.filter call)[i]? = some e) :
    ∃ before after, step before e after ∧ counter before = value n (counter s) i := by
  induction hrun with
  | nil => simp at hi
  | @snoc tr t u e' hbefore hlast ih =>
      rw [List.filter_append] at hi
      by_cases hearlier : i < (tr.filter call).length
      · exact ih (by rwa [List.getElem?_append_left hearlier] at hi)
      · rw [List.getElem?_append_right (Nat.le_of_not_lt hearlier)] at hi
        cases hcall : call e' with
        | false => simp [hcall] at hi
        | true =>
            rw [List.filter_cons_of_pos hcall, List.filter_nil, List.getElem?_singleton] at hi
            split at hi
            · cases hi
              have hlen : i = (tr.filter call).length := by omega
              exact ⟨t, u, hlast, hlen ▸ h.run hbefore⟩
            · cases hi

end Generators

end CyclicNames

import Mathlib.Data.Nat.ModEq
import Mathlib.Tactic.Ring

/-!
# The geometry of a hierarchical timing wheel

Level `n` of the wheel has `2 ^ bits n` slots, and a slot of it stands for
`2 ^ shift n` ticks, so that one turn of a level is one slot of the next.
A due tick `d` belongs to slot `slot n d` of level `n`, whatever turn it is in.

Each level has a pointer `next` to the turn-free number of the slot it will
empty next, and it may hold only what lies less than one turn ahead of that
pointer (`InWindow`).  Within the window a slot number determines the tick up
to the resolution of the level (`InWindow.eq_next`), the pointer may move past
an empty slot (`InWindow.advance`), and what is at least one slot but less than
one turn ahead of the clock fits (`InWindow.of_reach`).
-/

namespace TimingWheel

variable (bits : Nat → Nat)

/-- The number of ticks in a slot of level `n` is `2 ^ shift n`. -/
def shift : Nat → Nat
  | 0 => 0
  | n + 1 => shift n + bits n

/-- The slot of level `n` that tick `d` belongs to. -/
def slot (n d : Nat) : Nat :=
  d / 2 ^ shift bits n % 2 ^ bits n

/-- Tick `d` is less than one turn of level `n` ahead of the slot `next`. -/
def InWindow (n next d : Nat) : Prop :=
  next ≤ d / 2 ^ shift bits n ∧ d / 2 ^ shift bits n < next + 2 ^ bits n

/-- The pointer of level `n` is not behind the clock `j`, and at most one slot
ahead of it. -/
def OnTime (n next j : Nat) : Prop :=
  j ≤ next * 2 ^ shift bits n ∧ next * 2 ^ shift bits n ≤ j + 2 ^ shift bits n

variable {bits} {n m next j d : Nat}

/-- What lies ahead of the pointer, and less than one turn ahead of the clock,
fits into the level. -/
theorem InWindow.of_reach (hlevel : OnTime bits n next j)
    (hnear : next * 2 ^ shift bits n ≤ d) (hfar : d < j + 2 ^ shift bits (n + 1)) :
    InWindow bits n next d := by
  have hpos : 0 < 2 ^ shift bits n := Nat.two_pow_pos _
  constructor
  · exact (Nat.le_div_iff_mul_le hpos).mpr hnear
  · rw [Nat.div_lt_iff_lt_mul hpos]
    calc d < j + 2 ^ shift bits (n + 1) := hfar
      _ ≤ next * 2 ^ shift bits n + 2 ^ shift bits (n + 1) := Nat.add_le_add_right hlevel.1 _
      _ = (next + 2 ^ bits n) * 2 ^ shift bits n := by
          rw [shift, Nat.pow_add]
          ring

/-- In the window, the slot under the pointer stands for one stretch of ticks
only. -/
theorem InWindow.eq_next (h : InWindow bits n next d)
    (hslot : slot bits n d = next % 2 ^ bits n) : d / 2 ^ shift bits n = next := by
  obtain ⟨hle, hlt⟩ := h
  have hmod : next ≡ d / 2 ^ shift bits n [MOD 2 ^ bits n] := hslot.symm
  have hdvd : 2 ^ bits n ∣ d / 2 ^ shift bits n - next := (Nat.modEq_iff_dvd' hle).mp hmod
  have hzero : d / 2 ^ shift bits n - next = 0 := Nat.eq_zero_of_dvd_of_lt hdvd (by omega)
  omega

/-- The pointer moves past an empty slot. -/
theorem InWindow.advance (h : InWindow bits n next d)
    (hslot : slot bits n d ≠ next % 2 ^ bits n) : InWindow bits n (next + 1) d := by
  obtain ⟨hle, hlt⟩ := h
  have hne : d / 2 ^ shift bits n ≠ next := by
    intro heq
    apply hslot
    unfold slot
    rw [heq]
  constructor <;> omega

/-- The ticks of the slot under a pointer that the clock has reached. -/
theorem ticks_of_reached (hreached : next * 2 ^ shift bits n = j)
    (hnext : d / 2 ^ shift bits n = next) : j ≤ d ∧ d < j + 2 ^ shift bits n := by
  have hpos : 0 < 2 ^ shift bits n := Nat.two_pow_pos _
  subst hreached hnext
  have hdiv := Nat.div_add_mod' d (2 ^ shift bits n)
  have hmod := Nat.mod_lt d hpos
  constructor <;> omega

/-- A pointer that is less than a slot ahead of the clock has been reached when
the clock is at the start of a slot. -/
theorem reached_of_dvd (hle : j ≤ next * 2 ^ shift bits n)
    (hlt : next * 2 ^ shift bits n < j + 2 ^ shift bits n) (hdvd : 2 ^ shift bits n ∣ j) :
    next * 2 ^ shift bits n = j := by
  obtain ⟨q, rfl⟩ := hdvd
  rw [Nat.mul_comm next] at hle hlt ⊢
  have hpos : 0 < 2 ^ shift bits n := Nat.two_pow_pos _
  have hge : q ≤ next := Nat.le_of_mul_le_mul_left hle hpos
  have hlt' : next < q + 1 := Nat.lt_of_mul_lt_mul_left hlt
  rw [Nat.le_antisymm hge (Nat.le_of_lt_succ hlt')]

/-- Slots are coarser from level to level. -/
theorem shift_mono (h : n ≤ m) : shift bits n ≤ shift bits m := by
  induction m, h using Nat.le_induction with
  | base => exact Nat.le_refl _
  | succ m _ ih => exact ih.trans (Nat.le_add_right _ _)

/-- The pointer of a level comes round to slot 0 exactly when that of the next
level has been reached. -/
theorem dvd_of_turn (hreached : next * 2 ^ shift bits n = j) :
    next % 2 ^ bits n = 0 ↔ 2 ^ shift bits (n + 1) ∣ j := by
  have hpos : 0 < 2 ^ shift bits n := Nat.two_pow_pos _
  rw [← hreached, shift, Nat.pow_add, Nat.mul_comm next, Nat.mul_dvd_mul_iff_left hpos,
    Nat.dvd_iff_mod_eq_zero]

end TimingWheel

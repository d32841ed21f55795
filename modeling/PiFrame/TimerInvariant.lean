import Mathlib.Data.List.Nodup
import PiFrame.TimerWheel

/-!
# Where a timer is

`Filed w next due` says of a wheel that every timer with a due tick is in
exactly one list, the one its due tick belongs to on one of the five levels,
and that all the lists together hold no other timer.  `next` are the pointers
of the levels before they are reduced to `tvN.index`.

The levels are filled by `internal_add_timer` alone (`Filed.add`), also during
a cascade, where it is preceded by the removal of the timer from the level
above (`Filed.listDel`).  What changes with the phase of a tick is only how the
pointers of the upper levels stand to `timer_jiffies`.
-/

namespace Timer

open TimingWheel

/-- 256 slots in `tv1`, 64 in the others. -/
def levelBits : Nat → Nat
  | 0 => tvrBits
  | _ + 1 => tvnBits

/-- The tick in which a timer is due that is filed when `timer_jiffies` is `j`:
the expiry, or `j` if that has passed. -/
def dueTick (j e : Nat) : Nat :=
  if 2 ^ 63 ≤ ulongSub e j then j else j + ulongSub e j

variable {w : Wheel} {next : Nat → Nat} {due : TimerPtr → Option Nat} {timer t : TimerPtr}
  {n m i j d e : Nat}

/-! ## The slot of a due tick -/

/-- Across the wrap, the difference of two ticks is right if they are less than `2 ^ 64` apart. -/
theorem ulongSub_mod (hle : j ≤ d) (hlt : d < j + 2 ^ 64) : ulongSub (d % 2 ^ 64) j = d - j := by
  unfold ulongSub
  omega

/-- An expiry that has not passed is the due tick. -/
theorem dueTick_mod (he : e < 2 ^ 64) (hfuture : ulongSub e j < 2 ^ 63) :
    dueTick j e % 2 ^ 64 = e := by
  have hnot : ¬ 2 ^ 63 ≤ ulongSub e j := by omega
  rw [dueTick, if_neg hnot]
  unfold ulongSub
  omega

theorem le_dueTick : j ≤ dueTick j e := by
  unfold dueTick
  split <;> omega

/-- Due ticks are read off an expiry as intended. -/
theorem dueTick_of_le (hle : j ≤ d) (hlt : d < j + 2 ^ 63) : dueTick j (d % 2 ^ 64) = d := by
  have hsub : ulongSub (d % 2 ^ 64) j = d - j := ulongSub_mod hle (by omega)
  have hnot : ¬ 2 ^ 63 ≤ ulongSub (d % 2 ^ 64) j := by omega
  rw [dueTick, if_neg hnot, hsub]
  omega

/-- In the first vector the slot is the tick by 256. -/
theorem slot_zero : slot levelBits 0 d = d % 2 ^ 8 := by
  simp [slot, shift, levelBits, tvrBits]

/-- In the higher vectors the slot is the tick by 64, at the scale of the vector. -/
theorem slot_succ : slot levelBits (n + 1) d = d / 2 ^ shift levelBits (n + 1) % 2 ^ 6 := rfl

/-- The bits that `internal_add_timer` takes from an expiry name the slot of
the tick. -/
theorem slot_of_bits (hshift : shift levelBits (n + 1) ≤ 58) :
    (d % 2 ^ 64) >>> shift levelBits (n + 1) &&& tvnMask = slot levelBits (n + 1) d := by
  have hsplit : 2 ^ 64 = 2 ^ shift levelBits (n + 1) * 2 ^ (64 - shift levelBits (n + 1)) := by
    rw [← Nat.pow_add]
    congr 1
    omega
  have hdvd : 2 ^ 6 ∣ 2 ^ (64 - shift levelBits (n + 1)) := Nat.pow_dvd_pow 2 (by omega)
  rw [tvnMask, tvnBits, Nat.and_two_pow_sub_one_eq_mod, Nat.shiftRight_eq_div_pow, slot_succ,
    hsplit, Nat.mod_mul_right_div_self, Nat.mod_mod_of_dvd _ hdvd]

/-- What `internal_add_timer` knows about the slot it chooses: it belongs to the tick in which
the timer is due, and the distance of that tick is right for the level. -/
theorem vecOf_spec (hindex : (w.tvecs 0).index = w.timerJiffies % 2 ^ 8) (he : e < 2 ^ 64)
    (hvec : w.vecOf e = some (n, i)) :
    n < 5 ∧ i = slot levelBits n (dueTick w.timerJiffies e) ∧
    (n = 0 ∨ w.timerJiffies + 2 ^ shift levelBits n ≤ dueTick w.timerJiffies e) ∧
    dueTick w.timerJiffies e < w.timerJiffies + 2 ^ shift levelBits (n + 1) ∧
    (n ≠ 0 → e = dueTick w.timerJiffies e % 2 ^ 64) := by
  have hmod := fun h => (dueTick_mod (j := w.timerJiffies) he h).symm
  have hdue : ulongSub e w.timerJiffies < 2 ^ 63 →
      dueTick w.timerJiffies e = w.timerJiffies + ulongSub e w.timerJiffies := by
    intro h
    rw [dueTick, if_neg (by omega)]
  -- a slot of one of the upper levels, where the test has found `idx` in range
  have hlevel : ∀ k, k < 4 → 2 ^ shift levelBits (k + 1) ≤ ulongSub e w.timerJiffies →
      ulongSub e w.timerJiffies < 2 ^ shift levelBits (k + 2) →
      some (k + 1, e >>> shift levelBits (k + 1) &&& tvnMask) = some (n, i) →
      n < 5 ∧ i = slot levelBits n (dueTick w.timerJiffies e) ∧
      (n = 0 ∨ w.timerJiffies + 2 ^ shift levelBits n ≤ dueTick w.timerJiffies e) ∧
      dueTick w.timerJiffies e < w.timerJiffies + 2 ^ shift levelBits (n + 1) ∧
      (n ≠ 0 → e = dueTick w.timerJiffies e % 2 ^ 64) := by
    intro k hk hnear hfar hsome
    obtain ⟨rfl, rfl⟩ := Prod.mk.inj (Option.some.inj hsome)
    have hle : shift levelBits (k + 2) ≤ shift levelBits 5 := shift_mono (by omega)
    have hmono : shift levelBits (k + 1) ≤ shift levelBits 4 := shift_mono (by omega)
    have hpow : 2 ^ shift levelBits (k + 2) ≤ 2 ^ 32 := Nat.pow_le_pow_right (by decide) hle
    have hlt : ulongSub e w.timerJiffies < 2 ^ 63 := by omega
    refine ⟨by omega, ?_, Or.inr ?_, ?_, fun _ => hmod hlt⟩
    · rw [← slot_of_bits (hmono.trans (by decide)), ← hmod hlt]
    · rw [hdue hlt]
      omega
    · rw [hdue hlt]
      exact Nat.add_lt_add_left hfar _
  unfold Wheel.vecOf at hvec
  simp only at hvec
  split_ifs at hvec with h₁ h₂ h₃ h₄ h₅ h₆
  · -- the next 256 ticks
    obtain ⟨rfl, rfl⟩ := Prod.mk.inj (Option.some.inj hvec)
    have hlt : ulongSub e w.timerJiffies < 2 ^ 8 := h₁
    refine ⟨by decide, ?_, Or.inl rfl, ?_, fun h => absurd rfl h⟩
    · rw [slot_zero, tvrMask, tvrSize, tvrBits, Nat.and_two_pow_sub_one_eq_mod]
      have := hmod (by omega)
      omega
    · rw [hdue (by omega)]
      exact Nat.add_lt_add_left hlt _
  · exact hlevel 0 (by decide) (not_lt.mp h₁) h₂ hvec
  · exact hlevel 1 (by decide) (not_lt.mp h₂) h₃ hvec
  · exact hlevel 2 (by decide) (not_lt.mp h₃) h₄ hvec
  · -- in the past
    obtain ⟨rfl, rfl⟩ := Prod.mk.inj (Option.some.inj hvec)
    have hpast : dueTick w.timerJiffies e = w.timerJiffies := if_pos h₅
    rw [hpast]
    refine ⟨by decide, hindex.trans slot_zero.symm, Or.inl rfl, ?_, fun h => absurd rfl h⟩
    exact Nat.lt_add_of_pos_right (Nat.two_pow_pos _)
  · exact hlevel 3 (by decide) (not_lt.mp h₄) (Nat.lt_succ_of_le h₆) hvec

/-- Out of range means at least `2 ^ 32` ticks ahead. -/
theorem vecOf_eq_none_iff :
    w.vecOf e = none ↔ 2 ^ 32 ≤ ulongSub e w.timerJiffies ∧ ulongSub e w.timerJiffies < 2 ^ 63 := by
  unfold Wheel.vecOf
  simp only
  have h₁ : tvrSize = 2 ^ 8 := rfl
  have h₂ : 1 <<< (tvrBits + tvnBits) = 2 ^ 14 := rfl
  have h₃ : 1 <<< (tvrBits + 2 * tvnBits) = 2 ^ 20 := rfl
  have h₄ : 1 <<< (tvrBits + 3 * tvnBits) = 2 ^ 26 := rfl
  split_ifs <;> simp only [false_iff, true_iff] <;> omega

/-! ## Lists and indices -/

@[simp] theorem slot_setSlot (l : List TimerPtr) :
    (w.setSlot n i l).slot m j = if m = n ∧ j = i then l else w.slot m j := by
  by_cases hm : m = n
  · subst hm
    by_cases hj : j = i <;> simp [Wheel.setSlot, Wheel.slot, hj]
  · simp [Wheel.setSlot, Wheel.slot, hm]

@[simp] theorem index_setSlot (l : List TimerPtr) :
    ((w.setSlot n i l).tvecs m).index = (w.tvecs m).index := by
  by_cases hm : m = n
  · subst hm
    simp [Wheel.setSlot]
  · simp [Wheel.setSlot, hm]

@[simp] theorem slot_setIndex (x : Nat) : (w.setIndex n x).slot m j = w.slot m j := by
  by_cases hm : m = n
  · subst hm
    simp [Wheel.setIndex, Wheel.slot]
  · simp [Wheel.setIndex, Wheel.slot, hm]

@[simp] theorem index_setIndex (x : Nat) :
    ((w.setIndex n x).tvecs m).index = if m = n then x else (w.tvecs m).index := by
  by_cases hm : m = n
  · subst hm
    simp [Wheel.setIndex]
  · simp [Wheel.setIndex, hm]

/-- Lists do not matter for the choice of a slot. -/
theorem vecOf_listDel : (w.listDel n i timer).vecOf e = w.vecOf e := by
  unfold Wheel.vecOf Wheel.listDel
  rw [index_setSlot]
  rfl

/-- `internal_add_timer` when it files the timer. -/
theorem internalAddTimer_filed (hstop : w.running = none)
    (hvec : w.vecOf (w.expires timer) = some (n, i)) :
    w.internalAddTimer timer =
      ({ w with pending := Function.update w.pending timer true } : Wheel).setSlot n i
        (w.slot n i ++ [timer]) := by
  have hvec' : ({ w with pending := Function.update w.pending timer true } : Wheel).vecOf
      (w.expires timer) = some (n, i) := hvec
  unfold Wheel.internalAddTimer
  simp only [hstop] at hvec' ⊢
  rw [hvec']
  rfl

/-! ## The invariant of the lists -/

/-- Every timer with a due tick is in the one list it belongs to. -/
structure Filed (w : Wheel) (next : Nat → Nat) (due : TimerPtr → Option Nat) : Prop where
  clock : next 0 = w.timerJiffies
  onTime : ∀ n < 5, OnTime levelBits n (next n) w.timerJiffies
  index : ∀ n < 5, (w.tvecs n).index = next n % 2 ^ levelBits n
  filed : ∀ n i t, t ∈ w.slot n i → n < 5 ∧ ∃ d, due t = some d ∧ i = slot levelBits n d ∧
    InWindow levelBits n (next n) d ∧ (n ≠ 0 → w.expires t = d % 2 ^ 64)
  found : ∀ t, due t ≠ none → ∃ n i, t ∈ w.slot n i
  nodup : ∀ n i, (w.slot n i).Nodup
  unique : ∀ n i m j t, t ∈ w.slot n i → t ∈ w.slot m j → n = m
  pending : ∀ t, due t ≠ none → w.pending t = true

/-- What `Filed` looks at: the slots, the indices, the clock, and the expiry of each timer that
is due. -/
theorem Filed.congr {w' : Wheel} (hf : Filed w next due) (hslot : ∀ n i, w'.slot n i = w.slot n i)
    (hindex : ∀ n, (w'.tvecs n).index = (w.tvecs n).index)
    (hnow : w'.timerJiffies = w.timerJiffies)
    (hexpires : ∀ t, due t ≠ none → w'.expires t = w.expires t)
    (hpending : ∀ t, due t ≠ none → w'.pending t = true) : Filed w' next due := by
  refine ⟨hnow ▸ hf.clock, hnow ▸ hf.onTime, fun n hn => (hindex n).trans (hf.index n hn), ?_, ?_,
    ?_, ?_, hpending⟩
  · intro n i t ht
    rw [hslot] at ht
    obtain ⟨hn, d, hd, hi, hwin, he⟩ := hf.filed n i t ht
    have hne : due t ≠ none := by simp [hd]
    exact ⟨hn, d, hd, hi, hwin, fun h => (hexpires t hne).trans (he h)⟩
  · intro t ht
    obtain ⟨n, i, h⟩ := hf.found t ht
    exact ⟨n, i, (hslot n i).symm ▸ h⟩
  · intro n i
    rw [hslot]
    exact hf.nodup n i
  · intro n i m j t hn hm
    rw [hslot] at hn hm
    exact hf.unique n i m j t hn hm

/-- A timer without a due tick is in no list. -/
theorem Filed.not_mem (hf : Filed w next due) (ht : due t = none) (n i : Nat) :
    t ∉ w.slot n i := by
  intro hmem
  obtain ⟨-, d, hd, -⟩ := hf.filed n i t hmem
  rw [ht] at hd
  cases hd

/-- A timer is in one list only. -/
theorem Filed.same_slot (hf : Filed w next due) (hi : t ∈ w.slot n i) (hj : t ∈ w.slot m j) :
    m = n ∧ j = i := by
  have heq := hf.unique m j n i t hj hi
  subst heq
  obtain ⟨-, d, hd, hslot, -⟩ := hf.filed m i t hi
  obtain ⟨-, d', hd', hslot', -⟩ := hf.filed m j t hj
  rw [hd] at hd'
  cases hd'
  exact ⟨rfl, hslot'.trans hslot.symm⟩

/-- A timer leaves its list, and is due no longer.  The other timers of the slot stay in their
order. -/
theorem Filed.listDel (hf : Filed w next due) (ht : timer ∈ w.slot n i) :
    Filed (w.listDel n i timer) next (Function.update due timer none) := by
  have hmem : ∀ m j t, t ∈ (w.listDel n i timer).slot m j ↔ t ∈ w.slot m j ∧ t ≠ timer := by
    intro m j t
    unfold Wheel.listDel
    rw [slot_setSlot]
    split
    · rename_i heq
      obtain ⟨rfl, rfl⟩ := heq
      rw [(hf.nodup m j).mem_erase_iff, and_comm]
    · rename_i hne
      constructor
      · intro hmem
        exact ⟨hmem, fun heq => hne (hf.same_slot ht (heq ▸ hmem))⟩
      · exact And.left
  refine ⟨hf.clock, hf.onTime, ?_, ?_, ?_, ?_, ?_, ?_⟩
  · intro m hm
    unfold Wheel.listDel
    rw [index_setSlot]
    exact hf.index m hm
  · intro m j t hmj
    obtain ⟨hold, hne⟩ := (hmem m j t).mp hmj
    rw [Function.update_of_ne hne]
    exact hf.filed m j t hold
  · intro t hdue
    have hne : t ≠ timer := fun heq => by simp [heq] at hdue
    rw [Function.update_of_ne hne] at hdue
    obtain ⟨m, j, h⟩ := hf.found t hdue
    exact ⟨m, j, (hmem m j t).mpr ⟨h, hne⟩⟩
  · intro m j
    unfold Wheel.listDel
    rw [slot_setSlot]
    split
    · exact (hf.nodup n i).erase timer
    · exact hf.nodup m j
  · intro m j k l t hm hk
    exact hf.unique m j k l t ((hmem m j t).mp hm).1 ((hmem k l t).mp hk).1
  · intro t hdue
    have hne : t ≠ timer := fun heq => by simp [heq] at hdue
    rw [Function.update_of_ne hne] at hdue
    exact hf.pending t hdue

/-- What lies at the right distance ahead fits in a level. -/
theorem Filed.inWindow (hf : Filed w next due) (hn : n < 5)
    (hnear : n = 0 ∧ w.timerJiffies ≤ d ∨ w.timerJiffies + 2 ^ shift levelBits n ≤ d)
    (hfar : d < w.timerJiffies + 2 ^ shift levelBits (n + 1)) :
    InWindow levelBits n (next n) d := by
  refine InWindow.of_reach (hf.onTime n hn) ?_ hfar
  rcases hnear with ⟨rfl, hle⟩ | hle
  · rw [hf.clock]
    simpa [shift] using hle
  · exact (hf.onTime n hn).2.trans hle

/-- `internal_add_timer` files a timer that is on no list, in the slot of the tick in which it
is due. -/
theorem Filed.add (hf : Filed w next due) (hstop : w.running = none) (hdue : due timer = none)
    (he : w.expires timer < 2 ^ 64) (hvec : w.vecOf (w.expires timer) = some (n, i)) :
    Filed (w.internalAddTimer timer) next
      (Function.update due timer (some (dueTick w.timerJiffies (w.expires timer)))) := by
  have hindex : (w.tvecs 0).index = w.timerJiffies % 2 ^ 8 :=
    (hf.index 0 (by decide)).trans (by rw [hf.clock]; rfl)
  obtain ⟨hn, hi, hnear, hfar, hmod⟩ := vecOf_spec hindex he hvec
  have hwin : InWindow levelBits n (next n) (dueTick w.timerJiffies (w.expires timer)) :=
    hf.inWindow hn (hnear.imp_left fun h => ⟨h, le_dueTick⟩) hfar
  rw [internalAddTimer_filed hstop hvec]
  have hmem : ∀ m j t, t ∈ (({ w with pending := Function.update w.pending timer true } :
      Wheel).setSlot n i (w.slot n i ++ [timer])).slot m j ↔
      t ∈ w.slot m j ∨ t = timer ∧ m = n ∧ j = i := by
    intro m j t
    rw [slot_setSlot]
    split
    · rename_i heq
      obtain ⟨rfl, rfl⟩ := heq
      simp
    · rename_i hne
      exact ⟨Or.inl, fun h => h.resolve_right fun h => hne h.2⟩
  have hnew : ∀ m j, timer ∉ w.slot m j := hf.not_mem hdue
  refine ⟨hf.clock, hf.onTime, ?_, ?_, ?_, ?_, ?_, ?_⟩
  · intro m hm
    rw [index_setSlot]
    exact hf.index m hm
  · intro m j t hmj
    rcases (hmem m j t).mp hmj with hold | ⟨rfl, rfl, rfl⟩
    · have hne : t ≠ timer := fun heq => hnew m j (heq ▸ hold)
      rw [Function.update_of_ne hne]
      exact hf.filed m j t hold
    · rw [Function.update_self]
      exact ⟨hn, _, rfl, hi, hwin, hmod⟩
  · intro t hdue'
    by_cases ht : t = timer
    · exact ⟨n, i, (hmem n i t).mpr (Or.inr ⟨ht, rfl, rfl⟩)⟩
    · rw [Function.update_of_ne ht] at hdue'
      obtain ⟨m, j, h⟩ := hf.found t hdue'
      exact ⟨m, j, (hmem m j t).mpr (Or.inl h)⟩
  · intro m j
    rw [slot_setSlot]
    split
    · rename_i heq
      obtain ⟨rfl, rfl⟩ := heq
      exact List.nodup_append_comm.mp (List.nodup_cons.mpr ⟨hnew m j, hf.nodup m j⟩)
    · exact hf.nodup m j
  · intro m j k l t hm hk
    rcases (hmem m j t).mp hm with hm' | ⟨ht, hmn, -⟩ <;>
      rcases (hmem k l t).mp hk with hk' | ⟨ht', hkn, -⟩
    · exact hf.unique m j k l t hm' hk'
    · exact absurd (ht' ▸ hm') (hnew m j)
    · exact absurd (ht ▸ hk') (hnew k l)
    · exact hmn.trans hkn.symm
  · intro t hdue'
    show Function.update w.pending timer true t = true
    by_cases ht : t = timer
    · rw [ht, Function.update_self]
    · rw [Function.update_of_ne ht] at hdue' ⊢
      exact hf.pending t hdue'

/-! ## Cascades -/

/-- `w'` differs from `w` at most in its lists. -/
structure SameButLists (w w' : Wheel) : Prop where
  index : ∀ n, (w'.tvecs n).index = (w.tvecs n).index
  expires : w'.expires = w.expires
  pending : w'.pending = w.pending
  running : w'.running = w.running
  timerJiffies : w'.timerJiffies = w.timerJiffies
  jiffies : w'.jiffies = w.jiffies

theorem SameButLists.trans {w' w'' : Wheel} (h : SameButLists w w') (h' : SameButLists w' w'') :
    SameButLists w w'' :=
  ⟨fun n => (h'.index n).trans (h.index n), h'.expires.trans h.expires, h'.pending.trans h.pending,
    h'.running.trans h.running, h'.timerJiffies.trans h.timerJiffies, h'.jiffies.trans h.jiffies⟩

/-- A cascade moves a timer of its slot to a lower level.  Its distance has become less than a
slot of the old level, so it cannot land there again. -/
theorem Filed.cascadeTimer (hf : Filed w next due) (hstop : w.running = none) (hn : n < 5)
    (hzero : n ≠ 0) (ht : timer ∈ w.slot n i) (hd : due timer = some d)
    (hle : w.timerJiffies ≤ d) (hlt : d < w.timerJiffies + 2 ^ shift levelBits n) :
    Filed (Wheel.cascadeTimer n i w timer) next due ∧
    (Wheel.cascadeTimer n i w timer).slot n i = (w.slot n i).erase timer ∧
    SameButLists w (Wheel.cascadeTimer n i w timer) := by
  have hpow : 2 ^ shift levelBits n ≤ 2 ^ 26 :=
    Nat.pow_le_pow_right (by decide) ((shift_mono (Nat.le_of_lt_succ hn)).trans (by decide))
  have he : w.expires timer = d % 2 ^ 64 := by
    obtain ⟨-, d', hd', -, -, he⟩ := hf.filed n i timer ht
    rw [hd] at hd'
    cases hd'
    exact he hzero
  have hlt64 : w.expires timer < 2 ^ 64 := by
    rw [he]
    exact Nat.mod_lt _ (by decide)
  have hdue : dueTick w.timerJiffies (w.expires timer) = d := by
    rw [he]
    exact dueTick_of_le hle (by omega)
  have hvec : w.vecOf (w.expires timer) ≠ none := by
    intro hnone
    have hfar := (vecOf_eq_none_iff.mp hnone).1
    rw [he, ulongSub_mod hle (by omega)] at hfar
    omega
  obtain ⟨⟨m, k⟩, hmk⟩ := Option.ne_none_iff_exists'.mp hvec
  have hmn : n ≠ m := by
    have hindex : (w.tvecs 0).index = w.timerJiffies % 2 ^ 8 :=
      (hf.index 0 (by decide)).trans (by rw [hf.clock]; rfl)
    obtain ⟨-, -, hnear, -⟩ := vecOf_spec hindex hlt64 hmk
    rintro rfl
    rw [hdue] at hnear
    rcases hnear with hnear | hnear
    · exact hzero hnear
    · omega
  have hmk' : (w.listDel n i timer).vecOf (w.expires timer) = some (m, k) :=
    vecOf_listDel.trans hmk
  have hadd := (hf.listDel ht).add hstop (Function.update_self ..) hlt64 hmk'
  have hsame : Function.update (Function.update due timer none) timer
      (some (dueTick w.timerJiffies (w.expires timer))) = due := by
    rw [hdue, Function.update_idem, ← hd, Function.update_eq_self]
  have hstep : Wheel.cascadeTimer n i w timer = _ :=
    internalAddTimer_filed (w := w.listDel n i timer) hstop hmk'
  refine ⟨?_, ?_, ?_⟩
  · exact Eq.mp (congrArg (Filed _ next) hsame) hadd
  · rw [hstep, slot_setSlot, if_neg fun h => hmn h.1]
    show (w.listDel n i timer).slot n i = _
    rw [Wheel.listDel, slot_setSlot, if_pos ⟨rfl, rfl⟩]
  · rw [hstep]
    refine ⟨fun l => ?_, rfl, ?_, rfl, rfl, rfl⟩
    · rw [index_setSlot]
      exact index_setSlot _
    · have hpending := hf.pending timer (by rw [hd]; exact Option.some_ne_none d)
      show Function.update w.pending timer true = w.pending
      rw [← hpending, Function.update_eq_self]

/-- The loop of `cascade_timers`: the induction is on the timers that are left in the slot. -/
theorem Filed.cascadeSlot (hn : n < 5) (hzero : n ≠ 0) (l : List TimerPtr) :
    ∀ {w : Wheel}, Filed w next due → w.running = none → w.slot n i = l →
      (∀ t ∈ l, ∃ d, due t = some d ∧ w.timerJiffies ≤ d ∧
        d < w.timerJiffies + 2 ^ shift levelBits n) →
      Filed (l.foldl (Wheel.cascadeTimer n i) w) next due ∧
      (l.foldl (Wheel.cascadeTimer n i) w).slot n i = [] ∧
      SameButLists w (l.foldl (Wheel.cascadeTimer n i) w) := by
  induction l with
  | nil =>
      intro w hf _ hslot _
      exact ⟨hf, hslot, ⟨fun _ => rfl, rfl, rfl, rfl, rfl, rfl⟩⟩
  | cons timer l ih =>
      intro w hf hstop hslot hdue
      obtain ⟨d, hd, hle, hlt⟩ := hdue timer List.mem_cons_self
      have htimer : timer ∈ w.slot n i := hslot ▸ List.mem_cons_self
      obtain ⟨hf', hslot', hsame⟩ := hf.cascadeTimer hstop hn hzero htimer hd hle hlt
      rw [hslot, List.erase_cons_head] at hslot'
      obtain ⟨hf'', hempty, hsame'⟩ := ih hf' (hsame.running.trans hstop) hslot' fun t ht => by
        rw [hsame.timerJiffies]
        exact hdue t (List.mem_cons_of_mem _ ht)
      exact ⟨hf'', hempty, hsame.trans hsame'⟩

/-- `w'` differs from `w` at most in its lists and indices. -/
structure SameButVecs (w w' : Wheel) : Prop where
  root : (w'.tvecs 0).index = (w.tvecs 0).index
  expires : w'.expires = w.expires
  pending : w'.pending = w.pending
  running : w'.running = w.running
  timerJiffies : w'.timerJiffies = w.timerJiffies
  jiffies : w'.jiffies = w.jiffies

theorem SameButVecs.trans {w' w'' : Wheel} (h : SameButVecs w w') (h' : SameButVecs w' w'') :
    SameButVecs w w'' :=
  ⟨h'.root.trans h.root, h'.expires.trans h.expires, h'.pending.trans h.pending,
    h'.running.trans h.running, h'.timerJiffies.trans h.timerJiffies, h'.jiffies.trans h.jiffies⟩

/-- The pointer of level `n` moves past its slot when nothing is in it, so no timer is left
behind by it. -/
theorem Filed.turn (hf : Filed w next due)
    (hempty : w.slot n (next n % 2 ^ levelBits n) = []) {w' : Wheel}
    (hclock : Function.update next n (next n + 1) 0 = w'.timerJiffies)
    (honTime : ∀ m < 5, OnTime levelBits m (Function.update next n (next n + 1) m) w'.timerJiffies)
    (hslot : ∀ m j, w'.slot m j = w.slot m j)
    (hindex : ∀ m < 5, (w'.tvecs m).index =
      if m = n then (next n + 1) % 2 ^ levelBits n else (w.tvecs m).index)
    (hexpires : w'.expires = w.expires) (hpending : w'.pending = w.pending) :
    Filed w' (Function.update next n (next n + 1)) due := by
  refine ⟨hclock, honTime, ?_, ?_, ?_, ?_, ?_, ?_⟩
  · intro m hm
    rw [hindex m hm]
    by_cases hmn : m = n
    · rw [if_pos hmn, hmn, Function.update_self]
    · rw [if_neg hmn, Function.update_of_ne hmn]
      exact hf.index m hm
  · intro m j t ht
    rw [hslot] at ht
    obtain ⟨hm, d, hd, hj, hwin, he⟩ := hf.filed m j t ht
    refine ⟨hm, d, hd, hj, ?_, hexpires ▸ he⟩
    by_cases hmn : m = n
    · subst hmn
      rw [Function.update_self]
      refine hwin.advance fun heq => ?_
      rw [hj, heq, hempty] at ht
      exact List.not_mem_nil ht
    · rw [Function.update_of_ne hmn]
      exact hwin
  · intro t ht
    obtain ⟨m, j, hmem⟩ := hf.found t ht
    exact ⟨m, j, (hslot m j).symm ▸ hmem⟩
  · intro m j
    rw [hslot]
    exact hf.nodup m j
  · intro m j k l t hm hk
    rw [hslot] at hm hk
    exact hf.unique m j k l t hm hk
  · rw [hpending]
    exact hf.pending

/-- `cascade_timers` on a level whose pointer the clock has reached: its slot is emptied into
the levels below, and the pointer goes on. -/
theorem Filed.cascadeTimers (hf : Filed w next due) (hstop : w.running = none) (hn : n < 5)
    (hzero : n ≠ 0) (hreached : next n * 2 ^ shift levelBits n = w.timerJiffies) :
    Filed (w.cascadeTimers n) (Function.update next n (next n + 1)) due ∧
    SameButVecs w (w.cascadeTimers n) := by
  have hdues : ∀ t ∈ w.slot n (w.tvecs n).index, ∃ d, due t = some d ∧ w.timerJiffies ≤ d ∧
      d < w.timerJiffies + 2 ^ shift levelBits n := by
    intro t ht
    obtain ⟨-, d, hd, hi, hwin, -⟩ := hf.filed n _ t ht
    exact ⟨d, hd, ticks_of_reached hreached (hwin.eq_next (hi.symm.trans (hf.index n hn)))⟩
  obtain ⟨hf', hempty, hsame⟩ := Filed.cascadeSlot hn hzero _ hf hstop rfl hdues
  unfold Wheel.cascadeTimers
  set w' := (w.slot n (w.tvecs n).index).foldl (Wheel.cascadeTimer n (w.tvecs n).index) w
  have hslot : ∀ m j, ((w'.setSlot n (w.tvecs n).index []).setIndex n
      (((w.tvecs n).index + 1) &&& tvnMask)).slot m j = w'.slot m j := by
    intro m j
    rw [slot_setIndex, slot_setSlot]
    split
    · rename_i heq
      rw [heq.1, heq.2, hempty]
    · rfl
  have hclear : w'.slot n (next n % 2 ^ levelBits n) = [] := by
    rw [← hf.index n hn]
    exact hempty
  have hbits : levelBits n = 6 := by
    obtain ⟨k, rfl⟩ := Nat.exists_eq_succ_of_ne_zero hzero
    rfl
  have hindex : ∀ m, (((w'.setSlot n (w.tvecs n).index []).setIndex n
      (((w.tvecs n).index + 1) &&& tvnMask)).tvecs m).index =
      if m = n then (next n + 1) % 2 ^ levelBits n else (w'.tvecs m).index := by
    intro m
    rw [index_setIndex, index_setSlot, hf.index n hn, hbits, tvnMask, tvnBits,
      Nat.and_two_pow_sub_one_eq_mod, Nat.mod_add_mod]
  refine ⟨hf'.turn hclear ?_ ?_ hslot (fun m _ => hindex m) rfl rfl, ?_⟩
  · rw [Function.update_of_ne hzero.symm]
    exact hf'.clock
  · intro m hm
    by_cases hmn : m = n
    · subst hmn
      rw [Function.update_self]
      show OnTime levelBits m (next m + 1) w'.timerJiffies
      unfold OnTime
      rw [hsame.timerJiffies, Nat.add_mul, hreached]
      omega
    · rw [Function.update_of_ne hmn]
      exact hf'.onTime m hm
  · refine ⟨?_, hsame.expires, hsame.pending, hsame.running, hsame.timerJiffies, hsame.jiffies⟩
    rw [hindex 0, if_neg hzero.symm]
    exact hsame.index 0

/-- Between two ticks no pointer is more than its slot ahead of the clock. -/
def Before (w : Wheel) (next : Nat → Nat) : Prop :=
  ∀ n < 5, next n * 2 ^ shift levelBits n < w.timerJiffies + 2 ^ shift levelBits n

/-- After the cascades of a tick all pointers of upper levels are ahead of the
clock. -/
def After (w : Wheel) (next : Nat → Nat) : Prop :=
  ∀ n < 5, n ≠ 0 → w.timerJiffies < next n * 2 ^ shift levelBits n

/-- The `do` loop from level `n` on.  It goes to the next level only where the pointer of this
one has come round, and then the clock has reached the next pointer too. -/
theorem Filed.cascadeLevels (levels : List Nat) :
    ∀ {w : Wheel} {next : Nat → Nat} {n : Nat}, levels = List.range' n (5 - n) → n ≠ 0 →
      Filed w next due → w.running = none → 2 ^ shift levelBits n ∣ w.timerJiffies →
      (∀ m, n ≤ m → m < 5 →
        next m * 2 ^ shift levelBits m < w.timerJiffies + 2 ^ shift levelBits m) →
      (∀ m, m ≠ 0 → m < n → w.timerJiffies < next m * 2 ^ shift levelBits m) →
      ∃ next', Filed (w.cascadeLevels levels) next' due ∧ After (w.cascadeLevels levels) next' ∧
        SameButVecs w (w.cascadeLevels levels) := by
  induction levels with
  | nil =>
      intro w next n hlevels _ hf _ _ _ hdone
      have hn : 5 ≤ n := by
        by_contra hlt
        have hlen := congrArg List.length hlevels
        rw [List.length_range', List.length_nil] at hlen
        omega
      exact ⟨next, hf, fun m hm hm0 => hdone m hm0 (by omega), ⟨rfl, rfl, rfl, rfl, rfl, rfl⟩⟩
  | cons k levels ih =>
      intro w next n hlevels hzero hf hstop hdvd hahead hdone
      have hn : n < 5 := by
        by_contra hge
        rw [Nat.sub_eq_zero_of_le (not_lt.mp hge)] at hlevels
        cases hlevels
      have hrange : 5 - n = 5 - (n + 1) + 1 := by omega
      rw [hrange, List.range'_succ] at hlevels
      obtain ⟨rfl, hrest⟩ := List.cons_eq_cons.mp hlevels
      have hreached := reached_of_dvd (hf.onTime k hn).1 (hahead k le_rfl hn) hdvd
      obtain ⟨hf', hsame⟩ := hf.cascadeTimers hstop hn hzero hreached
      have hdone' : ∀ m, m ≠ 0 → m < k + 1 → w.timerJiffies <
          Function.update next k (next k + 1) m * 2 ^ shift levelBits m := by
        intro m hm0 hm
        by_cases hmk : m = k
        · subst hmk
          rw [Function.update_self, Nat.add_mul, hreached, Nat.one_mul]
          exact Nat.lt_add_of_pos_right (Nat.two_pow_pos _)
        · rw [Function.update_of_ne hmk]
          exact hdone m hm0 (by omega)
      have hbits : levelBits k = 6 := by
        obtain ⟨l, rfl⟩ := Nat.exists_eq_succ_of_ne_zero hzero
        rfl
      -- the index has come to 1 when the slot was the first of a turn
      have hturn : ((w.cascadeTimers k).tvecs k).index = 1 ↔
          2 ^ shift levelBits (k + 1) ∣ w.timerJiffies := by
        rw [hf'.index k hn, Function.update_self, ← dvd_of_turn hreached, hbits]
        omega
      unfold Wheel.cascadeLevels
      simp only
      split
      · rename_i hone
        have hdvd' := hturn.mp hone
        rw [← hsame.timerJiffies] at hdvd' hdone'
        obtain ⟨next', hf'', hafter, hsame'⟩ := ih hrest (Nat.succ_ne_zero k) hf'
          (hsame.running.trans hstop) hdvd' (fun m hm hm5 => by
            rw [Function.update_of_ne (by omega), hsame.timerJiffies]
            exact hahead m (by omega) hm5) hdone'
        exact ⟨next', hf'', hafter, hsame.trans hsame'⟩
      · rename_i hone
        refine ⟨_, hf', fun m hm hm0 => ?_, hsame⟩
        rw [hsame.timerJiffies]
        by_cases hmk : m < k + 1
        · exact hdone' m hm0 hmk
        · rw [Function.update_of_ne (by omega)]
          refine lt_of_le_of_ne (hf.onTime m hm).1 fun heq => hone (hturn.mpr ?_)
          rw [heq]
          exact (Nat.pow_dvd_pow 2 (shift_mono (by omega))).mul_left _

end Timer

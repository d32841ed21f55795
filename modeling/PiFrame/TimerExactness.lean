import PiFrame.TimerInvariant

/-!
# Timers are dispatched on time

A history of the wheel is the list of its labels.  `dueAfter` reads off it
which timers are filed, and for which tick.  The step lemma `Inv.step` says
that the lists of the wheel agree with this record and that a timer is
dispatched in exactly the tick that the record names; the rest is about
histories only.
-/

namespace Timer

open TimingWheel Transition

/-! ## The record of what is due -/

/-- The due ticks after one more label. -/
def advance (due : TimerPtr → Option Nat) : Event → TimerPtr → Option Nat
  | .filed timer j e => Function.update due timer (some (dueTick j e))
  | .dispatched timer _ => Function.update due timer none
  | _ => due

/-- The due ticks of the timers that are filed. -/
def dueAfter (tr : List Event) : TimerPtr → Option Nat :=
  tr.foldl advance fun _ => none

/-- The expiry is too far ahead to be filed. -/
def OutOfRange (j e : Nat) : Prop :=
  2 ^ 32 ≤ ulongSub e j ∧ ulongSub e j < 2 ^ 63

/-- A timer is filed when it is not, and in range; it is dispatched in its due
tick. -/
def Event.OnSchedule (due : TimerPtr → Option Nat) : Event → Prop
  | .filed timer j e => due timer = none ∧ ¬ OutOfRange j e
  | .unfiled _ j e => OutOfRange j e
  | .dispatched timer j => due timer = some j
  | _ => True

@[simp] theorem dueAfter_append (tr : List Event) (e : Event) :
    dueAfter (tr ++ [e]) = advance (dueAfter tr) e := by
  simp [dueAfter]

/-! ## The invariant of the wheel -/

def Pc.busy : Pc → Bool
  | .emptying => true
  | .calling _ => true
  | _ => false

/-- The timers that will be filed at the end of the tick. -/
def Wheel.waiting (w : Wheel) : List TimerPtr :=
  match w.pc with
  | .draining rest => rest
  | _ => w.running.getD []

/-- The lists agree with the due ticks, in every phase of a tick. -/
structure Inv (w : Wheel) (due : TimerPtr → Option Nat) : Prop where
  unsigned : ∀ t, w.expires t < 2 ^ 64
  busy : w.running.isSome = w.pc.busy
  filed : ∃ next, Filed w next due ∧
    (w.pc.busy = false → Before w next) ∧ (w.pc.busy = true → After w next)
  nodup : w.waiting.Nodup
  waiting : ∀ t ∈ w.waiting, due t = none ∧ w.pending t = true

variable {w w' : Wheel} {due : TimerPtr → Option Nat} {timer : TimerPtr} {tr : List Event}

theorem Inv.detached (hinv : Inv w due) (hp : w.pending timer = false) : due timer = none := by
  obtain ⟨next, hf, -⟩ := hinv.filed
  by_contra hne
  have hpending := hf.pending timer hne
  rw [hp] at hpending
  cases hpending

/-- A timer that is not pending waits in no list of the tick. -/
theorem Inv.not_waiting (hinv : Inv w due) (hp : w.pending timer = false) :
    timer ∉ w.waiting := by
  intro hmem
  have hpending := (hinv.waiting timer hmem).2
  rw [hp] at hpending
  cases hpending

/-- The mutex is free outside of `run_timer_list` and while a callback runs. -/
theorem waiting_of_unlocked (hpc : w.pc.unlocked = true) : w.waiting = w.running.getD [] := by
  unfold Wheel.waiting
  split
  · rename_i heq
    rw [heq] at hpc
    cases hpc
  · rfl

/-- Outside the loop over the expired timers, those wait that were filed while it ran. -/
theorem waiting_of_not_draining (h : ∀ rest, w.pc ≠ .draining rest) :
    w.waiting = w.running.getD [] := by
  unfold Wheel.waiting
  split
  · exact absurd (by assumption) (h _)
  · rfl

/-- Inside the loop, those wait that it has not come to. -/
theorem waiting_of_draining {rest : List TimerPtr} (hpc : w.pc = .draining rest) :
    w.waiting = rest := by
  unfold Wheel.waiting
  rw [hpc]

/-- A timer that is taken off the wheel for its call was not waiting. -/
theorem waiting_detach {timer : TimerPtr} (hpc : w.pc = .emptying) :
    (w.detach timer).waiting = w.waiting := by
  unfold Wheel.waiting
  rw [hpc]
  rfl

/-- The end of a call brings nothing to the wheel. -/
theorem waiting_called {timer : TimerPtr} (hpc : w.pc = .calling timer) :
    (w.goto .emptying).waiting = w.waiting := by
  unfold Wheel.waiting
  rw [hpc]
  rfl

/-- A step that leaves the lists alone keeps the invariant if the expiry of each timer that is
due stays, and each that is pending stays so. -/
theorem Inv.congr (hinv : Inv w due) (hvecs : w'.tvecs = w.tvecs)
    (hnow : w'.timerJiffies = w.timerJiffies) (hunsigned : ∀ t, w'.expires t < 2 ^ 64)
    (hexpires : ∀ t, due t ≠ none → w'.expires t = w.expires t)
    (hpending : ∀ t, w.pending t = true → w'.pending t = true)
    (hbusy : w'.pc.busy = w.pc.busy) (hrunning : w'.running.isSome = w.running.isSome)
    (hnodup : w'.waiting.Nodup)
    (hwaiting : ∀ t ∈ w'.waiting, due t = none ∧ w'.pending t = true) : Inv w' due := by
  obtain ⟨next, hf, hbefore, hafter⟩ := hinv.filed
  refine ⟨hunsigned, (hrunning.trans hinv.busy).trans hbusy.symm, ⟨next, ?_, ?_, ?_⟩, hnodup,
    hwaiting⟩
  · refine hf.congr (fun n i => ?_) (fun n => ?_) hnow hexpires fun t ht =>
      hpending t (hf.pending t ht)
    · unfold Wheel.slot
      rw [hvecs]
    · rw [hvecs]
  · intro h
    unfold Before
    rw [hnow]
    exact hbefore (hbusy ▸ h)
  · intro h
    unfold After
    rw [hnow]
    exact hafter (hbusy ▸ h)

/-- A step of the thread that leaves the wheel alone. -/
theorem Inv.goto (hinv : Inv w due) {pc : Pc} (hbusy : pc.busy = w.pc.busy)
    (hwaiting : (w.goto pc).waiting = w.waiting) : Inv (w.goto pc) due :=
  hinv.congr rfl rfl hinv.unsigned (fun _ _ => rfl) (fun _ h => h) hbusy rfl
    (hwaiting ▸ hinv.nodup) (hwaiting ▸ hinv.waiting)

/-- Filing a timer in one of the two loops that do. -/
theorem Inv.add (hinv : Inv w due) (hstop : w.running = none) (hdue : due timer = none)
    (hvec : w.vecOf (w.expires timer) ≠ none) {pc : Pc} (hpc : pc.busy = false)
    (hrest : ((w.internalAddTimer timer).goto pc).waiting ⊆ w.waiting)
    (hnew : timer ∉ ((w.internalAddTimer timer).goto pc).waiting)
    (hnodup : ((w.internalAddTimer timer).goto pc).waiting.Nodup) :
    Inv ((w.internalAddTimer timer).goto pc)
      (Function.update due timer (some (dueTick w.timerJiffies (w.expires timer)))) := by
  obtain ⟨next, hf, hbefore, -⟩ := hinv.filed
  obtain ⟨⟨n, i⟩, hni⟩ := Option.ne_none_iff_exists'.mp hvec
  have hadd := hf.add hstop hdue (hinv.unsigned timer) hni
  have heq := internalAddTimer_filed hstop hni
  have hidle : w.pc.busy = false := by
    rw [← hinv.busy, hstop]
    rfl
  have hnow : (w.internalAddTimer timer).timerJiffies = w.timerJiffies := by
    rw [heq]
    rfl
  have hpending : (w.internalAddTimer timer).pending = Function.update w.pending timer true := by
    rw [heq]
    rfl
  refine ⟨?_, ?_, ⟨next, ?_, fun _ => ?_, fun h => ?_⟩, hnodup, fun t ht => ?_⟩
  · show ∀ t, (w.internalAddTimer timer).expires t < 2 ^ 64
    rw [heq]
    exact hinv.unsigned
  · show (w.internalAddTimer timer).running.isSome = pc.busy
    rw [hpc, heq]
    exact congrArg Option.isSome hstop
  · exact hadd.congr (fun _ _ => rfl) (fun _ => rfl) rfl (fun _ _ => rfl) hadd.pending
  · unfold Before
    show ∀ n < 5, next n * 2 ^ shift levelBits n <
      (w.internalAddTimer timer).timerJiffies + 2 ^ shift levelBits n
    rw [hnow]
    exact hbefore hidle
  · exact absurd (hpc.symm.trans h) Bool.false_ne_true
  · have hne : t ≠ timer := fun h => hnew (h ▸ ht)
    rw [Function.update_of_ne hne]
    refine (hinv.waiting t (hrest ht)).imp_right fun hp => ?_
    show (w.internalAddTimer timer).pending t = true
    rw [hpending, Function.update_of_ne hne]
    exact hp

/-- While the wheel is busy, a timer goes to the list of the running tick. -/
theorem internalAddTimer_queued {queued : List TimerPtr} (hbusy : w.running = some queued) :
    w.internalAddTimer timer = { w with
      pending := Function.update w.pending timer true
      running := some (queued ++ [timer]) } := by
  unfold Wheel.internalAddTimer
  simp only [hbusy]

/-- An expiry that is out of range is filed nowhere. -/
theorem internalAddTimer_unfiled (hstop : w.running = none)
    (hvec : w.vecOf (w.expires timer) = none) :
    w.internalAddTimer timer = { w with pending := Function.update w.pending timer true } := by
  have hvec' : ({ w with pending := Function.update w.pending timer true } : Wheel).vecOf
      (w.expires timer) = none := hvec
  unfold Wheel.internalAddTimer
  simp only [hstop] at hvec' ⊢
  rw [hvec']

/-- Filing a timer does not move the thread of the wheel. -/
@[simp] theorem internalAddTimer_pc (w : Wheel) (timer : TimerPtr) :
    (w.internalAddTimer timer).pc = w.pc := by
  cases hrun : w.running with
  | some queued => rw [internalAddTimer_queued hrun]
  | none =>
      cases hvec : w.vecOf (w.expires timer) with
      | none => rw [internalAddTimer_unfiled hrun hvec]
      | some p =>
          rw [internalAddTimer_filed hrun hvec]
          rfl

/-- Making a timer pending or idle leaves the others pending, if it was so itself. -/
theorem pending_update (p : TimerPtr → Bool) (t : TimerPtr) (h : p t = true) :
    Function.update p timer true t = true := by
  by_cases ht : t = timer
  · rw [ht, Function.update_self]
  · rw [Function.update_of_ne ht]
    exact h

/-- A timer that is out of range is marked, and that is all: it is on no list, and will never be
due. -/
theorem Inv.unfiled (hinv : Inv w due) (hstop : w.running = none)
    (hvec : w.vecOf (w.expires timer) = none) {pc : Pc} (hpc : pc.busy = w.pc.busy)
    (hrest : ((w.internalAddTimer timer).goto pc).waiting.Sublist w.waiting) :
    Inv ((w.internalAddTimer timer).goto pc) due := by
  have heq := internalAddTimer_unfiled hstop hvec
  refine hinv.congr ?_ ?_ ?_ (fun t _ => ?_) (fun t ht => ?_) hpc ?_ (hrest.nodup hinv.nodup)
    fun t ht => (hinv.waiting t (hrest.subset ht)).imp_right fun hp => ?_
  · rw [heq]
    rfl
  · rw [heq]
    rfl
  · rw [heq]
    exact hinv.unsigned
  · rw [heq]
    rfl
  · rw [heq]
    exact pending_update _ t ht
  · rw [heq]
    rfl
  · rw [heq]
    exact pending_update _ t hp

/-- `add_timer` while a callback runs: the timer is queued behind the others, and is filed when
the tick ends. -/
theorem Inv.queued (hinv : Inv w due) (hpc : w.pc.unlocked = true)
    (hp : w.pending timer = false) {queued : List TimerPtr} (hbusy : w.running = some queued) :
    Inv (w.internalAddTimer timer) due := by
  have hpc' : (w.internalAddTimer timer).pc.unlocked = true := by
    rw [internalAddTimer_pc]
    exact hpc
  have hwaiting : w.waiting = queued := by
    rw [waiting_of_unlocked hpc, hbusy]
    rfl
  have hwaiting' : (w.internalAddTimer timer).waiting = queued ++ [timer] := by
    rw [waiting_of_unlocked hpc', internalAddTimer_queued hbusy]
    rfl
  have hnew : timer ∉ queued := hwaiting ▸ hinv.not_waiting hp
  have hnodup : queued.Nodup := hwaiting ▸ hinv.nodup
  have hold : ∀ t ∈ queued, due t = none ∧ w.pending t = true := hwaiting ▸ hinv.waiting
  refine hinv.congr ?_ ?_ ?_ (fun t _ => ?_) (fun t ht => ?_) (by rw [internalAddTimer_pc]) ?_ ?_ ?_
  · rw [internalAddTimer_queued hbusy]
  · rw [internalAddTimer_queued hbusy]
  · rw [internalAddTimer_queued hbusy]
    exact hinv.unsigned
  · rw [internalAddTimer_queued hbusy]
  · rw [internalAddTimer_queued hbusy]
    exact pending_update _ t ht
  · rw [internalAddTimer_queued hbusy, hbusy]
    rfl
  · rw [hwaiting']
    exact List.nodup_append_comm.mp (List.nodup_cons.mpr ⟨hnew, hnodup⟩)
  · intro t ht
    rw [hwaiting'] at ht
    rw [internalAddTimer_queued hbusy]
    rcases List.mem_append.mp ht with ht | ht
    · exact (hold t ht).imp_right (pending_update _ t)
    · rw [List.mem_singleton.mp ht]
      exact ⟨hinv.detached hp, Function.update_self ..⟩

/-- The cascades of a tick: when the lowest index comes round, the higher lists are filed anew,
and after them every timer is where it is looked for. -/
theorem Filed.cascades {next : Nat → Nat} (hf : Filed w next due) (hstop : w.running = none)
    (hbefore : Before w next) :
    ∃ next', Filed (if (w.tvecs 0).index = 0 then w.cascadeLevels [1, 2, 3, 4] else w) next' due ∧
      After (if (w.tvecs 0).index = 0 then w.cascadeLevels [1, 2, 3, 4] else w) next' ∧
      SameButVecs w (if (w.tvecs 0).index = 0 then w.cascadeLevels [1, 2, 3, 4] else w) := by
  have hdvd : (w.tvecs 0).index = 0 ↔ 2 ^ shift levelBits 1 ∣ w.timerJiffies := by
    rw [hf.index 0 (by decide), hf.clock]
    exact (Nat.dvd_iff_mod_eq_zero ..).symm
  split
  · rename_i hzero
    exact hf.cascadeLevels [1, 2, 3, 4] rfl Nat.one_ne_zero hstop (hdvd.mp hzero)
      (fun m _ hm => hbefore m hm) fun m hm0 hm1 => absurd (Nat.lt_one_iff.mp hm1) hm0
  · rename_i hzero
    refine ⟨next, hf, fun m hm hm0 => ?_, ⟨rfl, rfl, rfl, rfl, rfl, rfl⟩⟩
    -- a level that has been reached would have `timer_jiffies` at a multiple of 256
    refine lt_of_le_of_ne (hf.onTime m hm).1 fun heq => hzero (hdvd.mpr ?_)
    rw [heq]
    exact (Nat.pow_dvd_pow 2 (shift_mono (Nat.one_le_iff_ne_zero.mpr hm0))).mul_left _

/-- While the wheel is idle, no list of a tick is under way. -/
theorem Inv.stopped (hinv : Inv w due) (hpc : w.pc.busy = false) : w.running = none := by
  rw [← hinv.busy] at hpc
  exact Option.not_isSome_iff_eq_none.mp (Bool.eq_false_iff.mp hpc)

/-- A tick begins. -/
theorem Inv.beginTick (hinv : Inv w due) (hpc : w.pc = .looping) : Inv w.beginTick due := by
  have hidle : w.pc.busy = false := by rw [hpc]; rfl
  obtain ⟨next, hf, hbefore, -⟩ := hinv.filed
  obtain ⟨next', hf', hafter, hsame⟩ := hf.cascades (hinv.stopped hidle) (hbefore hidle)
  have hunsigned := hinv.unsigned
  rw [← hsame.expires] at hunsigned
  unfold Wheel.beginTick
  simp only
  generalize (if (w.tvecs 0).index = 0 then w.cascadeLevels [1, 2, 3, 4] else w) = w₁
    at hf' hafter hunsigned
  refine ⟨hunsigned, rfl, ⟨next', ?_, (fun h => by cases h), fun _ => hafter⟩, List.nodup_nil,
    fun t ht => absurd ht List.not_mem_nil⟩
  exact hf'.congr (fun _ _ => rfl) (fun _ => rfl) rfl (fun _ _ => rfl) hf'.pending

/-- The timer that is taken off the wheel is due, and no longer on it.  That it is due now
follows from its slot, which is that of the present tick. -/
theorem Inv.dispatch (hinv : Inv w due) (hpc : w.pc = .emptying) {rest : List TimerPtr}
    (hfirst : w.slot 0 (w.tvecs 0).index = timer :: rest) :
    due timer = some w.timerJiffies ∧
      Inv (w.detach timer) (Function.update due timer none) := by
  obtain ⟨next, hf, -, hafter⟩ := hinv.filed
  have hbusy : w.pc.busy = true := by rw [hpc]; rfl
  have hmem : timer ∈ w.slot 0 (w.tvecs 0).index := hfirst ▸ List.mem_cons_self
  obtain ⟨-, d, hd, hi, hwin, -⟩ := hf.filed 0 _ timer hmem
  have hnow : d = w.timerJiffies := by
    have hnext := hwin.eq_next (hi.symm.trans (hf.index 0 (by decide)))
    rw [← hf.clock, ← hnext]
    exact (Nat.div_one d).symm
  have hwaiting : (w.detach timer).waiting = w.waiting := waiting_detach hpc
  have hnew : timer ∉ w.waiting := by
    intro hin
    have hnone := (hinv.waiting timer hin).1
    rw [hd] at hnone
    cases hnone
  refine ⟨hnow ▸ hd, hinv.unsigned, ?_, ⟨next, ?_, (fun h => by cases h), fun _ => hafter hbusy⟩,
    hwaiting ▸ hinv.nodup, ?_⟩
  · exact hinv.busy.trans hbusy
  · have hdel := hf.listDel hmem
    refine hdel.congr (fun _ _ => rfl) (fun _ => rfl) rfl (fun _ _ => rfl) fun t ht => ?_
    have hne : t ≠ timer := fun heq => by simp [heq] at ht
    show Function.update w.pending timer false t = true
    rw [Function.update_of_ne hne]
    exact hdel.pending t ht
  · rw [hwaiting]
    intro t ht
    have hne : t ≠ timer := fun heq => hnew (heq ▸ ht)
    rw [Function.update_of_ne hne]
    refine (hinv.waiting t ht).imp_right fun hp => ?_
    show Function.update w.pending timer false t = true
    rw [Function.update_of_ne hne]
    exact hp

/-- A tick ends: the slot under `tv1.index` is empty, so nobody is due in this tick any more and
the clock may go on. -/
theorem Inv.endTick (hinv : Inv w due) (hpc : w.pc = .emptying) {queued : List TimerPtr}
    (hempty : w.slot 0 (w.tvecs 0).index = []) (hbusy : w.running = some queued) :
    Inv (w.endTick queued) due := by
  obtain ⟨next, hf, -, hafter⟩ := hinv.filed
  have hafter := hafter (by rw [hpc]; rfl)
  have hwaiting : w.waiting = queued := by
    unfold Wheel.waiting
    rw [hpc, hbusy]
    rfl
  rw [hf.index 0 (by decide)] at hempty
  have hahead : ∀ m < 5, w.timerJiffies + 1 ≤
      Function.update next 0 (next 0 + 1) m * 2 ^ shift levelBits m := by
    intro m hm
    by_cases hm0 : m = 0
    · subst hm0
      rw [Function.update_self, hf.clock]
      exact (Nat.mul_one _).ge
    · rw [Function.update_of_ne hm0]
      exact hafter m hm hm0
  have hnear : ∀ m < 5, Function.update next 0 (next 0 + 1) m * 2 ^ shift levelBits m <
      w.timerJiffies + 1 + 2 ^ shift levelBits m := by
    intro m hm
    by_cases hm0 : m = 0
    · subst hm0
      rw [Function.update_self, hf.clock]
      show (w.timerJiffies + 1) * 1 < w.timerJiffies + 1 + 1
      omega
    · rw [Function.update_of_ne hm0]
      have := (hf.onTime m hm).2
      omega
  refine ⟨hinv.unsigned, rfl, ⟨_, ?_, fun _ => hnear, fun h => by cases h⟩, hwaiting ▸ hinv.nodup,
    hwaiting ▸ hinv.waiting⟩
  refine hf.turn hempty ?_ (fun m hm => ⟨hahead m hm, (hnear m hm).le⟩) (fun m j => ?_)
    (fun m hm => ?_) rfl rfl
  · rw [Function.update_self, hf.clock]
    rfl
  · exact slot_setIndex _
  · show ((w.setIndex 0 _).tvecs m).index = _
    rw [index_setIndex, hf.index 0 (by decide), tvrMask, tvrSize, Nat.and_two_pow_sub_one_eq_mod]
    show (if m = 0 then (next 0 % 2 ^ 8 + 1) % 2 ^ 8 else _) =
      if m = 0 then (next 0 + 1) % 2 ^ 8 else _
    rw [Nat.mod_add_mod]

/-- A timer is filed if its expiry is within the range of the wheel. -/
theorem inRange_iff {e : Nat} : w.vecOf e ≠ none ↔ ¬ OutOfRange w.timerJiffies e :=
  not_congr vecOf_eq_none_iff

/-- What one step of `add_timer` preserves.  The cases are whether the wheel is busy, and if it
is not, whether the expiry is within range. -/
theorem Inv.addStep (hinv : Inv w due) {e : Event} (hstep : AddStep w timer e w') :
    e.OnSchedule due ∧ Inv w' (advance due e) := by
  have hself : (w.internalAddTimer timer).goto w.pc = w.internalAddTimer timer := by
    rw [← internalAddTimer_pc w timer]
    rfl
  have hgoto : w.pc.unlocked = true → ((w.internalAddTimer timer).goto w.pc).waiting =
      (w.internalAddTimer timer).running.getD [] := fun h => waiting_of_unlocked h
  cases hstep with
  | filed unlocked detached stopped inRange =>
      have hempty : ((w.internalAddTimer timer).goto w.pc).waiting = [] := by
        obtain ⟨p, hp⟩ := Option.ne_none_iff_exists'.mp inRange
        rw [hgoto unlocked, internalAddTimer_filed stopped hp]
        exact congrArg (·.getD []) stopped
      have hidle : w.pc.busy = false := by
        rw [← hinv.busy, stopped]
        rfl
      have hadd := hinv.add stopped (hinv.detached detached) inRange hidle
        (hempty ▸ List.nil_subset _) (hempty ▸ List.not_mem_nil) (hempty ▸ List.nodup_nil)
      exact ⟨⟨hinv.detached detached, inRange_iff.mp inRange⟩, hself ▸ hadd⟩
  | unfiled unlocked detached stopped outOfRange =>
      have hsame : ((w.internalAddTimer timer).goto w.pc).waiting = w.waiting := by
        rw [hgoto unlocked, waiting_of_unlocked unlocked,
          internalAddTimer_unfiled stopped outOfRange]
      exact ⟨vecOf_eq_none_iff.mp outOfRange,
        hself ▸ hinv.unfiled stopped outOfRange rfl (hsame ▸ List.Sublist.refl _)⟩
  | queued unlocked detached busy => exact ⟨trivial, hinv.queued unlocked detached busy⟩

/-- What the timer thread preserves outside of a dispatch: it cascades at the start of a tick,
and files the queued timers at its end. -/
theorem Inv.threadStep (hinv : Inv w due) {e : Event} (hstep : ThreadStep w e w') :
    e.OnSchedule due ∧ Inv w' (advance due e) := by
  cases hstep with
  | process at_pc =>
      have hsame : ({ w with jiffies := w.jiffies + 1, pc := .ticked } : Wheel).waiting =
          w.waiting := by
        unfold Wheel.waiting
        rw [at_pc]
      exact ⟨trivial, hinv.congr rfl rfl hinv.unsigned (fun _ _ => rfl) (fun _ h => h)
        (by rw [at_pc]; rfl) rfl (hsame ▸ hinv.nodup) (hsame ▸ hinv.waiting)⟩
  | lock at_pc =>
      exact ⟨trivial, hinv.goto (by rw [at_pc]; rfl) (by unfold Wheel.waiting; rw [at_pc]; rfl)⟩
  | beginTick at_pc test => exact ⟨trivial, hinv.beginTick at_pc⟩
  | leave at_pc test =>
      exact ⟨trivial, hinv.goto (by rw [at_pc]; rfl) (by unfold Wheel.waiting; rw [at_pc]; rfl)⟩
  | endTick at_pc empty busy => exact ⟨trivial, hinv.endTick at_pc empty busy⟩
  | @drainFiled timer rest at_pc inRange =>
      have hwaiting : w.waiting = timer :: rest := waiting_of_draining at_pc
      obtain ⟨hnew, hnodup⟩ := List.nodup_cons.mp (hwaiting ▸ hinv.nodup)
      have hdue : due timer = none := (hinv.waiting timer (hwaiting ▸ List.mem_cons_self)).1
      exact ⟨⟨hdue, inRange_iff.mp inRange⟩,
        hinv.add (hinv.stopped (by rw [at_pc]; rfl)) hdue inRange rfl
          (hwaiting ▸ List.subset_cons_self timer rest) hnew hnodup⟩
  | @drainUnfiled timer rest at_pc outOfRange =>
      have hwaiting : w.waiting = timer :: rest := waiting_of_draining at_pc
      exact ⟨vecOf_eq_none_iff.mp outOfRange,
        hinv.unfiled (hinv.stopped (by rw [at_pc]; rfl)) outOfRange (by rw [at_pc]; rfl)
          (hwaiting ▸ List.sublist_cons_self timer rest)⟩
  | drained at_pc =>
      have hstop : w.running = none := hinv.stopped (by rw [at_pc]; rfl)
      have hsame : (w.goto .looping).waiting = w.waiting := by
        rw [waiting_of_draining at_pc]
        exact congrArg (·.getD []) hstop
      exact ⟨trivial, hinv.goto (by rw [at_pc]; rfl) hsame⟩

/-- Somebody sets the expiry of a timer that is on no list. -/
theorem Inv.setExpires (hinv : Inv w due) (hp : w.pending timer = false) {e : Nat}
    (he : e < 2 ^ 64) : Inv { w with expires := Function.update w.expires timer e } due := by
  refine hinv.congr rfl rfl (fun t => ?_) (fun t ht => ?_) (fun _ h => h) rfl rfl hinv.nodup
    hinv.waiting
  · by_cases ht : t = timer
    · rw [ht]
      simpa using he
    · simpa [ht] using hinv.unsigned t
  · have hne : t ≠ timer := fun heq => ht (heq ▸ hinv.detached hp)
    exact Function.update_of_ne hne ..

/-- Every step keeps the invariant and the schedule. -/
theorem Inv.step (hinv : Inv w due) {e : Event} (hstep : WheelStep w e w') :
    e.OnSchedule due ∧ Inv w' (advance due e) := by
  cases hstep with
  | setExpires detached unsigned => exact ⟨trivial, hinv.setExpires detached unsigned⟩
  | add step => exact hinv.addStep step
  | thread step => exact hinv.threadStep step
  | dispatch at_pc first => exact hinv.dispatch at_pc first
  | called at_pc =>
      exact ⟨trivial, hinv.goto (by rw [at_pc]; rfl) (waiting_called at_pc)⟩

/-- Nothing is filed at the start. -/
theorem Inv.init : Inv initTimervecs fun _ => none := by
  refine ⟨fun _ => Nat.two_pow_pos 64, rfl, ⟨fun _ => 0, ?_, fun _ n _ => ?_, fun h => by cases h⟩,
    List.nodup_nil, fun t ht => absurd ht List.not_mem_nil⟩
  · refine ⟨rfl, fun n _ => ?_, fun n _ => (Nat.zero_mod _).symm, ?_, fun t ht => absurd rfl ht, ?_,
      ?_, fun t ht => absurd rfl ht⟩
    · exact ⟨Nat.zero_le _, by rw [Nat.zero_mul]; exact Nat.zero_le _⟩
    · exact fun n i t ht => absurd ht List.not_mem_nil
    · exact fun n i => List.nodup_nil
    · exact fun n i m j t ht => absurd ht List.not_mem_nil
  · rw [Nat.zero_mul]
    exact Nat.add_pos_right _ (Nat.two_pow_pos _)

/-! ## Histories -/

/-- The label files timer `t` or takes it off the wheel. -/
def Event.moves (t : TimerPtr) : Event → Bool
  | .filed timer _ _ => timer == t
  | .dispatched timer _ => timer == t
  | _ => false

/-- An event that does not move a timer leaves its due time. -/
theorem advance_of_not_moves {e : Event} {t : TimerPtr} (h : e.moves t = false) :
    advance due e t = due t := by
  cases e with
  | filed timer j x => exact Function.update_of_ne (fun heq => by simp [Event.moves, heq] at h) ..
  | dispatched timer j =>
      exact Function.update_of_ne (fun heq => by simp [Event.moves, heq] at h) ..
  | _ => rfl

/-- Labels about other timers change nothing for `t`. -/
theorem dueAfter_quiet {t : TimerPtr} {pre mid : List Event}
    (h : ∀ x ∈ mid, x.moves t = false) : dueAfter (pre ++ mid) t = dueAfter pre t := by
  induction mid using List.reverseRecOn with
  | nil => rw [List.append_nil]
  | append_singleton mid e ih =>
      rw [← List.append_assoc, dueAfter_append,
        advance_of_not_moves (h e (List.mem_append_right _ (List.mem_singleton.mpr rfl)))]
      exact ih fun x hx => h x (List.mem_append_left _ hx)

/-- The first label about `t`. -/
theorem quiet_or_split (t : TimerPtr) (post : List Event) :
    (∀ x ∈ post, x.moves t = false) ∨
      ∃ mid e rest, post = mid ++ e :: rest ∧ (∀ x ∈ mid, x.moves t = false) ∧
        e.moves t = true := by
  cases hfind : post.find? (fun x => x.moves t) with
  | none =>
      refine Or.inl fun x hx => ?_
      simpa using List.find?_eq_none.mp hfind x hx
  | some e =>
      obtain ⟨he, mid, rest, hpost, hmid⟩ := List.find?_eq_some_iff_append.mp hfind
      exact Or.inr ⟨mid, e, rest, hpost, fun x hx => by simpa using hmid x hx, he⟩

/-- What is due was filed, and not moved since. -/
theorem filed_of_due {t : TimerPtr} {d : Nat} (h : dueAfter tr t = some d) :
    ∃ pre j e mid, tr = pre ++ .filed t j e :: mid ∧ d = dueTick j e ∧
      ∀ x ∈ mid, x.moves t = false := by
  induction tr using List.reverseRecOn with
  | nil => cases h
  | append_singleton tr x ih =>
      rw [dueAfter_append] at h
      by_cases hmoves : x.moves t = true
      · cases x with
        | filed timer j e =>
            obtain rfl : timer = t := by simpa [Event.moves] using hmoves
            have hd : Function.update (dueAfter tr) timer (some (dueTick j e)) timer = some d := h
            rw [Function.update_self] at hd
            exact ⟨tr, j, e, [], rfl, (Option.some.inj hd).symm, fun _ hx => by cases hx⟩
        | dispatched timer j =>
            obtain rfl : timer = t := by simpa [Event.moves] using hmoves
            have hd : Function.update (dueAfter tr) timer none timer = some d := h
            rw [Function.update_self] at hd
            cases hd
        | _ => cases hmoves
      · have hquiet : x.moves t = false := by simpa using hmoves
        rw [advance_of_not_moves hquiet] at h
        obtain ⟨pre, j, e, mid, rfl, hd, hmid⟩ := ih h
        refine ⟨pre, j, e, mid ++ [x], by simp, hd, fun y hy => ?_⟩
        rcases List.mem_append.mp hy with hy | hy
        · exact hmid y hy
        · rw [List.mem_singleton.mp hy]
          exact hquiet

/-- Every label was on schedule. -/
def Punctual (tr : List Event) : Prop :=
  ∀ pre e post, tr = pre ++ e :: post → e.OnSchedule (dueAfter pre)

/-- A punctual trace stays so with an event on schedule. -/
theorem Punctual.snoc (h : Punctual tr) {e : Event} (he : e.OnSchedule (dueAfter tr)) :
    Punctual (tr ++ [e]) := by
  intro pre x post heq
  rcases List.eq_nil_or_concat post with rfl | ⟨post, y, rfl⟩
  · obtain ⟨rfl, hx⟩ := List.append_inj' heq rfl
    rw [← List.singleton_inj.mp hx]
    exact he
  · have hsplit : tr ++ [e] = (pre ++ x :: post) ++ [y] := by simpa using heq
    exact h pre x post (List.append_inj' hsplit rfl).1

/-- The run lemma of the wheel. -/
theorem Inv.run (hrun : Run WheelStep initTimervecs tr w) :
    Inv w (dueAfter tr) ∧ Punctual tr := by
  refine hrun.history (fun tr w => Inv w (dueAfter tr) ∧ Punctual tr) ⟨Inv.init, ?_⟩ ?_
  · intro pre e post heq
    simp at heq
  · intro tr w e w' _ ih hstep
    obtain ⟨he, hinv⟩ := ih.1.step hstep
    rw [dueAfter_append]
    exact ⟨hinv, ih.2.snoc he⟩

/-- A timer that is filed is dispatched next, and in its due tick. -/
theorem Punctual.next (h : Punctual tr) {t : TimerPtr} {d : Nat} {pre post : List Event}
    (htr : tr = pre ++ post) (hdue : dueAfter pre t = some d) :
    (∀ x ∈ post, x.moves t = false) ∨
      ∃ mid rest, post = mid ++ .dispatched t d :: rest ∧ ∀ x ∈ mid, x.moves t = false := by
  rcases quiet_or_split t post with hquiet | ⟨mid, e, rest, rfl, hmid, he⟩
  · exact Or.inl hquiet
  · have hon := h (pre ++ mid) e rest (by rw [htr, List.append_assoc])
    have hsame : dueAfter (pre ++ mid) t = some d := (dueAfter_quiet hmid).trans hdue
    cases e with
    | filed timer j x =>
        obtain rfl : timer = t := by simpa [Event.moves] using he
        rw [hon.1] at hsame
        cases hsame
    | dispatched timer j =>
        obtain rfl : timer = t := by simpa [Event.moves] using he
        cases (show dueAfter (pre ++ mid) timer = some j from hon).symm.trans hsame
        exact Or.inr ⟨mid, rest, rfl, hmid⟩
    | _ => cases he

/-- The timer is in exactly one slot, once. -/
def Wheel.On (w : Wheel) (t : TimerPtr) : Prop :=
  (∃! p : Nat × Nat, t ∈ w.slot p.1 p.2) ∧ ∀ n i, (w.slot n i).count t ≤ 1

/-- What is due is on the wheel, and not overdue. -/
theorem Inv.on (hinv : Inv w due) {t : TimerPtr} {d : Nat} (hd : due t = some d) :
    w.On t ∧ w.timerJiffies ≤ d := by
  obtain ⟨next, hf, -⟩ := hinv.filed
  obtain ⟨n, i, hmem⟩ := hf.found t (by rw [hd]; exact Option.some_ne_none d)
  refine ⟨⟨⟨(n, i), hmem, fun p hp => ?_⟩,
    fun n i => List.nodup_iff_count_le_one.mp (hf.nodup n i) t⟩,
    ?_⟩
  · obtain ⟨hn, hi⟩ := hf.same_slot hmem hp
    exact Prod.ext hn hi
  · obtain ⟨hn, d', hd', -, ⟨hle, -⟩, -⟩ := hf.filed n i t hmem
    rw [hd] at hd'
    cases hd'
    calc w.timerJiffies ≤ next n * 2 ^ shift levelBits n := (hf.onTime n hn).1
      _ ≤ d := (Nat.le_div_iff_mul_le (Nat.two_pow_pos _)).mp hle

/-- An expiry within the next `2 ^ 32` ticks is the due tick. -/
theorem dueTick_of_future {j e : Nat} (hle : j ≤ e) (hlt : e < j + 2 ^ 32) : dueTick j e = e := by
  unfold dueTick ulongSub
  split <;> omega

/-- A filed timer with an expiry in the past is due at once. -/
theorem dueTick_of_past {j e : Nat} (hlt : e < j) (hwrap : j + 2 ^ 32 ≤ 2 ^ 64)
    (hfiled : ¬ OutOfRange j e) : dueTick j e = j := by
  unfold dueTick
  unfold OutOfRange ulongSub at *
  split <;> omega

/-- A timer waits until it is filed or turned away.  Neither the thread nor a call of
`add_timer` takes anybody else out of the queue. -/
theorem WheelStep.waiting {e : Event} {t : TimerPtr} (hinv : Inv w due)
    (hstep : WheelStep w e w') (ht : t ∈ w.waiting) :
    t ∈ w'.waiting ∨ (∃ j x, e = .filed t j x) ∨ ∃ j x, e = .unfiled t j x := by
  have hsame : w'.waiting = w.waiting → t ∈ w'.waiting := fun h => h ▸ ht
  have hstopped : w.running = none → (∀ rest, w.pc ≠ .draining rest) → False := by
    intro hstop hdrain
    rw [waiting_of_not_draining hdrain, hstop] at ht
    cases ht
  cases hstep with
  | setExpires detached unsigned => exact Or.inl ht
  | add step =>
      cases step with
      | filed unlocked detached stopped inRange =>
          exact (hstopped stopped fun rest heq => by rw [heq] at unlocked; cases unlocked).elim
      | unfiled unlocked detached stopped outOfRange =>
          exact (hstopped stopped fun rest heq => by rw [heq] at unlocked; cases unlocked).elim
      | @queued queued unlocked detached busy =>
          rw [waiting_of_unlocked unlocked, busy] at ht
          left
          rw [waiting_of_unlocked (by rw [internalAddTimer_pc]; exact unlocked),
            internalAddTimer_queued busy]
          exact List.mem_append_left _ ht
  | thread step =>
      cases step with
      | process at_pc =>
          exact (hstopped (hinv.stopped (by rw [at_pc]; rfl)) (by rw [at_pc]; nofun)).elim
      | lock at_pc =>
          exact (hstopped (hinv.stopped (by rw [at_pc]; rfl)) (by rw [at_pc]; nofun)).elim
      | beginTick at_pc test =>
          exact (hstopped (hinv.stopped (by rw [at_pc]; rfl)) (by rw [at_pc]; nofun)).elim
      | leave at_pc test =>
          exact (hstopped (hinv.stopped (by rw [at_pc]; rfl)) (by rw [at_pc]; nofun)).elim
      | endTick at_pc empty busy =>
          rw [waiting_of_not_draining (by rw [at_pc]; nofun), busy] at ht
          exact Or.inl ht
      | @drainFiled timer rest at_pc inRange =>
          rw [waiting_of_draining at_pc] at ht
          rcases List.mem_cons.mp ht with rfl | hrest
          · exact Or.inr (Or.inl ⟨_, _, rfl⟩)
          · exact Or.inl hrest
      | @drainUnfiled timer rest at_pc outOfRange =>
          rw [waiting_of_draining at_pc] at ht
          rcases List.mem_cons.mp ht with rfl | hrest
          · exact Or.inr (Or.inr ⟨_, _, rfl⟩)
          · exact Or.inl hrest
      | drained at_pc =>
          rw [waiting_of_draining at_pc] at ht
          cases ht
  | dispatch at_pc first =>
      rw [waiting_of_not_draining (by rw [at_pc]; nofun)] at ht
      exact Or.inl ht
  | called at_pc =>
      rw [waiting_of_not_draining (by rw [at_pc]; nofun)] at ht
      exact Or.inl ht

/-- After it was queued, a timer waits for the end of the tick, where it is
filed or turned away. -/
theorem Inv.queue (hrun : Run WheelStep initTimervecs tr w) {t : TimerPtr} :
    ∀ pre post, tr = pre ++ .queued t :: post →
      t ∈ w.waiting ∨ ∃ j e, .filed t j e ∈ post ∨ .unfiled t j e ∈ post := by
  refine hrun.history (fun tr w => ∀ pre post, tr = pre ++ .queued t :: post →
    t ∈ w.waiting ∨ ∃ j e, .filed t j e ∈ post ∨ .unfiled t j e ∈ post) ?_ ?_
  · intro pre post heq
    simp at heq
  · intro tr w x w' hbefore ih hstep pre post heq
    have hinv := (Inv.run hbefore).1
    rcases List.eq_nil_or_concat post with rfl | ⟨post, y, rfl⟩
    · obtain ⟨rfl, hx⟩ := List.append_inj' heq rfl
      rw [List.singleton_inj.mp hx] at hstep
      left
      cases hstep with
      | add step =>
          cases step with
          | queued unlocked detached busy =>
              rw [waiting_of_unlocked (by rw [internalAddTimer_pc]; exact unlocked),
                internalAddTimer_queued busy]
              exact List.mem_append_right _ (List.mem_singleton.mpr rfl)
      | thread step => cases step
    · have hsplit : tr ++ [x] = (pre ++ .queued t :: post) ++ [y] := by simpa using heq
      obtain ⟨htr, hx⟩ := List.append_inj' hsplit rfl
      rw [List.singleton_inj.mp hx] at hstep
      rcases ih pre post htr with hwait | ⟨j, e, hmem⟩
      · rcases hstep.waiting hinv hwait with hwait | ⟨j, e, rfl⟩ | ⟨j, e, rfl⟩
        · exact Or.inl hwait
        · exact Or.inr ⟨j, e, Or.inl (by simp)⟩
        · exact Or.inr ⟨j, e, Or.inr (by simp)⟩
      · exact Or.inr ⟨j, e, hmem.imp (by simp +contextual) (by simp +contextual)⟩

/-- In the history `post` of the wheel `w` a timer that is due in tick `d` has
not been moved, and is on the wheel, or it has been dispatched in that tick
before anything else happened to it. -/
def Exactly (t : TimerPtr) (d : Nat) (post : List Event) (w : Wheel) : Prop :=
  (∀ x ∈ post, x.moves t = false) ∧ w.On t ∧ w.timerJiffies ≤ d ∨
  ∃ mid rest, post = mid ++ .dispatched t d :: rest ∧ ∀ x ∈ mid, x.moves t = false

/-- The timers of a history are filed and dispatched on time. -/
structure Exact (tr : List Event) (w : Wheel) : Prop where
  future : ∀ pre t j e post, tr = pre ++ .filed t j e :: post → j ≤ e → e < j + 2 ^ 32 →
    Exactly t e post w
  past : ∀ pre t j e post, tr = pre ++ .filed t j e :: post → e < j → j + 2 ^ 32 ≤ 2 ^ 64 →
    Exactly t j post w
  queued : ∀ pre t post, tr = pre ++ .queued t :: post →
    t ∈ w.waiting ∨ ∃ j e, .filed t j e ∈ post ∨ .unfiled t j e ∈ post
  unfiled : ∀ t j e, .unfiled t j e ∈ tr → ¬ (j ≤ e ∧ e < j + 2 ^ 32)
  dispatched : ∀ pre t j post, tr = pre ++ .dispatched t j :: post →
    ∃ a i e mid, pre = a ++ .filed t i e :: mid ∧ ∀ x ∈ mid, x.moves t = false

/-- The invariant is enough for every dispatch to be exact: the trace tells when the timer was
filed, and the slot tells when it is due. -/
theorem Inv.exact (hrun : Run WheelStep initTimervecs tr w) : Exact tr w := by
  obtain ⟨hinv, hon⟩ := Inv.run hrun
  have hfiled : ∀ pre t j e post, tr = pre ++ .filed t j e :: post →
      Exactly t (dueTick j e) post w := by
    intro pre t j e post htr
    have hdue : dueAfter (pre ++ [.filed t j e]) t = some (dueTick j e) := by
      rw [dueAfter_append]
      exact Function.update_self ..
    have htr' : tr = (pre ++ [.filed t j e]) ++ post := by simpa using htr
    rcases hon.next htr' hdue with hquiet | hdispatched
    · refine Or.inl ⟨hquiet, hinv.on ?_⟩
      rw [htr', dueAfter_quiet hquiet]
      exact hdue
    · exact Or.inr hdispatched
  refine ⟨?_, ?_, fun pre t post => Inv.queue hrun pre post, ?_, ?_⟩
  · intro pre t j e post htr hle hlt
    rw [← dueTick_of_future hle hlt]
    exact hfiled pre t j e post htr
  · intro pre t j e post htr hlt hwrap
    have hrange : ¬ OutOfRange j e := (hon pre _ post htr).2
    have hexact := hfiled pre t j e post htr
    rwa [dueTick_of_past hlt hwrap hrange] at hexact
  · rintro t j e hmem ⟨hle, hlt⟩
    obtain ⟨pre, post, htr⟩ := List.append_of_mem hmem
    have hout : OutOfRange j e := hon pre _ post htr
    unfold OutOfRange ulongSub at hout
    omega
  · intro pre t j post htr
    have hdue : dueAfter pre t = some j := hon pre _ post htr
    obtain ⟨a, i, e, mid, rfl, -, hmid⟩ := filed_of_due hdue
    exact ⟨a, i, e, mid, rfl, hmid⟩

end Timer

import PiFrame.TimerRepeat

/-!
# Timers on the clock

The timer thread waits for 50 ms of `CLOCK_MONOTONIC`, from the moment at which it reads the
clock, and a wait that times out is a tick.  Time may pass at any moment, the wait may end
late, or early and without a tick, and a tick takes as long as its callbacks do.

So ticks are never less than 50 ms apart.  But the expiry of a new timer is counted from the
last tick, and the next tick may be due at once: a timer may be called up to a tick early.  A
timer that is re-armed is counted from a tick that is still being processed, and is not.
-/

namespace Timer

open Transition

/-! ## Points of time -/

def nsecPerSec : Nat := 1000000000

/-- `struct timespec`. -/
structure Timespec where
  tvSec : Nat
  tvNsec : Nat
  deriving DecidableEq, Repr

/-- The time in nanoseconds. -/
def Timespec.nanos (ts : Timespec) : Nat := ts.tvSec * nsecPerSec + ts.tvNsec

/-- `clock_gettime`. -/
def clockGettime (now : Nat) : Timespec := ⟨now / nsecPerSec, now % nsecPerSec⟩

/-- The loop of `SET_SIGNAL_TIME_MSEC`. -/
def carry (tvSec tvNsec : Nat) : Timespec :=
  if nsecPerSec ≤ tvNsec then carry (tvSec + 1) (tvNsec - nsecPerSec) else ⟨tvSec, tvNsec⟩
termination_by tvNsec
decreasing_by
  have hpos : 0 < nsecPerSec := by decide
  omega

/-- `SET_SIGNAL_TIME_MSEC`. -/
def setSignalTimeMsec (timeout : Timespec) (msec : Nat) : Timespec :=
  carry timeout.tvSec (timeout.tvNsec + msec * 1000000)

/-- A tick in nanoseconds. -/
def tickNanos : Nat := timerTickMsec * 1000000

/-! ## Steps -/

/-- The library and the clock.  `deadline` is there while the timer thread waits. -/
structure Clocked where
  timers : Timers
  now : Nat
  deadline : Option Timespec

/-- What can be seen of a step. -/
inductive ClockLabel
  | clock
  /-- `PFU_timerAdd` has read `jiffies`. -/
  | added (timer : TimerPtr) (msec : Int)
  | api (e : ApiEvent)
  deriving DecidableEq

/-- The steps, each with the time at which it is taken. -/
inductive ClockStep : Clocked → Nat × ClockLabel → Clocked → Prop
  | pass {s : Clocked} (d : Nat) : ClockStep s (s.now, .clock) { s with now := s.now + d }
  | wait {s : Clocked} (at_pc : s.timers.wheel.pc = .idle) (awake : s.deadline = none) :
      ClockStep s (s.now, .clock)
        { s with deadline := some (setSignalTimeMsec (clockGettime s.now) timerTickMsec) }
  /-- The wait ends without `ETIMEDOUT`. -/
  | wakeUp {s : Clocked} {ts : Timespec} (waits : s.deadline = some ts) :
      ClockStep s (s.now, .clock) { s with deadline := none }
  /-- The wait ends with `ETIMEDOUT`, and `timer_process` counts a tick. -/
  | tick {s : Clocked} {ts : Timespec} {t : Timers} (waits : s.deadline = some ts)
      (valid : ts.tvNsec < nsecPerSec) (timedOut : ts.nanos ≤ s.now)
      (step : Step s.timers (.wheel .run) t)
      (counted : t.wheel.jiffies = s.timers.wheel.jiffies + 1) :
      ClockStep s (s.now, .clock) { s with timers := t, deadline := none }
  | added {s : Clocked} {timer : TimerPtr} {msec : Int} {param : Option Nat} {free : Bool}
      (fresh : timer ∉ s.timers.live) :
      ClockStep s (s.now, .added timer msec)
        { s with timers := s.timers.allocTimerItem timer msec param free }
  /-- All other steps are those of `Step`. -/
  | other {s : Clocked} {e : ApiEvent} {t : Timers} (step : Step s.timers e t)
      (no_alloc : t.live ⊆ s.timers.live)
      (no_tick : t.wheel.jiffies = s.timers.wheel.jiffies) :
      ClockStep s (s.now, .api e) { s with timers := t }

def clockInit (now : Nat) : Clocked := ⟨timerInit, now, none⟩

variable {s s' : Timers} {c c' : Clocked} {due : TimerPtr → Option Nat} {t : TimerPtr}
  {a base d : Nat} {l : Nat × ClockLabel} {tr : List (Nat × ClockLabel)}

/-! ## The deadline -/

theorem carry_spec (tvSec tvNsec : Nat) :
    (carry tvSec tvNsec).tvNsec < nsecPerSec ∧
      (carry tvSec tvNsec).nanos = tvSec * nsecPerSec + tvNsec := by
  induction tvSec, tvNsec using carry.induct with
  | case1 tvSec tvNsec hle ih =>
      rw [carry, if_pos hle]
      refine ⟨ih.1, ih.2.trans ?_⟩
      rw [Nat.succ_mul]
      omega
  | case2 tvSec tvNsec hle =>
      rw [carry, if_neg hle]
      exact ⟨Nat.lt_of_not_le hle, rfl⟩

/-- The deadline is valid, and one tick ahead. -/
theorem setSignalTimeMsec_spec (now : Nat) :
    (setSignalTimeMsec (clockGettime now) timerTickMsec).tvNsec < nsecPerSec ∧
      (setSignalTimeMsec (clockGettime now) timerTickMsec).nanos = now + tickNanos := by
  obtain ⟨hvalid, hnanos⟩ := carry_spec (now / nsecPerSec)
    (now % nsecPerSec + timerTickMsec * 1000000)
  refine ⟨hvalid, hnanos.trans ?_⟩
  rw [← Nat.add_assoc, Nat.div_add_mod']
  rfl

/-! ## Ticks take their time -/

/-- The beginning of the wait, or the present. -/
def Clocked.since (c : Clocked) : Nat :=
  match c.deadline with
  | some ts => ts.nanos - tickNanos
  | none => c.now

/-- The thread waits between two ticks only, and for a tick at most. -/
structure Clocked.Waiting (c : Clocked) : Prop where
  idle : c.deadline ≠ none → c.timers.wheel.pc = .idle
  ahead : ∀ ts, c.deadline = some ts → tickNanos ≤ ts.nanos ∧ ts.nanos ≤ c.now + tickNanos

/-- Since the time `a`, ticks after tick `base` have taken 50 ms each. -/
def Paced (a base : Nat) (c : Clocked) : Prop :=
  a ≤ c.now ∧
    (c.timers.wheel.jiffies < base ∨ a + tickNanos * (c.timers.wheel.jiffies - base) ≤ c.since)

theorem Clocked.Waiting.since_le (h : c.Waiting) : c.since ≤ c.now := by
  unfold Clocked.since
  split
  · next ts hts =>
    have hts := h.ahead ts hts
    omega
  · exact le_rfl

/-- Nobody but a tick takes the thread out of its wait. -/
theorem Step.stays_idle {e : ApiEvent} (hstep : Step s e s') (hpc : s.wheel.pc = .idle)
    (hjiffies : s'.wheel.jiffies = s.wheel.jiffies) : s'.wheel.pc = .idle := by
  cases hstep with
  | thread step =>
      cases step with
      | process at_pc => exact absurd hjiffies (Nat.succ_ne_self _)
      | leave at_pc => rfl
      | lock at_pc | beginTick at_pc | endTick at_pc | drainFiled at_pc | drainUnfiled at_pc
      | drained at_pc => exact Pc.noConfusion (hpc.symm.trans at_pc)
  | alloc fresh => exact hpc
  | register unlocked call => exact hpc
  | @add x e w call step =>
      obtain ⟨htarget, -⟩ := step.target
      rw [htarget]
      exact (internalAddTimer_pc _ _).trans hpc
  | dispatch at_pc | start at_pc | skip at_pc | rearm at_pc | readd at_pc | free at_pc
  | called at_pc => exact Pc.noConfusion (hpc.symm.trans at_pc)
  | giveUp at_pc => exact Pc.noConfusion (hpc.symm.trans at_pc)
  | delete unlocked nonzero => rw [(timerDelete_frame _).1]; exact hpc
  | setMsec unlocked nonzero => rw [(timerSetMsec_frame _ _).1]; exact hpc

/-- Every step keeps the deadline within a tick of the clock. -/
theorem Clocked.Waiting.step (h : c.Waiting) (hstep : ClockStep c l c') : c'.Waiting := by
  cases hstep with
  | pass d =>
      refine ⟨h.idle, fun ts hts => ?_⟩
      have hahead := h.ahead ts hts
      exact ⟨hahead.1, hahead.2.trans (Nat.add_le_add_right (Nat.le_add_right _ _) _)⟩
  | wait at_pc awake =>
      refine ⟨fun _ => at_pc, fun ts hts => ?_⟩
      cases hts
      rw [(setSignalTimeMsec_spec c.now).2]
      exact ⟨Nat.le_add_left _ _, le_rfl⟩
  | wakeUp waits => exact ⟨fun hne => absurd rfl hne, fun ts hts => by cases hts⟩
  | tick waits => exact ⟨fun hne => absurd rfl hne, fun ts hts => by cases hts⟩
  | added fresh => exact ⟨h.idle, h.ahead⟩
  | other step no_alloc no_tick =>
      exact ⟨fun hne => step.stays_idle (h.idle hne) no_tick, h.ahead⟩

/-- **The pace.**  Between two ticks there is a whole wait, so the wheel makes no more ticks
than the time has room for. -/
theorem Paced.step (h : Paced a base c) (hwait : c.Waiting) (hstep : ClockStep c l c') :
    Paced a base c' := by
  obtain ⟨hle, hpaced⟩ := h
  cases hstep with
  | pass d =>
      refine ⟨hle.trans (Nat.le_add_right _ _), hpaced.imp_right fun hpaced => hpaced.trans ?_⟩
      unfold Clocked.since
      dsimp only
      split
      · exact le_rfl
      · exact Nat.le_add_right _ _
  | wait at_pc awake =>
      refine ⟨hle, hpaced.imp_right fun hpaced => hpaced.trans ?_⟩
      unfold Clocked.since
      rw [awake]
      dsimp only
      rw [(setSignalTimeMsec_spec c.now).2, Nat.add_sub_cancel]
  | wakeUp waits =>
      exact ⟨hle, hpaced.imp_right fun hpaced => hpaced.trans hwait.since_le⟩
  | @tick ts t waits valid timedOut step counted =>
      refine ⟨hle, ?_⟩
      show t.wheel.jiffies < base ∨ a + tickNanos * (t.wheel.jiffies - base) ≤ c.now
      rw [counted]
      rcases hpaced with hlt | hpaced
      · rcases Nat.lt_or_eq_of_le (Nat.succ_le_of_lt hlt) with hlt' | heq
        · exact .inl hlt'
        · right
          rw [show c.timers.wheel.jiffies + 1 - base = 0 by omega, Nat.mul_zero]
          exact hle
      · by_cases hbase : c.timers.wheel.jiffies + 1 ≤ base
        · right
          rw [Nat.sub_eq_zero_of_le hbase, Nat.mul_zero]
          exact hle
        · right
          -- one more tick, and the wait for it is over
          have hsince : c.since = ts.nanos - tickNanos := by
            rw [Clocked.since, waits]
          have hahead := (hwait.ahead ts waits).1
          rw [show c.timers.wheel.jiffies + 1 - base = c.timers.wheel.jiffies - base + 1 by omega,
            Nat.mul_succ]
          omega
  | added fresh => exact ⟨hle, hpaced⟩
  | other step no_alloc no_tick =>
      refine ⟨hle, ?_⟩
      rw [no_tick]
      exact hpaced

/-! ## No tick is skipped -/

/-- The timer is not called before tick `d`: a call of `PFU_timerAdd` still has it in hand, or
it is on its way to its slot, or tick `d` has come. -/
def Ahead (s : Timers) (due : TimerPtr → Option Nat) (t : TimerPtr) (d : Nat) : Prop :=
  s.adding t ≠ none ∧ s.wheel.expires t = d % 2 ^ 64 ∧ d < s.wheel.timerJiffies + 2 ^ 32 ∨
  Armed s due t d ∨
  d ≤ s.wheel.timerJiffies

theorem Step.timerJiffies_le (hinv : ServiceInv s due) {e : ApiEvent} (hstep : Step s e s') :
    s.wheel.timerJiffies ≤ s'.wheel.timerJiffies := by
  cases hstep with
  | thread step => exact (step.frame hinv.wheel).2.2.1
  | @add x e w call step | @readd x e w at_pc at_phase step =>
      rw [step.target.1]
      exact (internalAddTimer_frame _ _).2.2.1.ge
  | giveUp at_pc at_phase => rw [giveUp_frame.1]
  | delete unlocked nonzero => rw [(timerDelete_frame _).1]
  | setMsec unlocked nonzero => rw [(timerSetMsec_frame _ _).1]
  | alloc | register | dispatch | start | skip | rearm | free | called => exact le_rfl

/-- A call of `PFU_timerAdd` keeps its timer up to `add_timer`, and nobody else changes its
expiry until then. -/
theorem Step.adding (hinv : ServiceInv s due) {e : ApiEvent} (hstep : Step s e s')
    (hcall : s.adding t ≠ none) :
    s'.adding t ≠ none ∧ s'.wheel.expires t = s.wheel.expires t ∨
      ∃ y w, AddStep s.wheel t y w ∧ e = .wheel y ∧ s'.wheel = w := by
  obtain ⟨hlive, -⟩ := hinv.adding t hcall
  have hadd : ∀ {x : TimerPtr} {y : Event} {w : Wheel}, AddStep s.wheel x y w →
      w.expires t = s.wheel.expires t := by
    intro x y w step
    rw [step.target.1, (internalAddTimer_frame _ _).1]
  cases hstep with
  | thread step => exact .inl ⟨hcall, congrFun (step.frame hinv.wheel).1 t⟩
  | @alloc x msec param free fresh =>
      have hne : t ≠ x := fun heq => fresh (heq ▸ hlive)
      refine .inl ⟨?_, Function.update_of_ne hne ..⟩
      show Function.update s.adding x (some .allocated) t ≠ none
      rwa [Function.update_of_ne hne]
  | @register x unlocked call =>
      refine .inl ⟨?_, rfl⟩
      show Function.update s.adding x (some .registered) t ≠ none
      by_cases hne : t = x
      · rw [hne, Function.update_self]
        exact Option.some_ne_none _
      · rwa [Function.update_of_ne hne]
  | @add x y w call step =>
      by_cases hne : t = x
      · subst hne
        exact .inr ⟨y, w, step, rfl, rfl⟩
      · refine .inl ⟨?_, hadd step⟩
        show Function.update s.adding x none t ≠ none
        rwa [Function.update_of_ne hne]
  | @rearm x at_pc at_phase =>
      have hne : t ≠ x := by
        rintro rfl
        exact hcall (hinv.calling t at_pc (by rw [at_phase]; exact Phase.noConfusion)).2.2
      exact .inl ⟨hcall, Function.update_of_ne hne ..⟩
  | readd at_pc at_phase step => exact .inl ⟨hcall, hadd step⟩
  | giveUp at_pc at_phase =>
      refine .inl ⟨?_, by rw [giveUp_frame.1]⟩
      rwa [giveUp_frame.2.1]
  | delete unlocked nonzero =>
      obtain ⟨hwheel, hadding, -⟩ := timerDelete_frame (s := s) _
      exact .inl ⟨by rwa [hadding], by rw [hwheel]⟩
  | setMsec unlocked nonzero =>
      obtain ⟨hwheel, hadding, -⟩ := timerSetMsec_frame (s := s) _ _
      exact .inl ⟨by rwa [hadding], by rw [hwheel]⟩
  | dispatch | start | skip | free | called => exact .inl ⟨hcall, rfl⟩

/-- `add_timer` files the timer for its tick, unless that tick has come; then it goes to the
present one, which is not earlier either. -/
theorem AddStep.ahead (hinv : ServiceInv s due) {y : Event} {w : Wheel}
    (hstep : AddStep s.wheel t y w) (hwheel : s'.wheel = w)
    (hexpires : s.wheel.expires t = d % 2 ^ 64) (hlt : d < s.wheel.timerJiffies + 2 ^ 32) :
    Ahead s' (advance due y) t d := by
  obtain ⟨htarget, hunlocked, -⟩ := hstep.target
  obtain ⟨hexpires', -, hnow, -, hpc⟩ := internalAddTimer_frame s.wheel t
  rw [← htarget] at hexpires' hnow hpc
  rcases Nat.lt_or_ge s.wheel.timerJiffies d with hle | hge
  swap
  · exact .inr (.inr (by rwa [hwheel, hnow]))
  refine .inr (.inl ?_)
  cases hstep with
  | filed unlocked detached stopped inRange =>
      refine .inr (.inr ?_)
      show Function.update due t (some (dueTick s.wheel.timerJiffies (s.wheel.expires t))) t = _
      rw [Function.update_self, hexpires, dueTick_of_le hle.le (by omega)]
  | unfiled unlocked detached stopped outOfRange =>
      have hfar := (vecOf_eq_none_iff.mp outOfRange).1
      rw [hexpires, ulongSub_mod hle.le (by omega)] at hfar
      omega
  | @queued queued unlocked detached busy =>
      have hmem : t ∈ (s.wheel.internalAddTimer t).waiting := by
        rw [waiting_of_unlocked (by rwa [hpc]), internalAddTimer_queued busy]
        exact List.mem_append_right _ (List.mem_singleton.mpr rfl)
      have hbusy : s.wheel.pc.busy = true := by
        rw [← hinv.wheel.busy, busy]
        rfl
      refine .inr (.inl ⟨hwheel ▸ hmem, ?_⟩)
      rw [hwheel]
      refine ⟨(congrFun hexpires' t).trans hexpires, ?_⟩
      rw [hnow, hpc, hbusy, Bool.toNat_true]
      omega

/-- Until it is dispatched, a due timer stays due then, and the wheel does not pass its tick. -/
theorem Ahead.step (h : Ahead s due t d) (hinv : ServiceInv s due) {e : ApiEvent}
    (hstep : Step s e s') : Ahead s' (apiAdvance due e) t d := by
  have hnow := hstep.timerJiffies_le hinv
  rcases h with ⟨hcall, hexpires, hlt⟩ | harmed | hreached
  · rcases hstep.adding hinv hcall with ⟨hcall', hsame⟩ | ⟨y, w, hadd, rfl, hwheel⟩
    · exact .inl ⟨hcall', hsame.trans hexpires, by omega⟩
    · exact hadd.ahead hinv hwheel hexpires hlt
  · rcases harmed.step hinv hstep with ⟨harmed', -⟩ | rfl
    · exact .inr (.inl harmed')
    · -- it is dispatched in tick `d`
      refine .inr (.inr ?_)
      have hdue := (hinv.step hstep).1
      cases hstep with
      | thread step => cases step
      | dispatch at_pc first => exact le_rfl
      | add call step => cases step
      | readd at_pc at_phase step => cases step
  · exact .inr (.inr (hreached.trans hnow))

/-- A callback begins in tick `d` or later, if its timer has been set ahead of that tick. -/
theorem Ahead.started (h : Ahead s due t d) (hinv : ServiceInv s due) {j : Nat}
    (hstep : Step s (.started t j) s') : d ≤ s.wheel.jiffies := by
  cases hstep with
  | start at_pc at_phase flag =>
      obtain ⟨-, hpending, hadding⟩ := hinv.calling t at_pc (by rw [at_phase]; exact Phase.noConfusion)
      rw [hinv.jiffies_eq at_pc]
      rcases h with ⟨hcall, -⟩ | (⟨hphase, -⟩ | ⟨hmem, -⟩ | hdue) | hreached
      · exact absurd hadding hcall
      · exact Phase.noConfusion (at_phase.symm.trans hphase)
      · exact absurd hmem (hinv.wheel.not_waiting hpending)
      · rw [hinv.wheel.detached hpending] at hdue
        cases hdue
      · exact hreached

/-! ## Timed runs -/

/-- The service behind the clock is in order. -/
def Clocked.Ordered (c : Clocked) : Prop :=
  c.Waiting ∧ ∃ due, ServiceInv c.timers due

/-- At the start the wheel is at tick 0 and no deadline is set. -/
theorem Clocked.Ordered.init (now : Nat) : (clockInit now).Ordered :=
  ⟨⟨fun hne => absurd rfl hne, fun ts hts => by cases hts⟩, _, ServiceInv.init⟩

/-- A step of the clock, or of the library. -/
theorem ClockStep.timers (hstep : ClockStep c l c') :
    c'.timers = c.timers ∨ ∃ e, Step c.timers e c'.timers := by
  cases hstep with
  | pass | wait | wakeUp => exact .inl rfl
  | tick waits valid timedOut step counted => exact .inr ⟨_, step⟩
  | added fresh => exact .inr ⟨_, .alloc fresh⟩
  | other step no_alloc no_tick => exact .inr ⟨_, step⟩

/-- Over whole runs, the ticks of the wheel keep behind the clock. -/
theorem Clocked.Ordered.run {c₀ : Clocked} (h : c₀.Ordered) (hrun : Run ClockStep c₀ tr c) :
    c.Ordered := by
  refine hrun.invariant Clocked.Ordered h ?_
  rintro c l c' ⟨hwait, due, hinv⟩ hstep
  refine ⟨hwait.step hstep, ?_⟩
  rcases hstep.timers with hsame | ⟨e, hstep⟩
  · exact ⟨due, hsame ▸ hinv⟩
  · exact ⟨_, (hinv.step hstep).2⟩

/-- The pace is kept while the timer waits for its tick. -/
theorem Ahead.run {c₀ : Clocked} (hwait : c₀.Waiting) (hinv : ServiceInv c₀.timers due)
    (h : Ahead c₀.timers due t d) (hpaced : Paced a base c₀) (hrun : Run ClockStep c₀ tr c) :
    c.Waiting ∧ (∃ due', ServiceInv c.timers due' ∧ Ahead c.timers due' t d) ∧
      Paced a base c := by
  refine hrun.invariant (fun c => c.Waiting ∧ (∃ due', ServiceInv c.timers due' ∧
    Ahead c.timers due' t d) ∧ Paced a base c) ⟨hwait, ⟨due, hinv, h⟩, hpaced⟩ ?_
  rintro c l c' ⟨hwait, ⟨due', hinv, h⟩, hpaced⟩ hstep
  refine ⟨hwait.step hstep, ?_, hpaced.step hwait hstep⟩
  rcases hstep.timers with hsame | ⟨e, hstep⟩
  · exact ⟨due', hsame ▸ ⟨hinv, h⟩⟩
  · exact ⟨_, (hinv.step hstep).2, h.step hinv hstep⟩

/-- What is not called before tick `d` is not called before that tick can have come. -/
theorem Ahead.not_early {c₀ : Clocked} (hwait : c₀.Waiting) (hinv : ServiceInv c₀.timers due)
    (h : Ahead c₀.timers due t d) (hpaced : Paced a base c₀) (hbase : base ≤ d)
    {mid post : List (Nat × ClockLabel)} {b j : Nat}
    (hrun : Run ClockStep c₀ (mid ++ (b, .api (.started t j)) :: post) c) :
    a + tickNanos * (d - base) ≤ b := by
  obtain ⟨u, hmid, hlater⟩ := hrun.split
  obtain ⟨v, hstart, -⟩ := hlater.cons_inv
  obtain ⟨hwait', ⟨due', hinv', h'⟩, -, hpaced'⟩ := h.run hwait hinv hpaced hmid
  cases hstart with
  | other step no_alloc no_tick =>
      have hreached := h'.started hinv' step
      have hsince := hwait'.since_le
      rcases hpaced' with hlt | hpaced'
      · omega
      · calc a + tickNanos * (d - base)
            ≤ a + tickNanos * (u.timers.wheel.jiffies - base) := by gcongr
          _ ≤ u.now := hpaced'.trans hsince

/-- The new timer is not called before its expiry. -/
theorem ServiceInv.ahead_alloc (hinv : ServiceInv s due) (msec : Int) (param : Option Nat)
    (free : Bool) :
    Ahead (s.allocTimerItem t msec param free) due t (s.wheel.jiffies + expireTicks msec) := by
  refine .inl ⟨?_, ?_, ?_⟩
  · show Function.update s.adding t (some .allocated) t ≠ none
    rw [Function.update_self]
    exact Option.some_ne_none _
  · show Function.update s.wheel.expires t _ t = _
    rw [Function.update_self, calculateExpireTime]
  · show s.wheel.jiffies + expireTicks msec < s.wheel.timerJiffies + 2 ^ 32
    have hlt := (expireTicks_bounds msec).2
    have hclock := hinv.clock
    unfold Wheel.Clock at hclock
    split at hclock <;> omega

/-- An interval is so many ticks of 50 milliseconds, and one at least. -/
theorem expireTicks_eq (msec : Int) :
    expireTicks msec = max 1 ((msec % 2 ^ 32).toNat / 50) := by
  unfold expireTicks timerTickMsec
  simp only
  split <;> omega

/-- **Timers on the clock.**  Whenever a callback begins, all but one of the ticks that its
timer was added for have taken 50 ms each since `PFU_timerAdd` read `jiffies`; and since the
timer was re-armed, all of them have. -/
theorem timers_not_early (now : Nat) (tr : List (Nat × ClockLabel)) (c : Clocked)
    (hrun : Run ClockStep (clockInit now) tr c) :
    (∀ pre a t msec mid b j post,
      tr = pre ++ (a, .added t msec) :: (mid ++ (b, .api (.started t j)) :: post) →
        a + 50000000 * (max 1 ((msec % 2 ^ 32).toNat / 50) - 1) ≤ b) ∧
    ∀ pre a t msec mid b j post,
      tr = pre ++ (a, .api (.rearmed t msec)) :: (mid ++ (b, .api (.started t j)) :: post) →
        a + 50000000 * max 1 ((msec % 2 ^ 32).toNat / 50) ≤ b := by
  constructor
  · rintro pre a t msec mid b j post rfl
    obtain ⟨u, hpre, hlater⟩ := hrun.split
    obtain ⟨v, hadded, hpost⟩ := hlater.cons_inv
    obtain ⟨hwait, due, hinv⟩ := (Clocked.Ordered.init now).run hpre
    have hwait' := hwait.step hadded
    cases hadded with
    | @added _ _ param free fresh =>
        have hpaced : Paced u.now (u.timers.wheel.jiffies + 1)
            { u with timers := u.timers.allocTimerItem t msec param free } :=
          ⟨le_rfl, .inl (Nat.lt_succ_self _)⟩
        have hpos := (expireTicks_bounds msec).1
        have h := (hinv.ahead_alloc msec param free).not_early hwait'
          (hinv.step (.alloc fresh)).2 hpaced (by omega) hpost
        rwa [Nat.add_sub_add_left, expireTicks_eq] at h
  · rintro pre a t msec mid b j post rfl
    obtain ⟨u, hpre, hlater⟩ := hrun.split
    obtain ⟨v, hrearmed, hpost⟩ := hlater.cons_inv
    obtain ⟨hwait, due, hinv⟩ := (Clocked.Ordered.init now).run hpre
    have hwait' := hwait.step hrearmed
    cases hrearmed with
    | other step no_alloc no_tick =>
        have hinv' := (hinv.step step).2
        cases step with
        | rearm at_pc at_phase =>
            -- the thread is not waiting
            have hawake : u.deadline = none := by
              by_contra hne
              exact Pc.noConfusion (at_pc.symm.trans (hwait.idle hne))
            have hpaced : Paced u.now u.timers.wheel.jiffies
                { u with timers := u.timers.rearm t } := by
              refine ⟨le_rfl, .inr ?_⟩
              rw [no_tick, Nat.sub_self, Clocked.since, hawake]
              exact le_rfl
            have hahead : Ahead (u.timers.rearm t) due t
                (u.timers.wheel.jiffies + expireTicks (u.timers.timer t).msec) := by
              rw [hinv.jiffies_eq at_pc]
              exact .inr (.inl (hinv.armed at_pc))
            have h := hahead.not_early hwait' hinv' hpaced (Nat.le_add_right _ _) hpost
            rwa [Nat.add_sub_cancel_left, expireTicks_eq] at h

/-- The bound is reached: a timer of 100 ms is called after 50 ms, since a tick was due when it
was added. -/
theorem timers_not_early_one_tick : ∃ tr c pre mid,
    Run ClockStep (clockInit 0) tr c ∧
      tr = pre ++ (50000000, .added 1 100) :: (mid ++ [(100000000, .api (.started 1 2))]) ∧
      50000000 + 50000000 * (max 1 (((100 : Int) % 2 ^ 32).toNat / 50) - 1) ≤ 100000000 := by
  have hrun := Run.nil.snoc (@ClockStep.wait (clockInit 0) rfl rfl)
  have hrun := hrun.snoc (.pass 50000000)
  have hrun := hrun.snoc (@ClockStep.added _ 1 100 none false (by decide))
  have hrun := hrun.snoc (.other (@Step.register _ 1 rfl rfl) (by decide) rfl)
  have hrun := hrun.snoc (.other (@Step.add _ 1 _ _ rfl (.filed rfl rfl rfl (by decide)))
    (by decide) rfl)
  have hrun := hrun.snoc (.tick rfl (setSignalTimeMsec_spec _).1 (setSignalTimeMsec_spec _).2.le
    (.thread (.process rfl)) rfl)
  have hrun := hrun.snoc (.other (.thread (.lock rfl)) (by decide) rfl)
  have hrun := hrun.snoc (.other (.thread (.beginTick rfl (by decide))) (by decide) rfl)
  have hrun := hrun.snoc (.other (.thread (.endTick rfl rfl rfl)) (by decide) rfl)
  have hrun := hrun.snoc (.other (.thread (.drained rfl)) (by decide) rfl)
  have hrun := hrun.snoc (.other (.thread (.beginTick rfl (by decide))) (by decide) rfl)
  have hrun := hrun.snoc (.other (.thread (.endTick rfl rfl rfl)) (by decide) rfl)
  have hrun := hrun.snoc (.other (.thread (.drained rfl)) (by decide) rfl)
  have hrun := hrun.snoc (.other (.thread (.leave rfl (by decide))) (by decide) rfl)
  have hrun := hrun.snoc (.wait rfl rfl)
  have hrun := hrun.snoc (.pass 50000000)
  have hrun := hrun.snoc (.tick rfl (setSignalTimeMsec_spec _).1 (setSignalTimeMsec_spec _).2.le
    (.thread (.process rfl)) rfl)
  have hrun := hrun.snoc (.other (.thread (.lock rfl)) (by decide) rfl)
  have hrun := hrun.snoc (.other (.thread (.beginTick rfl (by decide))) (by decide) rfl)
  have hrun := hrun.snoc (.other (@Step.dispatch _ 1 [] rfl rfl) (by decide) rfl)
  have hrun := hrun.snoc (.other (@Step.start _ 1 rfl rfl rfl) (by decide) rfl)
  let pre : List (Nat × ClockLabel) := [(0, .clock), (0, .clock)]
  let mid : List (Nat × ClockLabel) :=
    [(50000000, .api .run), (50000000, .api (.wheel (.filed 1 0 2))), (50000000, .clock)] ++
      List.replicate 8 (50000000, .api (.wheel .run)) ++
      [(50000000, .clock), (50000000, .clock), (100000000, .clock)] ++
      List.replicate 2 (100000000, .api (.wheel .run)) ++
      [(100000000, .api (.wheel (.dispatched 1 2)))]
  have hrun : Run ClockStep (clockInit 0)
      (pre ++ (50000000, .added 1 100) :: (mid ++ [(100000000, .api (.started 1 2))])) _ := hrun
  exact ⟨_, _, pre, mid, hrun, rfl,
    (timers_not_early 0 _ _ hrun).1 pre _ _ _ mid _ _ [] rfl⟩

end Timer

import PiFrame.TimerExactness
import PiFrame.TimerService

/-!
# Repeating timers

The service drives the wheel, so what it files is dispatched on time.  For the
timers of `PFU_timerAdd` the due ticks are never 0, hence a callback runs in
the tick that `jiffies` has just been counted up to, and a timer that is
re-armed in tick `T` is due `max(1, msec / 50)` ticks after it.

`Armed s due t d` follows such a timer from `reuse_timer` through the queued
list to its slot.
-/

namespace Timer

open TimingWheel Transition

/-! ## What the steps on the wheel leave alone -/

/-- How `jiffies` stands to `timer_jiffies`.  Only the first call of
`run_timer_list` has two ticks to process, 0 and 1. -/
def Wheel.Clock (w : Wheel) : Prop :=
  match w.pc with
  | .idle => w.timerJiffies = w.jiffies + 1 ∨ w.timerJiffies = 0 ∧ w.jiffies = 0
  | .ticked => w.timerJiffies = w.jiffies ∨ w.timerJiffies = 0 ∧ w.jiffies = 1
  | .looping => w.timerJiffies = w.jiffies + 1 ∨ w.timerJiffies = w.jiffies ∨
      w.timerJiffies = 0 ∧ w.jiffies = 1
  | .emptying => w.timerJiffies = w.jiffies ∨ w.timerJiffies = 0 ∧ w.jiffies = 1
  | .calling _ => w.timerJiffies = w.jiffies ∨ w.timerJiffies = 0 ∧ w.jiffies = 1
  | .draining _ => w.timerJiffies = w.jiffies + 1 ∨ w.timerJiffies = 1 ∧ w.jiffies = 1

variable {w w' : Wheel} {s s' : Timers} {due : TimerPtr → Option Nat} {t timer : TimerPtr}
  {d : Nat}

/-- `internal_add_timer` changes lists and marks the timer. -/
theorem internalAddTimer_frame (w : Wheel) (timer : TimerPtr) :
    (w.internalAddTimer timer).expires = w.expires ∧
    (w.internalAddTimer timer).pending = Function.update w.pending timer true ∧
    (w.internalAddTimer timer).timerJiffies = w.timerJiffies ∧
    (w.internalAddTimer timer).jiffies = w.jiffies ∧ (w.internalAddTimer timer).pc = w.pc := by
  cases hrun : w.running with
  | some queued =>
      rw [internalAddTimer_queued hrun]
      exact ⟨rfl, rfl, rfl, rfl, rfl⟩
  | none =>
      cases hvec : w.vecOf (w.expires timer) with
      | none =>
          rw [internalAddTimer_unfiled hrun hvec]
          exact ⟨rfl, rfl, rfl, rfl, rfl⟩
      | some p =>
          rw [internalAddTimer_filed hrun hvec]
          exact ⟨rfl, rfl, rfl, rfl, rfl⟩

/-- A step of `add_timer` files its own timer, with the lock and while the timer is not pending. -/
theorem AddStep.target {e : Event} (hstep : AddStep w timer e w') :
    w' = w.internalAddTimer timer ∧ w.pc.unlocked = true ∧ w.pending timer = false := by
  cases hstep with
  | filed unlocked detached => exact ⟨rfl, unlocked, detached⟩
  | unfiled unlocked detached => exact ⟨rfl, unlocked, detached⟩
  | queued unlocked detached => exact ⟨rfl, unlocked, detached⟩

/-- Filing a timer does not move the clock of the wheel. -/
theorem AddStep.clock {e : Event} (hstep : AddStep w timer e w') (hclock : w.Clock) : w'.Clock := by
  obtain ⟨rfl, -⟩ := hstep.target
  obtain ⟨-, -, hnow, hjiffies, hpc⟩ := internalAddTimer_frame w timer
  unfold Wheel.Clock
  rw [hnow, hjiffies, hpc]
  exact hclock

/-- The start of a tick moves timers between lists and changes nothing else. -/
theorem Inv.beginTick_frame (hinv : Inv w due) (hpc : w.pc = .looping) :
    w.beginTick.expires = w.expires ∧ w.beginTick.pending = w.pending ∧
    w.beginTick.timerJiffies = w.timerJiffies ∧ w.beginTick.jiffies = w.jiffies := by
  have hidle : w.pc.busy = false := by rw [hpc]; rfl
  obtain ⟨next, hf, hbefore, -⟩ := hinv.filed
  obtain ⟨next', -, -, hsame⟩ := hf.cascades (hinv.stopped hidle) (hbefore hidle)
  exact ⟨hsame.expires, hsame.pending, hsame.timerJiffies, hsame.jiffies⟩

/-- The timer thread outside of a dispatch changes no expiry and no callback; it moves timers
between the lists. -/
theorem ThreadStep.frame (hinv : Inv w due) {e : Event} (hstep : ThreadStep w e w') :
    w'.expires = w.expires ∧ w'.pending = w.pending ∧ w.timerJiffies ≤ w'.timerJiffies ∧
    (∀ t, w.pc ≠ .calling t) ∧ ∀ t, w'.pc ≠ .calling t := by
  have hdrain : ∀ timer rest, w.pc = .draining (timer :: rest) →
      Function.update w.pending timer true = w.pending := by
    intro timer rest hpc
    have hmem : timer ∈ w.waiting := by
      rw [waiting_of_draining hpc]
      exact List.mem_cons_self
    rw [← (hinv.waiting timer hmem).2, Function.update_eq_self]
  cases hstep with
  | process at_pc => exact ⟨rfl, rfl, le_rfl, fun t => by rw [at_pc]; nofun, nofun⟩
  | lock at_pc => exact ⟨rfl, rfl, le_rfl, fun t => by rw [at_pc]; nofun, nofun⟩
  | beginTick at_pc test =>
      obtain ⟨hexpires, hpending, hnow, -⟩ := hinv.beginTick_frame at_pc
      exact ⟨hexpires, hpending, hnow.ge, fun t => by rw [at_pc]; nofun, nofun⟩
  | leave at_pc test => exact ⟨rfl, rfl, le_rfl, fun t => by rw [at_pc]; nofun, nofun⟩
  | endTick at_pc empty busy =>
      exact ⟨rfl, rfl, Nat.le_succ _, fun t => by rw [at_pc]; nofun, nofun⟩
  | @drainFiled timer rest at_pc _ | @drainUnfiled timer rest at_pc _ =>
      obtain ⟨hexpires, hpending, hnow, -, -⟩ := internalAddTimer_frame w timer
      exact ⟨hexpires, hpending.trans (hdrain timer rest at_pc), hnow.ge,
        fun t => by rw [at_pc]; nofun, nofun⟩
  | drained at_pc => exact ⟨rfl, rfl, le_rfl, fun t => by rw [at_pc]; nofun, nofun⟩

/-- The thread of the wheel keeps its clock behind the time, and runs a tick only when the time
has reached it. -/
theorem ThreadStep.clock (hinv : Inv w due) {e : Event} (hstep : ThreadStep w e w')
    (hclock : w.Clock) : w'.Clock := by
  unfold Wheel.Clock at hclock
  cases hstep with
  | process at_pc =>
      rw [at_pc] at hclock
      show w.timerJiffies = w.jiffies + 1 ∨ w.timerJiffies = 0 ∧ w.jiffies + 1 = 1
      simp only at hclock
      omega
  | lock at_pc =>
      rw [at_pc] at hclock
      exact Or.inr hclock
  | beginTick at_pc test =>
      rw [at_pc] at hclock
      obtain ⟨-, -, hnow, hjiffies⟩ := hinv.beginTick_frame at_pc
      show w.beginTick.timerJiffies = w.beginTick.jiffies ∨
        w.beginTick.timerJiffies = 0 ∧ w.beginTick.jiffies = 1
      rw [hnow, hjiffies]
      refine hclock.resolve_left fun hahead => ?_
      rw [hahead] at test
      unfold ulongSub at test
      omega
  | leave at_pc test =>
      rw [at_pc] at hclock
      refine Or.inl (hclock.resolve_right fun hbehind => test ?_)
      unfold ulongSub
      omega
  | endTick at_pc empty busy =>
      rw [at_pc] at hclock
      show w.timerJiffies + 1 = w.jiffies + 1 ∨ w.timerJiffies + 1 = 1 ∧ w.jiffies = 1
      simp only at hclock
      omega
  | @drainFiled timer rest at_pc _ | @drainUnfiled timer rest at_pc _ =>
      rw [at_pc] at hclock
      obtain ⟨-, -, hnow, hjiffies, -⟩ := internalAddTimer_frame w timer
      show (w.internalAddTimer timer).timerJiffies = (w.internalAddTimer timer).jiffies + 1 ∨
        (w.internalAddTimer timer).timerJiffies = 1 ∧ (w.internalAddTimer timer).jiffies = 1
      rw [hnow, hjiffies]
      exact hclock
  | drained at_pc =>
      rw [at_pc] at hclock
      show w.timerJiffies = w.jiffies + 1 ∨ w.timerJiffies = w.jiffies ∨
        w.timerJiffies = 0 ∧ w.jiffies = 1
      simp only at hclock
      omega

/-! ## The invariant of the service -/

/-- The due ticks after a label of the service. -/
def apiAdvance (due : TimerPtr → Option Nat) : ApiEvent → TimerPtr → Option Nat
  | .wheel e => advance due e
  | _ => due

/-- What a label says about the wheel.  A timer that is re-armed gets a new
expiry. -/
def ApiEvent.onWheel : ApiEvent → Option Event
  | .wheel e => some e
  | .rearmed _ _ => some .run
  | _ => none

def wheelTrace (tr : List ApiEvent) : List Event :=
  tr.filterMap ApiEvent.onWheel

def ApiEvent.OnSchedule (due : TimerPtr → Option Nat) : ApiEvent → Prop
  | .wheel e => e.OnSchedule due
  | _ => True

/-- Who has a timer in hand: a call of `PFU_timerAdd`, the timer thread, or
the wheel.  `early` and `positive` keep tick 0 free of dispatches. -/
structure ServiceInv (s : Timers) (due : TimerPtr → Option Nat) : Prop where
  wheel : Inv s.wheel due
  clock : s.wheel.Clock
  live : ∀ t, s.wheel.pending t = true → t ∈ s.live
  adding : ∀ t, s.adding t ≠ none → t ∈ s.live ∧ s.wheel.pending t = false
  calling : ∀ t, s.wheel.pc = .calling t → s.phase ≠ .done →
    t ∈ s.live ∧ s.wheel.pending t = false ∧ s.adding t = none
  late : ∀ t, s.wheel.pc = .calling t → 1 ≤ s.wheel.timerJiffies
  positive : ∀ t d, due t = some d → 1 ≤ d
  early : ∀ t, s.adding t ≠ none → s.wheel.timerJiffies = 0 →
    1 ≤ s.wheel.expires t ∧ s.wheel.expires t < 2 ^ 32

/-- An interval is at least one tick, and fits into an `int`. -/
theorem expireTicks_bounds (msec : Int) : 1 ≤ expireTicks msec ∧ expireTicks msec < 2 ^ 31 := by
  unfold expireTicks timerTickMsec
  simp only
  split <;> omega

/-- While a callback runs, `jiffies` is the tick that is processed. -/
theorem ServiceInv.jiffies_eq (hinv : ServiceInv s due) (hpc : s.wheel.pc = .calling t) :
    s.wheel.jiffies = s.wheel.timerJiffies := by
  have hclock := hinv.clock
  unfold Wheel.Clock at hclock
  rw [hpc] at hclock
  have hlate := hinv.late t hpc
  simp only at hclock
  omega

/-- A timer that somebody has in hand is not in a list. -/
theorem ServiceInv.adding_none (hinv : ServiceInv s due) (hp : s.wheel.pending t = true) :
    s.adding t = none := by
  by_contra hne
  have hpending := (hinv.adding t hne).2
  rw [hp] at hpending
  cases hpending

/-- A step that does not touch the wheel keeps the invariant if what it frees is neither pending
nor about to be added. -/
theorem ServiceInv.keep (hinv : ServiceInv s due) (hwheel : s'.wheel = s.wheel)
    (hadding : ∀ t, s'.adding t ≠ none → s.adding t ≠ none)
    (hphase : s'.phase ≠ .done → s.phase ≠ .done)
    (hlive : ∀ t ∈ s.live, t ∈ s'.live ∨
      s.wheel.pending t = false ∧ s.adding t = none ∧ s'.phase = .done) : ServiceInv s' due := by
  refine ⟨hwheel ▸ hinv.wheel, hwheel ▸ hinv.clock, fun t ht => ?_, fun t ht => ?_,
    fun t hpc hdone => ?_, fun t hpc => ?_, hinv.positive, fun t ht => ?_⟩
  · rw [hwheel] at ht
    refine (hlive t (hinv.live t ht)).resolve_right fun h => ?_
    rw [ht] at h
    cases h.1
  · obtain ⟨hmem, hp⟩ := hinv.adding t (hadding t ht)
    refine ⟨(hlive t hmem).resolve_right fun h => hadding t ht h.2.1, ?_⟩
    rw [hwheel]
    exact hp
  · rw [hwheel] at hpc ⊢
    obtain ⟨hmem, hp, ha⟩ := hinv.calling t hpc (hphase hdone)
    refine ⟨(hlive t hmem).resolve_right fun h => hdone h.2.2, hp, ?_⟩
    by_contra hne
    exact hadding t hne ha
  · rw [hwheel] at hpc ⊢
    exact hinv.late t hpc
  · rw [hwheel]
    exact hinv.early t (hadding t ht)

/-- Filing keeps the due ticks positive, since no timer is filed for the tick 0. -/
theorem positive_advance (hpos : ∀ t d, due t = some d → 1 ≤ d) {e : Event}
    (hfiled : ∀ timer j x, e = .filed timer j x → 1 ≤ dueTick j x) (t : TimerPtr) (d : Nat)
    (hd : advance due e t = some d) : 1 ≤ d := by
  by_cases hmoves : e.moves t = true
  · cases e with
    | filed timer j x =>
        obtain rfl : timer = t := by simpa [Event.moves] using hmoves
        have hd' : Function.update due timer (some (dueTick j x)) timer = some d := hd
        rw [Function.update_self] at hd'
        cases hd'
        exact hfiled timer j x rfl
    | dispatched timer j =>
        obtain rfl : timer = t := by simpa [Event.moves] using hmoves
        have hd' : Function.update due timer none timer = some d := hd
        rw [Function.update_self] at hd'
        cases hd'
    | _ => cases hmoves
  · have hquiet : e.moves t = false := by simpa using hmoves
    rw [advance_of_not_moves hquiet] at hd
    exact hpos t d hd

/-- The queued timers are filed after tick 0. -/
theorem ThreadStep.positive (hclock : w.Clock) {e : Event} (hstep : ThreadStep w e w')
    (timer j x : Nat) (he : e = .filed timer j x) : 1 ≤ dueTick j x := by
  cases hstep with
  | drainFiled at_pc inRange =>
      cases he
      unfold Wheel.Clock at hclock
      rw [at_pc] at hclock
      refine le_trans ?_ le_dueTick
      simp only at hclock
      omega
  | _ => cases he

/-- The label of `add_timer` says which timer is filed, when and for when. -/
theorem AddStep.event {e : Event} (hstep : AddStep w timer e w') (x j y : Nat)
    (he : e = .filed x j y) : x = timer ∧ j = w.timerJiffies ∧ y = w.expires timer := by
  cases hstep with
  | filed => cases he; exact ⟨rfl, rfl, rfl⟩
  | _ => cases he

/-- What the service relies on outlives a step of the wheel. -/
theorem ServiceInv.thread (hinv : ServiceInv s due) {e : Event} (hstep : ThreadStep s.wheel e w) :
    ServiceInv { s with wheel := w } (advance due e) := by
  obtain ⟨hexpires, hpending, hnow, hold, hnew⟩ := hstep.frame hinv.wheel
  refine ⟨(hinv.wheel.threadStep hstep).2, hstep.clock hinv.wheel hinv.clock, ?_, ?_,
    fun t hpc => absurd hpc (hnew t), fun t hpc => absurd hpc (hnew t),
    positive_advance hinv.positive (hstep.positive hinv.clock), ?_⟩
  · show ∀ t, w.pending t = true → t ∈ s.live
    rw [hpending]
    exact hinv.live
  · show ∀ t, s.adding t ≠ none → t ∈ s.live ∧ w.pending t = false
    rw [hpending]
    exact hinv.adding
  · intro t ht hzero
    show 1 ≤ w.expires t ∧ w.expires t < 2 ^ 32
    rw [hexpires]
    have hzero' : w.timerJiffies = 0 := hzero
    exact hinv.early t ht (by omega)

/-- Before tick 0 has been processed `jiffies` is 0 or 1. -/
theorem Wheel.Clock.jiffies_le (hclock : w.Clock) (hzero : w.timerJiffies = 0) : w.jiffies ≤ 1 := by
  unfold Wheel.Clock at hclock
  split at hclock <;> omega

/-- A new timer item is idle, so what the service relies on holds of it: it is on no list, and
no call has it in hand but this one. -/
theorem ServiceInv.alloc (hinv : ServiceInv s due) (hfresh : t ∉ s.live) {msec : Int}
    {param : Option Nat} {free : Bool} : ServiceInv (s.allocTimerItem t msec param free) due := by
  have hp : s.wheel.pending t = false := by
    by_contra hne
    exact hfresh (hinv.live t (by simpa using hne))
  have hsame : Function.update s.wheel.pending t false = s.wheel.pending := by
    rw [← hp, Function.update_eq_self]
  have hwheel := hinv.wheel.setExpires hp (e := calculateExpireTime s.wheel.jiffies msec)
    (Nat.mod_lt _ (Nat.two_pow_pos 64))
  have hadding : ∀ x, x ≠ t → (s.allocTimerItem t msec param free).adding x = s.adding x :=
    fun x hx => Function.update_of_ne hx ..
  refine ⟨?_, hinv.clock, ?_, fun x hx => ?_, fun x hpc hdone => ?_, hinv.late, hinv.positive,
    fun x hx hzero => ?_⟩
  · show Inv { s.wheel with
      expires := Function.update s.wheel.expires t (calculateExpireTime s.wheel.jiffies msec)
      pending := Function.update s.wheel.pending t false } due
    rw [hsame]
    exact hwheel
  · show ∀ x, Function.update s.wheel.pending t false x = true → x ∈ insert t s.live
    rw [hsame]
    exact fun x hx => Finset.mem_insert_of_mem (hinv.live x hx)
  · show x ∈ insert t s.live ∧ Function.update s.wheel.pending t false x = false
    rw [hsame]
    by_cases hxt : x = t
    · rw [hxt]
      exact ⟨Finset.mem_insert_self t s.live, hp⟩
    · rw [hadding x hxt] at hx
      exact (hinv.adding x hx).imp_left Finset.mem_insert_of_mem
  · obtain ⟨hlive, hpx, hax⟩ := hinv.calling x hpc hdone
    have hxt : x ≠ t := fun heq => hfresh (heq ▸ hlive)
    rw [hadding x hxt]
    show x ∈ insert t s.live ∧ Function.update s.wheel.pending t false x = false ∧ _
    rw [hsame]
    exact ⟨Finset.mem_insert_of_mem hlive, hpx, hax⟩
  · show 1 ≤ Function.update s.wheel.expires t (calculateExpireTime s.wheel.jiffies msec) x ∧
      Function.update s.wheel.expires t (calculateExpireTime s.wheel.jiffies msec) x < 2 ^ 32
    by_cases hxt : x = t
    · have hjiffies := hinv.clock.jiffies_le hzero
      have hticks := expireTicks_bounds msec
      rw [hxt, Function.update_self]
      unfold calculateExpireTime
      omega
    · rw [Function.update_of_ne hxt]
      rw [hadding x hxt] at hx
      exact hinv.early x hx hzero

/-- `add_timer` by the call that has the timer in hand.  The timer is not pending, so the wheel
may take it. -/
theorem ServiceInv.addStep (hinv : ServiceInv s due) {e : Event}
    (hstep : AddStep s.wheel timer e w)
    (hfiled : e = .filed timer s.wheel.timerJiffies (s.wheel.expires timer) →
      1 ≤ dueTick s.wheel.timerJiffies (s.wheel.expires timer))
    (hlive : timer ∈ s.live) (hwheel : s'.wheel = w) (hslive : s'.live = s.live)
    (hadding : ∀ x, s'.adding x ≠ none → x ≠ timer ∧ s.adding x ≠ none)
    (hphase : ∀ x, w.pc = .calling x → s'.phase ≠ .done → s.phase ≠ .done ∧ x ≠ timer) :
    ServiceInv s' (advance due e) := by
  have hclock := hstep.clock hinv.clock
  obtain ⟨htarget, -, -⟩ := hstep.target
  obtain ⟨hexpires, hpending, hnow, -, hpc⟩ :=
    internalAddTimer_frame s.wheel timer
  rw [← htarget] at hexpires hpending hnow hpc
  refine ⟨hwheel ▸ (hinv.wheel.addStep hstep).2, hwheel ▸ hclock, fun x hx => ?_, fun x hx => ?_,
    fun x hcall hdone => ?_, fun x hcall => ?_, positive_advance hinv.positive ?_,
    fun x hx hzero => ?_⟩
  · rw [hslive]
    by_cases hxt : x = timer
    · rw [hxt]
      exact hlive
    · rw [hwheel, hpending, Function.update_of_ne hxt] at hx
      exact hinv.live x hx
  · obtain ⟨hxt, hold⟩ := hadding x hx
    rw [hslive, hwheel, hpending, Function.update_of_ne hxt]
    exact hinv.adding x hold
  · rw [hwheel] at hcall
    obtain ⟨hold, hxt⟩ := hphase x hcall hdone
    obtain ⟨hl, hp, ha⟩ := hinv.calling x (hpc ▸ hcall) hold
    rw [hslive, hwheel, hpending, Function.update_of_ne hxt]
    refine ⟨hl, hp, ?_⟩
    by_contra hne
    exact (hadding x hne).2 ha
  · rw [hwheel] at hcall ⊢
    rw [hnow]
    exact hinv.late x (hpc ▸ hcall)
  · intro x j y he
    obtain ⟨rfl, rfl, rfl⟩ := hstep.event x j y he
    exact hfiled he
  · rw [hwheel, hexpires]
    rw [hwheel, hnow] at hzero
    exact hinv.early x (hadding x hx).2 hzero

/-- The last section of `PFU_timerAdd`, after which the timer is the wheel's and no longer in
the hands of the call. -/
theorem ServiceInv.add (hinv : ServiceInv s due) (hcall : s.adding timer = some .registered)
    {e : Event} (hstep : AddStep s.wheel timer e w) :
    ServiceInv { s with wheel := w, adding := Function.update s.adding timer none }
      (advance due e) := by
  have hne : s.adding timer ≠ none := by
    rw [hcall]
    exact Option.some_ne_none _
  obtain ⟨hlive, -⟩ := hinv.adding timer hne
  obtain ⟨htarget, -, -⟩ := hstep.target
  refine hinv.addStep hstep (fun _ => ?_) hlive rfl rfl (fun x hx => ?_) fun x hpc hdone => ?_
  · by_cases hzero : s.wheel.timerJiffies = 0
    · obtain ⟨hpos, hlt⟩ := hinv.early timer hne hzero
      rw [hzero, dueTick_of_future (Nat.zero_le _) (by rw [Nat.zero_add]; exact hlt)]
      exact hpos
    · exact (Nat.one_le_iff_ne_zero.mpr hzero).trans le_dueTick
  · have hxt : x ≠ timer := by
      intro heq
      rw [heq] at hx
      exact hx (Function.update_self ..)
    refine ⟨hxt, ?_⟩
    have hx' : Function.update s.adding timer none x ≠ none := hx
    rw [Function.update_of_ne hxt] at hx'
    exact hx'
  · rw [htarget, internalAddTimer_pc] at hpc
    refine ⟨hdone, ?_⟩
    rintro rfl
    exact hne (hinv.calling x hpc hdone).2.2

/-- The last section of `reuse_timer`. -/
theorem ServiceInv.readd (hinv : ServiceInv s due) (hpc : s.wheel.pc = .calling timer)
    (hphase : s.phase = .rearming) {e : Event} (hstep : AddStep s.wheel timer e w) :
    ServiceInv { s with wheel := w, phase := .done } (advance due e) := by
  obtain ⟨hlive, hp, ha⟩ := hinv.calling timer hpc (by rw [hphase]; nofun)
  refine hinv.addStep hstep (fun _ => (hinv.late timer hpc).trans le_dueTick) hlive rfl rfl
    (fun x hx => ⟨?_, hx⟩) fun x _ hdone => absurd rfl hdone
  rintro rfl
  exact hx ha

/-- A timer is taken off the wheel, at the tick in which it is due, and is about to be called. -/
theorem ServiceInv.dispatch (hinv : ServiceInv s due) (hpc : s.wheel.pc = .emptying)
    {rest : List TimerPtr} (hfirst : s.wheel.slot 0 (s.wheel.tvecs 0).index = timer :: rest) :
    ServiceInv { s with wheel := s.wheel.detach timer, phase := .testing }
      (advance due (.dispatched timer s.wheel.timerJiffies)) := by
  obtain ⟨hdue, hwheel⟩ := hinv.wheel.dispatch hpc hfirst
  have hp : s.wheel.pending timer = true := by
    by_contra hne
    rw [hinv.wheel.detached (by simpa using hne)] at hdue
    cases hdue
  have hclock := hinv.clock
  unfold Wheel.Clock at hclock
  rw [hpc] at hclock
  have hpending : ∀ x, (s.wheel.detach timer).pending x =
      if x = timer then false else s.wheel.pending x := by
    intro x
    exact Function.update_apply ..
  refine ⟨hwheel, hclock, fun x hx => ?_, fun x hx => ?_, fun x hcall _ => ?_,
    fun x _ => hinv.positive timer _ hdue, positive_advance hinv.positive nofun, hinv.early⟩
  · refine hinv.live x ?_
    rw [show Timers.wheel _ = _ from rfl, hpending] at hx
    split at hx
    · cases hx
    · exact hx
  · obtain ⟨hlive, hpx⟩ := hinv.adding x hx
    refine ⟨hlive, ?_⟩
    rw [show Timers.wheel _ = _ from rfl, hpending, hpx, ite_self]
  · obtain rfl : timer = x := by simpa [Wheel.detach] using hcall
    exact ⟨hinv.live timer hp, Function.update_self .., hinv.adding_none hp⟩

/-- `reuse_timer` with `ETFUNC_RV_REPEAT`. -/
theorem ServiceInv.rearm (hinv : ServiceInv s due) (hpc : s.wheel.pc = .calling t)
    (hphase : s.phase = .running) : ServiceInv (s.rearm t) due := by
  obtain ⟨hlive, hp, ha⟩ := hinv.calling t hpc (by rw [hphase]; nofun)
  have hwheel := hinv.wheel.setExpires hp
    (e := calculateExpireTime s.wheel.jiffies (s.timer t).msec) (Nat.mod_lt _ (Nat.two_pow_pos 64))
  refine ⟨hwheel, hinv.clock, hinv.live, hinv.adding, fun x hcall _ => ?_, hinv.late,
    hinv.positive, fun x hx hzero => ?_⟩
  · exact hinv.calling x hcall (by rw [hphase]; nofun)
  · have hxt : x ≠ t := by
      rintro rfl
      exact hx ha
    show 1 ≤ Function.update s.wheel.expires t _ x ∧ Function.update s.wheel.expires t _ x < 2 ^ 32
    rw [Function.update_of_ne hxt]
    exact hinv.early x hx hzero

/-- The callback is over. -/
theorem ServiceInv.called (hinv : ServiceInv s due) (hpc : s.wheel.pc = .calling t) :
    ServiceInv { s with wheel := s.wheel.goto .emptying } due := by
  have hwaiting : (s.wheel.goto .emptying).waiting = s.wheel.waiting := waiting_called hpc
  have hclock := hinv.clock
  unfold Wheel.Clock at hclock
  rw [hpc] at hclock
  exact ⟨hinv.wheel.goto (by rw [hpc]; rfl) hwaiting, hclock, hinv.live, hinv.adding, nofun, nofun,
    hinv.positive, hinv.early⟩

/-- Deleting a timer marks its item and moves nothing in the wheel. -/
theorem timerDelete_frame (key : Nat) :
    (s.timerDelete key).wheel = s.wheel ∧ (s.timerDelete key).adding = s.adding ∧
    (s.timerDelete key).phase = s.phase ∧ (s.timerDelete key).live = s.live := by
  unfold Timers.timerDelete
  simp only
  split <;> exact ⟨rfl, rfl, rfl, rfl⟩

/-- A new interval is written into the item and moves nothing in the wheel. -/
theorem timerSetMsec_frame (key : Nat) (msec : Int) :
    (s.timerSetMsec key msec).wheel = s.wheel ∧ (s.timerSetMsec key msec).adding = s.adding ∧
    (s.timerSetMsec key msec).phase = s.phase ∧ (s.timerSetMsec key msec).live = s.live := by
  unfold Timers.timerSetMsec
  simp only
  split <;> exact ⟨rfl, rfl, rfl, rfl⟩

/-- A callback that gives its timer up is about to free it. -/
theorem giveUp_frame :
    (s.giveUp t).wheel = s.wheel ∧ (s.giveUp t).adding = s.adding ∧
    (s.giveUp t).phase = .freeing ∧ (s.giveUp t).live = s.live := by
  unfold Timers.giveUp
  split <;> exact ⟨rfl, rfl, rfl, rfl⟩

/-- Every step of the service keeps the invariant and the schedule: what it does to the wheel is
what a single user of the wheel might do. -/
theorem ServiceInv.step (hinv : ServiceInv s due) {e : ApiEvent} (hstep : Step s e s') :
    e.OnSchedule due ∧ ServiceInv s' (apiAdvance due e) := by
  cases hstep with
  | thread step => exact ⟨(hinv.wheel.threadStep step).1, hinv.thread step⟩
  | alloc fresh => exact ⟨trivial, hinv.alloc fresh⟩
  | @register t unlocked call =>
      refine ⟨trivial, hinv.keep rfl (fun x hx => ?_) id fun x hx => Or.inl hx⟩
      by_cases hxt : x = t
      · rw [hxt, call]
        exact Option.some_ne_none _
      · have hx' : Function.update s.adding t (some .registered) x ≠ none := hx
        rwa [Function.update_of_ne hxt] at hx'
  | add call step => exact ⟨(hinv.wheel.addStep step).1, hinv.add call step⟩
  | dispatch at_pc first => exact ⟨(hinv.wheel.dispatch at_pc first).1, hinv.dispatch at_pc first⟩
  | start at_pc at_phase flag =>
      exact ⟨trivial, hinv.keep rfl (fun _ h => h) (fun _ => by rw [at_phase]; nofun)
        fun x => Or.inl⟩
  | skip at_pc at_phase flag =>
      exact ⟨trivial, hinv.keep rfl (fun _ h => h) (fun _ => by rw [at_phase]; nofun)
        fun x => Or.inl⟩
  | rearm at_pc at_phase => exact ⟨trivial, hinv.rearm at_pc at_phase⟩
  | giveUp at_pc at_phase =>
      obtain ⟨hwheel, hadding, -, hlive⟩ := giveUp_frame
      exact ⟨trivial, hinv.keep hwheel (fun x h => by rwa [hadding] at h)
        (fun _ => by rcases at_phase with h | h <;> rw [h] <;> nofun)
        fun x hx => Or.inl (by rwa [hlive])⟩
  | readd at_pc at_phase step =>
      exact ⟨(hinv.wheel.addStep step).1, hinv.readd at_pc at_phase step⟩
  | @free t at_pc at_phase =>
      obtain ⟨hlive, hp, ha⟩ := hinv.calling t at_pc (by rw [at_phase]; nofun)
      refine ⟨trivial, hinv.keep rfl (fun _ h => h) (fun h => absurd rfl h) fun x hx => ?_⟩
      by_cases hxt : x = t
      · subst hxt
        exact Or.inr ⟨hp, ha, rfl⟩
      · exact Or.inl (Finset.mem_erase.mpr ⟨hxt, hx⟩)
  | called at_pc at_phase => exact ⟨trivial, hinv.called at_pc⟩
  | delete unlocked nonzero =>
      obtain ⟨hwheel, hadding, hphase, hlive⟩ := timerDelete_frame _
      exact ⟨trivial, hinv.keep hwheel (fun x h => by rwa [hadding] at h)
        (fun h => by rwa [hphase] at h) fun x hx => Or.inl (by rwa [hlive])⟩
  | setMsec unlocked nonzero =>
      obtain ⟨hwheel, hadding, hphase, hlive⟩ := timerSetMsec_frame _ _
      exact ⟨trivial, hinv.keep hwheel (fun x h => by rwa [hadding] at h)
        (fun h => by rwa [hphase] at h) fun x hx => Or.inl (by rwa [hlive])⟩

theorem ServiceInv.init : ServiceInv timerInit fun _ => none :=
  ⟨Inv.init, Or.inr ⟨rfl, rfl⟩, nofun, fun _ ht => absurd rfl ht, nofun, nofun, nofun,
    fun _ ht => absurd rfl ht⟩

/-! ## A timer that is re-armed -/

/-- The expiry of `t` stands for tick `d`, within reach of the next filing. -/
def Wheel.Awaits (w : Wheel) (t : TimerPtr) (d : Nat) : Prop :=
  w.expires t = d % 2 ^ 64 ∧ w.timerJiffies + w.pc.busy.toNat ≤ d ∧
    d < w.timerJiffies + w.pc.busy.toNat + 2 ^ 32

/-- The way of a timer from `reuse_timer` through the queued list to the
wheel, where it is due in tick `d`. -/
def Armed (s : Timers) (due : TimerPtr → Option Nat) (t : TimerPtr) (d : Nat) : Prop :=
  s.phase = .rearming ∧ s.wheel.pc = .calling t ∧ s.wheel.Awaits t d ∨
  t ∈ s.wheel.waiting ∧ s.wheel.Awaits t d ∨
  due t = some d

/-- Whether a timer is awaited is a matter of its expiry and of the clock of the wheel. -/
theorem Wheel.Awaits.congr (h : s.wheel.Awaits t d) (hexpires : w.expires t = s.wheel.expires t)
    (hnow : w.timerJiffies = s.wheel.timerJiffies) (hbusy : w.pc.busy = s.wheel.pc.busy) :
    w.Awaits t d := by
  unfold Wheel.Awaits
  rw [hexpires, hnow, hbusy]
  exact h

/-- A timer on its way is in nobody's hands. -/
theorem Armed.owned (hinv : ServiceInv s due) (h : Armed s due t d) :
    t ∈ s.live ∧ s.adding t = none := by
  rcases h with ⟨hphase, hpc, -⟩ | ⟨hmem, -⟩ | hdue
  · obtain ⟨hlive, -, ha⟩ := hinv.calling t hpc (by rw [hphase]; nofun)
    exact ⟨hlive, ha⟩
  · have hp := (hinv.wheel.waiting t hmem).2
    exact ⟨hinv.live t hp, hinv.adding_none hp⟩
  · have hp : s.wheel.pending t = true := by
      by_contra hne
      rw [hinv.wheel.detached (by simpa using hne)] at hdue
      cases hdue
    exact ⟨hinv.live t hp, hinv.adding_none hp⟩

/-- A step that leaves the wheel alone. -/
theorem Armed.keep (h : Armed s due t d) (hwheel : s'.wheel = s.wheel)
    (hphase : s.phase = .rearming → s'.phase = .rearming) : Armed s' due t d := by
  unfold Armed
  rw [hwheel]
  exact h.imp_left fun h => ⟨hphase h.1, h.2⟩

/-- The timer thread brings a re-armed timer to its slot: the end of the tick files what was
queued while its callbacks ran. -/
theorem Armed.thread (h : Armed s due t d) (hinv : ServiceInv s due) {e : Event}
    (hstep : ThreadStep s.wheel e w) : Armed { s with wheel := w } (advance due e) t d := by
  rcases h with ⟨-, hpc, -⟩ | ⟨hmem, he, hle, hlt⟩ | hdue
  · exact absurd hpc ((hstep.frame hinv.wheel).2.2.2.1 t)
  · have hempty : s.wheel.pc.busy = false → (∀ rest, s.wheel.pc ≠ .draining rest) → False := by
      intro hbusy hdrain
      have hrunning := waiting_of_not_draining hdrain
      rw [hinv.wheel.stopped hbusy] at hrunning
      rw [hrunning] at hmem
      cases hmem
    -- the filing of another timer does not move the tick that `t` waits for
    have hdrained : ∀ {timer : TimerPtr} {rest : List TimerPtr},
        s.wheel.pc = .draining (timer :: rest) →
          ((s.wheel.internalAddTimer timer).goto (.draining rest)).Awaits t d := by
      intro timer rest hpc
      obtain ⟨hexpires, -, hnow, -, -⟩ := internalAddTimer_frame s.wheel timer
      exact Wheel.Awaits.congr ⟨he, hle, hlt⟩ (congrFun hexpires t) hnow (by rw [hpc]; rfl)
    cases hstep with
    | process at_pc => exact (hempty (by rw [at_pc]; rfl) (by rw [at_pc]; nofun)).elim
    | lock at_pc => exact (hempty (by rw [at_pc]; rfl) (by rw [at_pc]; nofun)).elim
    | beginTick at_pc test =>
        exact (hempty (by rw [at_pc]; rfl) (by rw [at_pc]; nofun)).elim
    | leave at_pc test =>
        exact (hempty (by rw [at_pc]; rfl) (by rw [at_pc]; nofun)).elim
    | @endTick queued at_pc empty busy =>
        have hqueued : s.wheel.waiting = queued := by
          unfold Wheel.waiting
          rw [at_pc, busy]
          rfl
        rw [at_pc] at hle hlt
        exact Or.inr (Or.inl ⟨hqueued ▸ hmem, he, hle, hlt⟩)
    | @drainFiled timer rest at_pc inRange =>
        rw [waiting_of_draining at_pc] at hmem
        rcases List.mem_cons.mp hmem with rfl | hrest
        · refine Or.inr (Or.inr ?_)
          rw [at_pc] at hle hlt
          have hd : dueTick s.wheel.timerJiffies (d % 2 ^ 64) = d :=
            dueTick_of_le hle (hlt.trans (by show _ + 0 + _ < _; omega))
          show Function.update due t (some (dueTick s.wheel.timerJiffies (s.wheel.expires t))) t = _
          rw [Function.update_self, he, hd]
        · exact Or.inr (Or.inl ⟨hrest, hdrained at_pc⟩)
    | @drainUnfiled timer rest at_pc outOfRange =>
        rw [waiting_of_draining at_pc] at hmem
        rcases List.mem_cons.mp hmem with rfl | hrest
        · rw [at_pc] at hle hlt
          -- its expiry is in range
          have hle' : s.wheel.timerJiffies ≤ d := hle
          have hlt' : d < s.wheel.timerJiffies + 2 ^ 32 := hlt
          have hfar := (vecOf_eq_none_iff.mp outOfRange).1
          rw [he, ulongSub_mod hle' (by omega)] at hfar
          omega
        · exact Or.inr (Or.inl ⟨hrest, hdrained at_pc⟩)
    | drained at_pc =>
        rw [waiting_of_draining at_pc] at hmem
        cases hmem
  · refine Or.inr (Or.inr ?_)
    have hon := (hinv.wheel.threadStep hstep).1
    by_cases hmoves : e.moves t = true
    · cases e with
      | filed timer j x =>
          obtain rfl : timer = t := by simpa [Event.moves] using hmoves
          rw [hon.1] at hdue
          cases hdue
      | dispatched timer j => cases hstep
      | _ => cases hmoves
    · rw [advance_of_not_moves (by simpa using hmoves)]
      exact hdue

/-- Another call of `add_timer` leaves a re-armed timer where it is on its way. -/
theorem Armed.addOther (h : Armed s due t d) {e : Event}
    (hstep : AddStep s.wheel timer e w) (hne : t ≠ timer) (hwheel : s'.wheel = w)
    (hphase : s.phase = .rearming → s.wheel.pc = .calling t → s'.phase = .rearming) :
    Armed s' (advance due e) t d := by
  obtain ⟨htarget, hunlocked, -⟩ := hstep.target
  obtain ⟨hexpires, -, hnow, -, hpc⟩ := internalAddTimer_frame s.wheel timer
  rw [← htarget] at hexpires hnow hpc
  have hawaits : s.wheel.Awaits t d → w.Awaits t d := fun haw =>
    haw.congr (congrFun hexpires t) hnow (congrArg Pc.busy hpc)
  have hquiet : e.moves t = false := by
    cases hstep <;> simp [Event.moves, hne.symm]
  unfold Armed
  rw [hwheel, hpc, advance_of_not_moves hquiet]
  rcases h with ⟨hp, hcall, haw⟩ | ⟨hmem, haw⟩ | hdue
  · exact Or.inl ⟨hphase hp hcall, hcall, hawaits haw⟩
  · refine Or.inr (Or.inl ⟨?_, hawaits haw⟩)
    have hold := waiting_of_unlocked hunlocked
    have hnew := waiting_of_unlocked (w := w) (hpc ▸ hunlocked)
    rw [hold] at hmem
    rw [hnew]
    cases hstep with
    | filed _ _ stopped =>
        rw [stopped] at hmem
        cases hmem
    | unfiled _ _ stopped =>
        rw [stopped] at hmem
        cases hmem
    | queued _ _ busy =>
        rw [busy] at hmem
        rw [internalAddTimer_queued busy]
        exact List.mem_append_left _ hmem
  · exact Or.inr (Or.inr hdue)

/-- The re-armed timer is queued, since its callback has made the wheel busy; the end of the
tick will file it. -/
theorem Armed.readd (hinv : ServiceInv s due) (hpc : s.wheel.pc = .calling t)
    (haw : s.wheel.Awaits t d) {e : Event} (hstep : AddStep s.wheel t e w)
    (hwheel : s'.wheel = w) : Armed s' (advance due e) t d := by
  have hbusy : s.wheel.running.isSome = true := by
    rw [hinv.wheel.busy, hpc]
    rfl
  obtain ⟨htarget, hunlocked, -⟩ := hstep.target
  obtain ⟨hexpires, -, hnow, -, hpc'⟩ := internalAddTimer_frame s.wheel t
  rw [← htarget] at hexpires hnow hpc'
  refine Or.inr (Or.inl ⟨?_, ?_⟩)
  · rw [hwheel, waiting_of_unlocked (hpc' ▸ hunlocked)]
    cases hstep with
    | filed _ _ stopped =>
        rw [stopped] at hbusy
        cases hbusy
    | unfiled _ _ stopped =>
        rw [stopped] at hbusy
        cases hbusy
    | queued _ _ busy =>
        rw [internalAddTimer_queued busy]
        exact List.mem_append_right _ (List.mem_singleton.mpr rfl)
  · rw [hwheel]
    exact haw.congr (congrFun hexpires t) hnow (congrArg Pc.busy hpc')

/-- A timer is taken off the wheel.  If it is this one, its tick has come; if it is another, this
one is still on its way. -/
theorem Armed.dispatch (h : Armed s due t d) (hinv : ServiceInv s due) {x : TimerPtr}
    {rest : List TimerPtr} (at_pc : s.wheel.pc = .emptying)
    (first : s.wheel.slot 0 (s.wheel.tvecs 0).index = x :: rest) :
    x ≠ t ∧ Armed { s with wheel := s.wheel.detach x, phase := .testing }
      (Function.update due x none) t d ∨ x = t ∧ s.wheel.timerJiffies = d := by
  have hx := (hinv.wheel.dispatch at_pc first).1
  have hwaiting : (s.wheel.detach x).waiting = s.wheel.waiting := waiting_detach at_pc
  rcases h with ⟨-, hpc, -⟩ | ⟨hmem, haw⟩ | hdue
  · rw [at_pc] at hpc
    cases hpc
  · have hxt : x ≠ t := by
      rintro rfl
      rw [(hinv.wheel.waiting x hmem).1] at hx
      cases hx
    exact Or.inl ⟨hxt, Or.inr (Or.inl ⟨hwaiting ▸ hmem,
      haw.congr rfl rfl (by rw [at_pc]; rfl)⟩)⟩
  · by_cases hxt : x = t
    · subst hxt
      rw [hx] at hdue
      cases hdue
      exact Or.inr ⟨rfl, rfl⟩
    · refine Or.inl ⟨hxt, Or.inr (Or.inr ?_)⟩
      show Function.update due x none t = some d
      rw [Function.update_of_ne (Ne.symm hxt)]
      exact hdue

/-- The end of a callback that wants its timer again queues that timer, and leaves the others on
their way. -/
theorem Armed.addAtEnd (h : Armed s due t d) (hinv : ServiceInv s due) {x : TimerPtr}
    (at_pc : s.wheel.pc = .calling x) {e : Event} (step : AddStep s.wheel x e w)
    (hwheel : s'.wheel = w) : Armed s' (advance due e) t d := by
  by_cases hxt : t = x
  · subst hxt
    rcases h with ⟨-, -, haw⟩ | ⟨hmem, -⟩ | hdue
    · exact Armed.readd hinv at_pc haw step hwheel
    · exact absurd hmem (hinv.wheel.not_waiting step.target.2.2)
    · rw [hinv.wheel.detached step.target.2.2] at hdue
      cases hdue
  · refine h.addOther step hxt hwheel fun _ hcall => ?_
    rw [at_pc] at hcall
    exact absurd (Pc.calling.inj hcall).symm hxt

/-- A timer on its way is dispatched in tick `d` or stays on its way.  The cases follow the
steps of the service; only those of the timer thread bring it forward. -/
theorem Armed.step (h : Armed s due t d) (hinv : ServiceInv s due) {e : ApiEvent}
    (hstep : Step s e s') :
    Armed s' (apiAdvance due e) t d ∧ (∀ j, e ≠ .wheel (.dispatched t j)) ∨
      e = .wheel (.dispatched t d) := by
  obtain ⟨hlive, hadding⟩ := h.owned hinv
  cases hstep with
  | @thread e w step =>
      refine Or.inl ⟨h.thread hinv step, fun j heq => ?_⟩
      cases heq
      cases step
  | @alloc x msec param free fresh =>
      refine Or.inl ⟨?_, nofun⟩
      have hxt : t ≠ x := fun heq => fresh (heq ▸ hlive)
      have hawaits : s.wheel.Awaits t d →
          (s.allocTimerItem x msec param free).wheel.Awaits t d :=
        fun haw => haw.congr (Function.update_of_ne hxt ..) rfl rfl
      exact h.imp (fun ⟨hp, hc, ha⟩ => ⟨hp, hc, hawaits ha⟩)
        (Or.imp_left fun ⟨hm, ha⟩ => ⟨hm, hawaits ha⟩)
  | register unlocked call => exact Or.inl ⟨h.keep rfl id, nofun⟩
  | @add x e w call step =>
      have hxt : t ≠ x := by
        rintro rfl
        rw [call] at hadding
        cases hadding
      refine Or.inl ⟨h.addOther step hxt rfl fun hp _ => hp, fun j heq => ?_⟩
      cases heq
      cases step
  | @dispatch x rest at_pc first =>
      rcases h.dispatch hinv at_pc first with ⟨hxt, harmed⟩ | ⟨rfl, rfl⟩
      · refine Or.inl ⟨harmed, fun j heq => ?_⟩
        cases heq
        exact hxt rfl
      · exact Or.inr rfl
  | start at_pc at_phase flag =>
      exact Or.inl ⟨h.keep rfl (fun hp => by rw [at_phase] at hp; cases hp), nofun⟩
  | skip at_pc at_phase flag =>
      exact Or.inl ⟨h.keep rfl (fun hp => by rw [at_phase] at hp; cases hp), nofun⟩
  | @rearm x at_pc at_phase =>
      refine Or.inl ⟨?_, nofun⟩
      have hx := (hinv.calling x at_pc (by rw [at_phase]; nofun)).2.1
      rcases h with ⟨hp, -, -⟩ | ⟨hmem, haw⟩ | hdue
      · rw [at_phase] at hp
        cases hp
      · have hxt : t ≠ x := by
          rintro rfl
          exact hinv.wheel.not_waiting hx hmem
        exact Or.inr (Or.inl ⟨hmem, haw.congr (Function.update_of_ne hxt ..) rfl rfl⟩)
      · exact Or.inr (Or.inr hdue)
  | @giveUp x at_pc at_phase =>
      refine Or.inl ⟨h.keep giveUp_frame.1 fun hp => ?_, nofun⟩
      rcases at_phase with h | h <;> rw [h] at hp <;> cases hp
  | @readd x e w at_pc at_phase step =>
      refine Or.inl ⟨h.addAtEnd hinv at_pc step rfl, fun j heq => ?_⟩
      cases heq
      cases step
  | free at_pc at_phase =>
      exact Or.inl ⟨h.keep rfl (fun hp => by rw [at_phase] at hp; cases hp), nofun⟩
  | @called x at_pc at_phase =>
      refine Or.inl ⟨?_, nofun⟩
      have hwaiting : (s.wheel.goto .emptying).waiting = s.wheel.waiting := waiting_called at_pc
      rcases h with ⟨hp, -, -⟩ | ⟨hmem, haw⟩ | hdue
      · rw [at_phase] at hp
        cases hp
      · exact Or.inr (Or.inl ⟨hwaiting ▸ hmem, haw.congr rfl rfl (by rw [at_pc]; rfl)⟩)
      · exact Or.inr (Or.inr hdue)
  | delete unlocked nonzero =>
      obtain ⟨hwheel, -, hphase, -⟩ := timerDelete_frame _
      exact Or.inl ⟨h.keep hwheel fun hp => hphase.trans hp, nofun⟩
  | setMsec unlocked nonzero =>
      obtain ⟨hwheel, -, hphase, -⟩ := timerSetMsec_frame _ _
      exact Or.inl ⟨h.keep hwheel fun hp => hphase.trans hp, nofun⟩

/-! ## Histories of the service -/

variable {tr : List ApiEvent}

/-- One more step adds at most one event of the wheel. -/
@[simp] theorem wheelTrace_append (e : ApiEvent) :
    wheelTrace (tr ++ [e]) = wheelTrace tr ++ e.onWheel.toList := by
  unfold wheelTrace
  cases h : e.onWheel <;> simp [h]

/-- A step of the service is a step on the wheel, or leaves it alone.  In this way the results
about the wheel hold of the service. -/
theorem Step.onWheel (hinv : ServiceInv s due) {e : ApiEvent} (hstep : Step s e s') :
    (∃ x, e.onWheel = some x ∧ WheelStep s.wheel x s'.wheel) ∨
      e.onWheel = none ∧ s'.wheel = s.wheel := by
  cases hstep with
  | thread step => exact Or.inl ⟨_, rfl, .thread step⟩
  | @alloc t msec param free fresh =>
      have hp : s.wheel.pending t = false := by
        by_contra hne
        exact fresh (hinv.live t (by simpa using hne))
      have hsame : Function.update s.wheel.pending t false = s.wheel.pending := by
        rw [← hp, Function.update_eq_self]
      have hwheel : (s.allocTimerItem t msec param free).wheel = { s.wheel with
          expires := Function.update s.wheel.expires t
            (calculateExpireTime s.wheel.jiffies msec) } := by
        unfold Timers.allocTimerItem
        rw [hsame]
      refine Or.inl ⟨_, rfl, ?_⟩
      rw [hwheel]
      exact .setExpires hp (Nat.mod_lt _ (Nat.two_pow_pos 64))
  | register unlocked call => exact Or.inr ⟨rfl, rfl⟩
  | add call step => exact Or.inl ⟨_, rfl, .add step⟩
  | dispatch at_pc first => exact Or.inl ⟨_, rfl, .dispatch at_pc first⟩
  | start at_pc at_phase flag => exact Or.inr ⟨rfl, rfl⟩
  | skip at_pc at_phase flag => exact Or.inr ⟨rfl, rfl⟩
  | @rearm t at_pc at_phase =>
      have hp := (hinv.calling t at_pc (by rw [at_phase]; nofun)).2.1
      exact Or.inl ⟨_, rfl, .setExpires hp (Nat.mod_lt _ (Nat.two_pow_pos 64))⟩
  | giveUp at_pc at_phase => exact Or.inr ⟨rfl, giveUp_frame.1⟩
  | readd at_pc at_phase step => exact Or.inl ⟨_, rfl, .add step⟩
  | free at_pc at_phase => exact Or.inr ⟨rfl, rfl⟩
  | called at_pc at_phase => exact Or.inl ⟨_, rfl, .called at_pc⟩
  | delete unlocked nonzero => exact Or.inr ⟨rfl, (timerDelete_frame _).1⟩
  | setMsec unlocked nonzero => exact Or.inr ⟨rfl, (timerSetMsec_frame _ _).1⟩

/-- The due times of the service are those of the wheel's events. -/
theorem apiAdvance_eq (e : ApiEvent) :
    apiAdvance due e = e.onWheel.toList.foldl advance due := by
  cases e <;> rfl

theorem dueAfter_wheelTrace (e : ApiEvent) :
    dueAfter (wheelTrace (tr ++ [e])) = apiAdvance (dueAfter (wheelTrace tr)) e := by
  rw [wheelTrace_append, apiAdvance_eq]
  simp [dueAfter]

/-- The timer that is being called has been taken off the wheel in this tick,
and its callback has begun in it. -/
def Called (tr : List ApiEvent) (s : Timers) : Prop :=
  ∀ t, s.wheel.pc = .calling t → ∃ pre mid,
    tr = pre ++ .wheel (.dispatched t s.wheel.timerJiffies) :: mid ∧
    (∀ j, .wheel (.dispatched t j) ∉ mid) ∧
    (s.phase = .running → .started t s.wheel.timerJiffies ∈ mid)

/-- A step that starts no callback leaves the callback under way the last one that was started. -/
theorem Called.keep (h : Called tr s) {e : ApiEvent}
    (hquiet : ∀ t j, e ≠ .wheel (.dispatched t j))
    (hcalling : ∀ t, s'.wheel.pc = .calling t → s.wheel.pc = .calling t ∧
      s'.wheel.timerJiffies = s.wheel.timerJiffies)
    (hphase : ∀ t, s'.wheel.pc = .calling t → s'.phase = .running →
      s.phase = .running ∨ e = .started t s.wheel.timerJiffies) :
    Called (tr ++ [e]) s' := by
  intro t hpc
  obtain ⟨hold, hnow⟩ := hcalling t hpc
  obtain ⟨pre, mid, rfl, hmid, hstart⟩ := h t hold
  refine ⟨pre, mid ++ [e], by rw [hnow]; simp, fun j hj => ?_, fun hp => ?_⟩
  · rcases List.mem_append.mp hj with hj | hj
    · exact hmid j hj
    · exact hquiet t j (List.mem_singleton.mp hj).symm
  · rw [hnow]
    rcases hphase t hpc hp with hp | rfl
    · exact List.mem_append_left _ (hstart hp)
    · exact List.mem_append_right _ (List.mem_singleton.mpr rfl)

/-- Every callback under way was started at the tick at which its timer was dispatched. -/
theorem Called.step (h : Called tr s) (hinv : ServiceInv s due) {e : ApiEvent}
    (hstep : Step s e s') : Called (tr ++ [e]) s' := by
  have hadd : ∀ {x : TimerPtr} {y : Event} {w : Wheel}, AddStep s.wheel x y w →
      (∀ t j, y ≠ .dispatched t j) ∧ w.pc = s.wheel.pc ∧ w.timerJiffies = s.wheel.timerJiffies := by
    intro x y w step
    obtain ⟨htarget, -⟩ := step.target
    obtain ⟨-, -, hnow, -, hpc⟩ := internalAddTimer_frame s.wheel x
    rw [← htarget] at hnow hpc
    exact ⟨by cases step <;> nofun, hpc, hnow⟩
  cases hstep with
  | thread step => exact fun t hpc => absurd hpc ((step.frame hinv.wheel).2.2.2.2 t)
  | alloc fresh => exact h.keep nofun (fun t hpc => ⟨hpc, rfl⟩) fun _ _ hp => Or.inl hp
  | register unlocked call =>
      exact h.keep nofun (fun t hpc => ⟨hpc, rfl⟩) fun _ _ hp => Or.inl hp
  | add call step =>
      obtain ⟨hquiet, hpc, hnow⟩ := hadd step
      exact h.keep (fun t j heq => hquiet t j (ApiEvent.wheel.inj heq))
        (fun t hcall => ⟨hpc ▸ hcall, hnow⟩) fun _ _ hp => Or.inl hp
  | @dispatch x rest at_pc first =>
      intro t hpc
      obtain rfl : x = t := Pc.calling.inj hpc
      exact ⟨tr, [], rfl, nofun, nofun⟩
  | @start x at_pc at_phase flag =>
      refine h.keep nofun (fun t hpc => ⟨hpc, rfl⟩) fun t hpc _ => Or.inr ?_
      obtain rfl : x = t := Pc.calling.inj (at_pc.symm.trans hpc)
      rfl
  | skip at_pc at_phase flag => exact h.keep nofun (fun t hpc => ⟨hpc, rfl⟩) nofun
  | rearm at_pc at_phase => exact h.keep nofun (fun t hpc => ⟨hpc, rfl⟩) nofun
  | giveUp at_pc at_phase =>
      obtain ⟨hwheel, -, hphase, -⟩ := giveUp_frame
      refine h.keep nofun (fun t hpc => ?_) fun _ _ hp => ?_
      · rw [hwheel] at hpc ⊢
        exact ⟨hpc, rfl⟩
      · rw [hphase] at hp
        cases hp
  | readd at_pc at_phase step =>
      obtain ⟨hquiet, hpc, hnow⟩ := hadd step
      exact h.keep (fun t j heq => hquiet t j (ApiEvent.wheel.inj heq))
        (fun t hcall => ⟨hpc ▸ hcall, hnow⟩) nofun
  | free at_pc at_phase => exact h.keep nofun (fun t hpc => ⟨hpc, rfl⟩) nofun
  | called at_pc at_phase => exact nofun
  | @delete key unlocked nonzero =>
      obtain ⟨hwheel, -, hphase, -⟩ := timerDelete_frame (s := s) key
      refine h.keep nofun (fun t hpc => ?_) fun _ _ hp => Or.inl (hphase.symm.trans hp)
      rw [hwheel] at hpc ⊢
      exact ⟨hpc, rfl⟩
  | @setMsec key msec unlocked nonzero =>
      obtain ⟨hwheel, -, hphase, -⟩ := timerSetMsec_frame (s := s) key msec
      refine h.keep nofun (fun t hpc => ?_) fun _ _ hp => Or.inl (hphase.symm.trans hp)
      rw [hwheel] at hpc ⊢
      exact ⟨hpc, rfl⟩

/-- The run lemma of the service. -/
theorem ServiceInv.run (hrun : Run Step timerInit tr s) :
    ServiceInv s (dueAfter (wheelTrace tr)) ∧ Called tr s ∧
      Run WheelStep initTimervecs (wheelTrace tr) s.wheel := by
  refine hrun.history (fun tr s => ServiceInv s (dueAfter (wheelTrace tr)) ∧ Called tr s ∧
    Run WheelStep initTimervecs (wheelTrace tr) s.wheel) ⟨ServiceInv.init, nofun, Run.nil⟩ ?_
  intro tr s e s' _ ⟨hinv, hcalled, hwheel⟩ hstep
  refine ⟨?_, hcalled.step hinv hstep, ?_⟩
  · rw [dueAfter_wheelTrace]
    exact (hinv.step hstep).2
  · rw [wheelTrace_append]
    rcases hstep.onWheel hinv with ⟨x, he, hx⟩ | ⟨he, hsame⟩
    · rw [he]
      exact hwheel.snoc hx
    · rw [he, hsame]
      simpa using hwheel

/-- The timer is on its way after `reuse_timer`. -/
theorem ServiceInv.armed (hinv : ServiceInv s due) (hpc : s.wheel.pc = .calling t) :
    Armed (s.rearm t) due t (s.wheel.timerJiffies + expireTicks (s.timer t).msec) := by
  obtain ⟨hpos, hlt⟩ := expireTicks_bounds (s.timer t).msec
  refine Or.inl ⟨rfl, hpc, ?_, ?_, ?_⟩
  · show Function.update s.wheel.expires t _ t = _
    rw [Function.update_self, calculateExpireTime, hinv.jiffies_eq hpc]
  · show s.wheel.timerJiffies + s.wheel.pc.busy.toNat ≤ _
    rw [hpc]
    exact Nat.add_le_add_left hpos _
  · show _ < s.wheel.timerJiffies + s.wheel.pc.busy.toNat + 2 ^ 32
    rw [hpc]
    show _ < s.wheel.timerJiffies + 1 + _
    omega

/-- A timer on its way is not overdue. -/
theorem Armed.le (h : Armed s due t d) (hinv : ServiceInv s due) : s.wheel.timerJiffies ≤ d := by
  rcases h with ⟨-, -, -, hle, -⟩ | ⟨-, -, hle, -⟩ | hdue
  · omega
  · omega
  · exact (hinv.wheel.on hdue).2

/-- The dispatches after `reuse_timer` has re-armed a timer. -/
theorem Armed.run (hinv : ServiceInv s due) (h : Armed s due t d) (hrun : Run Step s tr s') :
    (∀ j, .wheel (.dispatched t j) ∉ tr) ∧ s'.wheel.timerJiffies ≤ d ∨
    ∃ mid rest, tr = mid ++ .wheel (.dispatched t d) :: rest ∧
      ∀ j, .wheel (.dispatched t j) ∉ mid := by
  have hall := hrun.history (fun tr s' => ∃ due', ServiceInv s' due' ∧
    ((∀ j, .wheel (.dispatched t j) ∉ tr) ∧ Armed s' due' t d ∨
      ∃ mid rest, tr = mid ++ .wheel (.dispatched t d) :: rest ∧
        ∀ j, .wheel (.dispatched t j) ∉ mid)) ⟨due, hinv, Or.inl ⟨nofun, h⟩⟩ ?_
  · obtain ⟨due', hinv', ⟨hquiet, harmed⟩ | hsplit⟩ := hall
    · exact Or.inl ⟨hquiet, harmed.le hinv'⟩
    · exact Or.inr hsplit
  · rintro tr s e s' - ⟨due', hinv', ⟨hquiet, harmed⟩ | ⟨mid, rest, rfl, hmid⟩⟩ hstep
    · refine ⟨_, (hinv'.step hstep).2, ?_⟩
      rcases harmed.step hinv' hstep with ⟨harmed', hne⟩ | rfl
      · refine Or.inl ⟨fun j hj => ?_, harmed'⟩
        rcases List.mem_append.mp hj with hj | hj
        · exact hquiet j hj
        · exact hne j (List.mem_singleton.mp hj).symm
      · exact Or.inr ⟨tr, [], rfl, hquiet⟩
    · exact ⟨_, (hinv'.step hstep).2, Or.inr ⟨mid, rest ++ [e], by simp, hmid⟩⟩

/-- **Timers are exact.**  On the wheel every timer is dispatched in the tick
it was filed for, or at once if that tick has passed, and only then.  The
service uses the wheel in this way, and a timer that is re-armed with `msec`
after its callback ran in tick `T` is dispatched next in tick
`T + max(1, msec / 50)`. -/
theorem timers_exact :
    (∀ tr w, Run WheelStep initTimervecs tr w → Exact tr w) ∧
    ∀ tr s, Run Step timerInit tr s → Exact (wheelTrace tr) s.wheel ∧
      ∀ pre t msec post, tr = pre ++ .rearmed t msec :: post →
        ∃ tick a mid, pre = a ++ .wheel (.dispatched t tick) :: mid ∧
          (∀ j, .wheel (.dispatched t j) ∉ mid) ∧ .started t tick ∈ mid ∧
          ((∀ j, .wheel (.dispatched t j) ∉ post) ∧
              s.wheel.timerJiffies ≤ tick + max 1 ((msec % 2 ^ 32).toNat / 50) ∨
            ∃ next rest, post = next ++
                .wheel (.dispatched t (tick + max 1 ((msec % 2 ^ 32).toNat / 50))) :: rest ∧
              ∀ j, .wheel (.dispatched t j) ∉ next) := by
  refine ⟨fun tr w hrun => Inv.exact hrun, fun tr s hrun => ?_⟩
  refine ⟨Inv.exact (ServiceInv.run hrun).2.2, ?_⟩
  rintro pre t msec post rfl
  obtain ⟨u, hpre, hlater⟩ := hrun.split
  obtain ⟨v, hrearm, hpost⟩ := hlater.cons_inv
  obtain ⟨hinv, hcalled, -⟩ := ServiceInv.run hpre
  have hticks : ∀ msec, max 1 ((msec % 2 ^ 32).toNat / 50) = expireTicks msec := by
    intro msec
    unfold expireTicks timerTickMsec
    simp only
    split <;> omega
  have hkeep := (hinv.step hrearm).2
  cases hrearm with
  | rearm at_pc at_phase =>
      obtain ⟨a, mid, htr, hmid, hstart⟩ := hcalled t at_pc
      refine ⟨_, a, mid, htr, hmid, hstart at_phase, ?_⟩
      rw [hticks]
      exact Armed.run hkeep (hinv.armed at_pc) hpost

/-- A timer of 120 ms that is filed for tick 2, dispatched, and re-armed. -/
theorem timers_exact_two_ticks : ∃ tr s, Run Step timerInit tr s ∧
    Exact (wheelTrace tr) s.wheel ∧ .wheel (.filed 1 0 2) ∈ tr ∧
    .wheel (.dispatched 1 2) ∈ tr ∧ .rearmed 1 120 ∈ tr := by
  have hrun := Run.nil.snoc (@Step.alloc timerInit 1 120 none false (by decide))
  have hrun := hrun.snoc (@Step.register _ 1 rfl rfl)
  have hrun := hrun.snoc (@Step.add _ 1 _ _ rfl (.filed rfl rfl rfl (by decide)))
  have hrun := hrun.snoc (.thread (.process rfl))
  have hrun := hrun.snoc (.thread (.lock rfl))
  have hrun := hrun.snoc (.thread (.beginTick rfl (by decide)))
  have hrun := hrun.snoc (.thread (.endTick rfl rfl rfl))
  have hrun := hrun.snoc (.thread (.drained rfl))
  have hrun := hrun.snoc (.thread (.beginTick rfl (by decide)))
  have hrun := hrun.snoc (.thread (.endTick rfl rfl rfl))
  have hrun := hrun.snoc (.thread (.drained rfl))
  have hrun := hrun.snoc (.thread (.leave rfl (by decide)))
  have hrun := hrun.snoc (.thread (.process rfl))
  have hrun := hrun.snoc (.thread (.lock rfl))
  have hrun := hrun.snoc (.thread (.beginTick rfl (by decide)))
  have hrun := hrun.snoc (@Step.dispatch _ 1 [] rfl rfl)
  have hrun := hrun.snoc (@Step.start _ 1 rfl rfl rfl)
  have hrun := hrun.snoc (@Step.rearm _ 1 rfl rfl)
  let tr : List ApiEvent := [.wheel .run, .run, .wheel (.filed 1 0 2)] ++
    List.replicate 12 (.wheel .run) ++ [.wheel (.dispatched 1 2), .started 1 2, .rearmed 1 120]
  have hrun : Run Step timerInit tr _ := hrun
  exact ⟨tr, _, hrun, (timers_exact.2 _ _ hrun).1, by decide, by decide, by decide⟩

end Timer

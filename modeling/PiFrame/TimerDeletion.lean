import PiFrame.TimerExactness
import PiFrame.TimerService

/-!
# Deleting a timer that is about to be called

`run_timer_list` gives the mutex up and then evaluates
`timer->fgRemove ? ETFUNC_RV_DONE : fn(param)`.  Between the test and the call
another thread may have `PFU_timerDelete` set the flag and return: the callback
is called after it.  Everywhere else the flag is seen, since it stays until the
timer is freed.

The steps of the library are taken apart here: the test is one step, and the
beginning of the callback is another.
-/

namespace Timer

open Transition

/-- The library, and whether the test of `fgRemove` has let the timer pass and
its callback has not begun. -/
structure Dispatch where
  timers : Timers
  cleared : Bool

/-- What can be seen of a step; an allocation is seen, since it begins another
timer at the address. -/
inductive DispatchLabel
  | alloc (timer : TimerPtr)
  | api (e : ApiEvent)
  deriving DecidableEq

inductive DispatchStep : Dispatch → DispatchLabel → Dispatch → Prop
  | alloc {s : Timers} {cleared : Bool} {t : TimerPtr} {msec : Int} {param : Option Nat}
      {free : Bool} (fresh : t ∉ s.live) :
      DispatchStep ⟨s, cleared⟩ (.alloc t) ⟨s.allocTimerItem t msec param free, cleared⟩
  /-- `fgRemove` is not set. -/
  | pass {s : Timers} {t : TimerPtr} (at_pc : s.wheel.pc = .calling t)
      (at_phase : s.phase = .testing) (flag : (s.timer t).fgRemove = false) :
      DispatchStep ⟨s, false⟩ (.api .run) ⟨s, true⟩
  /-- The callback begins. -/
  | start {s : Timers} {t : TimerPtr} (at_pc : s.wheel.pc = .calling t) :
      DispatchStep ⟨s, true⟩ (.api (.started t s.wheel.timerJiffies))
        ⟨{ s with phase := .running }, false⟩
  | skip {s : Timers} {t : TimerPtr} (at_pc : s.wheel.pc = .calling t)
      (at_phase : s.phase = .testing) (flag : (s.timer t).fgRemove = true) :
      DispatchStep ⟨s, false⟩ (.api .run) ⟨{ s with phase := .removing }, false⟩
  /-- All other steps are those of `Step`. -/
  | other {s s' : Timers} {cleared : Bool} {e : ApiEvent} (step : Step s e s')
      (no_alloc : s'.live ⊆ s.live) (no_test : s.phase = .testing → s'.phase = .testing) :
      DispatchStep ⟨s, cleared⟩ (.api e) ⟨s', cleared⟩

def dispatchInit : Dispatch := ⟨timerInit, false⟩

variable {s s' : Timers} {d d' : Dispatch} {e : ApiEvent} {l : DispatchLabel} {t : TimerPtr}
  {key : Nat} {tr : List DispatchLabel}

/-! ## The steps that were there before -/

/-- While a callback runs, the wheel takes no step. -/
theorem ThreadStep.not_calling {w w' : Wheel} {e : Event} (h : ThreadStep w e w') :
    w.pc ≠ .calling t := by
  cases h with
  | process at_pc => rw [at_pc]; exact Pc.noConfusion
  | lock at_pc => rw [at_pc]; exact Pc.noConfusion
  | beginTick at_pc => rw [at_pc]; exact Pc.noConfusion
  | leave at_pc => rw [at_pc]; exact Pc.noConfusion
  | endTick at_pc => rw [at_pc]; exact Pc.noConfusion
  | drainFiled at_pc => rw [at_pc]; exact Pc.noConfusion
  | drainUnfiled at_pc => rw [at_pc]; exact Pc.noConfusion
  | drained at_pc => rw [at_pc]; exact Pc.noConfusion

/-- Adding a timer does not move the thread of the wheel. -/
theorem AddStep.pc_eq {w w' : Wheel} {e : Event} (h : AddStep w t e w') : w'.pc = w.pc := by
  cases h with
  | filed => exact internalAddTimer_pc w t
  | unfiled => exact internalAddTimer_pc w t
  | queued => exact internalAddTimer_pc w t

/-- `timerDelete` leaves the wheel and the callback under way alone. -/
theorem timerDelete_wheel (s : Timers) (key : Nat) :
    (s.timerDelete key).wheel = s.wheel ∧ (s.timerDelete key).phase = s.phase ∧
      (s.timerDelete key).live = s.live := by
  unfold Timers.timerDelete
  dsimp only
  split <;> exact ⟨rfl, rfl, rfl⟩

/-- `timerSetMsec` leaves the wheel and the callback under way alone. -/
theorem timerSetMsec_wheel (s : Timers) (key : Nat) (msec : Int) :
    (s.timerSetMsec key msec).wheel = s.wheel ∧ (s.timerSetMsec key msec).phase = s.phase ∧
      (s.timerSetMsec key msec).live = s.live := by
  unfold Timers.timerSetMsec
  dsimp only
  split <;> exact ⟨rfl, rfl, rfl⟩

/-- An update that leaves the flag of every timer alone. -/
theorem fgRemove_update {u : TimerPtr} {item : TimerList}
    (hitem : (s.timer u).fgRemove = true → item.fgRemove = true)
    (h : (s.timer t).fgRemove = true) : (Function.update s.timer u item t).fgRemove = true := by
  by_cases htu : t = u
  · subst htu
    rw [Function.update_self]
    exact hitem h
  · rwa [Function.update_of_ne htu]

/-- A flag that is set stays, as long as no timer is allocated.  `timerSetMsec` writes the item,
but not this flag. -/
theorem Step.fgRemove (h : Step s e s') (hlive : s'.live ⊆ s.live)
    (hflag : (s.timer t).fgRemove = true) : (s'.timer t).fgRemove = true := by
  cases h with
  | thread => exact hflag
  | @alloc u msec param free fresh => exact absurd (hlive (Finset.mem_insert_self u _)) fresh
  | @register u => exact fgRemove_update (s := s) id hflag
  | add => exact hflag
  | dispatch => exact hflag
  | start => exact hflag
  | skip => exact hflag
  | rearm => exact hflag
  | giveUp =>
      unfold Timers.giveUp
      split <;> exact hflag
  | readd => exact hflag
  | free => exact hflag
  | called => exact hflag
  | delete =>
      unfold Timers.timerDelete
      dsimp only
      split
      · exact fgRemove_update (fun _ => rfl) hflag
      · exact hflag
  | setMsec =>
      unfold Timers.timerSetMsec
      dsimp only
      split
      · exact fgRemove_update (fun h => h) hflag
      · exact hflag

/-- The thread stays where it is while it is about to call: the steps of the others do not move
it. -/
theorem Step.stays (h : Step s e s') (hpc : s.wheel.pc = .calling t) (hphase : s.phase = .testing)
    (hphase' : s'.phase = .testing) : s'.wheel.pc = .calling t := by
  have hdone : s.phase ≠ .running ∧ s.phase ≠ .removing ∧ s.phase ≠ .rearming ∧
      s.phase ≠ .freeing ∧ s.phase ≠ .done := by
    rw [hphase]
    exact ⟨nofun, nofun, nofun, nofun, nofun⟩
  obtain ⟨hrunning, hremoving, hrearming, hfreeing, hdone⟩ := hdone
  cases h with
  | thread step => exact absurd hpc step.not_calling
  | alloc => exact hpc
  | register => exact hpc
  | add _ step => exact step.pc_eq.trans hpc
  | dispatch at_pc =>
      rw [at_pc] at hpc
      cases hpc
  | start => cases hphase'
  | skip => cases hphase'
  | rearm _ at_phase => exact absurd at_phase hrunning
  | giveUp _ at_phase => exact (at_phase.elim hrunning hremoving).elim
  | readd _ at_phase => exact absurd at_phase hrearming
  | free _ at_phase => exact absurd at_phase hfreeing
  | called _ at_phase => exact absurd at_phase hdone
  | delete => exact (congrArg Wheel.pc (timerDelete_wheel s _).1).trans hpc
  | setMsec => exact (congrArg Wheel.pc (timerSetMsec_wheel s _ _).1).trans hpc

/-- The steps taken apart do what the steps did before: the test of the flag and the call are
one after the other, with nothing in between. -/
theorem Step.apart (h : Step s e s') : ∃ tr, Run DispatchStep ⟨s, false⟩ tr ⟨s', false⟩ := by
  have hother : s'.live ⊆ s.live → (s.phase = .testing → s'.phase = .testing) →
      ∃ tr, Run DispatchStep ⟨s, false⟩ tr ⟨s', false⟩ := fun hlive hphase =>
    ⟨_, Run.single (.other h hlive hphase)⟩
  have hsame := Finset.Subset.refl s.live
  cases h with
  | thread => exact hother hsame id
  | alloc fresh => exact ⟨_, Run.single (.alloc fresh)⟩
  | register => exact hother hsame id
  | add => exact hother hsame id
  | dispatch => exact hother hsame fun _ => rfl
  | start at_pc at_phase flag =>
      exact ⟨_, (Run.single (.pass at_pc at_phase flag)).snoc (.start at_pc)⟩
  | skip at_pc at_phase flag => exact ⟨_, Run.single (.skip at_pc at_phase flag)⟩
  | rearm _ at_phase =>
      refine hother hsame fun hphase => ?_
      rw [hphase] at at_phase
      cases at_phase
  | giveUp _ at_phase =>
      refine hother ?_ fun hphase => ?_
      · unfold Timers.giveUp
        split <;> exact hsame
      · rw [hphase] at at_phase
        rcases at_phase with hne | hne <;> cases hne
  | readd _ at_phase =>
      refine hother hsame fun hphase => ?_
      rw [hphase] at at_phase
      cases at_phase
  | free _ at_phase =>
      refine hother (Finset.erase_subset ..) fun hphase => ?_
      rw [hphase] at at_phase
      cases at_phase
  | called => exact hother hsame id
  | delete =>
      obtain ⟨-, hphase, hlive⟩ := timerDelete_wheel s _
      exact hother (hlive ▸ hsame) fun h => hphase.trans h
  | setMsec =>
      obtain ⟨-, hphase, hlive⟩ := timerSetMsec_wheel s _ _
      exact hother (hlive ▸ hsame) fun h => hphase.trans h

/-! ## The flag -/

/-- While a timer has passed the test, the thread is about to call it. -/
def Orderly (d : Dispatch) : Prop :=
  d.cleared = true → ∃ t, d.timers.wheel.pc = .calling t ∧ d.timers.phase = .testing

/-- Every step leaves the thread with its timer between the test of the flag and the call. -/
theorem Orderly.step (h : Orderly d) (hstep : DispatchStep d l d') : Orderly d' := by
  cases hstep with
  | alloc => exact h
  | pass at_pc at_phase => exact fun _ => ⟨_, at_pc, at_phase⟩
  | start => exact fun hcleared => by cases hcleared
  | skip => exact fun hcleared => by cases hcleared
  | other step no_alloc no_test =>
      intro hcleared
      obtain ⟨t, hpc, hphase⟩ := h hcleared
      exact ⟨t, step.stays hpc hphase (no_test hphase), no_test hphase⟩

/-- In every run, the thread stays with its timer between the test of the flag and the call. -/
theorem orderly_run (hrun : Run DispatchStep dispatchInit tr d) : Orderly d :=
  hrun.invariant Orderly (fun h => by cases h) fun _ _ _ h hstep => h.step hstep

/-- The thread has tested the flag of this timer and is about to call it. -/
def Passed (t : TimerPtr) (d : Dispatch) : Prop :=
  d.cleared = true ∧ d.timers.wheel.pc = .calling t

/-- The timer is marked, and the test is still to come. -/
structure Doomed (t : TimerPtr) (d : Dispatch) : Prop where
  orderly : Orderly d
  flag : (d.timers.timer t).fgRemove = true
  ahead : ¬Passed t d

/-- **Step rule.**  A marked timer is not called.  The test that is still to come finds the
flag, and nothing takes the flag away but a new timer in the same place. -/
theorem Doomed.step (h : Doomed t d) (hstep : DispatchStep d l d') (hl : l ≠ .alloc t) :
    Doomed t d' ∧ ∀ j, l ≠ .api (.started t j) := by
  have horderly := h.orderly.step hstep
  cases hstep with
  | @alloc s cleared u msec param free fresh =>
      have htu : t ≠ u := fun heq => hl (heq ▸ rfl)
      refine ⟨⟨horderly, ?_, h.ahead⟩, fun j => DispatchLabel.noConfusion⟩
      show (Function.update s.timer u _ t).fgRemove = true
      rw [Function.update_of_ne htu]
      exact h.flag
  | pass at_pc at_phase flag =>
      refine ⟨⟨horderly, h.flag, ?_⟩, fun j hj => by cases hj⟩
      rintro ⟨-, hpc⟩
      rw [at_pc] at hpc
      cases hpc
      exact absurd h.flag (by simp [flag])
  | start at_pc =>
      refine ⟨⟨horderly, h.flag, fun hpassed => by cases hpassed.1⟩, fun j hj => ?_⟩
      cases hj
      exact h.ahead ⟨rfl, at_pc⟩
  | skip => exact ⟨⟨horderly, h.flag, fun hpassed => by cases hpassed.1⟩, fun j hj => by cases hj⟩
  | @other s s' cleared e step no_alloc no_test =>
      refine ⟨⟨horderly, step.fgRemove no_alloc h.flag, ?_⟩, ?_⟩
      · rintro ⟨hcleared, hpc⟩
        obtain ⟨u, hu, hphase⟩ := h.orderly hcleared
        have hsame := step.stays hu hphase (no_test hphase)
        rw [hpc] at hsame
        cases hsame
        exact h.ahead ⟨hcleared, hu⟩
      · rintro j ⟨rfl⟩
        cases step with
        | start _ at_phase => cases no_test at_phase

/-- **Run rule.** -/
theorem Doomed.run (h : Doomed t d) (hrun : Run DispatchStep d tr d') (htr : .alloc t ∉ tr) :
    ∀ j, .api (.started t j) ∉ tr := by
  have hall := hrun.history (fun tr u => .alloc t ∉ tr →
    Doomed t u ∧ ∀ j, .api (.started t j) ∉ tr) (fun _ => ⟨h, fun _ => List.not_mem_nil⟩) ?_
  · exact (hall htr).2
  · intro tr u l v _ ih hstep hnone
    rw [List.mem_append, List.mem_singleton, not_or] at hnone
    obtain ⟨hdoomed, hquiet⟩ := ih hnone.1
    obtain ⟨hdoomed', hl⟩ := hdoomed.step hstep (Ne.symm hnone.2)
    refine ⟨hdoomed', fun j => ?_⟩
    rw [List.mem_append, List.mem_singleton, not_or]
    exact ⟨hquiet j, (hl j).symm⟩

/-- **A deletion stops the timer** just when it does not come between the test of
the flag and the beginning of the callback.  An allocation at the address of the
timer begins another timer. -/
theorem deletion_stops_iff (hrun : Run DispatchStep dispatchInit tr d)
    (hdelete : DispatchStep d (.api (.deleted key (some t))) d') :
    (∀ later u, Run DispatchStep d' later u → .alloc t ∉ later →
      ∀ j, .api (.started t j) ∉ later) ↔ ¬Passed t d := by
  have horderly := orderly_run hrun
  cases hdelete with
  | @other s s' cleared _ step no_alloc no_test =>
      generalize hfound : (some t : Option TimerPtr) = found at step
      cases step with
      | delete unlocked nonzero =>
          have hwheel := (timerDelete_wheel s key).1
          constructor
          · rintro hstops ⟨hcleared, hpc⟩
            have hcleared : cleared = true := hcleared
            subst hcleared
            have hpc' : (s.timerDelete key).wheel.pc = .calling t := by
              rw [hwheel]
              exact hpc
            exact hstops _ _ (Run.single (.start hpc')) (by simp) _ (List.mem_singleton_self _)
          · intro hahead later u hlater hnone
            refine Doomed.run ⟨horderly.step (.other (.delete unlocked nonzero) no_alloc no_test),
              ?_, ?_⟩ hlater hnone
            · show ((s.timerDelete key).timer t).fgRemove = true
              unfold Timers.timerDelete
              have hget : (s.touch (s.visited key)).timerGetTimerList key = some t := hfound.symm
              simp only [hget, Function.update_self]
            · rintro ⟨hcleared, hpc⟩
              have hpc : (s.timerDelete key).wheel.pc = .calling t := hpc
              rw [hwheel] at hpc
              exact hahead ⟨hcleared, hpc⟩

/-- A timer that is deleted before its time. -/
theorem deletion_stops_early : ∃ tr d d', Run DispatchStep dispatchInit tr d ∧
    DispatchStep d (.api (.deleted 0x05092014 (some 1))) d' ∧
      ∀ later u, Run DispatchStep d' later u → .alloc 1 ∉ later →
        ∀ j, .api (.started 1 j) ∉ later := by
  have hrun := Run.nil.snoc
    (@DispatchStep.alloc timerInit false 1 50 none false (by decide))
  have hrun := hrun.snoc (.other (@Step.register _ 1 rfl rfl) (Finset.Subset.refl _) id)
  have hdelete := @DispatchStep.other _ _ false _
    (@Step.delete ((timerInit.allocTimerItem 1 50 none false).register 1) 0x05092014 rfl
      (by decide)) (Finset.Subset.refl _) id
  exact ⟨_, _, _, hrun, hdelete, (deletion_stops_iff hrun hdelete).mpr fun h => by cases h.1⟩

/-- The test, the deletion, and then the callback. -/
theorem deleted_and_started : ∃ tr d d' later u, Run DispatchStep dispatchInit tr d ∧
    DispatchStep d (.api (.deleted 0x05092014 (some 1))) d' ∧ Run DispatchStep d' later u ∧
      .alloc 1 ∉ later ∧ .api (.started 1 1) ∈ later := by
  have hsame {α : Type} (l : Finset α) : l ⊆ l := Finset.Subset.refl l
  have hrun := Run.nil.snoc
    (@DispatchStep.alloc timerInit false 1 50 none false (by decide))
  have hrun := hrun.snoc (.other (@Step.register _ 1 rfl rfl) (hsame _) id)
  have hrun := hrun.snoc (.other (@Step.add _ 1 _ _ rfl (.filed rfl rfl rfl (by decide)))
    (hsame _) id)
  have hrun := hrun.snoc (.other (.thread (.process rfl)) (hsame _) id)
  have hrun := hrun.snoc (.other (.thread (.lock rfl)) (hsame _) id)
  have hrun := hrun.snoc (.other (.thread (.beginTick rfl (by decide))) (hsame _) id)
  have hrun := hrun.snoc (.other (.thread (.endTick rfl rfl rfl)) (hsame _) id)
  have hrun := hrun.snoc (.other (.thread (.drained rfl)) (hsame _) id)
  have hrun := hrun.snoc (.other (.thread (.beginTick rfl (by decide))) (hsame _) id)
  have hrun := hrun.snoc (.other (@Step.dispatch _ 1 [] rfl rfl) (hsame _) fun _ => rfl)
  have hrun := hrun.snoc (@DispatchStep.pass _ 1 rfl rfl rfl)
  exact ⟨_, _, _, _, _, hrun, .other (.delete rfl (by decide)) (hsame _) id,
    Run.single (@DispatchStep.start _ 1 rfl), by decide, by decide⟩

end Timer

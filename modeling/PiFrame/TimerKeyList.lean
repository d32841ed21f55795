import PiFrame.TimerRepeat

/-!
# The list of timer keys

Every timer of `lib/util/utilTimer.c` is in two lists, a slot of the wheel and
`timerListsRoot`, where `timerGetTimerList` looks for its key.  `PFU_timerAdd`
registers it there and `reuse_timer` takes it out, unless `fgRemove` is set:
then the timer is freed and stays where it is.

So the entries are the timers that are allocated and not freed as long as
`reuse_timer` never gives up a timer that `PFU_timerDelete` has marked, and no
longer.
-/

namespace Timer

open Transition

/-- `reuse_timer` has done with the timer and is about to free it. -/
def Timers.GivenUp (s : Timers) (t : TimerPtr) : Prop :=
  s.wheel.pc = .calling t ∧ s.phase = .freeing

/-- The entries of the key list are the timers that are allocated, those apart
that `PFU_timerAdd` has not registered yet and the one that `reuse_timer` is
freeing.  No lookup comes to another one, or finds it. -/
structure Timers.KeyListLive (s : Timers) : Prop where
  entries : ∀ t, t ∈ s.timerListsRoot ↔
    t ∈ s.live ∧ s.adding t ≠ some .allocated ∧ ¬ s.GivenUp t
  quiet : (∀ t, s.adding t ≠ some .allocated) → s.phase ≠ .freeing →
    ∀ t, t ∈ s.timerListsRoot ↔ t ∈ s.live
  visits : ∀ key, ∀ t ∈ s.visited key, t ∈ s.live
  found : ∀ key t, s.timerGetTimerList key = some t → t ∈ s.live ∧ ¬ s.GivenUp t
  sane : s.fault = false

/-- A timer that `reuse_timer` gives up is not marked. -/
def Timers.Unmarked (s : Timers) (e : ApiEvent) : Prop :=
  ∀ t param, e = .finished t param → (s.timer t).fgRemove = false

def UnmarkedStep (s : Timers) (e : ApiEvent) (s' : Timers) : Prop :=
  Step s e s' ∧ s.Unmarked e

/-- What the key list keeps.  `busy` says when the timer thread has a timer. -/
structure KeyList (s : Timers) : Prop where
  nodup : s.timerListsRoot.Nodup
  entries : ∀ t, t ∈ s.timerListsRoot ↔
    t ∈ s.live ∧ s.adding t ≠ some .allocated ∧ ¬ s.GivenUp t
  busy : s.phase ≠ .done → ∃ t, s.wheel.pc = .calling t
  sane : s.fault = false

variable {s s' : Timers} {t x : TimerPtr} {due : TimerPtr → Option Nat} {w : Wheel}

/-! ## What is looked at -/

/-- Walking over items that are there is no fault. -/
theorem touch_of_live {l : List TimerPtr} (hl : ∀ t ∈ l, t ∈ s.live) : s.touch l = s := by
  have hany : l.any (fun t => decide (t ∉ s.live)) = false := by
    rw [List.any_eq_false]
    intro t ht
    simp [hl t ht]
  rw [Timers.touch, hany, Bool.or_false]

theorem KeyList.live (hk : KeyList s) (ht : t ∈ s.timerListsRoot) : t ∈ s.live :=
  ((hk.entries t).mp ht).1

theorem mem_of_visited {key : Nat} (ht : t ∈ s.visited key) : t ∈ s.timerListsRoot := by
  rcases List.mem_append.mp ht with ht | ht
  · exact (List.takeWhile_prefix _).subset ht
  · exact List.mem_of_find?_eq_some (Option.mem_toList.mp ht)

theorem mem_of_neighbours (hx : x ∈ s.neighbours t) : x ∈ s.timerListsRoot := by
  rcases List.mem_append.mp hx with hx | hx
  · have hmem := List.mem_of_getLast? (Option.mem_toList.mp hx)
    exact (List.takeWhile_prefix _).subset hmem
  · have hmem := List.mem_of_mem_head? (Option.mem_toList.mp hx)
    exact (List.dropWhile_suffix _).subset (List.mem_of_mem_drop hmem)

/-- The invariant is enough for every walk to be safe. -/
theorem KeyList.keyListLive (hk : KeyList s) : s.KeyListLive := by
  refine ⟨hk.entries, fun hadding hphase t => ?_, fun key t ht => hk.live (mem_of_visited ht),
    fun key t ht => ?_, hk.sane⟩
  · rw [hk.entries]
    exact and_iff_left ⟨hadding t, fun hgiven => hphase hgiven.2⟩
  · obtain ⟨hlive, -, hgiven⟩ := (hk.entries t).mp (List.mem_of_find?_eq_some ht)
    exact ⟨hlive, hgiven⟩

/-! ## Steps -/

/-- Nothing is registered, taken out or given up. -/
theorem KeyList.keep (hk : KeyList s) (hlist : s'.timerListsRoot = s.timerListsRoot)
    (hlive : s'.live = s.live)
    (hadding : ∀ t, s'.adding t = some .allocated ↔ s.adding t = some .allocated)
    (hbefore : s.phase ≠ .freeing) (hafter : s'.phase ≠ .freeing)
    (hbusy : s'.phase ≠ .done → ∃ t, s'.wheel.pc = .calling t) (hsane : s'.fault = s.fault) :
    KeyList s' := by
  refine ⟨hlist ▸ hk.nodup, fun t => ?_, hbusy, hsane.trans hk.sane⟩
  rw [hlist, hk.entries, hlive, Ne, Ne, hadding]
  have hgiven : ¬ s.GivenUp t := fun h => hbefore h.2
  have hgiven' : ¬ s'.GivenUp t := fun h => hafter h.2
  simp only [hgiven, hgiven']

theorem KeyList.thread (hk : KeyList s) (hinv : ServiceInv s due) {e : Event}
    (hstep : ThreadStep s.wheel e w) : KeyList { s with wheel := w } := by
  obtain ⟨-, -, -, hbefore, -⟩ := hstep.frame hinv.wheel
  have hdone : s.phase = .done := by
    by_contra hne
    obtain ⟨t, ht⟩ := hk.busy hne
    exact hbefore t ht
  have hphase : s.phase ≠ .freeing := by
    rw [hdone]
    exact Phase.noConfusion
  exact hk.keep rfl rfl (fun t => Iff.rfl) hphase hphase (fun hne => absurd hdone hne) rfl

theorem KeyList.alloc (hk : KeyList s) (hfresh : t ∉ s.live) {msec : Int} {param : Option Nat}
    {free : Bool} : KeyList (s.allocTimerItem t msec param free) := by
  have hout : t ∉ s.timerListsRoot := fun ht => hfresh (hk.live ht)
  refine ⟨hk.nodup, fun x => ?_, hk.busy, ?_⟩
  · show x ∈ s.timerListsRoot ↔ x ∈ insert t s.live ∧
      Function.update s.adding t (some .allocated) x ≠ some .allocated ∧ ¬ s.GivenUp x
    by_cases hx : x = t
    · subst hx
      simp [hout]
    · rw [Function.update_of_ne hx, hk.entries]
      simp [hx]
  · show (s.fault || decide (t ∈ s.timerListsRoot)) = false
    simp [hk.sane, hout]

/-- An item that is registered is there, and is new in the list: it has been allocated by the
call, which has not registered it before. -/
theorem KeyList.register (hk : KeyList s) (hinv : ServiceInv s due)
    (hcall : s.adding t = some .allocated) : KeyList (s.register t) := by
  have hlive : t ∈ s.live := (hinv.adding t (by rw [hcall]; exact Option.some_ne_none _)).1
  have hout : t ∉ s.timerListsRoot := fun ht => ((hk.entries t).mp ht).2.1 hcall
  have hgiven : ¬ s.GivenUp t := by
    rintro ⟨hpc, hphase⟩
    have hnone := (hinv.calling t hpc (by rw [hphase]; exact Phase.noConfusion)).2.2
    rw [hcall] at hnone
    cases hnone
  have hhead : ∀ x ∈ s.timerListsRoot.head?.toList, x ∈ s.live :=
    fun x hx => hk.live (List.mem_of_mem_head? (Option.mem_toList.mp hx))
  refine ⟨List.nodup_cons.mpr ⟨hout, hk.nodup⟩, fun x => ?_, hk.busy, ?_⟩
  · show x ∈ t :: s.timerListsRoot ↔ x ∈ s.live ∧
      Function.update s.adding t (some .registered) x ≠ some .allocated ∧ ¬ s.GivenUp x
    by_cases hx : x = t
    · subst hx
      simp [hlive, hgiven]
    · rw [Function.update_of_ne hx, ← hk.entries]
      simp [hx]
  · have hsame : (s.touch s.timerListsRoot.head?.toList).fault = s.fault := by
      rw [touch_of_live hhead]
    exact hsame.trans hk.sane

/-- `add_timer` changes the wheel only. -/
theorem KeyList.add (hk : KeyList s) (hpc : w.pc = s.wheel.pc)
    (hcall : s.adding t ≠ some .allocated) :
    KeyList { s with wheel := w, adding := Function.update s.adding t none } := by
  refine ⟨hk.nodup, fun x => ?_, fun hne => ?_, hk.sane⟩
  · show x ∈ s.timerListsRoot ↔ x ∈ s.live ∧
      Function.update s.adding t none x ≠ some .allocated ∧
        ¬ (w.pc = .calling x ∧ s.phase = .freeing)
    rw [hk.entries, Timers.GivenUp, hpc]
    by_cases hx : x = t
    · subst hx
      simp [hcall]
    · rw [Function.update_of_ne hx]
  · obtain ⟨x, hx⟩ := hk.busy hne
    exact ⟨x, hpc.trans hx⟩

/-- The locked section of `reuse_timer` that takes the timer out. -/
theorem KeyList.giveUp (hk : KeyList s) (hpc : s.wheel.pc = .calling t)
    (hphase : s.phase ≠ .freeing) (hflag : (s.timer t).fgRemove = false) :
    KeyList (s.giveUp t) := by
  have htouch : s.touch (s.neighbours t) = s :=
    touch_of_live fun x hx => hk.live (mem_of_neighbours hx)
  rw [Timers.giveUp, hflag, if_neg Bool.false_ne_true, htouch]
  refine ⟨hk.nodup.erase t, fun x => ?_, fun _ => ⟨t, hpc⟩, hk.sane⟩
  show x ∈ s.timerListsRoot.erase t ↔ x ∈ s.live ∧ s.adding x ≠ some .allocated ∧
    ¬ (s.wheel.pc = .calling x ∧ Phase.freeing = .freeing)
  have hgiven : ¬ s.GivenUp x := fun h => hphase h.2
  rw [hk.nodup.mem_erase_iff, hk.entries, hpc]
  by_cases hx : x = t
  · simp [hx]
  · simp [hx, Ne.symm hx, hgiven]

/-- The item that is freed has left the list before. -/
theorem KeyList.free (hk : KeyList s) (hpc : s.wheel.pc = .calling t)
    (hphase : s.phase = .freeing) :
    KeyList { s with live := s.live.erase t, phase := .done } := by
  refine ⟨hk.nodup, fun x => ?_, fun hne => absurd rfl hne, hk.sane⟩
  show x ∈ s.timerListsRoot ↔ x ∈ s.live.erase t ∧ s.adding x ≠ some .allocated ∧
    ¬ (s.wheel.pc = .calling x ∧ Phase.done = .freeing)
  rw [hk.entries, Timers.GivenUp, hpc, hphase, Finset.mem_erase]
  by_cases hx : x = t
  · simp [hx]
  · simp [hx, Ne.symm hx]

/-- A lookup may look at all it comes to, and what is then stored in a timer
does not matter. -/
theorem KeyList.timerDelete (hk : KeyList s) (key : Nat) : KeyList (s.timerDelete key) := by
  have htouch : s.touch (s.visited key) = s :=
    touch_of_live fun x hx => hk.live (mem_of_visited hx)
  rw [Timers.timerDelete, htouch]
  simp only
  split <;> exact ⟨hk.nodup, hk.entries, hk.busy, hk.sane⟩

/-- A new interval is written into an item of the list. -/
theorem KeyList.timerSetMsec (hk : KeyList s) (key : Nat) (msec : Int) :
    KeyList (s.timerSetMsec key msec) := by
  have htouch : s.touch (s.visited key) = s :=
    touch_of_live fun x hx => hk.live (mem_of_visited hx)
  rw [Timers.timerSetMsec, htouch]
  simp only
  split <;> exact ⟨hk.nodup, hk.entries, hk.busy, hk.sane⟩

/-- Every step that marks nothing keeps the list sound.  Items leave memory only after they have
left the list. -/
theorem KeyList.step (hk : KeyList s) (hinv : ServiceInv s due) {e : ApiEvent}
    (hstep : UnmarkedStep s e s') : KeyList s' := by
  obtain ⟨hstep, hunmarked⟩ := hstep
  cases hstep with
  | thread step => exact hk.thread hinv step
  | alloc fresh => exact hk.alloc fresh
  | register unlocked call => exact hk.register hinv call
  | add call step =>
      obtain ⟨rfl, -, -⟩ := step.target
      apply hk.add (internalAddTimer_frame _ _).2.2.2.2
      rw [call]
      simp
  | dispatch at_pc first =>
      have hdone : s.phase = .done := by
        by_contra hne
        obtain ⟨x, hx⟩ := hk.busy hne
        cases at_pc.symm.trans hx
      exact hk.keep rfl rfl (fun t => Iff.rfl) (by rw [hdone]; exact Phase.noConfusion)
        Phase.noConfusion (fun _ => ⟨_, rfl⟩) rfl
  | start at_pc at_phase flag =>
      exact hk.keep rfl rfl (fun t => Iff.rfl) (by rw [at_phase]; exact Phase.noConfusion)
        Phase.noConfusion (fun _ => ⟨_, at_pc⟩) rfl
  | skip at_pc at_phase flag =>
      exact hk.keep rfl rfl (fun t => Iff.rfl) (by rw [at_phase]; exact Phase.noConfusion)
        Phase.noConfusion (fun _ => ⟨_, at_pc⟩) rfl
  | rearm at_pc at_phase =>
      exact hk.keep rfl rfl (fun t => Iff.rfl) (by rw [at_phase]; exact Phase.noConfusion)
        Phase.noConfusion (fun _ => ⟨_, at_pc⟩) rfl
  | giveUp at_pc at_phase =>
      apply hk.giveUp at_pc ?_ (hunmarked _ _ rfl)
      rcases at_phase with h | h <;> rw [h] <;> exact Phase.noConfusion
  | readd at_pc at_phase step =>
      exact hk.keep rfl rfl (fun t => Iff.rfl) (by rw [at_phase]; exact Phase.noConfusion)
        Phase.noConfusion (fun hne => absurd rfl hne) rfl
  | free at_pc at_phase => exact hk.free at_pc at_phase
  | called at_pc at_phase =>
      have hphase : s.phase ≠ .freeing := by
        rw [at_phase]
        exact Phase.noConfusion
      exact hk.keep rfl rfl (fun t => Iff.rfl) hphase hphase (fun hne => absurd at_phase hne) rfl
  | delete unlocked nonzero => exact hk.timerDelete _
  | setMsec unlocked nonzero => exact hk.timerSetMsec _ _

theorem KeyList.init : KeyList timerInit := by
  refine ⟨List.nodup_nil, fun t => ?_, fun hne => absurd rfl hne, rfl⟩
  simp [timerInit]

/-! ## Runs -/

/-- The list is sound in every run without a deletion mark. -/
theorem KeyList.run {tr : List ApiEvent} (hrun : Run UnmarkedStep timerInit tr s) : KeyList s := by
  have hboth := hrun.invariant (fun s => KeyList s ∧ ∃ due, ServiceInv s due)
    ⟨KeyList.init, _, ServiceInv.init⟩ ?_
  · exact hboth.1
  · rintro s e s' ⟨hk, due, hinv⟩ hstep
    exact ⟨hk.step hinv hstep, _, (hinv.step hstep.1).2⟩

/-- **The key list.**  In every run in which `reuse_timer` gives up no marked
timer, the entries of the key list are the timers that are allocated and not
freed, and no lookup comes to a freed one.  The first step that breaks this is
the first one that gives up a marked timer. -/
theorem key_list_live {tr : List ApiEvent} (hrun : Run UnmarkedStep timerInit tr s) :
    s.KeyListLive ∧ ∀ e s', Step s e s' → (s'.KeyListLive ↔ s.Unmarked e) := by
  have hk := KeyList.run hrun
  refine ⟨hk.keyListLive, fun e s' hstep => ⟨fun hlive => ?_, fun hunmarked => ?_⟩⟩
  · rintro t param rfl
    by_contra hflag
    have hmarked : (s.timer t).fgRemove = true := by simpa using hflag
    cases hstep with
    | giveUp at_pc at_phase =>
        obtain ⟨due, hinv⟩ : ∃ due, ServiceInv s due :=
          ⟨_, (ServiceInv.run (hrun.mono fun _ _ _ h => h.1)).1⟩
        have hphase : s.phase ≠ .done ∧ s.phase ≠ .freeing := by
          rcases at_phase with h | h <;> rw [h] <;> simp
        obtain ⟨hmem, -, hadding⟩ := hinv.calling t at_pc hphase.1
        have hlisted : t ∈ s.timerListsRoot := by
          rw [hk.entries, hadding]
          exact ⟨hmem, by simp, fun hgiven => hphase.2 hgiven.2⟩
        -- it is still in the list when it is about to be freed
        rw [Timers.giveUp, if_pos hmarked] at hlive
        exact ((hlive.entries t).mp hlisted).2.2 ⟨at_pc, rfl⟩
  · exact (KeyList.run (hrun.snoc ⟨hstep, hunmarked⟩)).keyListLive

/-- A timer of 50 ms that is called once and freed. -/
theorem key_list_live_one_timer : ∃ tr s, Run UnmarkedStep timerInit tr s ∧
    .started 1 1 ∈ tr ∧ s.timerListsRoot = [] ∧ s.live = ∅ ∧ s.KeyListLive := by
  have hrun : Run UnmarkedStep timerInit [] _ := Run.nil
  have hrun := hrun.snoc ⟨@Step.alloc timerInit 1 50 none false (by decide), fun _ _ => nofun⟩
  have hrun := hrun.snoc ⟨@Step.register _ 1 rfl rfl, fun _ _ => nofun⟩
  have hrun := hrun.snoc ⟨@Step.add _ 1 _ _ rfl (.filed rfl rfl rfl (by decide)), fun _ _ => nofun⟩
  have hrun := hrun.snoc ⟨.thread (.process rfl), fun _ _ => nofun⟩
  have hrun := hrun.snoc ⟨.thread (.lock rfl), fun _ _ => nofun⟩
  have hrun := hrun.snoc ⟨.thread (.beginTick rfl (by decide)), fun _ _ => nofun⟩
  have hrun := hrun.snoc ⟨.thread (.endTick rfl rfl rfl), fun _ _ => nofun⟩
  have hrun := hrun.snoc ⟨.thread (.drained rfl), fun _ _ => nofun⟩
  have hrun := hrun.snoc ⟨.thread (.beginTick rfl (by decide)), fun _ _ => nofun⟩
  have hrun := hrun.snoc ⟨@Step.dispatch _ 1 [] rfl rfl, fun _ _ => nofun⟩
  have hrun := hrun.snoc ⟨@Step.start _ 1 rfl rfl rfl, fun _ _ => nofun⟩
  have hrun := hrun.snoc ⟨@Step.giveUp _ 1 rfl (.inl rfl), fun _ _ h => by cases h; rfl⟩
  have hrun := hrun.snoc ⟨@Step.free _ 1 rfl rfl, fun _ _ => nofun⟩
  exact ⟨_, _, hrun, by decide, rfl, rfl, (key_list_live hrun).1⟩

/-- A timer that was deleted is freed and stays in the key list, where the next
lookup comes to it. -/
theorem deleted_timer_stays : ∃ tr s, Run Step timerInit tr s ∧
    (∀ t, s.adding t ≠ some .allocated) ∧ s.phase = .done ∧
      s.timerListsRoot = [1] ∧ s.live = ∅ ∧ s.fault = true ∧ ¬ s.KeyListLive := by
  have hrun := Run.nil.snoc (@Step.alloc timerInit 1 50 none false (by decide))
  have hrun := hrun.snoc (@Step.register _ 1 rfl rfl)
  have hrun := hrun.snoc (@Step.add _ 1 _ _ rfl (.filed rfl rfl rfl (by decide)))
  have hrun := hrun.snoc (@Step.delete _ 0x05092014 rfl (by decide))
  have hrun := hrun.snoc (.thread (.process rfl))
  have hrun := hrun.snoc (.thread (.lock rfl))
  have hrun := hrun.snoc (.thread (.beginTick rfl (by decide)))
  have hrun := hrun.snoc (.thread (.endTick rfl rfl rfl))
  have hrun := hrun.snoc (.thread (.drained rfl))
  have hrun := hrun.snoc (.thread (.beginTick rfl (by decide)))
  have hrun := hrun.snoc (@Step.dispatch _ 1 [] rfl rfl)
  have hrun := hrun.snoc (@Step.skip _ 1 rfl rfl rfl)
  have hrun := hrun.snoc (@Step.giveUp _ 1 rfl (.inr rfl))
  have hrun := hrun.snoc (@Step.free _ 1 rfl rfl)
  have hrun := hrun.snoc (@Step.delete _ 7 rfl (by decide))
  refine ⟨_, _, hrun, fun t => ?_, rfl, rfl, rfl, rfl, fun hlive => ?_⟩
  · show Function.update (Function.update (Function.update (fun _ => none) 1 (some .allocated)) 1
      (some .registered)) 1 none t ≠ some AddCall.allocated
    by_cases ht : t = 1
    · simp [ht]
    · simp [ht]
  · have hsane := hlive.sane
    cases hsane

end Timer

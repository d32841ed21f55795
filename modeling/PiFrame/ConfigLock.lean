import Mathlib.Data.List.Count
import Mathlib.Logic.Function.Basic
import Mathlib.Tactic.Linarith
import PiFrame.Transition

/-!
# The lock of the configuration

Readers and the config service share one System V semaphore: a reader takes 1, the
service takes `SEM_MAX_COUNT`, and what a process has taken is given back when it
dies.  The service writes the shared configuration under the lock, except in
`configInit`, which clears and fills it while readers may hold the lock.
`readers_hold_stable` is about the runs in which it does not.
-/

namespace ConfigLock

open Transition

def semMaxCount : Int := 64

/-- The largest value of a semaphore. -/
def semvmx : Int := 32767

/-- Where the config service stands. -/
inductive Phase
  | down
  /-- In `configInit`, behind the `memset`. -/
  | cleared
  /-- In `semaInit`, between `semget` and `semctl`. -/
  | created
  /-- In `configInit`, behind `semaInit`. -/
  | loading
  | up
  /-- Between `semaLock` and `semaUnlock`. -/
  | locked
  deriving DecidableEq

/-- The shared memory, the semaphore and the processes. -/
structure State (Client Memory : Type*) where
  memory : Memory
  /-- The value of the semaphore, once there is one. -/
  sem : Option Int
  /-- What the kernel gives back when a client dies. -/
  undo : Client → Int
  serviceUndo : Int
  phase : Phase
  /-- The clients between `PFConfigGet` and `PFConfigPut`, once for each `PFConfigGet`. -/
  holders : List Client

variable {Client Memory : Type*} [DecidableEq Client]

inductive Event (Client Memory : Type*)
  | start
  | semget
  | semctl
  | load (memory : Memory)
  | ready
  | semaLock
  | write (memory : Memory)
  | semaUnlock
  | stop
  | get (p : Client)
  | put (p : Client)
  | die (p : Client)

/-- What the end of a process does to the value of the semaphore. -/
def giveBack (value undo : Int) : Int := max 0 (min (value + undo) semvmx)

/-- The steps of the processes.  A `semop` that would make the value negative blocks:
it is no step. -/
inductive ConfigStep (zeroed : Memory) :
    State Client Memory → Event Client Memory → State Client Memory → Prop
  /-- `configInit` maps the memory and clears it. -/
  | start {s : State Client Memory} (hphase : s.phase = .down) :
      ConfigStep zeroed s .start { s with phase := .cleared, memory := zeroed }
  /-- `semget` in `semaInit`: the semaphore is made, with value 0, or found. -/
  | create {s : State Client Memory} (hphase : s.phase = .cleared) (hsem : s.sem = none) :
      ConfigStep zeroed s .semget { s with phase := .created, sem := some 0 }
  | attach {s : State Client Memory} {value : Int} (hphase : s.phase = .cleared)
      (hsem : s.sem = some value) : ConfigStep zeroed s .semget { s with phase := .loading }
  /-- `SETVAL`, which also forgets what is to be undone. -/
  | semctl {s : State Client Memory} (hphase : s.phase = .created) :
      ConfigStep zeroed s .semctl
        { s with phase := .loading, sem := some semMaxCount, undo := fun _ => 0, serviceUndo := 0 }
  /-- `baseInit`, `dbInit` and the end of `configInit` write into the memory. -/
  | load {s : State Client Memory} (hphase : s.phase = .loading) (memory : Memory) :
      ConfigStep zeroed s (.load memory) { s with memory := memory }
  | ready {s : State Client Memory} (hphase : s.phase = .loading) :
      ConfigStep zeroed s .ready { s with phase := .up }
  | semaLock {s : State Client Memory} {value : Int} (hphase : s.phase = .up)
      (hsem : s.sem = some value) (hvalue : semMaxCount ≤ value) :
      ConfigStep zeroed s .semaLock
        { s with
          phase := .locked
          sem := some (value - semMaxCount)
          serviceUndo := s.serviceUndo + semMaxCount }
  /-- What is done between `configGet` and `configPut`. -/
  | write {s : State Client Memory} (hphase : s.phase = .locked) (memory : Memory) :
      ConfigStep zeroed s (.write memory) { s with memory := memory }
  | semaUnlock {s : State Client Memory} {value : Int} (hphase : s.phase = .locked)
      (hsem : s.sem = some value) :
      ConfigStep zeroed s .semaUnlock
        { s with
          phase := .up
          sem := some (value + semMaxCount)
          serviceUndo := s.serviceUndo - semMaxCount }
  /-- The service ends or is killed, wherever it stands. -/
  | stop {s : State Client Memory} (hphase : s.phase ≠ .down) :
      ConfigStep zeroed s .stop
        { s with
          phase := .down
          sem := s.sem.map fun value => giveBack value s.serviceUndo
          serviceUndo := 0 }
  | get {s : State Client Memory} {value : Int} (p : Client) (hsem : s.sem = some value)
      (hvalue : 1 ≤ value) :
      ConfigStep zeroed s (.get p)
        { s with
          sem := some (value - 1)
          undo := Function.update s.undo p (s.undo p + 1)
          holders := p :: s.holders }
  | put {s : State Client Memory} {value : Int} (p : Client) (hsem : s.sem = some value)
      (hheld : p ∈ s.holders) :
      ConfigStep zeroed s (.put p)
        { s with
          sem := some (value + 1)
          undo := Function.update s.undo p (s.undo p - 1)
          holders := s.holders.erase p }
  | die {s : State Client Memory} (p : Client) :
      ConfigStep zeroed s (.die p)
        { s with
          sem := s.sem.map fun value => giveBack value (s.undo p)
          undo := Function.update s.undo p 0
          holders := s.holders.filter (· ≠ p) }

/-- Nothing runs yet, and there is no semaphore. -/
def initial (memory : Memory) : State Client Memory where
  memory := memory
  sem := none
  undo := fun _ => 0
  serviceUndo := 0
  phase := .down
  holders := []

/-- The step is none by which `configInit` changes the memory of a reader, and none
that kills the service between `semget` and `semctl`. -/
def Orderly (s : State Client Memory) (e : Event Client Memory) (t : State Client Memory) : Prop :=
  match e with
  | .start | .load _ => s.holders = [] ∨ t.memory = s.memory
  | .stop => s.phase ≠ .created
  | _ => True

def OrderlyStep (zeroed : Memory) (s : State Client Memory) (e : Event Client Memory)
    (t : State Client Memory) : Prop :=
  ConfigStep zeroed s e t ∧ Orderly s e t

/-- What the service has taken. -/
def State.writers (s : State Client Memory) : Int := if s.phase = .locked then 1 else 0

omit [DecidableEq Client] in
/-- What the writers have taken of the semaphore is not negative. -/
theorem State.taken_nonneg (s : State Client Memory) : 0 ≤ semMaxCount * s.writers := by
  unfold State.writers
  split <;> decide

/-! ## The invariant -/

structure Inv (s : State Client Memory) : Prop where
  undo : ∀ p, s.undo p = s.holders.count p
  serviceUndo : s.serviceUndo = semMaxCount * s.writers
  absent : s.sem = none → s.holders = [] ∧ (s.phase = .down ∨ s.phase = .cleared)
  created : s.phase = .created → s.sem = some 0 ∧ s.holders = []
  value : ∀ v, s.sem = some v → s.phase ≠ .created →
    0 ≤ v ∧ v = semMaxCount - s.holders.length - semMaxCount * s.writers

section Steps

variable {zeroed : Memory} {s t : State Client Memory}

/-- The entries of one process and the rest: what is taken out of the list is as much as is
counted in it. -/
theorem length_filter_ne (p : Client) (holders : List Client) :
    (holders.filter (· ≠ p)).length + holders.count p = holders.length := by
  induction holders with
  | nil => rfl
  | cons q rest ih =>
      by_cases hq : q = p
      · subst hq
        simp only [ne_eq, not_true_eq_false, decide_false, Bool.false_eq_true, not_false_eq_true,
          List.filter_cons_of_neg, List.count_cons_self, List.length_cons] at ih ⊢
        omega
      · simp only [ne_eq, hq, not_false_eq_true, decide_true, List.filter_cons_of_pos,
          List.length_cons, List.count_cons_of_ne] at ih ⊢
        omega

/-- A reader that leaves takes its own holds with it and no other's. -/
theorem count_filter_ne (p q : Client) (holders : List Client) :
    (holders.filter (· ≠ p)).count q = if q = p then 0 else holders.count q := by
  by_cases hq : q = p
  · rw [if_pos hq, List.count_eq_zero]
    simp [hq]
  · rw [if_neg hq, List.count_filter (by simpa using hq)]

/-- What is given back is what was taken: the kernel cuts nothing off. -/
theorem giveBack_eq {value undo : Int} (hlow : 0 ≤ value + undo)
    (hhigh : value + undo ≤ semMaxCount) :
    giveBack value undo = value + undo := by
  simp only [giveBack, semvmx, semMaxCount] at *
  omega

/-- A change of the phase outside the lock keeps the invariant, whatever happens to the memory. -/
theorem Inv.move (h : Inv s) {phase : Phase} {memory : Memory} (hfrom : s.phase ≠ .locked)
    (hcreated : s.phase ≠ .created) (hlocked : phase ≠ .locked) (hfresh : phase ≠ .created)
    (habsent : s.sem = none → phase = .down ∨ phase = .cleared) :
    Inv { s with phase := phase, memory := memory } := by
  have hwriters : s.writers = 0 := if_neg hfrom
  have hwriters' :
      ({ s with phase := phase, memory := memory } : State Client Memory).writers = 0 :=
    if_neg hlocked
  refine ⟨h.undo, ?_, fun hnone => ⟨(h.absent hnone).1, habsent hnone⟩,
    fun heq => absurd heq hfresh, fun v hv _ => ?_⟩
  · rw [hwriters', ← hwriters]
    exact h.serviceUndo
  · have hvalue := h.value v hv hcreated
    rw [hwriters] at hvalue
    rw [hwriters']
    exact hvalue

/-- A client takes or gives back some of its 1s.  What is left in the semaphore and what the
clients have stays the same together. -/
theorem Inv.client (h : Inv s) {value : Int} {p : Client} {undo : Int} {holders : List Client}
    (hsem : s.sem = some value) (hphase : s.phase ≠ .created) (hundo : undo = holders.count p)
    (hothers : ∀ q, q ≠ p → holders.count q = s.holders.count q) {value' : Int}
    (hlow : 0 ≤ value') (hvalue : value' + holders.length = value + s.holders.length) :
    Inv { s with
      sem := some value'
      undo := Function.update s.undo p undo
      holders := holders } := by
  refine ⟨fun q => ?_, h.serviceUndo, nofun, fun heq => absurd heq hphase, fun v hv _ => ?_⟩
  · by_cases hq : q = p
    · subst hq
      simp [hundo]
    · simp [hq, hothers q hq, h.undo q]
  · obtain rfl := Option.some.inj hv
    refine ⟨hlow, ?_⟩
    have hold := (h.value value hsem hphase).2
    have hwriters : ({ s with
      sem := some value', undo := Function.update s.undo p undo, holders := holders } :
      State Client Memory).writers = s.writers := rfl
    rw [hwriters]
    dsimp only
    omega

/-- A client ends, with 1s taken or without.  `SEM_UNDO` gives back what it has taken, and
nobody else's holds change. -/
theorem Inv.die (h : Inv s) (p : Client) :
    Inv { s with
      sem := s.sem.map fun value => giveBack value (s.undo p)
      undo := Function.update s.undo p 0
      holders := s.holders.filter (· ≠ p) } := by
  have hlength := length_filter_ne p s.holders
  have hself := count_filter_ne p p s.holders
  rw [if_pos rfl] at hself
  cases hsem : s.sem with
  | none =>
      obtain ⟨hholders, hphase⟩ := h.absent hsem
      refine ⟨fun q => ?_, h.serviceUndo, fun _ => ⟨by simp [hholders], hphase⟩,
        fun heq => ?_, nofun⟩
      · rw [hholders]
        by_cases hq : q = p <;> simp [hq, h.undo, hholders]
      · have hcreated := (h.created heq).1
        rw [hsem] at hcreated
        contradiction
  | some value =>
      have hundo := h.undo p
      by_cases hcreated : s.phase = .created
      · obtain ⟨hzero, hholders⟩ := h.created hcreated
        obtain rfl := Option.some.inj (hsem.symm.trans hzero)
        refine ⟨fun q => ?_, h.serviceUndo, nofun, fun _ => ⟨?_, by simp [hholders]⟩,
          fun _ _ hne => absurd hcreated hne⟩
        · rw [hholders]
          by_cases hq : q = p <;> simp [hq, h.undo, hholders]
        · rw [hundo, hholders]
          rfl
      · obtain ⟨hlow, heq⟩ := h.value value hsem hcreated
        have htaken := s.taken_nonneg
        have hgive : giveBack value (s.undo p) = value + s.holders.count p := by
          have hcount := List.count_le_length (a := p) (l := s.holders)
          rw [hundo, giveBack_eq (by omega) (by omega)]
        refine h.client hsem hcreated ?_ (fun q hq => ?_) ?_ ?_
        · rw [hself]
          rfl
        · rw [count_filter_ne, if_neg hq]
        · dsimp only
          omega
        · dsimp only
          omega

/-- **Step rule.**  The semaphore holds what the readers and the writers have not taken, and a
writer has all of it. -/
theorem Inv.step (h : Inv s) {e : Event Client Memory} (hstep : OrderlyStep zeroed s e t) :
    Inv t := by
  obtain ⟨hstep, horderly⟩ := hstep
  cases hstep with
  | start hphase =>
      exact h.move (by simp [hphase]) (by simp [hphase]) (by simp) (by simp) (fun _ => Or.inr rfl)
  | create hphase hsem =>
      obtain ⟨hholders, -⟩ := h.absent hsem
      refine ⟨h.undo, ?_, nofun, fun _ => ⟨rfl, hholders⟩, fun v _ hne => absurd rfl hne⟩
      have hservice := h.serviceUndo
      simp only [State.writers, hphase] at hservice ⊢
      exact hservice
  | attach hphase hsem =>
      exact h.move (by simp [hphase]) (by simp [hphase]) (by simp) (by simp) (by simp [hsem])
  | semctl hphase =>
      obtain ⟨-, hholders⟩ := h.created hphase
      refine ⟨fun q => by simp [hholders], by simp [State.writers], nofun, nofun, fun v hv _ => ?_⟩
      obtain rfl := Option.some.inj hv
      simp [State.writers, hholders, semMaxCount]
  | load hphase memory => exact ⟨h.undo, h.serviceUndo, h.absent, h.created, h.value⟩
  | ready hphase =>
      refine h.move (by simp [hphase]) (by simp [hphase]) (by simp) (by simp) (fun hnone => ?_)
      have hearly := (h.absent hnone).2
      simp [hphase] at hearly
  | @semaLock value hphase hsem hlock =>
      have hold := h.value value hsem (by simp [hphase])
      have hservice := h.serviceUndo
      simp only [State.writers, hphase, reduceCtorEq, if_false] at hold hservice
      refine ⟨h.undo, ?_, nofun, nofun, fun v hv _ => ?_⟩
      · simp only [State.writers, if_true]
        omega
      · obtain rfl := Option.some.inj hv
        simp only [State.writers, if_true]
        omega
  | write hphase memory => exact ⟨h.undo, h.serviceUndo, h.absent, h.created, h.value⟩
  | @semaUnlock value hphase hsem =>
      have hold := h.value value hsem (by simp [hphase])
      have hservice := h.serviceUndo
      simp only [State.writers, hphase, if_true] at hold hservice
      refine ⟨h.undo, ?_, nofun, nofun, fun v hv _ => ?_⟩
      · simp only [State.writers, reduceCtorEq, if_false]
        omega
      · obtain rfl := Option.some.inj hv
        simp only [State.writers, reduceCtorEq, if_false, semMaxCount] at hold ⊢
        omega
  | stop hphase =>
      have hcreated : s.phase ≠ .created := horderly
      refine ⟨h.undo, by simp [State.writers], fun hnone => ?_, nofun, fun v hv _ => ?_⟩
      · exact ⟨(h.absent (Option.map_eq_none_iff.mp hnone)).1, Or.inl rfl⟩
      · obtain ⟨value, hsem, rfl⟩ := Option.map_eq_some_iff.mp hv
        obtain ⟨hlow, heq⟩ := h.value value hsem hcreated
        have hservice := h.serviceUndo
        have htaken := s.taken_nonneg
        have hsum : value + s.serviceUndo = semMaxCount - s.holders.length := by linarith
        rw [giveBack_eq (by linarith) (by linarith), hsum]
        simp only [State.writers, reduceCtorEq, if_false]
        omega
  | @get value p hsem hvalue =>
      have hcreated : s.phase ≠ .created := fun heq => by
        have hzero := (h.created heq).1
        rw [hsem] at hzero
        have := Option.some.inj hzero
        omega
      apply h.client hsem hcreated
      · simp [h.undo]
      · intro q hq
        exact List.count_cons_of_ne (Ne.symm hq)
      · omega
      · simp
  | @put value p hsem hheld =>
      have hcreated : s.phase ≠ .created := fun heq => by
        rw [(h.created heq).2] at hheld
        simp at hheld
      have hpos := List.length_pos_of_mem hheld
      have hcount := List.count_pos_iff.mpr hheld
      apply h.client hsem hcreated
      · rw [h.undo, List.count_erase_self]
        omega
      · intro q hq
        exact List.count_erase_of_ne hq ..
      · have hold := (h.value value hsem hcreated).1
        omega
      · rw [List.length_erase_of_mem hheld]
        omega
  | die p => exact h.die p

/-- **Run rule.** -/
theorem Inv.run {memory : Memory} {tr : List (Event Client Memory)}
    (hrun : Run (OrderlyStep zeroed) (initial memory) tr s) : Inv s := by
  refine hrun.invariant Inv ?_ fun _ _ _ hinv hstep => hinv.step hstep
  exact ⟨fun _ => rfl, rfl, fun _ => ⟨rfl, Or.inl rfl⟩, nofun, nofun⟩

/-- The service does not hold the lock together with a reader. -/
theorem Inv.exclusive (h : Inv s) (hlocked : s.phase = .locked) : s.holders = [] := by
  cases hsem : s.sem with
  | none =>
      rcases (h.absent hsem).2 with hphase | hphase
      all_goals
        rw [hlocked] at hphase
        contradiction
  | some value =>
      obtain ⟨hlow, heq⟩ := h.value value hsem (by simp [hlocked])
      simp only [State.writers, hlocked, if_true] at heq
      exact List.eq_nil_of_length_eq_zero (by omega)

/-- There are at most as many readers as the semaphore counts. -/
theorem Inv.readers_le (h : Inv s) : (s.holders.length : Int) ≤ semMaxCount := by
  have htaken := s.taken_nonneg
  cases hsem : s.sem with
  | none =>
      rw [(h.absent hsem).1]
      exact Int.natCast_nonneg 64
  | some value =>
      by_cases hcreated : s.phase = .created
      · rw [(h.created hcreated).2]
        exact Int.natCast_nonneg 64
      · obtain ⟨hlow, heq⟩ := h.value value hsem hcreated
        omega

/-- A step of a stretch in which a client keeps the lock. -/
def HoldingStep (zeroed : Memory) (p : Client) (s : State Client Memory) (e : Event Client Memory)
    (t : State Client Memory) : Prop :=
  OrderlyStep zeroed s e t ∧ p ∈ t.holders

/-- While there is a reader, no step writes. -/
theorem Inv.stable_step (h : Inv s) {e : Event Client Memory} (hstep : OrderlyStep zeroed s e t)
    {p : Client} (hheld : p ∈ s.holders) : t.memory = s.memory := by
  obtain ⟨hstep, horderly⟩ := hstep
  have hne : s.holders ≠ [] := List.ne_nil_of_mem hheld
  cases hstep with
  | start hphase => exact horderly.resolve_left hne
  | load hphase memory => exact horderly.resolve_left hne
  | write hphase memory => exact absurd (h.exclusive hphase) hne
  | create hphase hsem => rfl
  | attach hphase hsem => rfl
  | semctl hphase => rfl
  | ready hphase => rfl
  | semaLock hphase hsem hvalue => rfl
  | semaUnlock hphase hsem => rfl
  | stop hphase => rfl
  | get p hsem hvalue => rfl
  | put p hsem hheld => rfl
  | die p => rfl

/-- **Readers hold a stable configuration.**  Take any run of clients and of the config
service in which `configInit` changes no byte while a client holds the lock, and in
which the service is not killed between `semget` and `semctl`.

* At most 64 readers hold the lock, and none together with the service.
* The value of the semaphore is 64 minus the readers minus 64 for the service, from
  `semctl` on.
* As long as a client keeps the lock, the configuration stays what it is. -/
theorem readers_hold_stable {memory : Memory} {tr : List (Event Client Memory)}
    (hrun : Run (OrderlyStep zeroed) (initial memory) tr s) :
    (s.holders.length : Int) ≤ semMaxCount ∧ (s.phase = .locked → s.holders = []) ∧
      (∀ v, s.sem = some v → s.phase ≠ .created →
        v = semMaxCount - s.holders.length - semMaxCount * s.writers) ∧
      ∀ p t mid, p ∈ s.holders → Run (HoldingStep zeroed p) s mid t → t.memory = s.memory := by
  have hinv := Inv.run hrun
  refine ⟨hinv.readers_le, hinv.exclusive, fun v hv hne => (hinv.value v hv hne).2, ?_⟩
  intro p t mid hheld hstretch
  have hall : Inv t ∧ p ∈ t.holders ∧ t.memory = s.memory := by
    refine hstretch.invariant (fun t => Inv t ∧ p ∈ t.holders ∧ t.memory = s.memory)
      ⟨hinv, hheld, rfl⟩ ?_
    rintro t e u ⟨hinv, hheld, hmemory⟩ ⟨hstep, hstill⟩
    exact ⟨hinv.step hstep, hstill, (hinv.stable_step hstep hheld).trans hmemory⟩
  exact hall.2.2

end Steps

/-! ## A restart under a reader -/

/-- The service has come up, and a client holds the lock. -/
def reading : State Unit Bool where
  memory := true
  sem := some 63
  undo := Function.update (fun _ => 0) () 1
  serviceUndo := 0
  phase := .up
  holders := [()]

/-- The service has been restarted meanwhile, and has cleared the memory. -/
def cleared : State Unit Bool := { reading with memory := false, phase := .cleared }

/-- The first start of the service, and a client. -/
theorem reading_run : ∃ tr, Run (OrderlyStep false) (initial false) tr reading := by
  have hstart : OrderlyStep false (initial false : State Unit Bool) .start
      { initial false with phase := .cleared } := ⟨ConfigStep.start rfl, Or.inl rfl⟩
  have hsemget := (Run.single hstart).snoc ⟨ConfigStep.create rfl rfl, trivial⟩
  have hsemctl := hsemget.snoc ⟨ConfigStep.semctl rfl, trivial⟩
  have hload := hsemctl.snoc ⟨ConfigStep.load rfl true, Or.inl rfl⟩
  have hready := hload.snoc ⟨ConfigStep.ready rfl, trivial⟩
  have hget := hready.snoc ⟨ConfigStep.get () rfl (by decide), trivial⟩
  exact ⟨_, hget⟩

/-- As long as the client holds the lock, it sees what the service has loaded. -/
theorem readers_hold_stable_first_reader :
    ¬ ∃ t mid, Run (HoldingStep false ()) reading mid t ∧ t.memory ≠ true := by
  obtain ⟨tr, hrun⟩ := reading_run
  intro h
  obtain ⟨t, mid, hstretch, hcleared⟩ := h
  exact hcleared ((readers_hold_stable hrun).2.2.2 () t mid (List.mem_singleton_self _) hstretch)

/-- The service is restarted while a client holds the lock: the client sees a cleared
configuration. -/
theorem restart_clears_under_reader : ∃ (tr mid : List (Event Unit Bool)) (s t : State Unit Bool),
    Run (ConfigStep false) (initial false) tr s ∧ () ∈ s.holders ∧
      Run (fun a e b => ConfigStep false a e b ∧ () ∈ b.holders) s mid t ∧
      t.memory ≠ s.memory := by
  obtain ⟨tr, hrun⟩ := reading_run
  have hheld : () ∈ reading.holders := List.mem_singleton_self _
  have hstop : ConfigStep false reading .stop { reading with phase := .down } :=
    ConfigStep.stop (by decide)
  have hstart : ConfigStep false { reading with phase := .down } .start cleared :=
    ConfigStep.start rfl
  exact ⟨tr, _, reading, cleared, hrun.mono (fun _ _ _ h => h.1), hheld,
    (Run.single ⟨hstop, hheld⟩).snoc ⟨hstart, hheld⟩, by decide⟩

end ConfigLock

import Mathlib.Data.Finset.Lattice.Fold
import Mathlib.Order.Lattice.Nat
import PiFrame.WatchdogExpiry

/-!
# Runs of the watchdog

Between two rounds of the thread the services form a ring, all of them allocated,
and their counters say how long they have been silent.  Every event keeps it so,
and so does every pass that comes in time.  A pass therefore takes out the
services that are silent for too long or gone, and no others.
-/

namespace Watchdog

open RingList Transition

variable {lts now now' cts : Int} {x : Node} {l front back : List Node} {s s' : WatchdogInfo}
  {service : ListService} {fuel : Nat} {m : Meets} {pid : BitVec 32} {name : List UInt8}
  {debug : Bool} {valid : Node → Bool} {root : Links Node} {services : Node → ListService}

/-- The services `l` are registered, at the second `now`. -/
structure Registered (l : List Node) (now : Int) (s : WatchdogInfo) : Prop where
  ring : Ring s.root rootNode l
  live : ∀ x ∈ l, x ∈ s.live
  ok : ∀ x ∈ l, ServiceOk s.lts now (s.services x)
  clock : s.lts ≤ now
  reboot : s.requestRebootTs = 0
  running : s.exited = false
  fault : s.fault = false

/-! ## Events -/

/-- A sub-service that is in time stays so until its time is over. -/
theorem SubOk.later {sub : ListSubService} (h : SubOk lts now sub) (hle : now ≤ now') :
    SubOk lts now' sub :=
  ⟨h.timeout, h.count, h.nonneg, h.heard, h.late, h.early.trans hle⟩

/-- A service that is in time stays so until its time is over. -/
theorem ServiceOk.later (h : ServiceOk lts now service) (hle : now ≤ now') :
    ServiceOk lts now' service :=
  ⟨h.timeout, h.nonneg, h.small, h.count, h.late, fun hactive => (h.early hactive).trans hle,
    fun sub hsub => (h.subs sub hsub).later hle⟩

/-- Time goes by. -/
theorem Registered.later (h : Registered l now s) (hle : now ≤ now') : Registered l now' s :=
  ⟨h.ring, h.live, fun x hx => (h.ok x hx).later hle, h.clock.trans hle, h.reboot, h.running,
    h.fault⟩

theorem Registered.linked (h : Registered l now s) : Linked (ServiceOk s.lts now) l s :=
  ⟨h.ring, h.live, h.ok, h.fault⟩

/-- Whether a service is in time does not depend on its name. -/
theorem nameless_serviceOk : Nameless (ServiceOk lts now) := fun _ _ hok =>
  ⟨hok.timeout, hok.nonneg, hok.small, hok.count, hok.late, hok.early, hok.subs⟩

/-- A service that has just been registered. -/
theorem serviceOk_new {info : ServiceInfo} (htimeout : info.timeout.toNat < 2 ^ 31 - 1) :
    ServiceOk lts now ⟨info, [], false, 0, 0, 0⟩ where
  timeout := htimeout
  nonneg := le_rfl
  small := show (0 : Int) < 2 ^ 31 by decide
  count := fun h => by cases h
  late := fun h => by cases h
  early := fun h => by cases h
  subs := fun sub h => by cases h

/-- A sub-service that has just been registered. -/
theorem subOk_new {subId timeout : BitVec 32} (htimeout : timeout.toNat < 2 ^ 31 - 1)
    (hclock : lts ≤ now) :
    SubOk lts now ⟨subId, timeout.toInt, timeout.toInt, now, now, false⟩ := by
  have hint : timeout.toInt = timeout.toNat := BitVec.toInt_eq_toNat_of_lt (by omega)
  rw [hint]
  exact
    { timeout := ⟨Int.natCast_nonneg _, show (timeout.toNat : Int) < 2 ^ 31 - 1 by omega⟩
      count := by simp [ListSubService.limit]
      nonneg := by simp
      heard := le_rfl
      late := hclock
      early := le_rfl }

/-- The full count of a service is its timeout and one more. -/
theorem ListService.fullCount_eq (h : service.info.timeout.toNat < 2 ^ 31 - 1) :
    service.fullCount = service.info.timeout.toNat + 1 := by
  have hsum : (service.info.timeout + 1).toNat = service.info.timeout.toNat + 1 := by
    rw [BitVec.toNat_add]
    exact Nat.mod_eq_of_lt (show service.info.timeout.toNat + 1 < 2 ^ 32 by omega)
  rw [ListService.fullCount, BitVec.toInt_eq_toNat_of_lt (by omega), hsum]
  exact Int.natCast_succ _

/-- A service with its full count. -/
theorem ServiceOk.started (h : ServiceOk lts now service) (hclock : lts ≤ now) (active : Bool) :
    ServiceOk lts now
      { service with
        bActive := active
        expireCount := service.fullCount
        ats := now
        last := if active then now else service.last } := by
  have htimeout := h.timeout
  have hfull := ListService.fullCount_eq htimeout
  exact
    { timeout := htimeout
      nonneg := show 0 ≤ service.fullCount by omega
      small := show service.fullCount < 2 ^ 31 by omega
      count := by
        intro hactive
        have hactive : active = true := hactive
        simp [hactive, hfull]
      late := fun _ => hclock
      early := fun _ => le_rfl
      subs := h.subs }

/-- A sub-service that has been heard of has its full time again, and the others are as they
were. -/
theorem hearSub_ok {subId : BitVec 32} {subs : List ListSubService} (hclock : lts ≤ now)
    (hok : ∀ sub ∈ subs, SubOk lts now sub) :
    ∀ sub ∈ hearSub subId now subs, SubOk lts now sub := by
  induction subs with
  | nil =>
      intro sub hsub
      cases hsub
  | cons first rest ih =>
      have hfirst := hok first List.mem_cons_self
      have hrest := fun sub hsub => hok sub (List.mem_cons_of_mem first hsub)
      intro sub hsub
      rw [hearSub] at hsub
      by_cases hid : first.subId = subId
      · rw [if_pos hid] at hsub
        rcases List.mem_cons.mp hsub with rfl | hsub
        · have htimeout := hfirst.timeout
          have hint : toInt32 (first.timeout + 1) = first.timeout + 1 :=
            toInt32_of_fits (by omega) (by omega)
          rw [hint]
          exact
            { timeout := htimeout
              count := by simp [ListSubService.limit]
              nonneg := show 0 ≤ first.timeout + 1 by omega
              heard := le_rfl
              late := hclock
              early := le_rfl }
        · exact hrest sub hsub
      · rw [if_neg hid] at hsub
        rcases List.mem_cons.mp hsub with rfl | hsub
        · exact hfirst
        · exact ih hrest sub hsub

/-- What an event makes of a service leaves it in order: it sets counts back to their full time,
and never lets one run out. -/
theorem keeps_serviceOk {e : WDEvent} (hbounded : e.Bounded) (hclock : lts ≤ now) :
    e.Keeps (ServiceOk lts now) now := by
  cases e with
  | register pid name params eMode timeout => exact fun name => serviceOk_new hbounded
  | unregister pid name => exact fun _ hok => hok
  | start pid name => exact fun _ hok => hok.started hclock true
  | stop pid name => exact fun _ hok => hok.started hclock false
  | alive pid name => exact fun _ hok => hok.started hclock true
  | subRegister pid name subId timeout =>
      refine fun _ hok => ⟨hok.timeout, hok.nonneg, hok.small, hok.count, hok.late, hok.early,
        fun sub hsub => ?_⟩
      rcases List.mem_append.mp hsub with hsub | hsub
      · exact hok.subs sub hsub
      · rw [List.mem_singleton.mp hsub]
        exact subOk_new hbounded hclock
  | subUnregister pid name subId =>
      exact fun _ hok => ⟨hok.timeout, hok.nonneg, hok.small, hok.count, hok.late, hok.early,
        fun sub hsub => hok.subs sub (List.mem_of_mem_eraseP hsub)⟩
  | subAlive pid name subId =>
      exact fun _ hok => ⟨hok.timeout, hok.nonneg, hok.small, hok.count, hok.late, hok.early,
        hearSub_ok hclock hok.subs⟩

/-- Every event keeps the services in order. -/
theorem Registered.handle (h : Registered l m.now s) {e : WDEvent} (hbounded : e.Bounded)
    (hhandle : e.handle fuel m s = some s') : ∃ l', Registered l' m.now s' := by
  obtain ⟨l', hlinked, huntimed⟩ :=
    h.linked.handle nameless_serviceOk (keeps_serviceOk hbounded h.clock) hhandle
  rw [← huntimed.lts] at hlinked
  exact ⟨l', hlinked.ring, hlinked.live, hlinked.each, huntimed.lts.trans_le h.clock,
    huntimed.reboot.trans h.reboot, huntimed.exited.trans h.running, hlinked.fault⟩

/-! ## Passes -/

variable {p : Pass} {d d' : Daemon} {tr : List Label} {visited acted : List Node} {start : Int}

/-- A pass over the ring is one over the list of the services. -/
theorem Registered.pass_spec (h : Registered l now s) (hnow : now ≤ cts)
    (hpace : cts - s.lts ≤ 2 ^ 31)
    (hpass : watchdogServiceUpdate fuel debug valid cts s = some p) :
    ∃ kept q left root, Swept debug valid cts s.services l ⟨s, [], []⟩ kept q left ∧
      p = { q with info := q.info.withRoot root } ∧ Ring root rootNode kept := by
  rw [watchdogServiceUpdate] at hpass
  split at hpass
  · cases hpass
  · next root q left hwalk =>
      cases hpass
      obtain ⟨hresult, hring⟩ := h.ring.walk_spec hwalk
      have hswept : Swept debug valid cts s.services l ⟨s, [], []⟩ _ _ _ :=
        sweep_spec debug valid (List.nodup_cons.mp h.ring.nodup).2
          (fun x hx => ⟨h.live x hx, rfl, h.ok x hx⟩) hnow hpace h.running h.fault
      rw [← hresult] at hswept
      exact ⟨_, q, left, root, hswept, rfl, hring⟩

/-- A pass ends. -/
theorem Registered.pass_total (h : Registered l now s) (debug : Bool) (valid : Node → Bool)
    (cts : Int) : ∃ p, watchdogServiceUpdate (l.length + 1) debug valid cts s = some p := by
  obtain ⟨result, hwalk, -⟩ := h.ring.walk_total (serviceUpdate debug valid cts) ⟨s, [], []⟩
  rw [watchdogServiceUpdate, hwalk]
  exact ⟨_, rfl⟩

/-- **An exact pass.**  It comes to the services one after the other, until one of
them ends the process, and takes out of them those that are to be given up.  The
others stay, in their order. -/
def ExactPass (debug : Bool) (valid : Node → Bool) (cts : Int) (visited acted : List Node)
    (d d' : Daemon) : Prop :=
  ∃ l rest, Ring d.info.root rootNode l ∧ l = visited ++ rest ∧
    acted = doomed valid cts d.info.services visited ∧
    Ring d'.info.root rootNode (spared valid cts d.info.services visited ++ rest) ∧
    Reached debug valid cts d.info.services visited rest d'.info.exited

/-- A pass comes at most 2^31 seconds after the one before. -/
def Label.Paced (d : Daemon) : Label → Prop
  | .event _ _ => True
  | .update _ cts _ _ => cts - d.info.lts ≤ 2 ^ 31

/-- A step of a daemon whose passes come in time. -/
def PacedStep (debug : Bool) (d : Daemon) (label : Label) (d' : Daemon) : Prop :=
  Step debug d label d' ∧ label.Paced d

/-- As long as the daemon runs, its services are registered. -/
def Steady (d : Daemon) : Prop :=
  d.info.exited = false → ∃ l, Registered l d.now d.info

/-- A call of `processWDUpdate`, with a pass in it or without: a pass is made only when a whole
period is over since the last one. -/
theorem Registered.update_cases (h : Registered l d.now d.info) (hnow : d.now ≤ cts)
    (hpace : cts - d.info.lts ≤ 2 ^ 31)
    (hupdate : processWDUpdate fuel debug valid cts d.info = some p) :
    (cts - d.info.lts < pfDefWatchdogPeriod ∧ p = ⟨d.info, [], []⟩) ∨
      (pfDefWatchdogPeriod ≤ cts - d.info.lts ∧
        ExactPass debug valid cts p.visited p.acted d ⟨p.info, cts⟩ ∧ p.info.fault = false ∧
        Steady ⟨p.info, cts⟩) := by
  rw [processWDUpdate, if_neg (not_not_intro h.reboot)] at hupdate
  by_cases hperiod : pfDefWatchdogPeriod ≤ cts - d.info.lts
  · rw [if_pos hperiod] at hupdate
    split at hupdate
    · cases hupdate
    · next hpass =>
        cases hupdate
        obtain ⟨kept, q, left, root, hswept, rfl, hring⟩ := h.pass_spec hnow hpace hpass
        obtain ⟨seen, rest, hl, hvisited, hacted, hkept, hreached⟩ := hswept.order
        rw [List.nil_append] at hvisited hacted
        refine .inr ⟨hperiod, ⟨l, rest, h.ring, ?_, ?_, ?_, ?_⟩, hswept.fault, fun hrunning => ?_⟩
        · show l = q.visited ++ rest
          rw [hvisited, hl]
        · show q.acted = doomed valid cts d.info.services q.visited
          rw [hvisited, hacted]
        · show Ring root rootNode (spared valid cts d.info.services q.visited ++ rest)
          rw [hvisited, ← hkept]
          exact hring
        · show Reached debug valid cts d.info.services q.visited rest q.info.exited
          rw [hvisited, hswept.exited]
          exact hreached
        · have hleft : left = false := hswept.exited.symm.trans hrunning
          exact ⟨kept, hring, hswept.kept_live hleft, hswept.kept_ok hleft, le_rfl,
            hswept.unchanged.2.trans h.reboot, hrunning, hswept.fault⟩
  · rw [if_neg hperiod] at hupdate
    cases hupdate
    exact .inl ⟨not_le.mp hperiod, rfl⟩

theorem steady_init : Steady (init root services start) := fun _ =>
  ⟨[], ring_init, fun _ h => absurd h List.not_mem_nil, fun _ h => absurd h List.not_mem_nil,
    le_rfl, rfl, rfl, rfl⟩

/-- Every step in time keeps the services registered. -/
theorem steady_step {label : Label} (h : Steady d) (hstep : PacedStep debug d label d') :
    Steady d' := by
  obtain ⟨hstep, hpaced⟩ := hstep
  cases hstep with
  | event running clock bounded outcome =>
      obtain ⟨l, hregistered⟩ := h running
      exact fun _ => (hregistered.later clock).handle bounded outcome
  | update running clock outcome =>
      obtain ⟨l, hregistered⟩ := h running
      rcases hregistered.update_cases clock hpaced outcome with ⟨-, rfl⟩ | ⟨-, -, -, hsteady⟩
      · exact fun _ => ⟨l, hregistered.later clock⟩
      · exact hsteady

/-- In every run the services that still run are registered. -/
theorem steady_run (hrun : Run (PacedStep debug) (init root services start) tr d) : Steady d :=
  hrun.invariant Steady steady_init fun _ _ _ hsteady hstep => steady_step hsteady hstep

/-- **Watchdog expiry is exact**, in every run whose passes come at most 2^31
seconds apart: a pass comes to its end, touches no service that is not allocated,
and takes out what is to be given up and nothing else. -/
theorem watchdog_expiry (hrun : Run (PacedStep debug) (init root services start) tr d)
    (hrunning : d.info.exited = false) (hclock : d.now ≤ cts)
    (hperiod : pfDefWatchdogPeriod ≤ cts - d.info.lts) (hpace : cts - d.info.lts ≤ 2 ^ 31) :
    (∃ visited acted d', Step debug d (.update valid cts visited acted) d') ∧
      ∀ visited acted d', Step debug d (.update valid cts visited acted) d' →
        ExactPass debug valid cts visited acted d d' ∧ d'.info.fault = false := by
  obtain ⟨l, hregistered⟩ := steady_run hrun hrunning
  constructor
  · obtain ⟨p, hpass⟩ := hregistered.pass_total debug valid cts
    have hupdate : processWDUpdate (l.length + 1) debug valid cts d.info =
        some { p with info := { p.info with lts := cts } } := by
      rw [processWDUpdate, if_neg (not_not_intro hregistered.reboot), if_pos hperiod, hpass]
    exact ⟨_, _, _, .update hrunning hclock hupdate⟩
  · intro visited acted d' hstep
    cases hstep with
    | update _ _ outcome =>
        rcases hregistered.update_cases hclock hpace outcome with
          ⟨hearly, -⟩ | ⟨-, hexact, hfault, -⟩
        · exact absurd hperiod (not_le.mpr hearly)
        · exact ⟨hexact, hfault⟩

/-! ## A silent service -/

/-- A clock that stands at 0, and an allocator that takes the lowest address above
all that are in use. -/
def firstMeets : Meets where
  now := 0
  validOld := true
  validNew := true
  calloc live := live.sup id + 1
  fresh _ :=
    ⟨fun h => Nat.not_succ_le_self _ (Finset.le_sup (f := id) h), Nat.succ_ne_zero _⟩

/-- The daemon at second 0, on a machine whose memory is zeroed. -/
def firstDaemon : Daemon :=
  init ⟨fun _ => 0, fun _ => 0⟩ (fun _ => ⟨⟨0, [], [], 0, 0⟩, [], false, 0, 0, 0⟩) 0

/-- Process 7 has registered with a timeout of 30 seconds, and has started. -/
def silentService : ListService where
  info := ⟨7, [97], [], 1, 30⟩
  subRoot := []
  bActive := true
  expireCount := 31
  ats := 0
  last := 0

def silentDaemon : Daemon where
  info := (enterService firstMeets firstDaemon.info silentService.info).store 1 silentService
  now := 0

/-- The service of the example registers, starts and says nothing more. -/
theorem silent_run : Run (PacedStep false) firstDaemon
    [.event (.register 7 [97] [] 1 30) 0, .event (.start 7 [97]) 0] silentDaemon := by
  have hregister : Step false firstDaemon (.event (.register 7 [97] [] 1 30) 0)
      ⟨enterService firstMeets firstDaemon.info silentService.info, 0⟩ :=
    .event (m := firstMeets) rfl le_rfl (show (30 : BitVec 32).toNat < 2 ^ 31 - 1 by decide)
      (show WDEvent.handle 1 firstMeets firstDaemon.info (.register 7 [97] [] 1 30) = some _
        from rfl)
  have hstart : Step false ⟨enterService firstMeets firstDaemon.info silentService.info, 0⟩
      (.event (.start 7 [97]) 0) silentDaemon :=
    .event (m := firstMeets) rfl le_rfl trivial
      (show WDEvent.handle 2 firstMeets _ (.start 7 [97]) = some _ from rfl)
  exact (Run.single ⟨hregister, trivial⟩).snoc ⟨hstart, trivial⟩

/-- After 32 seconds it is given up. -/
theorem watchdog_expiry_silent :
    (∃ visited acted d',
        Step false silentDaemon (.update (fun _ => true) 32 visited acted) d') ∧
      ∀ visited acted d', Step false silentDaemon (.update (fun _ => true) 32 visited acted) d' →
        ExactPass false (fun _ => true) 32 visited acted silentDaemon d' ∧
          d'.info.fault = false :=
  watchdog_expiry silent_run rfl (by decide) (by decide) (by decide)

/-- After 2^32 seconds without a pass its counter is where it was at the start. -/
theorem silent_overlooked : ∃ tr visited acted d', Run (Step false) firstDaemon tr silentDaemon ∧
    silentDaemon.info.exited = false ∧ silentDaemon.now ≤ 2 ^ 32 ∧
    pfDefWatchdogPeriod ≤ 2 ^ 32 - silentDaemon.info.lts ∧
    Step false silentDaemon (.update (fun _ => true) (2 ^ 32) visited acted) d' ∧
    ¬ ExactPass false (fun _ => true) (2 ^ 32) visited acted silentDaemon d' := by
  have hrun : Run (Step false) firstDaemon _ silentDaemon :=
    silent_run.mono fun _ _ _ hstep => hstep.1
  refine ⟨_, _, _, _, hrun, rfl, by decide, by decide, .update rfl (by decide)
    (show processWDUpdate 2 false (fun _ => true) (2 ^ 32) silentDaemon.info = some _ from rfl), ?_⟩
  rintro ⟨l, rest, -, -, hacted, -⟩
  have hdoomed : Doomed (fun _ => true) (2 ^ 32) 1 (silentDaemon.info.services 1) :=
    .inr (.inl ⟨rfl, by decide⟩)
  have hnone : doomed (fun _ => true) (2 ^ 32) silentDaemon.info.services [1] = [] := hacted.symm
  rw [doomed, List.filter_cons_of_pos (by simpa using hdoomed)] at hnone
  cases hnone

end Watchdog

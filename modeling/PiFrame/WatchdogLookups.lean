import PiFrame.WatchdogRuns

/-!
# Which service an event reaches

`START`, `STOP`, `ALIVE` and `SUB_ALIVE` name a service by its process and its
name.  Their handlers take the first service of the process and then look at its
name; `removeServiceList` looks at both in every service.  The two agree unless a
service further ahead has the same process, which happens when a process is gone,
its number has been used again, and no pass has come in between.
-/

namespace Watchdog

open RingList Transition

variable {x y : Node} {l front back : List Node} {s s' : WatchdogInfo} {service : ListService}
  {fuel : Nat} {m : Meets} {e : WDEvent} {pid : BitVec 32} {name : List UInt8} {debug : Bool}
  {root : Links Node} {services : Node → ListService} {start : Int} {tr : List Label}

/-- The process and the name in an event for a service that is registered. -/
def WDEvent.addressee : WDEvent → Option (BitVec 32 × List UInt8)
  | .start pid name => some (pid, name)
  | .stop pid name => some (pid, name)
  | .alive pid name => some (pid, name)
  | .subAlive pid name _ => some (pid, name)
  | _ => none

/-- The sub-service that an event is about is one of this service. -/
def WDEvent.Known (service : ListService) : WDEvent → Prop
  | .subAlive _ _ subId => ∃ sub ∈ service.subRoot, sub.subId = subId
  | _ => True

/-- The service that `removeServiceList` finds. -/
def Names (s : WatchdogInfo) (pid : BitVec 32) (name : List UInt8) (x : Node) : Prop :=
  ∃ fuel s', forEach (visitInfo fun info => info.pid = pid ∧ info.name = name) fuel s.root s =
    some (s', some x)

/-- The event is applied to service `x` and to no other, whatever the clock shows. -/
def Delivered (s : WatchdogInfo) (e : WDEvent) (x : Node) : Prop :=
  ∀ m : Meets, ∃ rounds, ∀ fuel, rounds ≤ fuel →
    e.handle fuel m s = some (s.store x (e.effect m.now (s.services x)))

/-- No service ahead of `x` in the list belongs to this process. -/
def Foremost (s : WatchdogInfo) (pid : BitVec 32) (x : Node) : Prop :=
  ∃ front back, Ring s.root rootNode (front ++ x :: back) ∧
    ∀ y ∈ front, (s.services y).info.pid ≠ pid

/-! ## Searches in a list -/

/-- A lookup in a sound list is a search of the list. -/
theorem look_visitInfo (p : ServiceInfo → Bool) (hlive : ∀ x ∈ l, x ∈ s.live) :
    look (visitInfo p) l s = (s, l.find? fun x => p (s.services x).info) := by
  induction l with
  | nil => rfl
  | cons x l ih =>
      rw [List.forall_mem_cons] at hlive
      rw [look, visitInfo, WatchdogInfo.touch_live hlive.1, List.find?_cons]
      cases p (s.services x).info with
      | true => rfl
      | false => exact ih hlive.2

/-- A search that has the time to end. -/
theorem Sound.search (h : Sound l s) (p : ServiceInfo → Bool) (hfuel : l.length < fuel) :
    forEach (visitInfo p) fuel s.root s = some (s, l.find? fun x => p (s.services x).info) := by
  have hring : Ring s.root rootNode ([] ++ l) := h.ring
  rw [forEach, h.ring.path.next_eq, hring.scan_eq hfuel, look_visitInfo p h.live]

/-- A name and a process are those of the first service that has them. -/
theorem Sound.names_iff (h : Sound l s) : Names s pid name x ↔
    l.find? (fun y => (s.services y).info.pid = pid ∧ (s.services y).info.name = name)
      = some x := by
  constructor
  · rintro ⟨fuel, s', hscan⟩
    have hlong := scan_mono (Nat.le_add_right fuel (l.length + 1)) hscan
    have hlist := h.search (fun info => info.pid = pid ∧ info.name = name)
      (show l.length < fuel + (l.length + 1) by omega)
    rw [forEach, hlong] at hlist
    exact (congrArg Prod.snd (Option.some.inj hlist)).symm
  · intro hfind
    refine ⟨l.length + 1, s, ?_⟩
    rw [h.search _ (Nat.lt_succ_self _), hfind]

/-! ## What the handlers do -/

/-- An event with an addressee changes that service and no other. -/
theorem handle_addressee (haddressee : e.addressee = some (pid, name)) :
    e.handle fuel m s = changeService fuel s pid name (e.effect m.now) := by
  cases e with
  | start => cases haddressee; rfl
  | stop => cases haddressee; rfl
  | alive => cases haddressee; rfl
  | subAlive => cases haddressee; rfl
  | register => cases haddressee
  | unregister => cases haddressee
  | subRegister => cases haddressee
  | subUnregister => cases haddressee

/-- What a handler makes of a sound list: it changes the first service of the
process, if that has the name. -/
theorem Sound.handle_eq (h : Sound l s) (haddressee : e.addressee = some (pid, name))
    (hfuel : l.length < fuel) :
    e.handle fuel m s =
      match l.find? fun y => (s.services y).info.pid = pid with
      | none => some s
      | some y =>
          if (s.services y).info.name = name then
            some (s.store y (e.effect m.now (s.services y)))
          else some s := by
  rw [handle_addressee haddressee, changeService, getServiceListWithPID, h.search _ hfuel]
  cases l.find? fun y => (s.services y).info.pid = pid with
  | none => rfl
  | some y => rfl

theorem hearSub_ne {subId : BitVec 32} {subs : List ListSubService}
    (h : ∃ sub ∈ subs, sub.subId = subId) : ∃ now, hearSub subId now subs ≠ subs := by
  induction subs with
  | nil =>
      obtain ⟨sub, hsub, -⟩ := h
      cases hsub
  | cons first rest ih =>
      by_cases hfirst : first.subId = subId
      · refine ⟨first.ats + 1, fun heq => ?_⟩
        rw [hearSub, if_pos hfirst] at heq
        have hats : first.ats + 1 = first.ats :=
          congrArg ListSubService.ats (List.cons.inj heq).1
        omega
      · obtain ⟨sub, hsub, hid⟩ := h
        rcases List.mem_cons.mp hsub with rfl | hsub
        · exact absurd hid hfirst
        · obtain ⟨now, hne⟩ := ih ⟨sub, hsub, hid⟩
          refine ⟨now, fun heq => hne ?_⟩
          rw [hearSub, if_neg hfirst] at heq
          exact (List.cons.inj heq).2

/-- An event that is applied leaves its mark, if the clock has moved. -/
theorem effect_ne (haddressee : e.addressee = some (pid, name)) (hknown : e.Known service) :
    ∃ now, e.effect now service ≠ service := by
  have hclock : ∀ service' : Int → ListService, (∀ now, (service' now).ats = now) →
      ∃ now, service' now ≠ service := by
    intro service' hats
    refine ⟨service.ats + 1, fun heq => ?_⟩
    have hsame := congrArg ListService.ats heq
    rw [hats] at hsame
    omega
  cases e with
  | start => exact hclock _ fun _ => rfl
  | stop => exact hclock _ fun _ => rfl
  | alive => exact hclock _ fun _ => rfl
  | subAlive pid name subId =>
      obtain ⟨now, hne⟩ := hearSub_ne hknown
      exact ⟨now, fun heq => hne (congrArg ListService.subRoot heq)⟩
  | register => cases haddressee
  | unregister => cases haddressee
  | subRegister => cases haddressee
  | subUnregister => cases haddressee

/-- **Events reach the service they name** just when no service of the same
process is further ahead in the list. -/
theorem delivered_iff (hrun : Run (Happens debug) (init root services start).info tr s)
    (haddressee : e.addressee = some (pid, name)) (hnames : Names s pid name x)
    (hknown : e.Known (s.services x)) : Delivered s e x ↔ Foremost s pid x := by
  obtain ⟨l, hsound⟩ := sound_run hrun
  have hfind := hsound.names_iff.mp hnames
  obtain ⟨hx, front, back, hl, hahead⟩ := List.find?_eq_some_iff_append.mp hfind
  obtain ⟨hpid, hname⟩ := of_decide_eq_true hx
  constructor
  · intro hdelivered
    refine ⟨front, back, hl ▸ hsound.ring, fun y hy hsame => ?_⟩
    -- the first service of the process is ahead of `x`, and has another name
    obtain ⟨z, hz⟩ : ∃ z, front.find? (fun y => (s.services y).info.pid = pid) = some z := by
      apply Option.isSome_iff_exists.mp
      rw [List.find?_isSome]
      exact ⟨y, hy, by simp [hsame]⟩
    have hother : (s.services z).info.name ≠ name := by
      intro hzname
      have hzpid : (s.services z).info.pid = pid := by simpa using List.find?_some hz
      have hnot := hahead z (List.mem_of_find?_eq_some hz)
      simp [hzpid, hzname] at hnot
    have hfirst : l.find? (fun y => (s.services y).info.pid = pid) = some z := by
      rw [hl, List.find?_append, hz, Option.some_or]
    obtain ⟨now, hne⟩ := effect_ne haddressee hknown
    obtain ⟨rounds, hhandle⟩ := hdelivered { firstMeets with now }
    have hresult := hhandle (rounds + (l.length + 1)) (Nat.le_add_right ..)
    rw [hsound.handle_eq haddressee (by omega), hfirst] at hresult
    dsimp only at hresult
    rw [if_neg hother, Option.some.injEq] at hresult
    apply hne
    have hservice := congrArg (fun t => WatchdogInfo.services t x) hresult
    simp only [WatchdogInfo.store, Function.update_self] at hservice
    exact hservice.symm
  · rintro ⟨front', back', hring, hnone⟩ m
    refine ⟨l.length + 1, fun fuel hfuel => ?_⟩
    have hfirst : l.find? (fun y => (s.services y).info.pid = pid) = some x := by
      rw [hsound.ring.unique hring]
      refine List.find?_eq_some_iff_append.mpr ⟨by simp [hpid], front', back', rfl, fun y hy => ?_⟩
      simp [hnone y hy]
    rw [hsound.handle_eq haddressee (by omega), hfirst]
    exact if_pos hname

/-- The process that has been silent says that it is alive. -/
theorem delivered_silent :
    Delivered silentDaemon.info (.alive 7 [97]) 1 ↔ Foremost silentDaemon.info 7 1 := by
  have hregister : Happens false firstDaemon.info (.event (.register 7 [97] [] 1 30) 0)
      (enterService firstMeets firstDaemon.info silentService.info) :=
    .event (m := firstMeets) rfl
      (show WDEvent.handle 1 firstMeets firstDaemon.info (.register 7 [97] [] 1 30) = some _
        from rfl)
  have hstart : Happens false (enterService firstMeets firstDaemon.info silentService.info)
      (.event (.start 7 [97]) 0) silentDaemon.info :=
    .event (m := firstMeets) rfl
      (show WDEvent.handle 2 firstMeets _ (.start 7 [97]) = some _ from rfl)
  exact delivered_iff ((Run.single hregister).snoc hstart) rfl ⟨2, silentDaemon.info, rfl⟩ trivial

/-- Process 7 has registered as `a`. -/
def registered : WatchdogInfo :=
  enterService firstMeets firstDaemon.info ⟨7, [97], [], 1, 30⟩

/-- It is gone, and another process 7 has registered as `b`. -/
def reused : WatchdogInfo :=
  enterService firstMeets (registered.store 1 (registered.services 1)) ⟨7, [98], [], 1, 30⟩

/-- The second of them is not started. -/
theorem reused_not_delivered : ∃ tr, Run (Happens false) firstDaemon.info tr reused ∧
    Names reused 7 [98] 2 ∧ ¬Delivered reused (.start 7 [98]) 2 := by
  have hfirst : Happens false firstDaemon.info (.event (.register 7 [97] [] 1 30) 0) registered :=
    .event (m := firstMeets) rfl
      (show WDEvent.handle 1 firstMeets firstDaemon.info (.register 7 [97] [] 1 30) = some _
        from rfl)
  have hsecond : Happens false registered (.event (.register 7 [98] [] 1 30) 0) reused :=
    .event (m := firstMeets) rfl
      (show WDEvent.handle 2 firstMeets registered (.register 7 [98] [] 1 30) = some _ from rfl)
  refine ⟨_, (Run.single hfirst).snoc hsecond, ⟨3, reused, rfl⟩, fun hdelivered => ?_⟩
  obtain ⟨rounds, hhandle⟩ := hdelivered firstMeets
  have hresult := hhandle (rounds + 3) (Nat.le_add_right ..)
  have hstarted := congrArg (fun r => r.map fun t => (WatchdogInfo.services t 2).bActive) hresult
  cases hstarted

end Watchdog

import Mathlib.Data.Finset.Basic
import PiFrame.WatchdogServices

/-!
# The list of services is sound

Whatever the watchdog hears, and however its passes end, its services form a ring
of allocated nodes.  The statements carry a property `P` of single services along,
so that they serve every invariant of this kind.
-/

namespace Watchdog

open RingList Transition

variable {P : ListService → Prop} {x : Node} {l : List Node} {s s' : WatchdogInfo}
  {service : ListService} {fuel : Nat} {m : Meets} {pid : BitVec 32} {name : List UInt8}

/-- The services `l` are linked and allocated, and have the property `P`. -/
structure Linked (P : ListService → Prop) (l : List Node) (s : WatchdogInfo) : Prop where
  ring : Ring s.root rootNode l
  live : ∀ x ∈ l, x ∈ s.live
  each : ∀ x ∈ l, P (s.services x)
  fault : s.fault = false

/-- An event leaves alone what belongs to the passes. -/
structure Untimed (s s' : WatchdogInfo) : Prop where
  lts : s'.lts = s.lts
  reboot : s'.requestRebootTs = s.requestRebootTs
  exited : s'.exited = s.exited

theorem Untimed.refl (s : WatchdogInfo) : Untimed s s := ⟨rfl, rfl, rfl⟩

theorem Untimed.trans {t : WatchdogInfo} (h : Untimed s t) (h' : Untimed t s') : Untimed s s' :=
  ⟨h'.lts.trans h.lts, h'.reboot.trans h.reboot, h'.exited.trans h.exited⟩

theorem untimed_store : Untimed s (s.store x service) := ⟨rfl, rfl, rfl⟩

theorem untimed_removeService : Untimed s (s.removeService x) := ⟨rfl, rfl, rfl⟩

theorem untimed_enterService (info : ServiceInfo) : Untimed s (enterService m s info) := by
  rw [enterService]
  split <;> exact ⟨rfl, rfl, rfl⟩

/-! ## One service -/

theorem WatchdogInfo.touch_live (h : x ∈ s.live) : s.touch x = s := by
  simp [WatchdogInfo.touch, h]

theorem WatchdogInfo.store_live (h : x ∈ s.live) (service : ListService) :
    s.store x service = { s with services := Function.update s.services x service } := by
  rw [WatchdogInfo.store, touch_live h]

/-- A service is changed. -/
theorem Linked.store (h : Linked P l s) (hx : x ∈ l) (hP : P service) :
    Linked P l (s.store x service) := by
  rw [WatchdogInfo.store_live (h.live x hx)]
  refine ⟨h.ring, h.live, fun y hy => ?_, h.fault⟩
  show P (Function.update s.services x service y)
  by_cases hyx : y = x
  · rw [hyx, Function.update_self]
    exact hP
  · rw [Function.update_of_ne hyx]
    exact h.each y hy

/-- A service is taken out. -/
theorem Linked.removeService (h : Linked P l s) (hx : x ∈ l) :
    ∃ l', Linked P l' (s.removeService x) := by
  obtain ⟨front, back, rfl⟩ := List.append_of_mem hx
  have hout : x ∉ front ++ back :=
    (List.nodup_middle.mp (List.nodup_cons.mp h.ring.nodup).2).notMem
  have hsub : ∀ y ∈ front ++ back, y ∈ front ++ x :: back := by
    intro y hy
    rcases List.mem_append.mp hy with hy | hy
    · exact List.mem_append_left _ hy
    · exact List.mem_append_right _ (List.mem_cons_of_mem x hy)
  refine ⟨front ++ back, h.ring.listDel, fun y hy => ?_, fun y hy => h.each y (hsub y hy), ?_⟩
  · exact Finset.mem_erase.mpr ⟨fun heq => hout (heq ▸ hy), h.live y (hsub y hy)⟩
  · show (s.fault || decide (x ∉ s.live)) = false
    rw [h.fault, decide_eq_false (not_not_intro (h.live x hx))]
    rfl

/-- A new service goes into the list, as the last of it. -/
theorem Linked.enterService (h : Linked P l s) {info : ServiceInfo}
    (hP : P ⟨info, [], false, 0, 0, 0⟩) : ∃ l', Linked P l' (enterService m s info) := by
  rw [Watchdog.enterService]
  by_cases hvalid : m.validNew = true
  · rw [if_pos hvalid]
    obtain ⟨hfresh, hroot⟩ := m.fresh s.live
    have hout : m.calloc s.live ∉ rootNode :: l := by
      intro hmem
      rcases List.mem_cons.mp hmem with heq | hmem
      · exact hroot heq
      · exact hfresh (h.live _ hmem)
    refine ⟨l ++ [m.calloc s.live], h.ring.listAddTail hout, fun y hy => ?_, fun y hy => ?_,
      h.fault⟩
    · rcases List.mem_append.mp hy with hy | hy
      · exact Finset.mem_insert_of_mem (h.live y hy)
      · rw [List.mem_singleton.mp hy]
        exact Finset.mem_insert_self ..
    · dsimp only
      rcases List.mem_append.mp hy with hy | hy
      · have hne : y ≠ m.calloc s.live := fun heq => hfresh (heq ▸ h.live y hy)
        rw [Function.update_of_ne hne]
        exact h.each y hy
      · rw [List.mem_singleton.mp hy, Function.update_self]
        exact hP
  · rw [if_neg hvalid]
    exact ⟨l, h⟩

/-! ## Searches -/

/-- A search by the information changes nothing. -/
theorem Linked.visitInfo (h : Linked P l s) {p : ServiceInfo → Bool} {found : Option Node}
    (hsearch : forEach (visitInfo p) fuel s.root s = some (s', found)) :
    s' = s ∧ ∀ x, found = some x → x ∈ l := by
  refine h.ring.scan_invariant (fun t => t = s) (fun x hx t ht => ?_) rfl hsearch
  rw [ht]
  exact WatchdogInfo.touch_live (h.live x hx)

/-- `P` does not depend on the name of a service. -/
def Nameless (P : ListService → Prop) : Prop :=
  ∀ service name, P service → P { service with info := { service.info with name } }

/-- A search by name shortens names. -/
theorem Linked.visitName (h : Linked P l s) (hP : Nameless P) {name' : List UInt8}
    {found : Option Node}
    (hsearch : getServiceListWithName fuel s name = some ((s', name'), found)) :
    Linked P l s' ∧ Untimed s s' ∧ ∀ x, found = some x → x ∈ l := by
  have hinv := h.ring.scan_invariant (fun t => Linked P l t.1 ∧ Untimed s t.1)
    (fun x hx t ht => ⟨ht.1.store hx (hP _ _ (ht.1.each x hx)), ht.2.trans untimed_store⟩)
    ⟨h, Untimed.refl s⟩ hsearch
  exact ⟨hinv.1.1, hinv.1.2, hinv.2⟩

/-! ## Events -/

/-- What an event makes of the service it reaches. -/
def WDEvent.effect (now : Int) : WDEvent → ListService → ListService
  | .start _ _, service =>
      { service with bActive := true, expireCount := service.fullCount, ats := now, last := now }
  | .stop _ _, service =>
      { service with bActive := false, expireCount := service.fullCount, ats := now }
  | .alive _ _, service =>
      { service with bActive := true, expireCount := service.fullCount, ats := now, last := now }
  | .subRegister _ _ subId timeout, service =>
      { service with
        subRoot := service.subRoot ++ [⟨subId, timeout.toInt, timeout.toInt, now, now, false⟩] }
  | .subUnregister _ _ subId, service =>
      { service with subRoot := service.subRoot.eraseP fun sub => sub.subId = subId }
  | .subAlive _ _ subId, service => { service with subRoot := hearSub subId now service.subRoot }
  | .register .., service => service
  | .unregister .., service => service

/-- What an event does keeps `P`. -/
def WDEvent.Keeps (P : ListService → Prop) (now : Int) : WDEvent → Prop
  | .register pid _ params eMode timeout =>
      ∀ name, P ⟨⟨pid, name, params, eMode, timeout⟩, [], false, 0, 0, 0⟩
  | e => ∀ service, P service → P (e.effect now service)

/-- After a registration the list is linked, and has what is required of a service in each. -/
theorem Linked.addServiceList (h : Linked P l s) (hP : Nameless P) {info : ServiceInfo}
    (hnew : ∀ name, P ⟨{ info with name }, [], false, 0, 0, 0⟩)
    (hadd : Watchdog.addServiceList fuel m s info = some s') :
    ∃ l', Linked P l' s' ∧ Untimed s s' := by
  rw [Watchdog.addServiceList] at hadd
  cases hsearch : getServiceListWithName fuel s info.name with
  | none =>
      rw [hsearch] at hadd
      cases hadd
  | some result =>
      obtain ⟨⟨s₁, name⟩, found⟩ := result
      obtain ⟨hlinked, huntimed, hmem⟩ := h.visitName hP hsearch
      rw [hsearch] at hadd
      cases found with
      | none =>
          cases hadd
          obtain ⟨l', hentered⟩ := hlinked.enterService (hnew name)
          exact ⟨l', hentered, huntimed.trans (untimed_enterService _)⟩
      | some x =>
          dsimp only at hadd
          by_cases hold : m.validOld = true
          · rw [if_pos hold] at hadd
            cases hadd
            exact ⟨l, hlinked, huntimed⟩
          · rw [if_neg hold] at hadd
            cases hadd
            obtain ⟨l₁, hremoved⟩ := hlinked.removeService (hmem x rfl)
            obtain ⟨l', hentered⟩ := hremoved.enterService (hnew name)
            exact ⟨l', hentered,
              (huntimed.trans untimed_removeService).trans (untimed_enterService _)⟩

/-- After the removal of a service the list is linked. -/
theorem Linked.removeServiceList (h : Linked P l s)
    (hremove : Watchdog.removeServiceList fuel s pid name = some s') :
    ∃ l', Linked P l' s' ∧ Untimed s s' := by
  rw [Watchdog.removeServiceList] at hremove
  split at hremove
  · cases hremove
  · next hsearch =>
      cases hremove
      obtain ⟨rfl, -⟩ := h.visitInfo hsearch
      exact ⟨l, h, Untimed.refl _⟩
  · next hsearch =>
      cases hremove
      obtain ⟨rfl, hmem⟩ := h.visitInfo hsearch
      obtain ⟨l', hremoved⟩ := h.removeService (hmem _ rfl)
      exact ⟨l', hremoved, untimed_removeService⟩

/-- A change of the service that has been found. -/
theorem Linked.changeService (h : Linked P l s) {change : ListService → ListService}
    (hP : ∀ service, P service → P (change service))
    (hchange : Watchdog.changeService fuel s pid name change = some s') :
    Linked P l s' ∧ Untimed s s' := by
  rw [Watchdog.changeService, getServiceListWithPID] at hchange
  split at hchange
  · cases hchange
  · next hsearch =>
      cases hchange
      obtain ⟨rfl, -⟩ := h.visitInfo hsearch
      exact ⟨h, Untimed.refl _⟩
  · next hsearch =>
      obtain ⟨rfl, hmem⟩ := h.visitInfo hsearch
      dsimp only at hchange
      split at hchange
      · cases hchange
        exact ⟨h.store (hmem _ rfl) (hP _ (h.each _ (hmem _ rfl))), untimed_store⟩
      · cases hchange
        exact ⟨h, Untimed.refl _⟩

/-- After the registration of a sub-service the list is linked. -/
theorem Linked.addSubServiceList (h : Linked P l s) (hP : Nameless P) {subId timeout : BitVec 32}
    (hnew : ∀ service, P service →
      P ((WDEvent.subRegister pid name subId timeout).effect m.now service))
    (hadd : Watchdog.addSubServiceList fuel m s name subId timeout = some s') :
    ∃ l', Linked P l' s' ∧ Untimed s s' := by
  rw [Watchdog.addSubServiceList] at hadd
  split at hadd
  · cases hadd
  · next hsearch =>
      cases hadd
      obtain ⟨hlinked, huntimed, -⟩ := h.visitName hP hsearch
      exact ⟨l, hlinked, huntimed⟩
  · next s₁ _ x hsearch =>
      obtain ⟨hlinked, huntimed, hmem⟩ := h.visitName hP hsearch
      have hx := hmem x rfl
      by_cases hold : m.validOld = true
      · rw [if_pos hold] at hadd
        cases hadd
        exact ⟨l, hlinked.store hx (hnew _ (hlinked.each x hx)), huntimed.trans untimed_store⟩
      · rw [if_neg hold] at hadd
        cases hadd
        obtain ⟨l', hremoved⟩ := hlinked.removeService hx
        exact ⟨l', hremoved, huntimed.trans untimed_removeService⟩

/-- After the removal of a sub-service the list is linked. -/
theorem Linked.removeSubServiceList (h : Linked P l s) {subId : BitVec 32} {now : Int}
    (hP : ∀ service, P service → P ((WDEvent.subUnregister pid name subId).effect now service))
    (hremove : Watchdog.removeSubServiceList fuel s pid subId = some s') :
    Linked P l s' ∧ Untimed s s' := by
  rw [Watchdog.removeSubServiceList, getServiceListWithPID] at hremove
  split at hremove
  · cases hremove
  · next hsearch =>
      cases hremove
      obtain ⟨rfl, -⟩ := h.visitInfo hsearch
      exact ⟨h, Untimed.refl _⟩
  · next x hsearch =>
      cases hremove
      obtain ⟨rfl, hmem⟩ := h.visitInfo hsearch
      exact ⟨h.store (hmem x rfl) (hP _ (h.each x (hmem x rfl))), untimed_store⟩

/-- Every event keeps the services linked, and `P` if it keeps it of each service. -/
theorem Linked.handle (h : Linked P l s) (hP : Nameless P) {e : WDEvent} (he : e.Keeps P m.now)
    (hhandle : e.handle fuel m s = some s') : ∃ l', Linked P l' s' ∧ Untimed s s' := by
  cases e with
  | register pid name params eMode timeout =>
      refine h.addServiceList hP ?_ hhandle
      exact he
  | unregister pid name => exact h.removeServiceList hhandle
  | start pid name => exact ⟨l, h.changeService he hhandle⟩
  | stop pid name => exact ⟨l, h.changeService he hhandle⟩
  | alive pid name => exact ⟨l, h.changeService he hhandle⟩
  | subRegister pid name subId timeout => exact h.addSubServiceList hP he hhandle
  | subUnregister pid name subId => exact ⟨l, h.removeSubServiceList he hhandle⟩
  | subAlive pid name subId => exact ⟨l, h.changeService he hhandle⟩

/-! ## Passes -/

variable {p : Pass} {debug : Bool} {valid : Node → Bool} {cts : Int} {todo : List Node}

/-- A service is brought up to date, and then it may be acted upon; nothing else happens to the
list before that. -/
theorem serviceUpdate_outcome (debug : Bool) (valid : Node → Bool) (cts : Int)
    (hlive : x ∈ p.info.live) :
    ∃ service, serviceUpdate debug valid cts x p =
        .keep ⟨p.info.store x service, p.visited ++ [x], p.acted⟩ ∨
      serviceUpdate debug valid cts x p =
        watchdogAction debug x ⟨p.info.store x service, p.visited ++ [x], p.acted ++ [x]⟩ := by
  have hend : ∀ (service : ListService) (r : List ListSubService × Bool),
      let p' : Pass := ⟨p.info.store x { service with subRoot := r.1 }, p.visited ++ [x], p.acted⟩
      let verdict := if r.2 then watchdogAction debug x { p' with acted := p'.acted ++ [x] }
        else .keep p'
      ∃ service, verdict = .keep ⟨p.info.store x service, p.visited ++ [x], p.acted⟩ ∨
        verdict =
          watchdogAction debug x ⟨p.info.store x service, p.visited ++ [x], p.acted ++ [x]⟩ := by
    intro service r
    refine ⟨{ service with subRoot := r.1 }, ?_⟩
    cases hact : r.2 with
    | true => exact .inr (if_pos rfl)
    | false => exact .inl (if_neg Bool.false_ne_true)
  rw [serviceUpdate]
  dsimp only
  rw [WatchdogInfo.touch_live hlive]
  exact hend _ _

/-- The process ends, or the service is freed. -/
theorem watchdogAction_outcome (debug : Bool) (x : Node) (p : Pass) :
    watchdogAction debug x p = .quit { p with info := { p.info with exited := true } } ∨
      watchdogAction debug x p = .unlink { p with info := p.info.freeService x } := by
  rw [watchdogAction]
  split
  · exact .inl rfl
  · exact .inr rfl

/-- What a pass over allocated services keeps: those that stay are still allocated. -/
def StillLive (todo : List Node) (p : Pass) (r : List Node × Pass × Bool) : Prop :=
  r.2.1.info.fault = false ∧ (∀ y ∉ todo, y ∈ p.info.live → y ∈ r.2.1.info.live) ∧
    ∀ y ∈ r.1, y ∈ r.2.1.info.live

/-- A sweep frees the services that it removes and no other, so it never looks at a service that
has been freed. -/
theorem sweep_live (debug : Bool) (valid : Node → Bool) (cts : Int) (hnodup : todo.Nodup)
    (hlive : ∀ x ∈ todo, x ∈ p.info.live) (hfault : p.info.fault = false) :
    StillLive todo p (sweep (serviceUpdate debug valid cts) todo p) := by
  induction todo generalizing p with
  | nil => exact ⟨hfault, fun y _ hy => hy, fun y hy => by cases hy⟩
  | cons x todo ih =>
      obtain ⟨hout, hnodup'⟩ := List.nodup_cons.mp hnodup
      have hx := hlive x List.mem_cons_self
      have htodo : ∀ y ∈ todo, y ≠ x ∧ y ∈ p.info.live := fun y hy =>
        ⟨fun heq => hout (heq ▸ hy), hlive y (List.mem_cons_of_mem x hy)⟩
      obtain ⟨service, hkeep | hact⟩ := serviceUpdate_outcome debug valid cts hx
      · rw [sweep, hkeep]
        obtain ⟨hfault', hothers, hkept⟩ : StillLive todo _ (sweep (serviceUpdate debug valid cts)
            todo ⟨p.info.store x service, p.visited ++ [x], p.acted⟩) := by
          apply ih hnodup'
          · exact fun y hy => (htodo y hy).2
          · rw [WatchdogInfo.store_live hx]
            exact hfault
        refine ⟨hfault', fun y hy => hothers y (List.not_mem_of_not_mem_cons hy), fun y hy => ?_⟩
        rcases List.mem_cons.mp hy with rfl | hy
        · exact hothers y hout hx
        · exact hkept y hy
      · rcases watchdogAction_outcome debug x
          ⟨p.info.store x service, p.visited ++ [x], p.acted ++ [x]⟩ with hquit | hunlink
        · rw [sweep, hact, hquit]
          refine ⟨?_, fun y _ hy => hy, fun y hy => (htodo y hy).2⟩
          rw [WatchdogInfo.store_live hx]
          exact hfault
        · rw [sweep, hact, hunlink]
          obtain ⟨hfault', hothers, hkept⟩ : StillLive todo _ (sweep
              (serviceUpdate debug valid cts) todo
              ⟨(p.info.store x service).freeService x, p.visited ++ [x], p.acted ++ [x]⟩) := by
            apply ih hnodup'
            · exact fun y hy => Finset.mem_erase.mpr (htodo y hy)
            · rw [WatchdogInfo.store_live hx]
              simp [WatchdogInfo.freeService, WatchdogInfo.touch, hx, hfault]
          refine ⟨hfault', fun y hy hmem => ?_, hkept⟩
          obtain ⟨hne, hrest⟩ := List.ne_and_not_mem_of_not_mem_cons hy
          exact hothers y hrest (Finset.mem_erase.mpr ⟨hne, hmem⟩)

/-- The services are linked and allocated. -/
abbrev Sound (l : List Node) (s : WatchdogInfo) : Prop := Linked (fun _ => True) l s

/-- A pass of the watchdog leaves the list linked. -/
theorem Sound.processWDUpdate (h : Sound l s)
    (hupdate : Watchdog.processWDUpdate fuel debug valid cts s = some p) :
    ∃ l', Sound l' p.info := by
  rw [Watchdog.processWDUpdate] at hupdate
  split at hupdate
  · cases hupdate
    exact ⟨l, h⟩
  · split at hupdate
    · split at hupdate
      · cases hupdate
      · next q hpass =>
          cases hupdate
          rw [watchdogServiceUpdate] at hpass
          split at hpass
          · cases hpass
          · next root q left hwalk =>
              cases hpass
              obtain ⟨hresult, hring⟩ := h.ring.walk_spec hwalk
              obtain ⟨hfault, -, hkept⟩ : StillLive l ⟨s, [], []⟩ _ :=
                sweep_live debug valid cts (List.nodup_cons.mp h.ring.nodup).2 h.live h.fault
              rw [← hresult] at hfault hkept
              exact ⟨_, hring, hkept, fun _ _ => trivial, hfault⟩
    · cases hupdate
      exact ⟨l, h⟩

/-! ## Runs -/

/-- One event, or one call of `processWDUpdate`, at any time and with any timeouts.
`fuel` bounds the rounds of each loop. -/
inductive Happens (debug : Bool) : WatchdogInfo → Label → WatchdogInfo → Prop
  | event {s s' : WatchdogInfo} {fuel : Nat} {m : Meets} {e : WDEvent}
      (running : s.exited = false) (outcome : e.handle fuel m s = some s') :
      Happens debug s (.event e m.now) s'
  | update {s : WatchdogInfo} {fuel : Nat} {valid : Node → Bool} {cts : Int} {p : Pass}
      (running : s.exited = false)
      (outcome : processWDUpdate fuel debug valid cts s = some p) :
      Happens debug s (.update valid cts p.visited p.acted) p.info

variable {root : Links Node} {services : Node → ListService} {start : Int} {tr : List Label}

/-- Every event keeps what is required of nothing. -/
theorem keeps_true (e : WDEvent) (now : Int) : e.Keeps (fun _ => True) now := by
  cases e with
  | register pid name params eMode timeout => exact fun _ => trivial
  | unregister pid name => exact fun _ _ => trivial
  | start pid name => exact fun _ _ => trivial
  | stop pid name => exact fun _ _ => trivial
  | alive pid name => exact fun _ _ => trivial
  | subRegister pid name subId timeout => exact fun _ _ => trivial
  | subUnregister pid name subId => exact fun _ _ => trivial
  | subAlive pid name subId => exact fun _ _ => trivial

/-- Whatever arrives, be it an event or the time of a pass, leaves the list linked. -/
theorem Sound.happens {label : Label} (h : Sound l s) (hstep : Happens debug s label s') :
    ∃ l', Sound l' s' := by
  cases hstep with
  | event running outcome =>
      obtain ⟨l', hlinked, -⟩ := h.handle (fun _ _ _ => trivial) (keeps_true _ _) outcome
      exact ⟨l', hlinked⟩
  | update running outcome => exact h.processWDUpdate outcome

/-- In every run the services are linked and allocated. -/
theorem sound_run (hrun : Run (Happens debug) (init root services start).info tr s) :
    ∃ l, Sound l s := by
  refine hrun.invariant (fun s => ∃ l, Sound l s) ?_ fun _ _ _ ⟨l, h⟩ hstep => h.happens hstep
  exact ⟨[], ring_init, fun _ h => absurd h List.not_mem_nil,
    fun _ h => absurd h List.not_mem_nil, rfl⟩

end Watchdog

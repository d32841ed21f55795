import PiFrame.WatchdogLinks

/-!
# When the watchdog gives a service up

The counters only go down, and the second they were brought up to date goes along
with them.  `ServiceOk` says where they stand: what is left of the full count is
the full count less the seconds since the last `START`, `ALIVE` or `SUB_ALIVE`.
So a counter is negative in a pass exactly when more seconds have gone by.

An `int` holds the difference as long as a pass comes within 2^31 seconds of the
one before.  After a longer gap the counter comes out positive again.
-/

namespace Watchdog

open RingList Transition

/-! ## Counters -/

/-- The seconds that a sub-service has. -/
def ListSubService.limit (sub : ListSubService) : Int :=
  if sub.alive then sub.timeout + 1 else sub.timeout

/-- Where a sub-service stands after the pass at `lts`. -/
structure SubOk (lts now : Int) (sub : ListSubService) : Prop where
  timeout : 0 ≤ sub.timeout ∧ sub.timeout < 2 ^ 31 - 1
  count : sub.expireCount = sub.limit - (sub.ats - sub.heard)
  nonneg : 0 ≤ sub.expireCount
  heard : sub.heard ≤ sub.ats
  late : lts ≤ sub.ats
  early : sub.ats ≤ now

/-- Where a service stands after the pass at `lts`. -/
structure ServiceOk (lts now : Int) (service : ListService) : Prop where
  timeout : service.info.timeout.toNat < 2 ^ 31 - 1
  nonneg : 0 ≤ service.expireCount
  small : service.expireCount < 2 ^ 31
  count : service.bActive = true →
    service.expireCount = service.info.timeout.toNat + 1 - (service.ats - service.last)
  late : service.bActive = true → lts ≤ service.ats
  early : service.bActive = true → service.ats ≤ now
  subs : ∀ sub ∈ service.subRoot, SubOk lts now sub

variable {lts now cts : Int} {sub : ListSubService} {subs : List ListSubService}
  {service : ListService} {x : Node} {l todo : List Node} {debug : Bool} {valid : Node → Bool}
  {s : WatchdogInfo} {p : Pass}

/-- An `int` keeps what fits. -/
theorem toInt32_of_fits {n : Int} (hlow : -2 ^ 31 ≤ n) (hhigh : n < 2 ^ 31) : toInt32 n = n := by
  rw [toInt32, Int.bmod_eq_of_le]
  · omega
  · omega

/-- The sub-services of a service: the loop finds an expired one if there is one,
and otherwise brings all of them up to date. -/
theorem watchdogSubServiceUpdate_spec (hok : ∀ sub ∈ subs, SubOk lts now sub) (hnow : now ≤ cts)
    (hpace : cts - lts ≤ 2 ^ 31) :
    ((watchdogSubServiceUpdate cts subs).2 = true ↔
        ∃ sub ∈ subs, sub.limit < cts - sub.heard) ∧
      ((watchdogSubServiceUpdate cts subs).2 = false →
        ∀ sub ∈ (watchdogSubServiceUpdate cts subs).1, SubOk cts cts sub) := by
  induction subs with
  | nil => simp [watchdogSubServiceUpdate]
  | cons sub rest ih =>
      obtain ⟨hiff, hrest⟩ := ih fun sub hsub => hok sub (List.mem_cons_of_mem _ hsub)
      have hsub := hok sub List.mem_cons_self
      have hlimit : sub.limit ≤ sub.timeout + 1 := by
        rw [ListSubService.limit]
        split <;> omega
      have htimeout := hsub.timeout
      have hcount := hsub.count
      have hnonneg := hsub.nonneg
      have hheard := hsub.heard
      have hlate := hsub.late
      have hearly := hsub.early
      have hint : toInt32 (sub.expireCount - (cts - sub.ats)) =
          sub.expireCount - (cts - sub.ats) := toInt32_of_fits (by omega) (by omega)
      rw [watchdogSubServiceUpdate]
      simp only [hint]
      by_cases hneg : sub.expireCount - (cts - sub.ats) < 0
      · rw [if_pos hneg]
        refine ⟨iff_of_true rfl ⟨sub, List.mem_cons_self, by omega⟩, fun h => by cases h⟩
      · rw [if_neg hneg]
        have hkept : SubOk cts cts
            { sub with expireCount := sub.expireCount - (cts - sub.ats), ats := cts } := by
          refine ⟨htimeout, ?_, Int.not_lt.mp hneg, ?_, le_rfl, le_rfl⟩
          · show sub.expireCount - (cts - sub.ats) = sub.limit - (cts - sub.heard)
            omega
          · show sub.heard ≤ cts
            omega
        constructor
        · rw [hiff]
          constructor
          · rintro ⟨sub', hmem, hexpired⟩
            exact ⟨sub', List.mem_cons_of_mem _ hmem, hexpired⟩
          · rintro ⟨sub', hmem, hexpired⟩
            rcases List.mem_cons.mp hmem with rfl | hmem
            · omega
            · exact ⟨sub', hmem, hexpired⟩
        · intro hnone sub' hmem
          rcases List.mem_cons.mp hmem with rfl | hmem
          · exact hkept
          · exact hrest hnone sub' hmem

/-- The counter of a service is negative exactly if it is active and has not been
alive for too long. -/
theorem ServiceOk.countDown (hok : ServiceOk lts now service) (hnow : now ≤ cts)
    (hpace : cts - lts ≤ 2 ^ 31) :
    ((service.countDown cts).expireCount < 0 ↔ service.bActive = true ∧
        (service.info.timeout.toNat : Int) + 1 < cts - service.last) ∧
      (¬ (service.countDown cts).expireCount < 0 → ∀ subRoot,
        (∀ sub ∈ subRoot, SubOk cts cts sub) →
          ServiceOk cts cts { service.countDown cts with subRoot }) := by
  have htimeout := hok.timeout
  have hnonneg := hok.nonneg
  have hsmall := hok.small
  rw [ListService.countDown]
  by_cases hactive : service.bActive = true
  · have hcount := hok.count hactive
    have hlate := hok.late hactive
    have hearly := hok.early hactive
    have hint : toInt32 (service.expireCount - (cts - service.ats)) =
        service.expireCount - (cts - service.ats) := toInt32_of_fits (by omega) (by omega)
    simp only [if_pos hactive, hint]
    constructor
    · constructor
      · intro hneg
        exact ⟨hactive, by omega⟩
      · rintro ⟨-, hexpired⟩
        omega
    · intro hnot subRoot hsubs
      refine ⟨htimeout, Int.not_lt.mp hnot, ?_, fun _ => ?_, fun _ => le_rfl, fun _ => le_rfl,
        hsubs⟩
      · show service.expireCount - (cts - service.ats) < 2 ^ 31
        omega
      · show service.expireCount - (cts - service.ats) =
          (service.info.timeout.toNat : Int) + 1 - (cts - service.last)
        omega
  · simp only [if_neg hactive]
    constructor
    · constructor
      · intro hneg
        omega
      · rintro ⟨hactive', -⟩
        exact absurd hactive' hactive
    · intro _ subRoot hsubs
      exact ⟨htimeout, hnonneg, hsmall, fun h => absurd h hactive, fun h => absurd h hactive,
        fun h => absurd h hactive, hsubs⟩

/-- Counting down leaves the registration of the service alone. -/
@[simp] theorem ListService.countDown_info : (service.countDown cts).info = service.info := by
  rw [ListService.countDown]
  split <;> rfl

@[simp] theorem ListService.countDown_subRoot :
    (service.countDown cts).subRoot = service.subRoot := by
  rw [ListService.countDown]
  split <;> rfl

/-! ## A pass -/

/-- What a pass takes a service out for: its process is gone, it is active and has
not been alive for too long, or one of its sub-services has not. -/
def Doomed (valid : Node → Bool) (cts : Int) (x : Node) (service : ListService) : Prop :=
  valid x = false ∨
    (service.bActive = true ∧ (service.info.timeout.toNat : Int) + 1 < cts - service.last) ∨
    ∃ sub ∈ service.subRoot, sub.limit < cts - sub.heard

instance (service : ListService) : Decidable (Doomed valid cts x service) :=
  inferInstanceAs (Decidable (_ ∨ _ ∧ _ ∨ _))

/-- What `watchdogAction` ends the process for. -/
def Reboots (debug : Bool) (service : ListService) : Prop :=
  service.info.eMode = epfwdModeReboot ∧ debug = false

instance (service : ListService) : Decidable (Reboots debug service) :=
  inferInstanceAs (Decidable (_ ∧ _))

/-- What a pass makes of a service: if its time is over it is acted upon, and if not it is in
order until the next pass. -/
theorem serviceUpdate_cases (debug : Bool) (valid : Node → Bool) (hlive : x ∈ p.info.live)
    (hok : ServiceOk lts now (p.info.services x)) (hnow : now ≤ cts)
    (hpace : cts - lts ≤ 2 ^ 31) :
    ∃ service, service.info = (p.info.services x).info ∧
      (Doomed valid cts x (p.info.services x) →
        serviceUpdate debug valid cts x p =
          watchdogAction debug x
            ⟨p.info.store x service, p.visited ++ [x], p.acted ++ [x]⟩) ∧
      (¬ Doomed valid cts x (p.info.services x) → ServiceOk cts cts service ∧
        serviceUpdate debug valid cts x p =
          .keep ⟨p.info.store x service, p.visited ++ [x], p.acted⟩) := by
  have htouch := WatchdogInfo.touch_live hlive
  obtain ⟨hexpired, hkept⟩ := hok.countDown hnow hpace
  obtain ⟨hsub, hsubs⟩ := watchdogSubServiceUpdate_spec hok.subs hnow hpace
  by_cases hvalid : valid x = false
  · refine ⟨p.info.services x, rfl, fun _ => ?_, fun hnot => absurd (.inl hvalid) hnot⟩
    simp [serviceUpdate, hvalid, htouch]
  · have hvalid' : valid x = true := Bool.not_eq_false _ ▸ hvalid
    by_cases hneg : ((p.info.services x).countDown cts).expireCount < 0
    · refine ⟨{ (p.info.services x).countDown cts with subRoot := (p.info.services x).subRoot },
        by simp, fun _ => ?_, fun hnot => ?_⟩
      · simp [serviceUpdate, hvalid', htouch, hneg]
      · exact absurd (.inr (.inl (hexpired.mp hneg))) hnot
    · have hiff : Doomed valid cts x (p.info.services x) ↔
          (watchdogSubServiceUpdate cts (p.info.services x).subRoot).2 = true := by
        rw [Doomed, ← hexpired, hsub]
        simp [hvalid', hneg]
      refine ⟨{ (p.info.services x).countDown cts with
        subRoot := (watchdogSubServiceUpdate cts (p.info.services x).subRoot).1 }, by simp,
        fun hdoomed => ?_, fun hnot => ?_⟩
      · simp [serviceUpdate, hvalid', htouch, hneg, hiff.mp hdoomed]
      · have hnone : (watchdogSubServiceUpdate cts (p.info.services x).subRoot).2 = false := by
          rw [hiff] at hnot
          exact Bool.eq_false_of_not_eq_true hnot
        refine ⟨hkept hneg _ (hsubs hnone), ?_⟩
        simp [serviceUpdate, hvalid', htouch, hneg, hnone]

/-- How far a pass came over the services `todo`: it is over unless a service
ended the process, and then it has come to that one. -/
def Reached (debug : Bool) (valid : Node → Bool) (cts : Int) (services : Node → ListService)
    (seen rest : List Node) : Bool → Prop
  | false => rest = [] ∧
      ∀ x ∈ seen, ¬ (Doomed valid cts x (services x) ∧ Reboots debug (services x))
  | true => ∃ before x, seen = before ++ [x] ∧
      (Doomed valid cts x (services x) ∧ Reboots debug (services x)) ∧
      ∀ y ∈ before, ¬ (Doomed valid cts y (services y) ∧ Reboots debug (services y))

/-- The services that are taken out. -/
def doomed (valid : Node → Bool) (cts : Int) (services : Node → ListService)
    (l : List Node) : List Node :=
  l.filter fun x => Doomed valid cts x (services x)

/-- The services that stay. -/
def spared (valid : Node → Bool) (cts : Int) (services : Node → ListService)
    (l : List Node) : List Node :=
  l.filter fun x => ¬ Doomed valid cts x (services x)

/-- A service that the pass has not come to yet. -/
structure Waiting (lts now : Int) (services : Node → ListService) (s : WatchdogInfo)
    (x : Node) : Prop where
  live : x ∈ s.live
  same : s.services x = services x
  ok : ServiceOk lts now (services x)

/-- What a pass over `todo` leads to. -/
structure Swept (debug : Bool) (valid : Node → Bool) (cts : Int) (services : Node → ListService)
    (todo : List Node) (p : Pass) (kept : List Node) (q : Pass) (left : Bool) : Prop where
  order : ∃ seen rest, todo = seen ++ rest ∧ q.visited = p.visited ++ seen ∧
    q.acted = p.acted ++ doomed valid cts services seen ∧
    kept = spared valid cts services seen ++ rest ∧ Reached debug valid cts services seen rest left
  exited : q.info.exited = left
  fault : q.info.fault = false
  unchanged : q.info.lts = p.info.lts ∧ q.info.requestRebootTs = p.info.requestRebootTs
  others : ∀ y ∉ todo, q.info.services y = p.info.services y ∧ (y ∈ p.info.live → y ∈ q.info.live)
  kept_live : left = false → ∀ x ∈ kept, x ∈ q.info.live
  kept_ok : left = false → ∀ x ∈ kept, ServiceOk cts cts (q.info.services x)

variable {services : Node → ListService} {kept seen rest : List Node} {q : Pass} {left : Bool}

/-- A sweep goes on behind a service that does not make it quit. -/
theorem Reached.cons (h : Reached debug valid cts services seen rest left)
    (hx : ¬ (Doomed valid cts x (services x) ∧ Reboots debug (services x))) :
    Reached debug valid cts services (x :: seen) rest left := by
  cases left with
  | false =>
      refine ⟨h.1, fun y hy => ?_⟩
      rcases List.mem_cons.mp hy with rfl | hy
      · exact hx
      · exact h.2 y hy
  | true =>
      obtain ⟨before, z, rfl, hz, hbefore⟩ := h
      refine ⟨x :: before, z, rfl, hz, fun y hy => ?_⟩
      rcases List.mem_cons.mp hy with rfl | hy
      · exact hx
      · exact hbefore y hy

/-- The pass goes on after a service that stays, which is in order from now on. -/
theorem Swept.keep {service : ListService} (hx : ¬ Doomed valid cts x (services x))
    (hlive : x ∈ p.info.live) (hout : x ∉ todo) (hok : ServiceOk cts cts service)
    (h : Swept debug valid cts services todo
      ⟨p.info.store x service, p.visited ++ [x], p.acted⟩ kept q left) :
    Swept debug valid cts services (x :: todo) p (x :: kept) q left := by
  obtain ⟨seen, rest, rfl, hvisited, hacted, rfl, hreached⟩ := h.order
  have hothers := h.others
  rw [WatchdogInfo.store_live hlive] at hothers
  obtain ⟨hservice, hstill⟩ := hothers x hout
  constructor
  case order =>
    refine ⟨x :: seen, rest, rfl, ?_, ?_, ?_, hreached.cons fun hends => hx hends.1⟩
    · rw [hvisited, List.append_assoc, List.singleton_append]
    · rw [hacted, doomed, doomed, List.filter_cons_of_neg (by simpa using hx)]
    · rw [spared, spared, List.filter_cons_of_pos (by simpa using hx), List.cons_append]
  case exited => exact h.exited
  case fault => exact h.fault
  case unchanged =>
    have hunchanged := h.unchanged
    rw [WatchdogInfo.store_live hlive] at hunchanged
    exact hunchanged
  case others =>
    intro y hy
    obtain ⟨hne, hy'⟩ := List.ne_and_not_mem_of_not_mem_cons hy
    obtain ⟨hsame, hlive'⟩ := hothers y hy'
    exact ⟨hsame.trans (Function.update_of_ne hne ..), hlive'⟩
  case kept_live =>
    intro hleft y hy
    rcases List.mem_cons.mp hy with rfl | hy
    · exact hstill hlive
    · exact h.kept_live hleft y hy
  case kept_ok =>
    intro hleft y hy
    rcases List.mem_cons.mp hy with rfl | hy
    · rw [hservice]
      simpa using hok
    · exact h.kept_ok hleft y hy

/-- The pass goes on after a service that is taken out, and has been acted upon once. -/
theorem Swept.unlink {service : ListService} (hx : Doomed valid cts x (services x))
    (hstay : ¬ Reboots debug (services x)) (hlive : x ∈ p.info.live)
    (h : Swept debug valid cts services todo
      ⟨(p.info.store x service).freeService x, p.visited ++ [x], p.acted ++ [x]⟩ kept q left) :
    Swept debug valid cts services (x :: todo) p kept q left := by
  obtain ⟨seen, rest, rfl, hvisited, hacted, rfl, hreached⟩ := h.order
  have hothers := h.others
  have hunchanged := h.unchanged
  rw [WatchdogInfo.store_live hlive] at hothers hunchanged
  constructor
  case order =>
    refine ⟨x :: seen, rest, rfl, ?_, ?_, ?_, hreached.cons fun hends => hstay hends.2⟩
    · rw [hvisited, List.append_assoc, List.singleton_append]
    · rw [hacted, doomed, doomed, List.filter_cons_of_pos (by simpa using hx), List.append_assoc,
        List.singleton_append]
    · rw [spared, spared, List.filter_cons_of_neg (by simpa using hx)]
  case exited => exact h.exited
  case fault => exact h.fault
  case unchanged => exact hunchanged
  case others =>
    intro y hy
    obtain ⟨hne, hy'⟩ := List.ne_and_not_mem_of_not_mem_cons hy
    obtain ⟨hsame, hlive'⟩ := hothers y hy'
    exact ⟨hsame.trans (Function.update_of_ne hne ..),
      fun hmem => hlive' (Finset.mem_erase.mpr ⟨hne, hmem⟩)⟩
  case kept_live => exact h.kept_live
  case kept_ok => exact h.kept_ok

/-- The action of a service that reboots the machine ends the pass. -/
theorem watchdogAction_quit (h : Reboots debug (p.info.services x)) :
    watchdogAction debug x p = .quit { p with info := { p.info with exited := true } } :=
  if_pos h

/-- The action of any other service restarts it and unlinks it. -/
theorem watchdogAction_unlink (h : ¬ Reboots debug (p.info.services x)) :
    watchdogAction debug x p = .unlink { p with info := p.info.freeService x } :=
  if_neg h

/-- **One pass over a list of services.**  It acts upon those whose time is over, in their
order, up to the first that reboots the machine; the others are in order afterwards. -/
theorem sweep_spec (debug : Bool) (valid : Node → Bool) (hnodup : todo.Nodup)
    (hwait : ∀ x ∈ todo, Waiting lts now services p.info x) (hnow : now ≤ cts)
    (hpace : cts - lts ≤ 2 ^ 31) (hrunning : p.info.exited = false)
    (hfault : p.info.fault = false) :
    Swept debug valid cts services todo p (sweep (serviceUpdate debug valid cts) todo p).1
      (sweep (serviceUpdate debug valid cts) todo p).2.1
      (sweep (serviceUpdate debug valid cts) todo p).2.2 := by
  induction todo generalizing p with
  | nil =>
      exact
        { order := ⟨[], [], rfl, by simp [sweep], by simp [sweep, doomed],
            by simp [sweep, spared], rfl, fun x h => by cases h⟩
          exited := hrunning
          fault := hfault
          unchanged := ⟨rfl, rfl⟩
          others := fun y _ => ⟨rfl, id⟩
          kept_live := fun _ x h => by cases h
          kept_ok := fun _ x h => by cases h }
  | cons x todo ih =>
      obtain ⟨hout, hnodup'⟩ := List.nodup_cons.mp hnodup
      obtain ⟨hlive, hsame, hok⟩ := hwait x List.mem_cons_self
      obtain ⟨service, hinfo, hact, hkeep⟩ :=
        serviceUpdate_cases debug valid hlive (hsame.symm ▸ hok) hnow hpace
      have hne : ∀ {y}, y ∈ todo → y ≠ x := fun hy heq => hout (heq ▸ hy)
      have hafter : ∀ y ∈ todo, Waiting lts now services (p.info.store x service) y := by
        intro y hy
        obtain ⟨hlive', hsame', hok'⟩ := hwait y (List.mem_cons_of_mem x hy)
        rw [WatchdogInfo.store_live hlive]
        exact ⟨hlive', (Function.update_of_ne (hne hy) ..).trans hsame', hok'⟩
      rw [sweep]
      by_cases hdoomed : Doomed valid cts x (services x)
      · rw [hact (hsame.symm ▸ hdoomed)]
        have hmode : Reboots debug ((p.info.store x service).services x) ↔
            Reboots debug (services x) := by
          simp [Reboots, WatchdogInfo.store, hinfo, hsame]
        by_cases hreboots : Reboots debug (services x)
        · rw [watchdogAction_quit (hmode.mpr hreboots)]
          exact
            { order := ⟨[x], todo, rfl, rfl, by simp [doomed, hdoomed], by simp [spared, hdoomed],
                [], x, rfl, ⟨hdoomed, hreboots⟩, fun y hy => by cases hy⟩
              exited := rfl
              fault := by simp [WatchdogInfo.store_live hlive, hfault]
              unchanged := by simp [WatchdogInfo.store_live hlive]
              others := by
                intro y hy
                rw [WatchdogInfo.store_live hlive]
                exact ⟨Function.update_of_ne (List.ne_of_not_mem_cons hy) .., id⟩
              kept_live := fun h => by cases h
              kept_ok := fun h => by cases h }
        · rw [watchdogAction_unlink (mt hmode.mp hreboots)]
          refine (ih hnodup' (fun y hy => ?_) ?_ ?_).unlink hdoomed hreboots hlive
          · obtain ⟨hlive', hsame', hok'⟩ := hafter y hy
            exact ⟨Finset.mem_erase.mpr ⟨hne hy, hlive'⟩, hsame', hok'⟩
          · rw [WatchdogInfo.store_live hlive]
            exact hrunning
          · simp [WatchdogInfo.freeService, WatchdogInfo.store_live hlive,
              WatchdogInfo.touch, hlive, hfault]
      · obtain ⟨hok', hupdate⟩ := hkeep (hsame.symm ▸ hdoomed)
        rw [hupdate]
        refine (ih hnodup' hafter ?_ ?_).keep hdoomed hlive hout hok'
        · rw [WatchdogInfo.store_live hlive]
          exact hrunning
        · rw [WatchdogInfo.store_live hlive]
          exact hfault

end Watchdog

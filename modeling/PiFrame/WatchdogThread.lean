import PiFrame.WatchdogQueue

/-!
# The thread of the watchdog

`processWatchdog` waits to be signalled, for a second at most.  One signal may stand for
several events, so it takes and handles events until there is none left, and only then
looks for services that have been silent for too long.

The rounds of the thread are steps of the queue and the services, in an order.
-/

namespace WatchdogQueue

open RingList Transition Watchdog

/-- Where the thread stands: in `pthread_cond_timedwait`, in the loop over the events, or
before `processWDUpdate`. -/
inductive Place
  | waiting
  | looping
  | updating
  deriving DecidableEq, Repr

structure Rounds where
  station : Station
  place : Place

/-- The steps of the main thread, and the rounds of the other one. -/
inductive ThreadStep (debug : Bool) : Rounds → Act → Rounds → Prop
  | receive {d d' : Station} {place : Place} {packet : List UInt8}
      (step : Step debug d (.receive packet) d') :
      ThreadStep debug ⟨d, place⟩ (.receive packet) ⟨d', place⟩
  /-- The first event, if there is one, in the section of the wait. -/
  | wake {d d' : Station} (step : Step debug d .get d') :
      ThreadStep debug ⟨d, .waiting⟩ .get ⟨d', .looping⟩
  | handle {d d' : Station} {packet : List UInt8} (step : Step debug d (.process packet) d') :
      ThreadStep debug ⟨d, .looping⟩ (.process packet) ⟨d', .looping⟩
  | next {d d' : Station} (step : Step debug d .get d') (found : d'.event ≠ none) :
      ThreadStep debug ⟨d, .looping⟩ .get ⟨d', .looping⟩
  | drained {d d' : Station} (step : Step debug d .get d') (empty : d'.event = none) :
      ThreadStep debug ⟨d, .looping⟩ .get ⟨d', .updating⟩
  | update {d d' : Station} (step : Step debug d .update d') :
      ThreadStep debug ⟨d, .updating⟩ .update ⟨d', .waiting⟩

/-- The packets that have been let through, and those that have been handled. -/
def admitted (tr : List Act) : List (List UInt8) :=
  tr.filterMap fun act =>
    match act with
    | .receive packet => if KnownType packet then some packet else none
    | _ => none

def handled (tr : List Act) : List (List UInt8) :=
  tr.filterMap fun act =>
    match act with
    | .process packet => some packet
    | _ => none

/-- Everything that had been let through when the thread last looked has been handled. -/
def Drained (tr : List Act) : Prop :=
  ∃ early late, tr = early ++ .get :: late ∧ (∀ act ∈ late, ∃ packet, act = .receive packet) ∧
    handled tr = admitted early

/-- The packets of the items in the queue. -/
def packets (q : EventQueue) (l : List Node) : List (List UInt8) := l.map fun x => (q.items x).packet

variable {q : EventQueue} {a : Allocator} {packet : List UInt8} {l : List Node} {d d' : Station}
  {debug : Bool} {act : Act} {tr : List Act} {g g' : Rounds} {root : Links Node}
  {items : Node → ListItem}

/-! ## The queue -/

/-- A packet with a size is the last one of the queue. -/
theorem Queued.received (h : Queued l q) (hsize : copySize packet ≠ 0) :
    ∃ l', Queued l' (watchdogAddEvent a q packet) ∧
      packets (watchdogAddEvent a q packet) l' = packets q l ++ [packet] := by
  obtain ⟨l', hqueue⟩ := h.addEvent (a := a) hsize
  obtain ⟨hfresh, hhead⟩ := a.fresh q.live
  have hnew : ∀ x ∈ l, x ≠ a.calloc q.live := fun x hx heq => hfresh (heq ▸ h.live x hx)
  have hout : a.calloc q.live ∉ eventHead :: l := by
    intro hmem
    rcases List.mem_cons.mp hmem with heq | hmem
    · exact hhead heq
    · exact hnew _ hmem rfl
  refine ⟨l', hqueue, ?_⟩
  have hadd : watchdogAddEvent a q packet =
      { q with
        eventRoot := q.eventRoot.listAddTail (a.calloc q.live) eventHead
        items := Function.update q.items (a.calloc q.live) ⟨packet, packet.take (copySize packet)⟩
        live := insert (a.calloc q.live) q.live
        eventQCount := q.eventQCount + 1 } := by
    rw [watchdogAddEvent, allocItem, if_pos (Nat.pos_of_ne_zero hsize)]
    simp [linkItem]
  rw [hadd] at hqueue ⊢
  obtain rfl : l' = l ++ [a.calloc q.live] := hqueue.ring.unique (h.ring.listAddTail hout)
  simp only [packets, List.map_append, List.map_singleton, Function.update_self]
  congr 1
  exact List.map_congr_left fun x hx => by rw [Function.update_of_ne (hnew x hx)]

/-- The first event is taken, if there is one. -/
theorem Queued.taken (h : Queued l q) :
    (l = [] ∧ watchdogGetEvent q = (q, none)) ∨
      ∃ x rest, l = x :: rest ∧ Queued rest (watchdogGetEvent q).1 ∧
        (watchdogGetEvent q).1.items = q.items ∧ (watchdogGetEvent q).2 = some (q.items x) := by
  obtain ⟨⟨l', hqueue⟩, -⟩ := h.getEvent
  rw [watchdogGetEvent, h.ring.path.next_eq] at hqueue ⊢
  cases l with
  | nil => exact .inl ⟨rfl, rfl⟩
  | cons x rest =>
      obtain ⟨hhead, -⟩ := List.nodup_cons.mp h.ring.nodup
      have hne : x ≠ eventHead := fun heq => hhead (heq ▸ List.mem_cons_self)
      rw [List.headD_cons, if_neg hne] at hqueue ⊢
      have hring : Ring q.eventRoot eventHead ([] ++ x :: rest) := h.ring
      have hrest : l' = [] ++ rest := hqueue.ring.unique hring.listDel
      rw [hrest] at hqueue
      exact .inr ⟨x, rest, rfl, hqueue, rfl, rfl⟩

/-- `watchdogGetEvent` moves the first event from the queue into the hand. -/
theorem Queued.look {d d' : Station} (h : Queued l d.queue) (hstep : Step debug d .get d')
    (done : List (List UInt8)) : ∃ l', Queued l' d'.queue ∧
      done ++ (d.event.map ListItem.packet).toList ++ packets d.queue l =
        done ++ (d'.event.map ListItem.packet).toList ++ packets d'.queue l' := by
  cases hstep with
  | get running idle =>
      rcases h.taken with ⟨rfl, hget⟩ | ⟨x, rest, rfl, hqueue, hitems, hget⟩
      · refine ⟨[], ?_, ?_⟩
        · simp only [hget]
          exact h
        · simp only [hget, idle]
      · refine ⟨rest, hqueue, ?_⟩
        simp [hget, hitems, idle, packets]

/-- The thread finds nothing only when there is nothing. -/
theorem Queued.nothing {d d' : Station} (h : Queued l d.queue) (hstep : Step debug d .get d')
    (hempty : d'.event = none) : l = [] ∧ d.event = none := by
  cases hstep with
  | get running idle =>
      rcases h.taken with ⟨hnil, -⟩ | ⟨x, rest, -, -, -, hget⟩
      · exact ⟨hnil, idle⟩
      · cases hempty.symm.trans hget

/-! ## Rounds -/

/-- What has been let through is handled, in hand, or in the queue. -/
structure Orderly (tr : List Act) (g : Rounds) : Prop where
  order : ∃ l, Queued l g.station.queue ∧
    admitted tr = handled tr ++ (g.station.event.map ListItem.packet).toList ++ packets g.station.queue l
  idle : g.place ≠ .looping → g.station.event = none
  drained : g.place = .updating → Drained tr

/-- A packet that is received is admitted if its type is known. -/
theorem admitted_receive (tr : List Act) (packet : List UInt8) :
    admitted (tr ++ [.receive packet]) = admitted tr ++ if KnownType packet then [packet] else [] := by
  have hone : admitted [.receive packet] = if KnownType packet then [packet] else [] := by
    by_cases hknown : KnownType packet <;> simp [admitted, hknown]
  rw [← hone]
  exact List.filterMap_append ..

theorem admitted_quiet (hquiet : ∀ packet, act ≠ .receive packet) :
    admitted (tr ++ [act]) = admitted tr := by
  have hone : admitted [act] = [] := by cases act <;> simp_all [admitted]
  rw [← List.append_nil (admitted tr), ← hone]
  exact List.filterMap_append ..

theorem handled_process (tr : List Act) (packet : List UInt8) :
    handled (tr ++ [.process packet]) = handled tr ++ [packet] :=
  List.filterMap_append ..

theorem handled_quiet (hquiet : ∀ packet, act ≠ .process packet) :
    handled (tr ++ [act]) = handled tr := by
  have hone : handled [act] = [] := by cases act <;> simp_all [handled]
  rw [← List.append_nil (handled tr), ← hone]
  exact List.filterMap_append ..

/-- Events that come after the last look wait for the next round. -/
theorem Drained.receive (h : Drained tr) (packet : List UInt8) :
    Drained (tr ++ [.receive packet]) := by
  obtain ⟨early, late, rfl, hlate, hall⟩ := h
  refine ⟨early, late ++ [.receive packet], by simp, fun act hact => ?_, ?_⟩
  · rcases List.mem_append.1 hact with hold | hnew
    · exact hlate act hold
    · exact ⟨packet, List.mem_singleton.1 hnew⟩
  · rw [handled_quiet fun _ => Act.noConfusion, hall]

/-- Every step leaves the thread with its timer between the test of the flag and the call. -/
theorem Orderly.step (h : Orderly tr g) (hstep : ThreadStep debug g act g')
    (hsized : ∀ packet, act = .receive packet → Sized packet) : Orderly (tr ++ [act]) g' := by
  obtain ⟨l, hqueue, horder⟩ := h.order
  cases hstep with
  | @receive d d' place packet step =>
      cases step with
      | receive running a packet =>
          refine ⟨?_, h.idle, fun hplace => (h.drained hplace).receive packet⟩
          rw [admitted_receive, handled_quiet fun _ => Act.noConfusion, horder]
          show ∃ l', Queued l' (eventWDHandler a d.queue packet) ∧
            _ = _ ++ _ ++ packets (eventWDHandler a d.queue packet) l'
          rw [eventWDHandler]
          by_cases hknown : KnownType packet
          · obtain ⟨l', hqueue', hpackets⟩ := hqueue.received (a := a) (hsized packet rfl hknown)
            rw [if_pos hknown, if_pos hknown]
            exact ⟨l', hqueue', by rw [hpackets, List.append_assoc]⟩
          · rw [if_neg hknown, if_neg hknown, List.append_nil]
            exact ⟨l, hqueue, rfl⟩
  | @wake d d' step =>
      refine ⟨?_, fun hplace => absurd rfl hplace, fun hplace => Place.noConfusion hplace⟩
      rw [admitted_quiet fun _ => Act.noConfusion, handled_quiet fun _ => Act.noConfusion, horder]
      exact hqueue.look step _
  | @handle d d' packet step =>
      refine ⟨?_, fun hplace => absurd rfl hplace, fun hplace => Place.noConfusion hplace⟩
      rw [admitted_quiet fun _ => Act.noConfusion, handled_process, horder]
      cases step with
      | process running taken outcome =>
          refine ⟨l, hqueue, ?_⟩
          simp [taken]
  | next step found =>
      refine ⟨?_, fun hplace => absurd rfl hplace, fun hplace => Place.noConfusion hplace⟩
      rw [admitted_quiet fun _ => Act.noConfusion, handled_quiet fun _ => Act.noConfusion, horder]
      exact hqueue.look step _
  | @drained d d' step empty =>
      obtain ⟨l', hqueue', hsame⟩ := hqueue.look step (handled tr)
      obtain ⟨rfl, hidle⟩ := hqueue.nothing step empty
      refine ⟨⟨l', hqueue', ?_⟩, fun _ => empty, fun _ => ⟨tr, [], rfl, List.forall_mem_nil _, ?_⟩⟩
      · rw [admitted_quiet fun _ => Act.noConfusion, handled_quiet fun _ => Act.noConfusion, horder]
        exact hsame
      · rw [handled_quiet fun _ => Act.noConfusion, horder]
        have hhand : d.event = none := hidle
        simp [hhand, packets]
  | update step =>
      cases step with
      | update running idle outcome =>
          refine ⟨⟨l, hqueue, ?_⟩, fun _ => idle, fun hplace => Place.noConfusion hplace⟩
          rw [admitted_quiet fun _ => Act.noConfusion, handled_quiet fun _ => Act.noConfusion, horder]

/-! ## Every run -/

theorem ThreadStep.station (h : ThreadStep debug g act g') : Step debug g.station act g'.station := by
  cases h with
  | receive step => exact step
  | wake step => exact step
  | handle step => exact step
  | next step found => exact step
  | drained step empty => exact step
  | update step => exact step

/-- The rounds are steps of the queue and the services. -/
theorem station_run {start : Rounds} (hrun : Run (ThreadStep debug) start tr g) :
    Run (Step debug) start.station tr g.station := by
  induction hrun with
  | nil => exact Run.nil
  | snoc _ hlast ih => exact ih.snoc hlast.station

theorem orderly_init (root : Links Node) (items : Node → ListItem) (info : WatchdogInfo) :
    Orderly [] ⟨init root items info, .waiting⟩ where
  order := ⟨[], ⟨ring_init, nofun, nofun, rfl, rfl⟩, rfl⟩
  idle _ := rfl
  drained := nofun

/-- Handled is what came first. -/
theorem Orderly.inOrder (h : Orderly tr g) : handled tr <+: admitted tr := by
  obtain ⟨l, -, horder⟩ := h.order
  rw [horder, List.append_assoc]
  exact List.prefix_append _ _

/-- As long as the process is up, the rounds are in order; in any case no packet is handled that
was not admitted, and none out of turn. -/
theorem orderly_run {info : WatchdogInfo}
    (hrun : Run (ThreadStep debug) ⟨init root items info, .waiting⟩ tr g) :
    (g.station.queue.fault = false → Orderly tr g) ∧ handled tr <+: admitted tr := by
  refine hrun.history (fun tr g => (g.station.queue.fault = false → Orderly tr g) ∧
    handled tr <+: admitted tr) ⟨fun _ => orderly_init root items info, List.prefix_rfl⟩ ?_
  rintro tr g act g' - ⟨hg, -⟩ hstep
  have horderly := hg hstep.station.running.1
  by_cases hsized : ∀ packet, act = .receive packet → Sized packet
  · have hnext := horderly.step hstep hsized
    exact ⟨fun _ => hnext, hnext.inOrder⟩
  · -- the process goes down, and the packet is not handled
    obtain ⟨packet, rfl, hbad⟩ : ∃ packet, act = .receive packet ∧ ¬ Sized packet := by
      simpa using hsized
    constructor
    · intro hup
      cases hstep with
      | receive step =>
          cases step with
          | receive running a packet => exact absurd hup (by simp [handler_fault hbad])
    · rw [admitted_receive, handled_quiet fun _ => Act.noConfusion]
      exact horderly.inOrder.trans (List.prefix_append _ _)

/-- **The thread of the watchdog.**  Its rounds are steps of the queue and the services.
The packets are handled once and in the order in which they came, and when it looks for
silent services, it has handled every packet that came before it last looked for one. -/
theorem watchdog_rounds {info : WatchdogInfo}
    (hrun : Run (ThreadStep debug) ⟨init root items info, .waiting⟩ tr g) :
    Run (Step debug) (init root items info) tr g.station ∧ handled tr <+: admitted tr ∧
      ∀ front back, tr = front ++ .update :: back → Drained front := by
  refine ⟨station_run hrun, (orderly_run hrun).2, ?_⟩
  rintro front back rfl
  obtain ⟨u, hfront, hback⟩ := hrun.split
  obtain ⟨v, hstep, -⟩ := hback.cons_inv
  have horderly := (orderly_run hfront).1 hstep.station.running.1
  cases hstep with
  | update step => exact horderly.drained rfl

/-- A round with one packet. -/
theorem watchdog_rounds_one_packet : ∃ g,
    Run (ThreadStep false) ⟨fresh, .waiting⟩
      [.receive alivePacket, .get, .process alivePacket, .get, .update] g ∧
    Drained [.receive alivePacket, .get, .process alivePacket, .get] := by
  let meets : Meets := ⟨0, false, false, lowest.calloc, lowest.fresh⟩
  have hrun : Run (ThreadStep false) ⟨fresh, .waiting⟩ [] _ := Run.nil
  have hrun := hrun.snoc (.receive (.receive ⟨rfl, rfl⟩ lowest alivePacket))
  have hrun := hrun.snoc (.wake (.get ⟨by decide, rfl⟩ rfl))
  have hrun := hrun.snoc (.handle (@Step.process false _ ⟨alivePacket, alivePacket⟩ 8 meets [] fresh.info
    ⟨by decide, rfl⟩ rfl rfl))
  have hrun := hrun.snoc (.drained (.get ⟨by decide, rfl⟩ rfl) (by rfl))
  have hrun := hrun.snoc (.update (@Step.update false _ 8 (fun _ => true) 0 ⟨fresh.info, [], []⟩
    ⟨by decide, rfl⟩ rfl rfl))
  exact ⟨_, hrun, (watchdog_rounds hrun).2.2 _ [] rfl⟩

end WatchdogQueue

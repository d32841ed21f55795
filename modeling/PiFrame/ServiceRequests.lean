import PiFrame.ServiceCommand
import PiFrame.UtilFifo

/-!
# The service daemon

`svc.service` has two threads.  One takes events from `q.event` and puts a copy of
every service request into a FIFO of five nodes; the other takes the copies out, has
the shell run the commands, answers those requests that carry a key, and frees the
copy.  The rest of the program allocates, writes and frees blocks of its own
meanwhile.

A request is handled, executed, replied to and freed in steps of different threads,
over the steps of `utilFifo.c`.  The commands are executed once each and in the order
of the events, and so are the replies.
-/

namespace ServiceRequests

open ByteMemory CharBuffer EventHeader Limits ServiceCommand Transition UtilFifo
open Watchdog (readWord word)

def serviceFifoSize : Nat := 5

/-- `eventHandler`: what `serviceAddQueue` is to copy of the event at `event`, if it
is called. -/
def eventHandler (m : Memory) (event : Nat) : Option Message :=
  let id := field m event .id
  if pfeModuleId id = epfModService then
    if id = pfeServiceSystem ∨ id = pfeServiceRequestCommand then
      some (m.load event (pfePayloadSize id))
    else none
  else none

/-- The string in a copy from byte `p` on. -/
def stringAt (data : Message) (p : Nat) : CString where
  bytes := fun i => data.getD (p + i) 0
  terminated := ⟨data.length, by simp⟩

/-- A copy read as `struct PFEServiceSystem`, if its strings end inside their arrays. -/
def decode (data : Message) : Option PFEServiceSystem :=
  let m : Memory := fun i => data.getD i 0
  if h : (stringAt data 20).strlen < maxCommandLength ∧
      (stringAt data 532).strlen < maxBasePathLength then
    some {
      id := field m 0 .id
      key := field m 0 .key
      eCmdType := readWord (m.load 16 4)
      command := stringAt data 20
      resultPath := stringAt data 532
      commandFits := h.1
      pathFits := h.2 }
  else none

/-- `serviceThread`, when it is not inside `PFU_dequeueFIFO`. -/
inductive Worker
  | waiting
  | executing (data : Ptr)
  | replying (data : Ptr) (reply : Option PFEServiceReplyCommand)
  | freeing (data : Ptr)

/-- The daemon. -/
structure Service where
  queueHandle : PFQueue
  worker : Worker
  fgRun : Bool

def eventThread : Task := 0
def serviceThread : Task := 1

/-- What can be seen of a step. -/
inductive Label
  | run
  | handled (data : Message)
  | executed (data : Message) (done : Done)
  | replied (reply : PFEServiceReplyCommand)

/-- The copy that the worker has. -/
def Worker.block : Worker → Option Ptr
  | .waiting => none
  | .executing p => some p
  | .replying p _ => some p
  | .freeing p => some p

/-- The steps of the two threads and of the rest of the program. -/
inductive ServiceStep : Service → Label → Service → Prop
  /-- An event comes, and `serviceAddQueue` is called. -/
  | handle {s : Service} {m : Memory} {event : Nat} {data : Message} (running : s.fgRun = true)
      (dispatch : eventHandler m event = some data)
      (at_call : s.queueHandle.calls eventThread = .idle) :
      ServiceStep s (.handled data)
        { s with queueHandle := s.queueHandle.goto eventThread (.enqueue data) }
  | adding {s : Service} {q : PFQueue} {ev : Event}
      (inside : s.queueHandle.calls eventThread ≠ .idle)
      (step : Step s.queueHandle (eventThread, ev) q)
      (moves : q.calls eventThread ≠ s.queueHandle.calls eventThread) :
      ServiceStep s .run { s with queueHandle := q }
  | fetch {s : Service} (running : s.fgRun = true) (at_worker : s.worker = .waiting)
      (at_call : s.queueHandle.calls serviceThread = .idle) :
      ServiceStep s .run { s with queueHandle := s.queueHandle.goto serviceThread .dequeue }
  | fetching {s : Service} {q : PFQueue} {ev : Event}
      (inside : s.queueHandle.calls serviceThread ≠ .idle)
      (step : Step s.queueHandle (serviceThread, ev) q)
      (moves : q.calls serviceThread ≠ s.queueHandle.calls serviceThread)
      (pending : ∀ data, ev ≠ .ret data) : ServiceStep s .run { s with queueHandle := q }
  /-- The inner loop ends, and the thread waits for a signal. -/
  | fetchedNone {s : Service} {q : PFQueue} (step : Step s.queueHandle (serviceThread, .ret none) q) :
      ServiceStep s .run { s with queueHandle := q }
  | fetched {s : Service} {q : PFQueue} {p : Ptr}
      (step : Step s.queueHandle (serviceThread, .ret (some p)) q) :
      ServiceStep s .run { s with queueHandle := q, worker := .executing p }
  /-- `doServiceEvent` up to the return of `system`, with what was on the stack. -/
  | execute {s : Service} {p : Ptr} {data : Message} {event : PFEServiceSystem}
      {system : Buffer maxCommandLength → Int × Int} {stack : Nat → UInt8}
      (at_worker : s.worker = .executing p) (copy : s.queueHandle.heap p = some data)
      (wellFormed : decode data = some event) :
      ServiceStep s (.executed data (doServiceEvent system stack event))
        { s with worker := .replying p (doServiceEvent system stack event).reply }
  | reply {s : Service} {p : Ptr} {reply : PFEServiceReplyCommand}
      (at_worker : s.worker = .replying p (some reply)) :
      ServiceStep s (.replied reply) { s with worker := .freeing p }
  | noReply {s : Service} {p : Ptr} (at_worker : s.worker = .replying p none) :
      ServiceStep s .run { s with worker := .freeing p }
  | free {s : Service} {p : Ptr} (at_worker : s.worker = .freeing p) :
      ServiceStep s .run
        { s with
          queueHandle := (s.queueHandle.withBlock p none).withGiven p false
          worker := .waiting }
  /-- The rest of the program with its blocks. -/
  | others {s : Service} {q : PFQueue} {k : Task} (step : Step s.queueHandle (k, .run) q)
      (program : q.calls = s.queueHandle.calls)
      (spares : ∀ p, s.worker.block = some p →
        q.heap p = s.queueHandle.heap p ∧ q.given p = s.queueHandle.given p) :
      ServiceStep s .run { s with queueHandle := q }
  /-- A shutdown event, or a signal. -/
  | stop {s : Service} : ServiceStep s .run { s with fgRun := false }

/-- After `serviceInit`. -/
def start (heap : Ptr → Option Message) : Service where
  queueHandle := createFIFO serviceFifoSize heap
  worker := .waiting
  fgRun := true

/-! ## Requests -/

/-- The requests that were taken from `q.event`. -/
def handled (tr : List Label) : List Message :=
  tr.filterMap fun
    | .handled data => some data
    | _ => none

/-- The requests whose commands the shell was given, with what came of them. -/
def executed (tr : List Label) : List (Message × Done) :=
  tr.filterMap fun
    | .executed data done => some (data, done)
    | _ => none

def replied (tr : List Label) : List PFEServiceReplyCommand :=
  tr.filterMap fun
    | .replied reply => some reply
    | _ => none

/-- The copy that an enqueuing call is about to make. -/
def adding : Call → Option Message
  | .enqueue data => some data
  | .allocating data => some data
  | .waiting data => some data
  | .allocated _ data => some data
  | .filled _ data => some data
  | _ => none

namespace Service

/-- The copy that has left the queue and has not been executed. -/
def inHand (s : Service) : Option Ptr :=
  match s.worker with
  | .executing p => some p
  | _ => (s.queueHandle.calls serviceThread).data

/-- The requests under way, the oldest first. -/
def pending (s : Service) : List (Option Message) :=
  s.inHand.toList.map s.queueHandle.heap ++ s.queueHandle.queueRoot.map s.queueHandle.message ++
    (adding (s.queueHandle.calls eventThread)).toList.map some

/-- The reply that is about to be sent. -/
def unsent (s : Service) : Option PFEServiceReplyCommand :=
  match s.worker with
  | .replying _ reply => reply
  | _ => none

end Service

variable {s t : Service} {q q' : PFQueue} {tr : List Label} {ftr : List (Task × Event)}
  {data : Message} {ev : Event} {p : Ptr}

/-- `serviceAddQueue` copies the whole structure: its size is in the id. -/
theorem eventHandler_eq {m : Memory} {event : Nat} (hdata : eventHandler m event = some data) :
    data = m.load event 660 ∧ data.length = 660 := by
  unfold eventHandler at hdata
  have hsize : pfePayloadSize pfeServiceSystem = 660 ∧
      pfePayloadSize pfeServiceRequestCommand = 660 := by decide
  simp only at hdata
  split at hdata
  · split at hdata
    · rename_i hid
      have hlen : data = m.load event 660 := by
        rcases hid with hid | hid
        · rw [hid, hsize.1] at hdata
          exact (Option.some.inj hdata).symm
        · rw [hid, hsize.2] at hdata
          exact (Option.some.inj hdata).symm
      exact ⟨hlen, by rw [hlen, Memory.load, List.length_map, List.length_range]⟩
    · cases hdata
  · cases hdata

/-! ## The two threads at the FIFO -/

theorem serviceThread_ne : serviceThread ≠ eventThread := by decide

theorem calls_goto_of_ne {k l : Task} {c : Call} (hl : l ≠ k) : (q.goto k c).calls l = q.calls l :=
  Function.update_of_ne hl ..

theorem calls_goto_self {k : Task} {c : Call} : (q.goto k c).calls k = c :=
  Function.update_self ..

/-- What a step of the event thread does towards the insertion. -/
inductive Adds (q' : PFQueue) (data : Message) : Event → Prop
  | goes (stays : adding (q'.calls eventThread) = some data) : Adds q' data .run
  | inserts (after : q'.calls eventThread = .idle) : Adds q' data (.inserted data)

/-- A step of `PFU_enqueueFIFO` by the event thread leaves the blocks alone that are in use, and
adds at most its one message. -/
theorem add_step (hstep : Step q (eventThread, ev) q')
    (hadding : adding (q.calls eventThread) = some data)
    (hmoves : q'.calls eventThread ≠ q.calls eventThread) :
    Adds q' data ev ∧ q'.calls serviceThread = q.calls serviceThread ∧ q'.given = q.given ∧
      ∀ p, q.heap p ≠ none → q'.heap p = q.heap p := by
  have hgoes : ∀ {u : PFQueue} {c : Call}, u.calls = q.calls → u.given = q.given →
      adding c = adding (q.calls eventThread) → (∀ p, q.heap p ≠ none → u.heap p = q.heap p) →
      Adds (u.goto eventThread c) data .run ∧
      (u.goto eventThread c).calls serviceThread = q.calls serviceThread ∧
      (u.goto eventThread c).given = q.given ∧
      ∀ p, q.heap p ≠ none → (u.goto eventThread c).heap p = q.heap p :=
    fun hcalls hgiven hc hheap =>
      ⟨.goes ((congrArg adding calls_goto_self).trans (hc.trans hadding)),
        (calls_goto_of_ne serviceThread_ne).trans (congrFun hcalls _), hgiven, hheap⟩
  cases hstep with
  | mallocItem at_call pool fresh => exact hgoes rfl rfl (by rw [at_call]; rfl) fun p _ => rfl
  | emptyRootEmpty at_call pool test => exact hgoes rfl rfl (by rw [at_call]; rfl) fun p _ => rfl
  | emptyRootSeen at_call pool test => exact hgoes rfl rfl (by rw [at_call]; rfl) fun p _ => rfl
  | allocQItem at_call test => exact hgoes rfl rfl (by rw [at_call]; rfl) fun p _ => rfl
  | allocMissed at_call test => exact hgoes rfl rfl (by rw [at_call]; rfl) fun p _ => rfl
  | waited at_call => exact hgoes rfl rfl (by rw [at_call]; rfl) fun p _ => rfl
  | @fill k i copy block at_call fresh =>
      refine hgoes rfl rfl (by rw [at_call]; rfl) fun p hp => Function.update_of_ne ?_ ..
      rintro rfl
      exact hp fresh
  | insert at_call =>
      rw [at_call] at hadding
      cases hadding
      exact ⟨.inserts calls_goto_self, calls_goto_of_ne serviceThread_ne, rfl, fun p _ => rfl⟩
  | malloc fresh => exact absurd rfl hmoves
  | write own => exact absurd rfl hmoves
  | free own => exact absurd rfl hmoves
  | _ =>
      rw [‹q.calls eventThread = _›] at hadding
      cases hadding

/-- What a step of the worker inside `PFU_dequeueFIFO` does to the block it is going to
return: nothing, or it takes it from the queue. -/
inductive Takes (q q' : PFQueue) : Event → Prop
  | goes (kept : (q'.calls serviceThread).data = (q.calls serviceThread).data)
      (stays : adding (q'.calls serviceThread) = none)
      (heap : ∀ p, (q.calls serviceThread).data = some p → q'.heap p = q.heap p) : Takes q q' .run
  | takes {p : Ptr} {message : Message} (before : (q.calls serviceThread).data = none)
      (stays : adding (q'.calls serviceThread) = none)
      (after : (q'.calls serviceThread).data = some p) (heap : q'.heap p = some message) :
      Takes q q' (.taken (some message))

/-- A step of the service thread inside its own call of the queue is a step of a `take` at most. -/
theorem take_step (hinv : Inv ftr q) (hstep : Step q (serviceThread, ev) q')
    (hinside : q.calls serviceThread ≠ .idle) (hnot : adding (q.calls serviceThread) = none)
    (hmoves : q'.calls serviceThread ≠ q.calls serviceThread) (hpending : ∀ block, ev ≠ .ret block) :
    q'.calls eventThread = q.calls eventThread ∧ Takes q q' ev := by
  have hother : ∀ {u : PFQueue} {c : Call}, u.calls = q.calls →
      (u.goto serviceThread c).calls eventThread = q.calls eventThread := fun hcalls =>
    (calls_goto_of_ne serviceThread_ne.symm).trans (congrFun hcalls _)
  have hgoes : ∀ {u : PFQueue} {c : Call}, c.data = (q.calls serviceThread).data →
      adding c = none → (∀ p, (q.calls serviceThread).data = some p → u.heap p = q.heap p) →
      Takes q (u.goto serviceThread c) .run := fun hdata hc hheap =>
    .goes ((congrArg Call.data calls_goto_self).trans hdata)
      ((congrArg adding calls_goto_self).trans hc) hheap
  cases hstep with
  | queueRootEmpty at_call test =>
      exact ⟨hother rfl, hgoes (by rw [at_call]; rfl) rfl fun p _ => rfl⟩
  | queueRootSeen at_call test =>
      exact ⟨hother rfl, hgoes (by rw [at_call]; rfl) rfl fun p _ => rfl⟩
  | takeMissed at_call test =>
      exact ⟨hother rfl, hgoes (by rw [at_call]; rfl) rfl fun p _ => rfl⟩
  | @take k i rest at_call test =>
      -- a node in the queue has a message
      obtain ⟨p, message, hp, hheap, hmessage⟩ :=
        hinv.message_of_mem (i := i) (by rw [test]; exact List.mem_cons_self ..)
      rw [hmessage, hp]
      refine ⟨hother rfl, .takes (by rw [at_call]; rfl) (congrArg adding calls_goto_self)
        (congrArg Call.data calls_goto_self) hheap⟩
  | @freeQItem k i block at_call =>
      -- the node has been emptied, so nothing is freed
      have hitem : q.items i = some .empty := hinv.fits_of at_call
      have hnone : q.itemData i = none := by
        rw [PFQueue.itemData, hitem]
        rfl
      rw [hnone]
      exact ⟨hother rfl, hgoes (by rw [at_call]; rfl) rfl fun p _ => rfl⟩
  | recycle at_call pool =>
      exact ⟨hother rfl, hgoes (by rw [at_call]; rfl) rfl fun p _ => rfl⟩
  | freeItem at_call pool =>
      exact ⟨hother rfl, hgoes (by rw [at_call]; rfl) rfl fun p _ => rfl⟩
  | dequeued at_call => exact absurd rfl (hpending _)
  | malloc fresh => exact absurd rfl hmoves
  | write own => exact absurd rfl hmoves
  | free own => exact absurd rfl hmoves
  | enqueueFIFO at_call => exact absurd at_call hinside
  | dequeueFIFO at_call => exact absurd at_call hinside
  | _ =>
      rw [‹q.calls serviceThread = _›] at hnot
      cases hnot

/-! ## The daemon and its FIFO -/

/-- How the state of the daemon is linked to the labels, by way of a run of the FIFO. -/
structure Linked (tr : List Label) (ftr : List (Task × Event)) (s : Service) : Prop where
  handled : handled tr = enqueued ftr ++ (adding (s.queueHandle.calls eventThread)).toList
  taken : dequeued ftr =
    (executed tr).map (fun e => some e.1) ++ s.inHand.toList.map s.queueHandle.heap
  replies : (executed tr).filterMap (fun e => e.2.reply) = replied tr ++ s.unsent.toList
  adds : s.queueHandle.calls eventThread = .idle ∨
    ∃ data, adding (s.queueHandle.calls eventThread) = some data
  takes : adding (s.queueHandle.calls serviceThread) = none
  busy : ∀ p, s.worker.block = some p → s.queueHandle.calls serviceThread = .idle ∧
    s.queueHandle.given p = true ∧ s.queueHandle.heap p ≠ none

@[simp] theorem handled_run : ServiceRequests.handled (tr ++ [.run]) = ServiceRequests.handled tr := by
  simp [ServiceRequests.handled]

@[simp] theorem handled_handled : ServiceRequests.handled (tr ++ [.handled data]) =
    ServiceRequests.handled tr ++ [data] := by
  simp [ServiceRequests.handled]

@[simp] theorem executed_run : executed (tr ++ [.run]) = executed tr := by
  simp [executed]

@[simp] theorem executed_handled : executed (tr ++ [.handled data]) = executed tr := by
  simp [executed]

@[simp] theorem replied_run : replied (tr ++ [.run]) = replied tr := by
  simp [replied]

@[simp] theorem replied_handled : replied (tr ++ [.handled data]) = replied tr := by
  simp [replied]

/-- One more step of the queue adds what it puts in. -/
@[simp] theorem enqueued_snoc {e : Task × Event} : enqueued (ftr ++ [e]) = enqueued ftr ++ enqueued [e] :=
  List.filterMap_append ..

/-- One more step of the queue adds what it takes out. -/
@[simp] theorem dequeued_snoc {e : Task × Event} : dequeued (ftr ++ [e]) = dequeued ftr ++ dequeued [e] :=
  List.filterMap_append ..

/-- The block in hand is there. -/
theorem Linked.heap_inHand (hs : Linked tr ftr s) (hinv : Inv ftr s.queueHandle)
    (hp : s.inHand = some p) : s.queueHandle.heap p ≠ none := by
  unfold Service.inHand at hp
  split at hp
  · rename_i b hworker
    cases hp
    exact (hs.busy p (by rw [hworker]; rfl)).2.2
  · have howner : s.queueHandle.Owns (.call serviceThread) p := hp
    exact hinv.blocks.there_of_has howner

/-- What the block in hand holds does not depend on blocks elsewhere. -/
theorem Linked.taken_of_heap (hs : Linked tr ftr s)
    (hheap : ∀ p, s.inHand = some p → q.heap p = s.queueHandle.heap p) :
    dequeued ftr = (executed tr).map (fun e => some e.1) ++ s.inHand.toList.map q.heap := by
  rw [hs.taken]
  congr 1
  refine List.map_congr_left fun p hp => (hheap p ?_).symm
  exact Option.mem_toList.mp hp

/-- An event comes: the handler copies it and is about to put it into the FIFO. -/
theorem Linked.handle (hs : Linked tr ftr s) (hidle : s.queueHandle.calls eventThread = .idle) :
    Linked (tr ++ [.handled data]) (ftr ++ [(eventThread, .run)])
      { s with queueHandle := s.queueHandle.goto eventThread (.enqueue data) } := by
  have hself : (s.queueHandle.goto eventThread (.enqueue data)).calls eventThread = .enqueue data :=
    calls_goto_self
  have hother : (s.queueHandle.goto eventThread (.enqueue data)).calls serviceThread =
      s.queueHandle.calls serviceThread := calls_goto_of_ne serviceThread_ne
  have hhand : Service.inHand
      { s with queueHandle := s.queueHandle.goto eventThread (.enqueue data) } = s.inHand := by
    simp only [Service.inHand, hother]
  have hhandled := hs.handled
  rw [hidle] at hhandled
  refine ⟨?_, ?_, ?_, .inr ⟨data, congrArg adding hself⟩, ?_, fun p hp => ?_⟩
  · rw [handled_handled, enqueued_snoc, hhandled, hself]
    simp [enqueued, ServiceRequests.adding]
  · rw [hhand, dequeued_snoc, executed_handled]
    exact (List.append_nil _).trans hs.taken
  · rw [executed_handled, replied_handled]
    exact hs.replies
  · rw [hother]
    exact hs.takes
  · rw [hother]
    exact hs.busy p hp

/-- The event thread goes on inside `PFU_enqueueFIFO`; what it has handled is in the FIFO or in
its hands. -/
theorem Linked.adding (hs : Linked tr ftr s) (hinv : Inv ftr s.queueHandle)
    (hinside : s.queueHandle.calls eventThread ≠ .idle)
    (hstep : Step s.queueHandle (eventThread, ev) q)
    (hmoves : q.calls eventThread ≠ s.queueHandle.calls eventThread) :
    Linked (tr ++ [.run]) (ftr ++ [(eventThread, ev)]) { s with queueHandle := q } := by
  obtain ⟨data, hdata⟩ := hs.adds.resolve_left hinside
  obtain ⟨hadds, hother, hgiven, hheap⟩ := add_step hstep hdata hmoves
  have hhand : Service.inHand { s with queueHandle := q } = s.inHand := by
    simp only [Service.inHand, hother]
  have hhandled := hs.handled
  rw [hdata] at hhandled
  have hev : dequeued [(eventThread, ev)] = [] := by cases hadds <;> rfl
  refine ⟨?_, ?_, ?_, ?_, ?_, fun p hp => ?_⟩
  · rw [handled_run, enqueued_snoc, hhandled]
    cases hadds with
    | goes stays => simp [enqueued, stays]
    | inserts after => simp [enqueued, after, ServiceRequests.adding]
  · rw [hhand, dequeued_snoc, executed_run, hev, List.append_nil]
    exact hs.taken_of_heap fun p hp => hheap p (hs.heap_inHand hinv hp)
  · rw [executed_run, replied_run]
    exact hs.replies
  · cases hadds with
    | goes stays => exact .inr ⟨data, stays⟩
    | inserts after => exact .inl after
  · rw [hother]
    exact hs.takes
  · obtain ⟨hidle, hown, hthere⟩ := hs.busy p hp
    refine ⟨hother.trans hidle, (congrFun hgiven p).trans hown, ?_⟩
    rw [hheap p hthere]
    exact hthere

/-- While a call of the queue is under way, the service thread waits for its end. -/
theorem worker_waiting (hs : Linked tr ftr s) (hbusy : s.queueHandle.calls serviceThread ≠ .idle) :
    s.worker = .waiting := by
  cases hworker : s.worker with
  | waiting => rfl
  | _ => exact absurd (hs.busy _ (by rw [hworker]; rfl)).1 hbusy

/-- The worker goes on inside `PFU_dequeueFIFO`.  As soon as it has taken a message, that
message is the next one to be executed. -/
theorem Linked.fetching (hs : Linked tr ftr s) (hinv : Inv ftr s.queueHandle)
    (hinside : s.queueHandle.calls serviceThread ≠ .idle)
    (hstep : Step s.queueHandle (serviceThread, ev) q)
    (hmoves : q.calls serviceThread ≠ s.queueHandle.calls serviceThread)
    (hpending : ∀ block, ev ≠ .ret block) :
    Linked (tr ++ [.run]) (ftr ++ [(serviceThread, ev)]) { s with queueHandle := q } := by
  obtain ⟨hother, htakes⟩ := take_step hinv hstep hinside hs.takes hmoves hpending
  have hworker := worker_waiting hs hinside
  have hbefore : s.inHand = (s.queueHandle.calls serviceThread).data := by
    simp only [Service.inHand, hworker]
  have hafter : Service.inHand { s with queueHandle := q } = (q.calls serviceThread).data := by
    simp only [Service.inHand, hworker]
  have hev : enqueued [(serviceThread, ev)] = [] := by cases htakes <;> rfl
  refine ⟨?_, ?_, ?_, ?_, ?_, fun p hp => ?_⟩
  · rw [handled_run, enqueued_snoc, hev, hother, List.append_nil]
    exact hs.handled
  · rw [hafter, dequeued_snoc, executed_run]
    cases htakes with
    | goes kept stays heap =>
        rw [kept, ← hbefore]
        exact (List.append_nil _).trans (hs.taken_of_heap fun p hp => heap p (hbefore ▸ hp))
    | takes before stays after heap =>
        have htaken := hs.taken
        rw [hbefore, before] at htaken
        rw [after, htaken]
        simp [dequeued, heap]
  · rw [executed_run, replied_run]
    exact hs.replies
  · rw [hother]
    exact hs.adds
  · cases htakes with
    | goes kept stays heap => exact stays
    | takes before stays after heap => exact stays
  · rw [show (Service.worker { s with queueHandle := q }) = s.worker from rfl, hworker] at hp
    cases hp

/-- A step that neither thread takes at the FIFO, with the block of the worker spared: it is the
worker's until it is freed. -/
theorem Linked.others (hs : Linked tr ftr s) (hinv : Inv ftr s.queueHandle) {k : Task}
    (hstep : Step s.queueHandle (k, .run) q) (hcalls : q.calls = s.queueHandle.calls)
    (hspares : ∀ p, s.worker.block = some p →
      q.heap p = s.queueHandle.heap p ∧ q.given p = s.queueHandle.given p) :
    Linked (tr ++ [.run]) (ftr ++ [(k, .run)]) { s with queueHandle := q } := by
  have hhand : Service.inHand { s with queueHandle := q } = s.inHand := by
    simp only [Service.inHand, hcalls]
  have hheap : ∀ p, s.inHand = some p → q.heap p = s.queueHandle.heap p := by
    intro p hp
    unfold Service.inHand at hp
    split at hp
    · rename_i b hworker
      cases hp
      exact (hspares p (by rw [hworker]; rfl)).1
    · -- a block in the hands of the call is what was taken, before and after
      have hafter := (hinv.step hstep).intact serviceThread p (by rw [hcalls]; exact hp)
      rw [hafter, (quiet_run ftr k).2.2]
      exact (hinv.intact serviceThread p hp).symm
  refine ⟨?_, ?_, ?_, ?_, ?_, fun p hp => ?_⟩
  · rw [handled_run, enqueued_snoc, hcalls]
    exact hs.handled.trans (by simp [enqueued])
  · rw [hhand, dequeued_snoc, executed_run]
    exact (List.append_nil _).trans (hs.taken_of_heap hheap)
  · rw [executed_run, replied_run]
    exact hs.replies
  · rw [hcalls]
    exact hs.adds
  · rw [hcalls]
    exact hs.takes
  · rw [hcalls, (hspares p hp).1, (hspares p hp).2]
    exact hs.busy p hp

/-- When the service thread asks for the next request, the queue takes a step and nothing else
moves. -/
theorem Linked.fetch (hs : Linked tr ftr s) (hworker : s.worker = .waiting)
    (hidle : s.queueHandle.calls serviceThread = .idle) :
    Linked (tr ++ [.run]) (ftr ++ [(serviceThread, .run)])
      { s with queueHandle := s.queueHandle.goto serviceThread .dequeue } := by
  have hself : (s.queueHandle.goto serviceThread .dequeue).calls serviceThread = .dequeue :=
    calls_goto_self
  have hother : (s.queueHandle.goto serviceThread .dequeue).calls eventThread =
      s.queueHandle.calls eventThread := calls_goto_of_ne serviceThread_ne.symm
  have hhand : Service.inHand { s with queueHandle := s.queueHandle.goto serviceThread .dequeue } =
      s.inHand := by
    simp only [Service.inHand, hworker, hself, hidle]
    rfl
  refine ⟨?_, ?_, ?_, ?_, congrArg ServiceRequests.adding hself, fun p hp => ?_⟩
  · rw [handled_run, enqueued_snoc, hother]
    exact hs.handled.trans (by simp [enqueued])
  · rw [hhand, dequeued_snoc, executed_run]
    exact (List.append_nil _).trans hs.taken
  · rw [executed_run, replied_run]
    exact hs.replies
  · rw [hother]
    exact hs.adds
  · rw [show (Service.worker
      { s with queueHandle := s.queueHandle.goto serviceThread .dequeue }) = s.worker from rfl,
      hworker] at hp
    cases hp

/-- `PFU_dequeueFIFO` returns, with a block that holds the oldest request, or with none if there
was no request. -/
theorem Linked.returned (hs : Linked tr ftr s) (hinv : Inv ftr s.queueHandle) {block : Option Ptr}
    (hstep : Step s.queueHandle (serviceThread, .ret block) q) :
    Linked (tr ++ [.run]) (ftr ++ [(serviceThread, .ret block)])
      { s with queueHandle := q, worker := block.elim .waiting .executing } := by
  cases hstep with
  | dequeued at_call =>
      have hgive : (s.queueHandle.give block).calls = s.queueHandle.calls ∧
          (s.queueHandle.give block).heap = s.queueHandle.heap := by
        cases block <;> exact ⟨rfl, rfl⟩
      have hother : ((s.queueHandle.give block).goto serviceThread .idle).calls eventThread =
          s.queueHandle.calls eventThread :=
        (calls_goto_of_ne serviceThread_ne.symm).trans (congrFun hgive.1 _)
      have hself : ((s.queueHandle.give block).goto serviceThread .idle).calls serviceThread = .idle :=
        calls_goto_self
      have hworker := worker_waiting hs (by rw [at_call]; nofun)
      have hbefore : s.inHand = block := by
        simp only [Service.inHand, hworker, at_call]
        rfl
      have hafter : Service.inHand
          { s with
            queueHandle := (s.queueHandle.give block).goto serviceThread .idle
            worker := block.elim .waiting .executing } = block := by
        cases block with
        | none =>
            simp only [Service.inHand, Option.elim, hself]
            rfl
        | some p => rfl
      refine ⟨?_, ?_, ?_, ?_, congrArg ServiceRequests.adding hself, fun p hp => ?_⟩
      · rw [handled_run, enqueued_snoc, hother]
        exact hs.handled.trans (by simp [enqueued])
      · have htaken := hs.taken
        rw [hbefore, ← hgive.2] at htaken
        rw [hafter, dequeued_snoc, executed_run]
        exact (List.append_nil _).trans htaken
      · have hreplies := hs.replies
        have hnone : s.unsent = none := by simp only [Service.unsent, hworker]
        rw [hnone] at hreplies
        rw [executed_run, replied_run, hreplies]
        cases block <;> rfl
      · rw [hother]
        exact hs.adds
      · cases block with
        | none => cases hp
        | some b =>
            cases hp
            exact ⟨hself, Function.update_self .., hs.heap_inHand hinv hbefore⟩

/-- The worker goes on outside the FIFO, with or without the block. -/
theorem Linked.work (hs : Linked tr ftr s) {worker : Worker} {l : Label}
    (hhandled : ServiceRequests.handled (tr ++ [l]) = ServiceRequests.handled tr)
    (htaken : dequeued ftr = (executed (tr ++ [l])).map (fun e => some e.1) ++
      (Service.inHand { s with worker }).toList.map s.queueHandle.heap)
    (hreplies : (executed (tr ++ [l])).filterMap (fun e => e.2.reply) =
      replied (tr ++ [l]) ++ (Service.unsent { s with worker }).toList)
    (hblock : ∀ p, worker.block = some p → s.worker.block = some p) :
    Linked (tr ++ [l]) ftr { s with worker } :=
  ⟨hhandled.trans hs.handled, htaken, hreplies, hs.adds, hs.takes, fun p hp => hs.busy p (hblock p hp)⟩

/-- Every step of the daemon keeps the link, by at most one step of the FIFO.  This is the
simulation: what the daemon handles, the FIFO holds, and the worker executes is one sequence. -/
theorem Linked.step (hs : Linked tr ftr s) (hinv : Inv ftr s.queueHandle) {l : Label}
    (hstep : ServiceStep s l t) :
    (t.queueHandle = s.queueHandle ∧ Linked (tr ++ [l]) ftr t) ∨
      ∃ e, Step s.queueHandle e t.queueHandle ∧ Linked (tr ++ [l]) (ftr ++ [e]) t := by
  have hhand : ∀ p, s.worker.block = some p → (s.queueHandle.calls serviceThread).data = none :=
    fun p hp => by rw [(hs.busy p hp).1]; rfl
  cases hstep with
  | handle running dispatch at_call =>
      exact .inr ⟨_, .enqueueFIFO at_call, hs.handle at_call⟩
  | adding inside step moves => exact .inr ⟨_, step, hs.adding hinv inside step moves⟩
  | fetch running at_worker at_call =>
      exact .inr ⟨_, .dequeueFIFO at_call, hs.fetch at_worker at_call⟩
  | fetching inside step moves pending =>
      exact .inr ⟨_, step, hs.fetching hinv inside step moves pending⟩
  | fetchedNone step =>
      have hworker : s.worker = .waiting := by
        refine worker_waiting hs ?_
        cases step with
        | dequeued at_call =>
            rw [at_call]
            nofun
      have hlinked := hs.returned hinv step
      refine .inr ⟨_, step, ?_⟩
      rwa [show (none : Option Ptr).elim Worker.waiting Worker.executing = s.worker from
        hworker.symm] at hlinked
  | fetched step => exact .inr ⟨_, step, hs.returned hinv step⟩
  | @execute p data event system stack at_worker copy wellFormed =>
      have hblock : s.worker.block = some p := by rw [at_worker]; rfl
      have htaken := hs.taken
      have hreplies := hs.replies
      simp only [Service.inHand, at_worker] at htaken
      simp only [Service.unsent, at_worker] at hreplies
      refine .inl ⟨rfl, hs.work (by simp [ServiceRequests.handled]) ?_ ?_ fun q hq => ?_⟩
      · simp [Service.inHand, executed, htaken, hhand p hblock, copy]
      · have hsame : replied (tr ++ [.executed data (doServiceEvent system stack event)]) =
            replied tr := by simp [replied]
        rw [hsame]
        simp only [Service.unsent]
        cases hreply : (doServiceEvent system stack event).reply <;>
          simpa [executed, hreply] using hreplies
      · rw [hblock]
        exact hq
  | @reply p reply at_worker =>
      have hblock : s.worker.block = some p := by rw [at_worker]; rfl
      have hsame : executed (tr ++ [.replied reply]) = executed tr := by simp [executed]
      have htaken := hs.taken
      have hreplies := hs.replies
      simp only [Service.inHand, at_worker] at htaken
      simp only [Service.unsent, at_worker] at hreplies
      refine .inl ⟨rfl, hs.work (by simp [ServiceRequests.handled]) ?_ ?_ fun q hq => ?_⟩
      · rw [hsame]
        exact htaken
      · rw [hsame, hreplies]
        simp [replied, Service.unsent]
      · rw [hblock]
        exact hq
  | @noReply p at_worker =>
      have hblock : s.worker.block = some p := by rw [at_worker]; rfl
      have htaken := hs.taken
      have hreplies := hs.replies
      simp only [Service.inHand, at_worker] at htaken
      simp only [Service.unsent, at_worker] at hreplies
      refine .inl ⟨rfl, hs.work handled_run ?_ ?_ fun q hq => ?_⟩
      · rw [executed_run]
        exact htaken
      · rw [executed_run, replied_run]
        exact hreplies
      · rw [hblock]
        exact hq
  | @free p at_worker =>
      have hblock : s.worker.block = some p := by rw [at_worker]; rfl
      obtain ⟨hidle, hown, -⟩ := hs.busy p hblock
      have hstep : Step s.queueHandle (serviceThread, .run)
          ((s.queueHandle.withBlock p none).withGiven p false) := .free hown
      have hlinked : Linked tr ftr { s with worker := .waiting } := by
        have htaken := hs.taken
        have hreplies := hs.replies
        simp only [Service.inHand, at_worker] at htaken
        simp only [Service.unsent, at_worker] at hreplies
        exact ⟨hs.handled, htaken, hreplies, hs.adds, hs.takes, nofun⟩
      exact .inr ⟨_, hstep, hlinked.others hinv hstep rfl nofun⟩
  | others step program spares => exact .inr ⟨_, step, hs.others hinv step program spares⟩
  | stop =>
      refine .inl ⟨rfl, ?_, ?_, ?_, hs.adds, hs.takes, hs.busy⟩
      · rw [handled_run]
        exact hs.handled
      · rw [executed_run]
        exact hs.taken
      · rw [executed_run, replied_run]
        exact hs.replies

/-- At the start nothing has been handled, queued, executed or sent. -/
theorem linked_start (heap : Ptr → Option Message) : Linked [] [] (start heap) :=
  ⟨rfl, rfl, rfl, .inl rfl, rfl, nofun⟩

/-- Every run of the daemon is one of its FIFO. -/
theorem linked_run {heap : Ptr → Option Message} (hrun : Run ServiceStep (start heap) tr s) :
    ∃ ftr, Run Step (createFIFO serviceFifoSize heap) ftr s.queueHandle ∧ Linked tr ftr s := by
  refine hrun.history (fun tr s => ∃ ftr,
    Run Step (createFIFO serviceFifoSize heap) ftr s.queueHandle ∧ Linked tr ftr s) ?_ ?_
  · exact ⟨[], .nil, linked_start heap⟩
  · rintro tr s l t - ⟨ftr, hfifo, hs⟩ hstep
    rcases hs.step (run_faithful hfifo) hstep with ⟨hsame, ht⟩ | ⟨e, hlast, ht⟩
    · exact ⟨ftr, hsame ▸ hfifo, ht⟩
    · exact ⟨ftr ++ [e], hfifo.snoc hlast, ht⟩

/-- **Service requests.**  In every interleaving of the two threads and the rest of the
program:

* the commands of the requests are executed once each and in the order of the events,
  and at most seven requests are under way;
* a reply is sent for each request with a key, with that key, once and in this order. -/
theorem service_requests {heap : Ptr → Option Message} (hrun : Run ServiceStep (start heap) tr s) :
    (handled tr).map some = (executed tr).map (fun e => some e.1) ++ s.pending ∧
    s.pending.length ≤ serviceFifoSize + 2 ∧
    (executed tr).filterMap (fun e => e.2.reply) = replied tr ++ s.unsent.toList ∧
    ∀ e ∈ executed tr, ∃ event system stack,
      decode e.1 = some event ∧ e.2 = doServiceEvent system stack event := by
  obtain ⟨ftr, hfifo, hs⟩ := linked_run hrun
  have hbound := (bounded_fifo (by decide) hfifo).1.bounded
  refine ⟨?_, ?_, hs.replies, ?_⟩
  · rw [hs.handled, List.map_append, (run_faithful hfifo).order, hs.taken]
    simp [Service.pending]
  · have hhand : ∀ {α : Type} (o : Option α), o.toList.length ≤ 1 := fun o => by cases o <;> simp
    have hone := hhand s.inHand
    have htwo := hhand (adding (s.queueHandle.calls eventThread))
    simp only [Service.pending, List.length_append, List.length_map]
    omega
  · refine hrun.history (fun tr _ => ∀ e ∈ executed tr, ∃ event system stack,
      decode e.1 = some event ∧ e.2 = doServiceEvent system stack event) nofun ?_
    intro tr s l t _ ih hstep e he
    cases hstep with
    | execute at_worker copy wellFormed =>
        simp only [executed, List.filterMap_append, List.mem_append] at he
        rcases he with hold | hnew
        · exact ih e hold
        · have heq := List.mem_singleton.mp hnew
          rw [heq]
          exact ⟨_, _, _, wellFormed, rfl⟩
    | _ =>
        simp only [executed, List.filterMap_append, List.mem_append] at he
        rcases he with hold | hnew
        · exact ih e hold
        · cases hnew

/-- A request with key 7 and an empty command. -/
def request : Memory := fun i => if i < 4 then (word pfeServiceRequestCommand).getD i 0
  else if i = 12 then 7 else 0

/-- What is read of a loaded event is what the memory held. -/
theorem getD_load {m : Memory} {event n i : Nat} (hi : i < n) :
    (m.load event n).getD i 0 = m (event + i) := by
  simp [Memory.load, hi]

/-- An array that starts with a NUL holds the empty string. -/
theorem strlen_stringAt {i : Nat} (hi : data.getD i 0 = 0) : (stringAt data i).strlen = 0 :=
  CString.strlen_eq_iff.mpr ⟨hi, fun j hj => absurd hj (Nat.not_lt_zero j)⟩

/-- The event of the example is a request for a command under key 7. -/
theorem decode_request : ∃ event, decode (request.load 0 660) = some event ∧
    event.id = pfeServiceRequestCommand ∧ event.key = 7 := by
  have hfits : (stringAt (request.load 0 660) 20).strlen < maxCommandLength ∧
      (stringAt (request.load 0 660) 532).strlen < maxBasePathLength := by
    rw [strlen_stringAt (by rw [getD_load (by decide)]; decide),
      strlen_stringAt (by rw [getD_load (by decide)]; decide)]
    decide
  have hid : field (fun i => (request.load 0 660).getD i 0) 0 .id = pfeServiceRequestCommand := by
    decide +kernel
  have hkey : field (fun i => (request.load 0 660).getD i 0) 0 .key = 7 := by decide +kernel
  exact ⟨_, dif_pos hfits, hid, hkey⟩

/-- One request is handled and answered under its key. -/
theorem service_requests_one_reply : ∃ tr s, Run ServiceStep (start fun _ => none) tr s ∧
    handled tr = [request.load 0 660] ∧ (replied tr).map PFEServiceReplyCommand.key = [7] ∧
    s.pending = [] ∧ (executed tr).filterMap (fun e => e.2.reply) = replied tr ++ s.unsent.toList := by
  have hdata : eventHandler request 0 = some (request.load 0 660) := by decide +kernel
  obtain ⟨event, hdecode, hid, hkey⟩ := decode_request
  have hreply : (doServiceEvent (fun _ => (0, 0)) (fun _ => 0) event).reply = some ⟨7, ervOk, 0, 0⟩ := by
    simp [doServiceEvent, hid, hkey]
  generalize request.load 0 660 = data at hdata hdecode ⊢
  have hrun := Run.nil.snoc (@ServiceStep.handle (start fun _ => none) request 0 _ rfl hdata rfl)
  have hrun := hrun.snoc (@ServiceStep.adding _ _ _ nofun
    (@Step.emptyRootSeen _ 0 _ rfl (show 5 ≠ 0 by decide) (show List.range 5 ≠ [] by decide)) nofun)
  have hrun := hrun.snoc (@ServiceStep.adding _ _ _ nofun (@Step.allocQItem _ 0 _ 0 _ rfl rfl) nofun)
  have hrun := hrun.snoc (@ServiceStep.adding _ _ _ nofun (@Step.fill _ 0 0 _ 5 rfl rfl) nofun)
  have hrun := hrun.snoc (@ServiceStep.adding _ _ _ nofun (@Step.insert _ 0 0 _ rfl) nofun)
  have hrun := hrun.snoc (@ServiceStep.fetch _ rfl rfl rfl)
  have hrun := hrun.snoc (@ServiceStep.fetching _ _ _ nofun
    (@Step.queueRootSeen _ 1 rfl nofun) nofun nofun)
  have hrun := hrun.snoc (@ServiceStep.fetching _ _ _ nofun (@Step.take _ 1 0 [] rfl rfl) nofun nofun)
  have hrun := hrun.snoc (@ServiceStep.fetching _ _ _ nofun
    (@Step.freeQItem _ 1 0 (some 5) rfl) nofun nofun)
  have hrun := hrun.snoc (@ServiceStep.fetching _ _ _ nofun
    (@Step.recycle _ 1 0 (some 5) rfl (show 5 ≠ 0 by decide)) nofun nofun)
  have hrun := hrun.snoc (@ServiceStep.fetched _ _ 5 (@Step.dequeued _ 1 (some 5) rfl))
  have hrun := hrun.snoc (@ServiceStep.execute _ 5 _ _ (fun _ => (0, 0)) (fun _ => 0) rfl rfl hdecode)
  have hrun := hrun.snoc (@ServiceStep.reply _ 5 _ (congrArg (Worker.replying 5) hreply))
  obtain ⟨-, -, hreplies, -⟩ := service_requests hrun
  exact ⟨_, _, hrun, rfl, rfl, rfl, hreplies⟩

end ServiceRequests

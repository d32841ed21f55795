import Mathlib.Data.Finset.Lattice.Fold
import Mathlib.Order.Lattice.Nat
import PiFrame.WatchdogLinks

/-!
# The events of the watchdog

The main thread takes a packet off `q.watchdog`, looks at the type in its first
word, and links a copy of it into `eventRoot`; the other thread takes the copies
out again and handles them.  How much is copied is in the same word, and for a
size of 0 `allocItem` gives no item at all: `watchdogAddEvent` then links NULL.

The items are nodes of a ring with the head `eventRoot`.
-/

namespace WatchdogQueue

open RingList Transition Watchdog

/-- `&eventRoot`. -/
def eventHead : Node := 0

/-- `struct ListItem` with the block behind `data`.  `packet` is not in the source:
it is what the block was copied from. -/
structure ListItem where
  packet : List UInt8
  data : List UInt8

/-- `eventRoot`, the items behind the addresses, and `eventQCount`.  `fault` is
raised by an access to NULL or to an item that is not allocated. -/
structure EventQueue where
  eventRoot : Links Node
  items : Node → ListItem
  live : Finset Node
  eventQCount : Int
  fault : Bool

/-- `calloc` returns an address that is not in use. -/
structure Allocator where
  calloc : Finset Node → Node
  fresh : ∀ live, calloc live ∉ live ∧ calloc live ≠ eventHead

/-- What `PFWD_TYPE` is tested for. -/
def KnownType (packet : List UInt8) : Prop :=
  Command.register.value ≤ pfwdType (readWord packet) ∧
    pfwdType (readWord packet) < epfwdCmdEnd

instance (packet : List UInt8) : Decidable (KnownType packet) :=
  inferInstanceAs (Decidable (_ ∧ _))

/-- How many bytes are copied. -/
def copySize (packet : List UInt8) : Nat := pfwdPayloadSize (readWord packet)

/-- `allocItem`; no address is NULL. -/
def allocItem (a : Allocator) (q : EventQueue) (packet : List UInt8) (size : Nat) :
    EventQueue × Option Node :=
  if 0 < size then
    let x := a.calloc q.live
    ({ q with
        items := Function.update q.items x ⟨packet, packet.take size⟩
        live := insert x q.live }, some x)
  else (q, none)

/-- `list_add_tail (&item->list, &eventRoot)`. -/
def linkItem (q : EventQueue) : Option Node → EventQueue
  | some x =>
      { q with
        eventRoot := q.eventRoot.listAddTail x eventHead
        fault := q.fault || decide (x ∉ q.live) }
  | none => { q with fault := true }

def watchdogAddEvent (a : Allocator) (q : EventQueue) (packet : List UInt8) : EventQueue :=
  let (q, item) := allocItem a q packet (copySize packet)
  let q := linkItem q item
  { q with eventQCount := q.eventQCount + 1 }

def eventWDHandler (a : Allocator) (q : EventQueue) (packet : List UInt8) : EventQueue :=
  if KnownType packet then watchdogAddEvent a q packet else q

/-- `watchdogGetEvent`. -/
def watchdogGetEvent (q : EventQueue) : EventQueue × Option ListItem :=
  let x := q.eventRoot.next eventHead
  if x = eventHead then (q, none)
  else
    ({ q with
        eventRoot := q.eventRoot.listDel x
        live := q.live.erase x
        eventQCount := q.eventQCount - 1
        fault := q.fault || decide (x ∉ q.live) }, some (q.items x))

/-- `processWDEvent`, for an event that begins the memory `mem`. -/
def processWDEvent (fuel : Nat) (m : Meets) (mem : List UInt8) (s : WatchdogInfo) :
    Option WatchdogInfo :=
  match Watchdog.processWDEvent mem with
  | none => some s
  | some e => e.handle fuel m s

/-! ## Runs -/

/-- The queue, the services, and the event that the thread has taken. -/
structure Station where
  queue : EventQueue
  info : WatchdogInfo
  event : Option ListItem

/-- The process runs. -/
def Station.Running (d : Station) : Prop := d.queue.fault = false ∧ d.info.exited = false

inductive Act
  | receive (packet : List UInt8)
  | get
  | process (packet : List UInt8)
  | update
  deriving DecidableEq

/-- The steps of the two threads.  `beyond` is what lies behind the block that an
event was copied to. -/
inductive Step (debug : Bool) : Station → Act → Station → Prop
  | receive {d : Station} (running : d.Running) (a : Allocator) (packet : List UInt8) :
      Step debug d (.receive packet) { d with queue := eventWDHandler a d.queue packet }
  | get {d : Station} (running : d.Running) (idle : d.event = none) :
      Step debug d .get
        { d with queue := (watchdogGetEvent d.queue).1, event := (watchdogGetEvent d.queue).2 }
  | process {d : Station} {item : ListItem} {fuel : Nat} {m : Meets} {beyond : List UInt8}
      {info : WatchdogInfo} (running : d.Running) (taken : d.event = some item)
      (outcome : processWDEvent fuel m (item.data ++ beyond) d.info = some info) :
      Step debug d (.process item.packet) { d with info, event := none }
  | update {d : Station} {fuel : Nat} {valid : Node → Bool} {cts : Int} {p : Pass}
      (running : d.Running) (idle : d.event = none)
      (outcome : processWDUpdate fuel debug valid cts d.info = some p) :
      Step debug d .update { d with info := p.info }

/-- Both lists are empty. -/
def init (root : Links Node) (items : Node → ListItem) (info : WatchdogInfo) : Station where
  queue := ⟨root.initListHead eventHead, items, ∅, 0, false⟩
  info
  event := none

/-! ## What is to hold -/

/-- One of the eight ids of `pfwatchdog.h`. -/
def Defined (id : BitVec 32) : Prop := ∃ c : Command, id = c.pfwd

/-- Nothing is linked that is not allocated, nothing is accessed that is not there,
and the count is right. -/
structure Intact (d : Station) : Prop where
  fault : d.queue.fault = false
  linked : ∃ l, Ring d.queue.eventRoot eventHead l ∧ (∀ x ∈ l, x ∈ d.queue.live) ∧
    d.queue.eventQCount = l.length
  services : d.info.fault = false

/-- A packet for which there will be an item, if one is asked for. -/
def Sized (packet : List UInt8) : Prop := KnownType packet → copySize packet ≠ 0

instance (packet : List UInt8) : Decidable (Sized packet) :=
  inferInstanceAs (Decidable (_ → _))

/-- The packets without a size are those for which `allocItem` gives no item. -/
theorem sized_iff (packet : List UInt8) :
    Sized packet ↔ Watchdog.eventWDHandler packet ≠ .nullItem := by
  simp only [Sized, KnownType, copySize, Watchdog.eventWDHandler, Watchdog.watchdogAddEvent]
  split
  · next hknown =>
      split
      · next hsize => simp [hknown, hsize]
      · next hsize => simp [hsize]
  · next hunknown => simp [hunknown]

/-! ## The id of an event -/

variable {q q' : EventQueue} {a : Allocator} {packet : List UInt8} {x : Node} {l : List Node}
  {d d' : Station} {debug : Bool} {act : Act} {tr : List Act} {root : Links Node}
  {items : Node → ListItem}

/-- A copy of a packet that has been let through. -/
def Copied (item : ListItem) : Prop :=
  item.data = item.packet.take (copySize item.packet) ∧ copySize item.packet ≠ 0

/-- The items `l` are linked, allocated and counted. -/
structure Queued (l : List Node) (q : EventQueue) : Prop where
  ring : Ring q.eventRoot eventHead l
  live : ∀ x ∈ l, x ∈ q.live
  copied : ∀ x ∈ l, Copied (q.items x)
  count : q.eventQCount = l.length
  fault : q.fault = false

/-- A packet with a size goes to the end of the queue: its item is new, and the ring is one
longer. -/
theorem Queued.addEvent (h : Queued l q) (hsize : copySize packet ≠ 0) :
    ∃ l', Queued l' (watchdogAddEvent a q packet) := by
  obtain ⟨hfresh, hhead⟩ := a.fresh q.live
  have hout : a.calloc q.live ∉ eventHead :: l := by
    intro hmem
    rcases List.mem_cons.mp hmem with heq | hmem
    · exact hhead heq
    · exact hfresh (h.live _ hmem)
  rw [watchdogAddEvent, allocItem, if_pos (Nat.pos_of_ne_zero hsize)]
  refine ⟨l ++ [a.calloc q.live], h.ring.listAddTail hout, fun y hy => ?_, fun y hy => ?_, ?_, ?_⟩
  · rcases List.mem_append.mp hy with hy | hy
    · exact Finset.mem_insert_of_mem (h.live y hy)
    · rw [List.mem_singleton.mp hy]
      exact Finset.mem_insert_self ..
  · show Copied (Function.update q.items (a.calloc q.live) _ y)
    rcases List.mem_append.mp hy with hy | hy
    · have hne : y ≠ a.calloc q.live := fun heq => hfresh (heq ▸ h.live y hy)
      rw [Function.update_of_ne hne]
      exact h.copied y hy
    · rw [List.mem_singleton.mp hy, Function.update_self]
      exact ⟨rfl, hsize⟩
  · show q.eventQCount + 1 = ((l ++ [a.calloc q.live]).length : Int)
    rw [h.count]
    simp
  · simp [linkItem, h.fault]

/-- A packet without an item brings the process down. -/
theorem addEvent_fault (hsize : copySize packet = 0) :
    (watchdogAddEvent a q packet).fault = true := by
  rw [watchdogAddEvent, allocItem, hsize, if_neg (Nat.lt_irrefl 0)]
  rfl

/-- What the handler does with a packet that gets its item keeps the queue. -/
theorem Queued.handler (h : Queued l q) (hsized : Sized packet) :
    ∃ l', Queued l' (eventWDHandler a q packet) := by
  rw [eventWDHandler]
  by_cases hknown : KnownType packet
  · rw [if_pos hknown]
    exact h.addEvent (hsized hknown)
  · rw [if_neg hknown]
    exact ⟨l, h⟩

/-- A packet of size 0 gets no item, and the handler writes through the null pointer. -/
theorem handler_fault (hsized : ¬Sized packet) : (eventWDHandler a q packet).fault = true := by
  obtain ⟨hknown, hsize⟩ := Classical.not_imp.mp hsized
  rw [eventWDHandler, if_pos hknown]
  exact addEvent_fault (Decidable.not_not.mp hsize)

/-- The first event is taken out, if there is one, and its item is as it was copied. -/
theorem Queued.getEvent (h : Queued l q) : (∃ l', Queued l' (watchdogGetEvent q).1) ∧
    ∀ item, (watchdogGetEvent q).2 = some item → Copied item := by
  rw [watchdogGetEvent, h.ring.path.next_eq]
  cases l with
  | nil => exact ⟨⟨[], h⟩, fun item hitem => by cases hitem⟩
  | cons x l =>
      obtain ⟨hhead, hnodup⟩ := List.nodup_cons.mp h.ring.nodup
      have hne : x ≠ eventHead := fun heq => hhead (heq ▸ List.mem_cons_self)
      have hx := h.live x List.mem_cons_self
      obtain ⟨hout, -⟩ := List.nodup_cons.mp hnodup
      rw [List.headD_cons, if_neg hne]
      have hring : Ring q.eventRoot eventHead ([] ++ x :: l) := h.ring
      refine ⟨⟨l, hring.listDel, fun y hy => ?_, fun y hy => ?_, ?_, ?_⟩, ?_⟩
      · exact Finset.mem_erase.mpr ⟨fun heq => hout (heq ▸ hy),
          h.live y (List.mem_cons_of_mem x hy)⟩
      · exact h.copied y (List.mem_cons_of_mem x hy)
      · show q.eventQCount - 1 = (l.length : Int)
        rw [h.count, List.length_cons]
        omega
      · simp [h.fault, hx]
      · rintro item ⟨rfl⟩
        exact h.copied x List.mem_cons_self

/-! ## Every run -/

/-- The queue and the services are in order, and so is the event that has been taken. -/
structure Sane (d : Station) : Prop where
  queue : ∃ l, Queued l d.queue
  services : ∃ l, Sound l d.info
  event : ∀ item, d.event = some item → Copied item

theorem Sane.intact (h : Sane d) : Intact d := by
  obtain ⟨l, hqueue⟩ := h.queue
  obtain ⟨_, hservices⟩ := h.services
  exact ⟨hqueue.fault, ⟨l, hqueue.ring, hqueue.live, hqueue.count⟩, hservices.fault⟩

/-- Every step keeps the daemon sane, if the packets that arrive get their items.  A packet of
size 0 is the one thing that it cannot take. -/
theorem Sane.step (h : Sane d) (hstep : Step debug d act d')
    (hsized : ∀ packet, act = .receive packet → Sized packet) : Sane d' := by
  obtain ⟨lq, hqueue⟩ := h.queue
  obtain ⟨ls, hservices⟩ := h.services
  cases hstep with
  | receive running a packet =>
      exact ⟨hqueue.handler (hsized packet rfl), h.services, h.event⟩
  | get running idle =>
      obtain ⟨hrest, hcopied⟩ := hqueue.getEvent
      exact ⟨hrest, h.services, hcopied⟩
  | process running taken outcome =>
      refine ⟨h.queue, ?_, fun item hitem => by cases hitem⟩
      rw [processWDEvent] at outcome
      split at outcome
      · cases outcome
        exact ⟨ls, hservices⟩
      · obtain ⟨l', hlinked, -⟩ :=
          hservices.handle (fun _ _ _ => trivial) (keeps_true _ _) outcome
        exact ⟨l', hlinked⟩
  | update running idle outcome =>
      exact ⟨h.queue, hservices.processWDUpdate outcome, h.event⟩

/-- A step is only made by a process that runs. -/
theorem Step.running (h : Step debug d act d') : d.Running := by
  cases h with
  | receive running => exact running
  | get running => exact running
  | process running => exact running
  | update running => exact running

/-- A watchdog that has just been started. -/
def fresh : Station :=
  init ⟨fun _ => 0, fun _ => 0⟩ (fun _ => ⟨[], []⟩)
    (Watchdog.init ⟨fun _ => 0, fun _ => 0⟩ (fun _ => ⟨⟨0, [], [], 0, 0⟩, [], false, 0, 0, 0⟩) 0).info

/-- An allocator that takes the lowest address above all that are in use. -/
def lowest : Allocator where
  calloc live := live.sup id + 1
  fresh _ :=
    ⟨fun h => Nat.not_succ_le_self _ (Finset.le_sup (f := id) h), Nat.succ_ne_zero _⟩

/-- A packet with the word of `PFWD_ALIVE`. -/
def alivePacket : List UInt8 := word Command.alive.pfwd

end WatchdogQueue

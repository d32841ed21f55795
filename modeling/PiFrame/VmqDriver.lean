import PiFrame.BuddyAllocator
import PiFrame.Transition
import Mathlib.Data.Finset.Basic

/-!
# The queue driver

`drivers/vmq/main.c` for one buffer manager and any number of open files of
the device.  Every file is driven by its own task, and a task proceeds in
atomic steps: a section under a mutex, one atomic operation, one evaluation of
the condition of `wait_event_interruptible`, or the code between two of these,
which touches nothing shared.  `Step` interleaves the tasks freely.

The one section that is not a single step is the fan-out of `put_buffer_item`.
It holds `mgr->mutex` for its whole length and takes `con->mutex` once for each
consumer, and `get_first_queue_item` needs only the latter, so a consumer may
dequeue between two deliveries.  `mutex` therefore records the holder, and
every other section under `mgr->mutex` waits until there is none.

A queue item is the buffer it refers to.  The number of references to a buffer
never exceeds the number of open files, so `atomic_t` is an `Int`; the counters
shown in the proc file wrap.
-/

namespace Vmq

open BuddyAllocator Transition

/-- The address of a `struct VMQBuffer`. -/
abbrev Addr := Nat

/-- An open file of the device. -/
abbrev Filp := Nat

inductive Errno
  | einval | ebusy | efault | enoent | enomem | erestartsys
  deriving DecidableEq, Repr

/-- `struct VMQBuffer`. -/
structure VMQBuffer where
  offset : Nat
  size : Nat
  refcnt : Int
  deriving DecidableEq, Repr

/-- `struct VMQBufferManager`, with the holder of its mutex. -/
structure VMQBufferManager where
  size : Nat
  pageSize : Nat
  ba : Allocator
  refcnt : Int
  mutex : Option Filp
  consumers : List Filp
  producers : List Filp
  bufItemCount : BitVec 32
  bufItemAllocCount : BitVec 32
  bufItemRemoveCount : BitVec 32
  bufFullCount : BitVec 32
  maxItemCount : Int

/-- `setup.type`. -/
inductive VMQType
  | producer | consumer
  deriving DecidableEq, Repr

/-- `struct VMQContext`: the buffer of a producer, or the queue and the
current item of a consumer. -/
inductive VMQContext
  | producer (buffer : Option Addr)
  | consumer (items : List Addr) (item : Option Addr)
  deriving DecidableEq, Repr

/-- Where a producer's call stands.  While `vmq_getbuf` runs `pro->buffer` is
null, and while `vmq_putbuf` runs it is the buffer being published.  A waiting
task is asleep from a failed test of its condition until it is woken. -/
inductive ProducerCall
  | testCount (size : Nat)
  | waitCount (size : Nat) (asleep : Bool)
  | allocPage (size : Nat)
  | countFull (size : Nat)
  | waitPage (size : Nat) (asleep : Bool)
  | newItem (size page : Nat)
  | copyOut (buffer : Addr)
  | undo (buffer : Addr)
  | publish (buffer : Addr)
  | fanOut (buffer : Addr) (rest : List Filp) (count : Nat)
  deriving DecidableEq, Repr

/-- Where a consumer's call stands; `con->item` is null during `vmq_getitem`. -/
inductive ConsumerCall
  | dequeue
  | waitItem (asleep : Bool)
  | copyOut (item : Addr)
  | undo (item : Addr)
  | putItem (item : Addr)
  deriving DecidableEq, Repr

/-- An open file: its context and the call in flight, if there is one. -/
inductive File
  | idle (privateData : Option VMQContext)
  | settingUp (type : VMQType)
  | registering (type : VMQType)
  | producing (call : ProducerCall)
  | consuming (items : List Addr) (call : ConsumerCall)
  | releasing (ctxt : VMQContext)
  | drained (count : Nat)
  | dropping
  | closed
  deriving DecidableEq, Repr

/-- No call is in flight on the file. -/
def File.quiet : File → Bool
  | .idle _ => true
  | .closed => true
  | _ => false

def ConsumerCall.item : ConsumerCall → List Addr
  | .dequeue => []
  | .waitItem _ => []
  | .copyOut b => [b]
  | .undo b => [b]
  | .putItem b => [b]

/-- The items of a consumer: the current one, or the one a call has in its
hands, and the queue. -/
def File.items : File → List Addr
  | .idle (some (.consumer items item)) => item.toList ++ items
  | .consuming items call => call.item ++ items
  | .releasing (.consumer items item) => item.toList ++ items
  | _ => []

/-- The buffer a producer has in its hands and has not published. -/
def File.buffer : File → Option Addr
  | .idle (some (.producer buffer)) => buffer
  | .producing (.copyOut b) => some b
  | .producing (.undo b) => some b
  | .producing (.publish b) => some b
  | .producing (.fanOut b _ _) => some b
  | .releasing (.producer buffer) => buffer
  | _ => none

/-- The driver.  `live` are the buffers allocated from the slab cache and
`fault` is raised by an access to one that is not. -/
structure Driver where
  mgr : VMQBufferManager
  files : Filp → File
  mem : Addr → VMQBuffer
  live : Finset Addr
  fault : Bool

/-- What `VMQ_GETITEM` tells about a buffer. -/
structure Message where
  buffer : Addr
  offset : Nat
  size : Nat
  deriving DecidableEq, Repr

/-- What can be seen of a step. -/
inductive Event
  | run
  | ret (err : Option Errno)
  | oops
  | joined (type : VMQType)
  | left
  | published (msg : Message)
  | got (msg : Message)
  | noItem
  | copyFailed
  deriving DecidableEq, Repr

namespace Driver

def message (s : Driver) (b : Addr) : Message :=
  ⟨b, (s.mem b).offset, (s.mem b).size⟩

/-- Store the state of file `h`. -/
def put (s : Driver) (h : Filp) (f : File) : Driver :=
  { s with files := Function.update s.files h f }

/-- An access to buffer `b`. -/
def touch (s : Driver) (b : Addr) : Driver :=
  { s with fault := s.fault || decide (b ∉ s.live) }

/-! ## Sections -/

/-- `remove_buffer_item`: `free_shared_memory`, then `free_buffer_item`. -/
def removeBufferItem (s : Driver) (b : Addr) : Driver :=
  match baFree s.mgr.ba ((s.mem b).offset / s.mgr.pageSize) with
  | none => { s with fault := true }
  | some ba =>
      { s.touch b with
        mgr := { s.mgr with
          ba
          bufItemCount := s.mgr.bufItemCount - 1
          bufItemRemoveCount := s.mgr.bufItemRemoveCount + 1 }
        live := s.live.erase b }

/-- `buffer->refcnt` becomes `n`. -/
def setRefcnt (s : Driver) (b : Addr) (n : Int) : Driver :=
  { s.touch b with mem := Function.update s.mem b { s.mem b with refcnt := n } }

/-- `unref_buffer`, with its answer. -/
def unrefBuffer (s : Driver) (b : Addr) : Driver × Bool :=
  let n := (s.mem b).refcnt - 1
  if n = 0 then ((s.setRefcnt b n).removeBufferItem b, true) else (s.setRefcnt b n, false)

/-- The loop of `vmq_release` over the items of a consumer, with the number of
buffers it removed. -/
def unrefAll (s : Driver) : List Addr → Driver × Nat
  | [] => (s, 0)
  | b :: items =>
      let (s, freed) := s.unrefBuffer b
      let (s, count) := s.unrefAll items
      (s, freed.toNat + count)

end Driver

/-- `wake_up_interruptible_all(&mgr->b_wq)` as one task feels it. -/
def File.wakeProducer : File → File
  | .producing (.waitCount size _) => .producing (.waitCount size false)
  | .producing (.waitPage size _) => .producing (.waitPage size false)
  | f => f

/-- `wake_up_interruptible_all(&mgr->q_wq)` as one task feels it. -/
def File.wakeConsumer : File → File
  | .consuming items (.waitItem _) => .consuming items (.waitItem false)
  | f => f

namespace Driver

def wakeProducers (s : Driver) : Driver :=
  { s with files := fun k => (s.files k).wakeProducer }

def wakeConsumers (s : Driver) : Driver :=
  { s with files := fun k => (s.files k).wakeConsumer }

/-- `put_queue_item`. -/
def putQueueItem (s : Driver) (b : Addr) : Driver :=
  let (s, freed) := s.unrefBuffer b
  if freed then s.wakeProducers else s

/-- The section of `get_buffer_item` and the stores to the new buffer, which
nobody else knows yet. -/
def newBuffer (s : Driver) (b : Addr) (size page : Nat) : Driver :=
  { s with
    mgr := { s.mgr with
      bufItemCount := s.mgr.bufItemCount + 1
      bufItemAllocCount := s.mgr.bufItemAllocCount + 1 }
    mem := Function.update s.mem b ⟨page * s.mgr.pageSize, size, 0⟩
    live := insert b s.live }

end Driver

/-- `list_add_tail(&item->entry, &con->items)`. -/
def File.enqueue (b : Addr) : File → File
  | .idle (some (.consumer items item)) => .idle (some (.consumer (items ++ [b]) item))
  | .consuming items call => .consuming (items ++ [b]) call
  | .releasing (.consumer items item) => .releasing (.consumer (items ++ [b]) item)
  | f => f

namespace Driver

/-- One pass of the loop of `put_buffer_item`, for consumer `con`. -/
def deliver (s : Driver) (b : Addr) (con : Filp) : Driver :=
  let s := s.setRefcnt b ((s.mem b).refcnt + 1)
  s.put con ((s.files con).enqueue b)

/-- The end of `put_buffer_item`. -/
def endFanOut (s : Driver) (b : Addr) (count : Nat) : Driver :=
  let s := if count = 0 then s.removeBufferItem b else s.wakeConsumers
  { s with mgr := { s.mgr with mutex := none } }

/-- The locked section of `vmq_release` for a consumer. -/
def releaseConsumer (s : Driver) (h : Filp) (items : List Addr) (item : Option Addr) : Driver :=
  let s := { s with mgr := { s.mgr with consumers := s.mgr.consumers.erase h } }
  let (s, count) := s.unrefAll (item.toList ++ items)
  s.put h (.drained count)

/-- The locked section of `vmq_release` for a producer. -/
def releaseProducer (s : Driver) (h : Filp) (buffer : Option Addr) : Driver :=
  let s := match buffer with
    | none => s
    | some b => s.removeBufferItem b
  let s := { s with mgr := { s.mgr with producers := s.mgr.producers.erase h } }
  s.put h .dropping

end Driver

/-! ## The calls up to their first access to shared state -/

/-- An ioctl with the argument it copies from the user, `none` if that fails.
The argument of `VMQ_SETUP` is the type, or the error met before the type is
looked at. -/
inductive Ioctl
  | setup (type : Except Errno Int)
  | getbuf (size : Option Int)
  | putbuf (offset : Option Int)
  | getitem
  | putitem

/-- `vmq_setup`, with `VMQ_TYPE_PRODUCER` 0 and `VMQ_TYPE_CONSUMER` 1. -/
def vmqSetup (type : Except Errno Int) : Option VMQContext → Except Errno File
  | some _ => .error .einval
  | none =>
      match type with
      | .error e => .error e
      | .ok type =>
          if type = 0 then .ok (.settingUp .producer)
          else if type = 1 then .ok (.settingUp .consumer)
          else .error .einval

/-- `vmq_getbuf`. -/
def vmqGetbuf (s : Driver) (size : Option Int) : VMQContext → Except Errno File
  | .consumer _ _ => .error .einval
  | .producer (some _) => .error .ebusy
  | .producer none =>
      match size with
      | none => .error .efault
      | some size =>
          if size ≤ 0 then .error .efault
          else if (s.mgr.size : Int) < size then .error .efault
          else .ok (.producing (.testCount size.toNat))

/-- `vmq_putbuf`; `none` is the access to `pro->buffer->offset` through a null
pointer. -/
def vmqPutbuf (s : Driver) (offset : Option Int) : VMQContext → Option (Except Errno File)
  | .consumer _ _ => some (.error .einval)
  | .producer buffer =>
      match offset with
      | none => some (.error .efault)
      | some offset =>
          buffer.map fun b =>
            if ((s.mem b).offset : Int) ≠ offset then .error .einval
            else .ok (.producing (.publish b))

/-- `vmq_getitem`. -/
def vmqGetitem : VMQContext → Except Errno File
  | .producer _ => .error .einval
  | .consumer _ (some _) => .error .ebusy
  | .consumer items none => .ok (.consuming items .dequeue)

/-- `vmq_putitem`. -/
def vmqPutitem : VMQContext → Except Errno File
  | .producer _ => .error .einval
  | .consumer _ none => .error .enoent
  | .consumer items (some b) => .ok (.consuming items (.putItem b))

/-- `vmq_ioctl`; `none` is an access through a null pointer, which every call
but `VMQ_SETUP` makes when there is no context yet. -/
def vmqIoctl (s : Driver) (privateData : Option VMQContext) : Ioctl → Option (Except Errno File)
  | .setup type => some (vmqSetup type privateData)
  | .getbuf size => privateData.map (vmqGetbuf s size)
  | .putbuf offset => privateData.bind (vmqPutbuf s offset)
  | .getitem => privateData.map vmqGetitem
  | .putitem => privateData.map vmqPutitem

/-- The test at the head of `get_buffer_item`. -/
def mustWait (mgr : VMQBufferManager) : Bool :=
  0 < mgr.maxItemCount && mgr.maxItemCount ≤ mgr.bufItemCount.toInt

/-- The context that `vmq_setup` fills in. -/
def VMQType.context : VMQType → VMQContext
  | .producer => .producer none
  | .consumer => .consumer [] none

/-- The list that `vmq_setup` appends the context to. -/
def Driver.register (s : Driver) (h : Filp) : VMQType → Driver
  | .producer => { s with mgr := { s.mgr with producers := s.mgr.producers ++ [h] } }
  | .consumer => { s with mgr := { s.mgr with consumers := s.mgr.consumers ++ [h] } }

/-! ## Steps -/

/-- The atomic steps, each labelled with the file it belongs to. -/
inductive Step : Driver → Filp × Event → Driver → Prop
  /-- A null pointer is followed; the call ends there. -/
  | ioctlOops {s : Driver} {h : Filp} {ctxt : Option VMQContext} {call : Ioctl}
      (at_file : s.files h = .idle ctxt) (outcome : vmqIoctl s ctxt call = none) :
      Step s (h, .oops) s
  | ioctlRefused {s : Driver} {h : Filp} {ctxt : Option VMQContext} {call : Ioctl} {e : Errno}
      (at_file : s.files h = .idle ctxt) (outcome : vmqIoctl s ctxt call = some (.error e)) :
      Step s (h, .ret (some e)) s
  | ioctlEntered {s : Driver} {h : Filp} {ctxt : Option VMQContext} {call : Ioctl} {f : File}
      (at_file : s.files h = .idle ctxt) (outcome : vmqIoctl s ctxt call = some (.ok f)) :
      Step s (h, .run) (s.put h f)
  /-- A signal or a stray wake-up. -/
  | roused {s : Driver} {h : Filp} :
      Step s (h, .run) (s.put h (s.files h).wakeProducer.wakeConsumer)
  /-- `atomic_inc(&mgr->refcnt)`. -/
  | countContext {s : Driver} {h : Filp} {type : VMQType} (at_file : s.files h = .settingUp type) :
      Step s (h, .run)
        ({ s with mgr := { s.mgr with refcnt := s.mgr.refcnt + 1 } }.put h (.registering type))
  | register {s : Driver} {h : Filp} {type : VMQType} (at_file : s.files h = .registering type)
      (unlocked : s.mgr.mutex = none) :
      Step s (h, .joined type) ((s.register h type).put h (.idle (some type.context)))
  | countPassed {s : Driver} {h : Filp} {size : Nat}
      (at_file : s.files h = .producing (.testCount size)) (test : mustWait s.mgr = false) :
      Step s (h, .run) (s.put h (.producing (.allocPage size)))
  | countReached {s : Driver} {h : Filp} {size : Nat}
      (at_file : s.files h = .producing (.testCount size)) (test : mustWait s.mgr = true) :
      Step s (h, .run) (s.put h (.producing (.waitCount size false)))
  | countFell {s : Driver} {h : Filp} {size : Nat}
      (at_file : s.files h = .producing (.waitCount size false))
      (test : s.mgr.bufItemCount.toInt < s.mgr.maxItemCount) :
      Step s (h, .run) (s.put h (.producing (.allocPage size)))
  | countHeld {s : Driver} {h : Filp} {size : Nat}
      (at_file : s.files h = .producing (.waitCount size false))
      (test : ¬ s.mgr.bufItemCount.toInt < s.mgr.maxItemCount) :
      Step s (h, .run) (s.put h (.producing (.waitCount size true)))
  | countInterrupted {s : Driver} {h : Filp} {size : Nat}
      (at_file : s.files h = .producing (.waitCount size true)) :
      Step s (h, .ret (some .erestartsys)) (s.put h (.idle (some (.producer none))))
  | pageFound {s : Driver} {h : Filp} {size page : Nat} {ba : Allocator}
      (at_file : s.files h = .producing (.allocPage size) ∨
        s.files h = .producing (.waitPage size false))
      (alloc : baAlloc s.mgr.ba size = some (ba, some page)) :
      Step s (h, .run)
        ({ s with mgr := { s.mgr with ba } }.put h (.producing (.newItem size page)))
  | pageMissing {s : Driver} {h : Filp} {size : Nat} {ba : Allocator}
      (at_file : s.files h = .producing (.allocPage size))
      (alloc : baAlloc s.mgr.ba size = some (ba, none)) :
      Step s (h, .run) ({ s with mgr := { s.mgr with ba } }.put h (.producing (.countFull size)))
  | countFull {s : Driver} {h : Filp} {size : Nat}
      (at_file : s.files h = .producing (.countFull size)) (unlocked : s.mgr.mutex = none) :
      Step s (h, .run)
        ({ s with mgr := { s.mgr with bufFullCount := s.mgr.bufFullCount + 1 } }.put h
          (.producing (.waitPage size false)))
  | pageStillMissing {s : Driver} {h : Filp} {size : Nat} {ba : Allocator}
      (at_file : s.files h = .producing (.waitPage size false))
      (alloc : baAlloc s.mgr.ba size = some (ba, none)) :
      Step s (h, .run) ({ s with mgr := { s.mgr with ba } }.put h (.producing (.waitPage size true)))
  | pageInterrupted {s : Driver} {h : Filp} {size : Nat}
      (at_file : s.files h = .producing (.waitPage size true)) :
      Step s (h, .ret (some .erestartsys)) (s.put h (.idle (some (.producer none))))
  /-- The slab cache hands out a free address. -/
  | newItem {s : Driver} {h : Filp} {size page : Nat} {b : Addr}
      (at_file : s.files h = .producing (.newItem size page)) (unlocked : s.mgr.mutex = none)
      (free : b ∉ s.live) :
      Step s (h, .run) ((s.newBuffer b size page).put h (.producing (.copyOut b)))
  /-- The slab cache is exhausted; the page stays allocated. -/
  | newItemFailed {s : Driver} {h : Filp} {size page : Nat}
      (at_file : s.files h = .producing (.newItem size page)) (unlocked : s.mgr.mutex = none) :
      Step s (h, .ret (some .enomem)) (s.put h (.idle (some (.producer none))))
  | bufferCopied {s : Driver} {h : Filp} {b : Addr}
      (at_file : s.files h = .producing (.copyOut b)) :
      Step s (h, .ret none) (s.put h (.idle (some (.producer (some b)))))
  | bufferCopyFailed {s : Driver} {h : Filp} {b : Addr}
      (at_file : s.files h = .producing (.copyOut b)) :
      Step s (h, .copyFailed) (s.put h (.producing (.undo b)))
  | undoBuffer {s : Driver} {h : Filp} {b : Addr}
      (at_file : s.files h = .producing (.undo b)) (unlocked : s.mgr.mutex = none) :
      Step s (h, .ret (some .efault))
        ((s.removeBufferItem b).put h (.idle (some (.producer none))))
  /-- `put_buffer_item` takes the mutex and starts its loop. -/
  | publish {s : Driver} {h : Filp} {b : Addr}
      (at_file : s.files h = .producing (.publish b)) (unlocked : s.mgr.mutex = none) :
      Step s (h, .published (s.message b))
        ({ s with mgr := { s.mgr with mutex := some h } }.put h
          (.producing (.fanOut b s.mgr.consumers 0)))
  | deliver {s : Driver} {h con : Filp} {b : Addr} {rest : List Filp} {count : Nat}
      (at_file : s.files h = .producing (.fanOut b (con :: rest) count)) :
      Step s (h, .run) ((s.deliver b con).put h (.producing (.fanOut b rest (count + 1))))
  /-- No memory for an item: the consumer is left out. -/
  | deliverFailed {s : Driver} {h con : Filp} {b : Addr} {rest : List Filp} {count : Nat}
      (at_file : s.files h = .producing (.fanOut b (con :: rest) count)) :
      Step s (h, .noItem) (s.put h (.producing (.fanOut b rest count)))
  | endFanOut {s : Driver} {h : Filp} {b : Addr} {count : Nat}
      (at_file : s.files h = .producing (.fanOut b [] count)) :
      Step s (h, .ret none) ((s.endFanOut b count).put h (.idle (some (.producer none))))
  /-- `get_first_queue_item` finds an item. -/
  | take {s : Driver} {h : Filp} {b : Addr} {items : List Addr}
      (at_file : s.files h = .consuming (b :: items) .dequeue ∨
        s.files h = .consuming (b :: items) (.waitItem false)) :
      Step s (h, .got (s.message b)) ((s.touch b).put h (.consuming items (.copyOut b)))
  | queueEmpty {s : Driver} {h : Filp} (at_file : s.files h = .consuming [] .dequeue) :
      Step s (h, .run) (s.put h (.consuming [] (.waitItem false)))
  | queueStillEmpty {s : Driver} {h : Filp}
      (at_file : s.files h = .consuming [] (.waitItem false)) :
      Step s (h, .run) (s.put h (.consuming [] (.waitItem true)))
  | itemInterrupted {s : Driver} {h : Filp} {items : List Addr}
      (at_file : s.files h = .consuming items (.waitItem true)) :
      Step s (h, .ret (some .erestartsys)) (s.put h (.idle (some (.consumer items none))))
  | itemCopied {s : Driver} {h : Filp} {b : Addr} {items : List Addr}
      (at_file : s.files h = .consuming items (.copyOut b)) :
      Step s (h, .ret none) (s.put h (.idle (some (.consumer items (some b)))))
  | itemCopyFailed {s : Driver} {h : Filp} {b : Addr} {items : List Addr}
      (at_file : s.files h = .consuming items (.copyOut b)) :
      Step s (h, .copyFailed) (s.put h (.consuming items (.undo b)))
  | undoItem {s : Driver} {h : Filp} {b : Addr} {items : List Addr}
      (at_file : s.files h = .consuming items (.undo b)) (unlocked : s.mgr.mutex = none) :
      Step s (h, .ret (some .efault))
        ((s.putQueueItem b).put h (.idle (some (.consumer items none))))
  | putItem {s : Driver} {h : Filp} {b : Addr} {items : List Addr}
      (at_file : s.files h = .consuming items (.putItem b)) (unlocked : s.mgr.mutex = none) :
      Step s (h, .ret none) ((s.putQueueItem b).put h (.idle (some (.consumer items none))))
  | releaseUnused {s : Driver} {h : Filp} (at_file : s.files h = .idle none) :
      Step s (h, .ret none) (s.put h .closed)
  | release {s : Driver} {h : Filp} {ctxt : VMQContext}
      (at_file : s.files h = .idle (some ctxt)) :
      Step s (h, .run) (s.put h (.releasing ctxt))
  | releaseConsumer {s : Driver} {h : Filp} {items : List Addr} {item : Option Addr}
      (at_file : s.files h = .releasing (.consumer items item)) (unlocked : s.mgr.mutex = none) :
      Step s (h, .left) (s.releaseConsumer h items item)
  | releaseProducer {s : Driver} {h : Filp} {buffer : Option Addr}
      (at_file : s.files h = .releasing (.producer buffer)) (unlocked : s.mgr.mutex = none) :
      Step s (h, .left) (s.releaseProducer h buffer)
  | wakeDrained {s : Driver} {h : Filp} {count : Nat} (at_file : s.files h = .drained count) :
      Step s (h, .run) ((if 0 < count then s.wakeProducers else s).put h .dropping)
  /-- `atomic_dec(&mgr->refcnt)`. -/
  | dropContext {s : Driver} {h : Filp} (at_file : s.files h = .dropping) :
      Step s (h, .ret none)
        ({ s with mgr := { s.mgr with refcnt := s.mgr.refcnt - 1 } }.put h .closed)

/-- The driver right after `create_buffer_manager`, nobody having set up a
context yet. -/
def createBufferManager (m : Memory) (size pageSize : Nat) (maxItemCount : Int)
    (mem : Addr → VMQBuffer) : Option Driver :=
  (baCreate m size pageSize).map fun ba =>
    { mgr := {
        size, pageSize, ba
        refcnt := 0
        mutex := none
        consumers := []
        producers := []
        bufItemCount := 0
        bufItemAllocCount := 0
        bufItemRemoveCount := 0
        bufFullCount := 0
        maxItemCount }
      files := fun _ => .idle none
      mem
      live := ∅
      fault := false }

/-! ## Calls that meet no obstacle -/

/-- The driver after a `VMQ_SETUP` by `h`. -/
def Driver.setUp (s : Driver) (h : Filp) (type : VMQType) : Driver :=
  let s := s.put h (.settingUp type)
  let s := { s with mgr := { s.mgr with refcnt := s.mgr.refcnt + 1 } }.put h (.registering type)
  (s.register h type).put h (.idle (some type.context))

/-- The driver after a `VMQ_GETBUF` by `h`, which gets `b` for the block at `page`. -/
def Driver.getBuffer (s : Driver) (h : Filp) (size page : Nat) (ba : Allocator) (b : Addr) :
    Driver :=
  let s := s.put h (.producing (.testCount size))
  let s := s.put h (.producing (.allocPage size))
  let s := { s with mgr := { s.mgr with ba } }.put h (.producing (.newItem size page))
  let s := (s.newBuffer b size page).put h (.producing (.copyOut b))
  s.put h (.idle (some (.producer (some b))))

/-- The driver after a `VMQ_PUTBUF` by `h` that has delivered `b` to the one consumer. -/
def Driver.putBuffer (s : Driver) (h con : Filp) (b : Addr) : Driver :=
  let s := s.put h (.producing (.publish b))
  let s := { s with mgr := { s.mgr with mutex := some h } }.put h (.producing (.fanOut b [con] 0))
  let s := (s.deliver b con).put h (.producing (.fanOut b [] 1))
  (s.endFanOut b 1).put h (.idle (some (.producer none)))

section Calls

variable {s : Driver} {h con : Filp} {call : Ioctl} {type : VMQType} {size page : Nat} {ba : Allocator}
  {b : Addr}

/-- The three steps of a `VMQ_SETUP` that nothing refuses. -/
theorem setUp_run (hfile : s.files h = .idle none)
    (hcall : vmqIoctl s none call = some (.ok (.settingUp type))) (hunlocked : s.mgr.mutex = none) :
    Run Step s [(h, .run), (h, .run), (h, .joined type)] (s.setUp h type) := by
  have hrun := Run.single (Step.ioctlEntered hfile hcall)
  have hrun := hrun.snoc (.countContext (Function.update_self ..))
  exact hrun.snoc (.register (Function.update_self ..) hunlocked)

/-- The five steps of a `VMQ_GETBUF` that does not have to wait. -/
theorem getBuffer_run (hfile : s.files h = .idle (some (.producer none)))
    (hcall : vmqIoctl s (some (.producer none)) call = some (.ok (.producing (.testCount size))))
    (htest : mustWait s.mgr = false) (halloc : baAlloc s.mgr.ba size = some (ba, some page))
    (hunlocked : s.mgr.mutex = none) (hfree : b ∉ s.live) :
    Run Step s [(h, .run), (h, .run), (h, .run), (h, .run), (h, .ret none)]
      (s.getBuffer h size page ba b) := by
  have hrun := Run.single (Step.ioctlEntered hfile hcall)
  have hrun := hrun.snoc (.countPassed (Function.update_self ..) htest)
  have hrun := hrun.snoc (.pageFound (.inl (Function.update_self ..)) halloc)
  have hrun := hrun.snoc (.newItem (Function.update_self ..) hunlocked hfree)
  exact hrun.snoc (.bufferCopied (Function.update_self ..))

/-- The four steps of a `VMQ_PUTBUF` with one consumer. -/
theorem putBuffer_run (hfile : s.files h = .idle (some (.producer (some b))))
    (hcall : vmqIoctl s (some (.producer (some b))) call = some (.ok (.producing (.publish b))))
    (hunlocked : s.mgr.mutex = none) (honly : s.mgr.consumers = [con]) :
    Run Step s [(h, .run), (h, .published (s.message b)), (h, .run), (h, .ret none)]
      (s.putBuffer h con b) := by
  have hrun := Run.single (Step.ioctlEntered hfile hcall)
  have hrun := hrun.snoc (.publish (Function.update_self ..) hunlocked)
  have hlist : (s.put h (.producing (.publish b))).mgr.consumers = [con] := honly
  rw [hlist] at hrun
  have hrun := hrun.snoc (.deliver (Function.update_self ..))
  exact hrun.snoc (.endFanOut (Function.update_self ..))

end Calls

/-! ## A queue of seven pages -/

/-- Seven pages of 128 bytes, on a machine whose memory past the bitmap has its bits set. -/
def sevenPages (maxItemCount : Int) : Driver :=
  (createBufferManager (fun _ => ⟨true, 0⟩) 1000 128 maxItemCount (fun _ => ⟨0, 0, 0⟩)).get rfl

/-- The manager of the examples comes out of `create_buffer_manager`. -/
theorem create_sevenPages (maxItemCount : Int) :
    createBufferManager (fun _ => ⟨true, 0⟩) 1000 128 maxItemCount (fun _ => ⟨0, 0, 0⟩)
      = some (sevenPages maxItemCount) :=
  (Option.some_get _).symm

/-- The first allocation of a page, which takes the last one. -/
def firstAlloc : Allocator × Option Nat :=
  (baAlloc (sevenPages 0).mgr.ba 100).get (by decide +kernel)

/-- Of its seven pages, a first buffer of 100 bytes gets the last. -/
theorem alloc_sevenPages (maxItemCount : Int) :
    baAlloc (sevenPages maxItemCount).mgr.ba 100 = some (firstAlloc.1, some 6) := by
  have hpage : firstAlloc.2 = some 6 := by decide +kernel
  rw [← hpage]
  exact (Option.some_get _).symm

end Vmq

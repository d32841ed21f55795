import PiFrame.EventHeader

/-!
# Notifications that nobody asked for

A plain notification belongs to no query, so its key is to be 0.  The blocks that
`VMQueueGetBuffer` hands out hold what was in them before, except for their third
word, which it clears.  The key is the fourth word of an event.

`doNotifyBasic` and `doNotifyStruct` store the key themselves.  `notifyConfigUpdate`
and the functions of `vmq_test` do not: their events have the key that the block had.
-/

namespace PlainNotifications

open ByteMemory EventHeader Watchdog

def pfeConfigUpdate : BitVec 32 := mkeid epfModConfig 0 20 0
def pfeTestChar : BitVec 32 := mkeid epfModTest 1 20 0
def pfeTestShort : BitVec 32 := mkeid epfModTest 2 20 0
def pfeTestInt : BitVec 32 := mkeid epfModTest 3 20 0
def pfeTestLong : BitVec 32 := mkeid epfModTest 4 24 0

/-- What a sender is told: the block that `VMQ_GETBUF` hands out, if it does, the time and
its process id. -/
structure Surroundings where
  block : Option Nat
  now : BitVec 32
  pid : BitVec 32

/-- An event as it is given to `VMQueuePutBuffer`. -/
structure Published where
  event : Nat
  memory : Memory

def Published.field (e : Published) (f : Field) : BitVec 32 :=
  EventHeader.field e.memory e.event f

variable (q : Surroundings) (m : Memory)

/-- `VMQueueGetBuffer`, with its assertion on the size. -/
def vmQueueGetBuffer (size : Nat) : Option (Nat × Memory) :=
  if 0 < size then
    q.block.map fun ptr => (ptr, if 12 ≤ size then m.store (ptr + 4 * 2) (word 0) else m)
  else none

/-- What all the functions do: get a block, store something, fill in the header, store the
rest and publish.  Without a block an assertion fails. -/
def notify (size : Nat) (eid : BitVec 32) (before after : List (Nat × List UInt8)) :
    Option Published :=
  match vmQueueGetBuffer q m size with
  | none => none
  | some (ptr, m) =>
      some ⟨ptr, ((m.stores ptr before).stores ptr (pfeInitEvent eid q.now q.pid)).stores ptr
        after⟩

def doNotifyBasic (eid : BitVec 32) : Option Published :=
  notify q m 16 eid [] [Field.key.row 0]

def doNotifyStruct (eid : BitVec 32) (edata : List UInt8) : Option Published :=
  notify q m edata.length eid [(0, edata)] [Field.key.row 0]

def notifyConfigUpdate (eConfigType : BitVec 32) : Option Published :=
  notify q m 20 pfeConfigUpdate [] [(16, word eConfigType)]

def notifyNoData (type : BitVec 32) : Option Published :=
  notify q m 16 type [] []

def notifyChar (data : BitVec 8) : Option Published :=
  notify q m 20 pfeTestChar [] [(16, (word (data.setWidth 32)).take 1)]

def notifyShort (data : BitVec 16) : Option Published :=
  notify q m 20 pfeTestShort [] [(16, (word (data.setWidth 32)).take 2)]

def notifyInt (data : BitVec 32) : Option Published :=
  notify q m 20 pfeTestInt [] [(16, word data)]

/-- An `unsigned long` has 64 bits. -/
def notifyLong (data : BitVec 64) : Option Published :=
  notify q m 24 pfeTestLong [] [(16, word (data.setWidth 32) ++ word (data.extractLsb' 32 32))]

/-- The plain notifications. -/
inductive Notification
  | basic (eid : BitVec 32)
  | struct (eid : BitVec 32) (edata : List UInt8)
  | configUpdate (eConfigType : BitVec 32)
  | noData (type : BitVec 32)
  | char (data : BitVec 8)
  | short (data : BitVec 16)
  | int (data : BitVec 32)
  | long (data : BitVec 64)

def Notification.publish : Notification → Option Published
  | .basic eid => doNotifyBasic q m eid
  | .struct eid edata => doNotifyStruct q m eid edata
  | .configUpdate eConfigType => notifyConfigUpdate q m eConfigType
  | .noData type => notifyNoData q m type
  | .char data => notifyChar q m data
  | .short data => notifyShort q m data
  | .int data => notifyInt q m data
  | .long data => notifyLong q m data

/-- The two functions that set the key. -/
def Notification.SetsKey : Notification → Prop
  | .basic _ | .struct _ _ => True
  | _ => False

/-- No receiver takes what is published for a part of a query. -/
def Plain (published : Option Published) : Prop :=
  ∀ e ∈ published, e.field .key = 0

variable {q : Surroundings} {m : Memory} {size : Nat} {eid : BitVec 32}
  {before after : List (Nat × List UInt8)} {e : Published} {n : Notification}

/-- The word that has been cleared is not the key. -/
theorem field_getBuffer {ptr : Nat} {m' : Memory}
    (h : vmQueueGetBuffer q m size = some (ptr, m')) :
    q.block = some ptr ∧ EventHeader.field m' ptr .key = EventHeader.field m ptr .key := by
  unfold vmQueueGetBuffer at h
  split at h
  · obtain ⟨p, hp, heq⟩ := Option.map_eq_some_iff.1 h
    obtain ⟨rfl, rfl⟩ := Prod.mk.inj heq
    refine ⟨hp, ?_⟩
    split
    · rw [EventHeader.field, load_store_of_apart (.inl (by simp [Field.offset])), EventHeader.field]
    · rfl
  · cases h

/-- A notification gets a buffer and writes into it between what the caller writes before and
after. -/
theorem notify_cases (h : e ∈ notify q m size eid before after) :
    ∃ m', vmQueueGetBuffer q m size = some (e.event, m') ∧
      e.memory = ((m'.stores e.event before).stores e.event
        (pfeInitEvent eid q.now q.pid)).stores e.event after := by
  unfold notify at h
  split at h
  · cases h
  · next hget =>
      cases h
      exact ⟨_, hget, rfl⟩

/-- A function that stores the key last publishes with key 0. -/
theorem plain_of_row : Plain (notify q m size eid before [Field.key.row 0]) := by
  intro e he
  obtain ⟨m', _, hmemory⟩ := notify_cases he
  rw [Published.field, hmemory]
  exact field_stores_row (by simp [Spares])

/-- A function that does not store the key publishes with the key of the block. -/
theorem field_notify_of_spares (hbefore : Spares before 12 4) (hafter : Spares after 12 4)
    (h : e ∈ notify q m size eid before after) :
    q.block = some e.event ∧ e.field .key = EventHeader.field m e.event .key := by
  obtain ⟨m', hget, hmemory⟩ := notify_cases h
  obtain ⟨hblock, hkey⟩ := field_getBuffer hget
  refine ⟨hblock, ?_⟩
  have hinit : Spares (pfeInitEvent eid q.now q.pid) Field.key.offset 4 := by
    simp [Spares, pfeInitEvent, Field.row, Field.offset]
  rw [Published.field, hmemory, field_stores_of_spares hafter, field_stores_of_spares hinit,
    field_stores_of_spares hbefore, hkey]

/-- A notification is plain if the key was 0 in its block before. -/
theorem plain_notify_iff (hsize : 0 < size) (hbefore : Spares before 12 4)
    (hafter : Spares after 12 4) :
    Plain (notify q m size eid before after) ↔
      ∀ ptr ∈ q.block, EventHeader.field m ptr .key = 0 := by
  constructor
  · intro hplain ptr hptr
    have hget : ∃ m', vmQueueGetBuffer q m size = some (ptr, m') := by
      rw [vmQueueGetBuffer, if_pos hsize, Option.mem_def.1 hptr]
      exact ⟨_, rfl⟩
    obtain ⟨m', hget⟩ := hget
    have hsome : ∃ e ∈ notify q m size eid before after, e.event = ptr := by
      rw [notify, hget]
      exact ⟨_, rfl, rfl⟩
    obtain ⟨e, he, rfl⟩ := hsome
    rw [← (field_notify_of_spares hbefore hafter he).2]
    exact hplain e he
  · intro hzero e he
    obtain ⟨hblock, hkey⟩ := field_notify_of_spares hbefore hafter he
    rw [hkey]
    exact hzero e.event hblock

/-- **Plain notifications.**  An event has key 0 exactly when its function sets the key,
or the block that it was written to had a 0 in that place. -/
theorem plain_iff :
    Plain (n.publish q m) ↔
      n.SetsKey ∨ ∀ ptr ∈ q.block, EventHeader.field m ptr .key = 0 := by
  cases n with
  | basic | struct => exact iff_of_true plain_of_row (.inl trivial)
  | configUpdate | noData | char | short | int | long =>
      refine (plain_notify_iff (by decide) ?_ ?_).trans (iff_of_eq (false_or _)).symm <;>
        simp [Spares]

/-- The block has been used for an event with key 7. -/
theorem configUpdate_not_plain :
    ¬ Plain ((Notification.configUpdate 1).publish ⟨some 0, 0, 0⟩
      fun i => if i = 12 then 7 else 0) := by
  rw [Plain, Notification.publish]
  decide

end PlainNotifications

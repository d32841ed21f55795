import PiFrame.ByteMemory
import PiFrame.WatchdogPackets

/-!
# The header of an event

Every event begins with four words: its id, the second it was made in, the process
that made it and the key of the query it belongs to.  A key of 0 says that it belongs
to none.  The id has the module, a number, the size of the structure and flags in it.
-/

namespace EventHeader

open ByteMemory Watchdog

def epfModTest : BitVec 32 := 0
def epfModService : BitVec 32 := 4
def epfModConfig : BitVec 32 := 5

/-- `__MKEID`. -/
def mkeid (mod id size flags : BitVec 32) : BitVec 32 :=
  mod <<< 24 ||| id <<< 16 ||| (size &&& 0xfff) <<< 4 ||| (flags &&& 0xf)

def pfeFlagReply : BitVec 32 := 2

def pfeModuleId (id : BitVec 32) : BitVec 32 := id >>> 24 &&& 0xff

def pfePayloadSize (id : BitVec 32) : Nat := (id >>> 4 &&& 0xfff).toNat

def pfeIsReply (id : BitVec 32) : Bool := id &&& pfeFlagReply ≠ 0

/-- The words of `__PFE_STRUCT__`. -/
inductive Field
  | id
  | evtsec
  | srcPid
  | key
  deriving DecidableEq, Repr

def Field.offset : Field → Nat
  | .id => 0
  | .evtsec => 4
  | .srcPid => 8
  | .key => 12

/-- A word of the event at `event`. -/
def field (m : Memory) (event : Nat) (f : Field) : BitVec 32 :=
  readWord (m.load (event + f.offset) 4)

/-- The store to a word, its place counted from the event. -/
def Field.row (f : Field) (x : BitVec 32) : Nat × List UInt8 :=
  (f.offset, word x)

/-- `PFE_INIT_EVENT`. -/
def pfeInitEvent (eid now pid : BitVec 32) : List (Nat × List UInt8) :=
  [Field.id.row eid, Field.evtsec.row now, Field.srcPid.row pid]

variable {m : Memory} {event : Nat} {f : Field} {rows : List (Nat × List UInt8)} {x : BitVec 32}

/-- Stores that spare a word leave it as it is. -/
theorem field_stores_of_spares (h : Spares rows f.offset 4) :
    field (m.stores event rows) event f = field m event f := by
  rw [field, load_stores_of_spares h, field]

/-- A word has the last value that was stored there. -/
theorem field_stores_row (h : Spares rows f.offset 4) :
    field (m.stores event (f.row x :: rows)) event f = x := by
  have hload : (m.store (event + f.offset) (word x)).load (event + f.offset) 4 = word x :=
    load_store
  calc field (m.stores event (f.row x :: rows)) event f
      = field (m.store (event + f.offset) (word x)) event f := field_stores_of_spares h
    _ = readWord (word x ++ []) := by rw [field, hload, List.append_nil]
    _ = x := readWord_word

end EventHeader

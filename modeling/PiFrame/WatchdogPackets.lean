import Mathlib.Algebra.Order.Ring.Int
import Mathlib.Data.List.Basic
import PiFrame.Limits

/-!
# What clients and the watchdog say to each other

`lib/pfwdt/pfwdt.c` puts packets on `q.watchdog`, and `service/watchdog` takes
them off.  A packet is a structure of `pfwatchdog.h` as it lies in memory.  Its
first word is to have the type of the packet in its upper byte and the size of
the structure in its lower twelve bits: `PFWD_REGISTER` and its like are made so,
and `eventWDHandler`, `watchdogAddEvent` and `processWDEvent` look at them.

The clients put the bare command there, without type and size.  So the upper byte
is zero and no packet is known to the watchdog; with the words of the header every
one of them would come through.
-/

namespace Watchdog

open Limits

/-- A C string without its NUL. -/
abbrev Str := { s : List UInt8 // 0 ∉ s }

/-- `char a[n]` with a string in it, and NULs up to its end. -/
structure CharArray (n : Nat) where
  text : Str
  fits : text.val.length < n

def CharArray.bytes {n : Nat} (a : CharArray n) : List UInt8 :=
  a.text.val ++ List.replicate (n - a.text.val.length) 0

/-- `strncpy(a, s, sizeof(a) - 1)` on a zeroed array. -/
def CharArray.strncpy (n : Nat) [NeZero n] (s : Str) : CharArray n where
  text := ⟨s.val.take (n - 1), fun h => s.property (List.mem_of_mem_take h)⟩
  fits := by
    have hpos := Nat.pos_of_neZero n
    simp only [List.length_take]
    omega

instance : NeZero maxNameLength := ⟨by decide⟩
instance : NeZero maxParamLength := ⟨by decide⟩

/-! ## `pfwatchdog.h` -/

/-- `enum EPFWD_COMMAND_TYPE`. -/
inductive Command
  | register | unregister | start | stop | alive | subRegister | subUnregister | subAlive
  deriving DecidableEq

/-- The value of a command. -/
def Command.value : Command → BitVec 32
  | .register => 0x63
  | .unregister => 0x64
  | .start => 0x65
  | .stop => 0x66
  | .alive => 0x67
  | .subRegister => 0x68
  | .subUnregister => 0x69
  | .subAlive => 0x6a

/-- `EPFWD_CMD_END`. -/
def epfwdCmdEnd : BitVec 32 := 0x6b

/-- `sizeof` of the structure that belongs to a command. -/
def Command.size : Command → Nat
  | .register => 592
  | .unregister => 72
  | .start => 72
  | .stop => 72
  | .alive => 72
  | .subRegister => 80
  | .subUnregister => 76
  | .subAlive => 76

/-- `__MKWDID`. -/
def mkwdid (wdt : BitVec 32) (size : Nat) : BitVec 32 :=
  wdt <<< 24 ||| (BitVec.ofNat 32 size &&& 0xfff)

/-- `PFWD_REGISTER`, `PFWD_UNREGISTER` and so on. -/
def Command.pfwd (c : Command) : BitVec 32 :=
  mkwdid c.value c.size

/-- `PFWD_TYPE`. -/
def pfwdType (id : BitVec 32) : BitVec 32 := id >>> 24 &&& 0xff

/-- `PFWD_PAYLOAD_SIZE`. -/
def pfwdPayloadSize (id : BitVec 32) : Nat := (id &&& 0xfff).toNat

/-- `__PFWD_STRUCT__`, which all structures begin with. -/
structure PFWatchdog where
  wdid : BitVec 32
  pid : BitVec 32
  name : CharArray maxNameLength

structure PFWDRegister extends PFWatchdog where
  params : CharArray maxParamLength
  eMode : BitVec 32
  timeout : BitVec 32

/-- A word in memory. -/
def word (x : BitVec 32) : List UInt8 :=
  [UInt8.ofBitVec (x.extractLsb' 0 8), UInt8.ofBitVec (x.extractLsb' 8 8),
    UInt8.ofBitVec (x.extractLsb' 16 8), UInt8.ofBitVec (x.extractLsb' 24 8)]

def PFWatchdog.bytes (p : PFWatchdog) : List UInt8 :=
  word p.wdid ++ word p.pid ++ p.name.bytes

def PFWDRegister.bytes (p : PFWDRegister) : List UInt8 :=
  p.toPFWatchdog.bytes ++ p.params.bytes ++ word p.eMode ++ word p.timeout

/-! ## `lib/pfwdt/pfwdt.c` -/

/-- `struct PFWDInfo`; `eventQ` tells whether the queue has been opened. -/
structure PFWDInfo where
  eventQ : Bool
  info : PFWDRegister
  subCount : BitVec 32

/-- `packet->wdid = wdid`. -/
def setWdid (packet : List UInt8) (wdid : BitVec 32) : List UInt8 :=
  word wdid ++ packet.drop 4

/-- `doSendWDPacket`: the packet it puts on the queue. -/
def doSendWDPacket (wdid : BitVec 32) (edata : List UInt8) (edsize : Nat) : List UInt8 :=
  setWdid (edata.take edsize) wdid

/-- The parameters as `fillInfo` strings them together, `none` if they overrun
their array. -/
def joinParams (params : List UInt8) : List Str → Option (List UInt8)
  | [] => some params
  | arg :: rest =>
      if params.length < maxParamLength then
        let params := params ++ arg.val ++ [32]
        if params.length < maxParamLength then joinParams params rest else none
      else some params

/-- The daemon joins the parameters inside its array, without a NUL among them. -/
theorem joinParams_spec {rest : List Str} {params joined : List UInt8} (hzero : 0 ∉ params)
    (hfits : params.length < maxParamLength) (h : joinParams params rest = some joined) :
    0 ∉ joined ∧ joined.length < maxParamLength := by
  induction rest generalizing params with
  | nil =>
      cases h
      exact ⟨hzero, hfits⟩
  | cons arg rest ih =>
      rw [joinParams, if_pos hfits] at h
      dsimp only at h
      split at h
      · next hlt =>
        refine ih ?_ hlt h
        simp [hzero, arg.property]
      · cases h

/-- `fillInfo`; `argv` is the name of the program and its parameters. -/
def fillInfo (pid : BitVec 32) (program : Str) (args : List Str) (eMode timeout : BitVec 32)
    (info : PFWDRegister) : Option PFWDRegister :=
  match h : joinParams [] args with
  | none => none
  | some params =>
      some { info with
        pid
        name := CharArray.strncpy maxNameLength program
        params := CharArray.strncpy maxParamLength
          ⟨params, (joinParams_spec List.not_mem_nil (by decide) h).1⟩
        eMode
        timeout }

/-- `struct VMWdtHandler`. -/
structure VMWdtHandler where
  wdtTs : Int
  subId : BitVec 32

/-- The calls of the library. -/
inductive Call
  | register (program : Str) (args : List Str) (eMode timeout : BitVec 32)
  | unregister
  | start
  | stop
  | alive
  | subRegister (timeout : BitVec 32)
  | subUnregister (handle : VMWdtHandler)
  | subAlive (handle : VMWdtHandler) (period : Int)

/-- `PFWatchdogRegister`, with the packet it sends; `none` if its parameters
overrun their array. -/
def pfWatchdogRegister (w : PFWDInfo) (pid : BitVec 32) (program : Str) (args : List Str)
    (eMode timeout : BitVec 32) : Option (PFWDInfo × Int × Option (List UInt8)) :=
  if w.info.pid ≠ 0 then some (w, -1, none)
  else
    match fillInfo pid program args eMode timeout w.info with
    | none => none
    | some info =>
        some ({ w with eventQ := true, info }, 0,
          some (doSendWDPacket Command.register.value info.bytes Command.register.size))

/-- `PFWatchdogUnregister`, `PFWatchdogStart`, `PFWatchdogStop` and
`PFWatchdogAlive`: the size they all send is that of `struct PFWDUnregister`. -/
def sendCommand (w : PFWDInfo) (c : Command) : Int × Option (List UInt8) :=
  if w.eventQ then (0, some (doSendWDPacket c.value w.info.bytes Command.unregister.size))
  else (-1, none)

def pfWatchdogUnregister (w : PFWDInfo) : Int × Option (List UInt8) := sendCommand w .unregister
def pfWatchdogStart (w : PFWDInfo) : Int × Option (List UInt8) := sendCommand w .start
def pfWatchdogStop (w : PFWDInfo) : Int × Option (List UInt8) := sendCommand w .stop
def pfWatchdogAlive (w : PFWDInfo) : Int × Option (List UInt8) := sendCommand w .alive

/-- What the calls for sub-services store to their packet: the first structure of
the information, the command, and their own words. -/
def subPacket (w : PFWDInfo) (c : Command) (words : List (BitVec 32)) : List UInt8 :=
  setWdid (w.info.bytes.take Command.unregister.size) c.value ++ words.flatMap word

/-- `PFWatchdogSubRegister`. -/
def pfWatchdogSubRegister (w : PFWDInfo) (pid : BitVec 32) (now : Int) (timeout : BitVec 32) :
    PFWDInfo × Option VMWdtHandler × Option (List UInt8) :=
  if w.eventQ then
    let subId := pid <<< 16 ||| (w.subCount &&& 0xffff)
    ({ w with subCount := w.subCount + 1 }, some ⟨now, subId⟩,
      some (subPacket w .subRegister [subId, timeout]))
  else (w, none, none)

/-- The test of a handle: it was made by this process. -/
def ownHandle (pid : BitVec 32) (handle : VMWdtHandler) : Bool :=
  handle.subId >>> 16 &&& 0xffff == pid &&& 0xffff

/-- `PFWatchdogSubUnregister`. -/
def pfWatchdogSubUnregister (w : PFWDInfo) (pid : BitVec 32) (handle : VMWdtHandler) :
    Int × Option (List UInt8) :=
  if w.eventQ then
    if ownHandle pid handle then (0, some (subPacket w .subUnregister [handle.subId]))
    else (-1, none)
  else (-1, none)

/-- `PFWatchdogSubAlive`, with the handle as it leaves it. -/
def pfWatchdogSubAlive (w : PFWDInfo) (pid : BitVec 32) (now : Int) (handle : VMWdtHandler)
    (period : Int) : VMWdtHandler × Int × Option (List UInt8) :=
  if w.eventQ then
    if ownHandle pid handle then
      if now - handle.wdtTs > period then
        ({ handle with wdtTs := now }, 1, some (subPacket w .subAlive [handle.subId]))
      else (handle, 0, none)
    else (handle, -1, none)
  else (handle, -1, none)

/-- The packet that a call of process `pid` at second `now` puts on the queue. -/
def Call.packet (w : PFWDInfo) (pid : BitVec 32) (now : Int) : Call → Option (List UInt8)
  | .register program args eMode timeout =>
      (pfWatchdogRegister w pid program args eMode timeout).bind fun r => r.2.2
  | .unregister => (pfWatchdogUnregister w).2
  | .start => (pfWatchdogStart w).2
  | .stop => (pfWatchdogStop w).2
  | .alive => (pfWatchdogAlive w).2
  | .subRegister timeout => (pfWatchdogSubRegister w pid now timeout).2.2
  | .subUnregister handle => (pfWatchdogSubUnregister w pid handle).2
  | .subAlive handle period => (pfWatchdogSubAlive w pid now handle period).2.2

/-! ## `service/watchdog` -/

/-- A word that is read from memory. -/
def readWord (mem : List UInt8) : BitVec 32 :=
  match mem with
  | b₀ :: b₁ :: b₂ :: b₃ :: _ => b₃.toBitVec ++ b₂.toBitVec ++ b₁.toBitVec ++ b₀.toBitVec
  | _ => 0

/-- A string that is read from memory. -/
def readString (mem : List UInt8) : List UInt8 :=
  mem.takeWhile (· ≠ 0)

/-- What becomes of an item on the queue. -/
inductive Handled
  | unknown
  | added (data : List UInt8)
  | nullItem
  deriving DecidableEq

/-- `watchdogAddEvent`: `allocItem` copies as many bytes as the first word says,
and gives no item for no bytes. -/
def watchdogAddEvent (mem : List UInt8) : Handled :=
  if pfwdPayloadSize (readWord mem) = 0 then .nullItem
  else .added (mem.take (pfwdPayloadSize (readWord mem)))

/-- `eventWDHandler`, for an item that begins the memory `mem`. -/
def eventWDHandler (mem : List UInt8) : Handled :=
  let type := pfwdType (readWord mem)
  if Command.register.value ≤ type ∧ type < epfwdCmdEnd then watchdogAddEvent mem
  else .unknown

/-- The handlers of `watchdog.c` with what they read out of their packets. -/
inductive WDEvent
  | register (pid : BitVec 32) (name params : List UInt8) (eMode timeout : BitVec 32)
  | unregister (pid : BitVec 32) (name : List UInt8)
  | start (pid : BitVec 32) (name : List UInt8)
  | stop (pid : BitVec 32) (name : List UInt8)
  | alive (pid : BitVec 32) (name : List UInt8)
  | subRegister (pid : BitVec 32) (name : List UInt8) (subId timeout : BitVec 32)
  | subUnregister (pid : BitVec 32) (name : List UInt8) (subId : BitVec 32)
  | subAlive (pid : BitVec 32) (name : List UInt8) (subId : BitVec 32)
  deriving DecidableEq

/-- `processWDEvent`: which handler is called, if any. -/
def processWDEvent (mem : List UInt8) : Option WDEvent :=
  let wdid := readWord mem
  let pid := readWord (mem.drop 4)
  let name := readString (mem.drop 8)
  if wdid = Command.alive.pfwd then some (.alive pid name)
  else if wdid = Command.subAlive.pfwd then some (.subAlive pid name (readWord (mem.drop 72)))
  else if wdid = Command.register.pfwd then
    some (.register pid name (readString (mem.drop 72)) (readWord (mem.drop 584))
      (readWord (mem.drop 588)))
  else if wdid = Command.unregister.pfwd then some (.unregister pid name)
  else if wdid = Command.start.pfwd then some (.start pid name)
  else if wdid = Command.stop.pfwd then some (.stop pid name)
  else if wdid = Command.subRegister.pfwd then
    some (.subRegister pid name (readWord (mem.drop 72)) (readWord (mem.drop 76)))
  else if wdid = Command.subUnregister.pfwd then
    some (.subUnregister pid name (readWord (mem.drop 72)))
  else none

/-! ## What a call asks for -/

def Call.command : Call → Command
  | .register .. => .register
  | .unregister => .unregister
  | .start => .start
  | .stop => .stop
  | .alive => .alive
  | .subRegister _ => .subRegister
  | .subUnregister _ => .subUnregister
  | .subAlive .. => .subAlive

/-- The handler and the values that a call of process `pid` is meant to reach.
After its registration a client is known by its pid and name. -/
def Call.request (w : PFWDInfo) (pid : BitVec 32) : Call → WDEvent
  | .register program args eMode timeout =>
      .register pid program ((joinParams [] args).getD []) eMode timeout
  | .unregister => .unregister w.info.pid w.info.name.text
  | .start => .start w.info.pid w.info.name.text
  | .stop => .stop w.info.pid w.info.name.text
  | .alive => .alive w.info.pid w.info.name.text
  | .subRegister timeout =>
      .subRegister w.info.pid w.info.name.text (pid <<< 16 ||| (w.subCount &&& 0xffff)) timeout
  | .subUnregister handle => .subUnregister w.info.pid w.info.name.text handle.subId
  | .subAlive handle _ => .subAlive w.info.pid w.info.name.text handle.subId

/-- The item is known, exactly its bytes are copied, and they reach the handler
that was meant with the values that were meant.  `rest` is what follows the
packet in the memory of the queue. -/
def Understood (packet : List UInt8) (request : WDEvent) : Prop :=
  ∀ rest, eventWDHandler (packet ++ rest) = .added packet ∧
    processWDEvent packet = some request

/-- The names that a call gives fit into their arrays. -/
def Call.Fits : Call → Prop
  | .register program _ _ _ => program.val.length < maxNameLength
  | _ => True

/-! ## Reading what was written -/

section Memory

variable {n : Nat} {x : BitVec 32} {a : CharArray n} {rest : List UInt8}

@[simp] theorem length_word : (word x).length = 4 := rfl

@[simp] theorem CharArray.length_bytes : a.bytes.length = n := by
  have hfits := a.fits
  simp only [CharArray.bytes, List.length_append, List.length_replicate]
  omega

@[simp] theorem readWord_word : readWord (word x ++ rest) = x := by
  show x.extractLsb' 24 8 ++ x.extractLsb' 16 8 ++ x.extractLsb' 8 8 ++ x.extractLsb' 0 8 = x
  have h₁ : x.extractLsb' 24 8 ++ x.extractLsb' 16 8 = x.extractLsb' 16 16 :=
    BitVec.extractLsb'_append_extractLsb'_eq_extractLsb' rfl
  have h₂ : x.extractLsb' 16 16 ++ x.extractLsb' 8 8 = x.extractLsb' 8 24 :=
    BitVec.extractLsb'_append_extractLsb'_eq_extractLsb' rfl
  have h₃ : x.extractLsb' 8 24 ++ x.extractLsb' 0 8 = x.extractLsb' 0 32 :=
    BitVec.extractLsb'_append_extractLsb'_eq_extractLsb' rfl
  rw [h₁, h₂, h₃]
  exact BitVec.extractLsb'_eq_self

@[simp] theorem readString_bytes : readString (a.bytes ++ rest) = a.text := by
  have hpos : n - a.text.val.length ≠ 0 := by
    have hfits := a.fits
    omega
  have hnot : ∀ c ∈ a.text.val, (decide (c ≠ 0)) = true := by
    intro c hc
    rw [decide_eq_true_iff]
    rintro rfl
    exact a.text.property hc
  obtain ⟨k, hk⟩ := Nat.exists_eq_succ_of_ne_zero hpos
  rw [readString, CharArray.bytes, hk, List.replicate_succ, List.append_assoc,
    List.takeWhile_append_of_pos hnot]
  simp

/-- The words and the string that a packet begins with. -/
theorem read_header {id pid : BitVec 32} {name : CharArray maxNameLength} {mem : List UInt8}
    (hmem : mem = word id ++ word pid ++ name.bytes ++ rest) :
    readWord mem = id ∧ readWord (mem.drop 4) = pid ∧ readString (mem.drop 8) = name.text ∧
      mem.drop 72 = rest := by
  have hpid : mem.drop 4 = word pid ++ (name.bytes ++ rest) := by
    rw [hmem, List.append_assoc, List.append_assoc]
    exact List.drop_left' length_word
  have hname : mem.drop 8 = name.bytes ++ rest := by
    rw [show 8 = 4 + 4 from rfl, ← List.drop_drop, hpid]
    exact List.drop_left' length_word
  refine ⟨?_, ?_, ?_, ?_⟩
  · rw [hmem, List.append_assoc, List.append_assoc, readWord_word]
  · rw [hpid, readWord_word]
  · rw [hname, readString_bytes]
  · rw [show 72 = 8 + 64 from rfl, ← List.drop_drop, hname]
    exact List.drop_left' CharArray.length_bytes

end Memory

/-! ## What is sent -/

variable {w : PFWDInfo} {pid : BitVec 32} {now : Int} {call : Call} {packet : List UInt8}

/-- The first structure of the information. -/
theorem take_info : w.info.bytes.take Command.unregister.size =
    word w.info.wdid ++ word w.info.pid ++ w.info.name.bytes := by
  rw [PFWDRegister.bytes, PFWatchdog.bytes, List.append_assoc, List.append_assoc]
  have hlen : (word w.info.wdid ++ word w.info.pid ++ w.info.name.bytes).length = 72 := by
    rw [List.length_append, List.length_append, CharArray.length_bytes]
    rfl
  exact List.take_left' hlen

/-- A packet with any first word, after that the name of the client, and the words
of the call. -/
theorem setWdid_take_info {id : BitVec 32} :
    setWdid (w.info.bytes.take Command.unregister.size) id =
      word id ++ word w.info.pid ++ w.info.name.bytes := by
  rw [take_info, setWdid, List.append_assoc, List.drop_left' length_word, List.append_assoc]

theorem setWdid_setWdid {mem more : List UInt8} {id id' : BitVec 32} :
    setWdid (setWdid mem id ++ more) id' = setWdid mem id' ++ more := by
  rw [setWdid, setWdid, setWdid, List.append_assoc, List.drop_left' length_word,
    List.append_assoc]

/-- Every packet begins with the bare command, without the type and the size that the header of
the daemons asks for. -/
theorem packet_wdid (h : call.packet w pid now = some packet) :
    ∃ mem, packet = word call.command.value ++ mem := by
  have hsend : ∀ c, (sendCommand w c).2 = some packet → ∃ mem, packet = word c.value ++ mem := by
    intro c hc
    rw [sendCommand] at hc
    split at hc <;> cases hc
    exact ⟨_, rfl⟩
  have hsub : ∀ c words, ∃ mem, subPacket w c words = word c.value ++ mem :=
    fun c words => ⟨_, List.append_assoc ..⟩
  cases call with
  | register program args eMode timeout =>
      rw [Call.packet, pfWatchdogRegister] at h
      split at h
      · cases h
      · split at h <;> cases h
        exact ⟨_, rfl⟩
  | unregister => exact hsend _ h
  | start => exact hsend _ h
  | stop => exact hsend _ h
  | alive => exact hsend _ h
  | subRegister timeout =>
      rw [Call.packet, pfWatchdogSubRegister] at h
      split at h <;> cases h
      exact hsub ..
  | subUnregister handle =>
      rw [Call.packet, pfWatchdogSubUnregister] at h
      split at h
      · split at h <;> cases h
        exact hsub ..
      · cases h
  | subAlive handle period =>
      rw [Call.packet, pfWatchdogSubAlive] at h
      split at h
      · split at h
        · split at h <;> cases h
          exact hsub ..
        · cases h
      · cases h

/-- The watchdog does not know a bare command. -/
theorem bare_unknown (c : Command) (mem : List UInt8) :
    eventWDHandler (word c.value ++ mem) = .unknown := by
  have htype : ¬ (Command.register.value ≤ pfwdType c.value ∧ pfwdType c.value < epfwdCmdEnd) := by
    cases c <;> decide
  rw [eventWDHandler, readWord_word]
  exact if_neg htype

/-! ## What would be understood -/

/-- The watchdog knows the words of the header, and copies as many bytes as the
structure has. -/
theorem pfwd_added (c : Command) {mem : List UInt8} (hlen : (word c.pfwd ++ mem).length = c.size)
    (rest : List UInt8) :
    eventWDHandler (word c.pfwd ++ mem ++ rest) = .added (word c.pfwd ++ mem) := by
  have htype : Command.register.value ≤ pfwdType c.pfwd ∧ pfwdType c.pfwd < epfwdCmdEnd := by
    cases c <;> decide
  have hsize : pfwdPayloadSize c.pfwd = c.size := by
    cases c <;> decide
  have hpos : c.size ≠ 0 := by
    cases c <;> decide
  have hword : readWord (word c.pfwd ++ mem ++ rest) = c.pfwd := by
    rw [List.append_assoc, readWord_word]
  rw [eventWDHandler, hword, if_pos htype, watchdogAddEvent, hword, hsize, if_neg hpos,
    List.take_left' hlen]

/-- No two commands have the same word in the header. -/
theorem pfwd_inj {c c' : Command} : c.pfwd = c'.pfwd ↔ c = c' := by
  cases c <;> cases c' <;> decide

/-- What a handler reads out of its packet. -/
def Command.read (c : Command) (mem : List UInt8) : WDEvent :=
  let pid := readWord (mem.drop 4)
  let name := readString (mem.drop 8)
  match c with
  | .register =>
      .register pid name (readString (mem.drop 72)) (readWord (mem.drop 584))
        (readWord (mem.drop 588))
  | .unregister => .unregister pid name
  | .start => .start pid name
  | .stop => .stop pid name
  | .alive => .alive pid name
  | .subRegister => .subRegister pid name (readWord (mem.drop 72)) (readWord (mem.drop 76))
  | .subUnregister => .subUnregister pid name (readWord (mem.drop 72))
  | .subAlive => .subAlive pid name (readWord (mem.drop 72))

/-- The switch of `processWDEvent` finds the handler of the command. -/
theorem processWDEvent_pfwd {c : Command} {mem : List UInt8} (h : readWord mem = c.pfwd) :
    processWDEvent mem = some (c.read mem) := by
  rw [processWDEvent]
  simp only [h, pfwd_inj]
  cases c <;> rfl

/-- A packet that has the word of the header and the name of its client. -/
theorem understood_of_bytes {c : Command} {more : List UInt8}
    (hpacket : packet = word c.pfwd ++ word w.info.pid ++ w.info.name.bytes ++ more)
    (hmore : 72 + more.length = c.size) : Understood packet (c.read packet) := by
  intro rest
  refine ⟨?_, processWDEvent_pfwd (read_header hpacket).1⟩
  have hassoc : packet = word c.pfwd ++ (word w.info.pid ++ w.info.name.bytes ++ more) := by
    rw [hpacket]
    simp only [List.append_assoc]
  rw [hassoc]
  apply pfwd_added
  rw [← hassoc, hpacket]
  simp only [List.length_append, length_word, CharArray.length_bytes]
  rw [← hmore]
  rfl

/-- The string that has been put into an array is the one that fits. -/
theorem text_strncpy {n : Nat} [NeZero n] {s : Str} (hfits : s.val.length < n) :
    (CharArray.strncpy n s).text.val = s.val :=
  List.take_of_length_le (Nat.le_sub_one_of_lt hfits)

/-- A command without words of its own. -/
theorem understood_command {c : Command} {request : WDEvent} (hsize : c.size = 72)
    (h : (sendCommand w c).2 = some packet)
    (hread : ∀ mem, readWord (mem.drop 4) = w.info.pid →
      readString (mem.drop 8) = w.info.name.text → c.read mem = request) :
    Understood (setWdid packet c.pfwd) request := by
  have hpacket : setWdid packet c.pfwd =
      word c.pfwd ++ word w.info.pid ++ w.info.name.bytes ++ [] := by
    rw [sendCommand] at h
    split at h <;> cases h
    have hset := @setWdid_setWdid (w.info.bytes.take Command.unregister.size) [] c.value c.pfwd
    rw [List.append_nil, List.append_nil] at hset
    rw [doSendWDPacket, hset, setWdid_take_info, List.append_nil]
  obtain ⟨-, hpid, hname, -⟩ := read_header hpacket
  rw [← hread _ hpid hname]
  exact understood_of_bytes hpacket hsize.symm

/-- A command for a sub-service. -/
theorem understood_sub {c : Command} {request : WDEvent} {words : List (BitVec 32)}
    (hsize : 72 + (words.flatMap word).length = c.size)
    (hread : ∀ mem, readWord (mem.drop 4) = w.info.pid →
      readString (mem.drop 8) = w.info.name.text → mem.drop 72 = words.flatMap word →
        c.read mem = request) :
    Understood (setWdid (subPacket w c words) c.pfwd) request := by
  have hpacket : setWdid (subPacket w c words) c.pfwd =
      word c.pfwd ++ word w.info.pid ++ w.info.name.bytes ++ words.flatMap word := by
    rw [subPacket, setWdid_setWdid, setWdid_take_info]
  obtain ⟨-, hpid, hname, hwords⟩ := read_header hpacket
  rw [← hread _ hpid hname hwords]
  exact understood_of_bytes hpacket hsize

theorem readWord_flatMap {x : BitVec 32} {words : List (BitVec 32)} :
    readWord ((x :: words).flatMap word) = x := by
  rw [List.flatMap_cons, readWord_word]

/-- What `fillInfo` leaves in the information. -/
theorem fillInfo_some {program : Str} {args : List Str} {eMode timeout : BitVec 32}
    {info info' : PFWDRegister} (hfits : program.val.length < maxNameLength)
    (hinfo : fillInfo pid program args eMode timeout info = some info') :
    info'.pid = pid ∧ info'.name.text.val = program.val ∧
      info'.params.text.val = (joinParams [] args).getD [] ∧ info'.eMode = eMode ∧
      info'.timeout = timeout := by
  unfold fillInfo at hinfo
  split at hinfo
  · cases hinfo
  · next params hjoin =>
    cases hinfo
    have hlen := (joinParams_spec List.not_mem_nil (by decide) hjoin).2
    have hget : params = (joinParams [] args).getD [] := by
      rw [hjoin]
      rfl
    exact ⟨rfl, text_strncpy hfits, (text_strncpy hlen).trans hget, rfl, rfl⟩

/-- The packet of a registration would be understood, if its first word were the id of the
command. -/
theorem understood_register {program : Str} {args : List Str} {eMode timeout : BitVec 32}
    {info : PFWDRegister} (hfits : program.val.length < maxNameLength)
    (hinfo : fillInfo pid program args eMode timeout w.info = some info) :
    Understood (setWdid (doSendWDPacket Command.register.value info.bytes Command.register.size)
      Command.register.pfwd)
      (.register pid program ((joinParams [] args).getD []) eMode timeout) := by
  have hlen : info.bytes.length = Command.register.size := by
    simp only [PFWDRegister.bytes, PFWatchdog.bytes, List.length_append, length_word,
      CharArray.length_bytes]
    rfl
  have hpacket : setWdid (doSendWDPacket Command.register.value info.bytes Command.register.size)
      Command.register.pfwd = word Command.register.pfwd ++ word info.pid ++ info.name.bytes ++
        (info.params.bytes ++ (word info.eMode ++ word info.timeout)) := by
    rw [doSendWDPacket, List.take_of_length_le (Nat.le_of_eq hlen), setWdid, setWdid,
      List.drop_left' length_word]
    simp only [PFWDRegister.bytes, PFWatchdog.bytes, List.append_assoc]
    rw [List.drop_left' length_word]
  obtain ⟨-, hpid, hname, hrest⟩ := read_header hpacket
  obtain ⟨hpid', hname', hparams, heMode, htimeout⟩ := fillInfo_some hfits hinfo
  have hmore : 72 + (info.params.bytes ++ (word info.eMode ++ word info.timeout)).length =
      Command.register.size := by
    rw [List.length_append, CharArray.length_bytes]
    rfl
  have hunderstood := @understood_of_bytes { w with info } _ .register _ hpacket hmore
  generalize setWdid (doSendWDPacket Command.register.value info.bytes Command.register.size)
    Command.register.pfwd = mem at *
  have hmode : mem.drop 584 = word info.eMode ++ word info.timeout := by
    rw [show 584 = 72 + 512 from rfl, ← List.drop_drop, hrest]
    exact List.drop_left' CharArray.length_bytes
  have htime : mem.drop 588 = word info.timeout ++ [] := by
    rw [show 588 = 584 + 4 from rfl, ← List.drop_drop, hmode, List.append_nil]
    exact List.drop_left' length_word
  rw [Command.read, hpid, hname, hrest, hmode, htime, readString_bytes, readWord_word,
    readWord_word, hpid', hname', hparams, heMode, htimeout] at hunderstood
  exact hunderstood

/-- With the words of the header the client and the watchdog would speak the same
protocol. -/
theorem understood_pfwd (hfits : call.Fits) (h : call.packet w pid now = some packet) :
    Understood (setWdid packet call.command.pfwd) (call.request w pid) := by
  cases call with
  | register program args eMode timeout =>
      rw [Call.packet, pfWatchdogRegister] at h
      split at h
      · cases h
      · cases hinfo : fillInfo pid program args eMode timeout w.info with
        | none =>
            rw [hinfo] at h
            cases h
        | some info =>
            rw [hinfo] at h
            cases h
            exact understood_register hfits hinfo
  | unregister =>
      exact understood_command (c := .unregister) rfl h fun mem hpid hname => by
        rw [Command.read, hpid, hname]
        rfl
  | start =>
      exact understood_command (c := .start) rfl h fun mem hpid hname => by
        rw [Command.read, hpid, hname]
        rfl
  | stop =>
      exact understood_command (c := .stop) rfl h fun mem hpid hname => by
        rw [Command.read, hpid, hname]
        rfl
  | alive =>
      exact understood_command (c := .alive) rfl h fun mem hpid hname => by
        rw [Command.read, hpid, hname]
        rfl
  | subRegister timeout =>
      rw [Call.packet, pfWatchdogSubRegister] at h
      split at h <;> cases h
      refine understood_sub (c := .subRegister) rfl fun mem hpid hname hwords => ?_
      have hnext : mem.drop 76 = [timeout].flatMap word := by
        rw [show 76 = 72 + 4 from rfl, ← List.drop_drop, hwords, List.flatMap_cons]
        exact List.drop_left' length_word
      rw [Command.read, hpid, hname, hwords, hnext, readWord_flatMap, readWord_flatMap]
      rfl
  | subUnregister handle =>
      rw [Call.packet, pfWatchdogSubUnregister] at h
      split at h
      · split at h <;> cases h
        refine understood_sub (c := .subUnregister) rfl fun mem hpid hname hwords => ?_
        rw [Command.read, hpid, hname, hwords, readWord_flatMap]
        rfl
      · cases h
  | subAlive handle period =>
      rw [Call.packet, pfWatchdogSubAlive] at h
      split at h
      · split at h
        · split at h <;> cases h
          refine understood_sub (c := .subAlive) rfl fun mem hpid hname hwords => ?_
          rw [Command.read, hpid, hname, hwords, readWord_flatMap]
          rfl
        · cases h
      · cases h

/-- **What a client says is never understood.**  Every packet that a call puts on
the queue is unknown to the watchdog.  It is the first word alone: with the word
of the header in its place the same packet would be known and copied, and reach
the handler of its operation with the values of the client. -/
theorem watchdog_protocol (h : call.packet w pid now = some packet) :
    ¬ Understood packet (call.request w pid) ∧
      (call.Fits → Understood (setWdid packet call.command.pfwd) (call.request w pid)) := by
  refine ⟨fun hunderstood => ?_, fun hfits => understood_pfwd hfits h⟩
  obtain ⟨mem, rfl⟩ := packet_wdid h
  have hadded := (hunderstood []).1
  rw [List.append_assoc, bare_unknown] at hadded
  cases hadded

/-- A client that has not called anything yet. -/
def freshClient : PFWDInfo where
  eventQ := false
  info :=
    { wdid := 0
      pid := 0
      name := ⟨⟨[], List.not_mem_nil⟩, by decide⟩
      params := ⟨⟨[], List.not_mem_nil⟩, by decide⟩
      eMode := 0
      timeout := 0 }
  subCount := 0

/-- Process 7 registers under the name `a`. -/
def firstCall : Call := .register ⟨[97], by decide⟩ [] 1 30

theorem firstCall_packet : ∃ packet, firstCall.packet freshClient 7 0 = some packet := by
  have hfill : ∃ info, fillInfo 7 ⟨[97], by decide⟩ [] 1 30 freshClient.info = some info :=
    ⟨_, rfl⟩
  obtain ⟨info, hinfo⟩ := hfill
  rw [firstCall, Call.packet, pfWatchdogRegister, if_neg (by decide), hinfo]
  exact ⟨_, rfl⟩

/-- A first registration is not understood as it is sent, and would be with the id of its
command. -/
theorem watchdog_protocol_first_call : ∃ packet, firstCall.packet freshClient 7 0 = some packet ∧
    ¬ Understood packet (firstCall.request freshClient 7) ∧
    Understood (setWdid packet firstCall.command.pfwd) (firstCall.request freshClient 7) := by
  obtain ⟨packet, hpacket⟩ := firstCall_packet
  obtain ⟨hnever, hfixed⟩ := watchdog_protocol hpacket
  exact ⟨packet, hpacket, hnever, hfixed (show 1 < maxNameLength by decide)⟩

/-- The registration is thrown away. -/
theorem registration_unknown : ∃ packet, firstCall.packet freshClient 7 0 = some packet ∧
    eventWDHandler packet = .unknown := by
  obtain ⟨packet, hpacket⟩ := firstCall_packet
  obtain ⟨mem, rfl⟩ := packet_wdid hpacket
  exact ⟨_, hpacket, bare_unknown _ mem⟩

end Watchdog

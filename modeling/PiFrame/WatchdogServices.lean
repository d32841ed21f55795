import Mathlib.Data.Finset.Basic
import Mathlib.Data.List.DropRight
import PiFrame.RingList
import PiFrame.Transition
import PiFrame.WatchdogPackets

/-!
# The services of the watchdog

`service/watchdog/watchdog.c` keeps the services it watches in a list, each of
them with a list of sub-services.  A thread handles the events of the clients and
every few seconds passes over the list: it takes the seconds that have gone by off
the counters, and takes the services out whose process is gone or whose counter
is negative, while it goes along.

The services are nodes of a ring with the head `wdi.root`.  Seconds are those of
`CLOCK_MONOTONIC`, and what `PFU_isValidProcess` answers is up to the system.
-/

namespace Watchdog

open RingList Transition

/-- The address of a `struct ListService`, or of the head of their list. -/
abbrev Node := Nat

/-- `wdi.root`. -/
def rootNode : Node := 0

/-- What an `int` keeps of a number. -/
def toInt32 (x : Int) : Int := x.bmod (2 ^ 32)

/-! ## Names -/

/-- A path without the slashes at its end. -/
def trimSlashes (name : List UInt8) : List UInt8 :=
  name.rdropWhile (· = 47)

/-- `basename`. -/
def basename (name : List UInt8) : List UInt8 :=
  if name = [] then [46]
  else if trimSlashes name = [] then [47]
  else (trimSlashes name).rtakeWhile (· ≠ 47)

/-- What `basename` leaves in its argument. -/
def basenameLeaves (name : List UInt8) : List UInt8 :=
  if trimSlashes name = [] then name else trimSlashes name

/-! ## The records -/

/-- `struct PFWDRegister` as it is kept. -/
structure ServiceInfo where
  pid : BitVec 32
  name : List UInt8
  params : List UInt8
  eMode : BitVec 32
  timeout : BitVec 32

/-- `struct ListSubService`.  `heard` and `alive` are not in the source: the
second of the last `SUB_ALIVE` or else of the registration, and whether there was
a `SUB_ALIVE`. -/
structure ListSubService where
  subId : BitVec 32
  timeout : Int
  expireCount : Int
  ats : Int
  heard : Int
  alive : Bool

/-- `struct ListService`.  `last` is not in the source: the second of the last
`START` or `ALIVE`. -/
structure ListService where
  info : ServiceInfo
  subRoot : List ListSubService
  bActive : Bool
  expireCount : Int
  ats : Int
  last : Int

/-- `struct WatchdogInfo` and the services behind the addresses.  `fault` is
raised by an access to a service that is not allocated, and `exited` by
`exit(1)`. -/
structure WatchdogInfo where
  root : Links Node
  services : Node → ListService
  live : Finset Node
  lts : Int
  requestRebootTs : Int
  exited : Bool
  fault : Bool

namespace WatchdogInfo

def touch (s : WatchdogInfo) (x : Node) : WatchdogInfo :=
  { s with fault := s.fault || decide (x ∉ s.live) }

/-- A store to service `x`. -/
def store (s : WatchdogInfo) (x : Node) (service : ListService) : WatchdogInfo :=
  { s.touch x with services := Function.update s.services x service }

def withRoot (s : WatchdogInfo) (root : Links Node) : WatchdogInfo :=
  { s with root }

/-- `removeSubServiceListwithService`. -/
def freeService (s : WatchdogInfo) (x : Node) : WatchdogInfo :=
  { s.touch x with live := s.live.erase x }

/-- `list_del` and `removeSubServiceListwithService`. -/
def removeService (s : WatchdogInfo) (x : Node) : WatchdogInfo :=
  (s.withRoot (s.root.listDel x)).freeService x

end WatchdogInfo

/-! ## Searches -/

/-- `list_for_each (plist, &pWDI->root)`. -/
def forEach {σ : Type} (visit : Node → σ → σ × Bool) (fuel : Nat) (root : Links Node) (s : σ) :
    Option (σ × Option Node) :=
  scan visit rootNode fuel root (root.next rootNode) s

/-- A look at the information of a service. -/
def visitInfo (p : ServiceInfo → Bool) (x : Node) (s : WatchdogInfo) : WatchdogInfo × Bool :=
  (s.touch x, p (s.services x).info)

/-- `getServiceListWithPID`. -/
def getServiceListWithPID (fuel : Nat) (s : WatchdogInfo) (pid : BitVec 32) :
    Option (WatchdogInfo × Option Node) :=
  forEach (visitInfo fun info => info.pid = pid) fuel s.root s

/-- A comparison of the name of a service with another one, both of which
`basename` may shorten. -/
def visitName (x : Node) (s : WatchdogInfo × List UInt8) : (WatchdogInfo × List UInt8) × Bool :=
  let (s, name) := s
  let service := s.services x
  let info := { service.info with name := basenameLeaves service.info.name }
  ((s.store x { service with info }, basenameLeaves name),
    basename service.info.name = basename name)

/-- `getServiceListWithName`, with what it leaves of the name. -/
def getServiceListWithName (fuel : Nat) (s : WatchdogInfo) (name : List UInt8) :
    Option ((WatchdogInfo × List UInt8) × Option Node) :=
  forEach visitName fuel s.root (s, name)

/-! ## The handlers -/

/-- What an event handler meets: the clock, the answers of `PFU_isValidProcess`
about the old process and the new one, and `calloc`, which returns an address that
is not in use. -/
structure Meets where
  now : Int
  validOld : Bool
  validNew : Bool
  calloc : Finset Node → Node
  fresh : ∀ live, calloc live ∉ live ∧ calloc live ≠ rootNode

/-- The end of `addServiceList`: a new service goes into the list. -/
def enterService (m : Meets) (s : WatchdogInfo) (info : ServiceInfo) : WatchdogInfo :=
  if m.validNew then
    let x := m.calloc s.live
    { s with
      root := s.root.listAddTail x rootNode
      services := Function.update s.services x
        { info, subRoot := [], bActive := false, expireCount := 0, ats := 0, last := 0 }
      live := insert x s.live }
  else s

/-- `addServiceList`. -/
def addServiceList (fuel : Nat) (m : Meets) (s : WatchdogInfo) (info : ServiceInfo) :
    Option WatchdogInfo :=
  match getServiceListWithName fuel s info.name with
  | none => none
  | some ((s, name), none) => some (enterService m s { info with name })
  | some ((s, name), some x) =>
      -- the new process is killed if the old one is there
      if m.validOld then some s else some (enterService m (s.removeService x) { info with name })

/-- `removeServiceList`. -/
def removeServiceList (fuel : Nat) (s : WatchdogInfo) (pid : BitVec 32) (name : List UInt8) :
    Option WatchdogInfo :=
  match forEach (visitInfo fun info => info.pid = pid ∧ info.name = name) fuel s.root s with
  | none => none
  | some (s, none) => some s
  | some (s, some x) => some (s.removeService x)

/-- `addSubServiceList`. -/
def addSubServiceList (fuel : Nat) (m : Meets) (s : WatchdogInfo) (name : List UInt8)
    (subId timeout : BitVec 32) : Option WatchdogInfo :=
  match getServiceListWithName fuel s name with
  | none => none
  | some ((s, _), none) => some s
  | some ((s, _), some x) =>
      if m.validOld then
        let service := s.services x
        let sub : ListSubService :=
          { subId
            timeout := timeout.toInt
            expireCount := timeout.toInt
            ats := m.now
            heard := m.now
            alive := false }
        some (s.store x { service with subRoot := service.subRoot ++ [sub] })
      else some (s.removeService x)

/-- `removeSubServiceList`. -/
def removeSubServiceList (fuel : Nat) (s : WatchdogInfo) (pid subId : BitVec 32) :
    Option WatchdogInfo :=
  match getServiceListWithPID fuel s pid with
  | none => none
  | some (s, none) => some s
  | some (s, some x) =>
      let service := s.services x
      some (s.store x
        { service with subRoot := service.subRoot.eraseP fun sub => sub.subId = subId })

/-- The first service of a process, if it has the name, is changed. -/
def changeService (fuel : Nat) (s : WatchdogInfo) (pid : BitVec 32) (name : List UInt8)
    (change : ListService → ListService) : Option WatchdogInfo :=
  match getServiceListWithPID fuel s pid with
  | none => none
  | some (s, none) => some s
  | some (s, some x) =>
      let service := s.services x
      if service.info.name = name then some (s.store x (change service)) else some s

/-- `service->info.timeout + 1`, as an `int`. -/
def ListService.fullCount (service : ListService) : Int :=
  (service.info.timeout + 1).toInt

/-- `serviceStartStopWD`. -/
def serviceStartStopWD (fuel : Nat) (m : Meets) (s : WatchdogInfo) (pid : BitVec 32)
    (name : List UInt8) (active : Bool) : Option WatchdogInfo :=
  changeService fuel s pid name fun service =>
    { service with
      bActive := active
      expireCount := service.fullCount
      ats := m.now
      last := if active then m.now else service.last }

/-- `serviceAliveWD`. -/
def serviceAliveWD (fuel : Nat) (m : Meets) (s : WatchdogInfo) (pid : BitVec 32)
    (name : List UInt8) : Option WatchdogInfo :=
  changeService fuel s pid name fun service =>
    { service with
      bActive := true
      expireCount := service.fullCount
      ats := m.now
      last := m.now }

/-- The first sub-service with that number has been heard of. -/
def hearSub (subId : BitVec 32) (now : Int) : List ListSubService → List ListSubService
  | [] => []
  | sub :: rest =>
      if sub.subId = subId then
        { sub with
          expireCount := toInt32 (sub.timeout + 1)
          ats := now
          heard := now
          alive := true } :: rest
      else sub :: hearSub subId now rest

/-- `serviceSubAliveWD`. -/
def serviceSubAliveWD (fuel : Nat) (m : Meets) (s : WatchdogInfo) (pid : BitVec 32)
    (name : List UInt8) (subId : BitVec 32) : Option WatchdogInfo :=
  changeService fuel s pid name fun service =>
    { service with subRoot := hearSub subId m.now service.subRoot }

/-- `processWDEvent`, for an event that has been read. -/
def WDEvent.handle (fuel : Nat) (m : Meets) (s : WatchdogInfo) : WDEvent → Option WatchdogInfo
  | .register pid name params eMode timeout =>
      addServiceList fuel m s ⟨pid, name, params, eMode, timeout⟩
  | .unregister pid name => removeServiceList fuel s pid name
  | .start pid name => serviceStartStopWD fuel m s pid name true
  | .stop pid name => serviceStartStopWD fuel m s pid name false
  | .alive pid name => serviceAliveWD fuel m s pid name
  | .subRegister _ name subId timeout => addSubServiceList fuel m s name subId timeout
  | .subUnregister pid _ subId => removeSubServiceList fuel s pid subId
  | .subAlive pid name subId => serviceSubAliveWD fuel m s pid name subId

/-! ## Passes -/

/-- `EPFWD_MODE_REBOOT`. -/
def epfwdModeReboot : BitVec 32 := 2

/-- `PF_DEF_WATCHDOG_PERIOD`. -/
def pfDefWatchdogPeriod : Int := 5

/-- `watchdogSubServiceUpdate`. -/
def watchdogSubServiceUpdate (cts : Int) : List ListSubService → List ListSubService × Bool
  | [] => ([], false)
  | sub :: rest =>
      let sub :=
        { sub with expireCount := toInt32 (sub.expireCount - (cts - sub.ats)), ats := cts }
      if sub.expireCount < 0 then (sub :: rest, true)
      else
        let (rest, fgActWD) := watchdogSubServiceUpdate cts rest
        (sub :: rest, fgActWD)

/-- A pass on its way: which services it has come to, and which of them it has
taken out. -/
structure Pass where
  info : WatchdogInfo
  visited : List Node
  acted : List Node

/-- The counter of a service is brought up to date, if it is active. -/
def ListService.countDown (service : ListService) (cts : Int) : ListService :=
  if service.bActive then
    { service with
      expireCount := toInt32 (service.expireCount - (cts - service.ats))
      ats := cts }
  else service

/-- `watchdogAction` on a service that has been taken out.  In the mode `REBOOT`
the process ends, unless it runs for debugging. -/
def watchdogAction (debug : Bool) (x : Node) (p : Pass) : Verdict Pass :=
  if (p.info.services x).info.eMode = epfwdModeReboot ∧ debug = false then
    .quit { p with info := { p.info with exited := true } }
  else .unlink { p with info := p.info.freeService x }

/-- The body of the loop of `watchdogServiceUpdate`. -/
def serviceUpdate (debug : Bool) (valid : Node → Bool) (cts : Int) (x : Node) (p : Pass) :
    Verdict Pass :=
  let info := p.info.touch x
  let service := info.services x
  let service := if valid x then service.countDown cts else service
  let fgActWD := !valid x || decide (service.expireCount < 0)
  let (subRoot, fgSub) :=
    if fgActWD then (service.subRoot, true) else watchdogSubServiceUpdate cts service.subRoot
  let p : Pass :=
    { info := info.store x { service with subRoot }
      visited := p.visited ++ [x]
      acted := p.acted }
  if fgSub then watchdogAction debug x { p with acted := p.acted ++ [x] } else .keep p

/-- `watchdogServiceUpdate`. -/
def watchdogServiceUpdate (fuel : Nat) (debug : Bool) (valid : Node → Bool) (cts : Int)
    (s : WatchdogInfo) : Option Pass :=
  match walk (serviceUpdate debug valid cts) rootNode fuel s.root (s.root.next rootNode)
    ⟨s, [], []⟩ with
  | none => none
  | some (root, p, _) => some { p with info := p.info.withRoot root }

/-- `processWDUpdate`. -/
def processWDUpdate (fuel : Nat) (debug : Bool) (valid : Node → Bool) (cts : Int)
    (s : WatchdogInfo) : Option Pass :=
  if s.requestRebootTs ≠ 0 then some ⟨s, [], []⟩
  else if pfDefWatchdogPeriod ≤ cts - s.lts then
    match watchdogServiceUpdate fuel debug valid cts s with
    | none => none
    | some p => some { p with info := { p.info with lts := cts } }
  else some ⟨s, [], []⟩

/-! ## Runs -/

/-- The thread, and the clock when it was read last. -/
structure Daemon where
  info : WatchdogInfo
  now : Int

inductive Label
  | event (e : WDEvent) (now : Int)
  | update (valid : Node → Bool) (cts : Int) (visited acted : List Node)

/-- The timeout of an event leaves room for the one that is added to it. -/
def WDEvent.Bounded : WDEvent → Prop
  | .register _ _ _ _ timeout => timeout.toNat < 2 ^ 31 - 1
  | .subRegister _ _ _ timeout => timeout.toNat < 2 ^ 31 - 1
  | _ => True

/-- One event, or one call of `processWDUpdate`, as long as the process runs.
`fuel` bounds the rounds of each loop. -/
inductive Step (debug : Bool) : Daemon → Label → Daemon → Prop
  | event {d : Daemon} {fuel : Nat} {m : Meets} {e : WDEvent} {info : WatchdogInfo}
      (running : d.info.exited = false) (clock : d.now ≤ m.now) (bounded : e.Bounded)
      (outcome : e.handle fuel m d.info = some info) :
      Step debug d (.event e m.now) ⟨info, m.now⟩
  | update {d : Daemon} {fuel : Nat} {valid : Node → Bool} {cts : Int} {p : Pass}
      (running : d.info.exited = false) (clock : d.now ≤ cts)
      (outcome : processWDUpdate fuel debug valid cts d.info = some p) :
      Step debug d (.update valid cts p.visited p.acted) ⟨p.info, cts⟩

/-- `watchdogInit` at second `now`. -/
def init (root : Links Node) (services : Node → ListService) (now : Int) : Daemon where
  info :=
    { root := root.initListHead rootNode
      services
      live := ∅
      lts := now
      requestRebootTs := 0
      exited := false
      fault := false }
  now := now

end Watchdog

import Mathlib.Data.Finset.Basic
import PiFrame.TimerWheel

/-!
# The timer library

`PFU_timerAdd`, `PFU_timerDelete` and `PFU_timerSetMsec`, and what the timer
thread does with a timer that it has taken off the wheel: test `fgRemove`, call
the callback, and re-arm the timer or give it up in `reuse_timer`.

A call of `PFU_timerAdd` owns its new timer until it has added it, so the call
in flight is kept with the timer.  `fault` is raised when the key list leads to
a timer that has been freed.
-/

namespace Timer

def timerTickMsec : Nat := 50

/-- The value that `calculateExpireTime` adds, its argument being `uint32_t`. -/
def expireTicks (msec : Int) : Nat :=
  let ticks := (msec % 2 ^ 32).toNat / timerTickMsec
  if ticks = 0 then 1 else ticks

def calculateExpireTime (jiffies : Nat) (msec : Int) : Nat :=
  (jiffies + expireTicks msec) % 2 ^ 64

/-- `struct TimerList` without its list nodes and `expires`. -/
structure TimerList where
  key : Nat
  fgRemove : Bool
  msec : Int
  param : Option Nat
  fgFree : Bool
  deriving DecidableEq, Repr

/-- A call of `PFU_timerAdd` before and after its first locked section. -/
inductive AddCall
  | allocated
  | registered
  deriving DecidableEq, Repr

/-- What the timer thread does with the timer it has taken off the wheel. -/
inductive Phase
  | testing
  | running
  | removing
  | rearming
  | freeing
  | done
  deriving DecidableEq, Repr

structure Timers where
  wheel : Wheel
  timer : TimerPtr → TimerList
  live : Finset TimerPtr
  timerListsRoot : List TimerPtr
  timerListKey : Nat
  adding : TimerPtr → Option AddCall
  phase : Phase
  fault : Bool

/-- Before the first tick. -/
def timerInit : Timers where
  wheel := initTimervecs
  timer := fun _ => ⟨0, false, 0, none, false⟩
  live := ∅
  timerListsRoot := []
  timerListKey := 0x05092014
  adding := fun _ => none
  phase := .done
  fault := false

/-- What can be seen of a step. -/
inductive ApiEvent
  | run
  /-- A step on the wheel. -/
  | wheel (e : Event)
  /-- The callback begins while tick `j` is processed. -/
  | started (timer : TimerPtr) (j : Nat)
  /-- The callback has returned `ETFUNC_RV_REPEAT`. -/
  | rearmed (timer : TimerPtr) (msec : Int)
  /-- The timer is given up; its parameter is freed. -/
  | finished (timer : TimerPtr) (param : Option Nat)
  | deleted (key : Nat) (timer : Option TimerPtr)
  deriving DecidableEq, Repr

namespace Timers

/-- `getTimerKey`: the next key, on `uint32_t` and never 0. -/
def getTimerKey (s : Timers) : Nat × Timers :=
  let next := (s.timerListKey + 1) % 2 ^ 32
  (s.timerListKey, { s with timerListKey := if next = 0 then 1 else next })

/-- An access to the list nodes of some timers. -/
def touch (s : Timers) (l : List TimerPtr) : Timers :=
  { s with fault := s.fault || l.any (· ∉ s.live) }

/-- `timerGetTimerList`. -/
def timerGetTimerList (s : Timers) (key : Nat) : Option TimerPtr :=
  s.timerListsRoot.find? fun t => (s.timer t).key = key

/-- The timers that `timerGetTimerList` looks at. -/
def visited (s : Timers) (key : Nat) : List TimerPtr :=
  s.timerListsRoot.takeWhile (fun t => (s.timer t).key ≠ key) ++ (s.timerGetTimerList key).toList

/-- `allocTimerItem`; `INIT_LIST_HEAD` on a node that is still in the key list
would cut the list. -/
def allocTimerItem (s : Timers) (t : TimerPtr) (msec : Int) (param : Option Nat) (free : Bool) :
    Timers :=
  { s with
    wheel := { s.wheel with
      expires := Function.update s.wheel.expires t (calculateExpireTime s.wheel.jiffies msec)
      pending := Function.update s.wheel.pending t false }
    timer := Function.update s.timer t ⟨0, false, msec, param, free⟩
    live := insert t s.live
    adding := Function.update s.adding t (some .allocated)
    fault := s.fault || decide (t ∈ s.timerListsRoot) }

/-- The first locked section of `PFU_timerAdd`. -/
def register (s : Timers) (t : TimerPtr) : Timers :=
  let (key, s) := s.getTimerKey
  let s := s.touch s.timerListsRoot.head?.toList
  { s with
    timer := Function.update s.timer t { s.timer t with key }
    timerListsRoot := t :: s.timerListsRoot
    adding := Function.update s.adding t (some .registered) }

/-- The neighbours of a timer in the key list. -/
def neighbours (s : Timers) (t : TimerPtr) : List TimerPtr :=
  ((s.timerListsRoot.takeWhile (· ≠ t)).getLast?).toList ++
    ((s.timerListsRoot.dropWhile (· ≠ t)).drop 1).head?.toList

/-- `reuse_timer` with `ETFUNC_RV_REPEAT`, up to `add_timer`. -/
def rearm (s : Timers) (t : TimerPtr) : Timers :=
  { s with
    wheel := { s.wheel with
      expires := Function.update s.wheel.expires t
        (calculateExpireTime s.wheel.jiffies (s.timer t).msec) }
    phase := .rearming }

/-- The parameter that `reuse_timer` frees. -/
def freedParam (s : Timers) (t : TimerPtr) : Option Nat :=
  if (s.timer t).fgFree then (s.timer t).param else none

/-- The locked section of `reuse_timer` with another result. -/
def giveUp (s : Timers) (t : TimerPtr) : Timers :=
  if (s.timer t).fgRemove then
    { s with phase := .freeing }
  else
    { s.touch (s.neighbours t) with
      timerListsRoot := s.timerListsRoot.erase t
      phase := .freeing }

/-- `PFU_timerDelete` for a key other than 0. -/
def timerDelete (s : Timers) (key : Nat) : Timers :=
  let s := s.touch (s.visited key)
  match s.timerGetTimerList key with
  | some t => { s with timer := Function.update s.timer t { s.timer t with fgRemove := true } }
  | none => s

/-- `PFU_timerSetMsec` for a key other than 0. -/
def timerSetMsec (s : Timers) (key : Nat) (msec : Int) : Timers :=
  let s := s.touch (s.visited key)
  match s.timerGetTimerList key with
  | some t => { s with timer := Function.update s.timer t { s.timer t with msec } }
  | none => s

end Timers

/-! ## Steps -/

/-- The atomic steps.  Those of `PFU_timerAdd`, `PFU_timerDelete` and
`PFU_timerSetMsec` may be taken by any thread, and by a callback. -/
inductive Step : Timers → ApiEvent → Timers → Prop
  | thread {s : Timers} {e : Event} {w : Wheel} (step : ThreadStep s.wheel e w) :
      Step s (.wheel e) { s with wheel := w }
  /-- `calloc` hands out a free address. -/
  | alloc {s : Timers} {t : TimerPtr} {msec : Int} {param : Option Nat} {free : Bool}
      (fresh : t ∉ s.live) : Step s (.wheel .run) (s.allocTimerItem t msec param free)
  | register {s : Timers} {t : TimerPtr} (unlocked : s.wheel.pc.unlocked = true)
      (call : s.adding t = some .allocated) : Step s .run (s.register t)
  /-- `add_timer` at the end of `PFU_timerAdd`. -/
  | add {s : Timers} {t : TimerPtr} {e : Event} {w : Wheel}
      (call : s.adding t = some .registered) (step : AddStep s.wheel t e w) :
      Step s (.wheel e) { s with wheel := w, adding := Function.update s.adding t none }
  | dispatch {s : Timers} {t : TimerPtr} {rest : List TimerPtr} (at_pc : s.wheel.pc = .emptying)
      (first : s.wheel.slot 0 (s.wheel.tvecs 0).index = t :: rest) :
      Step s (.wheel (.dispatched t s.wheel.timerJiffies))
        { s with wheel := s.wheel.detach t, phase := .testing }
  /-- `fgRemove` is not set, and the callback is called. -/
  | start {s : Timers} {t : TimerPtr} (at_pc : s.wheel.pc = .calling t)
      (at_phase : s.phase = .testing) (flag : (s.timer t).fgRemove = false) :
      Step s (.started t s.wheel.timerJiffies) { s with phase := .running }
  | skip {s : Timers} {t : TimerPtr} (at_pc : s.wheel.pc = .calling t)
      (at_phase : s.phase = .testing) (flag : (s.timer t).fgRemove = true) :
      Step s .run { s with phase := .removing }
  /-- The callback returns `ETFUNC_RV_REPEAT`. -/
  | rearm {s : Timers} {t : TimerPtr} (at_pc : s.wheel.pc = .calling t)
      (at_phase : s.phase = .running) : Step s (.rearmed t (s.timer t).msec) (s.rearm t)
  /-- The callback returns something else, or has not been called. -/
  | giveUp {s : Timers} {t : TimerPtr} (at_pc : s.wheel.pc = .calling t)
      (at_phase : s.phase = .running ∨ s.phase = .removing) :
      Step s (.finished t (s.freedParam t)) (s.giveUp t)
  /-- `add_timer` at the end of `reuse_timer`. -/
  | readd {s : Timers} {t : TimerPtr} {e : Event} {w : Wheel} (at_pc : s.wheel.pc = .calling t)
      (at_phase : s.phase = .rearming) (step : AddStep s.wheel t e w) :
      Step s (.wheel e) { s with wheel := w, phase := .done }
  | free {s : Timers} {t : TimerPtr} (at_pc : s.wheel.pc = .calling t)
      (at_phase : s.phase = .freeing) :
      Step s .run { s with live := s.live.erase t, phase := .done }
  | called {s : Timers} {t : TimerPtr} (at_pc : s.wheel.pc = .calling t)
      (at_phase : s.phase = .done) : Step s (.wheel .run) { s with wheel := s.wheel.goto .emptying }
  | delete {s : Timers} {key : Nat} (unlocked : s.wheel.pc.unlocked = true) (nonzero : key ≠ 0) :
      Step s (.deleted key (s.timerGetTimerList key)) (s.timerDelete key)
  | setMsec {s : Timers} {key : Nat} {msec : Int} (unlocked : s.wheel.pc.unlocked = true)
      (nonzero : key ≠ 0) : Step s .run (s.timerSetMsec key msec)

end Timer

import PiFrame.Transition
import PiFrame.TimingWheel

/-!
# The timer wheel

The wheel of the timer library: `tv1` with 256 slots of one tick, and `tv2` to
`tv5` with 64 slots each, reached as `tvecs[0]` to `tvecs[4]`.  A slot is the
list of its timers, a timer is its address.

The state holds the wheel together with the place of the timer thread in
`timer_process` and `run_timer_list`.  The thread gives the mutex up only while
a callback runs, so the steps of other threads and of callbacks are possible
there and outside of `run_timer_list`.  `jiffies` and `timer_jiffies` count the
ticks from the start; as `unsigned long` they are read modulo `2 ^ 64`.
-/

namespace Timer

/-! ## Sizes and counters -/

def tvnBits : Nat := 6
def tvrBits : Nat := 8
def tvnMask : Nat := 2 ^ tvnBits - 1
def tvrSize : Nat := 2 ^ tvrBits
def tvrMask : Nat := tvrSize - 1

/-- `a - b` on `unsigned long`. -/
def ulongSub (a b : Nat) : Nat :=
  (a + (2 ^ 64 - b % 2 ^ 64)) % 2 ^ 64

abbrev TimerPtr := Nat

/-- `struct timer_vec` and `struct timer_vec_root`. -/
structure TimerVec where
  index : Nat
  vec : Nat → List TimerPtr

/-- Where the timer thread stands.  It is `idle` between two ticks, has
counted `jiffies` up in `ticked`, is at the test of the outer loop in `looping`
and at the label `repeat` in `emptying`.  While it is `calling` a timer the
mutex is free.  `draining` is the loop over the queued timers. -/
inductive Pc
  | idle
  | ticked
  | looping
  | emptying
  | calling (timer : TimerPtr)
  | draining (rest : List TimerPtr)
  deriving DecidableEq, Repr

/-- The thread does not hold the mutex. -/
def Pc.unlocked : Pc → Bool
  | .idle => true
  | .ticked => true
  | .calling _ => true
  | _ => false

/-- `running` is the list that `run_timer_list_running` points to, and
`pending` is `timer->list.next != NULL`. -/
structure Wheel where
  tvecs : Nat → TimerVec
  expires : TimerPtr → Nat
  pending : TimerPtr → Bool
  running : Option (List TimerPtr)
  timerJiffies : Nat
  jiffies : Nat
  pc : Pc

/-- `init_timervecs`, and the initial values of the counters. -/
def initTimervecs : Wheel where
  tvecs := fun _ => ⟨0, fun _ => []⟩
  expires := fun _ => 0
  pending := fun _ => false
  running := none
  timerJiffies := 0
  jiffies := 0
  pc := .idle

namespace Wheel

/-- The list of slot `i` of `tvecs[n]`. -/
def slot (w : Wheel) (n i : Nat) : List TimerPtr :=
  (w.tvecs n).vec i

def setSlot (w : Wheel) (n i : Nat) (l : List TimerPtr) : Wheel :=
  let tv : TimerVec := { w.tvecs n with vec := Function.update (w.tvecs n).vec i l }
  { w with tvecs := Function.update w.tvecs n tv }

def setIndex (w : Wheel) (n index : Nat) : Wheel :=
  let tv : TimerVec := { w.tvecs n with index }
  { w with tvecs := Function.update w.tvecs n tv }

/-- `list_del` of a timer in slot `i` of `tvecs[n]`. -/
def listDel (w : Wheel) (n i : Nat) (timer : TimerPtr) : Wheel :=
  w.setSlot n i ((w.slot n i).erase timer)

/-- The slot that `internal_add_timer` chooses; none where it files nothing. -/
def vecOf (w : Wheel) (expires : Nat) : Option (Nat × Nat) :=
  let idx := ulongSub expires w.timerJiffies
  if idx < tvrSize then
    some (0, expires &&& tvrMask)
  else if idx < 1 <<< (tvrBits + tvnBits) then
    some (1, (expires >>> tvrBits) &&& tvnMask)
  else if idx < 1 <<< (tvrBits + 2 * tvnBits) then
    some (2, (expires >>> (tvrBits + tvnBits)) &&& tvnMask)
  else if idx < 1 <<< (tvrBits + 3 * tvnBits) then
    some (3, (expires >>> (tvrBits + 2 * tvnBits)) &&& tvnMask)
  else if 2 ^ 63 ≤ idx then
    -- a timer that goes off in the past
    some (0, (w.tvecs 0).index)
  else if idx ≤ 0xffffffff then
    some (4, (expires >>> (tvrBits + 3 * tvnBits)) &&& tvnMask)
  else
    none

/-- `internal_add_timer`. -/
def internalAddTimer (w : Wheel) (timer : TimerPtr) : Wheel :=
  let w := { w with pending := Function.update w.pending timer true }
  match w.running with
  | some queued => { w with running := some (queued ++ [timer]) }
  | none =>
      match w.vecOf (w.expires timer) with
      | some (n, i) => w.setSlot n i (w.slot n i ++ [timer])
      | none => w

/-- The body of the loop of `cascade_timers`. -/
def cascadeTimer (n i : Nat) (w : Wheel) (curr : TimerPtr) : Wheel :=
  (w.listDel n i curr).internalAddTimer curr

/-- `cascade_timers(tvecs[n])`.  No timer comes back to the list that is
walked, so this is the list as it is at the start. -/
def cascadeTimers (w : Wheel) (n : Nat) : Wheel :=
  let index := (w.tvecs n).index
  let w := (w.slot n index).foldl (cascadeTimer n index) w
  (w.setSlot n index []).setIndex n ((index + 1) &&& tvnMask)

/-- The `do` loop of `run_timer_list` over the levels. -/
def cascadeLevels (w : Wheel) : List Nat → Wheel
  | [] => w
  | n :: levels =>
      let w := w.cascadeTimers n
      if (w.tvecs n).index = 1 then w.cascadeLevels levels else w

/-- One tick of `run_timer_list` up to the label `repeat`. -/
def beginTick (w : Wheel) : Wheel :=
  let w := if (w.tvecs 0).index = 0 then w.cascadeLevels [1, 2, 3, 4] else w
  { w with running := some [], pc := .emptying }

/-- `detach_timer` of the first timer of the slot under `tv1.index`. -/
def detach (w : Wheel) (timer : TimerPtr) : Wheel :=
  { w.listDel 0 (w.tvecs 0).index timer with
    pending := Function.update w.pending timer false, pc := .calling timer }

/-- The end of a tick, up to the loop over the queued timers. -/
def endTick (w : Wheel) (queued : List TimerPtr) : Wheel :=
  { w.setIndex 0 (((w.tvecs 0).index + 1) &&& tvrMask) with
    running := none
    timerJiffies := w.timerJiffies + 1
    pc := .draining queued }

def goto (w : Wheel) (pc : Pc) : Wheel :=
  { w with pc }

end Wheel

/-! ## Steps -/

/-- What can be seen of a step. -/
inductive Event
  | run
  /-- The timer is filed into the wheel when `timer_jiffies` is `j`. -/
  | filed (timer : TimerPtr) (j expires : Nat)
  | queued (timer : TimerPtr)
  /-- The timer is out of range, and on no list. -/
  | unfiled (timer : TimerPtr) (j expires : Nat)
  /-- The timer is taken off the wheel while tick `j` is processed. -/
  | dispatched (timer : TimerPtr) (j : Nat)
  deriving DecidableEq, Repr

/-- `add_timer` of a timer that is on no list.  The locked section needs a
moment at which the timer thread does not hold the mutex. -/
inductive AddStep (w : Wheel) (timer : TimerPtr) : Event → Wheel → Prop
  /-- Outside of `run_timer_list`. -/
  | filed (unlocked : w.pc.unlocked = true) (detached : w.pending timer = false)
      (stopped : w.running = none) (inRange : w.vecOf (w.expires timer) ≠ none) :
      AddStep w timer (.filed timer w.timerJiffies (w.expires timer)) (w.internalAddTimer timer)
  | unfiled (unlocked : w.pc.unlocked = true) (detached : w.pending timer = false)
      (stopped : w.running = none) (outOfRange : w.vecOf (w.expires timer) = none) :
      AddStep w timer (.unfiled timer w.timerJiffies (w.expires timer)) (w.internalAddTimer timer)
  /-- While a callback runs. -/
  | queued {queued : List TimerPtr} (unlocked : w.pc.unlocked = true)
      (detached : w.pending timer = false) (busy : w.running = some queued) :
      AddStep w timer (.queued timer) (w.internalAddTimer timer)

/-- The steps of the timer thread outside of the dispatch of a timer. -/
inductive ThreadStep : Wheel → Event → Wheel → Prop
  /-- `timer_process` counts the tick. -/
  | process {w : Wheel} (at_pc : w.pc = .idle) :
      ThreadStep w .run { w with jiffies := w.jiffies + 1, pc := .ticked }
  | lock {w : Wheel} (at_pc : w.pc = .ticked) : ThreadStep w .run (w.goto .looping)
  | beginTick {w : Wheel} (at_pc : w.pc = .looping)
      (test : ulongSub w.jiffies w.timerJiffies < 2 ^ 63) : ThreadStep w .run w.beginTick
  | leave {w : Wheel} (at_pc : w.pc = .looping)
      (test : ¬ ulongSub w.jiffies w.timerJiffies < 2 ^ 63) : ThreadStep w .run (w.goto .idle)
  | endTick {w : Wheel} {queued : List TimerPtr} (at_pc : w.pc = .emptying)
      (empty : w.slot 0 (w.tvecs 0).index = []) (busy : w.running = some queued) :
      ThreadStep w .run (w.endTick queued)
  | drainFiled {w : Wheel} {timer : TimerPtr} {rest : List TimerPtr}
      (at_pc : w.pc = .draining (timer :: rest)) (inRange : w.vecOf (w.expires timer) ≠ none) :
      ThreadStep w (.filed timer w.timerJiffies (w.expires timer))
        ((w.internalAddTimer timer).goto (.draining rest))
  | drainUnfiled {w : Wheel} {timer : TimerPtr} {rest : List TimerPtr}
      (at_pc : w.pc = .draining (timer :: rest)) (outOfRange : w.vecOf (w.expires timer) = none) :
      ThreadStep w (.unfiled timer w.timerJiffies (w.expires timer))
        ((w.internalAddTimer timer).goto (.draining rest))
  | drained {w : Wheel} (at_pc : w.pc = .draining []) : ThreadStep w .run (w.goto .looping)

/-- The atomic steps on the wheel, by any thread and with any expiry. -/
inductive WheelStep : Wheel → Event → Wheel → Prop
  /-- Somebody sets the expiry of a timer that is on no list. -/
  | setExpires {w : Wheel} {timer : TimerPtr} {e : Nat} (detached : w.pending timer = false)
      (unsigned : e < 2 ^ 64) :
      WheelStep w .run { w with expires := Function.update w.expires timer e }
  | add {w w' : Wheel} {timer : TimerPtr} {e : Event} (step : AddStep w timer e w') :
      WheelStep w e w'
  | thread {w w' : Wheel} {e : Event} (step : ThreadStep w e w') : WheelStep w e w'
  | dispatch {w : Wheel} {timer : TimerPtr} {rest : List TimerPtr} (at_pc : w.pc = .emptying)
      (first : w.slot 0 (w.tvecs 0).index = timer :: rest) :
      WheelStep w (.dispatched timer w.timerJiffies) (w.detach timer)
  /-- The callback is over and the mutex taken again. -/
  | called {w : Wheel} {timer : TimerPtr} (at_pc : w.pc = .calling timer) :
      WheelStep w .run (w.goto .emptying)

end Timer

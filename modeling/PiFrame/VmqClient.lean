import PiFrame.VmqGetbuf
import PiFrame.VmqNeighbours

/-!
# Threads that share a producer

`lib/vmq/vmq.c` gives every open queue a lock.  `VMQueueGetBuffer` takes it and
keeps it when it returns a buffer, and `VMQueuePutBuffer` releases it.  The
driver has no protection of its own against two calls on one file: `VMQ_GETBUF`
looks at `pro->buffer` long before it stores there, and `VMQ_PUTBUF` reads
through it.  `clash` marks a call that is made while another is in flight on
the file, and `oops` one that follows a null pointer.

The threads of a process do what they like between the calls, on this queue or
on others, so long as they put back the pointer they got.
-/

namespace Vmq

open BuddyAllocator Transition

/-- A thread of the process. -/
abbrev Thread := Nat

/-- Where a thread stands; it holds the lock from `getbuf` on. -/
inductive Place
  | outside
  | locking (size : Int)
  | getbuf (size : Int)
  | inGetbuf
  | writing (ptr : Nat)
  | inPutbuf
  deriving DecidableEq, Repr

/-- The driver and an open `struct VMQueue`. -/
structure Client where
  driver : Driver
  lock : Option Thread
  places : Thread → Place

/-- What can be seen of a step. -/
inductive ClientEvent
  | others (h : Filp) (ev : Event)
  | moves (t : Thread)
  | gotBuffer (t : Thread) (ptr : Nat)
  /-- `VMQ_GETBUF` has failed, and null is returned. -/
  | noBuffer (t : Thread) (err : Errno)
  | putBuffer (t : Thread) (err : Option Errno)
  | clash (t : Thread)
  | oops (t : Thread)
  deriving DecidableEq, Repr

namespace Client

def goto (x : Client) (t : Thread) (p : Place) : Client :=
  { x with places := Function.update x.places t p }

/-- `pthread_mutex_unlock` at the end of a call. -/
def leave (x : Client) (t : Thread) : Client :=
  { x.goto t .outside with lock := none }

def withDriver (x : Client) (d : Driver) : Client :=
  { x with driver := d }

end Client

/-- The call that a thread is about to make on the file. -/
def Place.call (base : Nat) : Place → Option Ioctl
  | .getbuf size => some (.getbuf (some size))
  | .writing ptr => some (.putbuf (some ((ptr : Int) - base)))
  | _ => none

/-- The thread is in the kernel. -/
def Place.inCall : Place → Bool
  | .inGetbuf => true
  | .inPutbuf => true
  | _ => false

/-- Where a thread is once its call has got past the checks. -/
def Place.entered : Place → Place
  | .getbuf _ => .inGetbuf
  | _ => .inPutbuf

/-- A call has failed. -/
def Place.failure (t : Thread) (err : Errno) : Place → ClientEvent
  | .getbuf _ => .noBuffer t err
  | .inGetbuf => .noBuffer t err
  | _ => .putBuffer t (some err)

/-- The steps of the threads that share file `h`, whose memory is mapped at
`base`, and of all other files. -/
inductive ClientStep (h : Filp) (base : Nat) : Client → ClientEvent → Client → Prop
  | others {x : Client} {k : Filp} {ev : Event} {d : Driver} (other : k ≠ h)
      (step : Step x.driver (k, ev) d) : ClientStep h base x (.others k ev) (x.withDriver d)
  /-- `VMQueueGetBuffer` and its assertion. -/
  | getBuffer {x : Client} {t : Thread} {size : Int} (at_place : x.places t = .outside)
      (positive : 0 < size) : ClientStep h base x (.moves t) (x.goto t (.locking size))
  | lock {x : Client} {t : Thread} {size : Int} (at_place : x.places t = .locking size)
      (unlocked : x.lock = none) :
      ClientStep h base x (.moves t) { x.goto t (.getbuf size) with lock := some t }
  /-- The calls up to their first access to shared state. -/
  | clash {x : Client} {t : Thread} {call : Ioctl} (at_place : (x.places t).call base = some call)
      (inside : (x.driver.files h).quiet = false) : ClientStep h base x (.clash t) x
  | oops {x : Client} {t : Thread} {call : Ioctl} {ctxt : Option VMQContext}
      (at_place : (x.places t).call base = some call) (at_file : x.driver.files h = .idle ctxt)
      (outcome : vmqIoctl x.driver ctxt call = none) : ClientStep h base x (.oops t) x
  | refused {x : Client} {t : Thread} {call : Ioctl} {ctxt : Option VMQContext} {err : Errno}
      (at_place : (x.places t).call base = some call) (at_file : x.driver.files h = .idle ctxt)
      (outcome : vmqIoctl x.driver ctxt call = some (.error err)) :
      ClientStep h base x ((x.places t).failure t err) (x.leave t)
  | entered {x : Client} {t : Thread} {call : Ioctl} {ctxt : Option VMQContext} {f : File}
      (at_place : (x.places t).call base = some call) (at_file : x.driver.files h = .idle ctxt)
      (outcome : vmqIoctl x.driver ctxt call = some (.ok f)) :
      ClientStep h base x (.moves t)
        ((x.withDriver (x.driver.put h f)).goto t (x.places t).entered)
  | within {x : Client} {t : Thread} {ev : Event} {d : Driver}
      (at_place : (x.places t).inCall = true) (inside : (x.driver.files h).quiet = false)
      (step : Step x.driver (h, ev) d) (pending : ev.returns = false) :
      ClientStep h base x (.moves t) (x.withDriver d)
  | failed {x : Client} {t : Thread} {err : Errno} {d : Driver}
      (at_place : (x.places t).inCall = true) (inside : (x.driver.files h).quiet = false)
      (step : Step x.driver (h, .ret (some err)) d) :
      ClientStep h base x ((x.places t).failure t err) ((x.withDriver d).leave t)
  /-- `&q->base[bi.offset]`. -/
  | gotBuffer {x : Client} {t : Thread} {b : Addr} {d : Driver} (at_place : x.places t = .inGetbuf)
      (at_file : x.driver.files h = .producing (.copyOut b))
      (step : Step x.driver (h, .ret none) d) :
      ClientStep h base x (.gotBuffer t (base + (x.driver.mem b).offset))
        ((x.withDriver d).goto t (.writing (base + (x.driver.mem b).offset)))
  | bufferPut {x : Client} {t : Thread} {d : Driver} (at_place : x.places t = .inPutbuf)
      (inside : (x.driver.files h).quiet = false) (step : Step x.driver (h, .ret none) d) :
      ClientStep h base x (.putBuffer t none) ((x.withDriver d).leave t)

/-- Nothing goes wrong in this step. -/
def ClientEvent.Sound : ClientEvent → Prop
  | .clash _ => False
  | .oops _ => False
  | .noBuffer _ err => err ≠ .ebusy
  | .putBuffer _ err => err = none
  | _ => True

/-! ## The file under the lock -/

/-- The file is inside `vmq_putbuf`, past its checks. -/
def File.inPutbuf : File → Bool
  | .producing (.publish _) => true
  | .producing (.fanOut _ _ _) => true
  | _ => false

variable {s t : Driver} {h k : Filp} {b : Addr} {ev : Event} {f g : File} {base : Nat}
  {x y : Client} {i j : Thread} {tr : List ClientEvent}

/-- What the place of the thread that holds the lock says about the file. -/
def Driver.Fits (s : Driver) (h : Filp) (base : Nat) : Place → Prop
  | .outside => False
  | .locking _ => False
  | .getbuf _ => s.files h = .idle (some (.producer none))
  | .inGetbuf => (s.files h).inGetbuf = true
  | .writing ptr => ∃ b, s.files h = .idle (some (.producer (some b))) ∧
      ptr = base + (s.mem b).offset
  | .inPutbuf => (s.files h).inPutbuf = true

/-- The lock is held by the one thread that is past it, and the file is where
that thread has brought it. -/
structure Client.Exclusive (h : Filp) (base : Nat) (x : Client) : Prop where
  free : x.lock = none → x.driver.files h = .idle (some (.producer none))
  fits : ∀ t, x.lock = some t → x.driver.Fits h base (x.places t)
  out : ∀ t, x.lock ≠ some t → x.places t = .outside ∨ ∃ size, x.places t = .locking size

/-- Other tasks do not take a file out of `vmq_putbuf`. -/
theorem inPutbuf_touch (htouch : f.Touch g) (hf : f.inPutbuf = true) : g.inPutbuf = true := by
  cases htouch with
  | same => exact hf
  | wokenProducer =>
      unfold File.wakeProducer
      split <;> exact hf
  | wokenConsumer =>
      unfold File.wakeConsumer
      split <;> exact hf
  | enqueued b =>
      unfold File.enqueue
      split <;> exact hf

/-- Other tasks do not take a file out of `vmq_getbuf`. -/
theorem inGetbuf_touch (htouch : f.Touch g) (hf : f.inGetbuf = true) : g.inGetbuf = true := by
  cases htouch with
  | same => exact hf
  | wokenProducer =>
      unfold File.wakeProducer
      split <;> exact hf
  | wokenConsumer =>
      unfold File.wakeConsumer
      split <;> exact hf
  | enqueued b =>
      unfold File.enqueue
      split <;> exact hf

/-- A call of `vmq_getbuf` goes on, returns with a buffer, or returns without one
for another reason than `pro->buffer`. -/
theorem Step.getbuf_own (hstep : Step s (h, ev) t) (hcall : (s.files h).inGetbuf = true) :
    (ev.returns = false ∧ (t.files h).inGetbuf = true) ∨
      (∃ b, ev = .ret none ∧ s.files h = .producing (.copyOut b) ∧ t.mem = s.mem ∧
        t.files h = .idle (some (.producer (some b)))) ∨
      ∃ err, ev = .ret (some err) ∧ err ≠ .ebusy ∧ t.files h = .idle (some (.producer none)) := by
  cases hstep with
  | roused =>
      left
      rw [files_put_self]
      exact ⟨rfl, inGetbuf_touch .wokenConsumer (inGetbuf_touch .wokenProducer hcall)⟩
  | countPassed at_file test => exact .inl ⟨rfl, congrArg _ files_put_self⟩
  | countReached at_file test => exact .inl ⟨rfl, congrArg _ files_put_self⟩
  | countFell at_file test => exact .inl ⟨rfl, congrArg _ files_put_self⟩
  | countHeld at_file test => exact .inl ⟨rfl, congrArg _ files_put_self⟩
  | countInterrupted at_file => exact .inr (.inr ⟨_, rfl, by decide, files_put_self⟩)
  | pageFound at_file alloc => exact .inl ⟨rfl, congrArg _ files_put_self⟩
  | pageMissing at_file alloc => exact .inl ⟨rfl, congrArg _ files_put_self⟩
  | countFull at_file unlocked => exact .inl ⟨rfl, congrArg _ files_put_self⟩
  | pageStillMissing at_file alloc => exact .inl ⟨rfl, congrArg _ files_put_self⟩
  | pageInterrupted at_file => exact .inr (.inr ⟨_, rfl, by decide, files_put_self⟩)
  | newItem at_file unlocked free => exact .inl ⟨rfl, congrArg _ files_put_self⟩
  | newItemFailed at_file unlocked => exact .inr (.inr ⟨_, rfl, by decide, files_put_self⟩)
  | bufferCopied at_file => exact .inr (.inl ⟨_, rfl, at_file, rfl, files_put_self⟩)
  | bufferCopyFailed at_file => exact .inl ⟨rfl, congrArg _ files_put_self⟩
  | undoBuffer at_file unlocked => exact .inr (.inr ⟨_, rfl, by decide, files_put_self⟩)
  | take at_file => rcases at_file with hfile | hfile <;> (rw [hfile] at hcall; cases hcall)
  | _ =>
      rw [‹s.files h = _›] at hcall
      cases hcall

/-- A call of `vmq_putbuf` goes on or returns 0. -/
theorem Step.putbuf_own (hstep : Step s (h, ev) t) (hcall : (s.files h).inPutbuf = true) :
    (ev.returns = false ∧ (t.files h).inPutbuf = true) ∨
      ev = .ret none ∧ t.files h = .idle (some (.producer none)) := by
  cases hstep with
  | roused =>
      left
      rw [files_put_self]
      exact ⟨rfl, inPutbuf_touch .wokenConsumer (inPutbuf_touch .wokenProducer hcall)⟩
  | publish at_file unlocked => exact .inl ⟨rfl, congrArg _ files_put_self⟩
  | deliver at_file => exact .inl ⟨rfl, congrArg _ files_put_self⟩
  | deliverFailed at_file => exact .inl ⟨rfl, congrArg _ files_put_self⟩
  | endFanOut at_file => exact .inr ⟨rfl, files_put_self⟩
  | take at_file => rcases at_file with hfile | hfile <;> (rw [hfile] at hcall; cases hcall)
  | pageFound at_file alloc =>
      rcases at_file with hfile | hfile <;> (rw [hfile] at hcall; cases hcall)
  | _ =>
      rw [‹s.files h = _›] at hcall
      cases hcall

/-! ## One thread at a time -/

/-- The steps of others leave the file where it is: they wake it at most, and no thread of this
client works on it without the lock. -/
theorem Driver.Fits.others {p : Place} (hfits : s.Fits h base p)
    (hinv : ∃ size pageSize lost, Inv size pageSize lost s.account)
    (hstep : Step s (k, ev) t) (hk : k ≠ h) : t.Fits h base p := by
  have htouch : (s.files h).Touch (t.files h) := hstep.touch hk.symm
  cases p with
  | outside => exact hfits
  | locking n => exact hfits
  | getbuf n =>
      rw [hfits] at htouch
      exact htouch.producer
  | inGetbuf => exact inGetbuf_touch htouch hfits
  | writing ptr =>
      obtain ⟨b, hfile, hptr⟩ := hfits
      obtain ⟨size, pageSize, lost, hinv⟩ := hinv
      -- the buffer is the producer's, hence live
      have howned : (s.account.shares h).owned = some b := by
        rw [shares_of_file hfile]
        rfl
      have hmsg := step_message hstep (hinv.live_of_owned howned)
      have hoffset : (t.mem b).offset = (s.mem b).offset := congrArg Message.offset hmsg
      rw [hfile] at htouch
      exact ⟨b, htouch.producer, by rw [hoffset, hptr]⟩
  | inPutbuf => exact inPutbuf_touch htouch hfits

/-- A thread that is about to call finds the file between calls. -/
theorem Driver.Fits.quiet_of_call {p : Place} {call : Ioctl} (hfits : s.Fits h base p)
    (hcall : p.call base = some call) : ∃ ctxt, s.files h = .idle (some ctxt) := by
  cases p with
  | getbuf size => exact ⟨_, hfits⟩
  | writing ptr =>
      obtain ⟨b, hfile, -⟩ := hfits
      exact ⟨_, hfile⟩
  | _ => cases hcall

namespace Client.Exclusive

/-- A thread at a call has the lock. -/
theorem holds (hx : x.Exclusive h base) (hout : x.places i ≠ .outside)
    (hlocking : ∀ size, x.places i ≠ .locking size) : x.lock = some i := by
  by_contra hne
  rcases hx.out i hne with heq | ⟨size, heq⟩
  · exact hout heq
  · exact hlocking size heq

/-- Only the thread with the lock is about to call. -/
theorem holds_of_call (hx : x.Exclusive h base) {call : Ioctl}
    (hcall : (x.places i).call base = some call) : x.lock = some i := by
  apply hx.holds
  · intro heq
    rw [heq] at hcall
    cases hcall
  · intro size heq
    rw [heq] at hcall
    cases hcall

/-- Only the thread with the lock is inside a call. -/
theorem holds_of_inCall (hx : x.Exclusive h base) (hcall : (x.places i).inCall = true) :
    x.lock = some i := by
  apply hx.holds
  · intro heq
    rw [heq] at hcall
    cases hcall
  · intro size heq
    rw [heq] at hcall
    cases hcall

/-- The thread with the lock moves on. -/
theorem move (hx : x.Exclusive h base) (hlock : x.lock = some i) {d : Driver} {p : Place}
    (hfits : d.Fits h base p) : ((x.withDriver d).goto i p).Exclusive h base := by
  refine ⟨fun hfree => ?_, fun j hj => ?_, fun j hj => ?_⟩
  · rw [show x.lock = none from hfree] at hlock
    cases hlock
  · cases hlock.symm.trans hj
    have hp : ((x.withDriver d).goto i p).places i = p := Function.update_self ..
    rw [hp]
    exact hfits
  · have hne : j ≠ i := by
      rintro rfl
      exact hj hlock
    have hp : ((x.withDriver d).goto i p).places j = x.places j := Function.update_of_ne hne ..
    rw [hp]
    exact hx.out j hj

/-- The thread with the lock is still where it was. -/
theorem advance (hx : x.Exclusive h base) (hlock : x.lock = some i) {d : Driver}
    (hfits : d.Fits h base (x.places i)) : (x.withDriver d).Exclusive h base := by
  refine ⟨fun hfree => ?_, fun j hj => ?_, hx.out⟩
  · rw [show x.lock = none from hfree] at hlock
    cases hlock
  · cases hlock.symm.trans hj
    exact hfits

/-- The thread with the lock releases it. -/
theorem leave (hx : x.Exclusive h base) (hlock : x.lock = some i) {d : Driver}
    (hfile : d.files h = .idle (some (.producer none))) :
    ((x.withDriver d).leave i).Exclusive h base := by
  refine ⟨fun _ => hfile, nofun, fun j _ => ?_⟩
  by_cases hji : j = i
  · subst hji
    exact .inl (Function.update_self ..)
  · have hp : ((x.withDriver d).leave i).places j = x.places j := Function.update_of_ne hji ..
    rw [hp]
    refine hx.out j fun hj => hji ?_
    exact Option.some.inj (hj.symm.trans hlock)

/-- What a call of the library meets at the file it has locked: `VMQ_GETBUF` a producer without
a buffer, and `VMQ_PUTBUF` one with the buffer that was written. -/
theorem answer (hx : x.Exclusive h base) {call : Ioctl} {ctxt : Option VMQContext}
    (hcall : (x.places i).call base = some call) (hfile : x.driver.files h = .idle ctxt) :
    (∃ size, x.places i = .getbuf size ∧ (vmqIoctl x.driver ctxt call = some (.error .efault) ∨
      ∃ n, vmqIoctl x.driver ctxt call = some (.ok (.producing (.testCount n))))) ∨
    ∃ ptr b, x.places i = .writing ptr ∧
      vmqIoctl x.driver ctxt call = some (.ok (.producing (.publish b))) := by
  have hfits := hx.fits i (hx.holds_of_call hcall)
  cases hplace : x.places i with
  | getbuf size =>
      rw [hplace] at hfits hcall
      cases hcall
      cases hfile.symm.trans hfits
      refine .inl ⟨size, rfl, ?_⟩
      unfold vmqIoctl Option.map vmqGetbuf
      grind
  | writing ptr =>
      rw [hplace] at hfits hcall
      cases hcall
      obtain ⟨b, hidle, hptr⟩ := hfits
      cases hfile.symm.trans hidle
      refine .inr ⟨ptr, b, rfl, ?_⟩
      simp [vmqIoctl, vmqPutbuf, hptr]
  | _ =>
      rw [hplace] at hcall
      cases hcall

/-- Another file's step leaves the lock and the places alone. -/
theorem others (hx : x.Exclusive h base) {d : Driver}
    (hinv : ∃ size pageSize lost, Inv size pageSize lost x.driver.account)
    (hstep : Step x.driver (k, ev) d) (hk : k ≠ h) : (x.withDriver d).Exclusive h base := by
  refine ⟨fun hfree => ?_, fun j hj => (hx.fits j hj).others hinv hstep hk, hx.out⟩
  have htouch := hstep.touch (k := h) hk.symm
  rw [hx.free hfree] at htouch
  exact htouch.producer

/-- A thread that is outside does not hold the lock, and still does not when it waits for it. -/
theorem getBuffer (hx : x.Exclusive h base) (hplace : x.places i = .outside) (size : Int) :
    (x.goto i (.locking size)).Exclusive h base := by
  have hlock : x.lock ≠ some i := fun hlock => by
    have hfits := hx.fits i hlock
    rw [hplace] at hfits
    exact hfits
  refine ⟨hx.free, fun j hj => ?_, fun j hj => ?_⟩
  · have hne : j ≠ i := by
      rintro rfl
      exact hlock hj
    have hp : (x.goto i (.locking size)).places j = x.places j := Function.update_of_ne hne ..
    rw [hp]
    exact hx.fits j hj
  · by_cases hji : j = i
    · subst hji
      exact .inr ⟨size, Function.update_self ..⟩
    · have hp : (x.goto i (.locking size)).places j = x.places j := Function.update_of_ne hji ..
      rw [hp]
      exact hx.out j hj

/-- The free lock is taken, by a thread that then finds the file without a buffer. -/
theorem takeLock (hx : x.Exclusive h base) (hfree : x.lock = none) (size : Int) :
    Client.Exclusive h base { x.goto i (.getbuf size) with lock := some i } := by
  refine ⟨nofun, fun j hj => ?_, fun j hj => ?_⟩
  · cases hj
    have hp : (x.goto i (.getbuf size)).places i = .getbuf size := Function.update_self ..
    show x.driver.Fits h base ((x.goto i (.getbuf size)).places i)
    rw [hp]
    exact hx.free hfree
  · have hne : j ≠ i := by
      rintro rfl
      exact hj rfl
    have hp : (x.goto i (.getbuf size)).places j = x.places j := Function.update_of_ne hne ..
    show (x.goto i (.getbuf size)).places j = .outside ∨
      ∃ size', (x.goto i (.getbuf size)).places j = .locking size'
    rw [hp]
    exact hx.out j (by rw [hfree]; nofun)

/-- Only `VMQ_GETBUF` is refused, and not because of a buffer. -/
theorem refused (hx : x.Exclusive h base) {call : Ioctl} {ctxt : Option VMQContext} {err : Errno}
    (hcall : (x.places i).call base = some call) (hfile : x.driver.files h = .idle ctxt)
    (houtcome : vmqIoctl x.driver ctxt call = some (.error err)) :
    (x.leave i).Exclusive h base ∧ ((x.places i).failure i err).Sound := by
  have hlock := hx.holds_of_call hcall
  obtain ⟨size, hplace, herr | ⟨n, hok⟩⟩ | ⟨ptr, b, -, hok⟩ := hx.answer hcall hfile
  · cases houtcome.symm.trans herr
    have hfits := hx.fits i hlock
    rw [hplace] at hfits
    refine ⟨hx.leave hlock hfits, ?_⟩
    rw [hplace]
    exact Errno.noConfusion
  · cases houtcome.symm.trans hok
  · cases houtcome.symm.trans hok

/-- A call that gets past its checks is one that fits the place of the thread. -/
theorem entered (hx : x.Exclusive h base) {call : Ioctl} {ctxt : Option VMQContext}
    (hcall : (x.places i).call base = some call) (hfile : x.driver.files h = .idle ctxt)
    (houtcome : vmqIoctl x.driver ctxt call = some (.ok f)) :
    ((x.withDriver (x.driver.put h f)).goto i (x.places i).entered).Exclusive h base := by
  refine hx.move (hx.holds_of_call hcall) ?_
  obtain ⟨size, hplace, herr | ⟨n, hok⟩⟩ | ⟨ptr, b, hplace, hok⟩ := hx.answer hcall hfile
  · cases houtcome.symm.trans herr
  · cases houtcome.symm.trans hok
    rw [hplace]
    exact congrArg File.inGetbuf files_put_self
  · cases houtcome.symm.trans hok
    rw [hplace]
    exact congrArg File.inPutbuf files_put_self

/-- A call that goes on stays the same call, and the lock stays with its thread. -/
theorem within (hx : x.Exclusive h base) {d : Driver} (hcall : (x.places i).inCall = true)
    (hstep : Step x.driver (h, ev) d) (hpending : ev.returns = false) :
    (x.withDriver d).Exclusive h base := by
  have hlock := hx.holds_of_inCall hcall
  have hfits := hx.fits i hlock
  refine hx.advance hlock ?_
  cases hplace : x.places i with
  | inGetbuf =>
      rw [hplace] at hfits
      obtain ⟨-, hstill⟩ | ⟨b, rfl, -⟩ | ⟨e, rfl, -⟩ := hstep.getbuf_own hfits
      · exact hstill
      · cases hpending
      · cases hpending
  | inPutbuf =>
      rw [hplace] at hfits
      obtain ⟨-, hstill⟩ | ⟨rfl, -⟩ := hstep.putbuf_own hfits
      · exact hstill
      · cases hpending
  | _ =>
      rw [hplace] at hcall
      cases hcall

/-- Only `VMQ_GETBUF` fails later on, and leaves no buffer, so the thread gives the lock back as
it got it. -/
theorem failed (hx : x.Exclusive h base) {d : Driver} {err : Errno}
    (hcall : (x.places i).inCall = true) (hstep : Step x.driver (h, .ret (some err)) d) :
    ((x.withDriver d).leave i).Exclusive h base ∧ ((x.places i).failure i err).Sound := by
  have hlock := hx.holds_of_inCall hcall
  have hfits := hx.fits i hlock
  cases hplace : x.places i with
  | inGetbuf =>
      rw [hplace] at hfits
      obtain ⟨hpending, -⟩ | ⟨b, hret, -⟩ | ⟨e, hret, hbusy, hfile⟩ := hstep.getbuf_own hfits
      · cases hpending
      · cases hret
      · cases hret
        exact ⟨hx.leave hlock hfile, hbusy⟩
  | inPutbuf =>
      rw [hplace] at hfits
      obtain ⟨hpending, -⟩ | ⟨hret, -⟩ := hstep.putbuf_own hfits
      · cases hpending
      · cases hret
  | _ =>
      rw [hplace] at hcall
      cases hcall

/-- The thread that gets a buffer gets the one that the file has now. -/
theorem gotBuffer (hx : x.Exclusive h base) {d : Driver} (hplace : x.places i = .inGetbuf)
    (hfile : x.driver.files h = .producing (.copyOut b)) (hstep : Step x.driver (h, .ret none) d) :
    ((x.withDriver d).goto i (.writing (base + (x.driver.mem b).offset))).Exclusive h base := by
  have hlock : x.lock = some i := hx.holds_of_inCall (by rw [hplace]; rfl)
  have hcall : (x.driver.files h).inGetbuf = true := by rw [hfile]; rfl
  refine hx.move hlock ?_
  obtain ⟨hpending, -⟩ | ⟨c, -, hcopied, hmem, hidle⟩ | ⟨e, hret, -⟩ := hstep.getbuf_own hcall
  · cases hpending
  · cases hfile.symm.trans hcopied
    exact ⟨b, hidle, by rw [hmem]⟩
  · cases hret

/-- The thread that has put its buffer back leaves the file without one. -/
theorem bufferPut (hx : x.Exclusive h base) {d : Driver} (hplace : x.places i = .inPutbuf)
    (hstep : Step x.driver (h, .ret none) d) : ((x.withDriver d).leave i).Exclusive h base := by
  have hlock : x.lock = some i := hx.holds_of_inCall (by rw [hplace]; rfl)
  have hfits := hx.fits i hlock
  rw [hplace] at hfits
  obtain ⟨hpending, -⟩ | ⟨-, hidle⟩ := hstep.putbuf_own hfits
  · cases hpending
  · exact hx.leave hlock hidle

/-- **One step** keeps the file to the thread with the lock, and nothing goes wrong in it. -/
theorem step (hx : x.Exclusive h base) {e : ClientEvent}
    (hinv : ∃ size pageSize lost, Inv size pageSize lost x.driver.account)
    (hstep : ClientStep h base x e y) : y.Exclusive h base ∧ e.Sound := by
  cases hstep with
  | others other step => exact ⟨hx.others hinv step other, trivial⟩
  | getBuffer at_place positive => exact ⟨hx.getBuffer at_place _, trivial⟩
  | lock at_place unlocked => exact ⟨hx.takeLock unlocked _, trivial⟩
  | clash at_place inside =>
      obtain ⟨ctxt, hfile⟩ := (hx.fits _ (hx.holds_of_call at_place)).quiet_of_call at_place
      rw [hfile] at inside
      cases inside
  | oops at_place at_file outcome =>
      obtain ⟨size, -, herr | ⟨n, hok⟩⟩ | ⟨ptr, b, -, hok⟩ := hx.answer at_place at_file
      · cases outcome.symm.trans herr
      · cases outcome.symm.trans hok
      · cases outcome.symm.trans hok
  | refused at_place at_file outcome => exact hx.refused at_place at_file outcome
  | entered at_place at_file outcome => exact ⟨hx.entered at_place at_file outcome, trivial⟩
  | within at_place inside step pending => exact ⟨hx.within at_place step pending, trivial⟩
  | failed at_place inside step => exact hx.failed at_place step
  | gotBuffer at_place at_file step => exact ⟨hx.gotBuffer at_place at_file step, trivial⟩
  | bufferPut at_place inside step => exact ⟨hx.bufferPut at_place step, rfl⟩

end Client.Exclusive

/-! ## Runs -/

/-- Whatever the threads do is a run of the driver with one call at a time on
every file. -/
theorem ClientStep.driver {e : ClientEvent} (hstep : ClientStep h base x e y) {s₀ : Driver}
    (hrun : ∃ calls, Run Step s₀ calls x.driver) : ∃ calls, Run Step s₀ calls y.driver := by
  obtain ⟨calls, hrun⟩ := hrun
  cases hstep with
  | others other step => exact ⟨_, hrun.snoc step⟩
  | entered at_place at_file outcome => exact ⟨_, hrun.snoc (.ioctlEntered at_file outcome)⟩
  | within at_place inside step pending => exact ⟨_, hrun.snoc step⟩
  | failed at_place inside step => exact ⟨_, hrun.snoc step⟩
  | gotBuffer at_place at_file step => exact ⟨_, hrun.snoc step⟩
  | bufferPut at_place inside step => exact ⟨_, hrun.snoc step⟩
  | _ => exact ⟨calls, hrun⟩

/-- **A shared producer.**  Let any number of threads get and put buffers through
one `struct VMQueue`, in any interleaving and beside any use of the other files.

* No call is made on the file while another is in flight, no null pointer is
  followed, `VMQ_GETBUF` never finds a buffer left over, and `VMQ_PUTBUF` never fails.
* At most one thread has a buffer, and its pointer is the block that the driver
  has reserved for the file.
* When the lock is free, the file holds no buffer. -/
theorem shared_producer {m : Memory} {size pageSize : Nat} {maxItemCount : Int}
    {mem : Addr → VMQBuffer} {s₀ u : Driver} {before : List (Filp × Event)}
    (hsize : size < 2 ^ 31) (hpage : 0 < pageSize) (hpage' : pageSize < 2 ^ 31)
    (hdvd : 128 ∣ pageSize) (hpast : (m (size / pageSize)).allocated = true)
    (hcreate : createBufferManager m size pageSize maxItemCount mem = some s₀)
    (hbefore : Run Step s₀ before u) (hopen : u.files h = .idle (some (.producer none)))
    (hrun : Run (ClientStep h base) ⟨u, none, fun _ => .outside⟩ tr x) :
    (∀ e ∈ tr, e.Sound) ∧
    (∀ i j ptr ptr', x.places i = .writing ptr → x.places j = .writing ptr' → i = j) ∧
    (∀ i ptr, x.places i = .writing ptr → ∃ b, x.driver.files h = .idle (some (.producer (some b))) ∧
      ptr = base + (x.driver.mem b).offset) ∧
    (x.lock = none → x.driver.files h = .idle (some (.producer none))) ∧
    ∃ calls, Run Step s₀ calls x.driver := by
  have hall : (∀ e ∈ tr, e.Sound) ∧ x.Exclusive h base ∧ ∃ calls, Run Step s₀ calls x.driver := by
    refine hrun.history (fun tr x => (∀ e ∈ tr, e.Sound) ∧ x.Exclusive h base ∧
      ∃ calls, Run Step s₀ calls x.driver) ?_ ?_
    · exact ⟨nofun, ⟨fun _ => hopen, nofun, fun _ _ => .inl rfl⟩, before, hbefore⟩
    · rintro tr x e y - ⟨hsound, hx, calls, hcalls⟩ hstep
      have hinv : ∃ size pageSize lost, Inv size pageSize lost x.driver.account :=
        ⟨size, pageSize, Inv.run_lost hsize hpage hpage' hdvd hpast hcreate hcalls⟩
      obtain ⟨hy, he⟩ := hx.step hinv hstep
      refine ⟨fun e' he' => ?_, hy, hstep.driver ⟨calls, hcalls⟩⟩
      rcases List.mem_append.mp he' with hold | hnew
      · exact hsound e' hold
      · exact List.mem_singleton.mp hnew ▸ he
  obtain ⟨hsound, hx, hcalls⟩ := hall
  have hholds : ∀ i ptr, x.places i = .writing ptr → x.lock = some i := fun i ptr hi =>
    hx.holds (by rw [hi]; nofun) (by rw [hi]; nofun)
  refine ⟨hsound, fun i j ptr ptr' hi hj => ?_, fun i ptr hi => ?_, hx.free, hcalls⟩
  · exact Option.some.inj ((hholds i ptr hi).symm.trans (hholds j ptr' hj))
  · have hfits := hx.fits i (hholds i ptr hi)
    rwa [hi] at hfits

/-- Two threads; one has a buffer, and the other waits for the lock. -/
theorem shared_producer_two_threads : ∃ s₀ u before tr x,
    createBufferManager (fun _ => ⟨true, 0⟩) 1000 128 4 (fun _ => ⟨0, 0, 0⟩) = some s₀ ∧
    Run Step s₀ before u ∧ u.files 0 = .idle (some (.producer none)) ∧
    Run (ClientStep 0 4096) ⟨u, none, fun _ => .outside⟩ tr x ∧
    x.places 1 = .writing (4096 + 768) ∧ x.places 2 = .locking 60 ∧ ∀ e ∈ tr, e.Sound := by
  have hopen := @setUp_run (sevenPages 4) 0 (.setup (.ok 0)) .producer rfl rfl rfl
  have hrun : Run (ClientStep 0 4096) ⟨_, none, fun _ => .outside⟩ _ _ :=
    Run.nil.snoc (@ClientStep.getBuffer 0 4096 ⟨(sevenPages 4).setUp 0 .producer, none, fun _ => .outside⟩
      1 100 rfl (by decide))
  have hrun := hrun.snoc (@ClientStep.lock _ _ _ 1 100 rfl rfl)
  have hrun := hrun.snoc (@ClientStep.getBuffer _ _ _ 2 60 rfl (by decide))
  have hrun := hrun.snoc (@ClientStep.entered _ _ _ 1 _ _ _ rfl rfl rfl)
  have hrun := hrun.snoc
    (@ClientStep.within _ _ _ 1 _ _ rfl rfl (@Step.countPassed _ 0 100 rfl rfl) rfl)
  have hrun := hrun.snoc (@ClientStep.within _ _ _ 1 _ _ rfl rfl
    (@Step.pageFound _ 0 100 6 _ (.inl rfl) (alloc_sevenPages 4)) rfl)
  have hrun := hrun.snoc (@ClientStep.within _ _ _ 1 _ _ rfl rfl
    (@Step.newItem _ 0 100 6 5 rfl rfl (Finset.notMem_empty 5)) rfl)
  have hrun := hrun.snoc
    (@ClientStep.gotBuffer _ _ _ 1 5 _ rfl rfl (@Step.bufferCopied _ 0 5 rfl))
  obtain ⟨hsound, -⟩ := shared_producer (by decide) (by decide) (by decide) (by decide) rfl
    (create_sevenPages 4) hopen rfl hrun
  exact ⟨_, _, _, _, _, create_sevenPages 4, hopen, rfl, hrun, rfl, rfl, hsound⟩

end Vmq

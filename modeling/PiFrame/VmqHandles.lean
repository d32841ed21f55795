import PiFrame.VmqGetitem

/-!
# The order of calls on a handle

Which calls are safe on an open file depends on what was called on it before.
`vmq_getbuf`, `vmq_putbuf`, `vmq_getitem`, `vmq_putitem` and `vmq_poll` read
`filp->private_data->type` without a test for a null pointer, and `vmq_putbuf`
reads `pro->buffer->offset`.  `vmq_setup`, `vmq_mmap` and `vmq_release` test
`private_data`, and `vmq_putitem` tests `con->item`.

`Watch` is what the user of a handle knows from its calls and their returns.
It knows enough: a call follows a null pointer exactly if its `Phase` does not
permit it.
-/

namespace Vmq

open Transition

/-- A call on a handle.  The argument of `mmap` is the answer of
`vmshm_remap`. -/
inductive Request
  | ioctl (call : Ioctl)
  | poll
  | mmap (remap : Int)
  | release

/-- `POLLIN` and `POLLOUT`. -/
structure PollMask where
  pollin : Bool
  pollout : Bool
  deriving DecidableEq, Repr

/-- What becomes of a call up to its first access to shared state. -/
inductive Reply
  | goesOn (f : File)
  | failed (err : Errno)
  | polled (mask : PollMask)
  | mapped (ret : Int)

/-- `vmq_poll`, once the context is known. -/
def vmqPoll : VMQContext → PollMask
  | .consumer items _ => ⟨!items.isEmpty, true⟩
  | .producer _ => ⟨true, true⟩

/-- `vmq_mmap`; the memory of a manager is never null. -/
def vmqMmap (remap : Int) : Option VMQContext → Reply
  | none => .failed .einval
  | some _ => .mapped remap

/-- `vmq_release`. -/
def vmqRelease : Option VMQContext → File
  | none => .closed
  | some ctxt => .releasing ctxt

/-- The calls of a handle; `none` is an access through a null pointer. -/
def Driver.answer (s : Driver) (privateData : Option VMQContext) : Request → Option Reply
  | .ioctl call =>
      (vmqIoctl s privateData call).map fun
        | .error e => .failed e
        | .ok f => .goesOn f
  | .poll => privateData.map fun ctxt => .polled (vmqPoll ctxt)
  | .mmap remap => some (vmqMmap remap privateData)
  | .release => some (.goesOn (vmqRelease privateData))

/-- A call that gets past its checks is in flight. -/
def Driver.afterReply (s : Driver) (h : Filp) : Option Reply → Driver
  | some (.goesOn f) => s.put h f
  | _ => s

/-- A call is made, with the answer to it, or one in flight goes on. -/
inductive Label
  | call (request : Request) (reply : Option Reply)
  | go (event : Event)

/-- The step follows a null pointer. -/
def Label.nullDeref : Label → Bool
  | .call _ none => true
  | _ => false

/-- The steps of all handles. -/
inductive HandleStep : Driver → Filp × Label → Driver → Prop
  | call {s : Driver} {h : Filp} {ctxt : Option VMQContext} (request : Request)
      (at_file : s.files h = .idle ctxt) :
      HandleStep s (h, .call request (s.answer ctxt request))
        (s.afterReply h (s.answer ctxt request))
  | go {s t : Driver} {h : Filp} {event : Event} (inside : ∀ ctxt, s.files h ≠ .idle ctxt)
      (step : Step s (h, event) t) : HandleStep s (h, .go event) t

/-! ## What the user of a handle knows -/

/-- The state of the protocol between two calls. -/
inductive Phase
  | unset
  | producer (holding : Bool)
  | consumer (holding : Bool)
  deriving DecidableEq, Repr

/-- The calls that are in order. -/
def Phase.permits : Phase → Request → Bool
  | _, .ioctl (.setup _) => true
  | _, .mmap _ => true
  | _, .release => true
  | .unset, _ => false
  | .producer false, .ioctl (.putbuf (some _)) => false
  | _, _ => true

/-- The phase after a call has returned 0. -/
def Phase.after (p : Phase) : Option Request → Phase
  | some (.ioctl (.getbuf _)) => .producer true
  | some (.ioctl (.putbuf _)) => .producer false
  | some (.ioctl .getitem) => .consumer true
  | some (.ioctl .putitem) => .consumer false
  | _ => p

/-- The phase, and the call that has not returned yet. -/
structure Watch where
  phase : Phase
  pending : Option Request

def Watch.see (w : Watch) : Label → Watch
  | .call request (some (.goesOn _)) => { w with pending := some request }
  | .call _ _ => w
  | .go (.joined .producer) => ⟨.producer false, none⟩
  | .go (.joined .consumer) => ⟨.consumer false, none⟩
  | .go (.ret none) => ⟨w.phase.after w.pending, none⟩
  | .go (.ret (some _)) => { w with pending := none }
  | .go _ => w

/-- What is known of handle `h` after the steps `tr`. -/
def watch (h : Filp) (tr : List (Filp × Label)) : Watch :=
  tr.foldl (fun w e => if e.1 = h then w.see e.2 else w) ⟨.unset, none⟩

/-- A watch over one more label sees it if it is about its file. -/
theorem watch_append (h : Filp) (tr : List (Filp × Label)) (e : Filp × Label) :
    watch h (tr ++ [e]) = if e.1 = h then (watch h tr).see e.2 else watch h tr := by
  simp only [watch, List.foldl_append, List.foldl_cons, List.foldl_nil]

/-- What is known of a file agrees with its state. -/
def File.Watched : File → Watch → Prop
  | .idle none, w => w.phase = .unset
  | .idle (some (.producer buffer)), w => w.phase = .producer buffer.isSome
  | .idle (some (.consumer _ item)), w => w.phase = .consumer item.isSome
  | .producing (.publish _), w => ∃ offset, w.pending = some (.ioctl (.putbuf offset))
  | .producing (.fanOut _ _ _), w => ∃ offset, w.pending = some (.ioctl (.putbuf offset))
  | .producing _, w =>
      w.phase = .producer false ∧ ∃ size, w.pending = some (.ioctl (.getbuf size))
  | .consuming _ (.putItem _), w => w.pending = some (.ioctl .putitem)
  | .consuming _ _, w => w.phase = .consumer false ∧ w.pending = some (.ioctl .getitem)
  | _, _ => True

variable {s t : Driver} {h k : Filp} {w : Watch}

/-- A step is a step of the driver, or it changes nothing. -/
theorem HandleStep.driver {e : Filp × Label} (hstep : HandleStep s e t) :
    t = s ∨ ∃ event, Step s (e.1, event) t := by
  cases hstep with
  | go inside step => exact .inr ⟨_, step⟩
  | @call h ctxt request at_file =>
      cases request with
      | ioctl call =>
          simp only [Driver.answer]
          cases houtcome : vmqIoctl s ctxt call with
          | none => exact .inl rfl
          | some result =>
              cases result with
              | error e => exact .inl rfl
              | ok f => exact .inr ⟨_, Step.ioctlEntered at_file houtcome⟩
      | poll => cases ctxt <;> exact .inl rfl
      | mmap remap => cases ctxt <;> exact .inl rfl
      | release =>
          cases ctxt with
          | none => exact .inr ⟨_, Step.releaseUnused at_file⟩
          | some ctxt => exact .inr ⟨_, Step.release at_file⟩

theorem watched_wakeProducer {f : File} (hf : f.Watched w) : f.wakeProducer.Watched w := by
  unfold File.wakeProducer
  split <;> exact hf

theorem watched_wakeConsumer {f : File} (hf : f.Watched w) : f.wakeConsumer.Watched w := by
  unfold File.wakeConsumer
  split <;> exact hf

theorem watched_enqueue {b : Addr} {f : File} (hf : f.Watched w) : (f.enqueue b).Watched w := by
  unfold File.enqueue
  split
  · exact hf
  · rename_i items call
    cases call <;> exact hf
  · exact hf
  · exact hf

/-- The steps of the other handles change nothing that is watched. -/
theorem watched_elsewhere {e : Filp × Label} (hstep : HandleStep s e t) (hk : k ≠ e.1)
    (hs : (s.files k).Watched w) : (t.files k).Watched w := by
  rcases hstep.driver with rfl | ⟨event, hstep⟩
  · exact hs
  · rcases step_elsewhere hstep hk with heq | heq | heq | ⟨b, heq⟩ <;> rw [heq]
    · exact hs
    · exact watched_wakeProducer hs
    · exact watched_wakeConsumer hs
    · exact watched_enqueue hs

/-! ## The steps of a handle -/

/-- A call that gets past its checks is watched from there on. -/
theorem watched_entered {ctxt : Option VMQContext} {call : Ioctl} {f : File}
    (hctxt : (File.idle ctxt).Watched w) (hcall : vmqIoctl s ctxt call = some (.ok f)) :
    f.Watched { w with pending := some (.ioctl call) } := by
  rcases vmqIoctl_entered hcall with ⟨type, rfl, rfl⟩ | ⟨n, rfl, rfl, -⟩ | ⟨b, rfl, rfl⟩ |
    ⟨items, rfl, rfl⟩ | ⟨items, b, rfl, rfl⟩
  · trivial
  · cases call with
    | getbuf request => exact ⟨hctxt, request, rfl⟩
    | putbuf offset => cases offset <;> cases hcall
    | _ => cases hcall
  · cases call with
    | putbuf offset => exact ⟨offset, rfl⟩
    | _ => cases hcall
  · cases call with
    | getitem => exact ⟨hctxt, rfl⟩
    | _ => cases hcall
  · cases call with
    | putitem => rfl
    | _ => cases hcall

/-- A system call that answers at once leaves the file where the watch expects it. -/
theorem watched_call (request : Request) {ctxt : Option VMQContext}
    (at_file : s.files h = .idle ctxt) (hs : (s.files h).Watched w) :
    ((s.afterReply h (s.answer ctxt request)).files h).Watched
      (w.see (.call request (s.answer ctxt request))) := by
  have hput : ∀ f : File, (s.put h f).files h = f := fun f => Function.update_self ..
  cases request with
  | ioctl call =>
      simp only [Driver.answer]
      cases houtcome : vmqIoctl s ctxt call with
      | none => exact hs
      | some result =>
          cases result with
          | error e => exact hs
          | ok f =>
              show ((s.put h f).files h).Watched { w with pending := some (.ioctl call) }
              rw [hput]
              rw [at_file] at hs
              exact watched_entered hs houtcome
  | poll => cases ctxt <;> exact hs
  | mmap remap => cases ctxt <;> exact hs
  | release =>
      show ((s.put h (vmqRelease ctxt)).files h).Watched { w with pending := some .release }
      rw [hput]
      cases ctxt <;> trivial

theorem watched_go {event : Event} (inside : ∀ ctxt, s.files h ≠ .idle ctxt)
    (hstep : Step s (h, event) t) (hs : (s.files h).Watched w) :
    (t.files h).Watched (w.see (.go event)) := by
  have hput : ∀ (u : Driver) (f : File), (u.put h f).files h = f := fun u f =>
    Function.update_self ..
  have hgo : ∀ (u : Driver) {f g : File} {w' : Watch}, s.files h = f →
      (f.Watched w → g.Watched w') → ((u.put h g).files h).Watched w' := by
    intro u f g w' hfile hfg
    rw [hput]
    exact hfg (hfile ▸ hs)
  have hafter : ∀ {request : Request}, w.pending = some request →
      w.phase.after w.pending = w.phase.after (some request) := fun hpending => by rw [hpending]
  cases hstep with
  | ioctlOops at_file outcome => exact absurd at_file (inside _)
  | ioctlRefused at_file outcome => exact absurd at_file (inside _)
  | ioctlEntered at_file outcome => exact absurd at_file (inside _)
  | roused => exact hgo _ rfl fun hold => watched_wakeConsumer (watched_wakeProducer hold)
  | @register _ type at_file unlocked => cases type <;> exact hgo _ at_file fun _ => rfl
  -- the call goes on
  | countPassed at_file test => exact hgo _ at_file fun hold => hold
  | countReached at_file test => exact hgo _ at_file fun hold => hold
  | countFell at_file test => exact hgo _ at_file fun hold => hold
  | countHeld at_file test => exact hgo _ at_file fun hold => hold
  | pageFound at_file alloc =>
      rcases at_file with hfile | hfile <;> exact hgo _ hfile fun hold => hold
  | pageMissing at_file alloc => exact hgo _ at_file fun hold => hold
  | countFull at_file unlocked => exact hgo _ at_file fun hold => hold
  | pageStillMissing at_file alloc => exact hgo _ at_file fun hold => hold
  | newItem at_file unlocked free => exact hgo _ at_file fun hold => hold
  | bufferCopyFailed at_file => exact hgo _ at_file fun hold => hold
  | publish at_file unlocked => exact hgo _ at_file fun hold => hold
  | deliver at_file => exact hgo _ at_file fun hold => hold
  | deliverFailed at_file => exact hgo _ at_file fun hold => hold
  | take at_file => rcases at_file with hfile | hfile <;> exact hgo _ hfile fun hold => hold
  | queueEmpty at_file => exact hgo _ at_file fun hold => hold
  | queueStillEmpty at_file => exact hgo _ at_file fun hold => hold
  | itemCopyFailed at_file => exact hgo _ at_file fun hold => hold
  -- it returns an error, and the phase is what it was
  | countInterrupted at_file => exact hgo _ at_file fun hold => hold.1
  | pageInterrupted at_file => exact hgo _ at_file fun hold => hold.1
  | newItemFailed at_file unlocked => exact hgo _ at_file fun hold => hold.1
  | undoBuffer at_file unlocked => exact hgo _ at_file fun hold => hold.1
  | itemInterrupted at_file => exact hgo _ at_file fun hold => hold.1
  | undoItem at_file unlocked => exact hgo _ at_file fun hold => hold.1
  -- it returns 0
  | bufferCopied at_file =>
      refine hgo _ at_file fun hold => ?_
      obtain ⟨-, size, hpending⟩ := hold
      exact hafter hpending
  | endFanOut at_file =>
      refine hgo _ at_file fun hold => ?_
      obtain ⟨offset, hpending⟩ := hold
      exact hafter hpending
  | itemCopied at_file => exact hgo _ at_file fun hold => hafter hold.2
  | putItem at_file unlocked => exact hgo _ at_file fun hold => hafter hold
  | releaseUnused at_file => exact absurd at_file (inside _)
  | release at_file => exact absurd at_file (inside _)
  | releaseConsumer at_file unlocked =>
      rw [releaseConsumer_eq]
      exact hgo _ at_file fun _ => trivial
  | releaseProducer at_file unlocked => exact hgo _ at_file fun _ => trivial
  | countContext at_file => exact hgo _ at_file fun _ => trivial
  | wakeDrained at_file => exact hgo _ at_file fun _ => trivial
  | dropContext at_file => exact hgo _ at_file fun _ => trivial

/-- What is watched is right in every run: the state of each file is the one that its own calls
and returns tell. -/
theorem watched_run {m : BuddyAllocator.Memory} {size pageSize : Nat} {maxItemCount : Int}
    {mem : Addr → VMQBuffer} {s₀ : Driver} {tr : List (Filp × Label)}
    (hcreate : createBufferManager m size pageSize maxItemCount mem = some s₀)
    (hrun : Run HandleStep s₀ tr s) : ∀ h, (s.files h).Watched (watch h tr) := by
  apply hrun.history fun tr s => ∀ h, (s.files h).Watched (watch h tr)
  · obtain ⟨ba, -, rfl⟩ := Option.map_eq_some_iff.mp hcreate
    exact fun h => rfl
  · intro tr s e t _ ih hstep h
    rw [watch_append]
    by_cases hh : e.1 = h
    · rw [if_pos hh]
      subst hh
      cases hstep with
      | call request at_file => exact watched_call request at_file (ih _)
      | go inside step => exact watched_go inside step (ih _)
    · rw [if_neg hh]
      exact watched_elsewhere hstep (Ne.symm hh) (ih h)

/-- A call follows a null pointer exactly if it is out of order. -/
theorem answer_none_iff {ctxt : Option VMQContext} (hs : (File.idle ctxt).Watched w)
    (request : Request) : s.answer ctxt request = none ↔ w.phase.permits request = false := by
  rcases ctxt with _ | (_ | b) | ⟨items, _ | b⟩ <;> simp only [File.Watched] at hs <;> rw [hs] <;>
    rcases request with (type | size | (_ | offset) | _ | _) | _ | remap | _ <;>
    simp [Driver.answer, vmqIoctl, vmqPutbuf, Phase.permits]

/-- **The order of calls.**  In every run no step follows a null pointer if
and only if every call is permitted in the phase its handle is in, for all
that is known of the handle from the calls and returns before. -/
theorem handles_safe {m : BuddyAllocator.Memory} {size pageSize : Nat} {maxItemCount : Int}
    {mem : Addr → VMQBuffer} {s₀ : Driver} {tr : List (Filp × Label)}
    (hcreate : createBufferManager m size pageSize maxItemCount mem = some s₀)
    (hrun : Run HandleStep s₀ tr s) :
    (∀ e ∈ tr, e.2.nullDeref = false) ↔
      ∀ pre h request reply post, tr = pre ++ (h, .call request reply) :: post →
        (watch h pre).phase.permits request = true := by
  have hcall : ∀ pre h request reply post, tr = pre ++ (h, Label.call request reply) :: post →
      (reply = none ↔ (watch h pre).phase.permits request = false) := by
    intro pre h request reply post htr
    subst htr
    obtain ⟨u, hpre, hrest⟩ := hrun.split
    obtain ⟨v, hfirst, -⟩ := hrest.cons_inv
    have hwatched := watched_run hcreate hpre h
    cases hfirst with
    | call _ at_file =>
        rw [at_file] at hwatched
        exact answer_none_iff hwatched request
  constructor
  · intro hsafe pre h request reply post htr
    by_contra hnot
    have hnone := (hcall pre h request reply post htr).mpr (Bool.eq_false_iff.mpr hnot)
    have hmem := hsafe (h, .call request reply) (by rw [htr]; simp)
    rw [hnone] at hmem
    cases hmem
  · intro hpermits e he
    obtain ⟨pre, post, htr⟩ := List.append_of_mem he
    obtain ⟨h, _ | event⟩ := e
    · rename_i request reply
      have hok := hpermits pre h request reply post htr
      cases reply with
      | some reply => rfl
      | none =>
          rw [(hcall pre h request none post htr).mp rfl] at hok
          cases hok
    · rfl

/-- A producer with nothing to publish polls, maps the memory, asks for an item
it cannot have and closes its handle. -/
theorem handles_safe_idle_producer : ∃ s₀ s tr,
    createBufferManager (fun _ => ⟨true, 0⟩) 1000 128 4 (fun _ => ⟨0, 0, 0⟩) = some s₀ ∧
    Run HandleStep s₀ tr s ∧ tr.length = 7 ∧
    ∀ pre h request reply post, tr = pre ++ (h, Label.call request reply) :: post →
      (watch h pre).phase.permits request = true := by
  have hrun := Run.nil.snoc (@HandleStep.call (sevenPages 4) 0 none (.ioctl (.setup (.ok 0))) rfl)
  have hrun := hrun.snoc
    (HandleStep.go (fun _ hc => by cases hc) (@Step.countContext _ 0 .producer rfl))
  have hrun := hrun.snoc
    (HandleStep.go (fun _ hc => by cases hc) (@Step.register _ 0 .producer rfl rfl))
  have hrun := hrun.snoc (@HandleStep.call _ 0 (some (.producer none)) .poll rfl)
  have hrun := hrun.snoc (@HandleStep.call _ 0 (some (.producer none)) (.mmap 0) rfl)
  have hrun := hrun.snoc (@HandleStep.call _ 0 (some (.producer none)) (.ioctl .getitem) rfl)
  have hrun := hrun.snoc (@HandleStep.call _ 0 (some (.producer none)) .release rfl)
  refine ⟨_, _, _, create_sevenPages 4, hrun, rfl, (handles_safe (create_sevenPages 4) hrun).mp ?_⟩
  intro e he
  simp only [List.nil_append, List.cons_append, List.mem_cons, List.not_mem_nil, or_false] at he
  rcases he with rfl | rfl | rfl | rfl | rfl | rfl | rfl <;> rfl

/-- `VMQ_PUTBUF` without a buffer, and `poll` on a handle that was only
opened. -/
theorem handles_oops : ∃ s₀ s tr,
    createBufferManager (fun _ => ⟨true, 0⟩) 1000 128 4 (fun _ => ⟨0, 0, 0⟩) = some s₀ ∧
    Run HandleStep s₀ tr s ∧ (0, .call (.ioctl (.putbuf (some 0))) none) ∈ tr ∧
    (1, .call .poll none) ∈ tr := by
  have hrun := Run.nil.snoc (@HandleStep.call (sevenPages 4) 0 none (.ioctl (.setup (.ok 0))) rfl)
  have hrun := hrun.snoc
    (HandleStep.go (fun _ hc => by cases hc) (@Step.countContext _ 0 .producer rfl))
  have hrun := hrun.snoc
    (HandleStep.go (fun _ hc => by cases hc) (@Step.register _ 0 .producer rfl rfl))
  have hrun := hrun.snoc
    (@HandleStep.call _ 0 (some (.producer none)) (.ioctl (.putbuf (some 0))) rfl)
  have hrun := hrun.snoc (@HandleStep.call _ 1 none .poll rfl)
  exact ⟨_, _, _, create_sevenPages 4, hrun, by simp [Driver.answer, vmqIoctl, vmqPutbuf],
    by simp [Driver.answer]⟩

end Vmq

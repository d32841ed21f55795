import PiFrame.VmqHandles
import PiFrame.VmqNeighbours

/-!
# Consumers asleep on `q_wq`

A consumer waits for a message in two places, in `VMQ_GETITEM` when its queue
is empty and in `poll`.  Both sleep on `mgr->q_wq`, from a look at the queue
that found nothing until they are woken, and only the end of `put_buffer_item`
wakes that queue.  The items are there before: a consumer may be asleep with
items in its queue while the fan-out that brought them is under way, and at no
other time.

The services call `VMQ_GETITEM` only after `poll` has answered `POLLIN`.  Nobody
but the consumer itself takes items from its queue, so the answer is still right
when the call is made, and an event loop sleeps nowhere else than in `poll`.
-/

namespace Vmq

open BuddyAllocator Transition

/-- Where a task stands in `poll`. -/
inductive Poll
  | outside
  /-- It is on the wait queue and about to look. -/
  | looking
  /-- It has looked in vain and has not been woken since. -/
  | asleep
  /-- The last call on the file was a `poll` that answered `POLLIN`. -/
  | ready
  deriving DecidableEq, Repr

/-- The driver and the tasks inside `poll`. -/
structure Polled where
  driver : Driver
  polls : Filp → Poll

/-- `wake_up_interruptible_all(&mgr->q_wq)` as a task in `poll` feels it. -/
def Poll.wake : Poll → Poll
  | .asleep => .looking
  | p => p

/-- The end of a fan-out that has reached somebody. -/
def File.wakesConsumers : File → Bool
  | .producing (.fanOut _ [] count) => count != 0
  | _ => false

/-- The file is at the entry of `get_queue_item`. -/
def File.atGetitem : File → Bool
  | .consuming _ .dequeue => true
  | _ => false

/-- The steps, each with the file it belongs to.  A task has one call in flight
on a file, be it `poll` or another.  The files in `loops` are those of event
loops, which call `VMQ_GETITEM` when `poll` has just answered `POLLIN`. -/
inductive PolledStep (loops : Filp → Prop) : Polled → Filp → Polled → Prop
  | call {s t : Driver} {polls : Filp → Poll} {h : Filp} {ev : Event} (step : Step s (h, ev) t)
      (outside : polls h = .outside ∨ polls h = .ready)
      (loop : loops h → (s.files h).quiet = true → (t.files h).atGetitem = true →
        polls h = .ready) :
      PolledStep loops ⟨s, polls⟩ h
        ⟨t, fun k =>
          let p := if k = h then .outside else polls k
          if (s.files h).wakesConsumers ∧ ev = .ret none then p.wake else p⟩
  | poll {s : Driver} {polls : Filp → Poll} {h : Filp} {ctxt : VMQContext}
      (at_file : s.files h = .idle (some ctxt)) :
      PolledStep loops ⟨s, polls⟩ h ⟨s, Function.update polls h .looking⟩
  | found {s : Driver} {polls : Filp → Poll} {h : Filp} {ctxt : VMQContext}
      (at_poll : polls h = .looking) (at_file : s.files h = .idle (some ctxt))
      (test : (vmqPoll ctxt).pollin = true) :
      PolledStep loops ⟨s, polls⟩ h ⟨s, Function.update polls h .ready⟩
  | notFound {s : Driver} {polls : Filp → Poll} {h : Filp} {ctxt : VMQContext}
      (at_poll : polls h = .looking) (at_file : s.files h = .idle (some ctxt))
      (test : (vmqPoll ctxt).pollin = false) :
      PolledStep loops ⟨s, polls⟩ h ⟨s, Function.update polls h .asleep⟩
  /-- A signal or a stray wake-up. -/
  | roused {s : Driver} {polls : Filp → Poll} {h : Filp} (at_poll : polls h = .asleep) :
      PolledStep loops ⟨s, polls⟩ h ⟨s, Function.update polls h .looking⟩
  /-- The time is over, or a signal has come. -/
  | leave {s : Driver} {polls : Filp → Poll} {h : Filp}
      (at_poll : polls h = .looking ∨ polls h = .asleep) :
      PolledStep loops ⟨s, polls⟩ h ⟨s, Function.update polls h .outside⟩

namespace Polled

/-- The task is asleep on `q_wq`. -/
def Asleep (x : Polled) (k : Filp) : Prop :=
  x.polls k = .asleep ∨ ∃ items, x.driver.files k = .consuming items (.waitItem true)

/-- A fan-out is under way that has reached somebody and will wake the queue. -/
def Waking (x : Polled) : Prop :=
  ∃ h b rest count, x.driver.mgr.mutex = some h ∧
    x.driver.files h = .producing (.fanOut b rest (count + 1))

/-- Whoever fans out holds the mutex, a task inside `poll` does nothing else, and
nobody sleeps with items in its queue but for a fan-out under way. -/
structure Attentive (x : Polled) : Prop where
  locked : ∀ h b rest n, x.driver.files h = .producing (.fanOut b rest n) →
    x.driver.mgr.mutex = some h
  inside : ∀ h, x.polls h = .looking ∨ x.polls h = .asleep →
    ∃ ctxt, x.driver.files h = .idle (some ctxt)
  woken : ∀ k, x.Asleep k → x.driver.queue k = [] ∨ x.Waking

end Polled

variable {s t : Driver} {h k : Filp} {b : Addr} {ev : Event} {e : Filp × Event} {f g : File}
  {loops : Filp → Prop} {x y : Polled} {tr : List Filp} {ctxt : Option VMQContext}

/-! ## Kinds of steps -/

/-- A step that neither takes nor releases the mutex for a fan-out, nor is part
of one. -/
structure Step.Plain (s t : Driver) (h : Filp) : Prop where
  mutex : t.mgr.mutex = s.mgr.mutex
  fan : (t.files h).share.fan = (s.files h).share.fan
  asleep : ∀ items, t.files h = .consuming items (.waitItem true) → items = []
  others : ∀ k, k ≠ h → t.files k = s.files k ∨ t.files k = (s.files k).wakeProducer

/-- What a step is to a fan-out: its start, a delivery that succeeds or fails,
its end, or nothing. -/
inductive Step.Kind (s t : Driver) (h : Filp) (ev : Event) : Prop
  | publish {b : Addr} (free : s.mgr.mutex = none) (taken : t.mgr.mutex = some h)
      (file : t.files h = .producing (.fanOut b s.mgr.consumers 0))
      (others : ∀ k, k ≠ h → t.files k = s.files k)
  | deliver {b : Addr} {con : Filp} {rest : List Filp} {n : Nat}
      (before : s.files h = .producing (.fanOut b (con :: rest) n))
      (mutex : t.mgr.mutex = s.mgr.mutex)
      (after : t.files h = .producing (.fanOut b rest (n + 1)))
      (others : ∀ k, k ≠ h → t.files k = s.files k ∨ t.files k = (s.files k).enqueue b)
  | missed {b : Addr} {con : Filp} {rest : List Filp} {n : Nat}
      (before : s.files h = .producing (.fanOut b (con :: rest) n))
      (mutex : t.mgr.mutex = s.mgr.mutex)
      (after : t.files h = .producing (.fanOut b rest n))
      (others : ∀ k, k ≠ h → t.files k = s.files k)
  | finish {b : Addr} {n : Nat} (before : s.files h = .producing (.fanOut b [] n))
      (label : ev = .ret none) (free : t.mgr.mutex = none)
      (after : t.files h = .idle (some (.producer none)))
      (others : ∀ k, k ≠ h →
        t.files k = if n = 0 then s.files k else (s.files k).wakeConsumer)
  | plain (hplain : Step.Plain s t h)

/-- A step that puts its own file and at most wakes producers is plain, if its fan-out stays. -/
theorem plain_put {s' : Driver} (hmutex : s'.mgr.mutex = s.mgr.mutex) (hfile : s.files h = f)
    (hfan : g.share.fan = f.share.fan)
    (hasleep : ∀ items, g = .consuming items (.waitItem true) → items = [])
    (hothers : ∀ k, s'.files k = s.files k ∨ s'.files k = (s.files k).wakeProducer) :
    Step.Plain s (s'.put h g) h := by
  refine ⟨hmutex, ?_, ?_, fun k hk => ?_⟩
  · rw [files_put_self, hfile]
    exact hfan
  · rw [files_put_self]
    exact hasleep
  · rw [files_put_of_ne hk]
    exact hothers k

theorem plain_refl (hfile : s.files h = .idle ctxt) : Step.Plain s s h := by
  refine ⟨rfl, rfl, fun items hf => ?_, fun k _ => .inl rfl⟩
  rw [hfile] at hf
  cases hf

/-- Giving up a reference leaves the other files alone or wakes them as producers. -/
theorem putQueueItem_others (k : Filp) : (s.putQueueItem b).files k = s.files k ∨
    (s.putQueueItem b).files k = (s.files k).wakeProducer := by
  unfold Driver.putQueueItem
  simp only
  split
  · right
    rw [Driver.wakeProducers, unrefBuffer_frame.1]
  · left
    rw [unrefBuffer_frame.1]

theorem putQueueItem_mutex : (s.putQueueItem b).mgr.mutex = s.mgr.mutex := by
  unfold Driver.putQueueItem
  simp only
  split <;> exact (unrefBuffer_frame (s := s) (b := b)).2.1

/-- Every step of the driver is one of these, whatever call it belongs to.  The lemmas on
wake-ups look at the kind only, so the calls are taken apart once. -/
theorem Step.kind (hstep : Step s (h, ev) t) : Step.Kind s t h ev := by
  have hsame : ∀ k, s.files k = s.files k ∨ s.files k = (s.files k).wakeProducer :=
    fun _ => .inl rfl
  cases hstep with
  | ioctlOops at_file outcome => exact .plain (plain_refl at_file)
  | ioctlRefused at_file outcome => exact .plain (plain_refl at_file)
  | ioctlEntered at_file outcome =>
      refine .plain (plain_put rfl at_file ?_ ?_ hsame)
      · rcases vmqIoctl_share outcome with hshare | ⟨n, hidle, hshare, -⟩
        · rw [hshare]
        · rw [hshare, hidle]
      · rintro items rfl
        obtain ⟨type, -, hf⟩ | ⟨n, -, hf, -⟩ | ⟨b, -, hf⟩ | ⟨items, -, hf⟩ | ⟨items, b, -, hf⟩ :=
          vmqIoctl_entered outcome <;> cases hf
  | roused =>
      refine .plain (plain_put rfl rfl (by simp) ?_ hsame)
      generalize (s.files h).wakeProducer = f
      intro items hf
      unfold File.wakeConsumer at hf
      split at hf
      · cases hf
      · rename_i hne
        exact absurd hf (hne items true)
  | publish at_file unlocked =>
      exact .publish unlocked rfl files_put_self fun k hk => files_put_of_ne hk
  | @deliver h con b rest count at_file =>
      refine .deliver at_file rfl files_put_self fun k hk => ?_
      rw [files_put_of_ne hk]
      by_cases hcon : k = con
      · subst hcon
        exact .inr (Function.update_self ..)
      · exact .inl (files_put_of_ne hcon)
  | deliverFailed at_file =>
      exact .missed at_file rfl files_put_self fun k hk => files_put_of_ne hk
  | endFanOut at_file =>
      refine .finish at_file rfl rfl files_put_self fun k hk => ?_
      rw [files_put_of_ne hk]
      unfold Driver.endFanOut
      simp only
      split
      · exact congrFun removeBufferItem_frame.1 k
      · rfl
  | @register h type at_file unlocked =>
      refine .plain (plain_put ?_ at_file (share_context_fan type) ?_ fun k => .inl ?_)
      · cases type <;> rfl
      · cases type <;> exact nofun
      · cases type <;> rfl
  | queueStillEmpty at_file =>
      exact .plain (plain_put rfl at_file rfl (fun items hf => by cases hf; rfl) hsame)
  | putItem at_file unlocked =>
      exact .plain (plain_put putQueueItem_mutex at_file rfl nofun putQueueItem_others)
  | undoItem at_file unlocked =>
      exact .plain (plain_put putQueueItem_mutex at_file rfl nofun putQueueItem_others)
  | undoBuffer at_file unlocked =>
      exact .plain (plain_put removeBufferItem_frame.2.1 at_file rfl nofun fun k =>
        .inl (congrFun removeBufferItem_frame.1 k))
  | releaseConsumer at_file unlocked =>
      rw [releaseConsumer_eq]
      exact .plain (plain_put (unrefAll_frame _).2.1 at_file rfl nofun fun k =>
        .inl (congrFun (unrefAll_frame _).1 k))
  | @releaseProducer h buffer at_file unlocked =>
      cases buffer with
      | none => exact .plain (plain_put rfl at_file rfl nofun hsame)
      | some b =>
          exact .plain (plain_put removeBufferItem_frame.2.1 at_file rfl nofun fun k =>
            .inl (congrFun removeBufferItem_frame.1 k))
  | release at_file =>
      exact .plain (plain_put rfl at_file (by rw [share_releasing]) nofun hsame)
  | wakeDrained at_file =>
      refine .plain (plain_put ?_ at_file rfl nofun fun k => ?_)
      · split <;> rfl
      · split
        · exact .inr rfl
        · exact .inl rfl
  | take at_file =>
      rcases at_file with hfile | hfile <;>
        exact .plain (plain_put rfl hfile rfl nofun hsame)
  | pageFound at_file alloc =>
      rcases at_file with hfile | hfile <;>
        exact .plain (plain_put rfl hfile rfl nofun hsame)
  | _ =>
      have hfile := ‹s.files h = _›
      exact .plain (plain_put rfl hfile rfl nofun hsame)

/-! ## Nobody sleeps in vain -/

/-- A file is in a fan-out if it stands in the loop of `vmq_putbuf`. -/
theorem fan_iff {rest : List Filp} {n : Nat} :
    f.share.fan = some (b, rest, n) ↔ f = .producing (.fanOut b rest n) := by
  constructor
  · intro hfan
    unfold File.share at hfan
    split at hfan <;> simp_all
  · rintro rfl
    rfl

/-- A file without a call in flight remains one, and has its items. -/
theorem File.Touch.idle {ctxt : VMQContext} (htouch : f.Touch g) (hf : f = .idle (some ctxt)) :
    ∃ ctxt', g = .idle (some ctxt') ∧
      ((vmqPoll ctxt).pollin = true → (vmqPoll ctxt').pollin = true) := by
  subst hf
  cases ctxt with
  | producer buffer => exact ⟨_, htouch.producer, id⟩
  | consumer items item =>
      obtain ⟨arrived, rfl⟩ := htouch.consumer
      refine ⟨_, rfl, fun hpollin => ?_⟩
      have hne : items ≠ [] := by simpa [vmqPoll] using hpollin
      simp [vmqPoll, hne]

/-- Who is woken as a producer was not asleep on the other queue, and has its items. -/
theorem wakeProducer_waitItem {items : List Addr} {asleep : Bool} :
    f.wakeProducer = .consuming items (.waitItem asleep) ↔ f = .consuming items (.waitItem asleep) := by
  unfold File.wakeProducer
  split <;> simp

theorem wakeConsumer_waitItem {items : List Addr} :
    f.wakeConsumer ≠ .consuming items (.waitItem true) := by
  unfold File.wakeConsumer
  split <;> simp_all

/-- A task in `poll` that has been woken is not asleep. -/
theorem asleep_of_wake {p : Poll} : p.wake ≠ .asleep := by
  cases p <;> nofun

/-- The others put nobody to sleep: who sleeps after their step slept before it. -/
theorem File.Touch.waitItem {items : List Addr} (htouch : f.Touch g)
    (hg : g = .consuming items (.waitItem true)) :
    ∃ items', f = .consuming items' (.waitItem true) := by
  cases htouch with
  | same => exact ⟨items, hg⟩
  | wokenProducer => exact ⟨items, wakeProducer_waitItem.mp hg⟩
  | wokenConsumer => exact absurd hg wakeConsumer_waitItem
  | enqueued b =>
      unfold File.enqueue at hg
      split at hg <;> simp_all

namespace Polled

/-- A task inside `poll` is there after the step of another, unless it is woken. -/
theorem of_polls {polls : Filp → Poll} {p : Poll} {woken : Prop} [Decidable woken]
    (hp : p ≠ .outside)
    (hk : (let q := if k = h then .outside else polls k
      if woken then q.wake else q) = p) :
    k ≠ h ∧ (polls k = p ∨ polls k = .asleep ∧ p = .looking) := by
  by_cases hkh : k = h
  · simp only [hkh, if_true] at hk
    split at hk <;> exact absurd hk.symm hp
  · simp only [hkh, if_false] at hk
    refine ⟨hkh, ?_⟩
    split at hk
    · cases hpoll : polls k <;> simp_all [Poll.wake]
    · exact .inl hk

/-- A file is not ready after a step inside `poll` but by that step. -/
theorem ready_of_update {polls : Filp → Poll} {p : Poll}
    (hk : Function.update polls h p k = .ready) (hp : p ≠ .ready) : polls k = .ready := by
  by_cases hkh : k = h
  · subst hkh
    rw [Function.update_self] at hk
    exact absurd hk hp
  · rwa [Function.update_of_ne hkh] at hk

/-- A fan-out holds the mutex, read off the share of the file. -/
theorem Attentive.locked_fan (hx : x.Attentive) {rest : List Filp} {n : Nat}
    (hfan : (x.driver.files h).share.fan = some (b, rest, n)) : x.driver.mgr.mutex = some h :=
  hx.locked h b rest n (fan_iff.mp hfan)

/-- While the mutex is free, who sleeps has an empty queue. -/
theorem Attentive.empty_of_free (hx : x.Attentive) (hfree : x.driver.mgr.mutex = none)
    (hk : x.Asleep k) : x.driver.queue k = [] := by
  refine (hx.woken k hk).resolve_right ?_
  rintro ⟨h, b, rest, count, hlock, -⟩
  rw [hfree] at hlock
  cases hlock

/-- While a fan-out is under way that has reached nobody, whoever sleeps has nothing in its
queue. -/
theorem Attentive.empty_of_fan (hx : x.Attentive) {rest : List Filp}
    (hfile : x.driver.files h = .producing (.fanOut b rest 0)) (hk : x.Asleep k) :
    x.driver.queue k = [] := by
  refine (hx.woken k hk).resolve_right ?_
  rintro ⟨h', b', rest', count, hlock, hfile'⟩
  have heq := (hx.locked h b rest 0 hfile).symm.trans hlock
  cases heq
  rw [hfile] at hfile'
  cases hfile'

/-- After a step of the driver, whoever fans out holds the mutex.  The task of the step has taken
it or had it before; another one had it, and then the step was neither the start nor the end of a
fan-out. -/
theorem Attentive.call_locked {polls : Filp → Poll} (hx : Attentive ⟨s, polls⟩)
    (hstep : Step s (h, ev) t) {rest : List Filp} {n : Nat}
    (hk : t.files k = .producing (.fanOut b rest n)) : t.mgr.mutex = some k := by
  have hkind := hstep.kind
  have hfan := fan_iff.mpr hk
  by_cases hkh : k = h
  · subst hkh
    cases hkind with
    | publish free taken file others => exact taken
    | deliver before mutex after others => exact mutex.trans (hx.locked k _ _ _ before)
    | missed before mutex after others => exact mutex.trans (hx.locked k _ _ _ before)
    | finish before label free after others =>
        rw [after] at hfan
        cases hfan
    | plain hplain => exact hplain.mutex.trans (hx.locked_fan (hplain.fan.symm.trans hfan))
  · have hlock := hx.locked_fan ((hstep.touch hkh).fan.symm.trans hfan)
    cases hkind with
    | publish free taken file others =>
        rw [show s.mgr.mutex = none from free] at hlock
        cases hlock
    | deliver before mutex after others => exact mutex.trans hlock
    | missed before mutex after others => exact mutex.trans hlock
    | finish before label free after others =>
        have heq := hlock.symm.trans (hx.locked h _ _ _ before)
        exact absurd (Option.some.inj heq) hkh
    | plain hplain => exact hplain.mutex.trans hlock

/-- A task that goes to sleep in `get_queue_item` has just found its queue empty. -/
theorem queue_of_asleep (hstep : Step s (h, ev) t) {items : List Addr}
    (hk : t.files h = .consuming items (.waitItem true)) : t.queue h = [] := by
  cases hstep.kind with
  | plain hplain =>
      rw [Driver.queue, hk]
      exact hplain.asleep items hk
  | publish free taken file others => rw [hk] at file; cases file
  | deliver before mutex after others => rw [hk] at after; cases after
  | missed before mutex after others => rw [hk] at after; cases after
  | finish before label free after others => rw [hk] at after; cases after

/-- Another task that sleeps through a step of the driver has nothing in its queue, or a fan-out
will wake it.  Only a delivery can bring it an item, and the end of that fan-out wakes everybody. -/
theorem Attentive.call_woken {polls : Filp → Poll} (hx : Attentive ⟨s, polls⟩)
    (hstep : Step s (h, ev) t) (hkh : k ≠ h) (hback : Asleep ⟨s, polls⟩ k)
    (hslept : t.files k = (s.files k).wakeConsumer →
      ¬ ((s.files h).wakesConsumers = true ∧ ev = .ret none)) :
    t.queue k = [] ∨ ∃ h b rest count, t.mgr.mutex = some h ∧
      t.files h = .producing (.fanOut b rest (count + 1)) := by
  have hqueue : t.files k = s.files k ∨ t.files k = (s.files k).wakeProducer →
      t.queue k = s.queue k := by
    rintro (heq | heq)
    · rw [Driver.queue, heq]
      rfl
    · rw [Driver.queue, heq, queue_wakeProducer]
      rfl
  cases hstep.kind with
  | publish free taken file others =>
      exact .inl ((hqueue (.inl (others k hkh))).trans (hx.empty_of_free free hback))
  | @deliver b con rest n before mutex after others =>
      exact .inr ⟨h, b, rest, n, mutex.trans (hx.locked h _ _ _ before), after⟩
  | @missed b con rest n before mutex after others =>
      cases n with
      | zero => exact .inl ((hqueue (.inl (others k hkh))).trans (hx.empty_of_fan before hback))
      | succ n => exact .inr ⟨h, b, rest, n, mutex.trans (hx.locked h _ _ _ before), after⟩
  | @finish b n before label free after others =>
      have hfile := others k hkh
      cases n with
      | zero => exact .inl ((hqueue (.inl hfile)).trans (hx.empty_of_fan before hback))
      | succ n =>
          -- everybody has been woken
          have hwakes : (s.files h).wakesConsumers = true ∧ ev = .ret none := by
            rw [before]
            exact ⟨rfl, label⟩
          exact absurd hwakes (hslept hfile)
  | plain hplain =>
      rcases hx.woken k hback with hempty | ⟨h', b, rest, count, hlock, hfile⟩
      · exact .inl ((hqueue (hplain.others k hkh)).trans hempty)
      · refine .inr ⟨h', b, rest, count, hplain.mutex.trans hlock, fan_iff.mp ?_⟩
        have hfan := fan_iff.mpr hfile
        by_cases hh : h' = h
        · rw [hh] at hfan ⊢
          exact hplain.fan.trans hfan
        · exact (hstep.touch hh).fan.trans hfan

/-- A step of the driver loses no wake-up.  A delivery may leave a sleeper with items, but then
the fan-out has reached somebody and will wake the queue at its end. -/
theorem Attentive.call {polls : Filp → Poll} (hx : Attentive ⟨s, polls⟩) (hstep : Step s (h, ev) t) :
    Attentive ⟨t, fun k =>
      let p := if k = h then .outside else polls k
      if (s.files h).wakesConsumers ∧ ev = .ret none then p.wake else p⟩ := by
  refine ⟨fun k d rest n hk => hx.call_locked hstep hk, fun k hk => ?_, fun k hk => ?_⟩
  · have hback : k ≠ h ∧ (polls k = .looking ∨ polls k = .asleep) := by
      rcases hk with hk | hk
      · obtain ⟨hne, hp | ⟨hp, -⟩⟩ := of_polls (by decide) hk
        · exact ⟨hne, .inl hp⟩
        · exact ⟨hne, .inr hp⟩
      · obtain ⟨hne, hp | ⟨hp, -⟩⟩ := of_polls (by decide) hk
        · exact ⟨hne, .inr hp⟩
        · exact ⟨hne, .inr hp⟩
    obtain ⟨ctxt, hfile⟩ := hx.inside k hback.2
    obtain ⟨ctxt', hfile', -⟩ := (hstep.touch hback.1).idle hfile
    exact ⟨ctxt', hfile'⟩
  · by_cases hkh : k = h
    · -- the task of the step itself can only have found its queue empty
      subst hkh
      rcases hk with hk | ⟨items, hk⟩
      · exact absurd rfl (of_polls (by decide) hk).1
      · exact .inl (queue_of_asleep hstep hk)
    · have hback : Asleep ⟨s, polls⟩ k := by
        rcases hk with hk | ⟨items, hk⟩
        · obtain ⟨-, hp | ⟨-, hp⟩⟩ := of_polls (by decide) hk
          · exact .inl hp
          · cases hp
        · exact .inr ((hstep.touch hkh).waitItem hk)
      refine hx.call_woken hstep hkh hback fun hfile hwakes => ?_
      rcases hk with hk | ⟨items, hk⟩
      · simp only [hwakes, and_self, if_true] at hk
        exact asleep_of_wake hk
      · exact wakeConsumer_waitItem (hfile.symm.trans hk)

/-- A step of a task inside `poll` loses no wake-up. -/
theorem Attentive.polled {polls : Filp → Poll} (hx : Attentive ⟨s, polls⟩) {p : Poll}
    (hin : p = .looking ∨ p = .asleep → ∃ ctxt, s.files h = .idle (some ctxt))
    (hp : p = .asleep → s.queue h = []) : Attentive ⟨s, Function.update polls h p⟩ := by
  refine ⟨hx.locked, fun k hk => ?_, fun k hk => ?_⟩
  · by_cases hkh : k = h
    · subst hkh
      simp only [Function.update_self] at hk
      exact hin hk
    · simp only [Function.update_of_ne hkh] at hk
      exact hx.inside k hk
  · rcases hk with hk | hk
    · by_cases hkh : k = h
      · subst hkh
        simp only [Function.update_self] at hk
        exact .inl (hp hk)
      · simp only [Function.update_of_ne hkh] at hk
        exact hx.woken k (.inl hk)
    · exact hx.woken k (.inr hk)

/-- What each of these steps preserves: a step of the driver by its kind, one in `poll` directly. -/
theorem Attentive.step (hx : x.Attentive) (hstep : PolledStep loops x h y) : y.Attentive := by
  cases hstep with
  | call step outside loop => exact hx.call step
  | poll at_file => exact hx.polled (fun _ => ⟨_, at_file⟩) fun hp => Poll.noConfusion hp
  | found at_poll at_file test => exact hx.polled (fun _ => ⟨_, at_file⟩) fun hp => Poll.noConfusion hp
  | @notFound s polls h ctxt at_poll at_file test =>
      refine hx.polled (fun _ => ⟨_, at_file⟩) fun _ => ?_
      cases ctxt with
      | producer buffer => cases test
      | consumer items item =>
          have hempty : items = [] := by simpa [vmqPoll] using test
          rw [Driver.queue, at_file, hempty]
          rfl
  | roused at_poll => exact hx.polled (fun _ => hx.inside _ (.inr at_poll)) fun hp => Poll.noConfusion hp
  | leave at_poll => exact hx.polled (fun hp => by simp at hp) fun hp => Poll.noConfusion hp

end Polled

/-- The driver of a new manager, and nobody in `poll`. -/
theorem Polled.Attentive.create {m : Memory} {size pageSize : Nat} {maxItemCount : Int}
    {mem : Addr → VMQBuffer} {s₀ : Driver}
    (hcreate : createBufferManager m size pageSize maxItemCount mem = some s₀) :
    Polled.Attentive ⟨s₀, fun _ => .outside⟩ := by
  obtain ⟨ba, -, rfl⟩ := Option.map_eq_some_iff.mp hcreate
  refine ⟨nofun, fun h hp => ?_, fun k hk => ?_⟩
  · rcases hp with hp | hp <;> cases hp
  · rcases hk with hk | ⟨items, hk⟩ <;> cases hk

/-- **No lost wake-up of a consumer.**  However the calls and polls of any number
of tasks interleave, and whatever allocations fail, a consumer that sleeps in
`VMQ_GETITEM` or in `poll` has an empty queue, unless a fan-out is under way that
has reached somebody and will wake it.  When `mgr->mutex` is free there is none. -/
theorem vmq_consumers_woken {m : Memory} {size pageSize : Nat} {maxItemCount : Int}
    {mem : Addr → VMQBuffer} {s₀ : Driver}
    (hcreate : createBufferManager m size pageSize maxItemCount mem = some s₀)
    (hrun : Run (PolledStep loops) ⟨s₀, fun _ => .outside⟩ tr x) (k : Filp) (hk : x.Asleep k) :
    (x.driver.queue k = [] ∨ x.Waking) ∧ (x.driver.mgr.mutex = none → x.driver.queue k = []) := by
  have hx : x.Attentive :=
    hrun.invariant Polled.Attentive (.create hcreate) fun _ _ _ hx hstep => hx.step hstep
  exact ⟨hx.woken k hk, fun hfree => hx.empty_of_free hfree hk⟩

/-- Calls of tasks that are no event loops, while nobody polls. -/
theorem run_polled {trace : List (Filp × Event)} (hrun : Run Step s trace t)
    (hplain : ∀ e ∈ trace, ¬ loops e.1) :
    Run (PolledStep loops) ⟨s, fun _ => .outside⟩ (trace.map Prod.fst) ⟨t, fun _ => .outside⟩ := by
  induction hrun with
  | nil => exact .nil
  | @snoc trace t u e before last ih =>
      obtain ⟨h, ev⟩ := e
      have hh : ¬ loops h := hplain _ (List.mem_append_right _ (List.mem_singleton.mpr rfl))
      have hcall := @PolledStep.call _ _ _ (fun _ => .outside) _ _ last (.inl rfl)
        fun hloop => absurd hloop hh
      rw [List.map_append]
      refine (ih fun e he => hplain e (List.mem_append_left _ he)).snoc ?_
      simpa [Poll.wake] using hcall

/-- A consumer that has looked in vain is asleep while the message is brought to it. -/
theorem vmq_consumers_woken_fan_out : ∃ s₀ x tr,
    createBufferManager (fun _ => ⟨true, 0⟩) 1000 128 4 (fun _ => ⟨0, 0, 0⟩) = some s₀ ∧
    Run (PolledStep fun _ => False) ⟨s₀, fun _ => .outside⟩ tr x ∧
    x.Asleep 1 ∧ x.driver.queue 1 = [5] ∧ (x.driver.queue 1 = [] ∨ x.Waking) := by
  have hrun := @setUp_run (sevenPages 4) 0 (.setup (.ok 0)) .producer rfl rfl rfl
  have hrun := hrun.append (@setUp_run _ 1 (.setup (.ok 1)) .consumer rfl rfl rfl)
  have hrun := hrun.append (@getBuffer_run _ 0 (.getbuf (some 100)) 100 6 _ 5 rfl rfl rfl
    (alloc_sevenPages 4) rfl (Finset.notMem_empty 5))
  have hrun := @run_polled _ _ (fun _ => False) _ hrun fun _ _ => id
  have hrun := hrun.snoc (@PolledStep.poll _ _ _ 1 _ rfl)
  have hrun := hrun.snoc (@PolledStep.notFound _ _ _ 1 _ rfl rfl rfl)
  have hrun := hrun.snoc (.call
    (@Step.ioctlEntered _ 0 (some (.producer (some 5))) (.putbuf (some 768)) _ rfl rfl)
    (.inl rfl) nofun)
  have hrun := hrun.snoc (.call (@Step.publish _ 0 5 rfl rfl) (.inl rfl) nofun)
  have hrun := hrun.snoc (.call (@Step.deliver _ 0 1 5 [] 0 rfl) (.inl rfl) nofun)
  exact ⟨_, _, _, create_sevenPages 4, hrun, .inl rfl, rfl,
    (vmq_consumers_woken (create_sevenPages 4) hrun 1 (.inl rfl)).1⟩

/-! ## Event loops -/

/-- Where an event loop finds a file of its own after a step: outside
`get_queue_item` or in it with something to take, and never asleep there. -/
structure File.Served (f : File) : Prop where
  full : ∀ items, f = .consuming items .dequeue → items ≠ []
  awake : ∀ items asleep, f ≠ .consuming items (.waitItem asleep)

/-- The others may only bring items, so an event loop that is served stays served. -/
theorem File.Served.touch (hf : f.Served) (htouch : f.Touch g) : g.Served := by
  cases htouch with
  | same => exact hf
  | wokenProducer =>
      unfold File.wakeProducer
      split
      · exact ⟨nofun, nofun⟩
      · exact ⟨nofun, nofun⟩
      · exact hf
  | wokenConsumer =>
      unfold File.wakeConsumer
      split
      · rename_i items asleep
        exact absurd rfl (hf.awake items asleep)
      · exact hf
  | enqueued b =>
      unfold File.enqueue
      split
      · exact ⟨nofun, nofun⟩
      · rename_i items call
        refine ⟨fun items' heq => ?_, fun items' asleep heq => ?_⟩
        · cases heq
          exact List.append_ne_nil_of_right_ne_nil items (List.cons_ne_nil b [])
        · cases heq
          exact hf.awake items asleep rfl
      · exact ⟨nofun, nofun⟩
      · exact hf

/-- Who enters `get_queue_item` was idle with the same queue, so what `poll` found there is what
the call finds. -/
theorem Step.served (hstep : Step s (h, ev) t) (hserved : (s.files h).Served) :
    (t.files h).Served ∨ ∃ items, s.files h = .idle (some (.consumer items none)) ∧
      t.files h = .consuming items .dequeue := by
  have hout : ∀ {f : File}, t.files h = f → (∀ items, f ≠ .consuming items .dequeue) →
      (∀ items asleep, f ≠ .consuming items (.waitItem asleep)) → (t.files h).Served := by
    rintro f rfl hdequeue hwait
    exact ⟨fun items hf => absurd hf (hdequeue items), hwait⟩
  cases hstep with
  | ioctlOops at_file outcome => exact .inl hserved
  | ioctlRefused at_file outcome => exact .inl hserved
  | ioctlEntered at_file outcome =>
      obtain ⟨type, -, rfl⟩ | ⟨n, -, rfl, -⟩ | ⟨b, -, rfl⟩ | ⟨items, rfl, rfl⟩ |
        ⟨items, b, -, rfl⟩ := vmqIoctl_entered outcome
      · exact .inl (hout files_put_self (by simp) (by simp))
      · exact .inl (hout files_put_self (by simp) (by simp))
      · exact .inl (hout files_put_self (by simp) (by simp))
      · exact .inr ⟨items, at_file, files_put_self⟩
      · exact .inl (hout files_put_self (by simp) (by simp))
  | roused =>
      rw [files_put_self]
      exact .inl ((hserved.touch .wokenProducer).touch .wokenConsumer)
  | queueEmpty at_file => exact absurd rfl (hserved.full [] at_file)
  | queueStillEmpty at_file => exact absurd at_file (hserved.awake [] false)
  | @releaseConsumer h items item at_file unlocked =>
      have hfile := congrArg (fun d => d.files h) (releaseConsumer_eq (s := s) h items item)
      exact .inl (hout (hfile.trans files_put_self) (by simp) (by simp))
  | releaseProducer at_file unlocked => exact .inl (hout files_put_self (by simp) (by simp))
  | _ => exact .inl (hout files_put_self (by simp) (by simp))

/-- An event loop is outside `get_queue_item` or has something to take, and what
`poll` has told it is still true. -/
structure Polled.Fed (x : Polled) (c : Filp) : Prop where
  served : (x.driver.files c).Served
  ready : x.polls c = .ready →
    ∃ ctxt, x.driver.files c = .idle (some ctxt) ∧ (vmqPoll ctxt).pollin = true

/-- What `poll` has seen in the queue is there when the event loop takes it: between the two,
others can only add to the queue. -/
theorem Polled.Fed.step {c : Filp} (hx : x.Fed c) (hc : loops c) (hstep : PolledStep loops x h y) :
    y.Fed c := by
  cases hstep with
  | @call s t polls h ev step outside loop =>
      by_cases hch : c = h
      · subst hch
        refine ⟨?_, fun hready => absurd rfl (Polled.of_polls (by decide) hready).1⟩
        rcases step.served hx.served with hserved | ⟨items, hidle, hentered⟩
        · exact hserved
        · -- `poll` has found the queue that the call finds
          have hquiet : (s.files c).quiet = true := by rw [hidle]; rfl
          have hat : (t.files c).atGetitem = true := by rw [hentered]; rfl
          obtain ⟨ctxt, hfile, hpollin⟩ := hx.ready (loop hc hquiet hat)
          cases hidle.symm.trans hfile
          refine ⟨fun items' heq => ?_, fun items' asleep heq => ?_⟩
          · cases hentered.symm.trans heq
            simpa [vmqPoll] using hpollin
          · cases hentered.symm.trans heq
      · have htouch : (s.files c).Touch (t.files c) := step.touch hch
        refine ⟨hx.served.touch htouch, fun hready => ?_⟩
        obtain ⟨-, hp | ⟨-, hp⟩⟩ := Polled.of_polls (by decide) hready
        · obtain ⟨ctxt, hfile, hpollin⟩ := hx.ready hp
          obtain ⟨ctxt', hfile', hkeeps⟩ := htouch.idle hfile
          exact ⟨ctxt', hfile', hkeeps hpollin⟩
        · cases hp
  | poll at_file => exact ⟨hx.served, fun hready => hx.ready (Polled.ready_of_update hready nofun)⟩
  | @found s polls h ctxt at_poll at_file test =>
      refine ⟨hx.served, fun hready => ?_⟩
      by_cases hch : c = h
      · subst hch
        exact ⟨ctxt, at_file, test⟩
      · exact hx.ready ((Function.update_of_ne hch _ _).symm.trans hready)
  | notFound at_poll at_file test =>
      exact ⟨hx.served, fun hready => hx.ready (Polled.ready_of_update hready nofun)⟩
  | roused at_poll =>
      exact ⟨hx.served, fun hready => hx.ready (Polled.ready_of_update hready nofun)⟩
  | leave at_poll =>
      exact ⟨hx.served, fun hready => hx.ready (Polled.ready_of_update hready nofun)⟩

/-- **An event loop sleeps in `poll` only.**  A task that calls `VMQ_GETITEM` only
when its last call on the file was a `poll` that answered `POLLIN` never waits
there: whatever the others do meanwhile, the queue is as `poll` saw it or longer. -/
theorem event_loop_never_waits {m : Memory} {size pageSize : Nat} {maxItemCount : Int}
    {mem : Addr → VMQBuffer} {s₀ : Driver}
    (hcreate : createBufferManager m size pageSize maxItemCount mem = some s₀)
    (hrun : Run (PolledStep loops) ⟨s₀, fun _ => .outside⟩ tr x) {c : Filp} (hc : loops c) :
    (∀ items asleep, x.driver.files c ≠ .consuming items (.waitItem asleep)) ∧
    ∀ items, x.driver.files c = .consuming items .dequeue → items ≠ [] := by
  have hstart : Polled.Fed ⟨s₀, fun _ => .outside⟩ c := by
    obtain ⟨ba, -, rfl⟩ := Option.map_eq_some_iff.mp hcreate
    exact ⟨⟨nofun, nofun⟩, nofun⟩
  have hx : x.Fed c := hrun.invariant (fun x => x.Fed c) hstart fun _ _ _ hx hstep => hx.step hc hstep
  exact ⟨hx.served.awake, hx.served.full⟩

/-- An event loop that has been woken by a message and is about to take it. -/
theorem event_loop_never_waits_one_message : ∃ s₀ x tr,
    createBufferManager (fun _ => ⟨true, 0⟩) 1000 128 4 (fun _ => ⟨0, 0, 0⟩) = some s₀ ∧
    Run (PolledStep fun h => h = 1) ⟨s₀, fun _ => .outside⟩ tr x ∧
    x.driver.files 1 = .consuming [5] .dequeue ∧
    ∀ items asleep, x.driver.files 1 ≠ .consuming items (.waitItem asleep) := by
  have hrun := @setUp_run (sevenPages 4) 0 (.setup (.ok 0)) .producer rfl rfl rfl
  have hrun := hrun.append (@getBuffer_run _ 0 (.getbuf (some 100)) 100 6 _ 5 rfl rfl rfl
    (alloc_sevenPages 4) rfl (Finset.notMem_empty 5))
  have hrun := @run_polled _ _ (fun h => h = 1) _ hrun (by simp)
  have hrun := hrun.snoc (.call (@Step.ioctlEntered _ 1 none (.setup (.ok 1)) _ rfl rfl)
    (.inl rfl) fun _ _ => nofun)
  have hrun := hrun.snoc (.call (@Step.countContext _ 1 .consumer rfl) (.inl rfl) fun _ _ => nofun)
  have hrun := hrun.snoc (.call (@Step.register _ 1 .consumer rfl rfl) (.inl rfl) fun _ _ => nofun)
  -- the loop falls asleep before the message is published
  have hrun := hrun.snoc (@PolledStep.poll _ _ _ 1 _ rfl)
  have hrun := hrun.snoc (@PolledStep.notFound _ _ _ 1 _ rfl rfl rfl)
  have hrun := hrun.snoc (.call
    (@Step.ioctlEntered _ 0 (some (.producer (some 5))) (.putbuf (some 768)) _ rfl rfl)
    (.inl rfl) nofun)
  have hrun := hrun.snoc (.call (@Step.publish _ 0 5 rfl rfl) (.inl rfl) nofun)
  have hrun := hrun.snoc (.call (@Step.deliver _ 0 1 5 [] 0 rfl) (.inl rfl) nofun)
  have hrun := hrun.snoc (.call (@Step.endFanOut _ 0 5 1 rfl) (.inl rfl) nofun)
  have hrun := hrun.snoc (@PolledStep.found _ _ _ 1 _ rfl rfl rfl)
  have hrun := hrun.snoc (.call
    (@Step.ioctlEntered _ 1 (some (.consumer [5] none)) .getitem _ rfl rfl) (.inr rfl) fun _ _ _ => rfl)
  exact ⟨_, _, _, create_sevenPages 4, hrun, rfl,
    (event_loop_never_waits (create_sevenPages 4) hrun rfl).1⟩

end Vmq

import PiFrame.VmqGetbuf

/-!
# A `VMQ_GETITEM` that fails

`vmq_getitem` takes the first item out of the queue of the consumer before it
copies it to the user.  A call that is busy or interrupted has taken nothing.
When the copy fails it puts the item back with `put_queue_item`, which is what
`VMQ_PUTITEM` does with an item that was used: it drops the reference.

As for `VMQ_GETBUF` the call is compared with a shadow, here of the queue of
the consumer and of the reference counts, that follows the steps of the other
tasks.  A consumer's queue only grows while nothing is taken from it, so what
the failed call leaves is what the next one finds.
-/

namespace Vmq

open BuddyAllocator Shadow Transition

/-- What a `VMQ_GETITEM` of one consumer works on. -/
structure ConsumerSurroundings where
  queue : List Addr
  refcnt : Addr → Int

/-- The items that arrive from `s` to `t` are appended, and the counts change
as they do. -/
def ConsumerSurroundings.follow (h : Filp) (g : ConsumerSurroundings) (s t : Driver) :
    ConsumerSurroundings where
  queue := g.queue ++ (t.queue h).drop (s.queue h).length
  refcnt := fun b => g.refcnt b + ((t.mem b).refcnt - (s.mem b).refcnt)

def Driver.consumerSurroundings (s : Driver) (h : Filp) : ConsumerSurroundings :=
  ⟨s.queue h, fun b => (s.mem b).refcnt⟩

/-- Steps beside the surroundings of consumer `h`. -/
abbrev AsideStep (h : Filp) :
    Driver × ConsumerSurroundings → Filp × Event → Driver × ConsumerSurroundings → Prop :=
  ShadowStep Step (fun e => e.1 = h) (ConsumerSurroundings.follow h)

/-- A `VMQ_GETITEM` of task `h`, made in `s`, returns `err` in `t`.  It is
refused at once, or it returns by a step from `u` after a run in which the
other tasks have made `g` of its surroundings. -/
inductive FailedGetitem (h : Filp) (s : Driver) :
    Driver → Driver → ConsumerSurroundings → Errno → Prop
  | refused {ctxt : Option VMQContext} {err : Errno} (at_file : s.files h = .idle ctxt)
      (outcome : vmqIoctl s ctxt .getitem = some (.error err)) :
      FailedGetitem h s s s (s.consumerSurroundings h) err
  | failed {ctxt : Option VMQContext} {f : File} {tr : List (Filp × Event)} {u t : Driver}
      {g : ConsumerSurroundings} {err : Errno} (at_file : s.files h = .idle ctxt)
      (outcome : vmqIoctl s ctxt .getitem = some (.ok f))
      (during : Run (AsideStep h) (s.put h f, s.consumerSurroundings h) tr (u, g))
      (pending : ∀ e ∈ tr, e.1 = h → e.2.returns = false)
      (last : Step u (h, .ret (some err)) t) : FailedGetitem h s u t g err

/-- The file is inside `vmq_getitem`, past its checks. -/
def File.inGetitem : File → Bool
  | .consuming _ .dequeue => true
  | .consuming _ (.waitItem _) => true
  | .consuming _ (.copyOut _) => true
  | .consuming _ (.undo _) => true
  | _ => false

/-- The copy to the user has failed. -/
def File.copyFailed : File → Bool
  | .consuming _ (.undo _) => true
  | _ => false

/-- An event that takes from the queue of the consumer, or ends it. -/
def Event.takes : Event → Bool
  | .got _ => true
  | .left => true
  | _ => false

/-- The queue and the item in the hands of the call are the surroundings. -/
structure Driver.Aside (s : Driver) (h : Filp) (g : ConsumerSurroundings) : Prop where
  call : (s.files h).inGetitem = true
  queue : (s.files h).items = g.queue
  refcnt : ∀ b, (s.mem b).refcnt = g.refcnt b

variable {size pageSize : Nat} {lost : List (Nat × Nat)} {s t u v w : Driver} {h : Filp} {b : Addr}
  {g : ConsumerSurroundings}

/-! ## Queues grow -/

/-- As long as nothing is taken from it, the queue of a consumer grows at its end. -/
theorem step_queue {e : Filp × Event} (hstep : Step s e t)
    (hconsumer : (s.files h).share.consumer = true) (htakes : e.1 = h → e.2.takes = false) :
    (t.files h).share.consumer = true ∧ ∃ arrived, t.queue h = s.queue h ++ arrived := by
  by_cases he : h = e.1
  · have hplace : ∀ f, s.files h = f → f.share.consumer = true := fun f hf => hf ▸ hconsumer
    have hput : ∀ (u : Driver) (f : File), (u.put h f).files h = f := fun u f =>
      Function.update_self ..
    obtain ⟨k, ev⟩ := e
    obtain rfl : h = k := he
    have htakes := htakes rfl
    -- the consumer's own steps move items neither in nor out
    have hsame : ∀ (u : Driver) (f : File), f.share.consumer = true → f.queue = s.queue h →
        ((u.put h f).files h).share.consumer = true ∧
          ∃ arrived, (u.put h f).queue h = s.queue h ++ arrived := by
      intro u f hf hqueue
      refine ⟨by rw [hput, hf], [], ?_⟩
      rw [Driver.queue, hput, hqueue, List.append_nil]
    cases hstep with
    | ioctlOops at_file outcome => exact ⟨hconsumer, [], (List.append_nil _).symm⟩
    | ioctlRefused at_file outcome => exact ⟨hconsumer, [], (List.append_nil _).symm⟩
    | ioctlEntered at_file outcome =>
        have hold := hplace _ at_file
        rcases vmqIoctl_entered outcome with ⟨type, rfl, rfl⟩ | ⟨n, rfl, rfl, -⟩ | ⟨b, rfl, rfl⟩ |
          ⟨items, rfl, rfl⟩ | ⟨items, b, rfl, rfl⟩
        · cases hold
        · cases hold
        · cases hold
        · exact hsame _ _ rfl (by rw [Driver.queue, at_file]; rfl)
        · exact hsame _ _ rfl (by rw [Driver.queue, at_file]; rfl)
    | roused =>
        refine hsame _ _ ?_ ?_
        · rw [share_wakeConsumer, share_wakeProducer, hconsumer]
        · rw [queue_wakeConsumer, queue_wakeProducer]
          rfl
    | pageFound at_file alloc => rcases at_file with hfile | hfile <;> cases hplace _ hfile
    | take at_file => cases htakes
    | queueEmpty at_file => exact hsame _ _ rfl (by rw [Driver.queue, at_file]; rfl)
    | queueStillEmpty at_file => exact hsame _ _ rfl (by rw [Driver.queue, at_file]; rfl)
    | itemInterrupted at_file => exact hsame _ _ rfl (by rw [Driver.queue, at_file]; rfl)
    | itemCopied at_file => exact hsame _ _ rfl (by rw [Driver.queue, at_file]; rfl)
    | itemCopyFailed at_file => exact hsame _ _ rfl (by rw [Driver.queue, at_file]; rfl)
    | undoItem at_file unlocked => exact hsame _ _ rfl (by rw [Driver.queue, at_file]; rfl)
    | putItem at_file unlocked => exact hsame _ _ rfl (by rw [Driver.queue, at_file]; rfl)
    | @release _ ctxt at_file =>
        refine hsame _ _ ?_ ?_
        · rw [share_releasing, ← at_file, hconsumer]
        · rw [Driver.queue, at_file]
          cases ctxt <;> rfl
    | releaseConsumer at_file unlocked => cases htakes
    | releaseProducer at_file unlocked => cases htakes
    | _ => cases hplace _ ‹s.files h = _›
  · rcases step_elsewhere hstep he with heq | heq | heq | ⟨b, heq⟩ <;> unfold Driver.queue <;>
      rw [heq]
    · exact ⟨hconsumer, [], (List.append_nil _).symm⟩
    · rw [share_wakeProducer, queue_wakeProducer]
      exact ⟨hconsumer, [], (List.append_nil _).symm⟩
    · rw [share_wakeConsumer, queue_wakeConsumer]
      exact ⟨hconsumer, [], (List.append_nil _).symm⟩
    · rw [share_enqueue b hconsumer, queue_enqueue hconsumer]
      exact ⟨hconsumer, [b], rfl⟩

/-- What waits in the queue of a consumer has not been freed. -/
theorem Inv.live_of_queue' (hinv : Inv size pageSize lost s.account)
    (hconsumer : (s.files h).share.consumer = true) (hb : b ∈ s.queue h) : b ∈ s.live :=
  hinv.live_of_queue ((hinv.mem_consumers h).mpr hconsumer) (List.mem_append_left _ hb)

/-- A run in which the consumer takes nothing leaves its queue to it, with the
messages in it. -/
theorem Inv.run_queue (hinv : Inv size pageSize lost s.account)
    (hconsumer : (s.files h).share.consumer = true) {tr : List (Filp × Event)}
    (hrun : Run Step s tr t) (htakes : ∀ e ∈ tr, e.1 = h → e.2.takes = false) :
    (t.files h).share.consumer = true ∧ (∃ arrived, t.queue h = s.queue h ++ arrived) ∧
      ∀ b ∈ s.queue h, t.message b = s.message b := by
  have hall := hrun.history (fun tr t => (∀ e ∈ tr, e.1 = h → e.2.takes = false) →
    (∃ lost, Inv size pageSize lost t.account) ∧ (t.files h).share.consumer = true ∧
      (∃ arrived, t.queue h = s.queue h ++ arrived) ∧
        ∀ b ∈ s.queue h, t.message b = s.message b)
    (fun _ => ⟨⟨lost, hinv⟩, hconsumer, ⟨[], (List.append_nil _).symm⟩, fun _ _ => rfl⟩) (by
      intro tr t e u _ ih hstep htakes
      obtain ⟨⟨lost, hinv⟩, hconsumer, ⟨arrived, hqueue⟩, hmsg⟩ :=
        ih fun x hx => htakes x (List.mem_append_left _ hx)
      have he := htakes e (List.mem_append_right _ (List.mem_singleton.mpr rfl))
      obtain ⟨hconsumer', more, hqueue'⟩ := step_queue hstep hconsumer he
      refine ⟨hinv.step_lost hstep, hconsumer', ⟨arrived ++ more, ?_⟩, fun b hb => ?_⟩
      · rw [hqueue', hqueue, List.append_assoc]
      · have hlive : b ∈ t.live := hinv.live_of_queue' hconsumer (by
          rw [hqueue]
          exact List.mem_append_left _ hb)
        rw [step_message hstep hlive, hmsg b hb])
  exact (hall htakes).2

/-- `VMQ_GETITEM` obtains the first item of the queue. -/
theorem step_got {msg : Message} (hstep : Step s (h, .got msg) t) :
    (s.queue h).head?.map s.message = some msg := by
  cases hstep with
  | take at_file =>
      rcases at_file with hfile | hfile <;> rw [Driver.queue, hfile] <;> rfl

/-! ## During the call -/

/-- Waking a producer moves no call of `vmq_getitem` and no item. -/
theorem getitem_wakeProducer (f : File) : f.wakeProducer.inGetitem = f.inGetitem ∧
    f.wakeProducer.items = f.items ∧ f.wakeProducer.queue = f.queue := by
  unfold File.wakeProducer
  split <;> exact ⟨rfl, rfl, rfl⟩

/-- Waking a consumer moves it from sleep to the next look, with the same items. -/
theorem getitem_wakeConsumer (f : File) : f.wakeConsumer.inGetitem = f.inGetitem ∧
    f.wakeConsumer.items = f.items ∧ f.wakeConsumer.queue = f.queue := by
  unfold File.wakeConsumer
  split <;> exact ⟨rfl, rfl, rfl⟩

/-- A file in the call is a consumer's. -/
theorem getitem_cases {f : File} (hf : f.inGetitem = true) :
    ∃ items call, f = .consuming items call := by
  unfold File.inGetitem at hf
  split at hf
  · exact ⟨_, _, rfl⟩
  · exact ⟨_, _, rfl⟩
  · exact ⟨_, _, rfl⟩
  · exact ⟨_, _, rfl⟩
  · cases hf

/-- A step of another task: an item may arrive, and so it arrives in the surroundings as well. -/
theorem Driver.Aside.others (hs : s.Aside h g) {e : Filp × Event} (hstep : Step s e t)
    (he : e.1 ≠ h) : t.Aside h (g.follow h s t) := by
  obtain ⟨items, call, hfile⟩ := getitem_cases hs.call
  have hrefcnt : ∀ b, (t.mem b).refcnt = (g.follow h s t).refcnt b := by
    intro b
    have hold := hs.refcnt b
    simp only [ConsumerSurroundings.follow]
    omega
  have hfollow : ∀ arrived, t.queue h = s.queue h ++ arrived →
      (g.follow h s t).queue = (s.files h).items ++ arrived := by
    intro arrived hqueue
    simp only [ConsumerSurroundings.follow, hqueue, List.drop_left, hs.queue]
  rcases step_elsewhere hstep he.symm with heq | heq | heq | ⟨b, heq⟩
  · refine ⟨by rw [heq, hs.call], ?_, hrefcnt⟩
    rw [hfollow [] (by rw [Driver.queue, heq, List.append_nil]; rfl), heq, List.append_nil]
  · obtain ⟨hcall, hitems, hqueue⟩ := getitem_wakeProducer (s.files h)
    refine ⟨by rw [heq, hcall, hs.call], ?_, hrefcnt⟩
    rw [hfollow [] (by rw [Driver.queue, heq, hqueue, List.append_nil]; rfl), heq, hitems,
      List.append_nil]
  · obtain ⟨hcall, hitems, hqueue⟩ := getitem_wakeConsumer (s.files h)
    refine ⟨by rw [heq, hcall, hs.call], ?_, hrefcnt⟩
    rw [hfollow [] (by rw [Driver.queue, heq, hqueue, List.append_nil]; rfl), heq, hitems,
      List.append_nil]
  · rw [hfile] at heq
    have hcall := hs.call
    rw [hfile] at hcall
    refine ⟨?_, ?_, hrefcnt⟩
    · rw [heq]
      cases call <;> exact hcall
    rw [hfollow [b] (by rw [Driver.queue, heq, Driver.queue, hfile]; rfl), heq, hfile]
    exact (List.append_assoc ..).symm

/-- A step of the call before it returns: the item may change into its hands, where it still
counts as one of the queue. -/
theorem Driver.Aside.own (hs : s.Aside h g) {ev : Event} (hstep : Step s (h, ev) t)
    (hev : ev.returns = false) : t.Aside h g := by
  have hplace : ∀ f, s.files h = f → f.inGetitem = true := fun f hf => hf ▸ hs.call
  have hput : ∀ (u : Driver) (f : File), (u.put h f).files h = f := fun u f =>
    Function.update_self ..
  have hsame : ∀ f : File, f.inGetitem = true → f.items = (s.files h).items →
      (s.put h f).Aside h g := by
    intro f hf hitems
    exact ⟨by rw [hput, hf], by rw [hput, hitems, hs.queue], hs.refcnt⟩
  cases hstep with
  | roused =>
      obtain ⟨hcall, hitems, -⟩ := getitem_wakeProducer (s.files h)
      obtain ⟨hcall', hitems', -⟩ := getitem_wakeConsumer (s.files h).wakeProducer
      exact hsame _ (by rw [hcall', hcall, hs.call]) (by rw [hitems', hitems])
  | pageFound at_file alloc => rcases at_file with hfile | hfile <;> cases hplace _ hfile
  | @take _ b items at_file =>
      -- only the item changes its place
      refine ⟨by rw [hput]; rfl, ?_, hs.refcnt⟩
      rw [hput, ← hs.queue]
      rcases at_file with hfile | hfile <;> rw [hfile] <;> rfl
  | queueEmpty at_file => exact hsame _ rfl (by rw [at_file]; rfl)
  | queueStillEmpty at_file => exact hsame _ rfl (by rw [at_file]; rfl)
  | itemCopyFailed at_file => exact hsame _ rfl (by rw [at_file]; rfl)
  | _ => first | (cases hev; done) | cases hplace _ ‹s.files h = _›

/-- The last step of a call that fails keeps the items, unless the copy to the
user has failed. -/
theorem Driver.Aside.failed (hs : s.Aside h g) {err : Errno}
    (hstep : Step s (h, .ret (some err)) t) :
    (t.files h).share.consumer = true ∧
    ((t.queue h = g.queue ∧ ∀ b, (t.mem b).refcnt = g.refcnt b) ↔
      (s.files h).copyFailed = false) := by
  have hplace : ∀ f, s.files h = f → f.inGetitem = true := fun f hf => hf ▸ hs.call
  have hput : ∀ (u : Driver) (f : File), (u.put h f).files h = f := fun u f =>
    Function.update_self ..
  cases hstep with
  | ioctlRefused at_file outcome => cases hplace _ at_file
  | countInterrupted at_file => cases hplace _ at_file
  | pageInterrupted at_file => cases hplace _ at_file
  | newItemFailed at_file unlocked => cases hplace _ at_file
  | undoBuffer at_file unlocked => cases hplace _ at_file
  | @itemInterrupted _ items at_file =>
      refine ⟨by rw [hput]; rfl, iff_of_true ⟨?_, hs.refcnt⟩ (by rw [at_file]; rfl)⟩
      rw [← hs.queue, Driver.queue, hput, at_file]
      rfl
  | @undoItem _ b items at_file unlocked =>
      refine ⟨by rw [hput]; rfl,
        iff_of_false (fun hkept => ?_) (by rw [at_file]; exact Bool.noConfusion)⟩
      -- the item is not in the queue any more
      have hqueue := hkept.1
      rw [← hs.queue, Driver.queue, hput, at_file] at hqueue
      have hlength : items.length = (b :: items).length := congrArg List.length hqueue
      exact absurd hlength (Nat.ne_of_lt (Nat.lt_succ_self _))

/-- Only a consumer with no current item gets past the checks. -/
theorem getitem_entered {ctxt : Option VMQContext} {f : File}
    (hcall : vmqIoctl s ctxt .getitem = some (.ok f)) :
    ∃ items, ctxt = some (.consumer items none) ∧ f = .consuming items .dequeue := by
  rcases vmqIoctl_entered hcall with ⟨type, rfl, -⟩ | ⟨n, rfl, -⟩ | ⟨b, rfl, -⟩ |
    ⟨items, hctxt, hf⟩ | ⟨items, b, rfl, -⟩
  · cases hcall
  · cases hcall
  · cases hcall
  · exact ⟨items, hctxt, hf⟩
  · cases hcall

/-- **A failing `VMQ_GETITEM`.**  Whatever the other tasks do during the call,
when it returns an error to a consumer the queue and the reference counts are
what the others have made of them if and only if the call did not fail in its
copy to the user.  The queue is then the queue that the next `VMQ_GETITEM`
finds, with what arrives meanwhile, and it returns the first message of it. -/
theorem getitem_failure {m : Memory} {maxItemCount : Int} {mem : Addr → VMQBuffer} {s₀ : Driver}
    {tr : List (Filp × Event)} {err : Errno}
    (hsize : size < 2 ^ 31) (hpage : 0 < pageSize) (hpage' : pageSize < 2 ^ 31)
    (hdvd : 128 ∣ pageSize) (hpast : (m (size / pageSize)).allocated = true)
    (hcreate : createBufferManager m size pageSize maxItemCount mem = some s₀)
    (hrun : Run Step s₀ tr s) (hconsumer : (s.files h).share.consumer = true)
    (hcall : FailedGetitem h s u t g err) :
    ((t.queue h = g.queue ∧ ∀ b, (t.mem b).refcnt = g.refcnt b) ↔
      (u.files h).copyFailed = false) ∧
    (∀ later v w msg, Run Step t later v → (∀ e ∈ later, e.1 = h → e.2.takes = false) →
      Step v (h, .got msg) w → ∃ arrived, v.queue h = t.queue h ++ arrived ∧
        (∀ b ∈ t.queue h, v.message b = t.message b) ∧
        (v.queue h).head?.map v.message = some msg) := by
  obtain ⟨lost, hinv⟩ := Inv.run_lost hsize hpage hpage' hdvd hpast hcreate hrun
  have hnext : ∀ {t : Driver} {lost}, Inv size pageSize lost t.account →
      (t.files h).share.consumer = true →
      ∀ later v w msg, Run Step t later v → (∀ e ∈ later, e.1 = h → e.2.takes = false) →
        Step v (h, .got msg) w → ∃ arrived, v.queue h = t.queue h ++ arrived ∧
          (∀ b ∈ t.queue h, v.message b = t.message b) ∧
          (v.queue h).head?.map v.message = some msg := by
    intro t lost hinv hconsumer later v w msg hlater htakes hgot
    obtain ⟨-, ⟨arrived, hqueue⟩, hmsg⟩ := hinv.run_queue hconsumer hlater htakes
    exact ⟨arrived, hqueue, hmsg, step_got hgot⟩
  cases hcall with
  | refused at_file outcome =>
      refine ⟨iff_of_true ⟨rfl, fun _ => rfl⟩ ?_, hnext hinv hconsumer⟩
      rw [at_file]
      rfl
  | @failed ctxt f tr' _ _ _ _ at_file outcome during pending last =>
      have henter := Step.ioctlEntered at_file outcome
      obtain ⟨items, rfl, rfl⟩ := getitem_entered outcome
      have haside : u.Aside h g := by
        refine run_invariant (fun s g => s.Aside h g) ?_ ?_ ?_ during
        · have hfile : (s.put h (.consuming items .dequeue)).files h =
              .consuming items .dequeue := Function.update_self ..
          refine ⟨by rw [hfile]; rfl, ?_, fun _ => rfl⟩
          show ((s.put h (.consuming items .dequeue)).files h).items = (s.files h).queue
          rw [hfile, at_file]
          rfl
        · intro v g' e w he hown hv hstep
          obtain ⟨k, ev⟩ := e
          obtain rfl : k = h := hown
          exact hv.own hstep (pending _ he rfl)
        · intro v g' e w _ hother hv hstep
          exact hv.others hstep hother
      have hinvu : ∃ lost, Inv size pageSize lost u.account := by
        apply (run_fst during).invariant (fun s => ∃ lost, Inv size pageSize lost s.account)
        · exact hinv.step_lost henter
        · intro v e w hv hstep
          obtain ⟨lost, hinv⟩ := hv
          exact hinv.step_lost hstep
      obtain ⟨lost', hinv'⟩ := hinvu
      obtain ⟨lost'', hinv''⟩ := hinv'.step_lost last
      obtain ⟨hconsumer', hiff⟩ := haside.failed last
      exact ⟨hiff, hnext hinv'' hconsumer'⟩

/-- A consumer sleeps until a signal comes, which is after a message has
arrived and before the wake-up for it. -/
theorem getitem_failure_interrupted : ∃ s₀ s tr u t g,
    createBufferManager (fun _ => ⟨true, 0⟩) 1000 128 4 (fun _ => ⟨0, 0, 0⟩) = some s₀ ∧
    Run Step s₀ tr s ∧ FailedGetitem 1 s u t g .erestartsys ∧ t.queue 1 = [5] ∧
    t.queue 1 = g.queue ∧ ∀ b, (t.mem b).refcnt = g.refcnt b := by
  -- a producer and a consumer set up their contexts
  have hrun := @setUp_run (sevenPages 4) 0 (.setup (.ok 0)) .producer rfl rfl rfl
  have hrun := hrun.append (@setUp_run _ 1 (.setup (.ok 1)) .consumer rfl rfl rfl)
  -- the producer has a buffer and is about to publish it
  have hrun := hrun.append (@getBuffer_run _ 0 (.getbuf (some 100)) 100 6 _ 5 rfl rfl rfl
    (alloc_sevenPages 4) rfl (Finset.notMem_empty 5))
  have hrun := hrun.snoc
    (@Step.ioctlEntered _ 0 (some (.producer (some 5))) (.putbuf (some 768)) _ rfl rfl)
  obtain ⟨s, tr, hrun, hconsumer, u, t, g, hcall, hqueue, hat⟩ :
      ∃ s tr, Run Step (sevenPages 4) tr s ∧ (s.files 1).share.consumer = true ∧
        ∃ u t g, FailedGetitem 1 s u t g .erestartsys ∧ t.queue 1 = [5] ∧
          (u.files 1).copyFailed = false := by
    refine ⟨_, _, hrun, rfl, _, _, _, FailedGetitem.failed rfl rfl (Run.snoc (Run.snoc (Run.snoc
      (Run.snoc Run.nil (ShadowStep.mine (@Step.queueEmpty _ 1 rfl) rfl))
      (ShadowStep.mine (@Step.queueStillEmpty _ 1 rfl) rfl))
      (ShadowStep.others (@Step.publish _ 0 5 rfl rfl) (by decide)))
      (ShadowStep.others (@Step.deliver _ 0 1 5 [] 0 rfl) (by decide))) ?_
      (@Step.itemInterrupted _ 1 _ rfl), rfl, rfl⟩
    decide
  obtain ⟨hkept, -⟩ := getitem_failure (by decide) (by decide) (by decide) (by decide) rfl
    (create_sevenPages 4) hrun hconsumer hcall
  obtain ⟨hsame, hrefcnt⟩ := hkept.mpr hat
  exact ⟨_, s, tr, u, t, g, create_sevenPages 4, hrun, hcall, hqueue, hsame, hrefcnt⟩

/-- The copy to the user fails, and the message is gone. -/
theorem getitem_failure_copy_failed : ∃ s₀ s tr u t g,
    createBufferManager (fun _ => ⟨true, 0⟩) 1000 128 4 (fun _ => ⟨0, 0, 0⟩) = some s₀ ∧
    Run Step s₀ tr s ∧ FailedGetitem 1 s u t g .efault ∧ s.queue 1 = [5] ∧ g.queue = [5] ∧
    t.queue 1 = [] := by
  have hrun := @setUp_run (sevenPages 4) 0 (.setup (.ok 0)) .producer rfl rfl rfl
  have hrun := hrun.append (@setUp_run _ 1 (.setup (.ok 1)) .consumer rfl rfl rfl)
  -- a message for the consumer
  have hrun := hrun.append (@getBuffer_run _ 0 (.getbuf (some 100)) 100 6 _ 5 rfl rfl rfl
    (alloc_sevenPages 4) rfl (Finset.notMem_empty 5))
  have hrun := hrun.append (@putBuffer_run _ 0 1 (.putbuf (some 768)) 5 rfl rfl rfl rfl)
  refine ⟨_, _, _, _, _, _, create_sevenPages 4, hrun, FailedGetitem.failed rfl rfl
    (Run.snoc (Run.snoc Run.nil (ShadowStep.mine (@Step.take _ 1 5 [] (.inl rfl)) rfl))
      (ShadowStep.mine (@Step.itemCopyFailed _ 1 5 [] rfl) rfl)) ?_
      (@Step.undoItem _ 1 5 [] rfl rfl), rfl, rfl, rfl⟩
  decide

end Vmq

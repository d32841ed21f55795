import PiFrame.VmqReferences

/-!
# Producers asleep on `b_wq`

A producer that finds the queue full, or the memory, sleeps on `mgr->b_wq`
until somebody wakes it to test its condition again.  So whoever removes a
buffer has to wake the queue.  `put_queue_item` does it in the section that
removes the buffer, and `vmq_release` of a consumer right after that section.
Three sections wake nobody: the end of a `put_buffer_item` that found no
consumer, the way out of a `VMQ_GETBUF` that cannot copy its answer, and the
`vmq_release` of a producer that still has a buffer.

`Driver.Attentive` is the absence of lost wake-ups.  It survives every step
that is `Careful`, which asks the three sections to remove no buffer that a
sleeping producer waits for, and no other.
-/

namespace Vmq

open BuddyAllocator Transition

/-- The task is asleep on `b_wq`. -/
def File.asleep : File → Bool
  | .producing (.waitCount _ asleep) => asleep
  | .producing (.waitPage _ asleep) => asleep
  | _ => false

/-- The conditions of the two waits of `get_buffer_item`. -/
def File.mayGoOn (mgr : VMQBufferManager) : File → Bool
  | .producing (.waitCount _ _) => mgr.bufItemCount.toInt < mgr.maxItemCount
  | .producing (.waitPage size _) => baHasRoom mgr.ba size
  | _ => true

/-- The task has been asleep since its last test, and its condition holds. -/
def File.overslept (mgr : VMQBufferManager) (f : File) : Bool :=
  f.asleep && f.mayGoOn mgr

namespace Driver

/-- A release has removed buffers and is on its way to wake everybody up. -/
def WakePending (s : Driver) : Prop :=
  ∃ k count, s.files k = .drained (count + 1)

/-- No wake-up was lost. -/
def Attentive (s : Driver) : Prop :=
  ∀ k, (s.files k).overslept s.mgr = true → s.WakePending

end Driver

/-- The buffer that is removed, with nobody woken, as a call leaves this
place. -/
def File.discards : File → Event → Option Addr
  | .producing (.undo b), .ret _ => some b
  | .producing (.fanOut b [] 0), .ret _ => some b
  | .releasing (.producer buffer), .left => buffer
  | _, _ => none

namespace Driver

/-- No sleeping producer waits for buffer `b` to be removed: the queue is not
just full, and the block of `b` makes no room where there is none. -/
structure Unawaited (s : Driver) (b : Addr) : Prop where
  count : ∀ k size, s.files k = .producing (.waitCount size true) →
    s.mgr.bufItemCount.toInt ≠ s.mgr.maxItemCount
  page : ∀ k size ba, s.files k = .producing (.waitPage size true) →
    baFree s.mgr.ba ((s.mem b).offset / s.mgr.pageSize) = some ba →
    baHasRoom ba size = true → baHasRoom s.mgr.ba size = true

/-- What is asked of the three sections. -/
def Careful (s : Driver) (e : Filp × Event) : Prop :=
  ∀ b, (s.files e.1).discards e.2 = some b → s.WakePending ∨ s.Unawaited b

/-- No buffer is removed while a producer waits for it, not even by a release
that will wake it up in a moment. -/
structure Undisturbed (s : Driver) (e : Filp × Event) : Prop where
  discards : ∀ b, (s.files e.1).discards e.2 = some b → s.Unawaited b
  release : ∀ items item, s.files e.1 = .releasing (.consumer items item) → e.2 = .left →
    (∀ k, (s.files k).asleep = false) ∨ (s.unrefAll (item.toList ++ items)).2 = 0

end Driver

variable {size pageSize : Nat} {lost : List (Nat × Nat)} {s t : Driver} {h k : Filp} {b : Addr}

theorem File.asleep_of_overslept {mgr : VMQBufferManager} {f : File}
    (hf : f.overslept mgr = true) : f.asleep = true :=
  (Bool.and_eq_true_iff.mp hf).1

/-- Nobody waits when nobody sleeps. -/
theorem unawaited_of_awake (hawake : ∀ k, (s.files k).asleep = false) : s.Unawaited b := by
  constructor
  · intro k n hfile
    have hk := hawake k
    rw [hfile] at hk
    cases hk
  · intro k n ba hfile
    have hk := hawake k
    rw [hfile] at hk
    cases hk

/-- The two places where a task sleeps. -/
theorem File.asleep_cases {f : File} (hf : f.asleep = true) :
    ∃ size, f = .producing (.waitCount size true) ∨ f = .producing (.waitPage size true) := by
  unfold File.asleep at hf
  split at hf
  · exact ⟨_, .inl (by rw [hf])⟩
  · exact ⟨_, .inr (by rw [hf])⟩
  · cases hf

@[simp] theorem asleep_wakeProducer (f : File) : f.wakeProducer.asleep = false := by
  cases f with
  | producing call => cases call <;> rfl
  | _ => rfl

/-- A producer that sleeps is not woken with the consumers. -/
@[simp] theorem asleep_wakeConsumer (f : File) : f.wakeConsumer.asleep = f.asleep := by
  unfold File.wakeConsumer
  split <;> rfl

/-- Waking the consumers does not help a producer that oversleeps. -/
@[simp] theorem overslept_wakeConsumer (mgr : VMQBufferManager) (f : File) :
    f.wakeConsumer.overslept mgr = f.overslept mgr := by
  unfold File.wakeConsumer
  split <;> rfl

/-- A delivery to a consumer does not help a producer that oversleeps. -/
@[simp] theorem overslept_enqueue (mgr : VMQBufferManager) (f : File) :
    (f.enqueue b).overslept mgr = f.overslept mgr := by
  unfold File.enqueue
  split <;> rfl

/-! ## Removing buffers -/

/-- What `remove_buffer_item` does to the manager: the block is freed, and there is one buffer
less. -/
theorem Inv.removed (hinv : Inv size pageSize lost s.account) (hb : b ∈ s.live) :
    ∃ ba, baFree s.mgr.ba ((s.mem b).offset / s.mgr.pageSize) = some ba ∧
      (s.removeBufferItem b).mgr.ba = ba ∧
      (s.removeBufferItem b).mgr.maxItemCount = s.mgr.maxItemCount ∧
      (s.removeBufferItem b).mgr.bufItemCount.toInt = s.mgr.bufItemCount.toInt - 1 := by
  have hlease : s.account.lease (.inl b) =
      some ((s.mem b).offset / s.mgr.pageSize, (s.mem b).size) := by
    simp [Account.lease, Driver.account, hb]
  obtain ⟨ba, hfree, -⟩ := hinv.leases.free (t := .inl (.inl b)) hlease
  simp only at hfree
  have hfree' : baFree s.mgr.ba ((s.mem b).offset / s.mgr.pageSize) = some ba := hfree
  have hcount : s.mgr.bufItemCount.toInt = s.live.card := hinv.count_toInt
  have hlt : s.live.card < 2 ^ 31 := hinv.card_lt
  have hpos := Finset.card_pos.mpr ⟨b, hb⟩
  have hremove : (s.removeBufferItem b).mgr = { s.mgr with
      ba
      bufItemCount := s.mgr.bufItemCount - 1
      bufItemRemoveCount := s.mgr.bufItemRemoveCount + 1 } := by
    simp only [Driver.removeBufferItem, hfree']
  rw [hremove]
  refine ⟨ba, hfree', rfl, rfl, ?_⟩
  have hone : (1 : BitVec 32).toInt = 1 := rfl
  simp only [BitVec.toInt_sub, hcount, hone]
  exact Int.bmod_eq_of_le (by omega) (by omega)

/-- A producer whose condition comes true by the removal was waiting for it. -/
theorem Inv.overslept_removed (hinv : Inv size pageSize lost s.account) (hb : b ∈ s.live)
    (hk : (s.files k).overslept (s.removeBufferItem b).mgr = true) :
    (s.files k).overslept s.mgr = true ∨ ¬ s.Unawaited b := by
  obtain ⟨ba, hfree, hba, hmax, hcount⟩ := hinv.removed hb
  by_contra hnot
  obtain ⟨hbefore, huna⟩ := not_or.mp hnot
  have hun := not_not.mp huna
  obtain ⟨n, hfile | hfile⟩ := File.asleep_cases (File.asleep_of_overslept hk)
  · have hne := hun.count k n hfile
    simp only [hfile, File.overslept, File.asleep, File.mayGoOn, Bool.true_and,
      decide_eq_true_eq] at hk hbefore
    omega
  · have hroom := hun.page k n ba hfile hfree
    simp only [hfile, File.overslept, File.asleep, File.mayGoOn, Bool.true_and, hba] at hk hbefore
    exact hbefore (hroom hk)

/-- Unless a reference was the last one, `unref_buffer` leaves the manager
alone. -/
theorem unrefBuffer_kept (hkept : (s.unrefBuffer b).2 = false) :
    (s.unrefBuffer b).1.mgr = s.mgr := by
  by_cases hlast : (s.mem b).refcnt = 1
  · rw [unrefBuffer_last hlast] at hkept
    cases hkept
  · rw [unrefBuffer_more hlast]
    rfl

/-- If the loop has freed nothing, the manager is as it was. -/
theorem unrefAll_kept (items : List Addr) (hkept : (s.unrefAll items).2 = 0) :
    (s.unrefAll items).1.mgr = s.mgr := by
  induction items generalizing s with
  | nil => rfl
  | cons b items ih =>
      simp only [Driver.unrefAll, Nat.add_eq_zero_iff, Bool.toNat_eq_zero] at hkept ⊢
      rw [ih hkept.2]
      exact unrefBuffer_kept hkept.1

/-! ## Steps -/

/-- A task that moves on without falling asleep in vain leaves the others as
they were. -/
theorem overslept_of_update {mgr : VMQBufferManager} {g : File} (hg : g.overslept mgr = false)
    (hk : (Function.update s.files h g k).overslept mgr = true) :
    (s.files k).overslept mgr = true := by
  by_cases hkh : k = h
  · rw [hkh, Function.update_self, hg] at hk
    cases hk
  · rw [Function.update_of_ne hkh] at hk
    exact hk

/-- An ioctl that gets past its checks is not asleep. -/
theorem overslept_entered {ctxt : Option VMQContext} {call : Ioctl} {f : File}
    {mgr : VMQBufferManager} (hcall : vmqIoctl s ctxt call = some (.ok f)) :
    f.overslept mgr = false := by
  rcases vmqIoctl_entered hcall with ⟨type, -, rfl⟩ | ⟨n, -, rfl, -⟩ | ⟨b, -, rfl⟩ |
    ⟨items, -, rfl⟩ | ⟨items, b, -, rfl⟩ <;> rfl

/-- `put_queue_item` wakes the queue whenever it removes a buffer. -/
theorem overslept_putQueueItem
    (hk : ((s.putQueueItem b).files k).overslept (s.putQueueItem b).mgr = true) :
    (s.files k).overslept s.mgr = true := by
  unfold Driver.putQueueItem at hk
  cases hfreed : (s.unrefBuffer b).2 with
  | true =>
      have hasleep := File.asleep_of_overslept hk
      simp [hfreed, Driver.wakeProducers] at hasleep
  | false =>
      simp only [hfreed, Bool.false_eq_true, if_false] at hk
      rw [unrefBuffer_frame.1, unrefBuffer_kept hfreed] at hk
      exact hk

/-- A request that is answered helps nobody who sleeps. -/
theorem Inv.overslept_alloc (hinv : Inv size pageSize lost s.account) {n page : Nat}
    {ba : Allocator} (hwants : (s.files h).share.wants = some n)
    (halloc : baAlloc s.mgr.ba n = some (ba, some page))
    (hk : (s.files k).overslept { s.mgr with ba } = true) :
    (s.files k).overslept s.mgr = true := by
  obtain ⟨hpos, hle⟩ := hinv.wants h n hwants
  obtain ⟨m, hfile | hfile⟩ := File.asleep_cases (File.asleep_of_overslept hk)
  · simp only [hfile, File.overslept, File.asleep, File.mayGoOn, Bool.true_and] at hk ⊢
    exact hk
  · have hm := hinv.wants k m (by rw [shares_of_file hfile]; rfl)
    simp only [hfile, File.overslept, File.asleep, File.mayGoOn, Bool.true_and] at hk ⊢
    exact hinv.leases.room_of_alloc hpos hle halloc hm.1 hm.2 hk

/-- Neither does one more buffer. -/
theorem Inv.overslept_newBuffer (hinv : Inv size pageSize lost s.account) {n page : Nat}
    (ht : Inv size pageSize lost ((s.newBuffer b n page).put h (.producing (.copyOut b))).account)
    (hb : b ∉ s.live) (hk : (s.files k).overslept (s.newBuffer b n page).mgr = true) :
    (s.files k).overslept s.mgr = true := by
  obtain ⟨m, hfile | hfile⟩ := File.asleep_cases (File.asleep_of_overslept hk)
  · have hcount : s.mgr.bufItemCount.toInt = s.live.card := hinv.count_toInt
    have hcount' : (s.mgr.bufItemCount + 1).toInt = (insert b s.live).card := ht.count_toInt
    rw [Finset.card_insert_of_notMem hb] at hcount'
    simp only [hfile, File.overslept, File.asleep, File.mayGoOn, Bool.true_and,
      decide_eq_true_eq, Driver.newBuffer] at hk ⊢
    have hless := of_decide_eq_true hk
    omega
  · simp only [hfile, File.overslept, File.asleep, File.mayGoOn, Bool.true_and] at hk ⊢
    exact hk

/-- Who oversleeps after a delivery did so before. -/
theorem overslept_deliver {con : Filp} {mgr : VMQBufferManager}
    (hk : ((s.deliver b con).files k).overslept mgr = true) :
    (s.files k).overslept mgr = true := by
  by_cases hkc : k = con
  · subst hkc
    simpa [Driver.deliver, Driver.put, Driver.setRefcnt, Driver.touch] using hk
  · simpa [Driver.deliver, Driver.put, Driver.setRefcnt, Driver.touch, hkc] using hk

/-- A producer that is left alone still finds no pages, if it was not found any. -/
theorem Inv.overslept_pageStillMissing (hinv : Inv size pageSize lost s.account) {n : Nat}
    {ba : Allocator} (hfile : s.files h = .producing (.waitPage n false))
    (halloc : baAlloc s.mgr.ba n = some (ba, none))
    (hk : (Function.update s.files h (.producing (.waitPage n true)) k).overslept
      { s.mgr with ba } = true) : (s.files k).overslept s.mgr = true := by
  obtain ⟨hpos, hle⟩ := hinv.wants h n (by rw [shares_of_file hfile]; rfl)
  obtain rfl := hinv.leases.alloc_none hpos hle halloc
  refine overslept_of_update ?_ hk
  simp [File.overslept, File.asleep, File.mayGoOn, baHasRoom, halloc]

/-- The end of a fan-out removes a buffer that no consumer got. -/
theorem Inv.overslept_endFanOut (hinv : Inv size pageSize lost s.account) (hb : b ∈ s.live)
    {count : Nat} (hk : ((s.endFanOut b count).files k).overslept (s.endFanOut b count).mgr = true) :
    (s.files k).overslept s.mgr = true ∨ count = 0 ∧ ¬ s.Unawaited b := by
  unfold Driver.endFanOut at hk
  by_cases hzero : count = 0
  · rw [if_pos hzero] at hk
    simp only [removeBufferItem_frame.1] at hk
    exact (hinv.overslept_removed hb hk).imp_right fun hun => ⟨hzero, hun⟩
  · rw [if_neg hzero] at hk
    simp only [Driver.wakeConsumers, overslept_wakeConsumer] at hk
    exact .inl hk

/-- A consumer that leaves has its wake-up still before it, when it removed a buffer. -/
theorem overslept_releaseConsumer {items : List Addr} {item : Option Addr}
    (hk : ((s.releaseConsumer h items item).files k).overslept
      (s.releaseConsumer h items item).mgr = true) :
    (s.files k).overslept s.mgr = true ∨
      ∃ n, (s.unrefAll (item.toList ++ items)).2 = n + 1 ∧
        (s.releaseConsumer h items item).files h = .drained (n + 1) ∧
        (s.files k).asleep = true := by
  have hsection := releaseConsumer_eq (s := s) h items item
  have hk' := hk
  rw [hsection] at hk'
  have hbefore := overslept_of_update rfl hk'
  simp only [Driver.withConsumers, (unrefAll_frame _).1] at hbefore
  cases hcount : (s.unrefAll (item.toList ++ items)).2 with
  | zero =>
      rw [unrefAll_kept _ hcount] at hbefore
      exact .inl hbefore
  | succ n =>
      refine .inr ⟨n, rfl, ?_, File.asleep_of_overslept hbefore⟩
      rw [hsection, hcount]
      exact Function.update_self ..

/-- How a producer comes to oversleep: a section removed the buffer it was
waiting for, or a release is about to wake it up. -/
theorem Inv.overslept_step (hinv : Inv size pageSize lost s.account) {e : Filp × Event}
    (hstep : Step s e t) (hk : (t.files k).overslept t.mgr = true) :
    (s.files k).overslept s.mgr = true ∨
    (∃ b, (s.files e.1).discards e.2 = some b ∧ ¬ s.Unawaited b) ∨
    (∃ items item n, s.files e.1 = .releasing (.consumer items item) ∧ e.2 = .left ∧
      (s.unrefAll (item.toList ++ items)).2 = n + 1 ∧ t.files e.1 = .drained (n + 1) ∧
      (s.files k).asleep = true) := by
  cases hstep with
  | ioctlOops at_file outcome => exact .inl hk
  | ioctlRefused at_file outcome => exact .inl hk
  | ioctlEntered at_file outcome => exact .inl (overslept_of_update (overslept_entered outcome) hk)
  | roused =>
      refine .inl (overslept_of_update ?_ hk)
      rw [File.overslept, asleep_wakeConsumer, asleep_wakeProducer, Bool.false_and]
  | countContext at_file => exact .inl (overslept_of_update rfl hk)
  | @register h type at_file unlocked =>
      cases type with
      | producer => exact .inl (overslept_of_update rfl hk)
      | consumer => exact .inl (overslept_of_update rfl hk)
  | countPassed at_file test => exact .inl (overslept_of_update rfl hk)
  | countReached at_file test => exact .inl (overslept_of_update rfl hk)
  | countFell at_file test => exact .inl (overslept_of_update rfl hk)
  | countHeld at_file test =>
      refine .inl (overslept_of_update ?_ hk)
      simpa [File.overslept, File.asleep, File.mayGoOn] using test
  | countInterrupted at_file => exact .inl (overslept_of_update rfl hk)
  | @pageFound h n page ba at_file alloc =>
      have hwants : (s.files h).share.wants = some n := by
        rcases at_file with hfile | hfile <;> rw [hfile] <;> rfl
      exact .inl (hinv.overslept_alloc hwants alloc (overslept_of_update rfl hk))
  | @pageMissing h n ba at_file alloc =>
      obtain ⟨hpos, hle⟩ := hinv.wants h n (by rw [shares_of_file at_file]; rfl)
      obtain rfl := hinv.leases.alloc_none hpos hle alloc
      exact .inl (overslept_of_update rfl hk)
  | countFull at_file unlocked => exact .inl (overslept_of_update rfl hk)
  | pageStillMissing at_file alloc =>
      exact .inl (hinv.overslept_pageStillMissing at_file alloc hk)
  | pageInterrupted at_file => exact .inl (overslept_of_update rfl hk)
  | newItem at_file unlocked free =>
      have ht := hinv.step (Step.newItem at_file unlocked free) Event.noConfusion
      exact .inl (hinv.overslept_newBuffer ht free (overslept_of_update rfl hk))
  | newItemFailed at_file unlocked => exact .inl (overslept_of_update rfl hk)
  | bufferCopied at_file => exact .inl (overslept_of_update rfl hk)
  | bufferCopyFailed at_file => exact .inl (overslept_of_update rfl hk)
  | @undoBuffer h b at_file unlocked =>
      have hlive : b ∈ s.live := hinv.live_of_owned (h := h) (by rw [shares_of_file at_file]; rfl)
      have hk := overslept_of_update rfl hk
      rw [removeBufferItem_frame.1] at hk
      rcases hinv.overslept_removed hlive hk with hbefore | hun
      · exact .inl hbefore
      · exact .inr (.inl ⟨b, by rw [at_file]; rfl, hun⟩)
  | publish at_file unlocked => exact .inl (overslept_of_update rfl hk)
  | deliver at_file => exact .inl (overslept_deliver (overslept_of_update rfl hk))
  | deliverFailed at_file => exact .inl (overslept_of_update rfl hk)
  | @endFanOut h b count at_file =>
      have hlive : b ∈ s.live := hinv.live_of_owned (h := h) (by rw [shares_of_file at_file]; rfl)
      rcases hinv.overslept_endFanOut hlive (overslept_of_update rfl hk) with
        hbefore | ⟨rfl, hun⟩
      · exact .inl hbefore
      · exact .inr (.inl ⟨b, by rw [at_file]; rfl, hun⟩)
  | take at_file => exact .inl (overslept_of_update rfl hk)
  | queueEmpty at_file => exact .inl (overslept_of_update rfl hk)
  | queueStillEmpty at_file => exact .inl (overslept_of_update rfl hk)
  | itemInterrupted at_file => exact .inl (overslept_of_update rfl hk)
  | itemCopied at_file => exact .inl (overslept_of_update rfl hk)
  | itemCopyFailed at_file => exact .inl (overslept_of_update rfl hk)
  | undoItem at_file unlocked =>
      exact .inl (overslept_putQueueItem (overslept_of_update rfl hk))
  | putItem at_file unlocked =>
      exact .inl (overslept_putQueueItem (overslept_of_update rfl hk))
  | releaseUnused at_file => exact .inl (overslept_of_update rfl hk)
  | release at_file => exact .inl (overslept_of_update rfl hk)
  | @releaseConsumer h items item at_file unlocked =>
      rcases overslept_releaseConsumer hk with hbefore | ⟨n, hcount, hdrained, hasleep⟩
      · exact .inl hbefore
      · exact .inr (.inr ⟨items, item, n, at_file, rfl, hcount, hdrained, hasleep⟩)
  | @releaseProducer h buffer at_file unlocked =>
      cases buffer with
      | none => exact .inl (overslept_of_update rfl hk)
      | some b =>
          have hlive : b ∈ s.live :=
            hinv.live_of_owned (h := h) (by rw [shares_of_file at_file]; rfl)
          have hk := overslept_of_update rfl hk
          simp only [removeBufferItem_frame.1] at hk
          rcases hinv.overslept_removed hlive hk with hbefore | hun
          · exact .inl hbefore
          · exact .inr (.inl ⟨b, by rw [at_file]; rfl, hun⟩)
  | @wakeDrained h count at_file =>
      have hk := overslept_of_update rfl hk
      split at hk
      · have hasleep := File.asleep_of_overslept hk
        simp [Driver.wakeProducers] at hasleep
      · exact .inl hk
  | dropContext at_file => exact .inl (overslept_of_update rfl hk)

/-- Either nothing was freed, or every producer has been woken. -/
theorem putQueueItem_files :
    (s.putQueueItem b).files = s.files ∨
      (s.putQueueItem b).files = fun k => (s.files k).wakeProducer := by
  unfold Driver.putQueueItem
  simp only
  split
  · right
    simp only [Driver.wakeProducers, unrefBuffer_frame.1]
  · exact .inl unrefBuffer_frame.1

/-- What a step does to the files of other tasks: it wakes them on one of the two queues, or it
appends an item. -/
theorem step_elsewhere {e : Filp × Event} (hstep : Step s e t) (hk : k ≠ e.1) :
    t.files k = s.files k ∨ t.files k = (s.files k).wakeProducer ∨
      t.files k = (s.files k).wakeConsumer ∨ ∃ b, t.files k = (s.files k).enqueue b := by
  have hput : ∀ (u : Driver) (f : File), (u.put e.1 f).files k = u.files k :=
    fun u f => Function.update_of_ne hk ..
  cases hstep with
  | ioctlOops at_file outcome => exact .inl rfl
  | ioctlRefused at_file outcome => exact .inl rfl
  | @register h type at_file unlocked => cases type <;> exact .inl (hput _ _)
  | undoBuffer at_file unlocked =>
      left
      rw [hput, removeBufferItem_frame.1]
  | @deliver h con b rest count at_file =>
      rw [hput]
      by_cases hkc : k = con
      · subst hkc
        exact .inr (.inr (.inr ⟨b, Function.update_self ..⟩))
      · exact .inl (Function.update_of_ne hkc ..)
  | @endFanOut h b count at_file =>
      rw [hput]
      unfold Driver.endFanOut
      by_cases hzero : count = 0
      · rw [if_pos hzero]
        exact .inl (congrFun removeBufferItem_frame.1 k)
      · rw [if_neg hzero]
        exact .inr (.inr (.inl rfl))
  | undoItem at_file unlocked =>
      rw [hput]
      rcases putQueueItem_files (s := s) with heq | heq
      · exact .inl (congrFun heq k)
      · exact .inr (.inl (congrFun heq k))
  | putItem at_file unlocked =>
      rw [hput]
      rcases putQueueItem_files (s := s) with heq | heq
      · exact .inl (congrFun heq k)
      · exact .inr (.inl (congrFun heq k))
  | @releaseConsumer h items item at_file unlocked =>
      left
      rw [releaseConsumer_eq, hput]
      exact congrFun (unrefAll_frame _).1 k
  | @releaseProducer h buffer at_file unlocked =>
      left
      cases buffer with
      | none => exact hput _ _
      | some b => exact (hput _ _).trans (congrFun removeBufferItem_frame.1 k)
  | @wakeDrained h count at_file =>
      rw [hput]
      split
      · exact .inr (.inl rfl)
      · exact .inl rfl
  | _ => exact .inl (hput _ _)

/-- A wake-up on its way is delivered, and then nobody is asleep, or it is still on its way. -/
theorem pending_step {e : Filp × Event} (hstep : Step s e t) (hpending : s.WakePending) :
    t.WakePending ∨ ∀ k, (t.files k).asleep = false := by
  obtain ⟨k, n, hfile⟩ := hpending
  by_cases hk : k = e.1
  · subst hk
    have hplace : ∀ f, s.files e.1 = f → f = .drained (n + 1) := fun f hf => hf.symm.trans hfile
    clear hfile
    cases hstep with
    | @roused h =>
        refine .inl ⟨h, n, (Function.update_self ..).trans ?_⟩
        rw [hplace _ rfl]
        rfl
    | pageFound at_file alloc => rcases at_file with hfile | hfile <;> cases hplace _ hfile
    | take at_file => rcases at_file with hfile | hfile <;> cases hplace _ hfile
    | @wakeDrained h count at_file =>
        right
        intro k
        cases hplace _ at_file
        rw [if_pos n.succ_pos]
        by_cases hkh : k = h
        · have hput : (s.wakeProducers.put h .dropping).files k = .dropping := by
            rw [hkh]
            exact Function.update_self ..
          rw [hput]
          rfl
        · have hput : (s.wakeProducers.put h .dropping).files k = (s.files k).wakeProducer :=
            Function.update_of_ne hkh ..
          rw [hput]
          exact asleep_wakeProducer _
    | _ => cases hplace _ ‹s.files _ = _›
  · refine .inl ⟨k, n, ?_⟩
    rcases step_elsewhere hstep hk with heq | heq | heq | ⟨b, heq⟩ <;> rw [heq, hfile] <;> rfl

/-- A step that only goes on throws no buffer away. -/
theorem discards_run (f : File) : f.discards .run = none := by
  unfold File.discards
  split <;> simp_all

/-- The three sections that discard a buffer remove it and go on to a place
that is neither asleep nor about to wake anybody. -/
theorem discards_step {e : Filp × Event} (hstep : Step s e t)
    (hb : (s.files e.1).discards e.2 = some b) :
    ∃ f : File, (s.files e.1).asleep = false ∧ (∀ n, f ≠ .drained n) ∧
      t.files = Function.update s.files e.1 f ∧
      t.mgr.ba = (s.removeBufferItem b).mgr.ba ∧
      t.mgr.bufItemCount = (s.removeBufferItem b).mgr.bufItemCount ∧
      t.mgr.maxItemCount = (s.removeBufferItem b).mgr.maxItemCount := by
  have hplace : ∀ f, s.files e.1 = f → f.discards e.2 = some b := fun f hf => hf ▸ hb
  clear hb
  have hput : ∀ (u : Driver) (f : File), u.files = s.files →
      (u.put e.1 f).files = Function.update s.files e.1 f := fun u f hu => by
    rw [Driver.put, hu]
  cases hstep with
  | roused => cases (discards_run _).symm.trans (hplace _ rfl)
  | pageFound at_file alloc => rcases at_file with hfile | hfile <;> cases hplace _ hfile
  | take at_file => rcases at_file with hfile | hfile <;> cases hplace _ hfile
  | undoBuffer at_file unlocked =>
      cases hplace _ at_file
      refine ⟨_, by rw [at_file]; rfl, ?_, hput _ _ removeBufferItem_frame.1, rfl, rfl, rfl⟩
      exact fun n => File.noConfusion
  | @endFanOut h b' count at_file =>
      have hdiscards := hplace _ at_file
      cases count with
      | succ n => cases hdiscards
      | zero =>
          cases hdiscards
          refine ⟨_, by rw [at_file]; rfl, ?_, hput _ _ removeBufferItem_frame.1, rfl, rfl, rfl⟩
          exact fun n => File.noConfusion
  | @releaseProducer h buffer at_file unlocked =>
      have hdiscards : buffer = some b := hplace _ at_file
      subst hdiscards
      refine ⟨_, by rw [at_file]; rfl, ?_, hput _ _ removeBufferItem_frame.1, rfl, rfl, rfl⟩
      exact fun n => File.noConfusion
  | _ => cases hplace _ ‹s.files _ = _›

/-! ## Runs -/

/-- A careful step of the driver. -/
def CarefulStep (s : Driver) (e : Filp × Event) (t : Driver) : Prop :=
  Step s e t ∧ s.Careful e

/-- A step that disturbs nobody's sleep. -/
def QuietStep (s : Driver) (e : Filp × Event) (t : Driver) : Prop :=
  Step s e t ∧ s.Undisturbed e

theorem careful_run : s.Careful (h, .run) := by
  intro b hb
  rw [discards_run] at hb
  cases hb

/-- A careful run can go on with a step that only goes on. -/
theorem careful_snoc {s₀ : Driver} {tr : List (Filp × Event)} (hrun : Run CarefulStep s₀ tr s)
    (hstep : Step s (h, .run) t) : Run CarefulStep s₀ (tr ++ [(h, .run)]) t :=
  hrun.snoc ⟨hstep, careful_run⟩

/-- The step lemma of the wake-ups: whoever may go on is awake, or will be woken by a call under
way. -/
theorem Inv.attentive_step (hinv : Inv size pageSize lost s.account) (hs : s.Attentive)
    {e : Filp × Event} (hstep : CarefulStep s e t) : t.Attentive := by
  intro k hk
  have hdeliver : s.WakePending → t.WakePending := by
    intro hpending
    rcases pending_step hstep.1 hpending with ht | hawake
    · exact ht
    · have hasleep := File.asleep_of_overslept hk
      rw [hawake k] at hasleep
      cases hasleep
  rcases hinv.overslept_step hstep.1 hk with hbefore | ⟨b, hb, hun⟩ |
    ⟨items, item, n, -, -, -, hdrained, -⟩
  · exact hdeliver (hs k hbefore)
  · exact hdeliver ((hstep.2 b hb).resolve_right hun)
  · exact ⟨e.1, n, hdrained⟩

/-- Where nobody oversleeps, an undisturbed step makes nobody do so. -/
theorem Inv.quiet_step (hinv : Inv size pageSize lost s.account)
    (hs : ∀ k, (s.files k).overslept s.mgr = false) {e : Filp × Event} (hstep : QuietStep s e t) :
    ∀ k, (t.files k).overslept t.mgr = false := by
  intro k
  rw [← Bool.not_eq_true]
  intro hk
  rcases hinv.overslept_step hstep.1 hk with hbefore | ⟨b, hb, hun⟩ |
    ⟨items, item, n, hfile, hleft, hcount, -, hasleep⟩
  · rw [hs k] at hbefore
    cases hbefore
  · exact hun (hstep.2.discards b hb)
  · rcases hstep.2.release items item hfile hleft with hawake | hzero
    · rw [hawake k] at hasleep
      cases hasleep
    · rw [hcount] at hzero
      cases hzero

/-- A discarded buffer is live. -/
theorem Inv.live_of_discards (hinv : Inv size pageSize lost s.account) {ev : Event}
    (hb : (s.files h).discards ev = some b) : b ∈ s.live := by
  apply hinv.live_of_owned (h := h)
  rw [show s.account.shares h = (s.files h).share from rfl, share_owned]
  unfold File.discards at hb
  split at hb
  · rename_i hfile
    rw [hfile]
    exact hb
  · rename_i hfile
    rw [hfile]
    exact hb
  · rename_i hfile
    rw [hfile]
    exact hb
  · cases hb

/-- A section that is not careful loses a wake-up: what it frees would let somebody go on who is
asleep, and it wakes nobody. -/
theorem Inv.careful_of_attentive (hinv : Inv size pageSize lost s.account) {e : Filp × Event}
    (hstep : Step s e t) (ht : t.Attentive) : s.Careful e := by
  intro b hb
  by_cases hpending : s.WakePending
  · exact .inl hpending
  right
  obtain ⟨f, hself, hnot, hfiles, hba, hcount, hmax⟩ := discards_step hstep hb
  obtain ⟨ba, hfree, hba', hmax', hcount'⟩ := hinv.removed (hinv.live_of_discards hb)
  have hsame : ∀ k, (s.files k).asleep = true → t.files k = s.files k := by
    intro k hk
    have hke : k ≠ e.1 := fun heq => by rw [heq, hself] at hk; cases hk
    rw [hfiles, Function.update_of_ne hke]
  have hnever : ∀ k, (s.files k).overslept t.mgr = false := by
    intro k
    rw [← Bool.not_eq_true]
    intro hk
    have hk' := hk
    rw [← hsame k (File.asleep_of_overslept hk)] at hk'
    obtain ⟨k', n, hdrained⟩ := ht k hk'
    rw [hfiles] at hdrained
    by_cases hke : k' = e.1
    · rw [hke, Function.update_self] at hdrained
      exact hnot _ hdrained
    · rw [Function.update_of_ne hke] at hdrained
      exact hpending ⟨k', n, hdrained⟩
  constructor
  · intro k n hfile heq
    have hk := hnever k
    simp only [hfile, File.overslept, File.asleep, File.mayGoOn, Bool.true_and,
      decide_eq_false_iff_not, hmax, hmax', hcount, hcount'] at hk
    omega
  · intro k n ba' hfile hfree' hroom
    obtain rfl : ba = ba' := Option.some.inj (hfree.symm.trans hfree')
    have hk := hnever k
    simp only [hfile, File.overslept, File.asleep, File.mayGoOn, Bool.true_and, hba, hba',
      hroom] at hk
    cases hk

/-- **Wake-ups.**  In a run of careful steps no wake-up is lost, and in a run
of quiet steps nobody oversleeps even for a moment.  Conversely a step that is
not careful always loses a wake-up. -/
theorem vmq_wakeups {m : Memory} {maxItemCount : Int} {mem : Addr → VMQBuffer} {s₀ : Driver}
    (hsize : size < 2 ^ 31) (hpage : 0 < pageSize) (hpage' : pageSize < 2 ^ 31)
    (hdvd : 128 ∣ pageSize) (hpast : (m (size / pageSize)).allocated = true)
    (hcreate : createBufferManager m size pageSize maxItemCount mem = some s₀) :
    (∀ tr s, Run CarefulStep s₀ tr s → s.Attentive) ∧
    (∀ tr s, Run QuietStep s₀ tr s → ∀ k, (s.files k).overslept s.mgr = false) ∧
    (∀ tr s e t, Run Step s₀ tr s → Step s e t → ¬ s.Careful e → ¬ t.Attentive) := by
  have hinv₀ : Inv size pageSize [] s₀.account :=
    Inv.create_manager hsize hpage hpage' hdvd hpast hcreate
  have hidle : ∀ k, (s₀.files k).overslept s₀.mgr = false := by
    obtain ⟨ba, -, rfl⟩ := Option.map_eq_some_iff.mp hcreate
    exact fun k => rfl
  refine ⟨fun tr s hrun => ?_, fun tr s hrun => ?_, fun tr s e t hrun hstep hcareless ht => ?_⟩
  · have hboth : (∃ lost, Inv size pageSize lost s.account) ∧ s.Attentive := by
      apply hrun.invariant (fun s => (∃ lost, Inv size pageSize lost s.account) ∧ s.Attentive)
      · refine ⟨⟨[], hinv₀⟩, fun k hk => ?_⟩
        rw [hidle k] at hk
        cases hk
      · intro s e t hs hstep
        obtain ⟨⟨lost, hinv⟩, hattentive⟩ := hs
        exact ⟨hinv.step_lost hstep.1, hinv.attentive_step hattentive hstep⟩
    exact hboth.2
  · have hboth : (∃ lost, Inv size pageSize lost s.account) ∧
        ∀ k, (s.files k).overslept s.mgr = false := by
      apply hrun.invariant (fun s => (∃ lost, Inv size pageSize lost s.account) ∧
        ∀ k, (s.files k).overslept s.mgr = false)
      · exact ⟨⟨[], hinv₀⟩, hidle⟩
      · intro s e t hs hstep
        obtain ⟨⟨lost, hinv⟩, hquiet⟩ := hs
        exact ⟨hinv.step_lost hstep.1, hinv.quiet_step hquiet hstep⟩
    exact hboth.2
  · obtain ⟨lost, hinv⟩ := Inv.run_lost hsize hpage hpage' hdvd hpast hcreate hrun
    exact hcareless (hinv.careful_of_attentive hstep ht)

/-- A `VMQ_GETBUF` that cannot copy its answer, with nobody asleep. -/
theorem vmq_wakeups_copy_failed : ∃ s₀ s tr,
    createBufferManager (fun _ => ⟨true, 0⟩) 1000 128 1 (fun _ => ⟨0, 0, 0⟩) = some s₀ ∧
    Run CarefulStep s₀ tr s ∧ tr.getLast? = some (0, .ret (some .efault)) ∧ s.Attentive := by
  have hrun : Run CarefulStep (sevenPages 1) [] _ := Run.nil
  have hrun := careful_snoc hrun (@Step.ioctlEntered _ 0 none (.setup (.ok 0)) _ rfl rfl)
  have hrun := careful_snoc hrun (@Step.countContext _ 0 .producer rfl)
  have hrun := hrun.snoc ⟨@Step.register _ 0 .producer rfl rfl, fun b hb => by cases hb⟩
  have hrun := careful_snoc hrun
    (@Step.ioctlEntered _ 0 (some (.producer none)) (.getbuf (some 100)) _ rfl rfl)
  have hrun := careful_snoc hrun (@Step.countPassed _ 0 100 rfl rfl)
  have hrun := careful_snoc hrun
    (@Step.pageFound _ 0 100 6 _ (.inl rfl) (alloc_sevenPages 1))
  have hrun := careful_snoc hrun (@Step.newItem _ 0 100 6 5 rfl rfl (Finset.notMem_empty 5))
  have hrun := hrun.snoc ⟨@Step.bufferCopyFailed _ 0 5 rfl, fun b hb => by cases hb⟩
  -- nobody is asleep when the buffer is removed
  have hrun := hrun.snoc ⟨@Step.undoBuffer _ 0 5 rfl rfl, fun b _ =>
    .inr (unawaited_of_awake fun k => by rcases k with _ | k <;> rfl)⟩
  obtain ⟨hcareful, -, -⟩ := vmq_wakeups (by decide) (by decide) (by decide) (by decide) rfl
    (create_sevenPages 1)
  exact ⟨_, _, _, create_sevenPages 1, hrun, rfl, hcareful _ _ hrun⟩

/-- The last free place of the queue is given back by a producer that found no
consumer, and the producer that waits for it sleeps on. -/
theorem vmq_wakeup_lost : ∃ s₀ s tr,
    createBufferManager (fun _ => ⟨true, 0⟩) 1000 128 1 (fun _ => ⟨0, 0, 0⟩) = some s₀ ∧
    Run Step s₀ tr s ∧ (s.files 1).overslept s.mgr = true ∧ ¬ s.WakePending := by
  -- two producers set up their contexts
  have hrun := @setUp_run (sevenPages 1) 0 (.setup (.ok 0)) .producer rfl rfl rfl
  have hrun := hrun.append (@setUp_run _ 1 (.setup (.ok 0)) .producer rfl rfl rfl)
  -- the first one gets the only buffer
  have hrun := hrun.append (@getBuffer_run _ 0 (.getbuf (some 100)) 100 6 _ 5 rfl rfl rfl
    (alloc_sevenPages 1) rfl (Finset.notMem_empty 5))
  -- the second one finds the queue full and falls asleep
  have hrun := hrun.snoc
    (@Step.ioctlEntered _ 1 (some (.producer none)) (.getbuf (some 100)) _ rfl rfl)
  have hrun := hrun.snoc (@Step.countReached _ 1 100 rfl rfl)
  have hrun := hrun.snoc (@Step.countHeld _ 1 100 rfl (by decide))
  -- the first one publishes to nobody
  have hrun := hrun.snoc
    (@Step.ioctlEntered _ 0 (some (.producer (some 5))) (.putbuf (some 768)) _ rfl rfl)
  have hrun := hrun.snoc (@Step.publish _ 0 5 rfl rfl)
  obtain ⟨s, tr, hrun, h0, h1, hcount, hmax, hnone⟩ : ∃ s tr, Run Step (sevenPages 1) tr s ∧
      s.files 0 = .producing (.fanOut 5 [] 0) ∧ s.files 1 = .producing (.waitCount 100 true) ∧
      s.mgr.bufItemCount.toInt = 1 ∧ s.mgr.maxItemCount = 1 ∧ ¬ s.WakePending := by
    refine ⟨_, _, hrun, rfl, rfl, rfl, rfl, ?_⟩
    rintro ⟨k, n, hk⟩
    rcases k with _ | _ | k <;> cases hk
  obtain ⟨lost, hinv⟩ := Inv.run_lost (by decide) (by decide) (by decide) (by decide) rfl
    (create_sevenPages 1) hrun
  have hdiscards : (s.files 0).discards (.ret none) = some 5 := by
    rw [h0]
    rfl
  obtain ⟨ba, -, -, hmax', hcount'⟩ := hinv.removed (hinv.live_of_discards hdiscards)
  refine ⟨_, _, _, create_sevenPages 1, hrun.snoc (Step.endFanOut h0), ?_, ?_⟩
  · have hfile : (((s.endFanOut 5 0).put 0 (.idle (some (.producer none)))).files 1) =
        .producing (.waitCount 100 true) :=
      (congrFun removeBufferItem_frame.1 1).trans h1
    rw [hfile]
    refine decide_eq_true (?_ : (s.removeBufferItem 5).mgr.bufItemCount.toInt <
      (s.removeBufferItem 5).mgr.maxItemCount)
    omega
  · rintro ⟨k, n, hk⟩
    have hother : (s.removeBufferItem 5).files = s.files := removeBufferItem_frame.1
    by_cases hk0 : k = 0
    · subst hk0
      cases hk
    · have hsame : (((s.endFanOut 5 0).put 0 (.idle (some (.producer none)))).files k) =
          s.files k := (Function.update_of_ne hk0 ..).trans (congrFun hother k)
      exact hnone ⟨k, n, hsame.symm.trans hk⟩

end Vmq

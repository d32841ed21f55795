import PiFrame.Headcount
import PiFrame.VmqWakeups

/-!
# The limit on buffers

`get_buffer_item` compares `bufItemCount` with `maxItemCount` before it looks
for a page, and increments it after.  Between the two the call holds a place
that nobody counts.  So the limit is kept by the live buffers together with
the calls that are past their test, and only as long as a call passes its
test while one place is left for it.  When it is not, every call that has its
page by then goes on to its buffer.
-/

namespace Vmq

open BuddyAllocator Headcount Transition

/-- The call is past its test of `bufItemCount` and has no buffer yet. -/
def File.admitted : File → Bool
  | .producing (.allocPage _) => true
  | .producing (.countFull _) => true
  | .producing (.waitPage _ _) => true
  | .producing (.newItem _ _) => true
  | _ => false

namespace Driver

/-- One more call may pass its test: the buffers, the calls past theirs and
this one do not exceed the limit. -/
def HasPlace (s : Driver) : Prop :=
  Covers (fun k => (s.files k).admitted = true) (s.mgr.maxItemCount - s.mgr.bufItemCount.toInt - 1)

/-- The places of the queue, taken by buffers or promised to calls. -/
def WithinLimit (s : Driver) : Prop :=
  Covers (fun k => (s.files k).admitted = true) (s.mgr.maxItemCount - s.mgr.bufItemCount.toInt)

end Driver

/-- A step that lets a call past its test only while there is a place. -/
def PlacedStep (s : Driver) (e : Filp × Event) (t : Driver) : Prop :=
  Step s e t ∧ ((s.files e.1).admitted = false → (t.files e.1).admitted = true → s.HasPlace)

variable {size pageSize : Nat} {lost : List (Nat × Nat)} {s t u : Driver} {h k : Filp} {b : Addr}

/-- A call that is woken has not passed its test by that. -/
theorem admitted_wakeProducer (f : File) : f.wakeProducer.admitted = f.admitted := by
  unfold File.wakeProducer
  split <;> rfl

/-- A consumer that is woken has passed no test of a producer. -/
theorem admitted_wakeConsumer (f : File) : f.wakeConsumer.admitted = f.admitted := by
  unfold File.wakeConsumer
  split <;> rfl

theorem admitted_enqueue (f : File) : (f.enqueue b).admitted = f.admitted := by
  unfold File.enqueue
  split <;> rfl

/-- No step moves the call of another task. -/
theorem admitted_elsewhere {e : Filp × Event} (hstep : Step s e t) (hk : k ≠ e.1) :
    (t.files k).admitted = (s.files k).admitted := by
  rcases step_elsewhere hstep hk with heq | heq | heq | ⟨b, heq⟩ <;> rw [heq]
  · exact admitted_wakeProducer _
  · exact admitted_wakeConsumer _
  · exact admitted_enqueue _

/-! ## Buffers come from calls that were admitted -/

/-- No buffer is added, and the limit is the same. -/
structure Shrinks (s t : Driver) : Prop where
  live : t.live ⊆ s.live
  limit : t.mgr.maxItemCount = s.mgr.maxItemCount

theorem Shrinks.refl : Shrinks s s :=
  ⟨Finset.Subset.refl _, rfl⟩

theorem Shrinks.trans (hst : Shrinks s t) (htu : Shrinks t u) : Shrinks s u :=
  ⟨htu.live.trans hst.live, htu.limit.trans hst.limit⟩

theorem shrinks_removeBufferItem : Shrinks s (s.removeBufferItem b) := by
  unfold Driver.removeBufferItem
  split
  · exact ⟨Finset.Subset.refl _, rfl⟩
  · exact ⟨Finset.erase_subset _ _, rfl⟩

theorem shrinks_setRefcnt (n : Int) : Shrinks s (s.setRefcnt b n) :=
  ⟨Finset.Subset.refl _, rfl⟩

theorem shrinks_unrefBuffer : Shrinks s (s.unrefBuffer b).1 := by
  by_cases hlast : (s.mem b).refcnt = 1
  · rw [unrefBuffer_last hlast]
    exact (shrinks_setRefcnt 0).trans shrinks_removeBufferItem
  · rw [unrefBuffer_more hlast]
    exact shrinks_setRefcnt _

/-- The loop over the items of a consumer adds no buffer. -/
theorem shrinks_unrefAll (items : List Addr) : Shrinks s (s.unrefAll items).1 := by
  induction items generalizing s with
  | nil => exact Shrinks.refl
  | cons b items ih =>
      simp only [Driver.unrefAll]
      exact shrinks_unrefBuffer.trans ih

/-- Giving up a reference and waking the producers adds no buffer. -/
theorem shrinks_putQueueItem : Shrinks s (s.putQueueItem b) := by
  unfold Driver.putQueueItem
  simp only
  split
  · exact shrinks_unrefBuffer.trans ⟨Finset.Subset.refl _, rfl⟩
  · exact shrinks_unrefBuffer

/-- The only step that adds a buffer is the end of `get_buffer_item`, for a call that has its
page. -/
theorem step_shrinks {e : Filp × Event} (hstep : Step s e t) :
    Shrinks s t ∨ ∃ n page b, s.files e.1 = .producing (.newItem n page) ∧ b ∉ s.live ∧
      t.files e.1 = .producing (.copyOut b) ∧ t.live = insert b s.live ∧
      t.mgr.maxItemCount = s.mgr.maxItemCount := by
  cases hstep with
  | ioctlOops at_file outcome => exact .inl Shrinks.refl
  | ioctlRefused at_file outcome => exact .inl Shrinks.refl
  | @register h type at_file unlocked =>
      cases type <;> exact .inl ⟨Finset.Subset.refl _, rfl⟩
  | @newItem h n page b at_file unlocked free =>
      exact .inr ⟨n, page, b, at_file, free, Function.update_self .., rfl, rfl⟩
  | undoBuffer at_file unlocked =>
      exact .inl ⟨shrinks_removeBufferItem.live, shrinks_removeBufferItem.limit⟩
  | @endFanOut h b count at_file =>
      left
      unfold Driver.endFanOut
      by_cases hzero : count = 0
      · rw [if_pos hzero]
        exact ⟨shrinks_removeBufferItem.live, shrinks_removeBufferItem.limit⟩
      · rw [if_neg hzero]
        exact ⟨Finset.Subset.refl _, rfl⟩
  | undoItem at_file unlocked => exact .inl ⟨shrinks_putQueueItem.live, shrinks_putQueueItem.limit⟩
  | putItem at_file unlocked => exact .inl ⟨shrinks_putQueueItem.live, shrinks_putQueueItem.limit⟩
  | @releaseConsumer h items item at_file unlocked =>
      left
      rw [releaseConsumer_eq]
      exact ⟨(shrinks_unrefAll _).live, (shrinks_unrefAll _).limit⟩
  | @releaseProducer h buffer at_file unlocked =>
      cases buffer with
      | none => exact .inl ⟨Finset.Subset.refl _, rfl⟩
      | some b => exact .inl ⟨shrinks_removeBufferItem.live, shrinks_removeBufferItem.limit⟩
  | wakeDrained at_file =>
      left
      split <;> exact ⟨Finset.Subset.refl _, rfl⟩
  | _ => exact .inl ⟨Finset.Subset.refl _, rfl⟩

/-! ## Runs -/

/-- A placed step keeps the queue within its limit: a call takes its place when it passes the
test, and its buffer takes over that place. -/
theorem Inv.withinLimit_step (hinv : Inv size pageSize lost s.account)
    (hs : s.WithinLimit) {e : Filp × Event} (hstep : PlacedStep s e t) : t.WithinLimit := by
  obtain ⟨hstep, hplace⟩ := hstep
  obtain ⟨lost', hinv'⟩ := hinv.step_lost hstep
  have hcount : s.mgr.bufItemCount.toInt = s.live.card := hinv.count_toInt
  have hcount' : t.mgr.bufItemCount.toInt = t.live.card := hinv'.count_toInt
  have helse : ∀ k, (t.files k).admitted = true →
      k = e.1 ∨ k ≠ e.1 ∧ (s.files k).admitted = true := by
    intro k hk
    by_cases hke : k = e.1
    · exact .inl hke
    · exact .inr ⟨hke, (admitted_elsewhere hstep hke).symm.trans hk⟩
  unfold Driver.WithinLimit at hs ⊢
  rcases step_shrinks hstep with hshrinks | ⟨n, page, b, hfile, hfree, hfile', hlive, hlimit⟩
  · have hcard := Finset.card_le_card hshrinks.live
    have hlimit := hshrinks.limit
    by_cases hbefore : (s.files e.1).admitted = true
    · refine (hs.mono fun k hk => ?_).le (by omega)
      rcases helse k hk with rfl | ⟨-, hk⟩
      · exact hbefore
      · exact hk
    · by_cases hafter : (t.files e.1).admitted = true
      · -- the call passes its test and takes a place
        have hroom := hplace (Bool.not_eq_true _ ▸ hbefore) hafter
        refine (hroom.enter (a := e.1) fun k hk => ?_).le (by omega)
        exact (helse k hk).imp_right And.right
      · refine (hs.mono fun k hk => ?_).le (by omega)
        rcases helse k hk with rfl | ⟨-, hk⟩
        · exact absurd hk hafter
        · exact hk
  · -- the place of the call becomes the place of its buffer
    have hcard := Finset.card_insert_of_notMem hfree
    rw [hlive] at hcount'
    refine (hs.leave (a := e.1) (by rw [hfile]; rfl) fun k hk => ?_).le (by omega)
    rcases helse k hk with rfl | hk
    · rw [hfile'] at hk
      cases hk
    · exact hk

/-- Calls that have their pages get their buffers one after the other, since nothing asks for
the limit again.  The induction is on the set of these calls. -/
theorem Inv.fill (hinv : Inv size pageSize lost s.account) (hfree : s.mgr.mutex = none)
    (calls : Finset Filp)
    (hcalls : ∀ h ∈ calls, ∃ n page, s.files h = .producing (.newItem n page)) :
    ∃ tr t, Run Step s tr t ∧
      t.mgr.bufItemCount.toInt = s.mgr.bufItemCount.toInt + calls.card := by
  induction calls using Finset.induction_on generalizing s with
  | empty => exact ⟨[], s, Run.nil, by simp⟩
  | insert h calls hnew ih =>
      obtain ⟨n, page, hfile⟩ := hcalls h (Finset.mem_insert_self ..)
      obtain ⟨b, hb⟩ := Infinite.exists_notMem_finset s.live
      have hstep := Step.newItem hfile hfree hb
      have hinv' := hinv.step hstep Event.noConfusion
      have hcount : s.mgr.bufItemCount.toInt = s.live.card := hinv.count_toInt
      have hcount' : (s.mgr.bufItemCount + 1).toInt = (insert b s.live).card := hinv'.count_toInt
      rw [Finset.card_insert_of_notMem hb] at hcount'
      obtain ⟨tr, t, hrun, ht⟩ := ih hinv' hfree (by
        intro k hk
        have hkh : k ≠ h := fun heq => hnew (heq ▸ hk)
        obtain ⟨n', page', hfile'⟩ := hcalls k (Finset.mem_insert_of_mem hk)
        exact ⟨n', page', (Function.update_of_ne hkh ..).trans hfile'⟩)
      refine ⟨_, t, (Run.single hstep).append hrun, ?_⟩
      rw [Finset.card_insert_of_notMem hnew, ht]
      show (s.mgr.bufItemCount + 1).toInt + _ = _
      omega

/-- **The limit.**  In a run of placed steps `bufItemCount` never exceeds
`maxItemCount`.  Conversely, from a state with more pages in the hands of
calls than there are places left, some run exceeds it. -/
theorem item_limit {m : Memory} {maxItemCount : Int} {mem : Addr → VMQBuffer} {s₀ : Driver}
    (hsize : size < 2 ^ 31) (hpage : 0 < pageSize) (hpage' : pageSize < 2 ^ 31)
    (hdvd : 128 ∣ pageSize) (hpast : (m (size / pageSize)).allocated = true)
    (hcreate : createBufferManager m size pageSize maxItemCount mem = some s₀)
    (hmax : 0 < maxItemCount) :
    (∀ tr s, Run PlacedStep s₀ tr s → s.mgr.bufItemCount.toInt ≤ maxItemCount) ∧
    (∀ tr s calls, Run Step s₀ tr s → s.mgr.mutex = none →
      (∀ h ∈ calls, ∃ n page, s.files h = .producing (.newItem n page)) →
      maxItemCount < s.mgr.bufItemCount.toInt + (calls : Finset Filp).card →
      ∃ tr' t, Run Step s tr' t ∧ maxItemCount < t.mgr.bufItemCount.toInt) := by
  have hinv₀ : Inv size pageSize [] s₀.account :=
    Inv.create_manager hsize hpage hpage' hdvd hpast hcreate
  refine ⟨fun tr s hrun => ?_, fun tr s calls hrun hfree hcalls hmore => ?_⟩
  · have hall : (∃ lost, Inv size pageSize lost s.account) ∧ s.WithinLimit ∧
        s.mgr.maxItemCount = maxItemCount := by
      apply hrun.invariant (fun s => (∃ lost, Inv size pageSize lost s.account) ∧ s.WithinLimit ∧
        s.mgr.maxItemCount = maxItemCount)
      · obtain ⟨ba, -, rfl⟩ := Option.map_eq_some_iff.mp hcreate
        refine ⟨⟨[], hinv₀⟩, (Covers.zero fun k hk => by cases hk).le ?_, rfl⟩
        exact (Int.sub_zero maxItemCount).symm ▸ hmax.le
      · intro s e t hs hstep
        obtain ⟨⟨lost, hinv⟩, hlimit, hsame⟩ := hs
        refine ⟨hinv.step_lost hstep.1, hinv.withinLimit_step hlimit hstep, ?_⟩
        rcases step_shrinks hstep.1 with hshrinks | ⟨n, page, b, -, -, -, -, hkept⟩
        · exact hshrinks.limit.trans hsame
        · exact hkept.trans hsame
    obtain ⟨-, hlimit, hsame⟩ := hall
    have hnonneg := hlimit.nonneg
    omega
  · obtain ⟨lost, hinv⟩ := Inv.run_lost hsize hpage hpage' hdvd hpast hcreate hrun
    obtain ⟨tr', t, hrun', ht⟩ := hinv.fill hfree calls hcalls
    exact ⟨tr', t, hrun', by omega⟩

/-- One producer gets the only buffer there may be. -/
theorem item_limit_one_producer : ∃ s₀ s tr,
    createBufferManager (fun _ => ⟨true, 0⟩) 1000 128 1 (fun _ => ⟨0, 0, 0⟩) = some s₀ ∧
    Run PlacedStep s₀ tr s ∧ s.files 0 = .idle (some (.producer (some 5))) ∧
    s.mgr.bufItemCount.toInt ≤ 1 := by
  have hrun : Run PlacedStep (sevenPages 1) [] _ := Run.nil
  have hrun := hrun.snoc ⟨@Step.ioctlEntered _ 0 none (.setup (.ok 0)) _ rfl rfl, fun _ => nofun⟩
  have hrun := hrun.snoc ⟨@Step.countContext _ 0 .producer rfl, fun _ => nofun⟩
  have hrun := hrun.snoc ⟨@Step.register _ 0 .producer rfl rfl, fun _ => nofun⟩
  have hrun := hrun.snoc
    ⟨@Step.ioctlEntered _ 0 (some (.producer none)) (.getbuf (some 100)) _ rfl rfl, fun _ => nofun⟩
  -- nobody else is past the test, and there is no buffer
  have hrun := hrun.snoc ⟨@Step.countPassed _ 0 100 rfl rfl, fun _ _ =>
    Covers.zero fun k => by rcases k with _ | k <;> exact nofun⟩
  have hrun := hrun.snoc ⟨@Step.pageFound _ 0 100 6 _ (.inl rfl) (alloc_sevenPages 1), nofun⟩
  have hrun := hrun.snoc ⟨@Step.newItem _ 0 100 6 5 rfl rfl (Finset.notMem_empty 5), nofun⟩
  have hrun := hrun.snoc ⟨@Step.bufferCopied _ 0 5 rfl, fun _ => nofun⟩
  obtain ⟨hlimit, -⟩ := item_limit (by decide) (by decide) (by decide) (by decide) rfl
    (create_sevenPages 1) (by decide)
  exact ⟨_, _, _, create_sevenPages 1, hrun, rfl, hlimit _ _ hrun⟩

/-- Two producers pass their tests before either has its buffer, and the queue
for one buffer holds two. -/
theorem item_limit_exceeded : ∃ s₀ s tr,
    createBufferManager (fun _ => ⟨true, 0⟩) 1000 128 1 (fun _ => ⟨0, 0, 0⟩) = some s₀ ∧
    Run Step s₀ tr s ∧ s.mgr.bufItemCount.toInt = 2 := by
  let r := (baAlloc firstAlloc.1 100).get (by decide +kernel)
  have hr : baAlloc firstAlloc.1 100 = some (r.1, some 4) := by
    have hpage : r.2 = some 4 := by decide +kernel
    rw [← hpage]
    exact (Option.some_get _).symm
  have hrun := @setUp_run (sevenPages 1) 0 (.setup (.ok 0)) .producer rfl rfl rfl
  have hrun := hrun.append (@setUp_run _ 1 (.setup (.ok 0)) .producer rfl rfl rfl)
  -- both find the queue empty
  have hrun := hrun.snoc
    (@Step.ioctlEntered _ 0 (some (.producer none)) (.getbuf (some 100)) _ rfl rfl)
  have hrun := hrun.snoc (@Step.countPassed _ 0 100 rfl rfl)
  have hrun := hrun.snoc
    (@Step.ioctlEntered _ 1 (some (.producer none)) (.getbuf (some 100)) _ rfl rfl)
  have hrun := hrun.snoc (@Step.countPassed _ 1 100 rfl rfl)
  have hrun := hrun.snoc (@Step.pageFound _ 0 100 6 _ (.inl rfl) (alloc_sevenPages 1))
  have hrun := hrun.snoc (@Step.pageFound _ 1 100 4 r.1 (.inl rfl) hr)
  have hrun := hrun.snoc (@Step.newItem _ 0 100 6 5 rfl rfl (Finset.notMem_empty 5))
  have hrun := hrun.snoc (@Step.newItem _ 1 100 4 7 rfl rfl (by decide))
  exact ⟨_, _, _, create_sevenPages 1, hrun, rfl⟩

end Vmq

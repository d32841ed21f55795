import PiFrame.Shadow
import PiFrame.VmqDelivery
import PiFrame.VmqWakeups

/-!
# A `VMQ_GETBUF` that fails

`vmq_getbuf` takes a block of pages, then a descriptor and a place in
`bufItemCount`, and it can fail before, between and after.  What it should
leave behind is the queue as the other tasks have made it meanwhile: the
`Surroundings` of the call, a shadow that follows their steps and not those of
the call.

As long as the call is under way the queue is its surroundings and what the
call has taken, `Driver.Beside`.  Every exit but one gives back just that.
-/

namespace Vmq

open AlignedTiling BuddyAllocator Shadow Transition

/-- The part of the queue that a `VMQ_GETBUF` takes from. -/
structure Surroundings where
  blocks : Set Block
  count : BitVec 32

/-- The surroundings undergo what happens to the queue from `s` to `t`. -/
def Surroundings.follow (g : Surroundings) (s t : Driver) : Surroundings where
  blocks := (g.blocks \ (allocatedBlocks s.mgr.ba \ allocatedBlocks t.mgr.ba)) ∪
    (allocatedBlocks t.mgr.ba \ allocatedBlocks s.mgr.ba)
  count := g.count + (t.mgr.bufItemCount - s.mgr.bufItemCount)

/-- The surroundings of a task that has taken nothing. -/
def Driver.surroundings (s : Driver) : Surroundings :=
  ⟨allocatedBlocks s.mgr.ba, s.mgr.bufItemCount⟩

/-- Steps beside the surroundings of task `h`. -/
abbrev BesideStep (h : Filp) :
    Driver × Surroundings → Filp × Event → Driver × Surroundings → Prop :=
  ShadowStep Step (fun e => e.1 = h) Surroundings.follow

/-- The call of the task returns with this step. -/
def Event.returns : Event → Bool
  | .ret _ => true
  | _ => false

/-- A `VMQ_GETBUF` of task `h`, made in `s`, returns `err` in `t`.  It is
refused at once, or it returns by a step from `u` after a run in which the
other tasks have made `g` of its surroundings. -/
inductive FailedGetbuf (h : Filp) (request : Option Int) (s : Driver) :
    Driver → Driver → Surroundings → Errno → Prop
  | refused {ctxt : Option VMQContext} {err : Errno} (at_file : s.files h = .idle ctxt)
      (outcome : vmqIoctl s ctxt (.getbuf request) = some (.error err)) :
      FailedGetbuf h request s s s s.surroundings err
  | failed {ctxt : Option VMQContext} {f : File} {tr : List (Filp × Event)} {u t : Driver}
      {g : Surroundings} {err : Errno} (at_file : s.files h = .idle ctxt)
      (outcome : vmqIoctl s ctxt (.getbuf request) = some (.ok f))
      (during : Run (BesideStep h) (s.put h f, s.surroundings) tr (u, g))
      (pending : ∀ e ∈ tr, e.1 = h → e.2.returns = false)
      (last : Step u (h, .ret (some err)) t) : FailedGetbuf h request s u t g err

/-- The file is inside `vmq_getbuf`, past its checks. -/
def File.inGetbuf : File → Bool
  | .producing (.testCount _) => true
  | .producing (.waitCount _ _) => true
  | .producing (.allocPage _) => true
  | .producing (.countFull _) => true
  | .producing (.waitPage _ _) => true
  | .producing (.newItem _ _) => true
  | .producing (.copyOut _) => true
  | .producing (.undo _) => true
  | _ => false

/-- The call stands before `alloc_buffer_item`, with its page. -/
def File.atNewItem : File → Bool
  | .producing (.newItem _ _) => true
  | _ => false

namespace Driver

/-- The block of a buffer. -/
def blockOf (s : Driver) (b : Addr) : Block :=
  leasedBlock s.mgr.pageSize ((s.mem b).offset / s.mgr.pageSize, (s.mem b).size)

/-- The block that the call has taken. -/
def takenBlock (s : Driver) : File → Option Block
  | .producing (.newItem n page) => some (leasedBlock s.mgr.pageSize (page, n))
  | .producing (.copyOut b) => some (s.blockOf b)
  | .producing (.undo b) => some (s.blockOf b)
  | _ => none

end Driver

/-- What the call has added to `bufItemCount`. -/
def File.takenCount : File → BitVec 32
  | .producing (.copyOut _) => 1
  | .producing (.undo _) => 1
  | _ => 0

/-- The queue is the surroundings of task `h` and what its call has taken. -/
structure Driver.Beside (s : Driver) (h : Filp) (g : Surroundings) : Prop where
  call : (s.files h).inGetbuf = true
  apart : ∀ c ∈ s.takenBlock (s.files h), c ∉ g.blocks
  blocks : ∀ c, c ∈ allocatedBlocks s.mgr.ba ↔ c ∈ s.takenBlock (s.files h) ∨ c ∈ g.blocks
  count : s.mgr.bufItemCount = g.count + (s.files h).takenCount

variable {size pageSize : Nat} {lost : List (Nat × Nat)} {s t u : Driver} {h : Filp} {b : Addr}
  {g : Surroundings}

/-! ## Steps of the others -/

/-- Nobody changes the offset and the length of a buffer that is live. -/
theorem step_message {e : Filp × Event} (hstep : Step s e t) (hb : b ∈ s.live) :
    t.message b = s.message b := by
  cases hstep with
  | ioctlOops at_file outcome => rfl
  | ioctlRefused at_file outcome => rfl
  | @register h type at_file unlocked => cases type <;> rfl
  | @newItem h n page c at_file unlocked free =>
      have hne : b ≠ c := fun heq => free (heq ▸ hb)
      simp [Driver.message, Driver.newBuffer, Driver.put, hne]
  | undoBuffer at_file unlocked => exact message_removeBufferItem b
  | @deliver h con c rest count at_file => exact message_setRefcnt _ b
  | @endFanOut h c count at_file =>
      show (s.endFanOut c count).message b = s.message b
      unfold Driver.endFanOut
      by_cases hzero : count = 0
      · rw [if_pos hzero]
        exact message_removeBufferItem b
      · rw [if_neg hzero]
        rfl
  | undoItem at_file unlocked => exact Kept.putQueueItem.message (c := 0) b hb
  | putItem at_file unlocked => exact Kept.putQueueItem.message (c := 0) b hb
  | @releaseConsumer h items item at_file unlocked =>
      rw [releaseConsumer_eq]
      exact message_unrefAll _ b
  | @releaseProducer h buffer at_file unlocked =>
      cases buffer with
      | none => rfl
      | some c => exact message_removeBufferItem b
  | wakeDrained at_file => split <;> rfl
  | _ => rfl

/-- The lease of a live buffer is what its descriptor says. -/
theorem lease_of_live (hb : b ∈ s.live) : s.account.lease (.inl b) =
    some ((s.mem b).offset / s.mgr.pageSize, (s.mem b).size) :=
  if_pos hb

/-- The block that a call has taken is allocated, as a page of its own or as that of its buffer. -/
theorem Inv.taken_allocated (hinv : Inv size pageSize lost s.account) {c : Block}
    (hc : c ∈ s.takenBlock (s.files h)) : c ∈ allocatedBlocks s.mgr.ba := by
  have hps : s.mgr.pageSize = pageSize := hinv.geometry.2.1
  have howned : ∀ b, (s.files h).share.owned = some b → s.blockOf b ∈ allocatedBlocks s.mgr.ba := by
    intro b hb
    have hlive : b ∈ s.live := hinv.live_of_owned (h := h) hb
    exact hinv.leases.mem_allocatedBlocks.mpr
      ⟨.inl (.inl b), _, lease_of_live hlive, by rw [← hps]; rfl⟩
  unfold Driver.takenBlock at hc
  split at hc
  · rename_i n page hfile
    obtain rfl := Option.some.inj hc
    refine hinv.leases.mem_allocatedBlocks.mpr ⟨.inl (.inr h), (page, n), ?_, by rw [← hps]⟩
    show (s.files h).share.page = _
    rw [hfile]
    rfl
  · rename_i b hfile
    obtain rfl := Option.some.inj hc
    exact howned b (by rw [hfile]; rfl)
  · rename_i b hfile
    obtain rfl := Option.some.inj hc
    exact howned b (by rw [hfile]; rfl)
  · cases hc

/-- A call that is woken is where it was, with what it had. -/
theorem inGetbuf_wake (f : File) : f.wakeProducer.inGetbuf = f.inGetbuf ∧
    f.wakeProducer.takenCount = f.takenCount ∧ s.takenBlock f.wakeProducer = s.takenBlock f := by
  unfold File.wakeProducer
  split <;> exact ⟨rfl, rfl, rfl⟩

/-- A call of `vmq_getbuf` is not moved by the others, and keeps what it has: at most it is
woken. -/
theorem getbuf_elsewhere {e : Filp × Event} (hstep : Step s e t) (he : h ≠ e.1)
    (hcall : (s.files h).inGetbuf = true) : (t.files h).inGetbuf = true ∧
      (t.files h).takenCount = (s.files h).takenCount ∧
      ∀ u : Driver, u.takenBlock (t.files h) = u.takenBlock (s.files h) := by
  have hfile : t.files h = s.files h ∨ t.files h = (s.files h).wakeProducer := by
    rcases step_elsewhere hstep he with heq | heq | heq | ⟨b, heq⟩
    · exact .inl heq
    · exact .inr heq
    · left
      rw [heq]
      unfold File.wakeConsumer
      split
      · rename_i hconsuming
        rw [hconsuming] at hcall
        cases hcall
      · rfl
    · left
      rw [heq]
      unfold File.enqueue
      split
      · rename_i hconsuming
        rw [hconsuming] at hcall
        cases hcall
      · rename_i hconsuming
        rw [hconsuming] at hcall
        cases hcall
      · rename_i hconsuming
        rw [hconsuming] at hcall
        cases hcall
      · rfl
  rcases hfile with heq | heq
  · rw [heq]
    exact ⟨hcall, rfl, fun _ => rfl⟩
  · rw [heq]
    refine ⟨?_, (inGetbuf_wake (s := s) _).2.1, fun u => (inGetbuf_wake _).2.2⟩
    rw [(inGetbuf_wake (s := s) _).1, hcall]

/-- The others leave the blocks of the buffers alone. -/
theorem blockOf_step (hinv : Inv size pageSize lost s.account) {e : Filp × Event}
    (hstep : Step s e t) (hb : b ∈ s.live) : t.blockOf b = s.blockOf b := by
  obtain ⟨lost', hinv'⟩ := hinv.step_lost hstep
  have hpage : t.mgr.pageSize = s.mgr.pageSize := hinv'.geometry.2.1.trans hinv.geometry.2.1.symm
  have hmsg := step_message hstep hb
  simp only [Driver.message, Message.mk.injEq, true_and] at hmsg
  unfold Driver.blockOf
  rw [hpage, hmsg.1, hmsg.2]

/-- A step of another task: the surroundings follow, and the call keeps what
it has taken. -/
theorem Driver.Beside.others (hs : s.Beside h g) (hinv : Inv size pageSize lost s.account)
    {e : Filp × Event} (hstep : Step s e t) (he : e.1 ≠ h) : t.Beside h (g.follow s t) := by
  obtain ⟨lost', hinv'⟩ := hinv.step_lost hstep
  obtain ⟨hcall, hcount, hblock⟩ := getbuf_elsewhere hstep he.symm hs.call
  have hpage : t.mgr.pageSize = s.mgr.pageSize := hinv'.geometry.2.1.trans hinv.geometry.2.1.symm
  have htaken : t.takenBlock (t.files h) = s.takenBlock (s.files h) := by
    rw [hblock]
    unfold Driver.takenBlock
    split
    · rw [hpage]
    · rename_i b hfile
      rw [blockOf_step hinv hstep (hinv.live_of_owned (h := h) (by rw [shares_of_file hfile]; rfl))]
    · rename_i b hfile
      rw [blockOf_step hinv hstep (hinv.live_of_owned (h := h) (by rw [shares_of_file hfile]; rfl))]
    · rfl
  have hkept : ∀ c ∈ s.takenBlock (s.files h), c ∈ allocatedBlocks t.mgr.ba := by
    intro c hc
    exact hinv'.taken_allocated (htaken.symm ▸ hc)
  have hmem : ∀ c, c ∈ (g.follow s t).blocks ↔
      c ∈ g.blocks ∧ ¬ (c ∈ allocatedBlocks s.mgr.ba ∧ c ∉ allocatedBlocks t.mgr.ba) ∨
        c ∈ allocatedBlocks t.mgr.ba ∧ c ∉ allocatedBlocks s.mgr.ba := fun c => Iff.rfl
  refine ⟨hcall, fun c hc => ?_, fun c => ?_, ?_⟩
  · rw [htaken] at hc
    have hapart := hs.apart c hc
    have hold := hs.blocks c
    rw [hmem]
    grind
  · rw [htaken, hmem]
    have hapart := hs.apart c
    have hold := hs.blocks c
    have hkept := hkept c
    grind
  · have hold := hs.count
    simp only [Surroundings.follow, hcount]
    bv_omega

/-! ## Steps of the call -/

/-- A call that goes on and takes nothing more. -/
theorem Driver.Beside.same (hs : s.Beside h g) {f : File} (hcall : f.inGetbuf = true)
    (hblock : s.takenBlock f = s.takenBlock (s.files h))
    (hcount : f.takenCount = (s.files h).takenCount) : (s.put h f).Beside h g := by
  have hput : (s.put h f).files h = f := Function.update_self ..
  have htaken : (s.put h f).takenBlock f = s.takenBlock f := by
    unfold Driver.takenBlock
    split <;> rfl
  constructor
  · rw [hput, hcall]
  · rw [hput, htaken, hblock]
    exact hs.apart
  · rw [hput, htaken, hblock]
    exact hs.blocks
  · rw [hput, hcount]
    exact hs.count

/-- `ba_alloc` has answered: the call has the block now.  It was not among the allocated ones, so
the surroundings are what they were. -/
theorem Driver.Beside.pageFound (hs : s.Beside h g) (hinv : Inv size pageSize lost s.account)
    {n page : Nat} {ba : Allocator}
    (at_file : s.files h = .producing (.allocPage n) ∨ s.files h = .producing (.waitPage n false))
    (alloc : baAlloc s.mgr.ba n = some (ba, some page)) :
    Driver.Beside ({ s with mgr := { s.mgr with ba } }.put h (.producing (.newItem n page))) h g := by
  have hps : s.mgr.pageSize = pageSize := hinv.geometry.2.1
  have hsh : s.account.shares h = { wants := some n } := by
    rcases at_file with hfile | hfile <;> exact shares_of_file hfile
  obtain ⟨hpos, hle⟩ := hinv.wants h n (by rw [hsh])
  have hnone : withLost s.account.lease lost (.inl (.inr h)) = none :=
    congrArg Share.page hsh
  have hleases := hinv.leases.alloc hnone hpos hle alloc
  obtain ⟨hnew, hblocks⟩ := hinv.leases.allocated_acquire hnone hleases
  have hold : s.takenBlock (s.files h) = none ∧ (s.files h).takenCount = 0 := by
    rcases at_file with hfile | hfile <;> rw [hfile] <;> exact ⟨rfl, rfl⟩
  have hput : ∀ c, c ∈ Driver.takenBlock ({ s with mgr := { s.mgr with ba } }.put h
      (.producing (.newItem n page))) (.producing (.newItem n page)) ↔
        c = leasedBlock pageSize (page, n) := by
    intro c
    rw [← hps]
    exact Option.some_inj.trans eq_comm
  have hsame : ∀ c, c ∈ allocatedBlocks s.mgr.ba ↔ c ∈ g.blocks := by
    intro c
    have hc := hs.blocks c
    rw [hold.1] at hc
    exact hc.trans (or_iff_right nofun)
  have hfile' : (({ s with mgr := { s.mgr with ba } }.put h
      (.producing (.newItem n page))).files h) = .producing (.newItem n page) :=
    Function.update_self ..
  constructor
  · rw [hfile']
    rfl
  · intro c hc
    rw [hfile', hput] at hc
    rw [← hsame, hc]
    exact hnew
  · intro c
    rw [hfile', hput, ← hsame]
    exact Set.ext_iff.mp hblocks c
  · rw [hfile']
    exact hs.count.trans (by rw [hold.2]; rfl)

/-- The page becomes the page of the buffer, so the call has the same block as before, and the
buffer is one that it has taken. -/
theorem Driver.Beside.newItem (hs : s.Beside h g) (hinv : Inv size pageSize lost s.account)
    {n page : Nat} (at_file : s.files h = .producing (.newItem n page)) :
    Driver.Beside ((s.newBuffer b n page).put h (.producing (.copyOut b))) h g := by
  have hps : s.mgr.pageSize = pageSize := hinv.geometry.2.1
  have hpage : 0 < s.mgr.pageSize := hps ▸ hinv.geometry.2.2
  have hfile' : (((s.newBuffer b n page).put h (.producing (.copyOut b))).files h) =
      .producing (.copyOut b) := Function.update_self ..
  have hblock : ((s.newBuffer b n page).put h (.producing (.copyOut b))).takenBlock
      (.producing (.copyOut b)) = s.takenBlock (s.files h) := by
    rw [at_file]
    simp [Driver.takenBlock, Driver.blockOf, Driver.newBuffer, Driver.put,
      Nat.mul_div_cancel _ hpage]
  constructor
  · rw [hfile']
    rfl
  · rw [hfile', hblock]
    exact hs.apart
  · rw [hfile', hblock]
    exact hs.blocks
  · have hcount := hs.count
    rw [at_file] at hcount
    rw [hfile']
    exact congrArg (· + 1) (hcount.trans (BitVec.add_zero _))

/-- The steps of the call: none returns before it has given back everything it has taken.
Beside what the call has, the state is that of the surroundings all the time. -/
theorem Driver.Beside.own (hs : s.Beside h g) (hinv : Inv size pageSize lost s.account)
    {ev : Event} (hstep : Step s (h, ev) t) (hev : ev.returns = false) : t.Beside h g := by
  have hcall : ∀ f, s.files h = f → f.inGetbuf = true := fun f hf => hf ▸ hs.call
  cases hstep with
  | roused =>
      have hconsumer : (s.files h).wakeProducer.wakeConsumer = (s.files h).wakeProducer := by
        unfold File.wakeConsumer
        split
        · rename_i items asleep hfile
          have hwake := (inGetbuf_wake (s := s) (s.files h)).1
          rw [hfile, hs.call] at hwake
          cases hwake
        · rfl
      obtain ⟨hin, hcount, hblock⟩ := inGetbuf_wake (s := s) (s.files h)
      rw [hconsumer]
      exact hs.same (hin.trans hs.call) hblock hcount
  | countPassed at_file test => exact hs.same rfl (by rw [at_file]; rfl) (by rw [at_file]; rfl)
  | countReached at_file test => exact hs.same rfl (by rw [at_file]; rfl) (by rw [at_file]; rfl)
  | countFell at_file test => exact hs.same rfl (by rw [at_file]; rfl) (by rw [at_file]; rfl)
  | countHeld at_file test => exact hs.same rfl (by rw [at_file]; rfl) (by rw [at_file]; rfl)
  | pageFound at_file alloc => exact hs.pageFound hinv at_file alloc
  | @pageMissing _ n ba at_file alloc =>
      obtain ⟨hpos, hle⟩ := hinv.wants h n (by rw [shares_of_file at_file]; rfl)
      obtain rfl := hinv.leases.alloc_none hpos hle alloc
      exact hs.same rfl (by rw [at_file]; rfl) (by rw [at_file]; rfl)
  | countFull at_file unlocked =>
      have hs' : Driver.Beside
          { s with mgr := { s.mgr with bufFullCount := s.mgr.bufFullCount + 1 } } h g :=
        ⟨hs.call, hs.apart, hs.blocks, hs.count⟩
      exact hs'.same rfl (by rw [at_file]; rfl) (by rw [at_file]; rfl)
  | @pageStillMissing _ n ba at_file alloc =>
      obtain ⟨hpos, hle⟩ := hinv.wants h n (by rw [shares_of_file at_file]; rfl)
      obtain rfl := hinv.leases.alloc_none hpos hle alloc
      exact hs.same rfl (by rw [at_file]; rfl) (by rw [at_file]; rfl)
  | newItem at_file unlocked free => exact hs.newItem hinv at_file
  | bufferCopyFailed at_file => exact hs.same rfl (by rw [at_file]; rfl) (by rw [at_file]; rfl)
  | take at_file => rcases at_file with hfile | hfile <;> cases hcall _ hfile
  | _ => first | (cases hev; done) | cases hcall _ ‹s.files h = _›

/-- The last step of a call that fails gives back what was taken, unless it
is the one that finds no memory for a descriptor. -/
theorem Driver.Beside.failed (hs : s.Beside h g) (hinv : Inv size pageSize lost s.account)
    {err : Errno} (hstep : Step s (h, .ret (some err)) t) :
    t.files h = .idle (some (.producer none)) ∧
    ((allocatedBlocks t.mgr.ba = g.blocks ∧ t.mgr.bufItemCount = g.count) ↔
      (s.files h).atNewItem = false) := by
  have hcall : ∀ f, s.files h = f → f.inGetbuf = true := fun f hf => hf ▸ hs.call
  have hnone : s.takenBlock (s.files h) = none → (s.files h).takenCount = 0 →
      allocatedBlocks s.mgr.ba = g.blocks ∧ s.mgr.bufItemCount = g.count := by
    intro hblock hcount
    refine ⟨Set.ext fun c => ?_, ?_⟩
    · have hc := hs.blocks c
      rw [hblock] at hc
      exact hc.trans (or_iff_right nofun)
    · have hold := hs.count
      rw [hcount] at hold
      exact hold.trans (BitVec.add_zero _)
  cases hstep with
  | ioctlRefused at_file outcome => cases hcall _ at_file
  | countInterrupted at_file =>
      refine ⟨Function.update_self .., iff_of_true ?_ (by rw [at_file]; rfl)⟩
      exact hnone (by rw [at_file]; rfl) (by rw [at_file]; rfl)
  | pageInterrupted at_file =>
      refine ⟨Function.update_self .., iff_of_true ?_ (by rw [at_file]; rfl)⟩
      exact hnone (by rw [at_file]; rfl) (by rw [at_file]; rfl)
  | @newItemFailed _ n page at_file unlocked =>
      refine ⟨Function.update_self ..,
        iff_of_false (fun hkept => ?_) (by rw [at_file]; exact nofun)⟩
      -- the page is still allocated, and it is not one of the surroundings
      have hc : leasedBlock s.mgr.pageSize (page, n) ∈ s.takenBlock (s.files h) := by
        rw [at_file]
        rfl
      have hleak : leasedBlock s.mgr.pageSize (page, n) ∈ g.blocks :=
        hkept.1 ▸ hinv.taken_allocated hc
      exact hs.apart _ hc hleak
  | @undoBuffer _ b at_file unlocked =>
      refine ⟨Function.update_self .., iff_of_true ?_ (by rw [at_file]; rfl)⟩
      have hlive : b ∈ s.live := hinv.live_of_owned (h := h) (by rw [shares_of_file at_file]; rfl)
      have hps : s.mgr.pageSize = pageSize := hinv.geometry.2.1
      obtain ⟨ba, heq, hleases⟩ := removeBufferItem_eq hinv.leases hlive
      have hlease : withLost s.account.lease lost (.inl (.inl b)) = some _ := lease_of_live hlive
      rw [withLost_update] at hleases
      obtain ⟨hblocks, hgone⟩ := hinv.leases.allocated_release hlease hleases
      have htaken : ∀ c, c ∈ s.takenBlock (s.files h) ↔ c = s.blockOf b := by
        intro c
        rw [at_file]
        exact Option.some_inj.trans eq_comm
      have hblock : leasedBlock pageSize ((s.mem b).offset / s.mgr.pageSize, (s.mem b).size) =
          s.blockOf b := by
        rw [← hps]
        rfl
      rw [hblock] at hblocks hgone
      have hba : (s.removeBufferItem b).mgr.ba = ba := by rw [heq]
      have hcount : (s.removeBufferItem b).mgr.bufItemCount = s.mgr.bufItemCount - 1 := by rw [heq]
      constructor
      · show allocatedBlocks (s.removeBufferItem b).mgr.ba = g.blocks
        rw [hba]
        ext c
        have hc := hs.blocks c
        have hapart := hs.apart c
        have hsplit := Set.ext_iff.mp hblocks c
        rw [Set.mem_insert_iff] at hsplit
        rw [htaken] at hc hapart
        by_cases heq : c = s.blockOf b
        · exact iff_of_false (heq ▸ hgone) (hapart heq)
        · exact (hsplit.trans (or_iff_right heq)).symm.trans (hc.trans (or_iff_right heq))
      · have hold := hs.count
        rw [at_file] at hold
        show (s.removeBufferItem b).mgr.bufItemCount = g.count
        rw [hcount, hold]
        exact BitVec.add_sub_cancel _ _
  | undoItem at_file unlocked => cases hcall _ at_file
  | itemInterrupted at_file => cases hcall _ at_file

/-- Only a producer without a buffer gets past the checks. -/
theorem getbuf_entered {ctxt : Option VMQContext} {request : Option Int} {f : File}
    (hcall : vmqIoctl s ctxt (.getbuf request) = some (.ok f)) :
    ∃ n, ctxt = some (.producer none) ∧ f = .producing (.testCount n) := by
  rcases vmqIoctl_entered hcall with ⟨type, rfl, -⟩ | ⟨n, hctxt, hf, -⟩ | ⟨b, rfl, -⟩ |
    ⟨items, rfl, -⟩ | ⟨items, b, rfl, -⟩
  · cases hcall
  · exact ⟨n, hctxt, hf⟩
  · cases hcall
  · cases hcall
  · cases hcall

/-- **A failing `VMQ_GETBUF`.**  Whatever the other tasks do during the call,
when it returns an error `pro->buffer` is what it was, and the allocated blocks
and `bufItemCount` are what the others have made of them, if and only if the
call did not fail for want of a descriptor. -/
theorem getbuf_failure {m : Memory} {maxItemCount : Int} {mem : Addr → VMQBuffer} {s₀ : Driver}
    {tr : List (Filp × Event)} {request : Option Int} {err : Errno}
    (hsize : size < 2 ^ 31) (hpage : 0 < pageSize) (hpage' : pageSize < 2 ^ 31)
    (hdvd : 128 ∣ pageSize) (hpast : (m (size / pageSize)).allocated = true)
    (hcreate : createBufferManager m size pageSize maxItemCount mem = some s₀)
    (hrun : Run Step s₀ tr s) (hcall : FailedGetbuf h request s u t g err) :
    t.files h = s.files h ∧
    ((allocatedBlocks t.mgr.ba = g.blocks ∧ t.mgr.bufItemCount = g.count) ↔
      (u.files h).atNewItem = false) := by
  obtain ⟨lost, hinv⟩ := Inv.run_lost hsize hpage hpage' hdvd hpast hcreate hrun
  cases hcall with
  | refused at_file outcome =>
      refine ⟨rfl, iff_of_true ⟨rfl, rfl⟩ ?_⟩
      rw [at_file]
      rfl
  | @failed ctxt f tr' _ _ _ _ at_file outcome during pending last =>
      have henter := Step.ioctlEntered at_file outcome
      obtain ⟨n, hctxt, rfl⟩ := getbuf_entered outcome
      have hboth : (∃ lost, Inv size pageSize lost u.account) ∧ u.Beside h g := by
        refine run_invariant (fun s g => (∃ lost, Inv size pageSize lost s.account) ∧ s.Beside h g)
          ⟨hinv.step_lost henter, ?_⟩ ?_ ?_ during
        · have hfile : (s.put h (.producing (.testCount n))).files h = .producing (.testCount n) :=
            Function.update_self ..
          constructor
          · rw [hfile]
            rfl
          · rw [hfile]
            exact nofun
          · intro c
            rw [hfile]
            exact (or_iff_right nofun).symm
          · rw [hfile]
            exact (BitVec.add_zero _).symm
        · intro v g' e w he hown hv hstep
          obtain ⟨⟨lost, hinv⟩, hbeside⟩ := hv
          obtain ⟨k, ev⟩ := e
          obtain rfl : k = h := hown
          exact ⟨hinv.step_lost hstep, hbeside.own hinv hstep (pending _ he rfl)⟩
        · intro v g' e w _ hother hv hstep
          obtain ⟨⟨lost, hinv⟩, hbeside⟩ := hv
          exact ⟨hinv.step_lost hstep, hbeside.others hinv hstep hother⟩
      obtain ⟨⟨lost, hinv⟩, hbeside⟩ := hboth
      obtain ⟨hfile, hiff⟩ := hbeside.failed hinv last
      exact ⟨by rw [hfile, at_file, hctxt], hiff⟩

/-- The answer cannot be copied to the user, and the buffer is given back. -/
theorem getbuf_failure_copy_failed : ∃ s₀ s tr u t g,
    createBufferManager (fun _ => ⟨true, 0⟩) 1000 128 0 (fun _ => ⟨0, 0, 0⟩) = some s₀ ∧
    Run Step s₀ tr s ∧ FailedGetbuf 0 (some 100) s u t g .efault ∧
    allocatedBlocks t.mgr.ba = g.blocks ∧ t.mgr.bufItemCount = g.count := by
  have hrun := @setUp_run (sevenPages 0) 0 (.setup (.ok 0)) .producer rfl rfl rfl
  obtain ⟨s, tr, hrun, u, t, g, hcall, hat⟩ : ∃ s tr, Run Step (sevenPages 0) tr s ∧
      ∃ u t g, FailedGetbuf 0 (some 100) s u t g .efault ∧ (u.files 0).atNewItem = false := by
    refine ⟨_, _, hrun, _, _, _, FailedGetbuf.failed rfl rfl (Run.snoc (Run.snoc (Run.snoc
      (Run.snoc Run.nil (ShadowStep.mine (@Step.countPassed _ 0 100 rfl rfl) rfl))
      (ShadowStep.mine (@Step.pageFound _ 0 100 6 _ (.inl rfl) (alloc_sevenPages 0)) rfl))
      (ShadowStep.mine (@Step.newItem _ 0 100 6 5 rfl rfl (Finset.notMem_empty 5)) rfl))
      (ShadowStep.mine (@Step.bufferCopyFailed _ 0 5 rfl) rfl)) ?_
      (@Step.undoBuffer _ 0 5 rfl rfl), rfl⟩
    decide
  obtain ⟨-, hundone⟩ := getbuf_failure (by decide) (by decide) (by decide) (by decide) rfl
    (create_sevenPages 0) hrun hcall
  obtain ⟨hblocks, hcount⟩ := hundone.mpr hat
  exact ⟨_, s, tr, u, t, g, create_sevenPages 0, hrun, hcall, hblocks, hcount⟩

/-- No memory for the descriptor: the block of page 6 stays allocated. -/
theorem getbuf_failure_no_descriptor : ∃ s₀ s tr u t g,
    createBufferManager (fun _ => ⟨true, 0⟩) 1000 128 0 (fun _ => ⟨0, 0, 0⟩) = some s₀ ∧
    Run Step s₀ tr s ∧ FailedGetbuf 0 (some 100) s u t g .enomem ∧
    g.blocks = allocatedBlocks s.mgr.ba ∧ allocatedBlocks t.mgr.ba ≠ g.blocks := by
  have hrun := @setUp_run (sevenPages 0) 0 (.setup (.ok 0)) .producer rfl rfl rfl
  refine ⟨_, _, _, _, _, _, create_sevenPages 0, hrun, FailedGetbuf.failed rfl rfl
    (Run.snoc (Run.snoc Run.nil (ShadowStep.mine (@Step.countPassed _ 0 100 rfl rfl) rfl))
      (ShadowStep.mine (@Step.pageFound _ 0 100 6 _ (.inl rfl) (alloc_sevenPages 0)) rfl)) ?_
      (@Step.newItemFailed _ 0 100 6 rfl rfl), rfl, ?_⟩
  · decide
  · intro heq
    have hafter : ⟨6, 0, true⟩ ∈ baBlocks firstAlloc.1 := by decide +kernel
    have hbefore : ⟨6, 0, true⟩ ∉ baBlocks (sevenPages 0).mgr.ba := by decide +kernel
    have hsame : allocatedBlocks firstAlloc.1 = allocatedBlocks (sevenPages 0).mgr.ba := heq
    have hmem : ⟨6, 0, true⟩ ∈ allocatedBlocks (sevenPages 0).mgr.ba := hsame ▸ ⟨hafter, rfl⟩
    exact hbefore hmem.1

end Vmq

import PiFrame.VmqAccounts
import Mathlib.Data.Set.Function

/-!
# Reference counting

Every step of the driver is a move of its account, so `Inv` holds in every
reachable state.  What it says in terms of the source is collected in
`vmq_references`.
-/

namespace Vmq

open BuddyAllocator Transition ReferenceLedger

variable {size pageSize : Nat} {lost : List (Nat × Nat)} {s t : Driver} {h : Filp} {b : Addr}

/-! ## What the sections leave alone -/

/-- `remove_buffer_item` leaves files, mutex and consumers alone. -/
theorem removeBufferItem_frame :
    (s.removeBufferItem b).files = s.files ∧
    (s.removeBufferItem b).mgr.mutex = s.mgr.mutex ∧
    (s.removeBufferItem b).mgr.consumers = s.mgr.consumers := by
  unfold Driver.removeBufferItem
  split
  · exact ⟨rfl, rfl, rfl⟩
  · exact ⟨rfl, rfl, rfl⟩

theorem unrefBuffer_last (hlast : (s.mem b).refcnt = 1) :
    s.unrefBuffer b = ((s.setRefcnt b 0).removeBufferItem b, true) := by
  simp [Driver.unrefBuffer, hlast]

theorem unrefBuffer_more (hmore : (s.mem b).refcnt ≠ 1) :
    s.unrefBuffer b = (s.setRefcnt b ((s.mem b).refcnt - 1), false) := by
  have hne : (s.mem b).refcnt - 1 ≠ 0 := by omega
  simp [Driver.unrefBuffer, hne]

/-- `unref_buffer` leaves files, mutex and consumers alone. -/
theorem unrefBuffer_frame :
    (s.unrefBuffer b).1.files = s.files ∧ (s.unrefBuffer b).1.mgr.mutex = s.mgr.mutex ∧
      (s.unrefBuffer b).1.mgr.consumers = s.mgr.consumers := by
  by_cases hlast : (s.mem b).refcnt = 1
  · rw [unrefBuffer_last hlast]
    exact removeBufferItem_frame
  · rw [unrefBuffer_more hlast]
    exact ⟨rfl, rfl, rfl⟩

/-- The loop over all items of a consumer leaves files, mutex and consumers alone. -/
theorem unrefAll_frame (items : List Addr) :
    (s.unrefAll items).1.files = s.files ∧ (s.unrefAll items).1.mgr.mutex = s.mgr.mutex ∧
      (s.unrefAll items).1.mgr.consumers = s.mgr.consumers := by
  induction items generalizing s with
  | nil => exact ⟨rfl, rfl, rfl⟩
  | cons b items ih =>
      obtain ⟨hfiles, hmutex, hcon⟩ := @ih (s.unrefBuffer b).1
      obtain ⟨hfiles', hmutex', hcon'⟩ := unrefBuffer_frame (s := s) (b := b)
      simp only [Driver.unrefAll]
      exact ⟨hfiles.trans hfiles', hmutex.trans hmutex', hcon.trans hcon'⟩

/-- The same driver with another list of consumers. -/
def Driver.withConsumers (s : Driver) (consumers : List Filp) : Driver :=
  { s with mgr := { s.mgr with consumers } }

/-- Sections that remove buffers look neither at the files nor at the list of
consumers, so these may as well be changed afterwards. -/
theorem unrefBuffer_put (f : File) :
    (s.put h f).unrefBuffer b = ((s.unrefBuffer b).1.put h f, (s.unrefBuffer b).2) := by
  have hremove : ((s.setRefcnt b 0).put h f).removeBufferItem b =
      ((s.setRefcnt b 0).removeBufferItem b).put h f := by
    unfold Driver.removeBufferItem Driver.put
    simp only
    split <;> rfl
  by_cases hlast : (s.mem b).refcnt = 1
  · rw [unrefBuffer_last hlast, unrefBuffer_last (s := s.put h f) hlast]
    exact congrArg (·, true) hremove
  · rw [unrefBuffer_more hlast, unrefBuffer_more (s := s.put h f) hlast]
    rfl

/-- `unref_buffer` does not look at the list of the consumers. -/
theorem unrefBuffer_withConsumers (con : List Filp) :
    (s.withConsumers con).unrefBuffer b =
      ((s.unrefBuffer b).1.withConsumers con, (s.unrefBuffer b).2) := by
  have hremove : ((s.setRefcnt b 0).withConsumers con).removeBufferItem b =
      ((s.setRefcnt b 0).removeBufferItem b).withConsumers con := by
    unfold Driver.removeBufferItem Driver.withConsumers
    simp only
    split <;> rfl
  by_cases hlast : (s.mem b).refcnt = 1
  · rw [unrefBuffer_last hlast, unrefBuffer_last (s := s.withConsumers con) hlast]
    exact congrArg (·, true) hremove
  · rw [unrefBuffer_more hlast, unrefBuffer_more (s := s.withConsumers con) hlast]
    rfl

/-- The list of the consumers may be cut before the loop over the items or after it. -/
theorem unrefAll_withConsumers (con : List Filp) (items : List Addr) :
    (s.withConsumers con).unrefAll items =
      ((s.unrefAll items).1.withConsumers con, (s.unrefAll items).2) := by
  induction items generalizing s with
  | nil => rfl
  | cons b items ih => simp only [Driver.unrefAll, unrefBuffer_withConsumers, ih]

/-! ## The sections as moves -/

/-- Removing a live buffer gives its page back. -/
theorem removeBufferItem_eq
    (hleases : Leases size pageSize s.mgr.ba (withLost s.account.lease lost))
    (hb : b ∈ s.live) :
    ∃ ba, s.removeBufferItem b = { s with
        mgr := { s.mgr with
          ba
          bufItemCount := s.mgr.bufItemCount - 1
          bufItemRemoveCount := s.mgr.bufItemRemoveCount + 1 }
        live := s.live.erase b } ∧
      Leases size pageSize ba (withLost (Function.update s.account.lease (.inl b) none) lost) := by
  have hlease : s.account.lease (.inl b) =
      some ((s.mem b).offset / s.mgr.pageSize, (s.mem b).size) := by
    simp [Account.lease, Driver.account, hb]
  obtain ⟨ba, hfree, hleases'⟩ := hleases.free (t := .inl (.inl b)) hlease
  rw [← withLost_update] at hleases'
  refine ⟨ba, ?_, hleases'⟩
  simp only at hfree
  simp [Driver.removeBufferItem, hfree, Driver.touch, hb]

/-- The owner of a buffer without references destroys it. -/
theorem Inv.removeBufferItem (hinv : Inv size pageSize lost s.account)
    {f : Option (Addr × List Filp × Nat)} (hsh : (s.files h).share = { owned := some b, fan := f })
    (hothers : ∀ k, k ≠ h → ((s.files k).share).fan = none) (hb : b ∉ s.account.refs) :
    Inv size pageSize lost
      ({ (s.removeBufferItem b).account with mutex := none }.set h {}) := by
  have hlive : b ∈ s.live := hinv.live_of_owned (h := h) (congrArg Share.owned hsh)
  obtain ⟨ba, heq, hleases⟩ := removeBufferItem_eq hinv.leases hlive
  rw [heq]
  exact hinv.destroy hsh hothers hb hleases

/-- `unref_buffer` drops one reference from the hand of consumer `h`, and frees the buffer with
the last one. -/
theorem Inv.unrefBuffer (hinv : Inv size pageSize lost s.account) (hfree : s.mgr.mutex = none)
    {rest : Multiset Addr} (hmem : h ∈ s.mgr.consumers)
    (hhand : (s.files h).share.hand = b ::ₘ rest) :
    Inv size pageSize lost
      ((s.unrefBuffer b).1.account.set h ((s.files h).share.withHand rest)) := by
  have hb : b ∈ s.account.refs := Account.mem_refs.mpr ⟨h, hmem, by
    show b ∈ (s.files h).share.hand
    simp [hhand]⟩
  have hlive : b ∈ s.live := hinv.sound.live_of_ref hb
  have htouch : s.touch b = s := by simp [Driver.touch, hlive]
  have hset : ∀ n, s.setRefcnt b n =
      { s with mem := Function.update s.mem b { s.mem b with refcnt := n } } := by
    intro n
    rw [Driver.setRefcnt, htouch]
  by_cases hlast : (s.mem b).refcnt = 1
  · have hzero : (s.account.mem b).refcnt - 1 = 0 := by
      show (s.mem b).refcnt - 1 = 0
      omega
    have hlease := Account.lease_refcnt (a := s.account) (b := b) 0
    have hleases : Leases size pageSize (s.setRefcnt b 0).mgr.ba
        (withLost (s.setRefcnt b 0).account.lease lost) := by
      rw [hset]
      exact hlease ▸ hinv.leases
    obtain ⟨ba, heq, hleases'⟩ := removeBufferItem_eq hleases (b := b) hlive
    have hlease' : (s.setRefcnt b 0).account.lease = s.account.lease := by
      rw [hset]
      exact hlease
    rw [hlease', ← Account.lease_erase] at hleases'
    obtain ⟨hcount, hbal⟩ := hinv.count_erase hlive
    have hdrop := hinv.drop hfree hmem hhand (if_pos hlast).symm hleases' hcount hbal
    rw [unrefBuffer_last hlast, heq, hset]
    rw [hzero] at hdrop
    exact hdrop
  · rw [unrefBuffer_more hlast, hset]
    refine hinv.drop hfree hmem hhand ?_ hinv.leases hinv.count hinv.balance
    exact (if_neg hlast).symm

theorem shares_of_file {f : File} (hfile : s.files h = f) : s.account.shares h = f.share :=
  congrArg File.share hfile

/-- A step of one task that leaves its share as it was. -/
theorem Inv.same (hinv : Inv size pageSize lost s.account) {f g : File} (hfile : s.files h = f)
    (hshare : g.share = f.share) : Inv size pageSize lost (s.put h g).account := by
  rw [account_put, Account.set_self ((shares_of_file hfile).trans hshare.symm)]
  exact hinv

/-- A request is given up. -/
theorem Inv.give_up (hinv : Inv size pageSize lost s.account) {f g : File} {n : Nat}
    (hfile : s.files h = f) (hwants : f.share = { wants := some n }) (hshare : g.share = {}) :
    Inv size pageSize lost (s.put h g).account := by
  have hsh := (shares_of_file hfile).trans hwants
  rw [account_put, hshare]
  exact hinv.set_calm (by rw [hsh]) (by rw [hsh]) (by rw [hsh]) (by rw [hsh]) (by rw [hsh])
    (fun n hn => by cases hn) (by rw [hsh]; exact (Int.add_sub_cancel ..).symm)

/-- The loop of `vmq_release` empties the hand of the consumer; the induction is on the items
that are left. -/
theorem Inv.unrefAll (hfree : s.mgr.mutex = none) (hmem : h ∈ s.mgr.consumers) (items : List Addr)
    (hinv : Inv size pageSize lost (s.put h (.releasing (.consumer items none))).account) :
    Inv size pageSize lost
      ((s.unrefAll items).1.put h (.releasing (.consumer [] none))).account := by
  induction items generalizing s with
  | nil => exact hinv
  | cons b items ih =>
      obtain ⟨-, hmutex, hcon⟩ := unrefBuffer_frame (s := s) (b := b)
      have hfile : (s.put h (.releasing (.consumer (b :: items) none))).files h =
          .releasing (.consumer (b :: items) none) := Function.update_self ..
      have hhand : ((s.put h (.releasing (.consumer (b :: items) none))).files h).share.hand =
          b ::ₘ (items : Multiset Addr) := by
        rw [hfile]
        rfl
      have hdrop := hinv.unrefBuffer hfree hmem hhand
      rw [unrefBuffer_put, hfile, account_put] at hdrop
      have hnext : Inv size pageSize lost
          ((s.unrefBuffer b).1.put h (.releasing (.consumer items none))).account := by
        rw [account_put]
        rw [Account.set_set] at hdrop
        exact hdrop
      exact @ih (s.unrefBuffer b).1 (hmutex.trans hfree) (hcon ▸ hmem) hnext

/-- Nobody looks at the list of consumers while the items are dropped. -/
theorem releaseConsumer_eq (h : Filp) (items : List Addr) (item : Option Addr) :
    s.releaseConsumer h items item =
      ((s.unrefAll (item.toList ++ items)).1.withConsumers (s.mgr.consumers.erase h)).put h
        (.drained (s.unrefAll (item.toList ++ items)).2) := by
  have hcon := unrefAll_withConsumers (s := s) (s.mgr.consumers.erase h) (item.toList ++ items)
  unfold Driver.releaseConsumer
  rw [Driver.withConsumers] at hcon
  simp only [hcon]

/-- The section of `vmq_release` for a consumer: the item in its hand, its queue, and its place
in the list. -/
theorem Inv.releaseConsumer (hinv : Inv size pageSize lost s.account) (hfree : s.mgr.mutex = none)
    {items : List Addr} {item : Option Addr}
    (hfile : s.files h = .releasing (.consumer items item)) :
    Inv size pageSize lost (s.releaseConsumer h items item).account := by
  have hmem : h ∈ s.mgr.consumers := by
    have := hinv.mem_consumers h
    rw [shares_of_file hfile] at this
    exact this.mpr rfl
  obtain ⟨-, hmutex, hcon⟩ := unrefAll_frame (s := s) (item.toList ++ items)
  -- the current item may as well stand at the head of the queue
  have hqueue : Inv size pageSize lost
      (s.put h (.releasing (.consumer (item.toList ++ items) none))).account :=
    hinv.same hfile rfl
  have hempty := hqueue.unrefAll hfree hmem
  have hleave := hempty.leave (h := h) (hmutex.trans hfree) (by
    rw [account_put, Account.set_shares_self]
    rfl)
  rw [account_put] at hleave
  simp only [Account.set, Function.update_idem] at hleave
  rw [releaseConsumer_eq, account_put, ← hcon]
  exact hleave

/-- A producer destroys the buffer it holds. -/
theorem Inv.removeOwned (hinv : Inv size pageSize lost s.account) (hfree : s.mgr.mutex = none)
    {f g : File} (hfile : s.files h = f) (hshare : f.share = { owned := some b })
    (hgone : g.share = {}) : Inv size pageSize lost ((s.removeBufferItem b).put h g).account := by
  have hsh := (shares_of_file hfile).trans hshare
  have hremoved := hinv.removeBufferItem hsh (fun k _ => hinv.no_fan hfree k)
    (hinv.apart h b (by rw [hsh]) (hinv.no_fan hfree h))
  have hmutex : (s.removeBufferItem b).account.mutex = none :=
    removeBufferItem_frame.2.1.trans hfree
  have hsame : ({ (s.removeBufferItem b).account with mutex := none } : Account) =
      (s.removeBufferItem b).account := by rw [← hmutex]
  rw [hsame] at hremoved
  rw [account_put, hgone]
  exact hremoved

/-- The section of `vmq_release` for a producer. -/
theorem Inv.releaseProducer (hinv : Inv size pageSize lost s.account) (hfree : s.mgr.mutex = none)
    {buffer : Option Addr} (hfile : s.files h = .releasing (.producer buffer)) :
    Inv size pageSize lost (s.releaseProducer h buffer).account := by
  cases buffer with
  | none => exact hinv.same hfile rfl
  | some b => exact hinv.removeOwned hfree hfile rfl (g := .dropping) rfl

/-- One delivery of the fan-out. -/
theorem Inv.deliverTo (hinv : Inv size pageSize lost s.account) {con : Filp} {rest : List Filp}
    {count : Nat} (hfile : s.files h = .producing (.fanOut b (con :: rest) count)) :
    Inv size pageSize lost
      ((s.deliver b con).put h (.producing (.fanOut b rest (count + 1)))).account := by
  have hsh := shares_of_file hfile
  obtain ⟨-, -, hsub, -⟩ := hinv.fan h b (con :: rest) count (by rw [hsh]; rfl)
  have hcon := (hinv.mem_consumers con).mp (hsub.subset List.mem_cons_self)
  have hlive : b ∈ s.live := hinv.live_of_owned (h := h) (by rw [hsh]; rfl)
  have htouch : s.touch b = s := by simp [Driver.touch, hlive]
  unfold Driver.deliver Driver.setRefcnt
  rw [htouch, account_put, account_put, share_enqueue b hcon]
  exact hinv.deliver hsh

/-- `put_queue_item`, on the way out of `VMQ_PUTITEM` or of a failed
`VMQ_GETITEM`. -/
theorem Inv.putQueueItem (hinv : Inv size pageSize lost s.account) (hfree : s.mgr.mutex = none)
    {items : List Addr} {f : File} (hfile : s.files h = f)
    (hshare : f.share = { hand := ↑(b :: items), consumer := true }) :
    Inv size pageSize lost
      ((s.putQueueItem b).put h (.idle (some (.consumer items none)))).account := by
  have hsh := (shares_of_file hfile).trans hshare
  have hmem : h ∈ s.mgr.consumers := (hinv.mem_consumers h).mpr (by rw [hsh])
  have hhand : (s.files h).share.hand = b ::ₘ (items : Multiset Addr) := by
    rw [hfile, hshare]
    rfl
  have hdrop := hinv.unrefBuffer hfree hmem hhand
  have hwake : (s.putQueueItem b).account = (s.unrefBuffer b).1.account := by
    unfold Driver.putQueueItem
    simp only
    split
    · exact account_wakeProducers _
    · rfl
  rw [account_put, hwake]
  rw [hfile, hshare] at hdrop
  exact hdrop

/-- The end of `put_buffer_item`: the count of the loop becomes that of the buffer, or the
buffer is freed if nobody got it. -/
theorem Inv.endFanOut (hinv : Inv size pageSize lost s.account) {count : Nat}
    (hfile : s.files h = .producing (.fanOut b [] count)) :
    Inv size pageSize lost
      ((s.endFanOut b count).put h (.idle (some (.producer none)))).account := by
  have hsh := shares_of_file hfile
  obtain ⟨-, hcount, -, hlock⟩ := hinv.fan h b [] count (by rw [hsh]; rfl)
  have hothers : ∀ k, k ≠ h → (s.account.shares k).fan = none :=
    fun k hk => hinv.fan_unique hlock hk
  rw [account_put]
  by_cases hzero : count = 0
  · have hb : b ∉ s.account.refs := by
      rw [← Multiset.count_eq_zero, hcount, hzero]
    have hgone := hinv.removeBufferItem hsh hothers hb
    unfold Driver.endFanOut
    rw [if_pos hzero]
    exact hgone
  · have hb : b ∈ s.account.refs := by
      rw [← Multiset.count_pos, hcount]
      omega
    have hkept := hinv.surrender hsh hothers hb
    have hwake : (s.endFanOut b count).account = { s.account with mutex := none } := by
      unfold Driver.endFanOut
      rw [if_neg hzero]
      exact congrArg (fun a : Account => { a with mutex := none }) (account_wakeConsumers s)
    rw [hwake]
    exact hkept

/-! ## Steps -/

/-- The ioctls that get past their checks, and where they go on.  The later proofs look at these
five cases and not at the checks. -/
theorem vmqIoctl_entered {ctxt : Option VMQContext} {call : Ioctl} {f : File}
    (hcall : vmqIoctl s ctxt call = some (.ok f)) :
    (∃ type, ctxt = none ∧ f = .settingUp type) ∨
    (∃ n, ctxt = some (.producer none) ∧ f = .producing (.testCount n) ∧ 1 ≤ n ∧ n ≤ s.mgr.size) ∨
    (∃ b, ctxt = some (.producer (some b)) ∧ f = .producing (.publish b)) ∨
    (∃ items, ctxt = some (.consumer items none) ∧ f = .consuming items .dequeue) ∨
    (∃ items b, ctxt = some (.consumer items (some b)) ∧ f = .consuming items (.putItem b)) := by
  cases call with
  | setup type =>
      left
      simp only [vmqIoctl, vmqSetup, Option.some.injEq] at hcall
      rcases ctxt with _ | ctxt
      · rcases type with e | type
        · cases hcall
        · simp only at hcall
          split at hcall
          · cases hcall
            exact ⟨_, rfl, rfl⟩
          · split at hcall
            · cases hcall
              exact ⟨_, rfl, rfl⟩
            · cases hcall
      · cases hcall
  | getbuf size =>
      right; left
      rcases ctxt with _ | (_ | b) | ⟨items, item⟩
      · cases hcall
      · rcases size with _ | size
        · cases hcall
        · simp only [vmqIoctl, vmqGetbuf, Option.map_some, Option.some.injEq] at hcall
          split at hcall
          · cases hcall
          · split at hcall
            · cases hcall
            · cases hcall
              exact ⟨size.toNat, rfl, rfl, by omega, by omega⟩
      · cases hcall
      · cases hcall
  | putbuf offset =>
      right; right; left
      rcases ctxt with _ | (_ | b) | ⟨items, item⟩
      · cases hcall
      · cases offset <;> cases hcall
      · rcases offset with _ | offset
        · cases hcall
        · simp only [vmqIoctl, vmqPutbuf, Option.bind_some, Option.map_some,
            Option.some.injEq] at hcall
          split at hcall
          · cases hcall
          · cases hcall
            exact ⟨b, rfl, rfl⟩
      · cases hcall
  | getitem =>
      right; right; right; left
      rcases ctxt with _ | b | ⟨items, _ | item⟩ <;> cases hcall
      exact ⟨items, rfl, rfl⟩
  | putitem =>
      right; right; right; right
      rcases ctxt with _ | b | ⟨items, _ | item⟩ <;> cases hcall
      exact ⟨items, item, rfl, rfl⟩

/-- An ioctl that gets past its checks changes nothing but the request. -/
theorem vmqIoctl_share {ctxt : Option VMQContext} {call : Ioctl} {f : File}
    (hcall : vmqIoctl s ctxt call = some (.ok f)) :
    f.share = (File.idle ctxt).share ∨
    ∃ n, (File.idle ctxt).share = {} ∧ f.share = { wants := some n } ∧ 1 ≤ n ∧ n ≤ s.mgr.size := by
  rcases vmqIoctl_entered hcall with ⟨type, rfl, rfl⟩ | ⟨n, rfl, rfl, hn⟩ | ⟨b, rfl, rfl⟩ |
    ⟨items, rfl, rfl⟩ | ⟨items, b, rfl, rfl⟩
  · exact Or.inl rfl
  · exact Or.inr ⟨n, rfl, rfl, hn⟩
  · exact Or.inl rfl
  · exact Or.inl rfl
  · exact Or.inl rfl

/-- Every step with memory for the descriptor keeps the books in order.  Each case is one of the
transfers above, after the share of the file has been read off its place. -/
theorem Inv.step (hinv : Inv size pageSize lost s.account) {e : Filp × Event} (hstep : Step s e t)
    (hslab : e.2 ≠ .ret (some .enomem)) : Inv size pageSize lost t.account := by
  cases hstep with
  | ioctlOops at_file outcome => exact hinv
  | ioctlRefused at_file outcome => exact hinv
  | ioctlEntered at_file outcome =>
      rcases vmqIoctl_share outcome with hshare | ⟨n, hidle, hshare, hpos, hle⟩
      · exact hinv.same at_file hshare
      · have hsh := (shares_of_file at_file).trans hidle
        have hsize : s.mgr.size = size := hinv.geometry.1
        rw [account_put, hshare]
        refine hinv.set_calm (by rw [hsh]) (by rw [hsh]) (by rw [hsh]) (by rw [hsh]) (by rw [hsh])
          ?_ (by rw [hsh]; exact (Int.add_sub_cancel ..).symm)
        rintro m ⟨rfl⟩
        exact ⟨hpos, hsize ▸ hle⟩
  | roused => exact hinv.same rfl (by rw [share_wakeConsumer, share_wakeProducer])
  | countContext at_file =>
      have hsh := shares_of_file at_file
      rw [account_put]
      refine hinv.set_calm (by rw [hsh]; rfl) (by rw [hsh]; rfl) (by rw [hsh]; rfl)
        (by rw [hsh]; rfl) (by rw [hsh]; rfl) (fun n hn => by cases hn) ?_
      rw [hsh]
      exact (Int.sub_zero _).symm
  | @register h type at_file unlocked =>
      have hsh := shares_of_file at_file
      cases type with
      | producer => exact hinv.same at_file rfl
      | consumer =>
          rw [account_put]
          exact hinv.join unlocked hsh
  | countPassed at_file test => exact hinv.same at_file rfl
  | countReached at_file test => exact hinv.same at_file rfl
  | countFell at_file test => exact hinv.same at_file rfl
  | countHeld at_file test => exact hinv.same at_file rfl
  | countInterrupted at_file => exact hinv.give_up at_file rfl rfl
  | @pageFound h n page ba at_file alloc =>
      have hsh : s.account.shares h = { wants := some n } := by
        rcases at_file with hfile | hfile <;> exact shares_of_file hfile
      rw [account_put]
      exact hinv.page hsh alloc
  | @pageMissing h n ba at_file alloc =>
      obtain ⟨hpos, hle⟩ := hinv.wants h n (by rw [shares_of_file at_file]; rfl)
      obtain rfl := hinv.leases.alloc_none hpos hle alloc
      exact hinv.same at_file rfl
  | countFull at_file unlocked => exact hinv.same at_file rfl
  | @pageStillMissing h n ba at_file alloc =>
      obtain ⟨hpos, hle⟩ := hinv.wants h n (by rw [shares_of_file at_file]; rfl)
      obtain rfl := hinv.leases.alloc_none hpos hle alloc
      exact hinv.same at_file rfl
  | pageInterrupted at_file => exact hinv.give_up at_file rfl rfl
  | newItem at_file unlocked free =>
      rw [account_put]
      exact hinv.create (shares_of_file at_file) free
  | newItemFailed at_file unlocked => exact absurd rfl hslab
  | bufferCopied at_file => exact hinv.same at_file rfl
  | bufferCopyFailed at_file => exact hinv.same at_file rfl
  | undoBuffer at_file unlocked => exact hinv.removeOwned unlocked at_file rfl rfl
  | publish at_file unlocked =>
      rw [account_put]
      exact hinv.publish unlocked (shares_of_file at_file)
  | deliver at_file => exact hinv.deliverTo at_file
  | deliverFailed at_file =>
      rw [account_put]
      exact hinv.fan_next (shares_of_file at_file)
  | endFanOut at_file => exact hinv.endFanOut at_file
  | @take h b items at_file =>
      have hsh : s.account.shares h = { hand := ↑(b :: items), consumer := true } := by
        rcases at_file with hfile | hfile <;> exact shares_of_file hfile
      have hmem : h ∈ s.mgr.consumers := (hinv.mem_consumers h).mpr (by rw [hsh])
      have hlive : b ∈ s.live := hinv.live_of_hand hmem (by rw [hsh]; simp)
      have htouch : s.touch b = s := by simp [Driver.touch, hlive]
      rw [htouch]
      rcases at_file with hfile | hfile <;> exact hinv.same hfile rfl
  | queueEmpty at_file => exact hinv.same at_file rfl
  | queueStillEmpty at_file => exact hinv.same at_file rfl
  | itemInterrupted at_file => exact hinv.same at_file rfl
  | itemCopied at_file => exact hinv.same at_file rfl
  | itemCopyFailed at_file => exact hinv.same at_file rfl
  | undoItem at_file unlocked => exact hinv.putQueueItem unlocked at_file rfl
  | putItem at_file unlocked => exact hinv.putQueueItem unlocked at_file rfl
  | releaseUnused at_file => exact hinv.same at_file rfl
  | release at_file => exact hinv.same at_file (share_releasing _)
  | releaseConsumer at_file unlocked => exact hinv.releaseConsumer unlocked at_file
  | releaseProducer at_file unlocked => exact hinv.releaseProducer unlocked at_file
  | @wakeDrained h count at_file =>
      split
      · have hfile : s.wakeProducers.files h = .drained count := by
          simp [Driver.wakeProducers, at_file, File.wakeProducer]
        refine Inv.same ?_ hfile rfl
        rw [account_wakeProducers]
        exact hinv
      · exact hinv.same at_file rfl
  | dropContext at_file =>
      have hsh := shares_of_file at_file
      rw [account_put]
      refine hinv.set_calm (by rw [hsh]; rfl) (by rw [hsh]; rfl) (by rw [hsh]; rfl)
        (by rw [hsh]; rfl) (by rw [hsh]; rfl) (fun n hn => by cases hn) ?_
      rw [hsh]
      exact congrArg (· - 1) (Int.add_zero _).symm

/-! ## Runs -/

/-- A new manager has nothing to keep books on. -/
theorem Inv.create_manager {m : Memory} {maxItemCount : Int} {mem : Addr → VMQBuffer}
    (hsize : size < 2 ^ 31) (hpage : 0 < pageSize) (hpage' : pageSize < 2 ^ 31)
    (hdvd : 128 ∣ pageSize) (hpast : (m (size / pageSize)).allocated = true)
    (hcreate : createBufferManager m size pageSize maxItemCount mem = some s) :
    Inv size pageSize [] s.account := by
  obtain ⟨ba, hba, rfl⟩ := Option.map_eq_some_iff.mp hcreate
  obtain ⟨bs, hstart⟩ := BaInv.create hsize hpage hpage' hdvd hpast hba
  refine ⟨⟨rfl, rfl, hpage⟩, ⟨⟨bs, [], hstart, fun a => ?_⟩, ?_⟩, ?_, ⟨?_, fun b => ?_⟩, ?_, ?_, ?_,
    ?_, List.nodup_nil, fun k => ?_, ?_, rfl, (BitVec.sub_zero 0).symm, ⟨∅, fun k => ?_, rfl⟩, rfl⟩
  · refine ⟨fun ha => absurd ha List.not_mem_nil, fun ⟨t, ht⟩ => ?_⟩
    rcases t with (c | k) | i <;> cases ht
  · intro t u a b ht
    rcases t with (c | k) | i <;> cases ht
  · exact fun c hc => absurd hc (Finset.notMem_empty c)
  · exact fun c hc => absurd hc (Finset.notMem_empty c)
  · constructor
    · exact fun hc => absurd hc (Finset.notMem_empty b)
    · rintro (⟨k, hk⟩ | hr)
      · cases hk
      · obtain ⟨k, hk, -⟩ := Account.mem_refs.mp hr
        cases hk
  · exact fun k l c hk => by cases hk
  · exact fun k c hk => by cases hk
  · exact fun k c rest n hk => by cases hk
  · exact fun k hk => by cases hk
  · exact ⟨fun hk => absurd hk List.not_mem_nil, fun hk => by cases hk⟩
  · exact fun k n hk => by cases hk
  · exact ⟨fun hk => absurd hk (Finset.notMem_empty k), fun hk => by cases hk⟩

/-- From the new queue on, as long as no descriptor is refused, the books are in order after every
run. -/
theorem Inv.run {m : Memory} {maxItemCount : Int} {mem : Addr → VMQBuffer} {s₀ : Driver}
    {tr : List (Filp × Event)}
    (hsize : size < 2 ^ 31) (hpage : 0 < pageSize) (hpage' : pageSize < 2 ^ 31)
    (hdvd : 128 ∣ pageSize) (hpast : (m (size / pageSize)).allocated = true)
    (hcreate : createBufferManager m size pageSize maxItemCount mem = some s₀)
    (hrun : Run Step s₀ tr s) (hslab : ∀ e ∈ tr, e.2 ≠ .ret (some .enomem)) :
    Inv size pageSize [] s.account := by
  refine hrun.history (fun tr s => (∀ e ∈ tr, e.2 ≠ .ret (some .enomem)) →
    Inv size pageSize [] s.account) ?_ ?_ hslab
  · exact fun _ => Inv.create_manager hsize hpage hpage' hdvd hpast hcreate
  · intro tr s e t _ ih hstep hslab
    exact (ih fun x hx => hslab x (List.mem_append_left _ hx)).step hstep
      (hslab e (List.mem_append_right _ (List.mem_singleton.mpr rfl)))

/-- A step without memory for the descriptor loses the page it was meant for. -/
theorem Inv.step_lost (hinv : Inv size pageSize lost s.account) {e : Filp × Event}
    (hstep : Step s e t) : ∃ lost', Inv size pageSize lost' t.account := by
  by_cases hslab : e.2 = .ret (some .enomem)
  · cases hstep with
    | ioctlRefused at_file outcome => exact ⟨lost, hinv⟩
    | @newItemFailed h n page at_file unlocked =>
        refine ⟨lost ++ [(page, n)], ?_⟩
        rw [account_put]
        exact hinv.forget (shares_of_file at_file)
    | _ => simp at hslab
  · exact ⟨lost, hinv.step hstep hslab⟩

/-- With refused descriptors the books are in order too, but for the pages that went with these. -/
theorem Inv.run_lost {m : Memory} {maxItemCount : Int} {mem : Addr → VMQBuffer} {s₀ : Driver}
    {tr : List (Filp × Event)}
    (hsize : size < 2 ^ 31) (hpage : 0 < pageSize) (hpage' : pageSize < 2 ^ 31)
    (hdvd : 128 ∣ pageSize) (hpast : (m (size / pageSize)).allocated = true)
    (hcreate : createBufferManager m size pageSize maxItemCount mem = some s₀)
    (hrun : Run Step s₀ tr s) : ∃ lost, Inv size pageSize lost s.account := by
  apply hrun.invariant (fun s => ∃ lost, Inv size pageSize lost s.account)
  · exact ⟨[], Inv.create_manager hsize hpage hpage' hdvd hpast hcreate⟩
  · rintro s e t ⟨lost, hinv⟩ hstep
    exact hinv.step_lost hstep

/-- `bufItemCount` does not wrap. -/
theorem Inv.count_toInt (hinv : Inv size pageSize lost s.account) :
    s.mgr.bufItemCount.toInt = s.live.card := by
  have hcount : s.mgr.bufItemCount = BitVec.ofNat 32 s.live.card := hinv.count
  have hlt : s.live.card < 2 ^ 31 := hinv.card_lt
  rw [hcount, BitVec.toInt_ofNat']
  exact Int.bmod_eq_of_le (by omega) (by omega)

/-- The number of items that refer to `b`. -/
def Driver.itemCount (s : Driver) (b : Addr) : Nat :=
  (s.mgr.consumers.map fun h => (s.files h).items.count b).sum

/-- The references to a buffer are its places in the queues and hands of the consumers. -/
theorem Inv.count_refs (hinv : Inv size pageSize lost s.account) :
    s.account.refs.count b = s.itemCount b := by
  unfold Account.refs held Driver.itemCount
  rw [Multiset.count_sum', List.sum_toFinset _ hinv.nodup]
  refine congrArg List.sum (List.map_congr_left fun k _ => ?_)
  show Multiset.count b (s.files k).share.hand = _
  rw [share_hand, Multiset.coe_count]

/-- The bookkeeping as the source words it, for a state with no call in
flight. -/
structure Driver.Settled (s : Driver) : Prop where
  consumers : s.mgr.consumers.Nodup ∧ ∀ h, h ∈ s.mgr.consumers ↔
    ∃ items item, s.files h = .idle (some (.consumer items item))
  live_iff : ∀ b, b ∈ s.live ↔
    (∃ h, s.files h = .idle (some (.producer (some b)))) ∨ 0 < s.itemCount b
  held : ∀ h b, s.files h = .idle (some (.producer (some b))) →
    (s.mem b).refcnt = 0 ∧ s.itemCount b = 0
  counted : ∀ b ∈ s.live, (s.mem b).refcnt = s.itemCount b
  blocks : Set.BijOn (fun b => (s.mem b).offset / s.mgr.pageSize) s.live
    { i | ∃ k ∈ baBlocks s.mgr.ba, k.allocated = true ∧ k.head = i }
  paged : ∀ b ∈ s.live, s.mgr.pageSize ∣ (s.mem b).offset
  count : s.mgr.bufItemCount.toInt = s.live.card
  balance : s.mgr.bufItemCount = s.mgr.bufItemAllocCount - s.mgr.bufItemRemoveCount

/-- A file without a call in flight has no page and no fan-out. -/
theorem quiet_share {f : File} (hf : f.quiet = true) :
    f.share.page = none ∧ f.share.fan = none := by
  unfold File.quiet at hf
  split at hf
  · rename_i ctxt
    rcases ctxt with _ | _ | _ <;> exact ⟨rfl, rfl⟩
  · exact ⟨rfl, rfl⟩
  · cases hf

/-- Between calls, a file owns a buffer if it is a producer that has got one. -/
theorem quiet_buffer {f : File} (hf : f.quiet = true) :
    f.buffer = some b ↔ f = .idle (some (.producer (some b))) := by
  unfold File.quiet at hf
  split at hf
  · rename_i ctxt
    rcases ctxt with _ | _ | _ <;> simp [File.buffer]
  · simp [File.buffer]
  · cases hf

/-- Between calls, a file is a consumer by its context. -/
theorem quiet_consumer {f : File} (hf : f.quiet = true) :
    f.share.consumer = true ↔ ∃ items item, f = .idle (some (.consumer items item)) := by
  unfold File.quiet at hf
  split at hf
  · rename_i ctxt
    rcases ctxt with _ | _ | _ <;> simp [File.share]
  · simp [File.share]
  · cases hf

/-- Where every file is between calls, the books say what the header promises of the counters. -/
theorem Inv.settled (hinv : Inv size pageSize [] s.account)
    (hquiet : ∀ h, (s.files h).quiet = true) : s.Settled := by
  have howned : ∀ h b, (s.account.shares h).owned = some b ↔
      s.files h = .idle (some (.producer (some b))) := by
    intro h b
    rw [← quiet_buffer (hquiet h), ← share_owned]
    rfl
  have hrefs : ∀ b, b ∈ s.account.refs ↔ 0 < s.itemCount b := by
    intro b
    rw [← hinv.count_refs, Multiset.count_pos]
  constructor
  · refine ⟨hinv.nodup, fun h => ?_⟩
    rw [← quiet_consumer (hquiet h)]
    exact hinv.mem_consumers h
  · intro b
    rw [← hrefs]
    refine (hinv.sound.live_iff b).trans (or_congr_left ?_)
    exact exists_congr fun h => howned h b
  · intro h b hfile
    have hown := (howned h b).mpr hfile
    have hzero := Multiset.count_eq_zero_of_notMem
      (hinv.apart h b hown (quiet_share (hquiet h)).2)
    have hcount := hinv.sound.counted b (hinv.live_of_owned hown)
    constructor
    · exact hcount.trans (congrArg Int.ofNat hzero)
    · rw [← hinv.count_refs]
      exact hzero
  · intro b hb
    rw [← hinv.count_refs]
    exact hinv.sound.counted b hb
  · have hlease : ∀ b ∈ s.live, s.account.lease (.inl b) =
        some ((s.mem b).offset / s.mgr.pageSize, (s.mem b).size) := by
      intro b hb
      simp [Account.lease, Driver.account, hb]
    refine ⟨fun b hb => ?_, fun b hb c hc heq => ?_, fun i hi => ?_⟩
    · exact hinv.leases.allocated_iff.mpr ⟨.inl (.inl b), _, hlease b hb, rfl⟩
    · have hsame := hinv.leases.single (.inl (.inl b)) (.inl (.inl c)) _ _
        (hlease b hb) (hlease c hc) heq
      exact Sum.inl_injective (Sum.inl_injective hsame)
    · obtain ⟨t, a, ht, rfl⟩ := hinv.leases.allocated_iff.mp hi
      obtain ⟨t, ht⟩ := of_withLost_nil ht
      rcases t with b | h
      · by_cases hb : b ∈ s.live
        · refine ⟨b, hb, ?_⟩
          rw [hlease b hb] at ht
          exact congrArg Prod.fst (Option.some.inj ht)
        · have hnone : s.account.lease (.inl b) = none := if_neg hb
          rw [hnone] at ht
          cases ht
      · have hnone : s.account.lease (.inr h) = none := (quiet_share (hquiet h)).1
        rw [hnone] at ht
        cases ht
  · have hpage : s.mgr.pageSize = pageSize := hinv.geometry.2.1
    rw [hpage]
    exact hinv.paged
  · exact hinv.count_toInt
  · exact hinv.balance

/-- A context that is not counted has nothing in its hands. -/
theorem share_of_not_counted {f : File} (hf : f.share.counted = false) :
    f.share = { counted := false } := by
  unfold File.share at hf ⊢
  split at hf <;> first | rfl | cases hf

/-- Once the last context is gone nothing is left: no references, so no buffers, so no leases,
so no allocated block. -/
theorem Inv.empty (hinv : Inv size pageSize [] s.account) (hzero : s.mgr.refcnt = 0) :
    s.live = ∅ ∧ s.mgr.bufItemCount = 0 ∧ ∀ k ∈ baBlocks s.mgr.ba, k.allocated = false := by
  obtain ⟨opened, hopened, hcard⟩ := hinv.contexts
  have hnone : opened = ∅ := by
    have : (opened.card : Int) = 0 := hcard.symm.trans hzero
    exact Finset.card_eq_zero.mp (Int.ofNat_eq_zero.mp this)
  have hshare : ∀ h, s.account.shares h = { counted := false } := by
    intro h
    have hh : (s.account.shares h).counted ≠ true := by
      intro hcounted
      rw [← hopened h, hnone] at hcounted
      exact absurd hcounted (Finset.notMem_empty h)
    exact share_of_not_counted (Bool.eq_false_iff.mpr hh)
  have hlive : s.live = ∅ := by
    refine Finset.eq_empty_of_forall_notMem fun b hb => ?_
    rcases (hinv.sound.live_iff b).mp hb with ⟨h, hown⟩ | href
    · rw [hshare h] at hown
      cases hown
    · obtain ⟨h, -, hhand⟩ := Account.mem_refs.mp href
      rw [hshare h] at hhand
      exact absurd hhand (Multiset.notMem_zero b)
  refine ⟨hlive, ?_, fun k hk => ?_⟩
  · have hcount : s.mgr.bufItemCount = BitVec.ofNat 32 s.live.card := hinv.count
    rw [hcount, hlive]
    rfl
  · by_contra halloc
    obtain ⟨t, a, ht, -⟩ := hinv.leases.allocated_iff.mp
      ⟨k, hk, by simpa using halloc, rfl⟩
    obtain ⟨t, ht⟩ := of_withLost_nil ht
    rcases t with b | h
    · have hb : b ∉ s.live := hlive ▸ Finset.notMem_empty b
      have : s.account.lease (.inl b) = none := if_neg hb
      rw [this] at ht
      cases ht
    · have : s.account.lease (.inr h) = none := congrArg Share.page (hshare h)
      rw [this] at ht
      cases ht

/-- Only consumers have references in their hands. -/
theorem Inv.mem_of_hand (hinv : Inv size pageSize lost s.account)
    (hb : b ∈ (s.account.shares h).hand) : h ∈ s.account.consumers := by
  rw [hinv.mem_consumers h]
  by_contra hne
  have hempty : (s.account.shares h).hand = 0 :=
    share_hand_of_not_consumer (Bool.eq_false_iff.mpr hne)
  rw [hempty] at hb
  exact absurd hb (Multiset.notMem_zero b)

/-- **Reference counting.**  In every run in which the slab caches do not run
dry, no buffer is accessed after it was freed, and whatever a task refers to
is live.  When no call is in flight the books are settled, and when the last
context is gone there are no buffers and no allocated blocks. -/
theorem vmq_references {m : Memory} {maxItemCount : Int} {mem : Addr → VMQBuffer} {s₀ : Driver}
    {tr : List (Filp × Event)}
    (hsize : size < 2 ^ 31) (hpage : 0 < pageSize) (hpage' : pageSize < 2 ^ 31)
    (hdvd : 128 ∣ pageSize) (hpast : (m (size / pageSize)).allocated = true)
    (hcreate : createBufferManager m size pageSize maxItemCount mem = some s₀)
    (hrun : Run Step s₀ tr s) (hslab : ∀ e ∈ tr, e.2 ≠ .ret (some .enomem)) :
    s.fault = false ∧
    (∀ h b, b ∈ (s.files h).items ∨ (s.files h).buffer = some b → b ∈ s.live) ∧
    ((∀ h, (s.files h).quiet = true) → s.Settled) ∧
    (s.mgr.refcnt = 0 →
      s.live = ∅ ∧ s.mgr.bufItemCount = 0 ∧ ∀ k ∈ baBlocks s.mgr.ba, k.allocated = false) := by
  have hinv := Inv.run hsize hpage hpage' hdvd hpast hcreate hrun hslab
  refine ⟨hinv.sane, ?_, hinv.settled, hinv.empty⟩
  rintro h b (hitem | hbuffer)
  · have hhand : b ∈ (s.account.shares h).hand := by
      show b ∈ (s.files h).share.hand
      rw [share_hand]
      exact hitem
    exact hinv.live_of_hand (hinv.mem_of_hand hhand) hhand
  · rw [← share_owned] at hbuffer
    exact hinv.live_of_owned hbuffer

/-- A message of 100 bytes in the queue of one consumer. -/
theorem vmq_references_one_message : ∃ s₀ s tr,
    createBufferManager (fun _ => ⟨true, 0⟩) 1000 128 4 (fun _ => ⟨0, 0, 0⟩) = some s₀ ∧
    Run Step s₀ tr s ∧ s.files 1 = .idle (some (.consumer [5] none)) ∧
    s.fault = false ∧ 5 ∈ s.live := by
  -- a producer and a consumer set up their contexts
  have hrun := @setUp_run (sevenPages 4) 0 (.setup (.ok 0)) .producer rfl rfl rfl
  have hrun := hrun.append (@setUp_run _ 1 (.setup (.ok 1)) .consumer rfl rfl rfl)
  -- `VMQ_GETBUF` for 100 bytes
  have hrun := hrun.append (@getBuffer_run _ 0 (.getbuf (some 100)) 100 6 _ 5 rfl rfl rfl
    (alloc_sevenPages 4) rfl (Finset.notMem_empty 5))
  -- `VMQ_PUTBUF`, delivered to the one consumer
  have hrun := hrun.append (@putBuffer_run _ 0 1 (.putbuf (some 768)) 5 rfl rfl rfl rfl)
  obtain ⟨hsane, hlive, -, -⟩ := vmq_references (by decide) (by decide) (by decide) (by decide)
    rfl (create_sevenPages 4) hrun (by decide)
  exact ⟨_, _, _, create_sevenPages 4, hrun, rfl, hsane, hlive 1 5 (.inl List.mem_cons_self)⟩

end Vmq

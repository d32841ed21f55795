import PiFrame.BuddyLeases
import PiFrame.ReferenceLedger
import PiFrame.VmqDriver

/-!
# What the driver keeps account of

What the driver's bookkeeping rests on is not the state of each task but the
few things a task can have in its hands: a buffer it owns, references to
buffers, a page it has just been given, the rest of a fan-out.  `File.share`
extracts these, `Driver.account` forgets everything else, and the invariant
`Inv` is stated on accounts.  Most steps do not change the account at all.

The moves that do are the operations of two libraries: `ReferenceLedger` keeps
counters, references and live buffers together, and `Leases` keeps pages and
tenants together, a tenant being a live buffer or a task between `ba_alloc`
and the creation of the buffer.  `mgr->mutex` enters in one place: a buffer
with references still belongs to its producer only while that producer holds
the mutex, and nobody drops a reference then.
-/

namespace Vmq

open BuddyAllocator ReferenceLedger

/-! ## Shares and accounts -/

/-- What a task has in its hands. -/
structure Share where
  owned : Option Addr := none
  hand : Multiset Addr := 0
  page : Option (Nat × Nat) := none
  fan : Option (Addr × List Filp × Nat) := none
  counted : Bool := true
  consumer : Bool := false
  wants : Option Nat := none

/-- The same share with other references. -/
def Share.withHand (sh : Share) (hand : Multiset Addr) : Share :=
  { sh with hand }

/-- The share of one open file. -/
def File.share : File → Share
  | .idle none => { counted := false }
  | .idle (some (.producer buffer)) => { owned := buffer }
  | .idle (some (.consumer items item)) => { hand := item.toList ++ items, consumer := true }
  | .settingUp _ => { counted := false }
  | .registering _ => {}
  | .producing (.testCount size) => { wants := some size }
  | .producing (.waitCount size _) => { wants := some size }
  | .producing (.allocPage size) => { wants := some size }
  | .producing (.countFull size) => { wants := some size }
  | .producing (.waitPage size _) => { wants := some size }
  | .producing (.newItem size page) => { page := some (page, size) }
  | .producing (.copyOut b) => { owned := some b }
  | .producing (.undo b) => { owned := some b }
  | .producing (.publish b) => { owned := some b }
  | .producing (.fanOut b rest count) => { owned := some b, fan := some (b, rest, count) }
  | .consuming items call => { hand := call.item ++ items, consumer := true }
  | .releasing (.producer buffer) => { owned := buffer }
  | .releasing (.consumer items item) => { hand := item.toList ++ items, consumer := true }
  | .drained _ => {}
  | .dropping => {}
  | .closed => { counted := false }

/-- Waking a producer moves nothing from hand to hand. -/
@[simp] theorem share_wakeProducer (f : File) : f.wakeProducer.share = f.share := by
  unfold File.wakeProducer
  split <;> rfl

/-- Waking a consumer moves nothing from hand to hand. -/
@[simp] theorem share_wakeConsumer (f : File) : f.wakeConsumer.share = f.share := by
  unfold File.wakeConsumer
  split <;> rfl

/-- As references, the items do not care where in the queue the new one is. -/
theorem coe_append_last (l items : List Addr) (b : Addr) :
    ((l ++ (items ++ [b]) : List Addr) : Multiset Addr) = b ::ₘ ↑(l ++ items) := by
  rw [← List.append_assoc, Multiset.cons_coe, Multiset.coe_eq_coe]
  exact List.perm_append_singleton b (l ++ items)

/-- The states of a file whose context is in `mgr->consumers`: between calls, in `vmq_getitem`
or `vmq_putitem`, or in its release. -/
theorem consumer_cases {f : File} (hf : f.share.consumer = true) :
    (∃ items item, f = .idle (some (.consumer items item))) ∨
    (∃ items call, f = .consuming items call) ∨
    (∃ items item, f = .releasing (.consumer items item)) := by
  cases f with
  | idle ctxt =>
      rcases ctxt with _ | buffer | ⟨items, item⟩
      · cases hf
      · cases hf
      · exact Or.inl ⟨items, item, rfl⟩
  | producing call => cases call <;> cases hf
  | consuming items call => exact Or.inr (Or.inl ⟨items, call, rfl⟩)
  | releasing ctxt =>
      rcases ctxt with buffer | ⟨items, item⟩
      · cases hf
      · exact Or.inr (Or.inr ⟨items, item, rfl⟩)
  | settingUp _ => cases hf
  | registering _ => cases hf
  | drained _ => cases hf
  | dropping => cases hf
  | closed => cases hf

/-- An item in the queue is one more reference in the consumer's hand. -/
theorem share_enqueue (b : Addr) {f : File} (hf : f.share.consumer = true) :
    (f.enqueue b).share = f.share.withHand (b ::ₘ f.share.hand) := by
  rcases consumer_cases hf with ⟨items, item, rfl⟩ | ⟨items, call, rfl⟩ | ⟨items, item, rfl⟩ <;>
    simp only [File.enqueue, File.share, Share.withHand, coe_append_last]

/-- The owner of a buffer is the file that has it as `buffer`. -/
theorem share_owned (f : File) : f.share.owned = f.buffer := by
  unfold File.share File.buffer
  split <;> rfl

/-- The references of a file are its items, in whatever order. -/
theorem share_hand (f : File) : f.share.hand = f.items := by
  unfold File.share File.items
  split <;> rfl

/-- A file that is being closed has in its hands what its context has. -/
theorem share_releasing (ctxt : VMQContext) :
    (File.releasing ctxt).share = (File.idle (some ctxt)).share := by
  cases ctxt <;> rfl

/-- Only consumers have references. -/
theorem share_hand_of_not_consumer {f : File} (hf : f.share.consumer = false) :
    f.share.hand = 0 := by
  unfold File.share at hf ⊢
  split <;> simp_all

/-- What the bookkeeping of the driver depends on. -/
structure Account where
  size : Nat
  pageSize : Nat
  ba : Allocator
  refcnt : Int
  mutex : Option Filp
  consumers : List Filp
  bufItemCount : BitVec 32
  bufItemAllocCount : BitVec 32
  bufItemRemoveCount : BitVec 32
  mem : Addr → VMQBuffer
  live : Finset Addr
  fault : Bool
  shares : Filp → Share

def Driver.account (s : Driver) : Account where
  size := s.mgr.size
  pageSize := s.mgr.pageSize
  ba := s.mgr.ba
  refcnt := s.mgr.refcnt
  mutex := s.mgr.mutex
  consumers := s.mgr.consumers
  bufItemCount := s.mgr.bufItemCount
  bufItemAllocCount := s.mgr.bufItemAllocCount
  bufItemRemoveCount := s.mgr.bufItemRemoveCount
  mem := s.mem
  live := s.live
  fault := s.fault
  shares := fun h => (s.files h).share

namespace Account

/-- Task `h` has the share `sh`. -/
def set (a : Account) (h : Filp) (sh : Share) : Account :=
  { a with shares := Function.update a.shares h sh }

/-- All references to buffers. -/
def refs (a : Account) : Multiset Addr :=
  held a.consumers.toFinset fun h => (a.shares h).hand

def ledger (a : Account) : Ledger Addr where
  live := a.live
  count := fun b => (a.mem b).refcnt
  owned := { b | ∃ h, (a.shares h).owned = some b }
  refs := a.refs

/-- The tenants of the allocator: live buffers, and tasks with a page. -/
def lease (a : Account) : Addr ⊕ Filp → Option (Nat × Nat)
  | .inl b => if b ∈ a.live then some ((a.mem b).offset / a.pageSize, (a.mem b).size) else none
  | .inr h => (a.shares h).page

end Account

@[simp] theorem account_put (s : Driver) (h : Filp) (f : File) :
    (s.put h f).account = s.account.set h f.share := by
  simp only [Driver.account, Driver.put, Account.set, Account.mk.injEq, true_and]
  funext k
  by_cases hk : k = h
  · subst hk
    simp
  · simp [hk]

@[simp] theorem account_wakeProducers (s : Driver) : s.wakeProducers.account = s.account := by
  simp [Driver.account, Driver.wakeProducers]

/-- Waking the consumers is not seen by the bookkeeping. -/
@[simp] theorem account_wakeConsumers (s : Driver) : s.wakeConsumers.account = s.account := by
  simp [Driver.account, Driver.wakeConsumers]

/-- A task that already has the share gains nothing. -/
theorem Account.set_self {a : Account} {h : Filp} {sh : Share} (hsh : a.shares h = sh) :
    a.set h sh = a := by
  subst hsh
  simp [Account.set]

section Shares

variable {a : Account} {h : Filp} {sh : Share}

@[simp] theorem Account.set_shares_self : (a.set h sh).shares h = sh :=
  Function.update_self ..

@[simp] theorem Account.set_set {sh' : Share} : (a.set h sh).set h sh' = a.set h sh' := by
  simp [Account.set]

theorem Account.set_shares_of_ne {k : Filp} (hk : k ≠ h) : (a.set h sh).shares k = a.shares k :=
  Function.update_of_ne hk ..

/-- A property of shares that does not look at `h` survives `set`. -/
theorem Account.set_of_ne {P : Filp → Share → Prop} (hP : ∀ k, P k (a.shares k)) (hsh : P h sh) :
    ∀ k, P k ((a.set h sh).shares k) := by
  intro k
  by_cases hk : k = h
  · subst hk
    rw [Account.set_shares_self]
    exact hsh
  · rw [Account.set_shares_of_ne hk]
    exact hP k

theorem Account.hand_set :
    (fun k => ((a.set h sh).shares k).hand) =
      Function.update (fun k => (a.shares k).hand) h sh.hand := by
  funext k
  by_cases hk : k = h
  · subst hk
    simp
  · simp [Account.set_shares_of_ne hk, hk]

/-- Exchanging the hand of a consumer. -/
theorem Account.refs_set (hmem : h ∈ a.consumers) :
    (a.set h sh).refs + (a.shares h).hand = a.refs + sh.hand := by
  unfold Account.refs
  rw [Account.hand_set]
  exact held_update (List.mem_toFinset.mpr hmem) sh.hand

/-- Exchanging a share with the same hand. -/
theorem Account.refs_set_of_hand (hhand : sh.hand = (a.shares h).hand) :
    (a.set h sh).refs = a.refs := by
  unfold Account.refs
  rw [Account.hand_set, hhand, Function.update_eq_self]
  rfl

/-- A buffer is referred to if one of the consumers has it in hand. -/
theorem Account.mem_refs {b : Addr} : b ∈ a.refs ↔ ∃ k ∈ a.consumers, b ∈ (a.shares k).hand := by
  unfold Account.refs
  rw [mem_held]
  simp only [List.mem_toFinset]

end Shares

/-! ## The invariant -/

/-- The bookkeeping is in order, `lost` being the blocks whose descriptors
could not be allocated.  `apart` and `fan` are the two halves of the
argument about `mgr->mutex`: a buffer that still belongs to its producer has
no references, except during the fan-out, when there are as many of them as
the loop has counted. -/
structure Inv (size pageSize : Nat) (lost : List (Nat × Nat)) (a : Account) : Prop where
  geometry : a.size = size ∧ a.pageSize = pageSize ∧ 0 < pageSize
  leases : Leases size pageSize a.ba (withLost a.lease lost)
  paged : ∀ b ∈ a.live, pageSize ∣ (a.mem b).offset
  sound : a.ledger.Sound
  owner : ∀ h k b, (a.shares h).owned = some b → (a.shares k).owned = some b → h = k
  apart : ∀ h b, (a.shares h).owned = some b → (a.shares h).fan = none → b ∉ a.refs
  fan : ∀ h b rest n, (a.shares h).fan = some (b, rest, n) →
    (a.shares h).owned = some b ∧ a.refs.count b = n ∧ rest.Sublist a.consumers ∧
      a.mutex = some h
  locked : ∀ h, a.mutex = some h → (a.shares h).fan ≠ none
  nodup : a.consumers.Nodup
  mem_consumers : ∀ h, h ∈ a.consumers ↔ (a.shares h).consumer = true
  wants : ∀ h n, (a.shares h).wants = some n → 1 ≤ n ∧ n ≤ size
  count : a.bufItemCount = BitVec.ofNat 32 a.live.card
  balance : a.bufItemCount = a.bufItemAllocCount - a.bufItemRemoveCount
  contexts : ∃ opened : Finset Filp,
    (∀ h, h ∈ opened ↔ (a.shares h).counted = true) ∧ a.refcnt = opened.card
  sane : a.fault = false

variable {size pageSize : Nat} {lost : List (Nat × Nat)} {a : Account} {s : Driver} {h : Filp}
  {b : Addr}

/-- A fan-out holds the mutex, so there is none while the mutex is free. -/
theorem Inv.no_fan (hinv : Inv size pageSize lost a) (hfree : a.mutex = none) (k : Filp) :
    (a.shares k).fan = none := by
  by_contra hne
  obtain ⟨⟨b, rest, n⟩, hfan⟩ := Option.ne_none_iff_exists'.mp hne
  rw [(hinv.fan k b rest n hfan).2.2.2] at hfree
  cases hfree

/-- While the mutex is free, nobody owns a buffer that has references. -/
theorem Inv.not_owned (hinv : Inv size pageSize lost a) (hfree : a.mutex = none)
    (hb : b ∈ a.refs) : b ∉ a.ledger.owned := by
  rintro ⟨k, hk⟩
  exact hinv.apart k b hk (hinv.no_fan hfree k) hb

/-- What a task owns is not freed under its hands, whatever the others do. -/
theorem Inv.live_of_owned (hinv : Inv size pageSize lost a) (hb : (a.shares h).owned = some b) :
    b ∈ a.live :=
  hinv.sound.live_of_owned ⟨h, hb⟩

/-- What a consumer has in its queue or has taken out of it is not freed. -/
theorem Inv.live_of_hand (hinv : Inv size pageSize lost a) (hmem : h ∈ a.consumers)
    (hb : b ∈ (a.shares h).hand) : b ∈ a.live :=
  hinv.sound.live_of_ref (Account.mem_refs.mpr ⟨h, hmem, hb⟩)

/-- There are fewer buffers than `int` can count. -/
theorem Inv.card_lt (hinv : Inv size pageSize lost a) : a.live.card < 2 ^ 31 := by
  have hlease : ∀ b ∈ a.live,
      a.lease (.inl b) = some ((a.mem b).offset / a.pageSize, (a.mem b).size) := by
    intro b hb
    simp [Account.lease, hb]
  have hle : a.live.card ≤ (Finset.range a.ba.nrPages).card := by
    refine Finset.card_le_card_of_injOn (fun b => (a.mem b).offset / a.pageSize) ?_ ?_
    · intro b hb
      have hlt := hinv.leases.lt_nrPages (t := .inl (.inl b)) (hlease b hb)
      exact Finset.mem_coe.mpr (Finset.mem_range.mpr hlt)
    · intro b hb c hc heq
      have hsame := hinv.leases.single (.inl (.inl b)) (.inl (.inl c)) _ _
        (hlease b hb) (hlease c hc) heq
      exact Sum.inl_injective (Sum.inl_injective hsame)
  rw [Finset.card_range] at hle
  exact hle.trans_lt hinv.leases.nrPages_lt

/-! ## Moves that leave the buffers alone -/

variable {sh : Share}

/-- Exchanging a share with the same buffer changes no owner. -/
theorem Account.owned_set (ho : sh.owned = (a.shares h).owned) (k : Filp) :
    ((a.set h sh).shares k).owned = (a.shares k).owned :=
  Account.set_of_ne (P := fun k x => x.owned = (a.shares k).owned) (fun _ => rfl) ho k

/-- Exchanging a share with the same buffer and the same hand leaves the ledger as it is. -/
theorem Account.ledger_set (ho : sh.owned = (a.shares h).owned)
    (hhand : sh.hand = (a.shares h).hand) : (a.set h sh).ledger = a.ledger := by
  unfold Account.ledger
  rw [Account.refs_set_of_hand hhand]
  simp only [Account.owned_set ho]
  rfl

/-- Exchanging a share with the same page leaves the leases as they are. -/
theorem Account.lease_set (hp : sh.page = (a.shares h).page) : (a.set h sh).lease = a.lease := by
  funext t
  rcases t with c | k
  · rfl
  · exact Account.set_of_ne (P := fun k x => x.page = (a.shares k).page) (fun _ => rfl) hp k

/-- The number of contexts with one of them counted anew or no longer.  The set of the counted
files gains or loses this one. -/
theorem contexts_set {r : Int} (hctx : ∃ opened : Finset Filp,
      (∀ k, k ∈ opened ↔ (a.shares k).counted = true) ∧ r = opened.card) :
    ∃ opened : Finset Filp, (∀ k, k ∈ opened ↔ ((a.set h sh).shares k).counted = true) ∧
      r + sh.counted.toNat - (a.shares h).counted.toNat = opened.card := by
  obtain ⟨opened, hopened, rfl⟩ := hctx
  have hother : ∀ k, k ≠ h → (k ∈ opened ↔ ((a.set h sh).shares k).counted = true) := by
    intro k hk
    rw [Account.set_shares_of_ne hk]
    exact hopened k
  by_cases hin : h ∈ opened <;> cases hsh : sh.counted
  · refine ⟨opened.erase h, fun k => ?_, ?_⟩
    · by_cases hk : k = h
      · simp [hk, hsh]
      · simp [hk, hother k hk]
    · have hpos := Finset.card_pos.mpr ⟨h, hin⟩
      rw [(hopened h).mp hin, Finset.card_erase_of_mem hin]
      simp only [Bool.toNat_false, Bool.toNat_true]
      omega
  · refine ⟨opened, fun k => ?_, ?_⟩
    · by_cases hk : k = h
      · simp [hk, hsh, hin]
      · exact hother k hk
    · rw [(hopened h).mp hin]
      omega
  · refine ⟨opened, fun k => ?_, ?_⟩
    · by_cases hk : k = h
      · simp [hk, hsh, hin]
      · exact hother k hk
    · rw [Bool.eq_false_iff.mpr fun hc => hin ((hopened h).mpr hc)]
      omega
  · refine ⟨insert h opened, fun k => ?_, ?_⟩
    · by_cases hk : k = h
      · simp [hk, hsh]
      · simp [hk, hother k hk]
    · rw [Bool.eq_false_iff.mpr fun hc => hin ((hopened h).mpr hc),
        Finset.card_insert_of_notMem hin]
      simp only [Bool.toNat_false, Bool.toNat_true]
      omega

/-- Exchanging a share with the same fan-out leaves the fan-outs as they are. -/
theorem Account.fan_set (hf : sh.fan = (a.shares h).fan) (k : Filp) :
    ((a.set h sh).shares k).fan = (a.shares k).fan :=
  Account.set_of_ne (P := fun k x => x.fan = (a.shares k).fan) (fun _ => rfl) hf k

/-- `mgr->refcnt` counts the same files after an exchange that opens and closes none. -/
theorem Inv.contexts_set (hinv : Inv size pageSize lost a)
    (hc : sh.counted = (a.shares h).counted) :
    ∃ opened : Finset Filp,
      (∀ k, k ∈ opened ↔ ((a.set h sh).shares k).counted = true) ∧ a.refcnt = opened.card := by
  obtain ⟨opened, hopened, hcard⟩ := hinv.contexts
  refine ⟨opened, ?_, hcard⟩
  refine Account.set_of_ne (P := fun k x => k ∈ opened ↔ x.counted = true) hopened ?_
  rw [hopened h, hc]

/-- The list of the consumers is right after an exchange that makes and unmakes none. -/
theorem Inv.consumers_set (hinv : Inv size pageSize lost a)
    (hc : sh.consumer = (a.shares h).consumer)
    (k : Filp) : k ∈ a.consumers ↔ ((a.set h sh).shares k).consumer = true := by
  refine Account.set_of_ne (P := fun k x => k ∈ a.consumers ↔ x.consumer = true)
    hinv.mem_consumers ?_ k
  rw [hinv.mem_consumers, hc]

/-- Sizes that are waited for have been checked, as long as the new share has a checked one. -/
theorem Inv.wants_set (hinv : Inv size pageSize lost a)
    (hw : ∀ n, sh.wants = some n → 1 ≤ n ∧ n ≤ size) :
    ∀ k n, ((a.set h sh).shares k).wants = some n → 1 ≤ n ∧ n ≤ size :=
  Account.set_of_ne (P := fun _ x => ∀ n, x.wants = some n → 1 ≤ n ∧ n ≤ size) hinv.wants hw

/-- A share with the same buffers.  Pages, the list of consumers and the count
of contexts may change so long as the leases are in order and the references
stay. -/
theorem Inv.set_members (hinv : Inv size pageSize lost a) {ba : Allocator} {con : List Filp}
    {r : Int}
    {lost' : List (Nat × Nat)}
    (ho : sh.owned = (a.shares h).owned)
    (hleases : Leases size pageSize ba (withLost (a.set h sh).lease lost'))
    (hf : sh.fan = (a.shares h).fan) (hw : ∀ n, sh.wants = some n → 1 ≤ n ∧ n ≤ size)
    (hr : r = a.refcnt + sh.counted.toNat - (a.shares h).counted.toNat)
    (hnodup : con.Nodup) (hmem : ∀ k, k ∈ con ↔ ((a.set h sh).shares k).consumer = true)
    (hrefs : ({ a with consumers := con }.set h sh).refs = a.refs)
    (hkeep : con = a.consumers ∨ a.mutex = none) :
    Inv size pageSize lost' ({ a with ba, consumers := con, refcnt := r }.set h sh) := by
  have hown := Account.owned_set (a := a) (h := h) ho
  have hfan := Account.fan_set (a := a) (h := h) hf
  have hledger : ({ a with ba, consumers := con, refcnt := r }.set h sh).ledger = a.ledger := by
    refine Ledger.ext rfl rfl ?_ hrefs
    ext c
    exact exists_congr fun k => by rw [← hown k]; rfl
  refine ⟨hinv.geometry, hleases, hinv.paged, ?_, ?_, ?_, ?_, ?_, hnodup, hmem, ?_, hinv.count,
    hinv.balance, ?_, hinv.sane⟩
  · rw [hledger]
    exact hinv.sound
  · intro k l c hk hl
    exact hinv.owner k l c ((hown k).symm.trans hk) ((hown l).symm.trans hl)
  · intro k c hk hnone
    have := hinv.apart k c ((hown k).symm.trans hk) ((hfan k).symm.trans hnone)
    exact hrefs ▸ this
  · intro k c rest n hk
    obtain ⟨hk', hcount, hsub, hlock⟩ := hinv.fan k c rest n ((hfan k).symm.trans hk)
    refine ⟨(hown k).trans hk', hrefs ▸ hcount, ?_, hlock⟩
    rcases hkeep with rfl | hfree
    · exact hsub
    · cases hfree.symm.trans hlock
  · intro k hk hnone
    exact hinv.locked k hk ((hfan k).symm.trans hnone)
  · exact hinv.wants_set hw
  · rw [hr]
    exact Vmq.contexts_set hinv.contexts

/-- A share with the same buffers, page and references, and possibly another
request or another count of contexts. -/
theorem Inv.set_calm (hinv : Inv size pageSize lost a) {r : Int}
    (ho : sh.owned = (a.shares h).owned) (hhand : sh.hand = (a.shares h).hand)
    (hp : sh.page = (a.shares h).page) (hf : sh.fan = (a.shares h).fan)
    (hc : sh.consumer = (a.shares h).consumer) (hw : ∀ n, sh.wants = some n → 1 ≤ n ∧ n ≤ size)
    (hr : r = a.refcnt + sh.counted.toNat - (a.shares h).counted.toNat) :
    Inv size pageSize lost ({ a with refcnt := r }.set h sh) := by
  have hleases : Leases size pageSize a.ba (withLost (a.set h sh).lease lost) := by
    rw [Account.lease_set hp]
    exact hinv.leases
  exact hinv.set_members ho hleases hf hw hr hinv.nodup (hinv.consumers_set hc)
    (Account.refs_set_of_hand hhand) (Or.inl rfl)

/-- A new consumer, with nothing queued, so there are no more references than before. -/
theorem Inv.join (hinv : Inv size pageSize lost a) (hfree : a.mutex = none)
    (hsh : a.shares h = {}) :
    Inv size pageSize lost
      ({ a with consumers := a.consumers ++ [h] }.set h { consumer := true }) := by
  have hnew : h ∉ a.consumers := by
    rw [hinv.mem_consumers, hsh]
    exact Bool.false_ne_true
  have hrefs : ({ a with consumers := a.consumers ++ [h] }.set h { consumer := true }).refs =
      a.refs := by
    have hhand : ({ consumer := true } : Share).hand = (a.shares h).hand := by rw [hsh]
    rw [← Account.refs_set_of_hand hhand]
    have hset : (a.consumers ++ [h]).toFinset = insert h a.consumers.toFinset := by
      ext k
      simp
    have hempty : ((a.set h { consumer := true }).shares h).hand = 0 := by
      rw [Account.set_shares_self]
    exact (congrArg (held · _) hset).trans (held_insert _ hempty)
  have hleases : Leases size pageSize a.ba
      (withLost (a.set h { consumer := true }).lease lost) := by
    rw [Account.lease_set (by rw [hsh])]
    exact hinv.leases
  refine hinv.set_members (by rw [hsh]) hleases (by rw [hsh]) (fun n hn => by cases hn) ?_
    ?_ ?_ hrefs (Or.inr hfree)
  · rw [hsh]
    exact (Int.add_sub_cancel ..).symm
  · exact List.nodup_append'.mpr ⟨hinv.nodup, List.nodup_singleton h,
      List.disjoint_singleton.mpr hnew⟩
  · intro k
    by_cases hk : k = h
    · subst hk
      simp
    · rw [Account.set_shares_of_ne hk, ← hinv.mem_consumers k]
      simp [hk]

/-- A consumer leaves with empty hands, so no reference goes with it. -/
theorem Inv.leave (hinv : Inv size pageSize lost a) (hfree : a.mutex = none)
    (hsh : a.shares h = { consumer := true }) :
    Inv size pageSize lost ({ a with consumers := a.consumers.erase h }.set h {}) := by
  have hrefs : ({ a with consumers := a.consumers.erase h }.set h {}).refs = a.refs := by
    have hhand : ({} : Share).hand = (a.shares h).hand := by rw [hsh]
    rw [← Account.refs_set_of_hand hhand]
    have hset : (a.consumers.erase h).toFinset = a.consumers.toFinset.erase h := by
      ext k
      simp [hinv.nodup.mem_erase_iff]
    have hempty : ((a.set h {}).shares h).hand = 0 := by
      rw [Account.set_shares_self]
    exact (congrArg (held · _) hset).trans (held_erase _ hempty)
  have hleases : Leases size pageSize a.ba (withLost (a.set h {}).lease lost) := by
    rw [Account.lease_set (by rw [hsh])]
    exact hinv.leases
  refine hinv.set_members (by rw [hsh]) hleases (by rw [hsh]) (fun n hn => by cases hn) ?_
    (hinv.nodup.erase h) ?_ hrefs (Or.inr hfree)
  · rw [hsh]
    exact (Int.add_sub_cancel ..).symm
  · intro k
    rw [hinv.nodup.mem_erase_iff]
    by_cases hk : k = h
    · subst hk
      simp
    · rw [Account.set_shares_of_ne hk, ← hinv.mem_consumers k]
      simp [hk]

/-! ## Moves that create and destroy buffers -/

/-- `ba_alloc` answers a request: the page belongs to the task, and is leased to it until there
is a descriptor. -/
theorem Inv.page (hinv : Inv size pageSize lost a) {n page : Nat} {ba : Allocator}
    (hsh : a.shares h = { wants := some n }) (halloc : baAlloc a.ba n = some (ba, some page)) :
    Inv size pageSize lost ({ a with ba }.set h { page := some (page, n) }) := by
  obtain ⟨hpos, hle⟩ := hinv.wants h n (by rw [hsh])
  have hnone : a.lease (.inr h) = none := by simp [Account.lease, hsh]
  have hlease : (a.set h { page := some (page, n) }).lease =
      Function.update a.lease (.inr h) (some (page, n)) := by
    funext t
    rcases t with c | k
    · rfl
    · by_cases hk : k = h
      · subst hk
        simp [Account.lease]
      · simp [Account.lease, Account.set, hk]
  have hleases : Leases size pageSize ba
      (withLost (a.set h { page := some (page, n) }).lease lost) := by
    rw [hlease, withLost_update]
    exact hinv.leases.alloc (t := .inl (.inr h)) hnone hpos hle halloc
  refine hinv.set_members (by rw [hsh]) hleases (by rw [hsh]) (fun n hn => by cases hn) ?_
    hinv.nodup (hinv.consumers_set (by rw [hsh])) (Account.refs_set_of_hand (by rw [hsh]))
    (Or.inl rfl)
  rw [hsh]
  exact (Int.add_sub_cancel ..).symm

/-- A task that gives up its share gives up the lease of its page. -/
theorem Account.lease_drop (hsh : sh.page = none) :
    (a.set h sh).lease = Function.update a.lease (.inr h) none := by
  funext t
  rcases t with c | k
  · rfl
  · by_cases hk : k = h
    · subst hk
      simp [Account.lease, hsh]
    · simp [Account.lease, Account.set, hk]

/-- There is no memory for a descriptor, and nobody gives the page back. -/
theorem Inv.forget (hinv : Inv size pageSize lost a) {n page : Nat}
    (hsh : a.shares h = { page := some (page, n) }) :
    Inv size pageSize (lost ++ [(page, n)]) (a.set h {}) := by
  have hpage : a.lease (.inr h) = some (page, n) := by simp [Account.lease, hsh]
  have hleases : Leases size pageSize a.ba
      (withLost (a.set h {}).lease (lost ++ [(page, n)])) := by
    rw [Account.lease_drop rfl]
    exact hinv.leases.lose hpage
  refine hinv.set_members (by rw [hsh]) hleases (by rw [hsh]) (fun n hn => by cases hn) ?_
    hinv.nodup (hinv.consumers_set (by rw [hsh])) (Account.refs_set_of_hand (by rw [hsh]))
    (Or.inl rfl)
  rw [hsh]
  exact (Int.add_sub_cancel ..).symm

/-- The page of task `h` becomes the buffer `b`.  The lease passes from the task to the buffer,
and the task is its owner. -/
theorem Inv.create (hinv : Inv size pageSize lost a) {n page : Nat}
    (hsh : a.shares h = { page := some (page, n) }) (hb : b ∉ a.live) :
    Inv size pageSize lost ({ a with
      bufItemCount := a.bufItemCount + 1
      bufItemAllocCount := a.bufItemAllocCount + 1
      mem := Function.update a.mem b ⟨page * a.pageSize, n, 0⟩
      live := insert b a.live }.set h { owned := some b }) := by
  obtain ⟨hsize, rfl, hpos⟩ := hinv.geometry
  have hrefs : (a.set h { owned := some b }).refs = a.refs :=
    Account.refs_set_of_hand (by rw [hsh])
  have hnew : b ∉ a.refs := fun hr => hb (hinv.sound.live_of_ref hr)
  have hfan : ∀ k, ((a.set h { owned := some b }).shares k).fan = (a.shares k).fan :=
    Account.set_of_ne (P := fun k x => x.fan = (a.shares k).fan) (fun _ => rfl) (by rw [hsh])
  -- a buffer is owned afterwards by `h` if it is `b`, and otherwise as before
  have hown : ∀ k c, ((a.set h { owned := some b }).shares k).owned = some c →
      k = h ∧ c = b ∨ k ≠ h ∧ c ≠ b ∧ (a.shares k).owned = some c := by
    intro k c hk
    by_cases hkh : k = h
    · subst hkh
      rw [Account.set_shares_self] at hk
      exact Or.inl ⟨rfl, (Option.some.inj hk).symm⟩
    · rw [Account.set_shares_of_ne hkh] at hk
      exact Or.inr ⟨hkh, fun hcb => hb (hcb ▸ hinv.live_of_owned hk), hk⟩
  have hown' : ∀ k c, (a.shares k).owned = some c →
      ((a.set h { owned := some b }).shares k).owned = some c := by
    intro k c hk
    have hkh : k ≠ h := fun heq => by rw [heq, hsh] at hk; cases hk
    rw [Account.set_shares_of_ne hkh]
    exact hk
  have hpage : a.lease (.inr h) = some (page, n) := by simp [Account.lease, hsh]
  have hfree : a.lease (.inl b) = none := by simp [Account.lease, hb]
  refine ⟨⟨hsize, rfl, hpos⟩, ?_, ?_, ?_, ?_, ?_, ?_, ?_, hinv.nodup, ?_, ?_, ?_, ?_, ?_, hinv.sane⟩
  · have hmove := hinv.leases.move (t := .inl (.inr h)) (u := .inl (.inl b)) hpage hfree
    rw [← withLost_update, ← withLost_update] at hmove
    refine Eq.mp (congrArg (fun f => Leases size a.pageSize a.ba (withLost f lost)) ?_) hmove
    funext t
    rcases t with c | k
    · by_cases hcb : c = b
      · subst hcb
        simp [Account.lease, Account.set, Nat.mul_div_cancel _ hpos]
      · simp [Account.lease, Account.set, hcb]
    · by_cases hk : k = h
      · subst hk
        simp [Account.lease, Account.set]
      · simp [Account.lease, Account.set, hk]
  · intro c hc
    by_cases hcb : c = b
    · subst hcb
      simp [Account.set]
    · have hlive : c ∈ a.live := (Finset.mem_insert.mp hc).resolve_left hcb
      simpa [Account.set, hcb] using hinv.paged c hlive
  · refine Eq.mp (congrArg Ledger.Sound ?_) (hinv.sound.create hb)
    refine Ledger.ext rfl ?_ ?_ hrefs.symm
    · funext c
      by_cases hcb : c = b
      · subst hcb
        simp [Ledger.create, Account.ledger, Account.set]
      · simp [Ledger.create, Account.ledger, Account.set, hcb]
    · ext c
      constructor
      · rintro (rfl | ⟨k, hk⟩)
        · exact ⟨h, by simp [Account.set]⟩
        · exact ⟨k, hown' k c hk⟩
      · rintro ⟨k, hk⟩
        rcases hown k c hk with ⟨-, rfl⟩ | ⟨-, -, hk⟩
        · exact Or.inl rfl
        · exact Or.inr ⟨k, hk⟩
  · intro k l c hk hl
    rcases hown k c hk with ⟨rfl, rfl⟩ | ⟨-, hcb, hk⟩ <;>
      rcases hown l _ hl with ⟨rfl, hc⟩ | ⟨-, hcb', hl⟩
    · rfl
    · exact absurd rfl hcb'
    · exact absurd hc hcb
    · exact hinv.owner k l c hk hl
  · intro k c hk hnone
    show c ∉ (a.set h { owned := some b }).refs
    rw [hrefs]
    rcases hown k c hk with ⟨-, rfl⟩ | ⟨-, -, hk⟩
    · exact hnew
    · exact hinv.apart k c hk ((hfan k).symm.trans hnone)
  · intro k c rest m hk
    have hold := hinv.fan k c rest m ((hfan k).symm.trans hk)
    exact ⟨hown' k c hold.1, (congrArg (Multiset.count c) hrefs).trans hold.2.1, hold.2.2⟩
  · intro k hk hnone
    exact hinv.locked k hk ((hfan k).symm.trans hnone)
  · exact hinv.consumers_set (by rw [hsh])
  · exact hinv.wants_set (fun n hn => by cases hn)
  · show a.bufItemCount + 1 = _
    rw [hinv.count, Account.set, Finset.card_insert_of_notMem hb, BitVec.ofNat_add]
    rfl
  · show a.bufItemCount + 1 = a.bufItemAllocCount + 1 - a.bufItemRemoveCount
    rw [hinv.balance]
    bv_omega
  · exact hinv.contexts_set (by rw [hsh])

/-- What remains of ownership when `h` lets go of its buffer `b`. -/
structure Disowned (a : Account) (h : Filp) (b : Addr) : Prop where
  refs : (a.set h {}).refs = a.refs
  owned : a.ledger.owned \ {b} = (a.set h {}).ledger.owned
  owner : ∀ k l c, ((a.set h {}).shares k).owned = some c →
    ((a.set h {}).shares l).owned = some c → k = l
  apart : ∀ k c, ((a.set h {}).shares k).owned = some c → c ∉ (a.set h {}).refs
  fan : ∀ k, ((a.set h {}).shares k).fan = none

/-- What the invariant says of owners goes on without the task that lets its buffer go. -/
theorem Inv.disown (hinv : Inv size pageSize lost a) {f : Option (Addr × List Filp × Nat)}
    (hsh : a.shares h = { owned := some b, fan := f })
    (hothers : ∀ k, k ≠ h → (a.shares k).fan = none) : Disowned a h b := by
  have hb : (a.shares h).owned = some b := by rw [hsh]
  have hrefs : (a.set h {}).refs = a.refs := Account.refs_set_of_hand (by rw [hsh])
  have hself : (a.set h {}).shares h = {} := Account.set_shares_self
  have hother : ∀ {k}, k ≠ h → (a.set h {}).shares k = a.shares k := Account.set_shares_of_ne
  -- whoever owns a buffer afterwards is not `h`
  have hstill : ∀ {k c}, ((a.set h {}).shares k).owned = some c →
      k ≠ h ∧ (a.shares k).owned = some c := by
    intro k c hk
    by_cases hkh : k = h
    · rw [hkh, hself] at hk
      cases hk
    · rw [hother hkh] at hk
      exact ⟨hkh, hk⟩
  constructor
  case refs => exact hrefs
  case owned =>
    ext c
    constructor
    · rintro ⟨⟨k, hk⟩, hcb⟩
      have hkh : k ≠ h := fun heq => hcb (Option.some.inj (hk.symm.trans (heq ▸ hb)))
      exact ⟨k, (congrArg Share.owned (hother hkh)).trans hk⟩
    · rintro ⟨k, hk⟩
      obtain ⟨hkh, hk⟩ := hstill hk
      exact ⟨⟨k, hk⟩, fun hcb => hkh (hinv.owner k h b (hcb ▸ hk) hb)⟩
  case owner => exact fun k l c hk hl => hinv.owner k l c (hstill hk).2 (hstill hl).2
  case apart =>
    intro k c hk
    obtain ⟨hkh, hk⟩ := hstill hk
    rw [hrefs]
    exact hinv.apart k c hk (hothers k hkh)
  case fan =>
    intro k
    by_cases hkh : k = h
    · rw [hkh, hself]
    · rw [hother hkh]
      exact hothers k hkh

/-- The lease of a buffer ends when the buffer is freed. -/
theorem Account.lease_erase :
    ({ a with live := a.live.erase b } : Account).lease =
      Function.update a.lease (.inl b) none := by
  funext t
  rcases t with c | k
  · by_cases hcb : c = b
    · subst hcb
      simp [Account.lease]
    · simp [Account.lease, hcb]
  · rfl

/-- The counters after `free_buffer_item`. -/
theorem Inv.count_erase (hinv : Inv size pageSize lost a) (hlive : b ∈ a.live) :
    a.bufItemCount - 1 = BitVec.ofNat 32 (a.live.erase b).card ∧
      a.bufItemCount - 1 = a.bufItemAllocCount - (a.bufItemRemoveCount + 1) := by
  have hcard : a.live.card = (a.live.erase b).card + 1 := by
    have hpos := Finset.card_pos.mpr ⟨b, hlive⟩
    rw [Finset.card_erase_of_mem hlive]
    omega
  constructor
  · rw [hinv.count, hcard, BitVec.ofNat_add]
    bv_omega
  · rw [hinv.balance]
    bv_omega

/-- The owner destroys a buffer nobody else refers to: its lease ends, and it is counted as
removed. -/
theorem Inv.destroy (hinv : Inv size pageSize lost a) {f : Option (Addr × List Filp × Nat)}
    {ba : Allocator} (hsh : a.shares h = { owned := some b, fan := f })
    (hothers : ∀ k, k ≠ h → (a.shares k).fan = none) (hb : b ∉ a.refs)
    (hleases : Leases size pageSize ba
      (withLost (Function.update a.lease (.inl b) none) lost)) :
    Inv size pageSize lost ({ a with
      ba
      mutex := none
      bufItemCount := a.bufItemCount - 1
      bufItemRemoveCount := a.bufItemRemoveCount + 1
      live := a.live.erase b }.set h {}) := by
  have hdis := hinv.disown hsh hothers
  have hlive : b ∈ a.live := hinv.live_of_owned (h := h) (by rw [hsh])
  refine ⟨hinv.geometry, ?_, ?_, ?_, hdis.owner, fun k c hk _ => hdis.apart k c hk, ?_, ?_,
    hinv.nodup, ?_, ?_, ?_, ?_, ?_, hinv.sane⟩
  · have hpage : ({} : Share).page = (a.shares h).page := by rw [hsh]
    have hlease := Account.lease_set (a := { a with live := a.live.erase b }) hpage
    rw [Account.lease_erase] at hlease
    exact hlease ▸ hleases
  · intro c hc
    exact hinv.paged c (Finset.mem_of_mem_erase hc)
  · refine Eq.mp (congrArg Ledger.Sound ?_) (hinv.sound.discard hb)
    exact Ledger.ext rfl rfl hdis.owned hdis.refs.symm
  · intro k c rest m hk
    cases (hdis.fan k).symm.trans hk
  · intro k hk
    cases hk
  · exact hinv.consumers_set (by rw [hsh])
  · exact hinv.wants_set (fun n hn => by cases hn)
  · exact (hinv.count_erase hlive).1
  · exact (hinv.count_erase hlive).2
  · exact hinv.contexts_set (by rw [hsh])

/-! ## The fan-out -/

/-- `put_buffer_item` takes the mutex, and the fan-out begins with a count of 0. -/
theorem Inv.publish (hinv : Inv size pageSize lost a) (hfree : a.mutex = none)
    (hsh : a.shares h = { owned := some b }) :
    Inv size pageSize lost ({ a with mutex := some h }.set h
      { owned := some b, fan := some (b, a.consumers, 0) }) := by
  have ho : ({ owned := some b, fan := some (b, a.consumers, 0) } : Share).owned =
      (a.shares h).owned := by rw [hsh]
  have hown := Account.owned_set ho
  have hrefs : (a.set h { owned := some b, fan := some (b, a.consumers, 0) }).refs = a.refs :=
    Account.refs_set_of_hand (by rw [hsh])
  have hledger := Account.ledger_set ho (by rw [hsh])
  have hnone := hinv.no_fan hfree
  refine ⟨hinv.geometry, ?_, hinv.paged, ?_, ?_, ?_, ?_, ?_, hinv.nodup, ?_, ?_, hinv.count,
    hinv.balance, ?_, hinv.sane⟩
  · have hpage : ({ owned := some b, fan := some (b, a.consumers, 0) } : Share).page =
        (a.shares h).page := by rw [hsh]
    exact Account.lease_set hpage ▸ hinv.leases
  · exact hledger ▸ hinv.sound
  · intro k l c hk hl
    exact hinv.owner k l c ((hown k).symm.trans hk) ((hown l).symm.trans hl)
  · intro k c hk _
    have := hinv.apart k c ((hown k).symm.trans hk) (hnone k)
    exact hrefs ▸ this
  · intro k c rest n hk
    by_cases hkh : k = h
    · subst hkh
      simp only [Account.set, Function.update_self, Option.some.injEq, Prod.mk.injEq] at hk
      obtain ⟨rfl, rfl, rfl⟩ := hk
      refine ⟨by simp [Account.set], ?_, List.Sublist.refl _, rfl⟩
      have habs := hinv.apart k b (by rw [hsh]) (hnone k)
      exact (congrArg (Multiset.count b) hrefs).trans (Multiset.count_eq_zero_of_notMem habs)
    · have hk' : (a.shares k).fan = some (c, rest, n) := by
        rw [← hk]
        exact (congrArg Share.fan (Account.set_shares_of_ne hkh)).symm
      cases (hnone k).symm.trans hk'
  · rintro k ⟨rfl⟩
    simp [Account.set]
  · exact hinv.consumers_set (by rw [hsh])
  · exact hinv.wants_set (fun n hn => by cases hn)
  · exact hinv.contexts_set (by rw [hsh])

/-- The fan-out ends with references in circulation. -/
theorem Inv.surrender (hinv : Inv size pageSize lost a) {f : Option (Addr × List Filp × Nat)}
    (hsh : a.shares h = { owned := some b, fan := f })
    (hothers : ∀ k, k ≠ h → (a.shares k).fan = none) (hb : b ∈ a.refs) :
    Inv size pageSize lost ({ a with mutex := none }.set h {}) := by
  have hdis := hinv.disown hsh hothers
  refine ⟨hinv.geometry, ?_, hinv.paged, ?_, hdis.owner, fun k c hk _ => hdis.apart k c hk, ?_, ?_,
    hinv.nodup, ?_, ?_, hinv.count, hinv.balance, ?_, hinv.sane⟩
  · have hpage : ({} : Share).page = (a.shares h).page := by rw [hsh]
    exact Account.lease_set hpage ▸ hinv.leases
  · refine Eq.mp (congrArg Ledger.Sound ?_) (hinv.sound.surrender hb)
    exact Ledger.ext rfl rfl hdis.owned hdis.refs.symm
  · intro k c rest m hk
    cases (hdis.fan k).symm.trans hk
  · intro k hk
    cases hk
  · exact hinv.consumers_set (by rw [hsh])
  · exact hinv.wants_set (fun n hn => by cases hn)
  · exact hinv.contexts_set (by rw [hsh])

/-- The holder of the mutex is the only one with a fan-out. -/
theorem Inv.fan_unique (hinv : Inv size pageSize lost a) (hlock : a.mutex = some h) {k : Filp}
    (hk : k ≠ h) : (a.shares k).fan = none := by
  by_contra hne
  obtain ⟨⟨b, rest, n⟩, hfan⟩ := Option.ne_none_iff_exists'.mp hne
  have hlock' := (hinv.fan k b rest n hfan).2.2.2
  exact hk (Option.some.inj (hlock'.symm.trans hlock))

/-- The loop passes over a consumer for which there is no memory; neither the count nor the
references change. -/
theorem Inv.fan_next (hinv : Inv size pageSize lost a) {con : Filp} {rest : List Filp} {n : Nat}
    (hsh : a.shares h = { owned := some b, fan := some (b, con :: rest, n) }) :
    Inv size pageSize lost (a.set h { owned := some b, fan := some (b, rest, n) }) := by
  obtain ⟨-, hcount, hsub, hlock⟩ := hinv.fan h b (con :: rest) n (by rw [hsh])
  have ho : ({ owned := some b, fan := some (b, rest, n) } : Share).owned =
      (a.shares h).owned := by rw [hsh]
  have hown := Account.owned_set ho
  have hrefs : (a.set h { owned := some b, fan := some (b, rest, n) }).refs = a.refs :=
    Account.refs_set_of_hand (by rw [hsh])
  refine ⟨hinv.geometry, ?_, hinv.paged, ?_, ?_, ?_, ?_, ?_, hinv.nodup, ?_, ?_, hinv.count,
    hinv.balance, ?_, hinv.sane⟩
  · rw [Account.lease_set (by rw [hsh])]
    exact hinv.leases
  · rw [Account.ledger_set ho (by rw [hsh])]
    exact hinv.sound
  · intro k l c hk hl
    exact hinv.owner k l c ((hown k).symm.trans hk) ((hown l).symm.trans hl)
  · intro k c hk hnone
    have hkh : k ≠ h := fun heq => by simp [heq] at hnone
    rw [hrefs]
    exact hinv.apart k c ((hown k).symm.trans hk) (hinv.fan_unique hlock hkh)
  · intro k c rest' m hk
    by_cases hkh : k = h
    · subst hkh
      rw [Account.set_shares_self] at hk
      cases hk
      rw [Account.set_shares_self, hrefs]
      exact ⟨rfl, hcount, (List.sublist_of_cons_sublist hsub), hlock⟩
    · rw [Account.set_shares_of_ne hkh, hinv.fan_unique hlock hkh] at hk
      cases hk
  · intro k hk hnone
    obtain rfl : k = h := Option.some.inj (Eq.trans (Eq.symm hk) hlock)
    rw [Account.set_shares_self] at hnone
    cases hnone
  · exact hinv.consumers_set (by rw [hsh])
  · exact hinv.wants_set (fun n hn => by cases hn)
  · exact hinv.contexts_set (by rw [hsh])

/-- Changing a counter does not change the leases. -/
theorem Account.lease_refcnt (r : Int) :
    ({ a with mem := Function.update a.mem b { a.mem b with refcnt := r } } : Account).lease =
      a.lease := by
  funext t
  rcases t with c | k
  · by_cases hcb : c = b
    · subst hcb
      simp [Account.lease]
    · simp [Account.lease, hcb]
  · rfl

/-- Counting references moves no buffer in the memory. -/
theorem Inv.paged_refcnt (hinv : Inv size pageSize lost a) (r : Int) {c : Addr} (hc : c ∈ a.live) :
    pageSize ∣ (Function.update a.mem b { a.mem b with refcnt := r } c).offset := by
  by_cases hcb : c = b
  · subst hcb
    simpa using hinv.paged c hc
  · simpa [hcb] using hinv.paged c hc

/-- In the ledger, setting a count is an update of the counts at that buffer. -/
theorem Account.count_refcnt (r : Int) (c : Addr) :
    (Function.update a.mem b { a.mem b with refcnt := r } c).refcnt =
      Function.update (fun c => (a.mem c).refcnt) b r c := by
  by_cases hcb : c = b
  · subst hcb
    simp
  · simp [hcb]

/-- One delivery: consumer `con` gets a reference, and the loop counts it.  During the loop the
count of the buffer is set at its end, so `fan` compares with the loop's own. -/
theorem Inv.deliver (hinv : Inv size pageSize lost a) {con : Filp} {rest : List Filp} {n : Nat}
    (hsh : a.shares h = { owned := some b, fan := some (b, con :: rest, n) }) :
    Inv size pageSize lost (({ a with
      mem := Function.update a.mem b { a.mem b with refcnt := (a.mem b).refcnt + 1 } }.set con
        ((a.shares con).withHand (b ::ₘ (a.shares con).hand))).set h
        { owned := some b, fan := some (b, rest, n + 1) }) := by
  obtain ⟨-, hcount, hsub, hlock⟩ := hinv.fan h b (con :: rest) n (by rw [hsh])
  have hcon : con ∈ a.consumers := hsub.subset List.mem_cons_self
  have hne : con ≠ h := by
    intro heq
    rw [hinv.mem_consumers, heq, hsh] at hcon
    cases hcon
  have hlive : b ∈ a.live := hinv.live_of_owned (h := h) (by rw [hsh])
  -- the two changed shares, on the account with the old memory
  let a' := a.set con ((a.shares con).withHand (b ::ₘ (a.shares con).hand))
  have hsh' : a'.shares h = { owned := some b, fan := some (b, con :: rest, n) } := by
    rw [Account.set_shares_of_ne hne.symm, hsh]
  have hown' : ∀ k, (a'.shares k).owned = (a.shares k).owned := Account.owned_set rfl
  have ho : ({ owned := some b, fan := some (b, rest, n + 1) } : Share).owned =
      (a'.shares h).owned := by rw [hsh']
  have hown : ∀ k, ((a'.set h { owned := some b, fan := some (b, rest, n + 1) }).shares k).owned =
      (a.shares k).owned := fun k => (Account.owned_set ho k).trans (hown' k)
  have hrefs : (a'.set h { owned := some b, fan := some (b, rest, n + 1) }).refs =
      b ::ₘ a.refs := by
    rw [Account.refs_set_of_hand (by rw [hsh'])]
    have hset : a'.refs + (a.shares con).hand = a.refs + b ::ₘ (a.shares con).hand :=
      Account.refs_set hcon
    rw [Multiset.add_cons, ← Multiset.cons_add] at hset
    exact add_right_cancel hset
  have hfan : ∀ k, k ≠ h →
      ((a'.set h { owned := some b, fan := some (b, rest, n + 1) }).shares k).fan = none := by
    intro k hk
    have hsame : (a'.shares k).fan = (a.shares k).fan := Account.fan_set (by rfl) k
    rw [Account.set_shares_of_ne hk, hsame]
    exact hinv.fan_unique hlock hk
  refine ⟨hinv.geometry, ?_, fun c hc => hinv.paged_refcnt _ hc, ?_, ?_, ?_, ?_, ?_, hinv.nodup,
    ?_, ?_, hinv.count, hinv.balance, ?_, hinv.sane⟩
  · have hlease : (a'.set h { owned := some b, fan := some (b, rest, n + 1) }).lease = a.lease :=
      (Account.lease_set (by rw [hsh'])).trans (Account.lease_set rfl)
    have hall :=
      (Account.lease_refcnt (a := a'.set h _) (b := b) ((a.mem b).refcnt + 1)).trans hlease
    exact hall ▸ hinv.leases
  · refine Eq.mp (congrArg Ledger.Sound ?_) (hinv.sound.share hlive)
    refine Ledger.ext rfl ?_ ?_ hrefs.symm
    · funext c
      exact (Account.count_refcnt (a := a) _ c).symm
    · ext c
      exact exists_congr fun k => by rw [← hown k]; rfl
  · intro k l c hk hl
    exact hinv.owner k l c ((hown k).symm.trans hk) ((hown l).symm.trans hl)
  · intro k c hk hnone
    have hkh : k ≠ h := fun heq => by simp [heq] at hnone
    have hcb : c ≠ b := by
      intro heq
      exact hkh (hinv.owner k h c ((hown k).symm.trans hk) (by rw [hsh, heq]))
    have habs := hinv.apart k c ((hown k).symm.trans hk) (hinv.fan_unique hlock hkh)
    have hgoal : c ∉ b ::ₘ a.refs := by
      rw [Multiset.mem_cons]
      rintro (heq | hmem)
      · exact hcb heq
      · exact habs hmem
    exact hrefs ▸ hgoal
  · intro k c rest' m hk
    by_cases hkh : k = h
    · subst hkh
      rw [Account.set_shares_self] at hk
      cases hk
      rw [Account.set_shares_self]
      refine ⟨rfl, (congrArg (Multiset.count b) hrefs).trans ?_,
        List.sublist_of_cons_sublist hsub, hlock⟩
      rw [Multiset.count_cons_self, hcount]
    · cases (hfan k hkh).symm.trans hk
  · intro k hk hnone
    obtain rfl : k = h := Option.some.inj (Eq.trans (Eq.symm hk) hlock)
    rw [Account.set_shares_self] at hnone
    cases hnone
  · intro k
    by_cases hkh : k = h
    · subst hkh
      rw [Account.set_shares_self]
      exact (hinv.mem_consumers k).trans (by rw [hsh])
    · have hsame : k ∈ a.consumers ↔ (a'.shares k).consumer = true := hinv.consumers_set (by rfl) k
      rw [Account.set_shares_of_ne hkh]
      exact hsame
  · intro k m hk
    by_cases hkh : k = h
    · subst hkh
      rw [Account.set_shares_self] at hk
      cases hk
    · rw [Account.set_shares_of_ne hkh] at hk
      have hwant : (a'.shares k).wants = some m → 1 ≤ m ∧ m ≤ size :=
        hinv.wants_set (by exact hinv.wants con) k m
      exact hwant hk
  · have hcounted : ((a.shares con).withHand (b ::ₘ (a.shares con).hand)).counted =
        (a.shares con).counted := rfl
    obtain ⟨opened, hopened, hcard⟩ := hinv.contexts_set hcounted
    refine ⟨opened, fun k => ?_, hcard⟩
    by_cases hkh : k = h
    · subst hkh
      rw [Account.set_shares_self, hopened, Account.set_shares_of_ne hne.symm, hsh]
    · rw [Account.set_shares_of_ne hkh]
      exact hopened k

/-! ## Dropping a reference -/

/-- The account after a reference to `b` was dropped from the hand of `h`: the count goes down
by one, and with the last the buffer and its lease are gone. -/
theorem Inv.drop (hinv : Inv size pageSize lost a) (hfree : a.mutex = none) {rest : Multiset Addr}
    {ba : Allocator} {live : Finset Addr} {count remove : BitVec 32} (hmem : h ∈ a.consumers)
    (hhand : (a.shares h).hand = b ::ₘ rest) (hlive : live = (a.ledger.drop b).live)
    (hleases : Leases size pageSize ba (withLost ({ a with live } : Account).lease lost))
    (hcount : count = BitVec.ofNat 32 live.card) (hbal : count = a.bufItemAllocCount - remove) :
    Inv size pageSize lost ({ a with
      ba
      mem := Function.update a.mem b { a.mem b with refcnt := (a.mem b).refcnt - 1 }
      live
      bufItemCount := count
      bufItemRemoveCount := remove }.set h ((a.shares h).withHand rest)) := by
  have hb : b ∈ a.refs := Account.mem_refs.mpr ⟨h, hmem, by simp [hhand]⟩
  have hsub : live ⊆ a.live := by
    rw [hlive]
    intro c hc
    simp only [Ledger.drop] at hc
    split at hc
    · exact Finset.mem_of_mem_erase hc
    · exact hc
  have hown : ∀ k, ((a.set h ((a.shares h).withHand rest)).shares k).owned =
      (a.shares k).owned := Account.owned_set rfl
  have hrefs : (a.set h ((a.shares h).withHand rest)).refs = a.refs.erase b := by
    have hset : (a.set h ((a.shares h).withHand rest)).refs + (a.shares h).hand =
        a.refs + rest := Account.refs_set hmem
    rw [hhand, ← Multiset.cons_erase hb, Multiset.add_cons, Multiset.cons_add] at hset
    exact add_right_cancel ((Multiset.cons_inj_right b).mp hset)
  have hfan : ∀ k, ((a.set h ((a.shares h).withHand rest)).shares k).fan = none := by
    intro k
    have hsame : ((a.set h ((a.shares h).withHand rest)).shares k).fan = (a.shares k).fan :=
      Account.fan_set (by rfl) k
    exact hsame.trans (hinv.no_fan hfree k)
  refine ⟨hinv.geometry, ?_, fun c hc => hinv.paged_refcnt _ (hsub hc), ?_, ?_, ?_, ?_, ?_,
    hinv.nodup, hinv.consumers_set rfl, hinv.wants_set (hinv.wants h), hcount, hbal,
    hinv.contexts_set rfl, hinv.sane⟩
  · have hpage : ((a.shares h).withHand rest).page = (a.shares h).page := rfl
    have hlease := Account.lease_set (a := { a with live }) hpage
    have hall := (Account.lease_refcnt (a := Account.set { a with live } h _) (b := b)
      ((a.mem b).refcnt - 1)).trans hlease
    exact hall ▸ hleases
  · refine Eq.mp (congrArg Ledger.Sound ?_) (hinv.sound.drop hb (hinv.not_owned hfree hb))
    refine Ledger.ext hlive.symm ?_ ?_ hrefs.symm
    · funext c
      exact (Account.count_refcnt (a := a) _ c).symm
    · ext c
      exact exists_congr fun k => by rw [← hown k]; rfl
  · intro k l c hk hl
    exact hinv.owner k l c ((hown k).symm.trans hk) ((hown l).symm.trans hl)
  · intro k c hk _
    have habs := hinv.apart k c ((hown k).symm.trans hk) (hinv.no_fan hfree k)
    have hgoal : c ∉ a.refs.erase b := fun hc => habs (Multiset.mem_of_mem_erase hc)
    exact hrefs ▸ hgoal
  · intro k c rest' m hk
    cases (hfan k).symm.trans hk
  · intro k hk
    cases hfree.symm.trans hk

end Vmq

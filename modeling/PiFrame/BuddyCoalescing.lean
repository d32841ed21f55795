import PiFrame.BuddyRuns
import PiFrame.CoalescedTiling
import Mathlib.Data.Nat.Log

/-!
# What the buddy allocator's free blocks look like

Along every history the free blocks are coalesced: no two of them are buddies.
So the partition depends on the allocated blocks alone, whatever the order of
the requests and releases that led to them, and a history that gives
everything back ends where `ba_create` began.

With the partition known, `ba_alloc` is described completely: it takes the
leftmost of the smallest free blocks that are large enough, and cuts it down.
-/

namespace BuddyAllocator

open AlignedTiling Transition

/-! ## One operation -/

/-- The remainders of a cut: each lies as far above the head as it is long. -/
theorem mem_remainders {head r n : Nat} {c : Block} (hc : c ∈ remainders head r n)
    (halign : 2 ^ (r + n) ∣ head) : c.head = head + 2 ^ c.order ∧ 2 ^ (c.order + 1) ∣ head := by
  induction n with
  | zero => cases hc
  | succ n ih =>
      rcases List.mem_append.mp hc with hc | hc
      · exact ih hc ((Nat.pow_dvd_pow 2 (by omega)).trans halign)
      · rw [List.mem_singleton.mp hc]
        exact ⟨rfl, halign⟩

/-- The remainders, smallest first. -/
theorem remainders_eq_map (head r n : Nat) :
    remainders head r n =
      (List.range n).map fun i => ⟨head + 2 ^ (r + i), r + i, false⟩ := by
  induction n with
  | zero => rfl
  | succ n ih => rw [remainders, ih, List.range_succ, List.map_append]; rfl

/-- No remainder is a buddy of a block that was there before.  The remainders lie inside the
block that was cut, and the buddy of a remainder is there too, in pieces. -/
theorem carve_coalesced {e r : Nat} {left right : List Block} {b : Block}
    (htiles : Tiles 0 e (left ++ b :: right)) (hco : Coalesced (left ++ b :: right))
    (hr : r ≤ b.order) : Coalesced (carve left b r right) := by
  have halign : 2 ^ (r + (b.order - r)) ∣ b.head := by
    have hsum : r + (b.order - r) = b.order := by omega
    rw [hsum]
    exact htiles.aligned (by simp)
  obtain ⟨hbelow, habove⟩ := htiles.middle
  have hparts : ∀ c ∈ carve left b r right, c.allocated = false →
      c ∈ remainders b.head r (b.order - r) ∨ (c ∈ left ++ b :: right ∧ c.head ≠ b.head) := by
    intro c hc hcf
    simp only [carve, List.append_assoc, List.cons_append, List.mem_append, List.mem_cons] at hc
    rcases hc with hc | rfl | hc | hc
    · exact Or.inr ⟨by simp [hc], (hbelow c hc).ne⟩
    · cases hcf
    · exact Or.inl hc
    · exact Or.inr ⟨by simp [hc], (habove c hc).ne'⟩
  intro x hx y hy hxf hyf hbud
  rcases hparts x hx hxf with hxr | ⟨hxo, hxne⟩
  · -- a remainder is aligned for its lower buddy only
    obtain ⟨hhead, hdvd⟩ := mem_remainders hxr halign
    have hlow := hbud.2.1
    rw [hhead] at hlow
    exact not_both_buddies hdvd hlow
  · rcases hparts y hy hyf with hyr | ⟨hyo, -⟩
    · -- the lower buddy of a remainder is the block that was handed out
      obtain ⟨hhead, -⟩ := mem_remainders hyr halign
      have hup := hbud.2.2
      rw [hhead, hbud.order_eq] at hup
      omega
    · exact hco x hxo y hyo hxf hyf hbud

section Operations

variable {ba ba' : Allocator} {bs : List Block}

/-- An allocation splits blocks down to the one that it marks, so no two buddies are free after
it. -/
theorem alloc_coalesced (h : Holds ba bs) (hco : Coalesced bs) {len : Nat} {res : Option Nat}
    (hpos : 1 ≤ len) (hlen : len ≤ ba.size) (hrun : baAlloc ba len = some (ba', res)) :
    Coalesced (baBlocks ba') := by
  rcases baAlloc_spec h hpos hlen with ⟨hspec, -⟩ | ⟨m, left, b, right, hspec, rfl, hfit, hholds⟩
  · obtain ⟨rfl, -⟩ := Prod.mk.inj (Option.some.inj (hspec.symm.trans hrun))
    rw [h.baBlocks]
    exact hco
  · obtain ⟨rfl, -⟩ := Prod.mk.inj (Option.some.inj (hspec.symm.trans hrun))
    rw [hholds.baBlocks]
    obtain ⟨-, -, -, hb, -⟩ := hfit
    exact carve_coalesced h.shows.tiles hco hb.2

/-- A freed block is merged as far as it goes, so no two buddies are free after it. -/
theorem free_coalesced (h : Holds ba bs) (hco : Coalesced bs) {b : Block} (hb : b ∈ bs)
    (hrun : baFree ba b.head = some ba') : Coalesced (baBlocks ba') := by
  obtain ⟨left, right, rfl⟩ := List.append_of_mem hb
  obtain ⟨m, out, hspec, hmerge, hholds⟩ := baFree_spec h
  obtain rfl := Option.some.inj (hspec.symm.trans hrun)
  rw [hholds.baBlocks]
  apply hmerge.coalesced (s := 0) (e := ba.nrPages)
  · obtain ⟨x, hleft, hright⟩ := tiles_append.mp h.shows.tiles
    exact tiles_append.mpr ⟨x, hleft, hright⟩
  · apply hco.sublist
    exact List.Sublist.append_left (List.sublist_cons_self b right) left

end Operations

/-! ## Histories -/

variable {size pageSize : Nat} {s t : BaState} {bs cs : List Block} {m : Memory} {ba : Allocator}
  {tr : List BaOp}

/-- One operation of a history. -/
theorem BaStep.coalesced (hinv : BaInv size pageSize s bs) (hco : Coalesced bs) {op : BaOp}
    (hstep : BaStep s op t) : Coalesced (baBlocks t.ba) := by
  obtain ⟨hop, hexec⟩ := hstep
  cases op with
  | alloc len =>
      obtain ⟨⟨ba', res⟩, hrun, hres⟩ := Option.map_eq_some_iff.mp hexec
      have hnext := alloc_coalesced hinv.holds hco hop.1 hop.2 hrun
      cases res <;> exact hres ▸ hnext
  | free index =>
      obtain ⟨ba', hrun, rfl⟩ := Option.map_eq_some_iff.mp hexec
      obtain ⟨a, ha, rfl⟩ := hop
      exact free_coalesced hinv.holds hco (hinv.block ha) hrun

/-- Along every history the partition is coalesced. -/
theorem BaInv.coalesced (hsize : size < 2 ^ 31) (hpage : 0 < pageSize) (hpage' : pageSize < 2 ^ 31)
    (hdvd : 128 ∣ pageSize) (hpast : (m (size / pageSize)).allocated = true)
    (hcreate : baCreate m size pageSize = some ba) (hrun : Run BaStep ⟨ba, []⟩ tr s) :
    ∃ bs, BaInv size pageSize s bs ∧ Coalesced bs := by
  refine hrun.invariant (fun s => ∃ bs, BaInv size pageSize s bs ∧ Coalesced bs) ?_ ?_
  · obtain ⟨ba', hcreate', -, -, hholds⟩ := baCreate_shows hsize hpage hpage' hdvd hpast
    obtain rfl := Option.some.inj (hcreate'.symm.trans hcreate)
    obtain ⟨bs, hinv⟩ := BaInv.create hsize hpage hpage' hdvd hpast hcreate
    have hbs : bs = digitBlocks (size / pageSize) 32 0 :=
      hinv.holds.baBlocks.symm.trans hholds.baBlocks
    exact ⟨bs, hinv, hbs ▸ digitBlocks_coalesced⟩
  · intro t op u hinv hstep
    obtain ⟨bs, hinv, hco⟩ := hinv
    obtain ⟨u', bs', hexec, hinv'⟩ := hinv.exec hstep.1
    obtain rfl := Option.some.inj (hexec.symm.trans hstep.2)
    exact ⟨bs', hinv', hinv'.holds.baBlocks ▸ hstep.coalesced hinv hco⟩

/-- Two states with the same allocated blocks have the same partition. -/
theorem BaInv.partition_eq (hs : BaInv size pageSize s bs) (ht : BaInv size pageSize t cs)
    (hbs : Coalesced bs) (hcs : Coalesced cs)
    (hsame : ∀ b : Block, b.allocated = true → (b ∈ bs ↔ b ∈ cs)) : bs = cs := by
  have htiles := ht.holds.shows.tiles
  rw [ht.holds.pages, ht.size_eq, ht.page_eq, ← hs.size_eq, ← hs.page_eq, ← hs.holds.pages]
    at htiles
  exact hs.holds.shows.tiles.unique htiles hbs hcs hsame

/-- The ledger says which blocks are allocated. -/
theorem BaInv.allocated_iff (hs : BaInv size pageSize s bs) (ht : BaInv size pageSize t cs)
    (hledger : ∀ a, a ∈ s.outstanding ↔ a ∈ t.outstanding) {b : Block}
    (hb : b.allocated = true) : b ∈ bs ↔ b ∈ cs := by
  rw [hs.exact_iff b hb, ht.exact_iff b hb]
  simp only [hledger]

/-- When everything was given back the partition is that of the binary digits. -/
theorem partition_of_empty (hsize : size < 2 ^ 31) (hpage : 0 < pageSize)
    (hpage' : pageSize < 2 ^ 31) (hdvd : 128 ∣ pageSize)
    (hpast : (m (size / pageSize)).allocated = true)
    (hcreate : baCreate m size pageSize = some ba) (hrun : Run BaStep ⟨ba, []⟩ tr s)
    (hempty : s.outstanding = []) : baBlocks s.ba = digitBlocks (size / pageSize) 32 0 := by
  obtain ⟨bs, hinv, hco⟩ := BaInv.coalesced hsize hpage hpage' hdvd hpast hcreate hrun
  obtain ⟨cs, hstart⟩ := BaInv.create hsize hpage hpage' hdvd hpast hcreate
  obtain ⟨ba', hcreate', -, -, hholds⟩ := baCreate_shows hsize hpage hpage' hdvd hpast
  obtain rfl := Option.some.inj (hcreate'.symm.trans hcreate)
  obtain rfl : digitBlocks (size / pageSize) 32 0 = cs :=
    hholds.baBlocks.symm.trans hstart.holds.baBlocks
  rw [hinv.holds.baBlocks]
  apply hinv.partition_eq hstart hco digitBlocks_coalesced
  intro b hb
  exact hinv.allocated_iff hstart (fun a => by rw [hempty]) hb

/-- **Coalescing is complete.**  In every state of every history no two free
blocks of one order have heads that differ in the bit of that order; states
with the same allocated blocks have the same partition; an allocation that is
given back at once leaves the partition as it was; and when everything is
given back the partition is the one that `ba_create` built. -/
theorem ba_coalescing (hsize : size < 2 ^ 31) (hpage : 0 < pageSize) (hpage' : pageSize < 2 ^ 31)
    (hdvd : 128 ∣ pageSize) (hpast : (m (size / pageSize)).allocated = true)
    (hcreate : baCreate m size pageSize = some ba) (hrun : Run BaStep ⟨ba, []⟩ tr s) :
    (∀ b ∈ baBlocks s.ba, ∀ c ∈ baBlocks s.ba, b.allocated = false → c.allocated = false →
      b.order = c.order → c.head ≠ b.head ^^^ 2 ^ b.order) ∧
    (∀ tr' t, Run BaStep ⟨ba, []⟩ tr' t →
      (∀ b : Block, b.allocated = true → (b ∈ baBlocks s.ba ↔ b ∈ baBlocks t.ba)) →
      baBlocks s.ba = baBlocks t.ba) ∧
    (∀ len ba' index, 1 ≤ len → len ≤ size → baAlloc s.ba len = some (ba', some index) →
      ∃ ba'', baFree ba' index = some ba'' ∧ baBlocks ba'' = baBlocks s.ba) ∧
    (s.outstanding = [] → baBlocks s.ba = baBlocks ba) := by
  have hall := fun {tr t} (h : Run BaStep ⟨ba, []⟩ tr t) =>
    BaInv.coalesced hsize hpage hpage' hdvd hpast hcreate h
  obtain ⟨bs, hinv, hco⟩ := hall hrun
  obtain rfl : baBlocks s.ba = bs := hinv.holds.baBlocks
  refine ⟨fun b hb c hc => hco.head_ne hinv.holds.shows.tiles hb hc, ?_, ?_, ?_⟩
  · intro tr' t hrun' hsame
    obtain ⟨cs, ht, hcs⟩ := hall hrun'
    obtain rfl : baBlocks t.ba = cs := ht.holds.baBlocks
    exact hinv.partition_eq ht hco hcs hsame
  · intro len ba' index hpos hlen halloc
    have hop : (BaOp.alloc len).Admissible s := ⟨hpos, hinv.size_eq ▸ hlen⟩
    have hstep : BaStep s (.alloc len) ⟨ba', (index, len) :: s.outstanding⟩ :=
      ⟨hop, by simp [baExec, halloc]⟩
    obtain ⟨bs₁, hinv₁, -⟩ := hall (hrun.snoc hstep)
    have hadm : (BaOp.free index).Admissible ⟨ba', (index, len) :: s.outstanding⟩ :=
      ⟨(index, len), List.mem_cons_self, rfl⟩
    obtain ⟨u, bs₂, hexec, -⟩ := hinv₁.free hadm
    obtain ⟨ba'', hfree, rfl⟩ := Option.map_eq_some_iff.mp hexec
    have hback : BaStep ⟨ba', (index, len) :: s.outstanding⟩ (.free index)
        ⟨ba'', ((index, len) :: s.outstanding).filter (·.1 ≠ index)⟩ := ⟨hadm, hexec⟩
    obtain ⟨cs, hu, hcs⟩ := hall ((hrun.snoc hstep).snoc hback)
    have hfresh : ∀ a ∈ s.outstanding, a.1 ≠ index := by
      intro a ha heq
      have hnot := (List.nodup_cons.mp hinv₁.distinct).1
      exact hnot (List.mem_map.mpr ⟨a, ha, heq⟩)
    refine ⟨ba'', hfree, hu.holds.baBlocks.trans ?_⟩
    apply hu.partition_eq hinv hcs hco
    intro b hb
    apply hu.allocated_iff hinv ?_ hb
    intro a
    simp only [List.mem_filter, List.mem_cons, decide_eq_true_eq]
    constructor
    · intro h
      rcases h.1 with rfl | ha
      · exact absurd rfl h.2
      · exact ha
    · exact fun ha => ⟨Or.inr ha, hfresh a ha⟩
  · intro hempty
    have hnil : Run BaStep ⟨ba, []⟩ [] ⟨ba, []⟩ := Run.nil
    rw [partition_of_empty hsize hpage hpage' hdvd hpast hcreate hrun hempty]
    exact (partition_of_empty hsize hpage hpage' hdvd hpast hcreate hnil rfl).symm

/-- Eleven pages, two allocations, given back in the order they were made. -/
theorem ba_coalescing_eleven_pages : ∃ ba s,
    baCreate (fun _ => ⟨true, 0⟩) 1413 128 = some ba ∧
    Run BaStep ⟨ba, []⟩ [.alloc 200, .alloc 1, .free 8, .free 10] s ∧
    baBlocks s.ba = baBlocks ba := by
  let ba := (baCreate (fun _ => ⟨true, 0⟩) 1413 128).get (by decide)
  let s := (baRun ⟨ba, []⟩ [.alloc 200, .alloc 1, .free 8, .free 10]).get (by decide +kernel)
  have hcreate : baCreate (fun _ => ⟨true, 0⟩) 1413 128 = some ba := (Option.some_get _).symm
  have hrun : Run BaStep ⟨ba, []⟩ [.alloc 200, .alloc 1, .free 8, .free 10] s :=
    run_of_baRun (Option.some_get _).symm
  obtain ⟨-, -, -, hback⟩ := ba_coalescing (by decide) (by decide) (by decide) (by decide) rfl
    hcreate hrun
  exact ⟨ba, s, hcreate, hrun, hback (by decide +kernel)⟩

/-! ## What an allocation returns -/

/-- `ba_order` is the binary logarithm of the page count, rounded up. -/
theorem Holds.baOrder_eq_clog (h : Holds ba bs) {len : Nat} (hpos : 1 ≤ len)
    (hlen : len ≤ ba.size) : baOrder len ba.pageSize = Nat.clog 2 (pagesOf len ba.pageSize) := by
  obtain ⟨h32, -, hpages⟩ := h.baOrder_lt hpos hlen
  have hle : Nat.clog 2 (pagesOf len ba.pageSize) ≤ baOrder len ba.pageSize :=
    Nat.clog_le_of_le_pow hpages
  have hfit : len + ba.pageSize - 1 < 2 ^ 32 := by
    have hsize := h.size_lt
    have hpage := h.page_lt
    omega
  apply Nat.le_antisymm _ hle
  apply (baOrder_le_iff h.page_pos hpos hfit (by omega)).mpr
  exact Nat.le_pow_clog (by decide) _

/-- **Best fit.**  In every state of every history a request of `len` bytes,
which needs a block of order `r`, is refused exactly when no free block has
order `r` or more, and then nothing changes.  Otherwise it gets the head of
the leftmost of the smallest free blocks that are large enough; what is left
of that block stays free in blocks of orders `r` and up, and all other blocks
stay as they are. -/
theorem ba_alloc_best_fit (hsize : size < 2 ^ 31) (hpage : 0 < pageSize)
    (hpage' : pageSize < 2 ^ 31) (hdvd : 128 ∣ pageSize)
    (hpast : (m (size / pageSize)).allocated = true)
    (hcreate : baCreate m size pageSize = some ba) (hrun : Run BaStep ⟨ba, []⟩ tr s)
    {len r : Nat} (hpos : 1 ≤ len) (hlen : len ≤ size)
    (hr : r = Nat.clog 2 (pagesOf len pageSize)) :
    ((∃ ba', baAlloc s.ba len = some (ba', none)) ↔ ∀ c ∈ baBlocks s.ba, ¬ Fits r c) ∧
    (∀ ba', baAlloc s.ba len = some (ba', none) → ba' = s.ba) ∧
    ((∃ c ∈ baBlocks s.ba, Fits r c) → ∃ ba' left b right,
      baAlloc s.ba len = some (ba', some b.head) ∧
      baBlocks s.ba = left ++ b :: right ∧ Fits r b ∧
      (∀ c ∈ left, Fits r c → b.order < c.order) ∧
      (∀ c ∈ right, Fits r c → b.order ≤ c.order) ∧
      baBlocks ba' = left ++ ⟨b.head, r, true⟩ ::
        (List.range (b.order - r)).map (fun i => ⟨b.head + 2 ^ (r + i), r + i, false⟩) ++
          right) := by
  obtain ⟨bs, hinv⟩ := BaInv.run hsize hpage hpage' hdvd hpast hcreate hrun
  have hle : len ≤ s.ba.size := hinv.size_eq ▸ hlen
  have horder : baOrder len s.ba.pageSize = r := by
    rw [hr, ← hinv.page_eq]
    exact hinv.holds.baOrder_eq_clog hpos hle
  have hspec := baAlloc_spec hinv.holds hpos hle
  rw [horder] at hspec
  rw [hinv.holds.baBlocks]
  rcases hspec with ⟨hmiss, hnone⟩ | ⟨m', left, b, right, hhit, rfl, hbest, hholds⟩
  · refine ⟨⟨fun _ => hnone, fun _ => ⟨s.ba, hmiss⟩⟩, ?_, ?_⟩
    · intro ba' halloc
      exact (Prod.mk.inj (Option.some.inj (halloc.symm.trans hmiss))).1
    · intro hfits
      obtain ⟨c, hc, hfit⟩ := hfits
      exact absurd hfit (hnone c hc)
  · have hfound : ∀ ba', baAlloc s.ba len ≠ some (ba', none) := by
      intro ba' halloc
      cases (Prod.mk.inj (Option.some.inj (halloc.symm.trans hhit))).2
    obtain ⟨left', right', hsplit, hfit, hleft, hright⟩ := hbest
    have hmem : b ∈ left ++ b :: right := by simp
    refine ⟨⟨?_, ?_⟩, fun ba' halloc => absurd halloc (hfound ba'), fun _ => ?_⟩
    · intro h
      obtain ⟨ba', halloc⟩ := h
      exact absurd halloc (hfound ba')
    · exact fun h => absurd hfit (h b hmem)
    · -- the best fit stands at one place of the partition only
      obtain ⟨rfl, rfl⟩ : left = left' ∧ right = right' :=
        hinv.holds.shows.tiles.append_inj hsplit
      refine ⟨_, left, b, right, hhit, rfl, hfit, hleft, hright, ?_⟩
      rw [hholds.baBlocks, carve, remainders_eq_map]

/-- On eleven pages whose small blocks are taken, three pages come out of the
block of eight. -/
theorem ba_alloc_best_fit_eleven_pages : ∃ ba s ba' index,
    baCreate (fun _ => ⟨true, 0⟩) 1413 128 = some ba ∧
    Run BaStep ⟨ba, []⟩ [.alloc 1, .alloc 200] s ∧
    baAlloc s.ba 300 = some (ba', some index) := by
  let ba := (baCreate (fun _ => ⟨true, 0⟩) 1413 128).get (by decide)
  let s := (baRun ⟨ba, []⟩ [.alloc 1, .alloc 200]).get (by decide +kernel)
  have hcreate : baCreate (fun _ => ⟨true, 0⟩) 1413 128 = some ba := (Option.some_get _).symm
  have hrun : Run BaStep ⟨ba, []⟩ [.alloc 1, .alloc 200] s := run_of_baRun (Option.some_get _).symm
  have hpos : 1 ≤ 300 := by decide
  obtain ⟨-, -, hfit⟩ := ba_alloc_best_fit (by decide) (by decide) (by decide) (by decide) rfl
    hcreate hrun hpos (by decide) rfl
  obtain ⟨ba', left, b, right, halloc, -⟩ := hfit (by decide +kernel)
  exact ⟨ba, s, ba', b.head, hcreate, hrun, halloc⟩

end BuddyAllocator

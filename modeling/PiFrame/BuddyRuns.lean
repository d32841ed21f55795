import PiFrame.BuddyRefinement
import PiFrame.Transition
import Mathlib.Order.CompletePartialOrder
import Mathlib.Order.Interval.Set.Disjoint

/-!
# Histories of the buddy allocator

A history starts with `ba_create` and goes on with requests and releases.  The
state carries, next to the allocator, the ledger of what was handed out and
not yet given back; a release is admissible only for an entry of that ledger.

`BaInv` is the invariant of all histories: the bitmap shows a tiling whose
allocated blocks are exactly the ledger's.  Everything said about overlap and
bounds is read off that tiling.
-/

namespace BuddyAllocator

open AlignedTiling Transition

/-! ## Allocated blocks under the two operations -/

/-- What is left of a block after a split is free. -/
theorem mem_remainders_free {head r n : Nat} {c : Block} (hc : c ∈ remainders head r n) :
    c.allocated = false := by
  induction n with
  | zero => cases hc
  | succ n ih =>
      rcases List.mem_append.mp hc with hc | hc
      · exact ih hc
      · rw [List.mem_singleton.mp hc]

/-- The remainders are smaller than the block that was cut down. -/
theorem mem_remainders_order {head r n : Nat} {c : Block} (hc : c ∈ remainders head r n) :
    c.order < r + n := by
  induction n with
  | zero => cases hc
  | succ n ih =>
      rcases List.mem_append.mp hc with hc | hc
      · have hlt := ih hc
        omega
      · rw [List.mem_singleton.mp hc]
        exact Nat.lt_succ_self _

/-- Whatever fits after carving did fit before. -/
theorem fits_of_carve {left right : List Block} {b : Block} {r i : Nat}
    (hb : Fits r b) (hfits : ∃ c ∈ carve left b r right, Fits i c) :
    ∃ c ∈ left ++ b :: right, Fits i c := by
  obtain ⟨c, hc, hfree, hi⟩ := hfits
  simp only [carve, List.append_assoc, List.cons_append, List.mem_append, List.mem_cons] at hc
  rcases hc with hleft | rfl | hrem | hright
  · exact ⟨c, by simp [hleft], hfree, hi⟩
  · cases hfree
  · have hlt := mem_remainders_order hrem
    have hle := hb.2
    exact ⟨b, by simp, hb.1, by omega⟩
  · exact ⟨c, by simp [hright], hfree, hi⟩

/-- Carving a free block adds one allocated block and removes none. -/
theorem mem_carve_iff {left right : List Block} {b c : Block} {r : Nat}
    (hb : b.allocated = false) (hc : c.allocated = true) :
    c ∈ carve left b r right ↔ c = ⟨b.head, r, true⟩ ∨ c ∈ left ++ b :: right := by
  have hrem : c ∉ remainders b.head r (b.order - r) := fun h => by
    simp [mem_remainders_free h] at hc
  have hne : c ≠ b := fun h => by simp [h, hb] at hc
  simp only [carve, List.append_assoc, List.cons_append, List.mem_append, List.mem_cons, hrem,
    hne, false_or]
  exact or_left_comm

/-- Coalescing keeps exactly the allocated blocks on both sides. -/
theorem coalesces_mem_iff {left right out : List Block} {b c : Block}
    (h : Coalesces left b right out) (hb : b.allocated = false) (hc : c.allocated = true) :
    c ∈ out ↔ c ∈ left ++ right := by
  have hfilter := congrArg (c ∈ ·) (h.allocated hb)
  simpa [List.mem_filter, hc] using hfilter

/-! ## Histories -/

/-- The allocator and the ledger of outstanding allocations `(index, len)`. -/
structure BaState where
  ba : Allocator
  outstanding : List (Nat × Nat)

inductive BaOp where
  | alloc (len : Nat)
  | free (index : Nat)
  deriving DecidableEq, Repr

/-- What a caller may ask for in state `s`. -/
def BaOp.Admissible (s : BaState) : BaOp → Prop
  | .alloc len => 1 ≤ len ∧ len ≤ s.ba.size
  | .free index => ∃ a ∈ s.outstanding, a.1 = index

instance (s : BaState) (op : BaOp) : Decidable (op.Admissible s) := by
  cases op <;> unfold BaOp.Admissible <;> infer_instance

/-- Run one operation; `none` only if a loop of the allocator does not end. -/
def baExec (s : BaState) : BaOp → Option BaState
  | .alloc len =>
      (baAlloc s.ba len).map fun
        | (ba, none) => { s with ba }
        | (ba, some index) => ⟨ba, (index, len) :: s.outstanding⟩
  | .free index =>
      (baFree s.ba index).map fun ba => ⟨ba, s.outstanding.filter (·.1 ≠ index)⟩

/-- An admissible operation that finishes. -/
def BaStep (s : BaState) (op : BaOp) (t : BaState) : Prop :=
  op.Admissible s ∧ baExec s op = some t

/-- Run admissible operations one after the other. -/
def baRun (s : BaState) : List BaOp → Option BaState
  | [] => some s
  | op :: ops => if op.Admissible s then (baExec s op).bind (baRun · ops) else none

theorem run_of_baRun {s t : BaState} {ops : List BaOp} (h : baRun s ops = some t) :
    Run BaStep s ops t := by
  induction ops generalizing s with
  | nil =>
      obtain rfl := Option.some.inj h
      exact Run.nil
  | cons op ops ih =>
      simp only [baRun] at h
      split at h
      · rename_i hop
        obtain ⟨u, hexec, hrest⟩ := Option.bind_eq_some_iff.mp h
        have hfirst : BaStep s op u := ⟨hop, hexec⟩
        exact (Run.single hfirst).append (ih hrest)
      · cases h

/-- The pages of the block at `index`. -/
def pagesAt (ba : Allocator) (index : Nat) : Set Nat :=
  Set.Ico index (baNextIndex ba.bitmap index)

/-- The bitmap shows a tiling whose allocated blocks are the ledger's. -/
structure BaInv (size pageSize : Nat) (s : BaState) (bs : List Block) : Prop where
  holds : Holds s.ba bs
  size_eq : s.ba.size = size
  page_eq : s.ba.pageSize = pageSize
  distinct : (s.outstanding.map (·.1)).Nodup
  admitted : ∀ a ∈ s.outstanding, 1 ≤ a.2 ∧ a.2 ≤ size
  exact_iff : ∀ c : Block, c.allocated = true →
    (c ∈ bs ↔ ∃ a ∈ s.outstanding, a.1 = c.head ∧ baOrder a.2 pageSize = c.order)

variable {size pageSize : Nat} {s t : BaState} {bs : List Block}

/-- The block behind a ledger entry. -/
theorem BaInv.block (h : BaInv size pageSize s bs) {a : Nat × Nat} (ha : a ∈ s.outstanding) :
    ⟨a.1, baOrder a.2 pageSize, true⟩ ∈ bs :=
  (h.exact_iff _ rfl).mpr ⟨a, ha, rfl, rfl⟩

/-- A request keeps the invariant, and it always finishes.  If it is granted, the block at its
index was free and is now in the ledger. -/
theorem BaInv.alloc (h : BaInv size pageSize s bs) {len : Nat}
    (hop : (BaOp.alloc len).Admissible s) :
    ∃ t bs', baExec s (.alloc len) = some t ∧ BaInv size pageSize t bs' := by
  rcases baAlloc_spec h.holds hop.1 hop.2 with
    ⟨hrun, -⟩ | ⟨m, left, b, right, hrun, rfl, ⟨_, _, -, hfit, -⟩, hholds⟩
  · exact ⟨s, bs, by simp [baExec, hrun], h⟩
  · refine ⟨⟨{ s.ba with bitmap := m }, (b.head, len) :: s.outstanding⟩, _,
      by simp [baExec, hrun], hholds, h.size_eq, h.page_eq, ?_, ?_, ?_⟩
    · refine List.nodup_cons.mpr ⟨fun hmem => ?_, h.distinct⟩
      -- a ledger entry at `b.head` would make the free block `b` allocated
      obtain ⟨a, ha, hab⟩ := List.mem_map.mp hmem
      have hblock := h.block ha
      have heq := h.holds.shows.tiles.eq_of_head_eq hblock (b := b) (by simp) hab
      have hfree := hfit.1
      rw [← heq] at hfree
      cases hfree
    · intro a ha
      rcases List.mem_cons.mp ha with rfl | ha
      · exact ⟨hop.1, h.size_eq ▸ hop.2⟩
      · exact h.admitted a ha
    · intro c hc
      rw [mem_carve_iff hfit.1 hc, h.exact_iff c hc, h.page_eq]
      constructor
      · rintro (rfl | ⟨a, ha, hac⟩)
        · exact ⟨_, List.mem_cons_self, rfl, rfl⟩
        · exact ⟨a, List.mem_cons_of_mem _ ha, hac⟩
      · rintro ⟨a, ha, hhead, horder⟩
        rcases List.mem_cons.mp ha with rfl | ha
        · left
          cases c
          simp_all
        · exact Or.inr ⟨a, ha, hhead, horder⟩

/-- A release of an outstanding allocation keeps the invariant, and it always finishes.  The
block leaves the ledger, and no other block of the ledger is touched. -/
theorem BaInv.free (h : BaInv size pageSize s bs) {index : Nat}
    (hop : (BaOp.free index).Admissible s) :
    ∃ t bs', baExec s (.free index) = some t ∧ BaInv size pageSize t bs' := by
  obtain ⟨a, ha, rfl⟩ := hop
  obtain ⟨left, right, hbs⟩ := List.append_of_mem (h.block ha)
  subst hbs
  obtain ⟨m, out, hrun, hco, hholds⟩ := baFree_spec h.holds
  simp only at hrun
  refine ⟨⟨{ s.ba with bitmap := m }, s.outstanding.filter (·.1 ≠ a.1)⟩, out,
    by simp [baExec, hrun], hholds, h.size_eq, h.page_eq, ?_, ?_, ?_⟩
  · exact h.distinct.sublist (List.filter_sublist.map _)
  · exact fun c hc => h.admitted c (List.mem_filter.mp hc).1
  · intro c hc
    have htiles := h.holds.shows.tiles
    rw [coalesces_mem_iff hco rfl hc]
    have hsplit : c ∈ left ++ right ↔
        c ∈ left ++ ⟨a.1, baOrder a.2 pageSize, true⟩ :: right ∧ c.head ≠ a.1 := by
      constructor
      · intro hmem
        refine ⟨by simp only [List.mem_append, List.mem_cons] at hmem ⊢; tauto, fun heq => ?_⟩
        have hpair := htiles.pairwise
        have hb := Block.head_lt_stop ⟨a.1, baOrder a.2 pageSize, true⟩
        have hc' := c.head_lt_stop
        rcases List.mem_append.mp hmem with hmem | hmem
        · have := (List.pairwise_append.mp hpair).2.2 c hmem _ List.mem_cons_self
          simp only at this
          omega
        · have := (List.pairwise_cons.mp (List.pairwise_append.mp hpair).2.1).1 c hmem
          simp only at hb
          omega
      · rintro ⟨hmem, hne⟩
        simp only [List.mem_append, List.mem_cons] at hmem ⊢
        rcases hmem with hmem | rfl | hmem
        · exact Or.inl hmem
        · exact absurd rfl hne
        · exact Or.inr hmem
    rw [hsplit, h.exact_iff c hc]
    constructor
    · rintro ⟨⟨d, hd, hdc⟩, hne⟩
      exact ⟨d, List.mem_filter.mpr ⟨hd, by simpa [hdc.1] using hne⟩, hdc⟩
    · rintro ⟨d, hd, hdc⟩
      obtain ⟨hd, hne⟩ := List.mem_filter.mp hd
      exact ⟨⟨d, hd, hdc⟩, by simpa [hdc.1] using hne⟩

/-- Every admissible operation finishes and keeps the invariant. -/
theorem BaInv.exec (h : BaInv size pageSize s bs) {op : BaOp} (hop : op.Admissible s) :
    ∃ t bs', baExec s op = some t ∧ BaInv size pageSize t bs' := by
  cases op with
  | alloc len => exact h.alloc hop
  | free index => exact h.free hop

/-- `ba_create` starts with nothing handed out. -/
theorem BaInv.create {m : Memory} {ba : Allocator}
    (hsize : size < 2 ^ 31) (hpage : 0 < pageSize) (hpage' : pageSize < 2 ^ 31)
    (hdvd : 128 ∣ pageSize) (hpast : (m (size / pageSize)).allocated = true)
    (hcreate : baCreate m size pageSize = some ba) : ∃ bs, BaInv size pageSize ⟨ba, []⟩ bs := by
  obtain ⟨ba', hcreate', hsz, hps, hholds⟩ := baCreate_shows hsize hpage hpage' hdvd hpast
  obtain rfl : ba' = ba := by rw [hcreate'] at hcreate; exact Option.some.inj hcreate
  refine ⟨_, hholds, hsz, hps, by simp, by simp, fun c hc => ⟨fun hmem => ?_, by simp⟩⟩
  simp [digitBlocks_free hmem] at hc

/-- The invariant holds in every state of every history. -/
theorem BaInv.run {m : Memory} {ba : Allocator} {tr : List BaOp}
    (hsize : size < 2 ^ 31) (hpage : 0 < pageSize) (hpage' : pageSize < 2 ^ 31)
    (hdvd : 128 ∣ pageSize) (hpast : (m (size / pageSize)).allocated = true)
    (hcreate : baCreate m size pageSize = some ba) (hrun : Run BaStep ⟨ba, []⟩ tr s) :
    ∃ bs, BaInv size pageSize s bs := by
  refine hrun.invariant (fun s => ∃ bs, BaInv size pageSize s bs)
    (BaInv.create hsize hpage hpage' hdvd hpast hcreate) ?_
  rintro t op u ⟨bs, hinv⟩ ⟨hop, hexec⟩
  obtain ⟨u', bs', hexec', hinv'⟩ := hinv.exec hop
  rw [hexec] at hexec'
  exact ⟨bs', Option.some.inj hexec' ▸ hinv'⟩

/-- The pages of a ledger entry are those of its block. -/
theorem BaInv.pagesAt (h : BaInv size pageSize s bs) {a : Nat × Nat} (ha : a ∈ s.outstanding) :
    pagesAt s.ba a.1 = Set.Ico a.1 (a.1 + 2 ^ baOrder a.2 pageSize) := by
  have hentry := h.holds.shows.entry (h.block ha)
  rw [BuddyAllocator.pagesAt, baNextIndex, hentry, Nat.one_shiftLeft]

/-- Two entries of the ledger occupy disjoint pages. -/
theorem BaInv.disjoint (h : BaInv size pageSize s bs) {a b : Nat × Nat}
    (ha : a ∈ s.outstanding) (hb : b ∈ s.outstanding) (hne : a.1 ≠ b.1) :
    Disjoint (BuddyAllocator.pagesAt s.ba a.1) (BuddyAllocator.pagesAt s.ba b.1) := by
  rw [h.pagesAt ha, h.pagesAt hb, Set.Ico_disjoint_Ico]
  rcases h.holds.shows.tiles.eq_or_disjoint (h.block ha) (h.block hb) with heq | hd | hd
  · exact absurd (congrArg Block.head heq) hne
  · exact le_trans (min_le_left _ _) (le_trans hd (le_max_right _ _))
  · exact le_trans (min_le_right _ _) (le_trans hd (le_max_left _ _))

/-- The block of a ledger entry has room for its length. -/
theorem BaInv.room (h : BaInv size pageSize s bs) {a : Nat × Nat} (ha : a ∈ s.outstanding) :
    a.2 ≤ 2 ^ baOrder a.2 pageSize * pageSize := by
  obtain ⟨hpos, hlen⟩ := h.admitted a ha
  obtain ⟨-, -, hpages⟩ := h.holds.baOrder_lt hpos (h.size_eq ▸ hlen)
  have hp : 0 < pageSize := h.page_eq ▸ h.holds.page_pos
  rw [h.page_eq] at hpages
  have hceil : a.2 ≤ pagesOf a.2 pageSize * pageSize := by
    have := Nat.lt_div_mul_add (a := a.2 + pageSize - 1) hp
    unfold pagesOf
    omega
  exact hceil.trans (Nat.mul_le_mul_right _ hpages)

/-- A ledger entry lies in the shared memory with all its bytes. -/
theorem BaInv.fits (h : BaInv size pageSize s bs) {a : Nat × Nat} (ha : a ∈ s.outstanding) :
    a.1 * pageSize + a.2 ≤ size := by
  have hbound := (h.holds.shows.tiles.mem_bounds (h.block ha)).2
  rw [Block.stop, h.holds.pages, h.size_eq, h.page_eq] at hbound
  have hspan := (Nat.mul_le_mul_right pageSize hbound).trans (Nat.div_mul_le_self _ _)
  rw [Nat.add_mul] at hspan
  exact (Nat.add_le_add_left (h.room ha) _).trans hspan

/-- **Histories of the allocator.**  In every state the walk by
`BA_NEXT_INDEX` meets blocks that tile the pages exactly, each at a multiple
of its size; only heads of allocated blocks have the allocated bit set; the
outstanding allocations occupy disjoint pages and stay within the memory; and
every admissible further operation finishes. -/
theorem ba_histories {m : Memory} {ba : Allocator} {tr : List BaOp}
    (hsize : size < 2 ^ 31) (hpage : 0 < pageSize) (hpage' : pageSize < 2 ^ 31)
    (hdvd : 128 ∣ pageSize) (hpast : (m (size / pageSize)).allocated = true)
    (hcreate : baCreate m size pageSize = some ba) (hrun : Run BaStep ⟨ba, []⟩ tr s) :
    Tiles 0 s.ba.nrPages (baBlocks s.ba) ∧
    (∀ b ∈ baBlocks s.ba, 2 ^ b.order ∣ b.head) ∧
    (∀ i < s.ba.nrPages, (s.ba.bitmap i).allocated = true →
      ∃ b ∈ baBlocks s.ba, b.head = i ∧ b.allocated = true) ∧
    s.outstanding.Pairwise (fun a b => Disjoint (pagesAt s.ba a.1) (pagesAt s.ba b.1)) ∧
    (∀ a ∈ s.outstanding, a.1 * pageSize + a.2 ≤ size) ∧
    (∀ op : BaOp, op.Admissible s → ∃ t, baExec s op = some t) := by
  obtain ⟨bs, hinv⟩ := BaInv.run hsize hpage hpage' hdvd hpast hcreate hrun
  have hblocks := hinv.holds.baBlocks
  have htiles := hinv.holds.shows.tiles
  rw [hblocks]
  refine ⟨htiles, fun b hb => htiles.aligned hb,
    fun i hi hset => hinv.holds.shows.of_allocated (Nat.zero_le i) hi hset, ?_,
    fun a ha => hinv.fits ha, fun op hop => ?_⟩
  · refine (List.pairwise_map.mp hinv.distinct).imp_of_mem fun ha hb hne => ?_
    exact hinv.disjoint ha hb hne
  · obtain ⟨t, bs', hexec, -⟩ := hinv.exec hop
    exact ⟨t, hexec⟩

/-- A history on eleven pages and five spare bytes. -/
theorem ba_histories_eleven_pages : ∃ ba s,
    baCreate (fun _ => ⟨true, 0⟩) 1413 128 = some ba ∧
    Run BaStep ⟨ba, []⟩ [.alloc 200, .alloc 1, .free 8] s ∧
    s.outstanding = [(10, 1)] ∧
    Tiles 0 s.ba.nrPages (baBlocks s.ba) ∧
    (∀ a ∈ s.outstanding, a.1 * 128 + a.2 ≤ 1413) := by
  let ba := (baCreate (fun _ => ⟨true, 0⟩) 1413 128).get (by decide)
  let s := (baRun ⟨ba, []⟩ [.alloc 200, .alloc 1, .free 8]).get (by decide +kernel)
  have hcreate : baCreate (fun _ => ⟨true, 0⟩) 1413 128 = some ba := (Option.some_get _).symm
  have hrun : Run BaStep ⟨ba, []⟩ [.alloc 200, .alloc 1, .free 8] s :=
    run_of_baRun (Option.some_get _).symm
  obtain ⟨htiles, -, -, -, hfits, -⟩ := ba_histories (by decide) (by decide) (by decide)
    (by decide) rfl hcreate hrun
  exact ⟨ba, s, hcreate, hrun, by decide +kernel, htiles, hfits⟩

end BuddyAllocator

import Mathlib.Data.Set.Card
import PiFrame.BuddyRuns

/-!
# Leases on the allocator

The users of the allocator do not keep a ledger in one place: the page index
that `ba_alloc` returned travels through the variables of a call in flight into
the buffer that records it.  A *lease* is a page index with its length in the
hands of one tenant, and `Leases` says that the outstanding allocations are
exactly the leases, each of them with one tenant.

The three operations are those of the driver: a tenant obtains a block, hands
its lease on to another tenant, or gives it back.
-/

namespace BuddyAllocator

open AlignedTiling

variable {τ : Type*} [DecidableEq τ] {size pageSize : Nat} {ba ba' : Allocator}
  {lease : τ → Option (Nat × Nat)}

/-- The outstanding allocations of `ba` are the leases, one tenant each. -/
structure Leases (size pageSize : Nat) (ba : Allocator) (lease : τ → Option (Nat × Nat)) :
    Prop where
  ledger : ∃ bs outstanding, BaInv size pageSize ⟨ba, outstanding⟩ bs ∧
    ∀ a, a ∈ outstanding ↔ ∃ t, lease t = some a
  single : ∀ t u a b, lease t = some a → lease u = some b → a.1 = b.1 → t = u

omit [DecidableEq τ] in
/-- A lease is of a length that can be asked for, and ends inside the pool. -/
theorem Leases.admitted (h : Leases size pageSize ba lease) {t : τ} {a : Nat × Nat}
    (ha : lease t = some a) : 1 ≤ a.2 ∧ a.2 ≤ size ∧ a.1 * pageSize + a.2 ≤ size := by
  obtain ⟨bs, out, hinv, hout⟩ := h.ledger
  have hmem := (hout a).mpr ⟨t, ha⟩
  have hadm := hinv.admitted a hmem
  exact ⟨hadm.1, hadm.2, hinv.fits hmem⟩

/-- A new tenant: the block was free, so it is nobody else's.  The other leases keep their
blocks, which the split did not touch. -/
theorem Leases.alloc (h : Leases size pageSize ba lease) {t : τ} {len page : Nat}
    (ht : lease t = none) (hpos : 1 ≤ len) (hlen : len ≤ size)
    (halloc : baAlloc ba len = some (ba', some page)) :
    Leases size pageSize ba' (Function.update lease t (some (page, len))) := by
  obtain ⟨bs, out, hinv, hout⟩ := h.ledger
  have hop : (BaOp.alloc len).Admissible ⟨ba, out⟩ := ⟨hpos, hinv.size_eq ▸ hlen⟩
  obtain ⟨s, bs', hexec, hinv'⟩ := hinv.alloc hop
  simp only [baExec, halloc, Option.map_some, Option.some.injEq] at hexec
  subst hexec
  have hnew : ∀ a ∈ out, a.1 ≠ page := by
    intro a ha heq
    have hdistinct := hinv'.distinct
    simp only [List.map_cons, List.nodup_cons, List.mem_map, not_exists, not_and] at hdistinct
    exact hdistinct.1 a ha heq
  refine ⟨⟨bs', _, hinv', fun a => ?_⟩, ?_⟩
  · simp only [List.mem_cons, hout]
    constructor
    · rintro (rfl | ⟨u, hu⟩)
      · exact ⟨t, Function.update_self ..⟩
      · have hut : u ≠ t := fun heq => by simp [heq, ht] at hu
        exact ⟨u, by rw [Function.update_of_ne hut, hu]⟩
    · rintro ⟨u, hu⟩
      by_cases hut : u = t
      · subst hut
        rw [Function.update_self] at hu
        exact Or.inl (Option.some.inj hu).symm
      · rw [Function.update_of_ne hut] at hu
        exact Or.inr ⟨u, hu⟩
  · intro u v a b hu hv hab
    by_cases hut : u = t <;> by_cases hvt : v = t
    · rw [hut, hvt]
    · rw [hut, Function.update_self, Option.some.injEq] at hu
      rw [Function.update_of_ne hvt] at hv
      exact absurd (hab ▸ hu ▸ rfl) (hnew b ((hout b).mpr ⟨v, hv⟩))
    · rw [hvt, Function.update_self, Option.some.injEq] at hv
      rw [Function.update_of_ne hut] at hu
      exact absurd (hab ▸ hv ▸ rfl) (hnew a ((hout a).mpr ⟨u, hu⟩))
    · rw [Function.update_of_ne hut] at hu
      rw [Function.update_of_ne hvt] at hv
      exact h.single u v a b hu hv hab

omit [DecidableEq τ] in
/-- A request that finds no room leaves the allocator as it was. -/
theorem Leases.alloc_none (h : Leases size pageSize ba lease) {len : Nat}
    (hpos : 1 ≤ len) (hlen : len ≤ size) (halloc : baAlloc ba len = some (ba', none)) :
    ba' = ba := by
  obtain ⟨bs, out, hinv, -⟩ := h.ledger
  rcases baAlloc_spec hinv.holds hpos (hinv.size_eq ▸ hlen) with
    ⟨hrun, -⟩ | ⟨m, left, b, right, hrun, -⟩
  · rw [hrun] at halloc
    simpa using halloc.symm
  · rw [hrun] at halloc
    simp at halloc

/-- A tenant gives its block back.  The merge joins free blocks only, so the blocks of the
others stay. -/
theorem Leases.free (h : Leases size pageSize ba lease) {t : τ} {a : Nat × Nat}
    (ha : lease t = some a) :
    ∃ ba', baFree ba a.1 = some ba' ∧
      Leases size pageSize ba' (Function.update lease t none) := by
  obtain ⟨bs, out, hinv, hout⟩ := h.ledger
  have hop : (BaOp.free a.1).Admissible ⟨ba, out⟩ := ⟨a, (hout a).mpr ⟨t, ha⟩, rfl⟩
  obtain ⟨s, bs', hexec, hinv'⟩ := hinv.free hop
  simp only [baExec, Option.map_eq_some_iff] at hexec
  obtain ⟨ba', hrun, rfl⟩ := hexec
  refine ⟨ba', hrun, ⟨bs', _, hinv', fun b => ?_⟩, ?_⟩
  · simp only [List.mem_filter, decide_eq_true_eq, hout, ne_eq]
    constructor
    · rintro ⟨⟨u, hu⟩, hne⟩
      have hut : u ≠ t := fun heq => hne (by
        subst heq
        rw [ha] at hu
        rw [Option.some.inj hu])
      exact ⟨u, by rw [Function.update_of_ne hut, hu]⟩
    · rintro ⟨u, hu⟩
      have hut : u ≠ t := fun heq => by simp [heq] at hu
      rw [Function.update_of_ne hut] at hu
      exact ⟨⟨u, hu⟩, fun heq => hut (h.single u t b a hu ha heq)⟩
  · intro u v b c hu hv hbc
    have hut : u ≠ t := fun heq => by simp [heq] at hu
    have hvt : v ≠ t := fun heq => by simp [heq] at hv
    rw [Function.update_of_ne hut] at hu
    rw [Function.update_of_ne hvt] at hv
    exact h.single u v b c hu hv hbc

/-- A lease changes hands: the same block is now another's, and nothing moves in the pool. -/
theorem Leases.move (h : Leases size pageSize ba lease) {t u : τ} {a : Nat × Nat}
    (ha : lease t = some a) (hu : lease u = none) :
    Leases size pageSize ba (Function.update (Function.update lease t none) u (some a)) := by
  have htu : t ≠ u := fun heq => by rw [heq, hu] at ha; cases ha
  have hget : ∀ v b, Function.update (Function.update lease t none) u (some a) v = some b →
      ∃ w, lease w = some b ∧ (v = u ∧ w = t ∨ v ≠ u ∧ v ≠ t ∧ w = v) := by
    intro v b hv
    by_cases hvu : v = u
    · subst hvu
      rw [Function.update_self] at hv
      exact ⟨t, ha.trans hv, Or.inl ⟨rfl, rfl⟩⟩
    · rw [Function.update_of_ne hvu] at hv
      have hvt : v ≠ t := fun heq => by simp [heq] at hv
      rw [Function.update_of_ne hvt] at hv
      exact ⟨v, hv, Or.inr ⟨hvu, hvt, rfl⟩⟩
  obtain ⟨bs, out, hinv, hout⟩ := h.ledger
  refine ⟨⟨bs, out, hinv, fun b => ?_⟩, ?_⟩
  · rw [hout]
    constructor
    · rintro ⟨v, hv⟩
      by_cases hvt : v = t
      · subst hvt
        exact ⟨u, by rw [Function.update_self, ← hv, ha]⟩
      · have hvu : v ≠ u := fun heq => by rw [heq, hu] at hv; cases hv
        exact ⟨v, by rw [Function.update_of_ne hvu, Function.update_of_ne hvt, hv]⟩
    · rintro ⟨v, hv⟩
      obtain ⟨w, hw, -⟩ := hget v b hv
      exact ⟨w, hw⟩
  · intro v w b c hv hw hbc
    obtain ⟨v', hv', hvs⟩ := hget v b hv
    obtain ⟨w', hw', hws⟩ := hget w c hw
    have heq := h.single v' w' b c hv' hw' hbc
    rcases hvs with ⟨rfl, rfl⟩ | ⟨-, hvt, rfl⟩ <;> rcases hws with ⟨rfl, rfl⟩ | ⟨-, hwt, rfl⟩
    · rfl
    · exact absurd heq.symm hwt
    · exact absurd heq hvt
    · exact heq

omit [DecidableEq τ] in
/-- The blocks of two tenants have no byte in common. -/
theorem Leases.disjoint (h : Leases size pageSize ba lease) {t u : τ} {a b : Nat × Nat}
    (ha : lease t = some a) (hb : lease u = some b) (htu : t ≠ u) :
    a.1 * pageSize + a.2 ≤ b.1 * pageSize ∨ b.1 * pageSize + b.2 ≤ a.1 * pageSize := by
  obtain ⟨bs, out, hinv, hout⟩ := h.ledger
  have hamem := (hout a).mpr ⟨t, ha⟩
  have hbmem := (hout b).mpr ⟨u, hb⟩
  have hne : a.1 ≠ b.1 := fun heq => htu (h.single t u a b ha hb heq)
  have hroom : ∀ c ∈ out, c.2 ≤ 2 ^ baOrder c.2 pageSize * pageSize :=
    fun c hc => hinv.room hc
  rcases hinv.holds.shows.tiles.eq_or_disjoint (hinv.block hamem) (hinv.block hbmem) with
    heq | hd | hd
  · exact absurd (congrArg Block.head heq) hne
  · left
    have := Nat.mul_le_mul_right pageSize hd
    rw [Block.stop, Nat.add_mul] at this
    exact (Nat.add_le_add_left (hroom a hamem) _).trans this
  · right
    have := Nat.mul_le_mul_right pageSize hd
    rw [Block.stop, Nat.add_mul] at this
    exact (Nat.add_le_add_left (hroom b hbmem) _).trans this

omit [DecidableEq τ] in
/-- The leased pages are the heads of the allocated blocks of the bitmap. -/
theorem Leases.allocated_iff (h : Leases size pageSize ba lease) {page : Nat} :
    (∃ b ∈ baBlocks ba, b.allocated = true ∧ b.head = page) ↔
      ∃ t a, lease t = some a ∧ a.1 = page := by
  obtain ⟨bs, out, hinv, hout⟩ := h.ledger
  rw [hinv.holds.baBlocks]
  constructor
  · rintro ⟨b, hb, halloc, rfl⟩
    obtain ⟨a, ha, hhead, -⟩ := (hinv.exact_iff b halloc).mp hb
    obtain ⟨t, ht⟩ := (hout a).mp ha
    exact ⟨t, a, ht, hhead⟩
  · rintro ⟨t, a, ht, rfl⟩
    exact ⟨_, hinv.block ((hout a).mpr ⟨t, ht⟩), rfl, rfl⟩

/-- The allocated blocks of the partition. -/
def allocatedBlocks (ba : Allocator) : Set Block :=
  { b | b ∈ baBlocks ba ∧ b.allocated = true }

/-- The block of a lease. -/
def leasedBlock (pageSize : Nat) (a : Nat × Nat) : Block :=
  ⟨a.1, baOrder a.2 pageSize, true⟩

omit [DecidableEq τ] in
/-- The allocated blocks are the blocks of the leases. -/
theorem Leases.mem_allocatedBlocks (h : Leases size pageSize ba lease) {c : Block} :
    c ∈ allocatedBlocks ba ↔ ∃ t a, lease t = some a ∧ c = leasedBlock pageSize a := by
  obtain ⟨bs, out, hinv, hout⟩ := h.ledger
  show c ∈ baBlocks ba ∧ c.allocated = true ↔ _
  rw [hinv.holds.baBlocks]
  constructor
  · intro hc
    obtain ⟨hc, halloc⟩ := hc
    obtain ⟨a, ha, hhead, horder⟩ := (hinv.exact_iff c halloc).mp hc
    obtain ⟨t, ht⟩ := (hout a).mp ha
    refine ⟨t, a, ht, ?_⟩
    rw [leasedBlock, hhead, horder, ← halloc]
  · intro hc
    obtain ⟨t, a, ht, rfl⟩ := hc
    exact ⟨hinv.block ((hout a).mpr ⟨t, ht⟩), rfl⟩

/-- A new lease is one more allocated block, which was not allocated before. -/
theorem Leases.allocated_acquire (h : Leases size pageSize ba lease) {t : τ} {a : Nat × Nat}
    (ht : lease t = none) (h' : Leases size pageSize ba' (Function.update lease t (some a))) :
    leasedBlock pageSize a ∉ allocatedBlocks ba ∧
      allocatedBlocks ba' = insert (leasedBlock pageSize a) (allocatedBlocks ba) := by
  have hself : Function.update lease t (some a) t = some a := Function.update_self ..
  refine ⟨fun hmem => ?_, Set.ext fun c => ?_⟩
  · obtain ⟨u, b, hu, hab⟩ := h.mem_allocatedBlocks.mp hmem
    have hut : u ≠ t := fun heq => by simp [heq, ht] at hu
    have hu' : Function.update lease t (some a) u = some b := by rw [Function.update_of_ne hut, hu]
    exact hut (h'.single u t b a hu' hself (congrArg Block.head hab).symm)
  · rw [Set.mem_insert_iff, h.mem_allocatedBlocks, h'.mem_allocatedBlocks]
    constructor
    · intro hc
      obtain ⟨u, b, hu, rfl⟩ := hc
      by_cases hut : u = t
      · subst hut
        rw [hself, Option.some.injEq] at hu
        exact Or.inl (hu ▸ rfl)
      · rw [Function.update_of_ne hut] at hu
        exact Or.inr ⟨u, b, hu, rfl⟩
    · intro hc
      rcases hc with rfl | ⟨u, b, hu, rfl⟩
      · exact ⟨t, a, hself, rfl⟩
      · have hut : u ≠ t := fun heq => by simp [heq, ht] at hu
        exact ⟨u, b, by rw [Function.update_of_ne hut, hu], rfl⟩

/-- A lease that ends is one allocated block less. -/
theorem Leases.allocated_release (h : Leases size pageSize ba lease) {t : τ} {a : Nat × Nat}
    (ha : lease t = some a) (h' : Leases size pageSize ba' (Function.update lease t none)) :
    allocatedBlocks ba = insert (leasedBlock pageSize a) (allocatedBlocks ba') ∧
      leasedBlock pageSize a ∉ allocatedBlocks ba' := by
  have hagain : Function.update (Function.update lease t none) t (some a) = lease := by
    rw [Function.update_idem, ← ha, Function.update_eq_self]
  have hback := h'.allocated_acquire (Function.update_self ..) (hagain.symm ▸ h)
  exact hback.symm

omit [DecidableEq τ] in
/-- There are no more leases than pages. -/
theorem Leases.lt_nrPages (h : Leases size pageSize ba lease) {t : τ} {a : Nat × Nat}
    (ha : lease t = some a) : a.1 < ba.nrPages := by
  obtain ⟨bs, out, hinv, hout⟩ := h.ledger
  have hblock := hinv.block ((hout a).mpr ⟨t, ha⟩)
  have hbound := (hinv.holds.shows.tiles.mem_bounds hblock).2
  have hlt := Block.head_lt_stop ⟨a.1, baOrder a.2 pageSize, true⟩
  exact lt_of_lt_of_le hlt hbound

omit [DecidableEq τ] in
theorem Leases.nrPages_lt (h : Leases size pageSize ba lease) : ba.nrPages < 2 ^ 31 := by
  obtain ⟨bs, out, hinv, -⟩ := h.ledger
  exact hinv.holds.nrPages_lt

/-! ## Room -/

/-- `ba_alloc(len) >= 0`. -/
def baHasRoom (ba : Allocator) (len : Nat) : Bool :=
  ((baAlloc ba len).bind (·.2)).isSome

/-- There is room if a free block is of the order of the request or above it. -/
theorem baHasRoom_iff_fits {bs : List Block} (h : Holds ba bs) {len : Nat} (hpos : 1 ≤ len)
    (hlen : len ≤ ba.size) :
    baHasRoom ba len = true ↔ ∃ c ∈ bs, Fits (baOrder len ba.pageSize) c := by
  rcases baAlloc_spec h hpos hlen with ⟨hrun, hnone⟩ | ⟨m, left, b, right, hrun, rfl, hbest, -⟩
  · constructor
    · intro hroom
      simp [baHasRoom, hrun] at hroom
    · rintro ⟨c, hc, hfit⟩
      exact absurd hfit (hnone c hc)
  · constructor
    · intro _
      obtain ⟨_, _, -, hfit, -⟩ := hbest
      exact ⟨b, by simp, hfit⟩
    · intro _
      simp [baHasRoom, hrun]

omit [DecidableEq τ] in
/-- A request that is answered makes room for nobody. -/
theorem Leases.room_of_alloc (h : Leases size pageSize ba lease) {len page n : Nat}
    (hpos : 1 ≤ len) (hlen : len ≤ size) (halloc : baAlloc ba len = some (ba', some page))
    (hpos' : 1 ≤ n) (hlen' : n ≤ size) (hroom : baHasRoom ba' n = true) :
    baHasRoom ba n = true := by
  obtain ⟨bs, out, hinv, -⟩ := h.ledger
  have hsize : ba.size = size := hinv.size_eq
  rcases baAlloc_spec hinv.holds hpos (hsize ▸ hlen) with
    ⟨hrun, -⟩ | ⟨m, left, b, right, hrun, rfl, ⟨_, _, -, hfit, -⟩, hholds⟩
  · rw [hrun] at halloc
    simp at halloc
  · rw [hrun, Option.some.injEq, Prod.mk.injEq] at halloc
    obtain ⟨rfl, -⟩ := halloc
    rw [baHasRoom_iff_fits hholds hpos' (hsize ▸ hlen')] at hroom
    rw [baHasRoom_iff_fits hinv.holds hpos' (hsize ▸ hlen')]
    exact fits_of_carve hfit hroom

/-! ## Lost blocks

A tenant that forgets its page does not give it back: the block stays allocated
and belongs to nobody any more. -/

/-- The leases of the tenants, and after them the blocks that were lost. -/
def withLost (lease : τ → Option (Nat × Nat)) (lost : List (Nat × Nat)) :
    τ ⊕ Nat → Option (Nat × Nat) :=
  Sum.elim lease fun i => lost[i]?

/-- Changing a lease does not touch those that were lost. -/
theorem withLost_update {lost : List (Nat × Nat)} {t : τ} {x : Option (Nat × Nat)} :
    withLost (Function.update lease t x) lost =
      Function.update (withLost lease lost) (.inl t) x :=
  Sum.update_elim_inl.symm

omit [DecidableEq τ] in
/-- As long as nothing was lost every block has its tenant. -/
theorem of_withLost_nil {t : τ ⊕ Nat} {a : Nat × Nat} (ht : withLost lease [] t = some a) :
    ∃ u, lease u = some a := by
  rcases t with u | i
  · exact ⟨u, ht⟩
  · cases ht

/-- A tenant loses its block: nobody has it any more, but it stays allocated and joins the list
of what is lost. -/
theorem Leases.lose {lost : List (Nat × Nat)} (h : Leases size pageSize ba (withLost lease lost))
    {t : τ} {a : Nat × Nat} (ha : lease t = some a) :
    Leases size pageSize ba (withLost (Function.update lease t none) (lost ++ [a])) := by
  have hfresh : withLost lease lost (.inr lost.length) = none := List.getElem?_eq_none le_rfl
  have hmove := h.move (t := .inl t) ha hfresh
  refine Eq.mp (congrArg (Leases size pageSize ba) ?_) hmove
  rw [← withLost_update]
  funext u
  rcases u with u | i
  · exact Function.update_of_ne Sum.inl_ne_inr ..
  · by_cases hi : i = lost.length
    · subst hi
      rw [Function.update_self]
      exact List.getElem?_concat_length.symm
    · have hne : (Sum.inr i : τ ⊕ Nat) ≠ .inr lost.length := fun heq => hi (Sum.inr_injective heq)
      rw [Function.update_of_ne hne]
      simp only [withLost, Sum.elim_inr, List.getElem?_append]
      split
      · rfl
      · rw [List.getElem?_eq_none (by omega), List.getElem?_eq_none (by simp; omega)]

end BuddyAllocator

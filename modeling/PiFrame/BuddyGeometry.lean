import PiFrame.BuddyAccesses

/-!
# Sizes that arrive through an ioctl

`VMQ_CREATE` takes two numbers of type `int` from its caller, and they reach
`ba_create` unless the size is not positive or the page size has one of its lowest
seven bits set.  For each function of `drivers/vmq/balloc.c` the operations on the way
that need a condition: the divisions, the shifts, the sum in `ba_order`, and the page
count.

The page size may be 0 or negative.  The page count is computed with signs, but
`ba_order` takes the page size as unsigned.
-/

namespace BuddyAllocator

open AlignedTiling Transition

/-! ## The operations -/

/-- An operation that is not defined, or not meant, for all operands.  Those of the sum
are unsigned. -/
inductive Arith
  | divide (divisor : BitVec 32)
  | roundUp (len pageSize : BitVec 32)
  | pages (size nrPages : BitVec 32)
  | shift (amount : Nat)
  deriving DecidableEq, Repr

/-- The divisor is not 0, `len + page_size - 1` does not wrap, the page count lies between
0 and the size, and the amount of a shift is below the width. -/
def Arith.Defined : Arith → Prop
  | .divide divisor => divisor ≠ 0
  | .roundUp len pageSize =>
      len.toNat + pageSize.toNat < 2 ^ 32 ∧ 1 ≤ len.toNat + pageSize.toNat
  | .pages size nrPages => 0 ≤ nrPages.toInt ∧ nrPages.toInt ≤ size.toInt
  | .shift amount => amount < 32

instance (a : Arith) : Decidable a.Defined := by
  cases a <;> unfold Arith.Defined <;> infer_instance

/-- The shifts of the loop in `ba_order`, up to the one that leaves nothing. -/
def baOrderShifts (len : Nat) : List Nat :=
  (List.range 32).takeWhile (fun i => len >>> i != 0) ++
    ((List.range 32).find? (fun i => len >>> i == 0)).toList

/-- `ba_order`. -/
def baOrderArith (len pageSize : BitVec 32) : List Arith :=
  .roundUp len pageSize :: .divide pageSize ::
    (baOrderShifts ((len + pageSize - 1) / pageSize - 1).toNat).map .shift

/-- The loop of `ba_create`: `1 << i`, and `BA_NEXT_INDEX` for a bit that is set. -/
def baCreateLoopShifts (nrPages : Nat) : Nat → Nat → Memory → List Nat
  | 0, _, _ => []
  | i + 1, index, m =>
      if nrPages &&& 1 <<< i ≠ 0 then
        let m := m.setOrder index i
        i :: (m index).order :: baCreateLoopShifts nrPages i (baNextIndex m index) m
      else
        i :: baCreateLoopShifts nrPages i index m

/-- The memory after `memset`. -/
def zeroed (m : Memory) (nrPages : Nat) : Memory :=
  fun i => if i < nrPages then ⟨false, 0⟩ else m i

/-- `ba_create` for arguments of type `int`. -/
def baCreateInt (m : Memory) (size pageSize : BitVec 32) : Option Allocator :=
  if pageSize &&& BitVec.ofNat 32 baMinPageMask ≠ 0 then
    none
  else
    let nrPages := (size.sdiv pageSize).toNat
    some {
      size := size.toNat, pageSize := pageSize.toNat, nrPages
      maxOrder := baOrder size.toNat pageSize.toNat
      bitmap := baCreateLoop nrPages 32 0 (zeroed m nrPages) }

/-- The operations of `ba_create`; what comes after a division by zero does not matter. -/
def baCreateArith (m : Memory) (size pageSize : BitVec 32) : List Arith :=
  if pageSize &&& BitVec.ofNat 32 baMinPageMask ≠ 0 then
    []
  else
    let nrPages := size.sdiv pageSize
    .divide pageSize :: .pages size nrPages :: baOrderArith size pageSize ++
      (baCreateLoopShifts nrPages.toNat 32 0 (zeroed m nrPages.toNat)).map .shift

/-- The search loop of `ba_alloc`: `BA_NEXT_INDEX` unless the loop is left. -/
def baSearchShifts (m : Memory) (stop order : Nat) : Nat → Nat → Option Nat → List Nat
  | 0, _, _ => []
  | fuel + 1, curr, best =>
      if curr < stop then
        if baIsFree m curr then
          if (m curr).order = order % 2 ^ 8 then
            []
          else if order % 2 ^ 8 < (m curr).order ∧
              ∀ b ∈ best, (m curr).order < (m b).order then
            (m curr).order :: baSearchShifts m stop order fuel (baNextIndex m curr) (some curr)
          else
            (m curr).order :: baSearchShifts m stop order fuel (baNextIndex m curr) best
        else
          (m curr).order :: baSearchShifts m stop order fuel (baNextIndex m curr) best
      else
        []

/-- The split loop of `ba_alloc`: `BA_BUDDY_INDEX`. -/
def baSplitShifts (order best : Nat) : Nat → Memory → List Nat
  | 0, _ => []
  | fuel + 1, m =>
      if order % 2 ^ 8 < (m best).order then
        let m := m.setOrder best ((m best).order - 1)
        (m best).order ::
          baSplitShifts order best fuel (m.setOrder (baBuddyIndex m best) (m best).order)
      else
        []

/-- `ba_alloc` once the order is computed. -/
def baAllocOrderShifts (ba : Allocator) (order : Nat) : List Nat :=
  if ba.maxOrder < order then
    []
  else
    baSearchShifts ba.bitmap ba.nrPages order (ba.nrPages + 1) 0 none ++
      match baSearch ba.bitmap ba.nrPages order (ba.nrPages + 1) 0 none with
      | some (some best) => baSplitShifts order best orderFuel ba.bitmap
      | _ => []

/-- `ba_alloc`. -/
def baAllocArith (ba : Allocator) (len : BitVec 32) : List Arith :=
  baOrderArith len (BitVec.ofNat 32 ba.pageSize) ++
    (baAllocOrderShifts ba (baOrder len.toNat ba.pageSize)).map .shift

/-! ## Geometries -/

/-- What `vmshm_create` and `ba_create` let through. -/
structure Admitted (size pageSize : BitVec 32) : Prop where
  size_pos : 0 < size.toInt
  mask : pageSize &&& BitVec.ofNat 32 baMinPageMask = 0

instance (size pageSize : BitVec 32) : Decidable (Admitted size pageSize) :=
  decidable_of_iff (0 < size.toInt ∧ pageSize &&& BitVec.ofNat 32 baMinPageMask = 0)
    ⟨fun h => ⟨h.1, h.2⟩, fun h => ⟨h.size_pos, h.mask⟩⟩

/-- A step that touches no memory but the bitmap. -/
def InsideStep (s : BaState) (op : BaOp) (t : BaState) : Prop :=
  BaStep s op t ∧ ∀ i ∈ op.accesses s, i < s.ba.nrPages

/-- The arithmetic of `ba_create`, and that of `ba_alloc` for every length and in every
state that is reached without leaving the bitmap. -/
structure GeometryDefined (size pageSize : BitVec 32) : Prop where
  create : ∀ m, ∀ a ∈ baCreateArith m size pageSize, a.Defined
  alloc : ∀ {m ba tr s}, baCreateInt m size pageSize = some ba → Run InsideStep ⟨ba, []⟩ tr s →
    ∀ len : BitVec 32, 1 ≤ len.toNat → len.toNat ≤ size.toNat →
      ∀ a ∈ baAllocArith s.ba len, a.Defined

variable {m : Memory} {size pageSize len : BitVec 32} {ba : Allocator} {s : BaState}
  {tr : List BaOp} {bs : List Block}

/-! ## The page count -/

section Signs

variable {x : BitVec 32}

/-- An `int` that is not negative is its bit pattern. -/
theorem toInt_of_nonneg (h : 0 ≤ x.toInt) : x.toInt = x.toNat :=
  BitVec.toInt_eq_toNat_of_lt (BitVec.toInt_pos_iff.1 h)

/-- A negative `int` is its bit pattern less `2 ^ 32`. -/
theorem toInt_of_neg (h : x.toInt < 0) : x.toInt = x.toNat - 2 ^ 32 := by
  rw [BitVec.toInt_eq_toNat_cond, if_neg (Nat.not_lt.2 (BitVec.toInt_neg_iff.1 h))]
  rfl

end Signs

/-- The page size is positive, or negative and larger than the size. -/
def Sound (size pageSize : BitVec 32) : Prop :=
  0 < pageSize.toInt ∨ pageSize.toInt < 0 ∧ size.toInt + pageSize.toInt < 0

/-- A size that `ba_create` admits is not negative. -/
theorem Admitted.toInt_size (h : Admitted size pageSize) : size.toInt = size.toNat :=
  toInt_of_nonneg h.size_pos.le

/-- A size that `ba_create` admits fits into an `int`. -/
theorem Admitted.size_lt (h : Admitted size pageSize) : size.toNat < 2 ^ 31 := by
  have hlt : size.toInt < 2 ^ 31 := size.toInt_lt
  have heq := h.toInt_size
  omega

/-- The division is the one of the integers, since the size is not negative. -/
theorem Admitted.toInt_nrPages (h : Admitted size pageSize) :
    (size.sdiv pageSize).toInt = size.toInt / pageSize.toInt := by
  have hmin : size ≠ BitVec.intMin 32 := by
    rintro rfl
    exact absurd h.size_pos (by decide)
  rw [BitVec.toInt_sdiv_of_ne_or_ne size pageSize (.inl hmin),
    Int.tdiv_eq_ediv_of_nonneg h.size_pos.le]

/-- A negative page size that is not larger than the size counts a negative number of
pages. -/
theorem Admitted.nrPages_neg (h : Admitted size pageSize) (hneg : pageSize.toInt < 0)
    (hle : 0 ≤ size.toInt + pageSize.toInt) : (size.sdiv pageSize).toInt < 0 := by
  have hone : 1 ≤ size.toInt / -pageSize.toInt :=
    Int.le_ediv_of_mul_le (by omega) (by omega)
  rw [h.toInt_nrPages, ← Int.neg_neg pageSize.toInt, Int.ediv_neg]
  omega

/-- A page size of either kind counts as many pages as an unsigned one. -/
theorem Sound.toInt_nrPages (h : Sound size pageSize) (hadm : Admitted size pageSize) :
    (size.sdiv pageSize).toInt = (size.toNat / pageSize.toNat : Nat) := by
  rw [hadm.toInt_nrPages, hadm.toInt_size]
  obtain hpos | ⟨hneg, hlarge⟩ := h
  · rw [toInt_of_nonneg hpos.le, Int.natCast_ediv]
  · have hsize := hadm.size_lt
    have heq := hadm.toInt_size
    have hpage := BitVec.toInt_neg_iff.1 hneg
    have hnat : size.toNat / pageSize.toNat = 0 := Nat.div_eq_of_lt (by omega)
    have hint : (size.toNat : Int) / -pageSize.toInt = 0 :=
      Int.ediv_eq_zero_of_lt (by omega) (by omega)
    rw [hnat, ← Int.neg_neg pageSize.toInt, Int.ediv_neg, hint]
    rfl

/-- The signed division gives the number of the pages. -/
theorem Sound.toNat_nrPages (h : Sound size pageSize) (hadm : Admitted size pageSize) :
    (size.sdiv pageSize).toNat = size.toNat / pageSize.toNat := by
  have hint := h.toInt_nrPages hadm
  have hnonneg : 0 ≤ (size.sdiv pageSize).toInt := hint ▸ Int.natCast_nonneg _
  have hnat := toInt_of_nonneg hnonneg
  omega

/-- On a sound geometry the 32-bit `ba_create` is the one over the numbers. -/
theorem baCreateInt_eq (h : Sound size pageSize) (hadm : Admitted size pageSize) :
    baCreateInt m size pageSize = baCreate m size.toNat pageSize.toNat := by
  have hmask : ¬ pageSize.toNat &&& baMinPageMask ≠ 0 := by
    have hbits := congrArg BitVec.toNat hadm.mask
    rw [BitVec.toNat_and] at hbits
    exact not_not.2 hbits
  rw [baCreateInt, if_neg (not_not.2 hadm.mask), h.toNat_nrPages hadm, baCreate, if_neg hmask]
  rfl

/-! ## Shifts -/

/-- The shifts of `ba_order` stop before the width of an `int`. -/
theorem baOrderShifts_lt {n : Nat} : ∀ a ∈ baOrderShifts n, a < 32 := by
  intro a ha
  rcases List.mem_append.1 ha with ha | ha
  · exact List.mem_range.1 ((List.takeWhile_subset _) ha)
  · exact List.mem_range.1 (List.mem_of_find?_eq_some (Option.mem_toList.1 ha))

/-- The shifts are those of `ba_order`. -/
theorem baOrder_eq (hsum : 1 ≤ len.toNat + pageSize.toNat) :
    baOrder len.toNat pageSize.toNat = ((List.range 32).find? fun i =>
      ((len + pageSize - 1) / pageSize - 1).toNat >>> i == 0).getD 32 := by
  have hone : (1 : BitVec 32).toNat = 1 := by decide
  have hround : (len + pageSize - 1).toNat = (len.toNat + pageSize.toNat - 1) % 2 ^ 32 := by
    rw [BitVec.toNat_sub, BitVec.toNat_add, hone]
    omega
  have hpages : ((len + pageSize - 1) / pageSize - 1).toNat
      = ((len.toNat + pageSize.toNat - 1) % 2 ^ 32 / pageSize.toNat + (2 ^ 32 - 1)) % 2 ^ 32 := by
    rw [BitVec.toNat_sub, BitVec.toNat_udiv, hround, hone, Nat.add_comm]
  rw [hpages]
  delta baOrder
  rfl

/-- The loop of `ba_create` counts its index down from 31, so it shifts by less than 32. -/
theorem baCreateLoopShifts_lt {n i index : Nat} (hi : i ≤ 32) :
    ∀ a ∈ baCreateLoopShifts n i index m, a < 32 := by
  induction i generalizing index m with
  | zero => exact List.forall_mem_nil _
  | succ i ih =>
      rw [baCreateLoopShifts]
      split
      · have horder : (m.setOrder index i index).order = i := by
          rw [setOrder_same]
          exact Nat.mod_eq_of_lt (by omega)
        simp only [List.forall_mem_cons, horder]
        exact ⟨hi, hi, ih (by omega)⟩
      · exact List.forall_mem_cons.2 ⟨hi, ih (by omega)⟩

/-- The search goes from head to head, and every head has an order below 32, so `1 << order` is
defined at each of them. -/
theorem baSearchShifts_lt {curr stop order fuel : Nat} {best : Option Nat}
    (hshow : Shows m curr stop bs) (hbs : ∀ b ∈ bs, b.order < 32) :
    ∀ a ∈ baSearchShifts m stop order fuel curr best, a < 32 := by
  induction bs generalizing curr fuel best with
  | nil =>
      obtain rfl : curr = stop := hshow
      cases fuel <;> simp [baSearchShifts]
  | cons b bs ih =>
      obtain ⟨_, _, hentry, _, htail⟩ := hshow
      have hnext := baNextIndex_eq hentry
      have horder : (m curr).order < 32 := by
        rw [hentry]
        exact hbs b List.mem_cons_self
      have hrest : ∀ {fuel best}, ∀ a ∈ (m curr).order ::
          baSearchShifts m stop order fuel (baNextIndex m curr) best, a < 32 := by
        rw [hnext]
        exact List.forall_mem_cons.2
          ⟨horder, ih htail fun c hc => hbs c (List.mem_cons_of_mem b hc)⟩
      cases fuel with
      | zero => exact List.forall_mem_nil _
      | succ fuel =>
          rw [baSearchShifts]
          repeat' split
          all_goals first
            | exact hrest
            | exact List.forall_mem_nil _

/-- The split loop makes the order of the block smaller. -/
theorem baSplitShifts_lt {order best fuel : Nat} (hbest : (m best).order < 32) :
    ∀ a ∈ baSplitShifts order best fuel m, a < 32 := by
  induction fuel generalizing m with
  | zero => exact List.forall_mem_nil _
  | succ fuel ih =>
      rw [baSplitShifts]
      split
      · have hless : (m.setOrder best ((m best).order - 1) best).order < 32 := by
          rw [setOrder_same]
          exact (Nat.mod_le _ _).trans_lt (by omega)
        refine List.forall_mem_cons.2 ⟨hless, ih ?_⟩
        generalize m.setOrder best ((m best).order - 1) = m' at hless ⊢
        by_cases hbuddy : best = baBuddyIndex m' best
        · rw [← hbuddy, setOrder_same]
          exact (Nat.mod_le _ _).trans_lt hless
        · rwa [setOrder_other _ _ hbuddy]
      · exact List.forall_mem_nil _

/-- The orders in a shown bitmap are below 32, and with them the shifts of the search and the
split. -/
theorem baAllocOrderShifts_lt {order : Nat} (hshow : Shows ba.bitmap 0 ba.nrPages bs)
    (hn : ba.nrPages < 2 ^ 31) : ∀ a ∈ baAllocOrderShifts ba order, a < 32 := by
  have hbs : ∀ b ∈ bs, b.order < 32 := fun b hb => (hshow.order_lt hn hb).trans (by decide)
  rw [baAllocOrderShifts]
  split
  · exact List.forall_mem_nil _
  · have hnothing : BestFit (order % 2 ^ 8) [] none := List.forall_mem_nil _
    obtain ⟨res, hsearch, hres⟩ := baSearch_spec hshow
      (by omega : ba.nrPages - 0 < ba.nrPages + 1) hnothing (fun b hb => by cases hb)
    rw [Option.map_none] at hsearch
    rw [hsearch]
    refine List.forall_mem_append.2 ⟨baSearchShifts_lt hshow hbs, ?_⟩
    cases res with
    | none => exact List.forall_mem_nil _
    | some b =>
        obtain ⟨left, right, hsplit, -⟩ := hres
        have hb : b ∈ bs := by
          rw [← List.nil_append bs, hsplit]
          simp
        refine baSplitShifts_lt ?_
        rw [hshow.entry hb]
        exact hbs b hb

/-! ## States -/

/-- The allocator has the geometry it was made with, and its bitmap shows blocks. -/
structure Shown (size pageSize : BitVec 32) (s : BaState) : Prop where
  size_eq : s.ba.size = size.toNat
  page_eq : s.ba.pageSize = pageSize.toNat
  short : s.ba.nrPages < 2 ^ 31
  shows : ∃ bs, Shows s.ba.bitmap 0 s.ba.nrPages bs

/-- A history that stays in the bitmap keeps the last block. -/
theorem keeping_of_inside {size pageSize : Nat} (hsize : size < 2 ^ 31) (hpage : 0 < pageSize)
    (hpage' : pageSize < 2 ^ 31) (hdvd : 128 ∣ pageSize)
    (hcreate : baCreate m size pageSize = some ba) (hrun : Run InsideStep ⟨ba, []⟩ tr s) :
    Run KeepingStep ⟨ba, []⟩ tr s := by
  induction hrun with
  | nil => exact .nil
  | snoc _ last ih =>
      obtain ⟨bs, hinv, hco⟩ := KeepingStep.run hsize hpage hpage' hdvd hcreate ih
      exact ih.snoc ⟨last.1, (BaOp.accesses_lt_iff hinv hco last.1.1).1 last.2⟩

theorem Admitted.dvd (h : Admitted size pageSize) : 128 ∣ pageSize.toNat := by
  have hbits := congrArg BitVec.toNat h.mask
  have hmod : pageSize.toNat % 2 ^ 7 = 0 := by
    rw [← Nat.and_two_pow_sub_one_eq_mod]
    rwa [BitVec.toNat_and] at hbits
  exact Nat.dvd_of_mod_eq_zero hmod

/-- With a positive page size the blocks are those of a buddy allocator. -/
theorem shown_of_pos (hadm : Admitted size pageSize) (hpos : 0 < pageSize.toInt)
    (hcreate : baCreate m size.toNat pageSize.toNat = some ba)
    (hrun : Run InsideStep ⟨ba, []⟩ tr s) : Shown size pageSize s := by
  have hpage := toInt_of_nonneg hpos.le
  have hlt : pageSize.toInt < 2 ^ 31 := pageSize.toInt_lt
  have hkeep := keeping_of_inside hadm.size_lt (by omega) (by omega) hadm.dvd hcreate hrun
  obtain ⟨bs, hinv, -⟩ := KeepingStep.run hadm.size_lt (by omega) (by omega) hadm.dvd hcreate hkeep
  refine ⟨hinv.size_eq, hinv.page_eq, hinv.holds.nrPages_lt, bs, ?_⟩
  refine hinv.holds.shows.congr fun i _ hi => ?_
  exact (Function.update_of_ne (Nat.ne_of_lt hi) _ _).symm

/-- An allocator without pages has nothing to give. -/
theorem baExec_of_no_pages {op : BaOp} {t : BaState} (hpages : s.ba.nrPages = 0)
    (hout : s.outstanding = []) (hstep : BaStep s op t) : t = s := by
  obtain ⟨hop, hexec⟩ := hstep
  cases op with
  | free index =>
      obtain ⟨a, ha, -⟩ := hop
      rw [hout] at ha
      cases ha
  | alloc len =>
      have hnone : baAlloc s.ba len = some (s.ba, none) := by
        rw [baAlloc, baAllocOrder]
        split
        · rfl
        · rw [hpages]
          rfl
      rw [baExec, hnone] at hexec
      exact (Option.some.inj hexec).symm

/-- A pool smaller than a page stays empty in every run: no request finds a page. -/
theorem shown_of_no_pages (hpages : size.toNat / pageSize.toNat = 0)
    (hcreate : baCreate m size.toNat pageSize.toNat = some ba)
    (hrun : Run InsideStep ⟨ba, []⟩ tr s) : Shown size pageSize s := by
  have hba : ba.size = size.toNat ∧ ba.pageSize = pageSize.toNat ∧ ba.nrPages = 0 := by
    rw [baCreate] at hcreate
    split at hcreate
    · cases hcreate
    · cases hcreate
      exact ⟨rfl, rfl, hpages⟩
  have hstay : s = ⟨ba, []⟩ := by
    refine hrun.invariant (fun t => t = ⟨ba, []⟩) rfl ?_
    rintro t op u rfl hstep
    exact baExec_of_no_pages hba.2.2 rfl hstep.1
  rw [hstay]
  exact ⟨hba.1, hba.2.1, hba.2.2.trans_lt (by decide), [], hba.2.2.symm⟩

/-- In every state that is reached, the bitmap shows the blocks. -/
theorem Sound.shown (h : Sound size pageSize) (hadm : Admitted size pageSize)
    (hcreate : baCreateInt m size pageSize = some ba) (hrun : Run InsideStep ⟨ba, []⟩ tr s) :
    Shown size pageSize s := by
  rw [baCreateInt_eq h hadm] at hcreate
  obtain hpos | ⟨hneg, -⟩ := h
  · exact shown_of_pos hadm hpos hcreate hrun
  · have hsize := hadm.size_lt
    have hpage := BitVec.toInt_neg_iff.1 hneg
    exact shown_of_no_pages (Nat.div_eq_of_lt (by omega)) hcreate hrun

/-! ## Sound geometries -/

/-- A sound geometry has pages, so nothing is divided by zero. -/
theorem Sound.ne_zero (h : Sound size pageSize) : pageSize ≠ 0 := by
  rintro rfl
  obtain hpos | ⟨hneg, -⟩ := h
  · cases hpos
  · cases hneg

/-- The sum does not wrap for any length up to the size. -/
theorem Sound.roundUp (h : Sound size pageSize) (hadm : Admitted size pageSize)
    (hpos : 1 ≤ len.toNat) (hlen : len.toNat ≤ size.toNat) :
    (Arith.roundUp len pageSize).Defined := by
  have hsize := hadm.size_lt
  refine ⟨?_, by omega⟩
  obtain hpage | ⟨hneg, hlarge⟩ := h
  · have heq := toInt_of_nonneg hpage.le
    have hlt : pageSize.toInt < 2 ^ 31 := pageSize.toInt_lt
    omega
  · have heq := toInt_of_neg hneg
    have hsize' := hadm.toInt_size
    omega

/-- In `ba_order` only the rounding up can overflow. -/
theorem baOrderArith_defined (hsum : (Arith.roundUp len pageSize).Defined)
    (hpage : pageSize ≠ 0) : ∀ a ∈ baOrderArith len pageSize, a.Defined := by
  refine List.forall_mem_cons.2 ⟨hsum, List.forall_mem_cons.2 ⟨hpage, ?_⟩⟩
  exact List.forall_mem_map.2 baOrderShifts_lt

/-- `ba_create` computes nothing that is undefined. -/
theorem Sound.create_defined (h : Sound size pageSize) (hadm : Admitted size pageSize) :
    ∀ a ∈ baCreateArith m size pageSize, a.Defined := by
  have hnr := h.toInt_nrPages hadm
  have hsize := hadm.toInt_size
  have hpos := hadm.size_pos
  have hcount : (Arith.pages size (size.sdiv pageSize)).Defined := by
    refine ⟨hnr ▸ Int.natCast_nonneg _, ?_⟩
    rw [hnr, hsize]
    exact_mod_cast Nat.div_le_self _ _
  rw [baCreateArith, if_neg (not_not.2 hadm.mask)]
  refine List.forall_mem_cons.2 ⟨h.ne_zero, List.forall_mem_cons.2 ⟨hcount, ?_⟩⟩
  refine List.forall_mem_append.2 ⟨?_, List.forall_mem_map.2 (baCreateLoopShifts_lt le_rfl)⟩
  exact baOrderArith_defined (h.roundUp hadm (by omega) le_rfl) h.ne_zero

/-- `ba_alloc` computes nothing that is undefined, for every length that a client may ask for. -/
theorem Sound.alloc_defined (h : Sound size pageSize) (hadm : Admitted size pageSize)
    (hshown : Shown size pageSize s) (hpos : 1 ≤ len.toNat) (hlen : len.toNat ≤ size.toNat) :
    ∀ a ∈ baAllocArith s.ba len, a.Defined := by
  obtain ⟨bs, hshow⟩ := hshown.shows
  have hpage : BitVec.ofNat 32 s.ba.pageSize = pageSize := by
    rw [hshown.page_eq, BitVec.ofNat_toNat, BitVec.setWidth_eq]
  rw [baAllocArith, hpage]
  refine List.forall_mem_append.2 ⟨?_, ?_⟩
  · exact baOrderArith_defined (h.roundUp hadm hpos hlen) h.ne_zero
  · exact List.forall_mem_map.2 (baAllocOrderShifts_lt hshow hshown.short)

/-- A geometry is not sound when the division or the page count is already wrong. -/
theorem sound_of_create (hadm : Admitted size pageSize)
    (h : ∀ a ∈ baCreateArith m size pageSize, a.Defined) : Sound size pageSize := by
  rw [baCreateArith, if_neg (not_not.2 hadm.mask)] at h
  obtain ⟨hdivide, h⟩ := List.forall_mem_cons.1 h
  obtain ⟨⟨hcount, -⟩, -⟩ := List.forall_mem_cons.1 h
  have hne : pageSize.toInt ≠ 0 := fun hzero => hdivide (BitVec.eq_of_toInt_eq hzero)
  rcases lt_or_gt_of_ne hne with hneg | hpos
  · refine .inr ⟨hneg, ?_⟩
    by_contra hle
    exact absurd (hadm.nrPages_neg hneg (Int.not_lt.1 hle)) (Int.not_lt.2 hcount)
  · exact .inl hpos

/-- **Geometries.**  The arithmetic is defined exactly for a page size that is positive,
or negative and larger than the size. -/
theorem geometry_defined_iff (hadm : Admitted size pageSize) :
    GeometryDefined size pageSize ↔
      0 < pageSize.toInt ∨ pageSize.toInt < 0 ∧ size.toInt + pageSize.toInt < 0 := by
  constructor
  · intro h
    exact sound_of_create hadm (h.create fun _ => ⟨false, 0⟩)
  · intro h
    have hsound : Sound size pageSize := h
    refine ⟨fun _ => hsound.create_defined hadm, ?_⟩
    intro m ba tr s hcreate hrun len hpos hlen
    exact hsound.alloc_defined hadm (hsound.shown hadm hcreate hrun) hpos hlen

/-- The geometry of 32 pages of 128 bytes is one of these. -/
theorem geometry_defined_pages : Admitted 4096 128 ∧ GeometryDefined 4096 128 :=
  ⟨by decide, (geometry_defined_iff (by decide)).2 (.inl (by decide))⟩

/-- A page size of 0 has no bit that is refused, and then it divides. -/
theorem zero_not_defined : Admitted 4096 0 ∧ ¬ GeometryDefined 4096 0 := by
  refine ⟨by decide, fun h => ?_⟩
  have hdivide := h.create (fun _ => ⟨false, 0⟩) (.divide 0) (by simp [baCreateArith])
  exact absurd rfl hdivide

end BuddyAllocator

import PiFrame.BuddyCoalescing
import Mathlib.Data.Nat.Factorization.Basic

/-!
# Which entries of the bitmap are touched

For each function of `drivers/vmq/balloc.c` the indices at which it reads or
writes `ba->bitmap`, in the order it does so.  An entry that is not among them
neither matters to the function nor changes.

All indices lie inside the bitmap but one: when a release has merged the last
block that `ba_create` laid out, the loop of `ba_free` goes on to look at the
buddy of that block, and this is the entry one past the end.  The test of the
loop is about `curr`, not about `buddy`.
-/

namespace BuddyAllocator

open AlignedTiling Transition

/-! ## The indices -/

/-- The loop of `ba_create`: the order is stored, and `BA_NEXT_INDEX` reads it. -/
def baCreateLoopAccesses (nrPages : Nat) : Nat → Nat → Memory → List Nat
  | 0, _, _ => []
  | i + 1, index, m =>
      if nrPages &&& 1 <<< i ≠ 0 then
        let m := m.setOrder index i
        index :: baCreateLoopAccesses nrPages i (baNextIndex m index) m
      else
        baCreateLoopAccesses nrPages i index m

/-- `ba_create`: `memset` and the loop. -/
def baCreateAccesses (m : Memory) (size pageSize : Nat) : List Nat :=
  if pageSize &&& baMinPageMask ≠ 0 then
    []
  else
    let nrPages := size / pageSize
    let zeroed : Memory := fun i => if i < nrPages then ⟨false, 0⟩ else m i
    List.range nrPages ++ baCreateLoopAccesses nrPages 32 0 zeroed

/-- The search loop of `ba_alloc`; the best so far is read for a comparison
only. -/
def baSearchAccesses (m : Memory) (stop order : Nat) : Nat → Nat → Option Nat → List Nat
  | 0, _, _ => []
  | fuel + 1, curr, best =>
      if curr < stop then
        if baIsFree m curr then
          if (m curr).order = order % 2 ^ 8 then
            [curr]
          else if order % 2 ^ 8 < (m curr).order then
            if ∀ b ∈ best, (m curr).order < (m b).order then
              curr :: best.toList ++
                baSearchAccesses m stop order fuel (baNextIndex m curr) (some curr)
            else
              curr :: best.toList ++ baSearchAccesses m stop order fuel (baNextIndex m curr) best
          else
            curr :: baSearchAccesses m stop order fuel (baNextIndex m curr) best
        else
          curr :: baSearchAccesses m stop order fuel (baNextIndex m curr) best
      else
        []

/-- The split loop of `ba_alloc`. -/
def baSplitAccesses (order best : Nat) : Nat → Memory → List Nat
  | 0, _ => []
  | fuel + 1, m =>
      if order % 2 ^ 8 < (m best).order then
        let m := m.setOrder best ((m best).order - 1)
        best :: baBuddyIndex m best ::
          baSplitAccesses order best fuel (m.setOrder (baBuddyIndex m best) (m best).order)
      else
        [best]

/-- `ba_alloc` once the order is computed. -/
def baAllocOrderAccesses (ba : Allocator) (order : Nat) : List Nat :=
  if ba.maxOrder < order then
    []
  else
    baSearchAccesses ba.bitmap ba.nrPages order (ba.nrPages + 1) 0 none ++
      match baSearch ba.bitmap ba.nrPages order (ba.nrPages + 1) 0 none with
      | some (some best) => baSplitAccesses order best orderFuel ba.bitmap ++ [best]
      | _ => []

/-- The merge loop of `ba_free`. -/
def baMergeAccesses (nrPages : Nat) : Nat → Nat → Memory → List Nat
  | 0, _, _ => []
  | fuel + 1, curr, m =>
      let buddy := baBuddyIndex m curr
      if baIsFree m buddy ∧ (m buddy).order = (m curr).order then
        let m := m.setOrder buddy ((m buddy).order + 1)
        let m := m.setOrder curr ((m curr).order + 1)
        curr :: buddy :: if min buddy curr < nrPages then
          baMergeAccesses nrPages fuel (min buddy curr) m else []
      else
        [curr, buddy]

/-- The indices one operation touches. -/
def BaOp.accesses (s : BaState) : BaOp → List Nat
  | .alloc len => baAllocOrderAccesses s.ba (baOrder len s.ba.pageSize)
  | .free index =>
      index :: baMergeAccesses s.ba.nrPages orderFuel index (s.ba.bitmap.setAllocated index false)

/-! ## Entries that are not touched -/

/-- The allocator with another entry at `x`. -/
def Allocator.patch (ba : Allocator) (x : Nat) (v : Bitmap) : Allocator :=
  { ba with bitmap := Function.update ba.bitmap x v }

/-- The state of a history with another value in the entry at `x`. -/
def BaState.patch (s : BaState) (x : Nat) (v : Bitmap) : BaState :=
  { s with ba := s.ba.patch x v }

section Patch

variable {m : Memory} {x : Nat} {v : Bitmap} {n order fuel curr : Nat}

/-- Writing the order of one entry and changing another commute. -/
theorem update_setOrder {i k : Nat} (h : i ≠ x) :
    Memory.setOrder (Function.update m x v) i k = Function.update (m.setOrder i k) x v := by
  rw [Memory.setOrder, Memory.setOrder, Function.update_of_ne h, Function.update_comm h.symm]

/-- Marking one entry and changing another commute. -/
theorem update_setAllocated {i : Nat} {a : Bool} (h : i ≠ x) :
    Memory.setAllocated (Function.update m x v) i a = Function.update (m.setAllocated i a) x v := by
  rw [Memory.setAllocated, Memory.setAllocated, Function.update_of_ne h,
    Function.update_comm h.symm]

/-- The next block is found from the entry of this one alone. -/
theorem baNextIndex_update {i : Nat} (h : i ≠ x) :
    baNextIndex (Function.update m x v) i = baNextIndex m i := by
  rw [baNextIndex, baNextIndex, Function.update_of_ne h]

/-- The buddy is found from the entry of the block alone. -/
theorem baBuddyIndex_update {i : Nat} (h : i ≠ x) :
    baBuddyIndex (Function.update m x v) i = baBuddyIndex m i := by
  rw [baBuddyIndex, baBuddyIndex, Function.update_of_ne h]

/-- Whether a block is free is read off its own entry. -/
theorem baIsFree_update {i : Nat} (h : i ≠ x) :
    baIsFree (Function.update m x v) i = baIsFree m i := by
  rw [baIsFree, baIsFree, Function.update_of_ne h]

/-- The loop of `ba_create` does the same whatever stands in an entry that it does not use. -/
theorem baCreateLoop_update {i index : Nat} (h : x ∉ baCreateLoopAccesses n i index m) :
    baCreateLoop n i index (Function.update m x v) =
        Function.update (baCreateLoop n i index m) x v ∧
      baCreateLoopAccesses n i index (Function.update m x v) =
        baCreateLoopAccesses n i index m := by
  induction i generalizing index m with
  | zero => exact ⟨rfl, rfl⟩
  | succ i ih =>
      simp only [baCreateLoopAccesses, baCreateLoop] at h ⊢
      split
      · rename_i hbit
        rw [if_pos hbit] at h
        simp only [List.mem_cons, not_or] at h
        obtain ⟨hloop, hacc⟩ := ih h.2
        rw [update_setOrder (Ne.symm h.1), baNextIndex_update (Ne.symm h.1), hloop, hacc]
        exact ⟨rfl, rfl⟩
      · rename_i hbit
        rw [if_neg hbit] at h
        exact ih h

/-- The search does the same whatever stands in an entry that it does not read.  The next head
is read off an entry that the search has looked at, so the two searches walk over the same
heads. -/
theorem baSearch_update {best : Option Nat} (h : x ∉ baSearchAccesses m n order fuel curr best) :
    baSearch (Function.update m x v) n order fuel curr best = baSearch m n order fuel curr best ∧
      baSearchAccesses (Function.update m x v) n order fuel curr best =
        baSearchAccesses m n order fuel curr best := by
  induction fuel generalizing curr best with
  | zero => exact ⟨rfl, rfl⟩
  | succ fuel ih =>
      simp only [baSearchAccesses, baSearch] at h ⊢
      by_cases hstop : curr < n
      · have hcurr : curr ≠ x := by
          intro heq
          apply h
          rw [if_pos hstop, heq]
          repeat' split
          all_goals simp
        simp only [if_pos hstop, baIsFree_update hcurr, Function.update_of_ne hcurr,
          baNextIndex_update hcurr] at h ⊢
        by_cases hfree : baIsFree m curr
        · simp only [if_pos hfree] at h ⊢
          by_cases hexact : (m curr).order = order % 2 ^ 8
          · simp only [if_pos hexact, and_self]
          · simp only [if_neg hexact] at h ⊢
            by_cases hmore : order % 2 ^ 8 < (m curr).order
            · simp only [hmore, if_true, true_and] at h ⊢
              have hbest : x ∉ best.toList := by
                intro hmem
                apply h
                by_cases hless : ∀ b ∈ best, (m curr).order < (m b).order
                · rw [if_pos hless]
                  simp [hmem]
                · rw [if_neg hless]
                  simp [hmem]
              have hread : ∀ b ∈ best, Function.update m x v b = m b := by
                intro b hb
                apply Function.update_of_ne
                intro heq
                exact hbest (Option.mem_toList.mpr (heq ▸ hb))
              have hcond : (∀ b ∈ best, (m curr).order < (Function.update m x v b).order) ↔
                  ∀ b ∈ best, (m curr).order < (m b).order := by
                constructor
                · intro hall b hb
                  rw [← hread b hb]
                  exact hall b hb
                · intro hall b hb
                  rw [hread b hb]
                  exact hall b hb
              simp only [hcond]
              by_cases hless : ∀ b ∈ best, (m curr).order < (m b).order
              · simp only [if_pos hless, List.cons_append, List.mem_cons, List.mem_append,
                  not_or] at h ⊢
                obtain ⟨hsearch, hacc⟩ := ih h.2.2
                rw [hsearch, hacc]
                exact ⟨rfl, rfl⟩
              · simp only [if_neg hless, List.cons_append, List.mem_cons, List.mem_append,
                  not_or] at h ⊢
                obtain ⟨hsearch, hacc⟩ := ih h.2.2
                rw [hsearch, hacc]
                exact ⟨rfl, rfl⟩
            · simp only [hmore, false_and, if_false, List.mem_cons, not_or] at h ⊢
              obtain ⟨hsearch, hacc⟩ := ih h.2
              rw [hsearch, hacc]
              exact ⟨rfl, rfl⟩
        · simp only [hfree, Bool.false_eq_true, if_false, List.mem_cons, not_or] at h ⊢
          obtain ⟨hsearch, hacc⟩ := ih h.2
          rw [hsearch, hacc]
          exact ⟨rfl, rfl⟩
      · simp only [if_neg hstop, and_self]

/-- The split does the same whatever stands in an entry that it does not use, and the entry is
still there in the result. -/
theorem baSplit_update {best : Nat} (h : x ∉ baSplitAccesses order best fuel m) :
    baSplit order best fuel (Function.update m x v) =
        (baSplit order best fuel m).map (Function.update · x v) ∧
      baSplitAccesses order best fuel (Function.update m x v) =
        baSplitAccesses order best fuel m := by
  induction fuel generalizing m with
  | zero => exact ⟨rfl, rfl⟩
  | succ fuel ih =>
      simp only [baSplitAccesses, baSplit] at h ⊢
      have hbest : best ≠ x := by
        intro heq
        apply h
        split <;> simp [heq]
      rw [Function.update_of_ne hbest]
      split
      · rename_i hmore
        rw [if_pos hmore] at h
        simp only [List.mem_cons, not_or] at h
        obtain ⟨-, hbuddy, hrest⟩ := h
        obtain ⟨hsplit, hacc⟩ := ih hrest
        rw [update_setOrder hbest, baBuddyIndex_update hbest, update_setOrder (Ne.symm hbuddy),
          Function.update_of_ne hbest, hsplit, hacc]
        exact ⟨rfl, rfl⟩
      · exact ⟨rfl, rfl⟩

/-- The merge does the same whatever stands in an entry that it does not use.  The buddy of a
block is found from the entry of the block, which the merge has read, so both merges go the same
way. -/
theorem baMerge_update (h : x ∉ baMergeAccesses n fuel curr m) :
    baMerge n fuel curr (Function.update m x v) =
        (baMerge n fuel curr m).map (Function.update · x v) ∧
      baMergeAccesses n fuel curr (Function.update m x v) = baMergeAccesses n fuel curr m := by
  induction fuel generalizing curr m with
  | zero => exact ⟨rfl, rfl⟩
  | succ fuel ih =>
      have hne : curr ≠ x ∧ baBuddyIndex m curr ≠ x := by
        simp only [baMergeAccesses] at h
        constructor <;> intro heq <;> apply h <;> split <;> simp [heq]
      obtain ⟨hcurr, hbuddy⟩ := hne
      simp only [baMergeAccesses, baMerge] at h ⊢
      rw [baBuddyIndex_update hcurr, baIsFree_update hbuddy, Function.update_of_ne hbuddy,
        Function.update_of_ne hcurr]
      split
      · rename_i hjoin
        rw [if_pos hjoin] at h
        rw [update_setOrder hbuddy, Function.update_of_ne hcurr, update_setOrder hcurr]
        split
        · rename_i hlt
          rw [if_pos hlt] at h
          simp only [List.mem_cons, not_or] at h
          obtain ⟨hmerge, hacc⟩ := ih h.2.2
          rw [hmerge, hacc]
          exact ⟨rfl, rfl⟩
        · exact ⟨rfl, rfl⟩
      · exact ⟨rfl, rfl⟩

end Patch

/-- What a request does when the entry at `x` is not touched: it finds and splits the same
block, and hands the entry on. -/
theorem baAllocOrder_patch {ba : Allocator} {order x : Nat} {v : Bitmap}
    (h : x ∉ baAllocOrderAccesses ba order) :
    baAllocOrder (ba.patch x v) order =
        (baAllocOrder ba order).map (fun r => (r.1.patch x v, r.2)) ∧
      baAllocOrderAccesses (ba.patch x v) order = baAllocOrderAccesses ba order := by
  simp only [baAllocOrder, baAllocOrderAccesses, Allocator.patch] at h ⊢
  by_cases hmax : ba.maxOrder < order
  · simp only [hmax, if_true]
    exact ⟨rfl, trivial⟩
  · simp only [hmax, if_false, List.mem_append, not_or] at h ⊢
    obtain ⟨hsearch, hacc⟩ := baSearch_update (v := v) h.1
    rw [hsearch, hacc]
    cases hres : baSearch ba.bitmap ba.nrPages order (ba.nrPages + 1) 0 none with
    | none => exact ⟨rfl, rfl⟩
    | some res =>
        cases res with
        | none => exact ⟨rfl, rfl⟩
        | some best =>
            simp only [hres, List.mem_append, List.mem_singleton, not_or] at h
            obtain ⟨hsplit, hacc'⟩ := baSplit_update (v := v) h.2.1
            simp only [hsplit, hacc', and_true]
            cases baSplit order best orderFuel ba.bitmap with
            | none => rfl
            | some m =>
                simp only [Option.map_some, update_setAllocated (Ne.symm h.2.2)]

/-- **Frame.**  An entry that an operation does not touch does not matter to
it and does not change. -/
theorem BaOp.accesses_patch {s : BaState} {op : BaOp} {x : Nat} {v : Bitmap}
    (h : x ∉ op.accesses s) :
    baExec (s.patch x v) op = (baExec s op).map (·.patch x v) ∧
      op.accesses (s.patch x v) = op.accesses s := by
  cases op with
  | alloc len =>
      obtain ⟨halloc, hacc⟩ := baAllocOrder_patch (v := v) h
      refine ⟨?_, hacc⟩
      simp only [baExec, baAlloc, BaState.patch]
      rw [show (s.ba.patch x v).pageSize = s.ba.pageSize from rfl, halloc, Option.map_map,
        Option.map_map]
      congr 1
      funext r
      obtain ⟨ba, index⟩ := r
      cases index <;> rfl
  | free index =>
      simp only [BaOp.accesses, List.mem_cons, not_or] at h
      have hstart : Memory.setAllocated (Function.update s.ba.bitmap x v) index false =
          Function.update (s.ba.bitmap.setAllocated index false) x v :=
        update_setAllocated (Ne.symm h.1)
      obtain ⟨hmerge, hacc⟩ := baMerge_update (v := v) h.2
      constructor
      · simp only [baExec, baFree, BaState.patch, Allocator.patch, hstart, hmerge, Option.map_map]
        rfl
      · simp only [BaOp.accesses, BaState.patch, Allocator.patch, hstart, hacc]

theorem BaState.patch_patch (s : BaState) (x : Nat) (v w : Bitmap) :
    (s.patch x v).patch x w = s.patch x w := by
  simp only [BaState.patch, Allocator.patch, Function.update_idem]

/-- Putting back what stands there changes nothing. -/
theorem BaState.patch_self (s : BaState) (x : Nat) : s.patch x (s.ba.bitmap x) = s := by
  simp only [BaState.patch, Allocator.patch, Function.update_eq_self]

/-- Whether an operation touches the entry at `x` does not depend on what
stands there. -/
theorem BaOp.mem_accesses_patch {s : BaState} {op : BaOp} {x : Nat} {v : Bitmap} :
    x ∈ op.accesses (s.patch x v) ↔ x ∈ op.accesses s := by
  constructor
  · intro h
    by_contra hno
    rw [(op.accesses_patch hno).2] at h
    exact hno h
  · intro h
    by_contra hno
    have hback := (op.accesses_patch (v := s.ba.bitmap x) hno).2
    rw [BaState.patch_patch, BaState.patch_self] at hback
    rw [hback] at h
    exact hno h

/-! ## Requests and creation -/

/-- The loop of `ba_create` stays below the number of the pages.  Its index is always a multiple
of the block that it is about to enter, which still fits. -/
theorem baCreateLoopAccesses_lt {n i : Nat} {m : Memory} (hi : i ≤ 32) :
    ∀ j ∈ baCreateLoopAccesses n i (n / 2 ^ i * 2 ^ i) m, j < n := by
  induction i generalizing m with
  | zero => exact fun j hj => by cases hj
  | succ i ih =>
      have hround := round_down_digit n i
      have hdown : n / 2 ^ i * 2 ^ i ≤ n := Nat.div_mul_le_self n _
      have hpos := Nat.two_pow_pos i
      rw [baCreateLoopAccesses]
      split
      · rename_i hbit
        have hmod : i % 128 = i := by omega
        have hnext : ∀ x, baNextIndex (m.setOrder x i) x = x + 2 ^ i := by
          intro x
          rw [baNextIndex, setOrder_same, Nat.one_shiftLeft, Bitmap.setOrder]
          simp [hmod]
        have hup : n / 2 ^ (i + 1) * 2 ^ (i + 1) + 2 ^ i = n / 2 ^ i * 2 ^ i := by
          rw [hround, and_shift_ne_zero_iff.mp hbit, Nat.one_mul]
        simp only [hnext, hup]
        intro j hj
        rcases List.mem_cons.mp hj with rfl | hj
        · exact (Nat.lt_add_of_pos_right hpos).trans_le (hup.le.trans hdown)
        · exact ih (by omega) j hj
      · rename_i hbit
        have hzero : n / 2 ^ i % 2 = 0 := by
          have hne : n / 2 ^ i % 2 ≠ 1 := fun h => hbit (and_shift_ne_zero_iff.mpr h)
          omega
        rw [hzero, Nat.zero_mul, Nat.add_zero] at hround
        rw [← hround]
        exact ih (by omega)

/-- `ba_create` stays inside the bitmap. -/
theorem baCreateAccesses_lt {m : Memory} {size pageSize : Nat} (hsize : size < 2 ^ 31) :
    ∀ i ∈ baCreateAccesses m size pageSize, i < size / pageSize := by
  have hn : size / pageSize < 2 ^ 32 :=
    ((Nat.div_le_self _ _).trans_lt hsize).trans (by decide)
  have hnull : size / pageSize / 2 ^ 32 * 2 ^ 32 = 0 := by
    rw [Nat.div_eq_of_lt hn, Nat.zero_mul]
  rw [baCreateAccesses]
  split
  · exact fun i hi => by cases hi
  · intro i hi
    rcases List.mem_append.mp hi with hi | hi
    · exact List.mem_range.mp hi
    · have hloop := baCreateLoopAccesses_lt (n := size / pageSize) (Nat.le_refl 32)
        (m := fun i => if i < size / pageSize then ⟨false, 0⟩ else m i)
      rw [hnull] at hloop
      exact hloop i hi

/-- The search tests every index before it looks there, so whatever it reads is inside the
bitmap; only the merge of `ba_free` looks at its buddy first. -/
theorem baSearchAccesses_lt {m : Memory} {stop order fuel curr : Nat} {best : Option Nat}
    (hbest : ∀ b ∈ best, b < stop) :
    ∀ i ∈ baSearchAccesses m stop order fuel curr best, i < stop := by
  induction fuel generalizing curr best with
  | zero => exact fun i hi => by cases hi
  | succ fuel ih =>
      rw [baSearchAccesses]
      by_cases hstop : curr < stop
      · have hsome : ∀ b ∈ some curr, b < stop := by
          intro b hb
          cases hb
          exact hstop
        have hlist : ∀ i ∈ best.toList, i < stop := fun i hi => hbest i (Option.mem_toList.mp hi)
        rw [if_pos hstop]
        repeat' split
        all_goals
          simp only [List.forall_mem_cons, List.forall_mem_append, List.cons_append,
            List.not_mem_nil, false_implies, implies_true, and_true]
        · exact hstop
        · exact ⟨hstop, hlist, ih hsome⟩
        · exact ⟨hstop, hlist, ih hbest⟩
        · exact ⟨hstop, ih hbest⟩
        · exact ⟨hstop, ih hbest⟩
      · rw [if_neg hstop]
        exact fun i hi => by cases hi

/-- The split loop stays inside the block it cuts down: it writes the first entries of the two
halves, and both lie in the block. -/
theorem baSplitAccesses_lt {m : Memory} {n order best k fuel : Nat} (hm : (m best).order = k)
    (hk : k < 2 ^ 7) (halign : 2 ^ k ∣ best) (hfit : best + 2 ^ k ≤ n) :
    ∀ i ∈ baSplitAccesses order best fuel m, i < n := by
  have hpos := Nat.two_pow_pos k
  induction fuel generalizing m k with
  | zero => exact fun i hi => by cases hi
  | succ fuel ih =>
      rw [baSplitAccesses]
      split
      · rename_i hmore
        rw [hm] at hmore
        obtain ⟨j, rfl⟩ : ∃ j, k = j + 1 := ⟨k - 1, by omega⟩
        have hj := Nat.two_pow_pos j
        have hdouble : 2 ^ (j + 1) = 2 ^ j + 2 ^ j := by ring
        have hmod : j % 128 = j := by omega
        have horder : (m.setOrder best ((m best).order - 1) best).order = j := by
          rw [setOrder_same, hm, Bitmap.setOrder]
          simpa using hmod
        have hbuddy := baBuddyIndex_lower horder halign
        simp only [hbuddy, horder, List.forall_mem_cons]
        refine ⟨by omega, by omega, ?_⟩
        apply ih (k := j) _ (by omega) ((Nat.pow_dvd_pow 2 (by omega)).trans halign) (by omega) hj
        rw [setOrder_other _ _ (by omega)]
        exact horder
      · intro i hi
        rw [List.mem_singleton.mp hi]
        omega

/-- A request stays inside the bitmap: the search because it tests, the split because the block
that it cuts lies inside. -/
theorem Holds.alloc_accesses_lt {ba : Allocator} {bs : List Block} (h : Holds ba bs)
    {order : Nat} (horder : order < 32) :
    ∀ i ∈ baAllocOrderAccesses ba order, i < ba.nrPages := by
  have hmod : order % 2 ^ 8 = order := by omega
  rw [baAllocOrderAccesses]
  split
  · exact fun i hi => by cases hi
  · have hnothing : BestFit (order % 2 ^ 8) [] none := fun c hc => by cases hc
    obtain ⟨res, hsearch, hres⟩ := baSearch_spec h.shows
      (by omega : ba.nrPages - 0 < ba.nrPages + 1) hnothing (fun b hb => by cases hb)
    simp only [Option.map_none, List.nil_append] at hsearch hres
    rw [hsearch]
    refine List.forall_mem_append.mpr ⟨baSearchAccesses_lt (fun b hb => by cases hb), ?_⟩
    cases res with
    | none => exact fun i hi => by cases hi
    | some b =>
        simp only [Option.map_some]
        obtain ⟨left, right, hsplit, hfit, -, -⟩ := hres
        have hb : b ∈ bs := by
          rw [hsplit]
          simp
        have hentry := h.shows.entry hb
        have hbound := (h.shows.tiles.mem_bounds hb).2
        have hlt := b.head_lt_stop
        have hk : b.order < 31 := by
          rw [Block.stop] at hbound
          exact (Nat.pow_lt_pow_iff_right (by decide)).mp
            ((by omega : 2 ^ b.order ≤ ba.nrPages).trans_lt h.nrPages_lt)
        refine List.forall_mem_append.mpr ⟨?_, fun i hi => by rw [List.mem_singleton.mp hi]; omega⟩
        apply baSplitAccesses_lt (k := b.order) _ (by omega) (h.shows.tiles.aligned hb) hbound
        rw [hentry]

/-! ## Releases -/

/-- The number without its lowest binary digit: where the last block begins
that `ba_create` lays out. -/
def lastBlock (n : Nat) : Nat := n &&& (n - 1)

/-- The last block of `n` pages ends where the pages end, and its order is that of the lowest
binary digit of `n`.  Its upper buddy would be the entry past the bitmap. -/
theorem lastBlock_spec {n : Nat} (hn : 0 < n) :
    ∃ k, 2 ^ (k + 1) ∣ lastBlock n ∧ lastBlock n + 2 ^ k = n := by
  obtain ⟨k, q, hodd, hq⟩ := Nat.exists_eq_two_pow_mul_odd hn.ne'
  obtain ⟨c, rfl⟩ := hodd
  have hpos := Nat.two_pow_pos k
  have hlt : 2 ^ k < 2 ^ (k + 1) := Nat.pow_lt_pow_right (by decide) (by omega)
  have hn1 : n = 2 ^ (k + 1) * c + 2 ^ k := by
    rw [hq]
    ring
  have hlast : lastBlock n = 2 ^ (k + 1) * c := by
    have hpred : n - 1 = 2 ^ (k + 1) * c + (2 ^ k - 1) := by omega
    rw [lastBlock, hpred, hn1]
    apply Nat.eq_of_testBit_eq
    intro i
    rw [Nat.testBit_and, Nat.testBit_two_pow_mul_add c hlt,
      Nat.testBit_two_pow_mul_add c (by omega),
      Nat.testBit_two_pow_mul, Nat.testBit_two_pow, Nat.testBit_two_pow_sub_one]
    by_cases hi : i < k + 1
    · have hge : ¬ k + 1 ≤ i := by omega
      by_cases hk : k = i
      · simp [hk]
      · simp [hi, hge, hk]
    · have hge : k + 1 ≤ i := by omega
      simp [hi, hge]
  exact ⟨k, by rw [hlast]; exact dvd_mul_right _ _, by rw [hlast, hn1]⟩

/-- One pass of the merge loop whose buddy is free and of the same order. -/
theorem baMergeAccesses_continue {m : Memory} {n fuel curr buddy k : Nat}
    (hbuddy : baBuddyIndex m curr = buddy) (hb : m buddy = ⟨false, k⟩) (hc : (m curr).order = k)
    (hn : curr < n) : baMergeAccesses n (fuel + 1) curr m =
      curr :: buddy :: baMergeAccesses n fuel (min buddy curr) (raise m buddy curr) := by
  have hlt : min buddy curr < n := lt_of_le_of_lt (min_le_right _ _) hn
  simp only [baMergeAccesses, hbuddy, baIsFree, hb, hc, Bool.not_false, and_self, if_true]
  rw [if_pos hlt]
  simp only [raise, hb]

/-- The merge loop stops at a buddy that is allocated or of another order. -/
theorem baMergeAccesses_stop {m : Memory} {n fuel curr : Nat}
    (h : (m (baBuddyIndex m curr)).allocated = false →
      (m (baBuddyIndex m curr)).order ≠ (m curr).order) :
    baMergeAccesses n (fuel + 1) curr m = [curr, baBuddyIndex m curr] := by
  have hcond : ¬ (baIsFree m (baBuddyIndex m curr) = true ∧
      (m (baBuddyIndex m curr)).order = (m curr).order) := by
    intro hboth
    exact h (by simpa [baIsFree] using hboth.1) hboth.2
  simp only [baMergeAccesses]
  rw [if_neg hcond]

/-- The indices of a round that joins a buddy, and of the rounds after it.  The round looks at
the head of its block and at that of the buddy, which are both inside, so only the later rounds
decide. -/
theorem JoinRound.accesses {m : Memory} {n fuel head : Nat} {left right : List Block} {b c : Block}
    (h : JoinRound m n b c head left right) (hc : c.head < n) :
    ((∀ i ∈ baMergeAccesses n (fuel + 1) b.head m, i ≤ n) ↔
        ∀ i ∈ baMergeAccesses n fuel head (raise m c.head b.head), i ≤ n) ∧
      (n ∈ baMergeAccesses n (fuel + 1) b.head m ↔
        n ∈ baMergeAccesses n fuel head (raise m c.head b.head)) := by
  have hacc : baMergeAccesses n (fuel + 1) b.head m = b.head :: c.head ::
      baMergeAccesses n fuel head (raise m c.head b.head) := by
    rw [baMergeAccesses_continue h.index h.buddy h.order h.inside, h.lower]
  have hb := h.inside
  rw [hacc]
  constructor
  · simp only [List.forall_mem_cons]
    exact ⟨fun h => h.2.2, fun h => ⟨hb.le, hc.le, h⟩⟩
  · simp only [List.mem_cons]
    constructor
    · intro h
      rcases h with h | h | h
      · omega
      · omega
      · exact h
    · exact fun h => Or.inr (Or.inr h)

/-- The last round touches the head of the block, and that of the buddy if it is
aligned for the upper one. -/
theorem baMergeAccesses_last {m : Memory} {n fuel : Nat} {b : Block}
    (horder : (m b.head).order = b.order)
    (halign : 2 ^ b.order ∣ b.head) (hbounds : b.stop ≤ n)
    (hstop : (m (baBuddyIndex m b.head)).allocated = false →
      (m (baBuddyIndex m b.head)).order ≠ (m b.head).order) :
    (∀ i ∈ baMergeAccesses n (fuel + 1) b.head m, i ≤ n) ∧
      (n ∈ baMergeAccesses n (fuel + 1) b.head m ↔ 2 ^ (b.order + 1) ∣ b.head ∧ b.stop = n) := by
  have hpos := Nat.two_pow_pos b.order
  simp only [Block.stop] at hbounds ⊢
  -- the loop looks at the buddy and stops
  rw [baMergeAccesses_stop hstop]
  simp only [List.mem_cons, List.not_mem_nil, or_false]
  rcases aligned_cases halign with hlow | ⟨y, hy, hxy⟩
  · rw [baBuddyIndex_lower horder hlow]
    refine ⟨fun i hi => by omega, ?_⟩
    constructor
    · intro h
      rcases h with h | h
      · omega
      · exact ⟨hlow, h.symm⟩
    · exact fun h => Or.inr h.2.symm
  · rw [hxy] at hbounds horder ⊢
    rw [baBuddyIndex_upper horder hy]
    refine ⟨fun i hi => by omega, ?_⟩
    constructor
    · intro h
      rcases h with h | h <;> omega
    · intro h
      exact absurd h.1 (not_both_buddies hy)

/-- The indices the merge loop touches, the entry past the bitmap reading as
allocated: all up to that entry, and that one exactly when the block that
comes out ends the bitmap and is aligned for its upper buddy. -/
theorem baMergeAccesses_spec {m : Memory} {n fuel : Nat} {left right : List Block} {b : Block}
    (hn : n < 2 ^ 31) (hshow : Shows m 0 n (left ++ b :: right)) (hb : b.allocated = false)
    (hpast : (m n).allocated = true) (hfuel : 31 < b.order + fuel) :
    ∃ out f, Coalesces left b right out ∧ f ∈ out ∧ f.allocated = false ∧
      f.head ≤ b.head ∧ b.stop ≤ f.stop ∧
      (∀ i ∈ baMergeAccesses n fuel b.head m, i ≤ n) ∧
      (n ∈ baMergeAccesses n fuel b.head m ↔ 2 ^ (f.order + 1) ∣ f.head ∧ f.stop = n) := by
  induction fuel generalizing m left right b with
  | zero =>
      have hk := hshow.order_lt hn (b := b) (by simp)
      omega
  | succ fuel ih =>
      have hpos := Nat.two_pow_pos b.order
      have hdouble : 2 ^ (b.order + 1) = 2 ^ b.order + 2 ^ b.order := by ring
      rcases merge_round hn hshow hb hpast with
        ⟨c, right, rfl, hc, hbud, hjoin⟩ | ⟨c, left, rfl, hc, hbud, hjoin⟩ | ⟨hstop, hup, hdown⟩
      · have hclt := (hshow.tiles.mem_bounds (b := c) (by simp)).2
        obtain ⟨out, f, hco, hf, hff, hfb, hbf, hle, hend⟩ :=
          ih hjoin.shows rfl hjoin.past (show 31 < b.order + 1 + fuel by omega)
        obtain ⟨hall, hlast⟩ := hjoin.accesses (c.head_lt_stop.trans_le hclt)
        simp only [Block.stop] at hbf ⊢
        exact ⟨out, f, Coalesces.up hc hbud hco, hf, hff, hfb, by omega, hall.mpr hle,
          hlast.trans hend⟩
      · have hclt := (hshow.tiles.mem_bounds (b := c) (by simp)).2
        obtain ⟨out, f, hco, hf, hff, hfb, hbf, hle, hend⟩ :=
          ih hjoin.shows rfl hjoin.past (show 31 < b.order + 1 + fuel by omega)
        obtain ⟨hall, hlast⟩ := hjoin.accesses (c.head_lt_stop.trans_le hclt)
        have hhead := hbud.head_lt
        have hbh := hbud.2.2
        rw [hbud.1] at hbh
        simp only [Block.stop] at hfb hbf ⊢
        exact ⟨out, f, Coalesces.down hc hbud hco, hf, hff, by omega, by omega, hall.mpr hle,
          hlast.trans hend⟩
      · have hentry : m b.head = ⟨false, b.order⟩ := hb ▸ hshow.entry (b := b) (by simp)
        have hbounds := (hshow.tiles.mem_bounds (b := b) (by simp)).2
        obtain ⟨hall, hlast⟩ := baMergeAccesses_last (by rw [hentry])
          (hshow.tiles.aligned (b := b) (by simp)) hbounds hstop
        exact ⟨_, b, Coalesces.done hup hdown, by simp, hb, le_rfl, le_rfl, hall, hlast⟩

/-! ## Histories

The bitmap is compared with one whose entry past the end reads as allocated.
As long as that entry is not touched the two go the same way. -/

/-- `ba_create` hands on an entry that it does not use. -/
theorem baCreate_patch {m : Memory} {size pageSize x : Nat} {v : Bitmap}
    (h : x ∉ baCreateAccesses m size pageSize) :
    baCreate (Function.update m x v) size pageSize =
      (baCreate m size pageSize).map (·.patch x v) := by
  simp only [baCreate, baCreateAccesses] at h ⊢
  split
  · rfl
  · rename_i hmask
    rw [if_neg hmask] at h
    simp only [List.mem_append, List.mem_range, not_or] at h
    have hzeroed : (fun i => if i < size / pageSize then (⟨false, 0⟩ : Bitmap)
        else Function.update m x v i) =
        Function.update (fun i => if i < size / pageSize then ⟨false, 0⟩ else m i) x v := by
      funext i
      by_cases hi : i = x
      · rw [hi, Function.update_self, if_neg h.1, Function.update_self]
      · rw [Function.update_of_ne hi, Function.update_of_ne hi]
    rw [hzeroed, (baCreateLoop_update h.2).1]
    rfl

/-- The state with a fence past the bitmap. -/
def BaState.fenced (s : BaState) : BaState :=
  s.patch s.ba.nrPages ⟨true, 0⟩

/-- The operation does not give back the last allocation in the last block
that `ba_create` laid out. -/
def BaOp.KeepsLast (s : BaState) : BaOp → Prop
  | .alloc _ => True
  | .free index => index < lastBlock s.ba.nrPages ∨
      ∃ a ∈ s.outstanding, a.1 ≠ index ∧ lastBlock s.ba.nrPages ≤ a.1

instance (s : BaState) (op : BaOp) : Decidable (op.KeepsLast s) :=
  match op with
  | .alloc _ => inferInstanceAs (Decidable True)
  | .free index => inferInstanceAs (Decidable (index < lastBlock s.ba.nrPages ∨
      ∃ a ∈ s.outstanding, a.1 ≠ index ∧ lastBlock s.ba.nrPages ≤ a.1))

variable {size pageSize : Nat} {s t : BaState} {bs : List Block}

/-- What is still allocated after a release is the rest of the ledger: the merge joins free
blocks only. -/
theorem BaInv.mem_merged (hinv : BaInv size pageSize s bs) {a : Nat × Nat}
    {left right out : List Block} {order : Nat}
    (hbs : bs = left ++ ⟨a.1, baOrder a.2 pageSize, true⟩ :: right)
    (hmerge : Coalesces left ⟨a.1, order, false⟩ right out) {c : Block} (hc : c.allocated = true) :
    c ∈ out ↔ ∃ d ∈ s.outstanding, d.1 ≠ a.1 ∧ d.1 = c.head ∧ baOrder d.2 pageSize = c.order := by
  obtain ⟨hbelow, habove⟩ := (hbs ▸ hinv.holds.shows.tiles).middle
  have hother : c ∈ left ++ right ↔ c ∈ bs ∧ c.head ≠ a.1 := by
    rw [hbs]
    simp only [List.mem_append, List.mem_cons]
    constructor
    · intro hmem
      rcases hmem with hmem | hmem
      · exact ⟨Or.inl hmem, (hbelow c hmem).ne⟩
      · exact ⟨Or.inr (Or.inr hmem), (habove c hmem).ne'⟩
    · intro hmem
      rcases hmem.1 with hin | hin | hin
      · exact Or.inl hin
      · exact absurd (congrArg Block.head hin) hmem.2
      · exact Or.inr hin
  rw [coalesces_mem_iff hmerge rfl hc, hother, hinv.exact_iff c hc]
  constructor
  · intro h
    obtain ⟨⟨d, hd, hhead, horder⟩, hne⟩ := h
    exact ⟨d, hd, hhead ▸ hne, hhead, horder⟩
  · intro h
    obtain ⟨d, hd, hne, hhead, horder⟩ := h
    exact ⟨⟨d, hd, hhead, horder⟩, hhead ▸ hne⟩

/-- When everything from the last block on is free, a block that reaches into it is the last
block. -/
theorem eq_lastBlock {n : Nat} {out : List Block} {f : Block} (hn : 0 < n)
    (htiles : Tiles 0 n out) (hco : Coalesced out) (hf : f ∈ out) (hreach : lastBlock n < f.stop)
    (hfree : ∀ c ∈ out, lastBlock n ≤ c.head → c.allocated = false) :
    2 ^ (f.order + 1) ∣ f.head ∧ f.stop = n := by
  obtain ⟨k, hk, hlast⟩ := lastBlock_spec hn
  have hmem : ⟨lastBlock n, k, false⟩ ∈ out := by
    refine Tiles.last_block (s := 0) ?_ hco (Nat.zero_le _) hk hfree
    rw [hlast]
    exact htiles
  have heq : f = ⟨lastBlock n, k, false⟩ := by
    have hstop := (htiles.mem_bounds hf).2
    rcases htiles.eq_or_disjoint hf hmem with heq | hdis | hdis
    · exact heq
    · exact absurd hreach (not_lt.mpr hdis)
    · have hflt := f.head_lt_stop
      simp only [Block.stop] at hdis hflt hstop
      omega
  rw [heq]
  exact ⟨hk, hlast⟩

/-- A free block that ends the bitmap and is aligned for its upper buddy is the last block, so
nothing is allocated there. -/
theorem not_lastBlock {n order : Nat} {out : List Block} {f d : Block} (hn : 0 < n)
    (htiles : Tiles 0 n out) (hf : f ∈ out) (hff : f.allocated = false)
    (halign : 2 ^ (f.order + 1) ∣ f.head) (hstop : f.stop = n) :
    f.head = lastBlock n ∧ (d ∈ out → d = ⟨d.head, order, true⟩ → ¬ lastBlock n ≤ d.head) := by
  obtain ⟨k, hk, hlast⟩ := lastBlock_spec hn
  have horder : f.order = k := order_unique halign hk (by rw [hlast, ← hstop, Block.stop])
  have hhead : f.head = lastBlock n := by
    rw [Block.stop, horder] at hstop
    omega
  refine ⟨hhead, fun hd hset hge => ?_⟩
  have hdstop := (htiles.mem_bounds hd).2
  have hdlt := d.head_lt_stop
  rcases htiles.eq_or_disjoint hf hd with heq | hdis | hdis
  · have hallocated : d.allocated = true := congrArg Block.allocated hset
    rw [heq, hallocated] at hff
    cases hff
  · omega
  · omega

/-- A release among coalesced blocks, the entry past the bitmap reading as allocated.  The merge
looks past the bitmap exactly when it arrives at the last block, and then it goes no further. -/
theorem BaInv.free_accesses (hinv : BaInv size pageSize s bs) (hco : Coalesced bs) {a : Nat × Nat}
    (ha : a ∈ s.outstanding) :
    (∀ i ∈ (BaOp.free a.1).accesses s, i ≤ s.ba.nrPages) ∧
      (s.ba.nrPages ∉ (BaOp.free a.1).accesses s ↔ (BaOp.free a.1).KeepsLast s) := by
  have hblock := hinv.block ha
  have hbound := (hinv.holds.shows.tiles.mem_bounds hblock).2
  have hinside := Block.head_lt_stop ⟨a.1, baOrder a.2 pageSize, true⟩
  simp only at hinside
  have hn : 0 < s.ba.nrPages := by omega
  obtain ⟨left, right, hbs⟩ := List.append_of_mem hblock
  have hshow := hinv.holds.shows
  rw [hbs] at hshow
  -- the bitmap after `allocated = 0`
  have hfreed : Shows (s.ba.bitmap.setAllocated a.1 false) 0 s.ba.nrPages
      (left ++ ⟨a.1, baOrder a.2 pageSize, false⟩ :: right) := hshow.setAllocated
  have hpast : (s.ba.bitmap.setAllocated a.1 false s.ba.nrPages).allocated = true := by
    rw [setAllocated_other _ _ (by omega)]
    exact hinv.holds.past
  have hfuel : 31 < baOrder a.2 pageSize + orderFuel := by
    rw [orderFuel]
    omega
  obtain ⟨out, f, hmerge, hf, hff, hfa, haf, hle, hend⟩ :=
    baMergeAccesses_spec hinv.holds.nrPages_lt hfreed rfl hpast hfuel
  simp only at hfa haf hle hend
  have htiles := hmerge.tiles hfreed.tiles
  have houtco : Coalesced out := by
    apply hmerge.coalesced hfreed.tiles
    rw [hbs] at hco
    exact hco.sublist (List.Sublist.append_left (List.sublist_cons_self _ right) left)
  have hnot : s.ba.nrPages ∉ (BaOp.free a.1).accesses s ↔
      ¬ (2 ^ (f.order + 1) ∣ f.head ∧ f.stop = s.ba.nrPages) := by
    rw [← hend, BaOp.accesses, List.mem_cons, not_or]
    exact and_iff_right (by omega)
  refine ⟨?_, ?_⟩
  · simp only [BaOp.accesses, List.forall_mem_cons]
    exact ⟨by omega, hle⟩
  rw [hnot, BaOp.KeepsLast]
  constructor
  · intro hno
    by_contra hgiven
    simp only [not_or, not_lt, not_exists, not_and] at hgiven
    obtain ⟨hin, hothers⟩ := hgiven
    have hreach : lastBlock s.ba.nrPages < f.stop := hin.trans_lt (hinside.trans_le haf)
    refine hno (eq_lastBlock hn htiles houtco hf hreach fun c hc hge => ?_)
    by_contra hset
    obtain ⟨d, hd, hne, hhead, -⟩ :=
      (hinv.mem_merged hbs hmerge (Bool.of_not_eq_false hset)).mp hc
    exact hothers d hd hne (hhead ▸ hge)
  · rintro hkeeps ⟨halign, hstop⟩
    rcases hkeeps with hlt | ⟨d, hd, hne, hge⟩
    · obtain ⟨hhead, -⟩ := @not_lastBlock _ 0 _ _ f hn htiles hf hff halign hstop
      omega
    · have hdout := (hinv.mem_merged hbs hmerge
        (c := ⟨d.1, baOrder d.2 pageSize, true⟩) rfl).mpr ⟨d, hd, hne, rfl, rfl⟩
      exact (not_lastBlock hn htiles hf hff halign hstop).2 hdout rfl hge

/-- An admissible operation stays inside the bitmap exactly when it keeps the last block.
Requests always do; a release does not if the last block becomes free by it. -/
theorem BaOp.accesses_lt_iff (hinv : BaInv size pageSize s.fenced bs) (hco : Coalesced bs)
    {op : BaOp} (hop : op.Admissible s) :
    (∀ i ∈ op.accesses s, i < s.ba.nrPages) ↔ op.KeepsLast s := by
  have hfenced : (∀ i ∈ op.accesses s.fenced, i ≤ s.ba.nrPages) ∧
      (s.ba.nrPages ∉ op.accesses s.fenced ↔ op.KeepsLast s) := by
    cases op with
    | alloc len =>
        obtain ⟨horder, -⟩ := hinv.holds.baOrder_lt hop.1 hop.2
        have hlt := hinv.holds.alloc_accesses_lt horder
        exact ⟨fun i hi => (hlt i hi).le,
          iff_of_true (fun hn => Nat.lt_irrefl _ (hlt _ hn)) trivial⟩
    | free index =>
        obtain ⟨a, ha, rfl⟩ := hop
        exact hinv.free_accesses hco ha
  rw [← hfenced.2]
  constructor
  · intro hall hmem
    exact Nat.lt_irrefl _ (hall _ (BaOp.mem_accesses_patch.mp hmem))
  · intro hno i hi
    have hsame := (BaOp.accesses_patch (v := ⟨true, 0⟩)
      fun hmem => hno (BaOp.mem_accesses_patch.mpr hmem)).2
    rw [← hsame] at hi
    exact lt_of_le_of_ne (hfenced.1 i hi) fun heq => hno (heq ▸ hi)

/-- An operation that keeps the last block goes the same way on the fenced bitmap, since it
never reads the entry in which the two differ. -/
theorem BaStep.fenced (hinv : BaInv size pageSize s.fenced bs) (hco : Coalesced bs) {op : BaOp}
    (hstep : BaStep s op t) (hkeeps : op.KeepsLast s) :
    ∃ cs, BaInv size pageSize t.fenced cs ∧ Coalesced cs := by
  obtain ⟨hop, hexec⟩ := hstep
  have hpages : s.ba.nrPages = size / pageSize := by
    rw [← hinv.size_eq, ← hinv.page_eq]
    exact hinv.holds.pages
  have hin := (BaOp.accesses_lt_iff hinv hco hop).mpr hkeeps
  have hno : s.ba.nrPages ∉ op.accesses s := fun hmem => Nat.lt_irrefl _ (hin _ hmem)
  have hfenced : baExec s.fenced op = some (t.patch s.ba.nrPages ⟨true, 0⟩) := by
    rw [BaState.fenced, (BaOp.accesses_patch hno).1, hexec, Option.map_some]
  have hstep : BaStep s.fenced op (t.patch s.ba.nrPages ⟨true, 0⟩) := by
    refine ⟨?_, hfenced⟩
    cases op with
    | alloc len => exact hop
    | free index => exact hop
  obtain ⟨u, cs, hexec', hinv'⟩ := hinv.exec hstep.1
  obtain rfl := Option.some.inj (hexec'.symm.trans hfenced)
  have hpages' : t.ba.nrPages = s.ba.nrPages := by
    rw [hpages, ← hinv'.size_eq, ← hinv'.page_eq]
    exact hinv'.holds.pages
  have hco' := hstep.coalesced hinv hco
  rw [hinv'.holds.baBlocks] at hco'
  rw [BaState.fenced, hpages']
  exact ⟨cs, hinv', hco'⟩

/-- A step of a history that keeps the last block. -/
def KeepingStep (s : BaState) (op : BaOp) (t : BaState) : Prop :=
  BaStep s op t ∧ op.KeepsLast s

/-- Along such a history the fenced bitmap is in order. -/
theorem KeepingStep.run {m : Memory} {ba : Allocator} {tr : List BaOp} (hsize : size < 2 ^ 31)
    (hpage : 0 < pageSize) (hpage' : pageSize < 2 ^ 31) (hdvd : 128 ∣ pageSize)
    (hcreate : baCreate m size pageSize = some ba) (hrun : Run KeepingStep ⟨ba, []⟩ tr s) :
    ∃ bs, BaInv size pageSize s.fenced bs ∧ Coalesced bs := by
  refine hrun.invariant (fun s => ∃ bs, BaInv size pageSize s.fenced bs ∧ Coalesced bs) ?_ ?_
  · have hno : size / pageSize ∉ baCreateAccesses m size pageSize :=
      fun hmem => Nat.lt_irrefl _ (baCreateAccesses_lt hsize _ hmem)
    have hcreate' := baCreate_patch (v := ⟨true, 0⟩) hno
    rw [hcreate, Option.map_some] at hcreate'
    have hpages : ba.nrPages = size / pageSize := by
      rw [baCreate_of_dvd hdvd] at hcreate
      rw [← Option.some.inj hcreate]
    have hstart : BaState.fenced ⟨ba, []⟩ = ⟨ba.patch (size / pageSize) ⟨true, 0⟩, []⟩ := by
      rw [BaState.fenced, hpages]
      rfl
    rw [hstart]
    exact BaInv.coalesced hsize hpage hpage' hdvd (by rw [Function.update_self]) hcreate' Run.nil
  · intro s op t hinv hstep
    obtain ⟨bs, hinv, hco⟩ := hinv
    exact hstep.1.fenced hinv hco hstep.2

/-- **The bitmap is left only in one way.**  `ba_create` stays inside the
bitmap.  In every history whose operations keep the last block, the next
operation stays inside the bitmap if and only if it keeps the last block, too.
Nothing is assumed of the memory behind the bitmap. -/
theorem bitmap_in_bounds {m : Memory} {ba : Allocator} (hsize : size < 2 ^ 31)
    (hpage : 0 < pageSize) (hpage' : pageSize < 2 ^ 31) (hdvd : 128 ∣ pageSize)
    (hcreate : baCreate m size pageSize = some ba) :
    (∀ i ∈ baCreateAccesses m size pageSize, i < ba.nrPages) ∧
    ∀ (tr : List BaOp) (s : BaState) (op : BaOp), Run KeepingStep ⟨ba, []⟩ tr s →
      op.Admissible s → ((∀ i ∈ op.accesses s, i < s.ba.nrPages) ↔ op.KeepsLast s) := by
  constructor
  · rw [baCreate_of_dvd hdvd] at hcreate
    rw [← Option.some.inj hcreate]
    exact baCreateAccesses_lt hsize
  · intro tr s op hrun hop
    obtain ⟨bs, hinv, hco⟩ := KeepingStep.run hsize hpage hpage' hdvd hcreate hrun
    exact BaOp.accesses_lt_iff hinv hco hop

/-- On eleven pages the block of two pages can be given back. -/
theorem bitmap_in_bounds_eleven_pages : ∃ ba s,
    baCreate (fun _ => ⟨false, 0⟩) 1413 128 = some ba ∧ Run KeepingStep ⟨ba, []⟩ [.alloc 200] s ∧
    ∀ i ∈ (BaOp.free 8).accesses s, i < s.ba.nrPages := by
  let ba := (baCreate (fun _ => ⟨false, 0⟩) 1413 128).get (by decide)
  let s := (baExec ⟨ba, []⟩ (.alloc 200)).get (by decide +kernel)
  have hcreate : baCreate (fun _ => ⟨false, 0⟩) 1413 128 = some ba := (Option.some_get _).symm
  have hstep : KeepingStep ⟨ba, []⟩ (.alloc 200) s :=
    ⟨⟨by decide +kernel, (Option.some_get _).symm⟩, trivial⟩
  have hrun : Run KeepingStep ⟨ba, []⟩ [.alloc 200] s := Run.single hstep
  have hbounds := bitmap_in_bounds (by decide) (by decide) (by decide) (by decide) hcreate
  exact ⟨ba, s, hcreate, hrun,
    (hbounds.2 _ s (.free 8) hrun (by decide +kernel)).mpr (by decide +kernel)⟩

/-- One page, handed out and given back: `ba_free` looks at the entry one past
the bitmap. -/
theorem bitmap_left : ∃ ba s, baCreate (fun _ => ⟨false, 0⟩) 128 128 = some ba ∧
    Run BaStep ⟨ba, []⟩ [.alloc 1] s ∧ (BaOp.free 0).Admissible s ∧
    ∃ i ∈ (BaOp.free 0).accesses s, ¬ i < s.ba.nrPages := by
  let ba := (baCreate (fun _ => ⟨false, 0⟩) 128 128).get (by decide)
  let s := (baRun ⟨ba, []⟩ [.alloc 1]).get (by decide +kernel)
  exact ⟨ba, s, (Option.some_get _).symm, run_of_baRun (Option.some_get _).symm,
    by decide +kernel, by decide +kernel⟩

end BuddyAllocator

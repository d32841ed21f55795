import Mathlib.Data.List.Pairwise
import Mathlib.Data.Nat.Bitwise
import Mathlib.Tactic.Ring

/-!
# Tilings by aligned power-of-two blocks

A buddy allocator keeps its cells in blocks whose size is a power of two and
whose head is a multiple of that size.  This file is about such tilings alone:
how they append, why blocks never overlap, and why the lower buddy of a block
is itself the head of a block.

The key fact is `Tiles.lower_buddy`: when a block of order `k` ends where its
upper buddy starts, the tiling cannot hide the lower buddy inside a larger
block, because every larger aligned block containing it would contain the
upper buddy as well.

`BestFit` and `Coalesces` say what an allocation picks and what a release
merges, as relations on the list of blocks; they mention no bitmap.
-/

namespace AlignedTiling

/-- A block of `2 ^ order` cells starting at `head`. -/
structure Block where
  head : Nat
  order : Nat
  allocated : Bool
  deriving DecidableEq, Repr

/-- The first cell after the block. -/
def Block.stop (b : Block) : Nat :=
  b.head + 2 ^ b.order

theorem Block.head_lt_stop (b : Block) : b.head < b.stop := by
  have := Nat.two_pow_pos b.order
  simp only [Block.stop]
  omega

/-- The blocks lie end to end from `s` to `e`, each at a multiple of its own
size. -/
def Tiles : Nat → Nat → List Block → Prop
  | s, e, [] => s = e
  | s, e, b :: bs => b.head = s ∧ 2 ^ b.order ∣ s ∧ Tiles (s + 2 ^ b.order) e bs

@[simp] theorem tiles_nil {s e : Nat} : Tiles s e [] ↔ s = e := Iff.rfl

/-- The first block starts the range, is aligned, and the others tile what is behind it. -/
@[simp] theorem tiles_cons {s e : Nat} {b : Block} {bs : List Block} :
    Tiles s e (b :: bs) ↔
      b.head = s ∧ 2 ^ b.order ∣ s ∧ Tiles (s + 2 ^ b.order) e bs := Iff.rfl

/-- Tilings are cut exactly at the borders of their blocks. -/
theorem tiles_append {s e : Nat} {left right : List Block} :
    Tiles s e (left ++ right) ↔ ∃ m, Tiles s m left ∧ Tiles m e right := by
  induction left generalizing s with
  | nil => simp
  | cons b left ih => simp [ih, and_assoc]

/-- A range that is tiled does not end before it starts. -/
theorem Tiles.le {s e : Nat} {bs : List Block} (h : Tiles s e bs) : s ≤ e := by
  induction bs generalizing s with
  | nil => exact Nat.le_of_eq h
  | cons b bs ih => exact Nat.le_trans (Nat.le_add_right s _) (ih h.2.2)

/-- A block of a tiling lies inside the tiled range. -/
theorem Tiles.mem_bounds {s e : Nat} {bs : List Block} (h : Tiles s e bs)
    {b : Block} (hb : b ∈ bs) : s ≤ b.head ∧ b.stop ≤ e := by
  induction bs generalizing s with
  | nil => cases hb
  | cons c bs ih =>
      obtain ⟨hhead, _, htail⟩ := h
      rcases List.mem_cons.mp hb with rfl | hb
      · exact ⟨hhead.ge, by simpa [Block.stop, hhead] using htail.le⟩
      · have := ih htail hb
        omega

/-- Every block of a tiling is aligned to its own size. -/
theorem Tiles.aligned {s e : Nat} {bs : List Block} (h : Tiles s e bs)
    {b : Block} (hb : b ∈ bs) : 2 ^ b.order ∣ b.head := by
  induction bs generalizing s with
  | nil => cases hb
  | cons c bs ih =>
      obtain ⟨hhead, halign, htail⟩ := h
      rcases List.mem_cons.mp hb with rfl | hb
      · exact hhead ▸ halign
      · exact ih htail hb

/-- Blocks of a tiling come in address order and do not overlap. -/
theorem Tiles.pairwise {s e : Nat} {bs : List Block} (h : Tiles s e bs) :
    bs.Pairwise (fun a b => a.stop ≤ b.head) := by
  induction bs generalizing s with
  | nil => exact List.Pairwise.nil
  | cons c bs ih =>
      obtain ⟨hhead, _, htail⟩ := h
      refine List.pairwise_cons.mpr ⟨fun b hb => ?_, ih htail⟩
      simpa [Block.stop, hhead] using (htail.mem_bounds hb).1

/-- Any two blocks of a tiling are the same block or do not overlap. -/
theorem Tiles.eq_or_disjoint {s e : Nat} {bs : List Block} (h : Tiles s e bs)
    {a b : Block} (ha : a ∈ bs) (hb : b ∈ bs) :
    a = b ∨ a.stop ≤ b.head ∨ b.stop ≤ a.head := by
  induction bs generalizing s with
  | nil => cases ha
  | cons c bs ih =>
      have hc := List.pairwise_cons.mp h.pairwise
      rcases List.mem_cons.mp ha with rfl | ha' <;> rcases List.mem_cons.mp hb with rfl | hb'
      · exact Or.inl rfl
      · exact Or.inr (Or.inl (hc.1 b hb'))
      · exact Or.inr (Or.inr (hc.1 a ha'))
      · exact ih h.2.2 ha' hb'

/-- Two blocks of a tiling with the same head are the same block. -/
theorem Tiles.eq_of_head_eq {s e : Nat} {bs : List Block} (h : Tiles s e bs)
    {a b : Block} (ha : a ∈ bs) (hb : b ∈ bs) (heq : a.head = b.head) : a = b := by
  have hdisj := h.eq_or_disjoint ha hb
  have hpa := a.head_lt_stop
  have hpb := b.head_lt_stop
  rcases hdisj with hab | hab | hab
  · exact hab
  · omega
  · omega

/-- A multiple of `2 ^ k` that is not yet past `x` cannot jump over `x` when
`x` is a multiple of a larger power: the next multiple of `2 ^ (k + 1)` after
`x` lies beyond `x + 2 ^ k`. -/
theorem no_border_inside {k j x m : Nat} (hkj : k < j) (hx : 2 ^ (k + 1) ∣ x)
    (hm : 2 ^ j ∣ m) (hlt : x < m) : x + 2 ^ k < m := by
  have hm' : 2 ^ (k + 1) ∣ m := (Nat.pow_dvd_pow 2 hkj).trans hm
  have hgap : 2 ^ (k + 1) ≤ m - x :=
    Nat.le_of_dvd (by omega) (Nat.dvd_sub hm' hx)
  have : 2 ^ k < 2 ^ (k + 1) := Nat.pow_lt_pow_right (by decide) (by omega)
  omega

/-- A block containing a multiple of its own size starts there. -/
theorem head_eq_of_contains {s x j : Nat} (hs : 2 ^ j ∣ s) (hx : 2 ^ j ∣ x)
    (hle : s ≤ x) (hlt : x < s + 2 ^ j) : x = s := by
  by_contra hne
  have hgap : 2 ^ j ≤ x - s := Nat.le_of_dvd (by omega) (Nat.dvd_sub hx hs)
  omega

/-- **Lower buddy.**  If a tiling ends at `x + 2 ^ k` with `x` a multiple of
`2 ^ (k + 1)`, then `x` is the head of one of its blocks.  That block has
order at most `k`, and it is the last one when its order is `k`. -/
theorem Tiles.lower_buddy {s x k : Nat} {bs : List Block}
    (h : Tiles s (x + 2 ^ k) bs) (hx : 2 ^ (k + 1) ∣ x) (hsx : s ≤ x) :
    ∃ left b right, bs = left ++ b :: right ∧ b.head = x ∧ b.order ≤ k ∧
      (b.order = k → right = []) := by
  induction bs generalizing s with
  | nil =>
      have hpos := Nat.two_pow_pos k
      simp only [tiles_nil] at h
      omega
  | cons c bs ih =>
      obtain ⟨hhead, halign, htail⟩ := h
      by_cases hpast : s + 2 ^ c.order ≤ x
      · obtain ⟨left, b, right, rfl, hb, hk, hlast⟩ := ih htail hpast
        exact ⟨c :: left, b, right, rfl, hb, hk, hlast⟩
      · have hk : c.order ≤ k := by
          by_contra hbig
          have hborder := no_border_inside (k := k) (j := c.order) (by omega) hx
            (Nat.dvd_add halign dvd_rfl) (by omega)
          have := htail.le
          omega
        have hsx' : x = s := head_eq_of_contains halign
          ((Nat.pow_dvd_pow 2 (by omega)).trans hx) hsx (by omega)
        refine ⟨[], c, bs, rfl, hhead.trans hsx'.symm, hk, ?_⟩
        intro heq
        subst hsx'
        rw [heq] at htail
        cases bs with
        | nil => rfl
        | cons d bs =>
            have hb := htail.mem_bounds List.mem_cons_self
            have := d.head_lt_stop
            omega

/-- The free blocks left over when a block of order `k` at `head` is cut down
to order `r`: one of each order `r, …, k - 1`, smallest first. -/
def remainders (head r : Nat) : Nat → List Block
  | 0 => []
  | n + 1 => remainders head r n ++ [⟨head + 2 ^ (r + n), r + n, false⟩]

/-- The free blocks that the binary digits of `n` below digit `i` ask for,
laid out from `index` on, largest first. -/
def digitBlocks (n : Nat) : Nat → Nat → List Block
  | 0, _ => []
  | i + 1, index =>
      if n / 2 ^ i % 2 = 1 then
        ⟨index, i, false⟩ :: digitBlocks n i (index + 2 ^ i)
      else
        digitBlocks n i index

/-- The digit blocks are free. -/
theorem digitBlocks_free {n i index : Nat} {b : Block}
    (hb : b ∈ digitBlocks n i index) : b.allocated = false := by
  induction i generalizing index with
  | zero => cases hb
  | succ i ih =>
      unfold digitBlocks at hb
      split at hb
      · rcases List.mem_cons.mp hb with rfl | hb
        · rfl
        · exact ih hb
      · exact ih hb

/-- Rounding down to a multiple of `2 ^ i` keeps the digits from `i` on. -/
theorem round_down_digit (n i : Nat) :
    n / 2 ^ i * 2 ^ i = n / 2 ^ (i + 1) * 2 ^ (i + 1) + n / 2 ^ i % 2 * 2 ^ i := by
  have hdiv : n / 2 ^ (i + 1) = n / 2 ^ i / 2 := by
    rw [Nat.pow_succ, Nat.div_div_eq_div_mul]
  have hsplit : n / 2 ^ i = 2 * (n / 2 ^ i / 2) + n / 2 ^ i % 2 := by omega
  rw [hdiv]
  conv_lhs => rw [hsplit]
  ring

/-- Testing a digit with a shifted mask. -/
theorem and_shift_ne_zero_iff {n i : Nat} : n &&& 1 <<< i ≠ 0 ↔ n / 2 ^ i % 2 = 1 := by
  have hbit : n.testBit i = decide (n / 2 ^ i % 2 = 1) := Nat.testBit_eq_decide_div_mod_eq
  rw [Nat.one_shiftLeft]
  constructor
  · intro h
    by_contra hdigit
    refine h (Nat.eq_of_testBit_eq fun j => ?_)
    rw [Nat.testBit_and, Nat.testBit_two_pow, Nat.zero_testBit]
    by_cases hj : i = j
    · subst hj
      simp [hbit, hdigit]
    · simp [hj]
  · intro hdigit h
    have hzero := congrArg (fun x => x.testBit i) h
    simp [Nat.testBit_and, hbit, hdigit] at hzero

/-! ## Buddies -/

/-- `b` is the upper buddy of `a`. -/
def Buddies (a b : Block) : Prop :=
  a.order = b.order ∧ 2 ^ (a.order + 1) ∣ a.head ∧ b.head = a.head + 2 ^ a.order

/-- Flipping bit `k` of a multiple of `2 ^ (k + 1)` sets it. -/
theorem xor_lower {x k : Nat} (hx : 2 ^ (k + 1) ∣ x) : x ^^^ 2 ^ k = x + 2 ^ k := by
  obtain ⟨q, rfl⟩ := hx
  have hlt : 2 ^ k < 2 ^ (k + 1) := Nat.pow_lt_pow_right (by decide) (by omega)
  apply Nat.eq_of_testBit_eq
  intro i
  rw [Nat.testBit_two_pow_mul_add q hlt, Nat.testBit_xor, Nat.testBit_two_pow_mul,
    Nat.testBit_two_pow]
  by_cases hi : i < k + 1
  · have hge : ¬ k + 1 ≤ i := by omega
    simp [hi, hge]
  · have hne : k ≠ i := by omega
    have hge : k + 1 ≤ i := by omega
    simp [hi, hne, hge]

/-- Flipping it again clears it. -/
theorem xor_upper {x k : Nat} (hx : 2 ^ (k + 1) ∣ x) : (x + 2 ^ k) ^^^ 2 ^ k = x := by
  rw [← xor_lower hx, Nat.xor_assoc, Nat.xor_self, Nat.xor_zero]

/-- A multiple of `2 ^ k` has bit `k` clear, or it is `2 ^ k` above a multiple
of `2 ^ (k + 1)`. -/
theorem aligned_cases {x k : Nat} (hx : 2 ^ k ∣ x) :
    2 ^ (k + 1) ∣ x ∨ ∃ y, 2 ^ (k + 1) ∣ y ∧ x = y + 2 ^ k := by
  obtain ⟨q, rfl⟩ := hx
  rcases Nat.even_or_odd' q with ⟨c, rfl | rfl⟩
  · exact Or.inl ⟨c, by ring⟩
  · exact Or.inr ⟨2 ^ (k + 1) * c, dvd_mul_right _ _, by ring⟩

/-! ## What an allocation picks -/

/-- A free block of order at least `r`. -/
def Fits (r : Nat) (b : Block) : Prop :=
  b.allocated = false ∧ r ≤ b.order

instance (r : Nat) (b : Block) : Decidable (Fits r b) :=
  inferInstanceAs (Decidable (_ ∧ _))

/-- The leftmost among the smallest blocks that fit, if any fits. -/
def BestFit (r : Nat) (bs : List Block) : Option Block → Prop
  | none => ∀ c ∈ bs, ¬ Fits r c
  | some b => ∃ left right, bs = left ++ b :: right ∧ Fits r b ∧
      (∀ c ∈ left, Fits r c → b.order < c.order) ∧
      (∀ c ∈ right, Fits r c → b.order ≤ c.order)

/-- A further block that does not beat the best so far changes nothing.  It may be too small, or
not smaller than the best: among equals the earlier one stays. -/
theorem BestFit.skip {r : Nat} {bs : List Block} {best : Option Block} {c : Block}
    (h : BestFit r bs best) (hc : Fits r c → ∃ b ∈ best, b.order ≤ c.order) :
    BestFit r (bs ++ [c]) best := by
  cases best with
  | none =>
      intro d hd
      rcases List.mem_append.mp hd with hd | hd
      · exact h d hd
      · rw [List.mem_singleton.mp hd]
        intro hfit
        obtain ⟨b, hb, _⟩ := hc hfit
        cases hb
  | some b =>
      obtain ⟨left, right, rfl, hfit, hleft, hright⟩ := h
      refine ⟨left, right ++ [c], by simp, hfit, hleft, ?_⟩
      intro d hd hfd
      rcases List.mem_append.mp hd with hd | hd
      · exact hright d hd hfd
      · obtain rfl := List.mem_singleton.mp hd
        obtain ⟨b', hb', hle⟩ := hc hfd
        cases hb'
        exact hle

/-- A further block that fits and is strictly smaller becomes the best; the
blocks after it must not be smaller still. -/
theorem BestFit.take {r : Nat} {bs rest : List Block} {best : Option Block} {c : Block}
    (h : BestFit r bs best) (hc : Fits r c) (hlt : ∀ b ∈ best, c.order < b.order)
    (hrest : ∀ d ∈ rest, Fits r d → c.order ≤ d.order) :
    BestFit r (bs ++ c :: rest) (some c) := by
  refine ⟨bs, rest, rfl, hc, ?_, hrest⟩
  intro d hd hfd
  cases best with
  | none => exact absurd hfd (h d hd)
  | some b =>
      have hcb := hlt b rfl
      obtain ⟨left, right, rfl, hfit, hleft, hright⟩ := h
      rcases List.mem_append.mp hd with hd | hd
      · exact hcb.trans (hleft d hd hfd)
      · rcases List.mem_cons.mp hd with rfl | hd
        · exact hcb
        · exact hcb.trans_le (hright d hd hfd)

/-! ## What a release merges -/

/-- `Coalesces left b right out`: starting from the free block `b` between
`left` and `right`, joining it with its free buddy as long as there is one
ends in `out`. -/
inductive Coalesces : List Block → Block → List Block → List Block → Prop
  | done {left right : List Block} {b : Block}
      (hup : ∀ c ∈ right, Buddies b c → c.allocated = true)
      (hdown : ∀ c ∈ left, Buddies c b → c.allocated = true) :
      Coalesces left b right (left ++ b :: right)
  | up {left right out : List Block} {b c : Block}
      (hc : c.allocated = false) (hbuddy : Buddies b c)
      (h : Coalesces left ⟨b.head, b.order + 1, false⟩ right out) :
      Coalesces left b (c :: right) out
  | down {left right out : List Block} {b c : Block}
      (hc : c.allocated = false) (hbuddy : Buddies c b)
      (h : Coalesces left ⟨c.head, b.order + 1, false⟩ right out) :
      Coalesces (left ++ [c]) b right out

/-- Merging touches no allocated block. -/
theorem Coalesces.allocated {left right out : List Block} {b : Block}
    (h : Coalesces left b right out) (hb : b.allocated = false) :
    out.filter (·.allocated) = (left ++ right).filter (·.allocated) := by
  induction h with
  | done => simp [hb]
  | up hc _ _ ih => simpa [hc] using ih rfl
  | down hc _ _ ih => simpa [hc] using ih rfl

end AlignedTiling

import PiFrame.AlignedTiling

/-!
# Tilings without free buddies

In a coalesced tiling no two free blocks are buddies of each other.  Such a
tiling has no freedom left: a range that starts at a multiple of its own size
and holds free blocks only is a single block, and therefore two coalesced
tilings of one range with the same allocated blocks are equal.

What an allocation cuts off and what a release merges keeps a tiling
coalesced, and so are the blocks that the binary digits of a page count ask
for.
-/

namespace AlignedTiling

/-- No two free blocks are buddies. -/
def Coalesced (bs : List Block) : Prop :=
  ∀ b ∈ bs, ∀ c ∈ bs, b.allocated = false → c.allocated = false → ¬ Buddies b c

theorem Coalesced.sublist {bs cs : List Block} (h : Coalesced cs) (hsub : bs.Sublist cs) :
    Coalesced bs :=
  fun b hb c hc => h b (hsub.subset hb) c (hsub.subset hc)

theorem Buddies.order_eq {b c : Block} (h : Buddies b c) : b.order = c.order := h.1

theorem Buddies.head_lt {b c : Block} (h : Buddies b c) : b.head < c.head := by
  have hpos := Nat.two_pow_pos b.order
  rw [h.2.2]
  omega

/-- A free buddy shows in the heads: they differ in the bit of the order. -/
theorem Coalesced.head_ne {s e : Nat} {bs : List Block} (h : Coalesced bs)
    (htiles : Tiles s e bs) {b c : Block} (hb : b ∈ bs) (hc : c ∈ bs)
    (hbf : b.allocated = false) (hcf : c.allocated = false) (horder : b.order = c.order) :
    c.head ≠ b.head ^^^ 2 ^ b.order := by
  intro hhead
  rcases aligned_cases (htiles.aligned hb) with hlow | ⟨y, hy, hby⟩
  · rw [xor_lower hlow] at hhead
    exact h b hb c hc hbf hcf ⟨horder, hlow, hhead⟩
  · rw [hby, xor_upper hy] at hhead
    apply h c hc b hb hcf hbf
    rw [Buddies, ← horder, hhead]
    exact ⟨rfl, hy, hby⟩

/-! ## Cutting a tiling at a cell -/

/-- A tiling is cut at every cell that no block reaches across. -/
theorem Tiles.cut {s e x : Nat} {bs : List Block} (h : Tiles s e bs) (hsx : s ≤ x) (hxe : x ≤ e)
    (hborder : ∀ b ∈ bs, b.head < x → b.stop ≤ x) :
    ∃ left right, bs = left ++ right ∧ Tiles s x left ∧ Tiles x e right := by
  induction bs generalizing s with
  | nil =>
      simp only [tiles_nil] at h
      exact ⟨[], [], rfl, by simp only [tiles_nil]; omega, by simp only [tiles_nil]; omega⟩
  | cons b bs ih =>
      obtain ⟨hhead, halign, htail⟩ := h
      by_cases hlt : s < x
      · have hstop : s + 2 ^ b.order ≤ x := by
          have hle := hborder b List.mem_cons_self (by omega)
          rwa [Block.stop, hhead] at hle
        obtain ⟨left, right, rfl, hleft, hright⟩ :=
          ih htail hstop fun c hc => hborder c (List.mem_cons_of_mem b hc)
        exact ⟨b :: left, right, rfl, ⟨hhead, halign, hleft⟩, hright⟩
      · obtain rfl : s = x := by omega
        exact ⟨[], b :: bs, rfl, rfl, hhead, halign, htail⟩

/-- A block of order at most `k` does not reach across a multiple of `2 ^ k`. -/
theorem Tiles.stop_le {s e x k : Nat} {bs : List Block} (h : Tiles s e bs) {b : Block}
    (hb : b ∈ bs) (hk : b.order ≤ k) (hx : 2 ^ k ∣ x) (hlt : b.head < x) : b.stop ≤ x := by
  by_contra hcross
  rw [Block.stop] at hcross
  have hdvd : 2 ^ b.order ∣ x := (Nat.pow_dvd_pow 2 hk).trans hx
  have heq := head_eq_of_contains (h.aligned hb) hdvd (by omega) (by omega)
  omega

/-- Nothing is longer than the range it tiles. -/
theorem Tiles.order_le {s k : Nat} {bs : List Block} (h : Tiles s (s + 2 ^ k) bs) {b : Block}
    (hb : b ∈ bs) : b.order ≤ k := by
  obtain ⟨hlo, hhi⟩ := h.mem_bounds hb
  rw [Block.stop] at hhi
  exact (Nat.pow_le_pow_iff_right (by decide)).mp (by omega : 2 ^ b.order ≤ 2 ^ k)

/-- The block at the start of an aligned range is all of it when it has its
order. -/
theorem Tiles.eq_singleton {s k : Nat} {bs : List Block} (h : Tiles s (s + 2 ^ k) bs) {b : Block}
    (hb : b ∈ bs) (hk : b.order = k) : bs = [b] := by
  obtain ⟨hlo, hhi⟩ := h.mem_bounds hb
  rw [Block.stop, hk] at hhi
  cases bs with
  | nil => cases hb
  | cons c bs =>
      have hcb : c = b := h.eq_of_head_eq List.mem_cons_self hb (by rw [h.1]; omega)
      subst hcb
      have htail := h.2.2
      rw [hk] at htail
      cases bs with
      | nil => rfl
      | cons d bs =>
          have hd := (htail.mem_bounds (List.mem_cons_self : d ∈ d :: bs)).2
          have hd' := (htail.mem_bounds (List.mem_cons_self : d ∈ d :: bs)).1
          have hlt := d.head_lt_stop
          omega

/-- **A free range is one block.**  A coalesced tiling of an aligned range
whose blocks are all free consists of a single block. -/
theorem Tiles.eq_block {s k : Nat} {bs : List Block} (h : Tiles s (s + 2 ^ k) bs)
    (hs : 2 ^ k ∣ s) (hfree : ∀ b ∈ bs, b.allocated = false) (hco : Coalesced bs) :
    bs = [⟨s, k, false⟩] := by
  -- halving the range until a block fills it
  induction k generalizing s bs with
  | zero =>
      cases bs with
      | nil => simp at h
      | cons b bs =>
          have hb : b ∈ b :: bs := List.mem_cons_self
          have horder : b.order = 0 := by
            have := h.order_le hb
            omega
          rw [h.eq_singleton hb horder]
          have hhead := h.1
          have hbf := hfree b hb
          cases b
          simp_all
  | succ k ih =>
      have hdouble : 2 ^ (k + 1) = 2 ^ k + 2 ^ k := by ring
      have hhalf : 2 ^ k ∣ s := (Nat.pow_dvd_pow 2 (by omega)).trans hs
      by_cases hbig : ∃ b ∈ bs, b.order = k + 1
      · obtain ⟨b, hb, horder⟩ := hbig
        have hsingle := h.eq_singleton hb horder
        have hhead : b.head = s := (hsingle ▸ h).1
        rw [hsingle, ← hhead, ← horder, ← hfree b hb]
      · have hsmall : ∀ b ∈ bs, b.order ≤ k := fun b hb => by
          have hle := h.order_le hb
          have hne : b.order ≠ k + 1 := fun heq => hbig ⟨b, hb, heq⟩
          omega
        obtain ⟨left, right, rfl, hleft, hright⟩ :=
          h.cut (x := s + 2 ^ k) (by omega) (by omega) fun b hb hlt =>
            h.stop_le hb (hsmall b hb) (Nat.dvd_add hhalf dvd_rfl) hlt
        rw [hdouble, ← Nat.add_assoc] at hright
        have hl := ih hleft hhalf (fun b hb => hfree b (List.mem_append_left _ hb))
          (hco.sublist (List.sublist_append_left ..))
        have hr := ih hright (Nat.dvd_add hhalf dvd_rfl)
          (fun b hb => hfree b (List.mem_append_right _ hb))
          (hco.sublist (List.sublist_append_right ..))
        rw [hl, hr] at hco
        exact absurd (show Buddies ⟨s, k, false⟩ ⟨s + 2 ^ k, k, false⟩ from ⟨rfl, hs, rfl⟩)
          (hco _ (by simp) _ (by simp) rfl rfl)

/-! ## The tiling is determined by the allocated blocks -/

/-- The first blocks of two coalesced tilings: a smaller one in front of a
free block would start a free range that is not one block. -/
theorem Tiles.first_order_le {s e : Nat} {b c : Block} {bs cs : List Block}
    (hb : Tiles s e (b :: bs)) (hc : Tiles s e (c :: cs)) (hco : Coalesced (b :: bs))
    (hsame : ∀ d : Block, d.allocated = true → d ∈ b :: bs → d ∈ c :: cs)
    (hcf : c.allocated = false) : c.order ≤ b.order := by
  by_contra hlt
  have hbhead := hb.1
  have hchead := hc.1
  have hcalign := hc.2.1
  have hblock : ∀ d ∈ b :: bs, d.head < s + 2 ^ c.order → d.stop ≤ s + 2 ^ c.order := by
    intro d hd hdlt
    by_cases hdk : d.order ≤ c.order
    · exact hb.stop_le hd hdk (Nat.dvd_add hcalign dvd_rfl) hdlt
    · -- a larger block inside the range starts where `b` does
      have hlo := (hb.mem_bounds hd).1
      have hdvd : 2 ^ c.order ∣ d.head :=
        (Nat.pow_dvd_pow 2 (by omega)).trans (hb.aligned hd)
      have heq := head_eq_of_contains hcalign hdvd hlo hdlt
      have hdb := hb.eq_of_head_eq hd List.mem_cons_self (heq.trans hbhead.symm)
      subst hdb
      omega
  obtain ⟨left, right, hsplit, hleft, -⟩ :=
    hb.cut (Nat.le_add_right s (2 ^ c.order)) hc.2.2.le hblock
  have hpos := Nat.two_pow_pos c.order
  have hfree : ∀ d ∈ left, d.allocated = false := by
    intro d hd
    by_contra hne
    have hset : d.allocated = true := Bool.of_not_eq_false hne
    have hdin := hsame d hset (hsplit ▸ List.mem_append_left _ hd)
    have hbound := hleft.mem_bounds hd
    have hdlt := d.head_lt_stop
    rcases hc.eq_or_disjoint hdin (List.mem_cons_self : c ∈ c :: cs) with heq | hdis | hdis
    · rw [heq, hcf] at hset
      cases hset
    · rw [hchead] at hdis
      omega
    · rw [Block.stop, hchead] at hdis
      omega
  have hone := hleft.eq_block hcalign hfree
    (hco.sublist (hsplit ▸ List.sublist_append_left ..))
  rw [hone] at hsplit
  have hbeq : b = ⟨s, c.order, false⟩ := (List.cons.inj hsplit).1
  rw [hbeq] at hlt
  exact hlt (Nat.le_refl _)

/-- **Uniqueness.**  Two coalesced tilings of one range with the same
allocated blocks are the same tiling. -/
theorem Tiles.unique {s e : Nat} {bs cs : List Block} (hb : Tiles s e bs) (hc : Tiles s e cs)
    (hbco : Coalesced bs) (hcco : Coalesced cs)
    (hsame : ∀ d : Block, d.allocated = true → (d ∈ bs ↔ d ∈ cs)) : bs = cs := by
  induction bs generalizing s cs with
  | nil =>
      cases cs with
      | nil => rfl
      | cons c cs =>
          have hpos := Nat.two_pow_pos c.order
          have hle := hc.2.2.le
          simp only [tiles_nil] at hb
          omega
  | cons b bs ih =>
      cases cs with
      | nil =>
          have hpos := Nat.two_pow_pos b.order
          have hle := hb.2.2.le
          simp only [tiles_nil] at hc
          omega
      | cons c cs =>
          have hbc : b = c := by
            have hhead : b.head = c.head := hb.1.trans hc.1.symm
            cases hba : b.allocated with
            | true =>
                exact hc.eq_of_head_eq ((hsame b hba).mp List.mem_cons_self) List.mem_cons_self
                  hhead
            | false =>
                cases hca : c.allocated with
                | true =>
                    exact hb.eq_of_head_eq List.mem_cons_self
                      ((hsame c hca).mpr List.mem_cons_self) hhead
                | false =>
                    have h1 := hb.first_order_le hc hbco (fun d hd => (hsame d hd).mp) hca
                    have h2 := hc.first_order_le hb hcco (fun d hd => (hsame d hd).mpr) hba
                    cases b
                    cases c
                    simp_all
                    omega
          subst hbc
          obtain ⟨hhead, halign, htail⟩ := hb
          have hpos := Nat.two_pow_pos b.order
          have hlater : ∀ {ds : List Block}, Tiles (s + 2 ^ b.order) e ds → b ∉ ds := by
            intro ds hds hmem
            have := (hds.mem_bounds hmem).1
            omega
          have hrest : bs = cs := by
            apply ih htail hc.2.2 (hbco.sublist (List.sublist_cons_self ..))
              (hcco.sublist (List.sublist_cons_self ..))
            intro d hd
            have hd' := hsame d hd
            simp only [List.mem_cons] at hd'
            by_cases heq : d = b
            · subst heq
              exact iff_of_false (hlater htail) (hlater hc.2.2)
            · simpa [heq] using hd'
          rw [hrest]

/-! ## The blocks of the binary digits -/

/-- The digit blocks come in falling orders, so none is another's buddy. -/
theorem digitBlocks_order_lt {n i index : Nat} {b : Block} (hb : b ∈ digitBlocks n i index) :
    b.order < i := by
  induction i generalizing index with
  | zero => cases hb
  | succ i ih =>
      unfold digitBlocks at hb
      split at hb
      · rcases List.mem_cons.mp hb with rfl | hb
        · exact Nat.lt_succ_self i
        · exact (ih hb).trans (Nat.lt_succ_self i)
      · exact (ih hb).trans (Nat.lt_succ_self i)

/-- The blocks of a number's binary digits are of different orders, so no two are buddies. -/
theorem digitBlocks_coalesced {n i index : Nat} : Coalesced (digitBlocks n i index) := by
  induction i generalizing index with
  | zero => exact fun b hb => by cases hb
  | succ i ih =>
      unfold digitBlocks
      split
      · intro b hb c hc hbf hcf hbud
        have hlt := hbud.head_lt
        rcases List.mem_cons.mp hb with rfl | hb <;> rcases List.mem_cons.mp hc with rfl | hc
        · exact absurd hlt (Nat.lt_irrefl _)
        · exact absurd hbud.order_eq (digitBlocks_order_lt hc).ne'
        · exact absurd hbud.order_eq (digitBlocks_order_lt hb).ne
        · exact ih b hb c hc hbf hcf hbud
      · exact ih

/-- There is a digit block of order `r` or more exactly when the digits make up
`2 ^ r` or more. -/
theorem digitBlocks_fits_iff {n i index r : Nat} :
    (∃ c ∈ digitBlocks n i index, Fits r c) ↔ 2 ^ r ≤ n % 2 ^ i := by
  induction i generalizing index with
  | zero =>
      have hpos := Nat.two_pow_pos r
      simp only [digitBlocks, List.not_mem_nil, false_and, exists_false, pow_zero, Nat.mod_one,
        false_iff]
      omega
  | succ i ih =>
      have hmod : n % 2 ^ (i + 1) = n % 2 ^ i + n / 2 ^ i % 2 * 2 ^ i := by
        rw [Nat.pow_succ, Nat.mod_mul, Nat.mul_comm (2 ^ i)]
      have hlow : n % 2 ^ i < 2 ^ i := Nat.mod_lt _ (Nat.two_pow_pos i)
      unfold digitBlocks
      by_cases hbit : n / 2 ^ i % 2 = 1
      · rw [if_pos hbit, hmod, hbit, Nat.one_mul]
        by_cases hr : r ≤ i
        · have hle : 2 ^ r ≤ 2 ^ i := Nat.pow_le_pow_right (by decide) hr
          exact iff_of_true ⟨_, List.mem_cons_self, rfl, hr⟩ (by omega)
        · have hlt : 2 ^ (i + 1) ≤ 2 ^ r := Nat.pow_le_pow_right (by decide) (by omega)
          rw [Nat.pow_succ] at hlt
          apply iff_of_false _ (by omega)
          intro h
          obtain ⟨c, hc, hfit⟩ := h
          rcases List.mem_cons.mp hc with rfl | hc
          · exact hr hfit.2
          · exact hr (hfit.2.trans (digitBlocks_order_lt hc).le)
      · have hzero : n / 2 ^ i % 2 = 0 := by omega
        rw [if_neg hbit, hmod, hzero, Nat.zero_mul, Nat.add_zero]
        exact ih

/-! ## Releases -/

/-- The blocks on one side of another block of a tiling. -/
theorem Tiles.middle {s e : Nat} {left right : List Block} {b : Block}
    (h : Tiles s e (left ++ b :: right)) :
    (∀ c ∈ left, c.head < b.head) ∧ ∀ c ∈ right, b.head < c.head := by
  obtain ⟨hleft, hright, hcross⟩ := List.pairwise_append.mp h.pairwise
  constructor
  · intro c hc
    have hle := hcross c hc b List.mem_cons_self
    have hlt := c.head_lt_stop
    omega
  · intro c hc
    have hle := (List.pairwise_cons.mp hright).1 c hc
    have hlt := b.head_lt_stop
    omega

/-- A block stands at one place of a tiling only. -/
theorem Tiles.append_inj {s e : Nat} {left left' right right' : List Block} {b : Block}
    (h : Tiles s e (left ++ b :: right)) (heq : left ++ b :: right = left' ++ b :: right') :
    left = left' ∧ right = right' := by
  have hother := (heq ▸ h).middle
  induction left generalizing s left' with
  | nil =>
      cases left' with
      | nil => exact ⟨rfl, (List.cons.inj heq).2⟩
      | cons c left' =>
          obtain rfl := (List.cons.inj heq).1
          exact absurd (hother.1 b List.mem_cons_self) (Nat.lt_irrefl _)
  | cons a left ih =>
      cases left' with
      | nil =>
          obtain rfl := (List.cons.inj heq).1
          exact absurd (h.middle.1 a List.mem_cons_self) (Nat.lt_irrefl _)
      | cons c left' =>
          obtain ⟨rfl, htail⟩ := List.cons.inj heq
          have hboth := ih h.2.2 htail
            ⟨fun d hd => hother.1 d (List.mem_cons_of_mem a hd), hother.2⟩
          exact ⟨congrArg (a :: ·) hboth.1, hboth.2⟩

/-- Two buddies side by side tile what their union does. -/
theorem Tiles.join {s e : Nat} {left right : List Block} {b c : Block}
    (h : Tiles s e (left ++ b :: c :: right)) (hbud : Buddies b c) :
    Tiles s e (left ++ ⟨b.head, b.order + 1, false⟩ :: right) := by
  obtain ⟨x, hleft, rfl, -, hchead, -, htail⟩ := tiles_append.mp h
  obtain ⟨horder, halign, -⟩ := hbud
  have hdouble : 2 ^ (b.order + 1) = 2 ^ b.order + 2 ^ b.order := by ring
  refine tiles_append.mpr ⟨b.head, hleft, rfl, halign, ?_⟩
  rw [← horder] at htail
  simpa only [hdouble, ← Nat.add_assoc] using htail

theorem Coalesces.tiles {s e : Nat} {left right out : List Block} {b : Block}
    (h : Coalesces left b right out) (htiles : Tiles s e (left ++ b :: right)) :
    Tiles s e out := by
  induction h with
  | done => exact htiles
  | up _ hbud _ ih => exact ih (htiles.join hbud)
  | @down left right out b c hc hbud _ ih =>
      have hjoin : Tiles s e (left ++ ⟨c.head, c.order + 1, false⟩ :: right) :=
        Tiles.join (by simpa using htiles) hbud
      rw [hbud.order_eq] at hjoin
      exact ih hjoin

/-- Merging a free block until it has no free buddy leaves a coalesced tiling
when the other blocks were coalesced among themselves. -/
theorem Coalesces.coalesced {s e : Nat} {left right out : List Block} {b : Block}
    (h : Coalesces left b right out) (htiles : Tiles s e (left ++ b :: right))
    (hco : Coalesced (left ++ right)) : Coalesced out := by
  induction h with
  | @done left right b hup hdown =>
      obtain ⟨hbelow, habove⟩ := htiles.middle
      have hother : ∀ d ∈ left ++ b :: right, d = b ∨ d ∈ left ++ right := by
        intro d hd
        simp only [List.mem_append, List.mem_cons] at hd ⊢
        tauto
      intro x hx y hy hxf hyf hbud
      have hlt := hbud.head_lt
      rcases hother x hx with rfl | hx' <;> rcases hother y hy with rfl | hy'
      · exact absurd hlt (Nat.lt_irrefl _)
      · rcases List.mem_append.mp hy' with hy' | hy'
        · exact absurd hlt (hbelow y hy').asymm
        · have hset := hup y hy' hbud
          rw [hyf] at hset
          cases hset
      · rcases List.mem_append.mp hx' with hx' | hx'
        · have hset := hdown x hx' hbud
          rw [hxf] at hset
          cases hset
        · exact absurd hlt (habove x hx').asymm
      · exact hco x hx' y hy' hxf hyf hbud
  | @up left right out b c hc hbud _ ih =>
      apply ih (htiles.join hbud)
      apply hco.sublist
      exact List.Sublist.append_left (List.sublist_cons_self c right) left
  | @down left right out b c hc hbud _ ih =>
      have hjoin : Tiles s e (left ++ ⟨c.head, c.order + 1, false⟩ :: right) :=
        Tiles.join (by simpa using htiles) hbud
      rw [hbud.order_eq] at hjoin
      apply ih hjoin
      apply hco.sublist
      exact List.Sublist.append_right (List.sublist_append_left left [c]) right

/-! ## The end of the range -/

/-- The end of a range is above one aligned head by one power of two only. -/
theorem order_unique {x y j k : Nat} (hy : 2 ^ (j + 1) ∣ y) (hx : 2 ^ (k + 1) ∣ x)
    (heq : y + 2 ^ j = x + 2 ^ k) : j = k := by
  -- the smaller power would divide everything in sight but itself
  have hless : ∀ {x y j k : Nat}, 2 ^ (j + 1) ∣ y → 2 ^ (k + 1) ∣ x →
      y + 2 ^ j = x + 2 ^ k → ¬ j < k := by
    intro x y j k hy hx heq hlt
    have hk : 2 ^ (j + 1) ∣ x + 2 ^ k :=
      Nat.dvd_add ((Nat.pow_dvd_pow 2 (by omega)).trans hx) (Nat.pow_dvd_pow 2 hlt)
    rw [← heq] at hk
    have hle := Nat.le_of_dvd (Nat.two_pow_pos j) ((Nat.dvd_add_right hy).mp hk)
    have hgt : 2 ^ j < 2 ^ (j + 1) := Nat.pow_lt_pow_right (by decide) (by omega)
    omega
  have h1 := hless hy hx heq
  have h2 := hless hx hy heq.symm
  omega

/-- When everything from `x` on is free, and the range ends one power of two
above, the last block of a coalesced tiling starts at `x`. -/
theorem Tiles.last_block {s x k : Nat} {bs : List Block} (h : Tiles s (x + 2 ^ k) bs)
    (hco : Coalesced bs) (hsx : s ≤ x) (hx : 2 ^ (k + 1) ∣ x)
    (hfree : ∀ b ∈ bs, x ≤ b.head → b.allocated = false) : ⟨x, k, false⟩ ∈ bs := by
  obtain ⟨left, right, rfl, hleft, hright⟩ := h.cut hsx (Nat.le_add_right x _) (by
    intro b hb hlt
    by_contra hcross
    have hbound := (h.mem_bounds hb).2
    have hstop : 2 ^ b.order ∣ b.stop := Nat.dvd_add (h.aligned hb) dvd_rfl
    by_cases hk : b.order ≤ k
    · exact hcross (h.stop_le hb hk ((Nat.pow_dvd_pow 2 (by omega)).trans hx) hlt)
    · have hlong := no_border_inside (k := k) (by omega) hx hstop (by omega)
      omega)
  have hone := hright.eq_block ((Nat.pow_dvd_pow 2 (by omega)).trans hx)
    (fun b hb => hfree b (List.mem_append_right _ hb) (hright.mem_bounds hb).1)
    (hco.sublist (List.sublist_append_right ..))
  rw [hone]
  exact List.mem_append_right _ List.mem_cons_self

end AlignedTiling

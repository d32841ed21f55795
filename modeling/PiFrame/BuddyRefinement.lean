import PiFrame.BuddyAllocator

/-!
# The bitmap shows a tiling

`Shows m s e bs` says that the bitmap entries from `s` to `e` describe the
blocks `bs`: the entry at a head holds the block's order and allocated bit,
and every entry inside a block has its allocated bit clear.  Nothing is said
about the order stored inside a block, since splits and merges leave stale
orders there.

The predicate is local, so each loop of the allocator is treated on the part
of the bitmap it works on and the rest is carried along by `Shows.congr`.
The results used elsewhere are `baCreate_shows`, `baAlloc_spec` and
`baFree_spec`.
-/

namespace BuddyAllocator

open AlignedTiling

/-- The entries from `s` to `e` describe the blocks `bs`. -/
def Shows (m : Memory) : Nat → Nat → List Block → Prop
  | s, e, [] => s = e
  | s, e, b :: bs =>
      b.head = s ∧ 2 ^ b.order ∣ s ∧ m s = ⟨b.allocated, b.order⟩ ∧
      (∀ i, s < i → i < s + 2 ^ b.order → (m i).allocated = false) ∧
      Shows m (s + 2 ^ b.order) e bs

variable {m m' : Memory} {s e : Nat} {bs : List Block}

@[simp] theorem shows_nil : Shows m s e [] ↔ s = e := Iff.rfl

/-- The first block starts where the bitmap starts, is aligned, and has nothing but its first
entry. -/
@[simp] theorem shows_cons {b : Block} :
    Shows m s e (b :: bs) ↔
      b.head = s ∧ 2 ^ b.order ∣ s ∧ m s = ⟨b.allocated, b.order⟩ ∧
      (∀ i, s < i → i < s + 2 ^ b.order → (m i).allocated = false) ∧
      Shows m (s + 2 ^ b.order) e bs := Iff.rfl

/-- Two lists of blocks are shown one behind the other, with a common border. -/
theorem shows_append {left right : List Block} :
    Shows m s e (left ++ right) ↔ ∃ c, Shows m s c left ∧ Shows m c e right := by
  induction left generalizing s with
  | nil => simp
  | cons b left ih => simp [ih, and_assoc]

/-- The blocks shown tile the range. -/
theorem Shows.tiles (h : Shows m s e bs) : Tiles s e bs := by
  induction bs generalizing s with
  | nil => exact h
  | cons b bs ih => exact ⟨h.1, h.2.1, ih h.2.2.2.2⟩

/-- Only the entries of the range matter: a bitmap with the same entries there shows the same
blocks. -/
theorem Shows.congr (h : Shows m s e bs) (heq : ∀ i, s ≤ i → i < e → m' i = m i) :
    Shows m' s e bs := by
  induction bs generalizing s with
  | nil => exact h
  | cons b bs ih =>
      have hstop := h.tiles.2.2.le
      obtain ⟨hhead, halign, hentry, hinside, htail⟩ := h
      have hpos := Nat.two_pow_pos b.order
      refine ⟨hhead, halign, ?_, ?_, ih htail fun i hi => heq i (by omega)⟩
      · rw [heq s (Nat.le_refl s) (by omega), hentry]
      · intro i hlo hhi
        rw [heq i (by omega) (by omega)]
        exact hinside i hlo hhi

/-- The entry at a head says what the block is. -/
theorem Shows.entry (h : Shows m s e bs) {b : Block} (hb : b ∈ bs) :
    m b.head = ⟨b.allocated, b.order⟩ := by
  induction bs generalizing s with
  | nil => cases hb
  | cons c bs ih =>
      obtain ⟨hhead, _, hentry, _, htail⟩ := h
      rcases List.mem_cons.mp hb with rfl | hb
      · rw [hhead, hentry]
      · exact ih htail hb

/-- An index whose allocated bit is set is the head of an allocated block. -/
theorem Shows.of_allocated (h : Shows m s e bs) {i : Nat} (hlo : s ≤ i) (hhi : i < e)
    (hset : (m i).allocated = true) : ∃ b ∈ bs, b.head = i ∧ b.allocated = true := by
  induction bs generalizing s with
  | nil =>
      simp only [shows_nil] at h
      omega
  | cons c bs ih =>
      obtain ⟨hhead, _, hentry, hinside, htail⟩ := h
      rcases Nat.lt_or_ge i (s + 2 ^ c.order) with hlt | hge
      · rcases Nat.eq_or_lt_of_le hlo with rfl | hgt
        · exact ⟨c, List.mem_cons_self, hhead, by simpa [hentry] using hset⟩
        · simp [hinside i hgt hlt] at hset
      · obtain ⟨b, hb, hrest⟩ := ih htail hge
        exact ⟨b, List.mem_cons_of_mem _ hb, hrest⟩

/-- From the first entry of a block, `ba_next_index` goes to the next block. -/
theorem baNextIndex_eq {b : Block} {i : Nat} (h : m i = ⟨b.allocated, b.order⟩) :
    baNextIndex m i = i + 2 ^ b.order := by
  rw [baNextIndex, h, Nat.one_shiftLeft]

/-- The walk by `BA_NEXT_INDEX` meets exactly the blocks shown. -/
theorem Shows.walk (h : Shows m s e bs) {fuel : Nat} (hfuel : e - s ≤ fuel) :
    baWalk m e fuel s = bs := by
  induction bs generalizing s fuel with
  | nil =>
      obtain rfl : s = e := h
      cases fuel with
      | zero => rfl
      | succ fuel => simp [baWalk]
  | cons b bs ih =>
      have hle := h.tiles.2.2.le
      obtain ⟨hhead, _, hentry, _, htail⟩ := h
      have hpos := Nat.two_pow_pos b.order
      have hlt : s < e := by omega
      cases fuel with
      | zero => omega
      | succ fuel =>
          have hnext := baNextIndex_eq hentry
          simp only [baWalk, hlt, if_true, hnext, hentry]
          rw [ih htail (by omega), ← hhead]

/-! ## Orders -/

/-- The first index below `n` that passes a test which stays passed. -/
theorem find_range_le_iff {n i : Nat} {p : Nat → Bool} (hi : i < n)
    (hmono : ∀ j k, j ≤ k → p j = true → p k = true) :
    ((List.range n).find? p).getD n ≤ i ↔ p i = true := by
  cases hfind : (List.range n).find? p with
  | none =>
      have hnone := List.find?_eq_none.mp hfind i (List.mem_range.mpr hi)
      simp only [Option.getD_none]
      exact ⟨fun h => by omega, fun h => absurd h hnone⟩
  | some j =>
      obtain ⟨hj, _, hbefore⟩ := List.find?_range_eq_some.mp hfind
      simp only [Option.getD_some]
      refine ⟨fun h => hmono j i h hj, fun h => ?_⟩
      by_contra hlt
      have := hbefore i (by omega)
      simp [h] at this

/-- `ba_order` finds the least power of two that covers the pages. -/
theorem baOrder_le_iff {len pageSize i : Nat} (hpage : 0 < pageSize) (hlen : 0 < len)
    (hfit : len + pageSize - 1 < 2 ^ 32) (hi : i < 32) :
    baOrder len pageSize ≤ i ↔ (len + pageSize - 1) / pageSize ≤ 2 ^ i := by
  have hpos : 1 ≤ (len + pageSize - 1) / pageSize :=
    (Nat.le_div_iff_mul_le hpage).mpr (by omega)
  have hle : (len + pageSize - 1) / pageSize ≤ len + pageSize - 1 := Nat.div_le_self _ _
  have hless : ((len + pageSize - 1) / pageSize + (2 ^ 32 - 1)) % 2 ^ 32 =
      (len + pageSize - 1) / pageSize - 1 := by omega
  delta baOrder
  simp only [Nat.mod_eq_of_lt hfit, hless]
  have hshift : ∀ j, ((((len + pageSize - 1) / pageSize - 1) >>> j == 0) = true) ↔
      (len + pageSize - 1) / pageSize ≤ 2 ^ j := by
    intro j
    rw [beq_iff_eq, Nat.shiftRight_eq_div_pow, Nat.div_eq_zero_iff_lt (Nat.two_pow_pos j)]
    omega
  refine (find_range_le_iff hi ?_).trans (hshift i)
  intro j k hjk hj
  exact (hshift k).mpr (((hshift j).mp hj).trans (Nat.pow_le_pow_right (by decide) hjk))

/-! ## Splitting -/

@[simp] theorem setOrder_same (m : Memory) (i k : Nat) :
    m.setOrder i k i = (m i).setOrder k := by
  simp [Memory.setOrder]

@[simp] theorem setOrder_other (m : Memory) {i j : Nat} (k : Nat) (h : j ≠ i) :
    m.setOrder i k j = m j := by
  simp [Memory.setOrder, h]

/-- Writing an order allocates nothing and frees nothing. -/
@[simp] theorem setOrder_allocated (m : Memory) (i k j : Nat) :
    (m.setOrder i k j).allocated = (m j).allocated := by
  by_cases h : j = i
  · subst h; simp [Bitmap.setOrder]
  · simp [h]

/-- The entry that is written gets the mark and keeps its order. -/
@[simp] theorem setAllocated_same (m : Memory) (i : Nat) (a : Bool) :
    m.setAllocated i a i = { m i with allocated := a } := by
  simp [Memory.setAllocated]

/-- Marking an entry leaves the others as they were. -/
@[simp] theorem setAllocated_other (m : Memory) {i j : Nat} (a : Bool) (h : j ≠ i) :
    m.setAllocated i a j = m j := by
  simp [Memory.setAllocated, h]

/-- The buddy of a lower half is the half above it. -/
theorem baBuddyIndex_lower {m : Memory} {i k : Nat} (h : (m i).order = k)
    (halign : 2 ^ (k + 1) ∣ i) : baBuddyIndex m i = i + 2 ^ k := by
  rw [baBuddyIndex, h, Nat.one_shiftLeft, xor_lower halign]

/-- The buddy of an upper half is the half below it. -/
theorem baBuddyIndex_upper {m : Memory} {i k : Nat} (h : (m (i + 2 ^ k)).order = k)
    (halign : 2 ^ (k + 1) ∣ i) : baBuddyIndex m (i + 2 ^ k) = i := by
  rw [baBuddyIndex, h, Nat.one_shiftLeft, xor_upper halign]

/-- The memory after one pass of the split loop. -/
def halve (m : Memory) (best : Nat) : Memory :=
  let m := m.setOrder best ((m best).order - 1)
  m.setOrder (baBuddyIndex m best) (m best).order

/-- One pass of the split loop cuts a free block in two.  The lower half keeps the head and
loses an order; the upper half gets an entry of its own, which no block had used. -/
theorem halve_shows {h k : Nat} (hk : k + 1 < 2 ^ 7)
    (hshow : Shows m h e (⟨h, k + 1, false⟩ :: bs)) :
    Shows (halve m h) h e (⟨h, k, false⟩ :: ⟨h + 2 ^ k, k, false⟩ :: bs) ∧
      ∀ i, i < h ∨ h + 2 ^ (k + 1) ≤ i → halve m h i = m i := by
  obtain ⟨-, halign, hentry, hinside, htail⟩ := hshow
  have hpos := Nat.two_pow_pos k
  have hdouble : 2 ^ (k + 1) = 2 ^ k + 2 ^ k := by ring
  have hmod : k % 128 = k := by omega
  simp only at halign hentry hinside htail
  have horder : (m.setOrder h ((m h).order - 1) h).order = k := by
    simp [hentry, Bitmap.setOrder, hmod]
  have hbuddy := baBuddyIndex_lower horder halign
  have hhalve : halve m h =
      (m.setOrder h ((m h).order - 1)).setOrder (h + 2 ^ k) k := by
    simp only [halve, hbuddy, horder]
  have hframe : ∀ i, i < h ∨ h + 2 ^ (k + 1) ≤ i → halve m h i = m i := by
    intro i hi
    rw [hhalve, setOrder_other _ _ (by omega), setOrder_other _ _ (by omega)]
  have hhalign : 2 ^ k ∣ h := (Nat.pow_dvd_pow 2 (Nat.le_succ k)).trans halign
  have halloc : ∀ i, (halve m h i).allocated = (m i).allocated := by
    intro i; rw [hhalve]; simp
  refine ⟨⟨rfl, hhalign, ?_, ?_, rfl, Nat.dvd_add hhalign dvd_rfl, ?_, ?_, ?_⟩, hframe⟩
  · rw [hhalve, setOrder_other _ _ (by omega)]
    simp [hentry, Bitmap.setOrder, hmod]
  · intro i hlo hhi
    rw [halloc]
    simp only at hhi
    exact hinside i hlo (by omega)
  · have hclear := hinside (h + 2 ^ k) (by omega) (by omega)
    rw [hhalve, setOrder_same, setOrder_other _ _ (by omega)]
    simp [Bitmap.setOrder, hclear, hmod]
  · intro i hlo hhi
    rw [halloc]
    simp only at hlo hhi
    exact hinside i (by omega) (by omega)
  · have hend : h + 2 ^ k + 2 ^ k = h + 2 ^ (k + 1) := by omega
    simp only [hend]
    exact htail.congr fun i hi _ => hframe i (Or.inr hi)

/-- The split loop cuts a block of order `r + n` down to order `r`, and the remainders lie
behind it in rising order.  The induction is on `n`, the number of the passes. -/
theorem baSplit_spec {h r order n fuel : Nat} (hr : order % 2 ^ 8 = r)
    (hk : r + n < 2 ^ 7) (hfuel : n < fuel)
    (hshow : Shows m h e (⟨h, r + n, false⟩ :: bs)) :
    ∃ m', baSplit order h fuel m = some m' ∧
      Shows m' h e (⟨h, r, false⟩ :: remainders h r n ++ bs) ∧
      ∀ i, i < h ∨ h + 2 ^ (r + n) ≤ i → m' i = m i := by
  induction n generalizing m bs fuel with
  | zero =>
      obtain ⟨fuel, rfl⟩ : ∃ f, fuel = f + 1 := ⟨fuel - 1, by omega⟩
      have hdone : ¬ order % 2 ^ 8 < (m h).order := by simp [hshow.2.2.1, ← hr]
      exact ⟨m, by rw [baSplit, if_neg hdone], by simpa [remainders] using hshow,
        fun _ _ => rfl⟩
  | succ n ih =>
      obtain ⟨fuel, rfl⟩ : ∃ f, fuel = f + 1 := ⟨fuel - 1, by omega⟩
      have hmore : order % 2 ^ 8 < (m h).order := by
        rw [hshow.2.2.1, hr]
        simp only
        omega
      obtain ⟨hhalf, hframe⟩ := halve_shows (k := r + n) (by omega) hshow
      obtain ⟨m', hrun, hshow', hframe'⟩ := ih (by omega) (by omega : n < fuel) hhalf
      refine ⟨m', ?_, ?_, ?_⟩
      · rw [baSplit, if_pos hmore]
        exact hrun
      · simpa [remainders] using hshow'
      · intro i hi
        have hle : 2 ^ (r + n) ≤ 2 ^ (r + (n + 1)) := Nat.pow_le_pow_right (by decide) (by omega)
        rw [hframe' i (by omega), hframe i hi]

/-! ## Searching -/

/-- The search loop returns the head of the best fit.  `seen` are the blocks
already passed, none of them of the requested order. -/
theorem baSearch_spec {order stop curr fuel : Nat} {seen rest : List Block}
    {best : Option Block}
    (hshow : Shows m curr stop rest) (hfuel : stop - curr < fuel)
    (hbest : BestFit (order % 2 ^ 8) seen best)
    (hentry : ∀ b ∈ best, order % 2 ^ 8 < b.order ∧ m b.head = ⟨b.allocated, b.order⟩) :
    ∃ res, baSearch m stop order fuel curr (best.map (·.head)) = some (res.map (·.head)) ∧
      BestFit (order % 2 ^ 8) (seen ++ rest) res := by
  induction rest generalizing curr fuel seen best with
  | nil =>
      obtain rfl : curr = stop := hshow
      obtain ⟨fuel, rfl⟩ : ∃ f, fuel = f + 1 := ⟨fuel - 1, by omega⟩
      exact ⟨best, by simp [baSearch], by simpa using hbest⟩
  | cons c rest ih =>
      have hle := hshow.tiles.2.2.le
      obtain ⟨hhead, _, hc, _, htail⟩ := hshow
      obtain ⟨fuel, rfl⟩ : ∃ f, fuel = f + 1 := ⟨fuel - 1, by omega⟩
      have hpos := Nat.two_pow_pos c.order
      have hlt : curr < stop := by omega
      have hnext := baNextIndex_eq hc
      have happ : seen ++ c :: rest = seen ++ [c] ++ rest := by simp
      have hfuel' : stop - (curr + 2 ^ c.order) < fuel := by omega
      have hskip : (Fits (order % 2 ^ 8) c → ∃ b ∈ best, b.order ≤ c.order) →
          ∃ res, baSearch m stop order fuel (curr + 2 ^ c.order) (best.map (·.head)) =
            some (res.map (·.head)) ∧ BestFit (order % 2 ^ 8) (seen ++ c :: rest) res := by
        intro h
        rw [happ]
        exact ih htail hfuel' (hbest.skip h) hentry
      by_cases hfree : c.allocated = true
      · -- an allocated block is passed over
        simp only [baSearch, hlt, if_true, baIsFree, hc, hfree, hnext]
        exact hskip fun hfit => by simp [hfit.1] at hfree
      · have hfree' : c.allocated = false := by simpa using hfree
        by_cases hexact : c.order = order % 2 ^ 8
        · refine ⟨some c, ?_, hbest.take ⟨hfree', hexact.ge⟩ ?_ ?_⟩
          · simp [baSearch, hlt, baIsFree, hc, hfree', hexact, hhead]
          · intro b hb
            rw [hexact]
            exact (hentry b hb).1
          · intro d _ hfit
            rw [hexact]
            exact hfit.2
        · by_cases hbetter : order % 2 ^ 8 < c.order ∧ ∀ b ∈ best, c.order < b.order
          · have htake : BestFit (order % 2 ^ 8) (seen ++ [c]) (some c) :=
              hbest.take ⟨hfree', hbetter.1.le⟩ hbetter.2 (by simp)
            obtain ⟨res, hrun, hres⟩ := ih htail hfuel' htake
              (by rintro b ⟨rfl⟩; exact ⟨hbetter.1, by rw [hhead, hc]⟩)
            refine ⟨res, ?_, by simpa using hres⟩
            rw [← hrun]
            have hcond : ∀ b ∈ best.map (·.head), (m curr).order < (m b).order := by
              intro h hh
              obtain ⟨b, hb, rfl⟩ := Option.mem_map.mp hh
              rw [(hentry b hb).2, hc]
              exact hbetter.2 b hb
            simp only [baSearch, hlt, if_true, baIsFree, hc, hfree', Bool.not_false, hexact,
              if_false, hnext, hbetter.1, true_and]
            rw [if_pos (by simpa [hc] using hcond)]
            simp [hhead]
          · have hcond : ¬ (order % 2 ^ 8 < c.order ∧
                ∀ b ∈ best.map (·.head), c.order < (m b).order) := by
              rintro ⟨hlt', hall⟩
              refine hbetter ⟨hlt', fun b hb => ?_⟩
              have := hall b.head (Option.mem_map.mpr ⟨b, hb, rfl⟩)
              simpa [(hentry b hb).2] using this
            simp only [baSearch, hlt, if_true, baIsFree, hc, hfree', Bool.not_false, hexact,
              if_false, hnext]
            rw [if_neg hcond]
            apply hskip
            intro hfit
            have hgt : order % 2 ^ 8 < c.order := lt_of_le_of_ne hfit.2 (Ne.symm hexact)
            by_contra hno
            refine hbetter ⟨hgt, fun b hb => ?_⟩
            by_contra hge
            exact hno ⟨b, hb, by omega⟩

/-! ## Merging -/

/-- Two free buddies whose lower entry is raised by one order read as one block.  The order in
the upper entry does not matter; the walk steps over it. -/
theorem join_shows {left right : List Block} {b c : Block}
    (hshow : Shows m s e (left ++ b :: c :: right))
    (hc : c.allocated = false) (hbuddy : Buddies b c)
    (hlow : m' b.head = ⟨false, b.order + 1⟩)
    (halloc : ∀ i, (m' i).allocated = (m i).allocated)
    (hframe : ∀ i, i ≠ b.head → i ≠ c.head → m' i = m i) :
    Shows m' s e (left ++ ⟨b.head, b.order + 1, false⟩ :: right) := by
  obtain ⟨x, hleft, rfl, -, -, hblow, hchead, -, hcentry, hcin, htail⟩ := shows_append.mp hshow
  obtain ⟨horder, halign, -⟩ := hbuddy
  rw [← horder] at hcin htail
  rw [hchead] at hframe
  have hpos := Nat.two_pow_pos b.order
  have hdouble : 2 ^ (b.order + 1) = 2 ^ b.order + 2 ^ b.order := by ring
  refine shows_append.mpr ⟨b.head, ?_, rfl, halign, hlow, ?_, ?_⟩
  · exact hleft.congr fun i _ hi => hframe i (by omega) (by omega)
  · intro i hlo hhi
    simp only at hhi
    rw [halloc]
    rcases Nat.lt_trichotomy i (b.head + 2 ^ b.order) with hi | rfl | hi
    · exact hblow i hlo hi
    · rw [hcentry, hc]
    · exact hcin i hi (by omega)
  · simp only [hdouble, ← Nat.add_assoc]
    exact htail.congr fun i hi _ => hframe i (by omega) (by omega)

/-- The memory after one pass of the merge loop. -/
def raise (m : Memory) (buddy curr : Nat) : Memory :=
  let m := m.setOrder buddy ((m buddy).order + 1)
  m.setOrder curr ((m curr).order + 1)

/-- Raising two orders allocates nothing and frees nothing. -/
theorem raise_allocated (m : Memory) (buddy curr i : Nat) :
    (raise m buddy curr i).allocated = (m i).allocated := by
  simp [raise]

theorem raise_other {buddy curr i : Nat} (hb : i ≠ buddy) (hc : i ≠ curr) :
    raise m buddy curr i = m i := by
  simp [raise, hb, hc]

theorem raise_buddy {buddy curr k : Nat} (hk : k + 1 < 2 ^ 7) (hne : buddy ≠ curr)
    (hb : m buddy = ⟨false, k⟩) : raise m buddy curr buddy = ⟨false, k + 1⟩ := by
  have hmod : (k + 1) % 128 = k + 1 := by omega
  simp [raise, hne, hb, Bitmap.setOrder, hmod]

/-- The entry that is being freed goes up by one order. -/
theorem raise_curr {buddy curr k : Nat} (hk : k + 1 < 2 ^ 7) (hne : buddy ≠ curr)
    (hc : m curr = ⟨false, k⟩) : raise m buddy curr curr = ⟨false, k + 1⟩ := by
  have hmod : (k + 1) % 128 = k + 1 := by omega
  simp [raise, Ne.symm hne, hc, Bitmap.setOrder, hmod]

/-- One pass of the merge loop whose buddy is free and of the same order. -/
theorem baMerge_continue {n fuel curr buddy k : Nat} (hbuddy : baBuddyIndex m curr = buddy)
    (hb : m buddy = ⟨false, k⟩) (hc : (m curr).order = k) (hn : curr < n) :
    baMerge n (fuel + 1) curr m = baMerge n fuel (min buddy curr) (raise m buddy curr) := by
  have hlt : min buddy curr < n := lt_of_le_of_lt (min_le_right _ _) hn
  simp only [baMerge, hbuddy, baIsFree, hb, hc, Bool.not_false, and_self, if_true]
  rw [if_pos hlt]
  simp only [raise, hb]

/-- The merge loop stops at a buddy that is allocated or of another order. -/
theorem baMerge_stop {n fuel curr : Nat}
    (h : (m (baBuddyIndex m curr)).allocated = false →
      (m (baBuddyIndex m curr)).order ≠ (m curr).order) :
    baMerge n (fuel + 1) curr m = some m := by
  have hcond : ¬ (baIsFree m (baBuddyIndex m curr) = true ∧
      (m (baBuddyIndex m curr)).order = (m curr).order) := by
    rintro ⟨hfree, horder⟩
    exact h (by simpa [baIsFree] using hfree) horder
  simp only [baMerge]
  rw [if_neg hcond]

/-- A block aligned for its upper buddy is nobody's upper buddy. -/
theorem not_both_buddies {y k : Nat} (hy : 2 ^ (k + 1) ∣ y) : ¬ 2 ^ (k + 1) ∣ y + 2 ^ k := by
  intro h
  have hle := Nat.le_of_dvd (Nat.two_pow_pos k) ((Nat.dvd_add_right hy).mp h)
  have : 2 ^ k < 2 ^ (k + 1) := Nat.pow_lt_pow_right (by decide) (by omega)
  omega

/-- What the merge loop reads at the buddy of a block `b`: a free neighbour it
may join, or an entry that makes it stop, and then no free buddy exists. -/
theorem buddy_cases {n : Nat} {left right : List Block} {b : Block}
    (hshow : Shows m 0 n (left ++ b :: right)) (hpast : (m n).allocated = true) :
    (∃ c right', right = c :: right' ∧ c.allocated = false ∧ Buddies b c ∧
      baBuddyIndex m b.head = c.head) ∨
    (∃ c left', left = left' ++ [c] ∧ c.allocated = false ∧ Buddies c b ∧
      baBuddyIndex m b.head = c.head) ∨
    (((m (baBuddyIndex m b.head)).allocated = false →
        (m (baBuddyIndex m b.head)).order ≠ b.order) ∧
      (∀ c ∈ right, Buddies b c → c.allocated = true) ∧
      (∀ c ∈ left, Buddies c b → c.allocated = true)) := by
  have hentries := fun {c : Block} (hc : c ∈ left ++ b :: right) => hshow.entry hc
  obtain ⟨x, hleft, rfl, halign, hentry, -, htail⟩ := shows_append.mp hshow
  have horder : (m b.head).order = b.order := by rw [hentry]
  rcases aligned_cases halign with hlow | ⟨y, hy, hxy⟩
  · -- the buddy lies above `b`: the next block, or the entry past the bitmap
    have hbuddy := baBuddyIndex_lower horder hlow
    have hdown : ∀ c ∈ left, Buddies c b → c.allocated = true := by
      rintro c - ⟨hco, hca, hcb⟩
      rw [hco] at hca hcb
      exact absurd (hcb ▸ hlow) (not_both_buddies hca)
    cases right with
    | nil =>
        obtain rfl : b.head + 2 ^ b.order = n := htail
        exact Or.inr (Or.inr ⟨fun hfree => by simp [hbuddy, hpast] at hfree, by simp, hdown⟩)
    | cons c right =>
        have hchead : c.head = b.head + 2 ^ b.order := htail.1
        have hc : m (b.head + 2 ^ b.order) = ⟨c.allocated, c.order⟩ := htail.2.2.1
        by_cases hjoin : c.allocated = false ∧ c.order = b.order
        · exact Or.inl ⟨c, right, rfl, hjoin.1, ⟨hjoin.2.symm, hlow, hchead⟩,
            hbuddy.trans hchead.symm⟩
        · refine Or.inr (Or.inr ⟨fun hfree ho => ?_, ?_, hdown⟩)
          · rw [hbuddy, hc] at hfree ho
            exact hjoin ⟨hfree, ho⟩
          · rintro d hd ⟨hdo, _, hdh⟩
            obtain rfl := htail.tiles.eq_of_head_eq hd List.mem_cons_self (hdh.trans hchead.symm)
            exact Bool.of_not_eq_false fun hfree => hjoin ⟨hfree, hdo.symm⟩
  · -- the buddy lies below `b`, and by alignment it is the head of a block
    have hbuddy : baBuddyIndex m b.head = y := by
      rw [hxy]
      exact baBuddyIndex_upper (hxy ▸ horder) hy
    rw [hxy] at hleft
    obtain ⟨l, c, l', rfl, hch, -, hlast⟩ := hleft.tiles.lower_buddy hy (Nat.zero_le y)
    have hc : m y = ⟨c.allocated, c.order⟩ := hch ▸ hentries (c := c) (by simp)
    by_cases hjoin : c.allocated = false ∧ c.order = b.order
    · obtain rfl := hlast hjoin.2
      refine Or.inr (Or.inl ⟨c, l, rfl, hjoin.1, ⟨hjoin.2, ?_, ?_⟩, hbuddy.trans hch.symm⟩)
      · rw [hjoin.2, hch]; exact hy
      · rw [hjoin.2, hch]; exact hxy
    · refine Or.inr (Or.inr ⟨fun hfree ho => ?_, ?_, ?_⟩)
      · rw [hbuddy, hc] at hfree ho
        exact hjoin ⟨hfree, ho⟩
      · rintro d - ⟨-, hda, -⟩
        exact absurd (hxy ▸ hda) (not_both_buddies hy)
      · rintro d hd ⟨hdo, -, hdh⟩
        have hdy : d.head = c.head := by rw [hdo, hxy] at hdh; omega
        obtain rfl := hleft.tiles.eq_of_head_eq hd (by simp) hdy
        exact Bool.of_not_eq_false fun hfree => hjoin ⟨hfree, hdo⟩

/-- The orders of the blocks of a bitmap that is short enough. -/
theorem Shows.order_lt {n : Nat} {bs : List Block} {b : Block} (hn : n < 2 ^ 31)
    (hshow : Shows m 0 n bs) (hb : b ∈ bs) : b.order < 31 := by
  have hbounds := (hshow.tiles.mem_bounds hb).2
  simp only [Block.stop] at hbounds
  exact (Nat.pow_lt_pow_iff_right (by decide)).mp ((by omega : 2 ^ b.order ≤ n).trans_lt hn)

/-- The round of the merge loop that joins `c` to the block `b`.  The block that
comes out starts at `head` and lies between `left` and `right`. -/
structure JoinRound (m : Memory) (n : Nat) (b c : Block) (head : Nat)
    (left right : List Block) : Prop where
  index : baBuddyIndex m b.head = c.head
  buddy : m c.head = ⟨false, b.order⟩
  order : (m b.head).order = b.order
  inside : b.head < n
  lower : min c.head b.head = head
  shows : Shows (raise m c.head b.head) 0 n (left ++ ⟨head, b.order + 1, false⟩ :: right)
  past : (raise m c.head b.head n).allocated = true

/-- One round of the merge loop at a free block: it joins the buddy above or the
one below, or it stops, and then no free buddy exists. -/
theorem merge_round {n : Nat} {left right : List Block} {b : Block} (hn : n < 2 ^ 31)
    (hshow : Shows m 0 n (left ++ b :: right)) (hb : b.allocated = false)
    (hpast : (m n).allocated = true) :
    (∃ c right', right = c :: right' ∧ c.allocated = false ∧ Buddies b c ∧
      JoinRound m n b c b.head left right') ∨
    (∃ c left', left = left' ++ [c] ∧ c.allocated = false ∧ Buddies c b ∧
      JoinRound m n b c c.head left' right) ∨
    (((m (baBuddyIndex m b.head)).allocated = false →
        (m (baBuddyIndex m b.head)).order ≠ (m b.head).order) ∧
      (∀ c ∈ right, Buddies b c → c.allocated = true) ∧
      (∀ c ∈ left, Buddies c b → c.allocated = true)) := by
  have hbounds := (hshow.tiles.mem_bounds (b := b) (by simp)).2
  have hpos := Nat.two_pow_pos b.order
  simp only [Block.stop] at hbounds
  have hk : b.order < 31 := hshow.order_lt hn (by simp)
  have hentry : m b.head = ⟨false, b.order⟩ := hb ▸ hshow.entry (b := b) (by simp)
  have horder : (m b.head).order = b.order := by rw [hentry]
  rcases buddy_cases hshow hpast with
    ⟨c, right, rfl, hc, hbud, hidx⟩ | ⟨c, left, rfl, hc, hbud, hidx⟩ | ⟨hstop, hup, hdown⟩
  · have hcentry : m c.head = ⟨false, b.order⟩ := by
      rw [hshow.entry (b := c) (by simp), hc, hbud.1]
    have hlt : b.head < c.head := by
      rw [hbud.2.2]
      omega
    refine Or.inl ⟨c, right, rfl, hc, hbud, hidx, hcentry, horder, by omega,
      min_eq_right hlt.le, ?_, by rw [raise_allocated, hpast]⟩
    exact join_shows hshow hc hbud (raise_curr (by omega) hlt.ne' hentry)
      (raise_allocated m c.head b.head) fun i h1 h2 => raise_other h2 h1
  · have hcentry : m c.head = ⟨false, b.order⟩ := by
      rw [hshow.entry (b := c) (by simp), hc, hbud.1]
    have hlt : c.head < b.head := by
      rw [hbud.2.2, hbud.1]
      omega
    have hshow' : Shows m 0 n (left ++ c :: b :: right) := by simpa using hshow
    refine Or.inr (Or.inl ⟨c, left, rfl, hc, hbud, hidx, hcentry, horder, by omega,
      min_eq_left hlt.le, ?_, by rw [raise_allocated, hpast]⟩)
    have hnext := join_shows hshow' hb hbud
      (by rw [raise_buddy (by omega) hlt.ne hcentry, hbud.1])
      (raise_allocated m c.head b.head) fun i h1 h2 => raise_other h1 h2
    rw [hbud.1] at hnext
    exact hnext
  · exact Or.inr (Or.inr ⟨by rw [horder]; exact hstop, hup, hdown⟩)

/-- **The merge loop** joins the free block at `curr` with its free buddies
until there is none.  The entry one past the bitmap must read as allocated:
it is the buddy of the last block when that buddy lies outside. -/
theorem baMerge_spec {n fuel : Nat} {left right : List Block} {b : Block}
    (hn : n < 2 ^ 31) (hshow : Shows m 0 n (left ++ b :: right)) (hb : b.allocated = false)
    (hpast : (m n).allocated = true) (hfuel : 31 < b.order + fuel) :
    ∃ m' out, baMerge n fuel b.head m = some m' ∧ Coalesces left b right out ∧
      Shows m' 0 n out ∧ (m' n).allocated = true := by
  induction fuel generalizing m left right b with
  | zero =>
      have hk := hshow.order_lt hn (b := b) (by simp)
      omega
  | succ fuel ih =>
      rcases merge_round hn hshow hb hpast with
        ⟨c, right, rfl, hc, hbud, hjoin⟩ | ⟨c, left, rfl, hc, hbud, hjoin⟩ | ⟨hstop, hup, hdown⟩
      · obtain ⟨m', out, hrun, hco, hrest⟩ :=
          ih hjoin.shows rfl hjoin.past (show 31 < b.order + 1 + fuel by omega)
        refine ⟨m', out, ?_, Coalesces.up hc hbud hco, hrest⟩
        rw [baMerge_continue hjoin.index hjoin.buddy hjoin.order hjoin.inside, hjoin.lower]
        exact hrun
      · obtain ⟨m', out, hrun, hco, hrest⟩ :=
          ih hjoin.shows rfl hjoin.past (show 31 < b.order + 1 + fuel by omega)
        refine ⟨m', out, ?_, Coalesces.down hc hbud hco, hrest⟩
        rw [baMerge_continue hjoin.index hjoin.buddy hjoin.order hjoin.inside, hjoin.lower]
        exact hrun
      · exact ⟨m, _, baMerge_stop hstop, Coalesces.done hup hdown, hshow, hpast⟩

/-! ## Creating -/

/-- The loop of `ba_create` lays out one free block for every binary digit of
the page count. -/
theorem baCreateLoop_shows {n i : Nat} (hi : i ≤ 32)
    (hzero : ∀ j, n / 2 ^ i * 2 ^ i ≤ j → j < n → m j = ⟨false, 0⟩) :
    Shows (baCreateLoop n i (n / 2 ^ i * 2 ^ i) m) (n / 2 ^ i * 2 ^ i) n
        (digitBlocks n i (n / 2 ^ i * 2 ^ i)) ∧
      ∀ j, j < n / 2 ^ i * 2 ^ i ∨ n ≤ j → baCreateLoop n i (n / 2 ^ i * 2 ^ i) m j = m j := by
  induction i generalizing m with
  | zero => simp [baCreateLoop, digitBlocks]
  | succ i ih =>
      have hround := round_down_digit n i
      have hdown : n / 2 ^ i * 2 ^ i ≤ n := Nat.div_mul_le_self n _
      have hpos := Nat.two_pow_pos i
      generalize hx : n / 2 ^ (i + 1) * 2 ^ (i + 1) = x at hround hzero ⊢
      by_cases hbit : n / 2 ^ i % 2 = 1
      · rw [hbit, Nat.one_mul] at hround
        have hmod : i % 128 = i := by omega
        have hentry : m.setOrder x i x = ⟨false, i⟩ := by
          simp [hzero x (Nat.le_refl x) (by omega), Bitmap.setOrder, hmod]
        have hnext : baNextIndex (m.setOrder x i) x = x + 2 ^ i := by
          rw [baNextIndex, hentry, Nat.one_shiftLeft]
        have hzero' : ∀ j, x + 2 ^ i ≤ j → j < n → m.setOrder x i j = ⟨false, 0⟩ := by
          intro j hlo hhi
          rw [setOrder_other _ _ (by omega)]
          exact hzero j (by omega) hhi
        rw [hround] at ih
        obtain ⟨hshow, hframe⟩ := ih (m := m.setOrder x i) (by omega) hzero'
        have hinside : ∀ j, x < j → j < x + 2 ^ i →
            baCreateLoop n i (x + 2 ^ i) (m.setOrder x i) j = ⟨false, 0⟩ := by
          intro j hlo hhi
          rw [hframe j (Or.inl hhi), setOrder_other _ _ (by omega)]
          exact hzero j (by omega) (by omega)
        have hand : n &&& 1 <<< i ≠ 0 := and_shift_ne_zero_iff.mpr hbit
        simp only [baCreateLoop, if_pos hand, hnext, digitBlocks, if_pos hbit]
        refine ⟨⟨rfl, ?_, ?_, fun j hlo hhi => by rw [hinside j hlo hhi], hshow⟩, ?_⟩
        · rw [← hx, Nat.pow_succ]
          exact ⟨n / (2 ^ i * 2) * 2, by ring⟩
        · rw [hframe x (Or.inl (by omega)), hentry]
        · intro j hj
          rw [hframe j (by omega), setOrder_other _ _ (by omega)]
      · have hbit' : n / 2 ^ i % 2 = 0 := by omega
        rw [hbit', Nat.zero_mul, Nat.add_zero] at hround
        rw [hround] at ih
        have hand : ¬ (n &&& 1 <<< i ≠ 0) := fun h => hbit (and_shift_ne_zero_iff.mp h)
        simp only [baCreateLoop, if_neg hand, digitBlocks, if_neg hbit]
        exact ih (by omega) hzero

/-! ## The allocator -/

/-- `ba` is well formed and its bitmap shows the blocks `bs`. -/
structure Holds (ba : Allocator) (bs : List Block) : Prop where
  page_pos : 0 < ba.pageSize
  page_lt : ba.pageSize < 2 ^ 31
  size_lt : ba.size < 2 ^ 31
  pages : ba.nrPages = ba.size / ba.pageSize
  order : ba.maxOrder = baOrder ba.size ba.pageSize
  shows : Shows ba.bitmap 0 ba.nrPages bs
  past : (ba.bitmap ba.nrPages).allocated = true

/-- There are fewer than `2 ^ 31` pages, so no index overflows. -/
theorem Holds.nrPages_lt {ba : Allocator} {bs : List Block} (h : Holds ba bs) :
    ba.nrPages < 2 ^ 31 := by
  rw [h.pages]
  exact (Nat.div_le_self _ _).trans_lt h.size_lt

/-- The walk from index 0 meets the blocks. -/
theorem Holds.baBlocks {ba : Allocator} {bs : List Block} (h : Holds ba bs) :
    baBlocks ba = bs :=
  h.shows.walk (Nat.sub_le _ _)

/-- Only the bitmap of a well-formed allocator ever changes. -/
theorem Holds.update {ba : Allocator} {bs bs' : List Block} {m : Memory} (h : Holds ba bs)
    (hshow : Shows m 0 ba.nrPages bs') (hpast : (m ba.nrPages).allocated = true) :
    Holds { ba with bitmap := m } bs' :=
  ⟨h.page_pos, h.page_lt, h.size_lt, h.pages, h.order, hshow, hpast⟩

/-- A multiple of the minimal page size passes the check of `ba_create`. -/
theorem baMinPageMask_of_dvd {pageSize : Nat} (h : 128 ∣ pageSize) :
    pageSize &&& baMinPageMask = 0 := by
  rw [baMinPageMask, Nat.and_two_pow_sub_one_eq_mod]
  omega

/-- `ba_create` succeeds on every page size that is a multiple of 128. -/
theorem baCreate_of_dvd {m : Memory} {size pageSize : Nat} (h : 128 ∣ pageSize) :
    baCreate m size pageSize = some {
      size, pageSize
      nrPages := size / pageSize
      maxOrder := baOrder size pageSize
      bitmap := baCreateLoop (size / pageSize) 32 0
        fun i => if i < size / pageSize then ⟨false, 0⟩ else m i } := by
  simp only [baCreate, baMinPageMask_of_dvd h, ne_eq, not_true_eq_false, if_false]

/-- **Creation.**  A fresh allocator shows the free blocks that the binary
digits of its page count ask for. -/
theorem baCreate_shows {m : Memory} {size pageSize : Nat} (hsize : size < 2 ^ 31)
    (hpage : 0 < pageSize) (hpage' : pageSize < 2 ^ 31) (hdvd : 128 ∣ pageSize)
    (hpast : (m (size / pageSize)).allocated = true) :
    ∃ ba, baCreate m size pageSize = some ba ∧ ba.size = size ∧ ba.pageSize = pageSize ∧
      Holds ba (digitBlocks (size / pageSize) 32 0) := by
  have hn : size / pageSize < 2 ^ 32 :=
    ((Nat.div_le_self _ _).trans_lt hsize).trans (by decide)
  have hnull : size / pageSize / 2 ^ 32 * 2 ^ 32 = 0 := by
    rw [Nat.div_eq_of_lt hn, Nat.zero_mul]
  have hloop := baCreateLoop_shows (n := size / pageSize) (i := 32)
    (m := fun i => if i < size / pageSize then ⟨false, 0⟩ else m i) (Nat.le_refl _)
    (fun j _ hj => if_pos hj)
  rw [hnull] at hloop
  obtain ⟨hshow, hframe⟩ := hloop
  refine ⟨_, baCreate_of_dvd hdvd, rfl, rfl, ⟨hpage, hpage', hsize, rfl, ?_, hshow, ?_⟩⟩
  · simp only
  · simp only
    rw [hframe _ (Or.inr (Nat.le_refl _))]
    simpa using hpast

/-- The pages a request of `len` bytes asks for. -/
def pagesOf (len pageSize : Nat) : Nat :=
  (len + pageSize - 1) / pageSize

/-- The order of a request that fits into the pool is admitted, and large enough for the request. -/
theorem Holds.baOrder_lt {ba : Allocator} {bs : List Block} (h : Holds ba bs) {len : Nat}
    (hpos : 1 ≤ len) (hlen : len ≤ ba.size) :
    baOrder len ba.pageSize < 32 ∧ baOrder len ba.pageSize ≤ ba.maxOrder ∧
      pagesOf len ba.pageSize ≤ 2 ^ baOrder len ba.pageSize := by
  have hp := h.page_pos
  have hs := h.size_lt
  have hpl := h.page_lt
  have hle := fun i => baOrder_le_iff (i := i) hp hpos (by omega : len + ba.pageSize - 1 < 2 ^ 32)
  have hle' := fun i => baOrder_le_iff (i := i) hp (by omega : 0 < ba.size)
    (by omega : ba.size + ba.pageSize - 1 < 2 ^ 32)
  have hbig : ∀ x, x ≤ ba.size → (x + ba.pageSize - 1) / ba.pageSize ≤ 2 ^ 31 := by
    intro x hx
    refine (Nat.div_le_iff_le_mul_add_pred hp).mpr ?_
    have : 2 ^ 31 ≤ ba.pageSize * 2 ^ 31 := Nat.le_mul_of_pos_left _ hp
    omega
  have h31 := (hle 31 (by decide)).mpr (hbig len hlen)
  have h31' := (hle' 31 (by decide)).mpr (hbig _ (Nat.le_refl _))
  refine ⟨by omega, ?_, (hle _ (by omega)).mp (Nat.le_refl _)⟩
  rw [h.order]
  refine (hle _ (by omega)).mpr (le_trans ?_ ((hle' _ (by omega)).mp (Nat.le_refl _)))
  exact Nat.div_le_div_right (by omega)

/-- If the search finds nothing, the bitmap is as it was. -/
theorem baAllocOrder_of_miss {ba : Allocator} {order : Nat} (hmax : order ≤ ba.maxOrder)
    (hsearch : baSearch ba.bitmap ba.nrPages order (ba.nrPages + 1) 0 none = some none) :
    baAllocOrder ba order = some (ba, none) := by
  rw [baAllocOrder, if_neg (Nat.not_lt.mpr hmax), hsearch]

/-- If the search finds a block, it is split down to the order and marked. -/
theorem baAllocOrder_of_hit {ba : Allocator} {order best : Nat} {m : Memory}
    (hmax : order ≤ ba.maxOrder)
    (hsearch : baSearch ba.bitmap ba.nrPages order (ba.nrPages + 1) 0 none = some (some best))
    (hsplit : baSplit order best orderFuel ba.bitmap = some m) :
    baAllocOrder ba order = some ({ ba with bitmap := m.setAllocated best true }, some best) := by
  rw [baAllocOrder, if_neg (Nat.not_lt.mpr hmax), hsearch]
  simp only [hsplit]

/-- The list of blocks after the best fit `b` was cut down to order `r` and
allocated. -/
def carve (left : List Block) (b : Block) (r : Nat) (right : List Block) : List Block :=
  left ++ ⟨b.head, r, true⟩ :: remainders b.head r (b.order - r) ++ right

/-- **Allocation of an order.**  The search always finishes.  It finds nothing
exactly when no free block is large enough, and otherwise the best fit is
carved. -/
theorem baAllocOrder_spec {ba : Allocator} {bs : List Block} (h : Holds ba bs) {r : Nat}
    (hr : r < 32) (hmax : r ≤ ba.maxOrder) :
    (baAllocOrder ba r = some (ba, none) ∧ BestFit r bs none) ∨
    ∃ m left b right, baAllocOrder ba r = some ({ ba with bitmap := m }, some b.head) ∧
      bs = left ++ b :: right ∧ BestFit r bs (some b) ∧
      Holds { ba with bitmap := m } (carve left b r right) := by
  have hmod : r % 2 ^ 8 = r := by omega
  have hnothing : BestFit (r % 2 ^ 8) [] none := fun c hc => by cases hc
  obtain ⟨res, hsearch, hres⟩ := baSearch_spec h.shows
    (by omega : ba.nrPages - 0 < ba.nrPages + 1) hnothing (fun b hb => by cases hb)
  rw [hmod, List.nil_append] at hres
  simp only [Option.map_none] at hsearch
  cases res with
  | none => exact Or.inl ⟨baAllocOrder_of_miss hmax hsearch, hres⟩
  | some b =>
      obtain ⟨left, right, rfl, hfit, hleft, hright⟩ := hres
      obtain ⟨x, hsl, hsb⟩ := shows_append.mp h.shows
      obtain rfl := hsb.1
      have hsum : r + (b.order - r) = b.order := by have := hfit.2; omega
      have hb : b = ⟨b.head, r + (b.order - r), false⟩ := by rw [hsum, ← hfit.1]
      have hend := hsb.tiles.2.2.le
      have hbpos := Nat.two_pow_pos b.order
      have hk : b.order < 31 := (Nat.pow_lt_pow_iff_right (by decide)).mp
        ((by omega : 2 ^ b.order ≤ ba.nrPages).trans_lt h.nrPages_lt)
      have hcut : Shows ba.bitmap b.head ba.nrPages
          (⟨b.head, r + (b.order - r), false⟩ :: right) := by
        rw [← hb]
        exact hsb
      have hfuel : b.order - r < orderFuel := by rw [orderFuel]; omega
      obtain ⟨m', hsplit, hshow, hframe⟩ := baSplit_spec hmod (by omega) hfuel hcut
      rw [hsum] at hframe
      refine Or.inr ⟨_, left, b, right, baAllocOrder_of_hit hmax hsearch hsplit, rfl,
        ⟨left, right, rfl, hfit, hleft, hright⟩, h.update ?_ ?_⟩
      · rw [carve, List.append_assoc]
        refine shows_append.mpr ⟨b.head, ?_, ?_⟩
        · exact hsl.congr fun i _ hi => by
            rw [setAllocated_other _ _ (by omega), hframe i (Or.inl hi)]
        · obtain ⟨-, hal, hentry, hin, htail⟩ := hshow
          refine ⟨rfl, hal, by rw [setAllocated_same, hentry], fun i hlo hhi => ?_, ?_⟩
          · rw [setAllocated_other _ _ (by omega)]
            exact hin i hlo hhi
          · have hrpos := Nat.two_pow_pos r
            exact htail.congr fun i hi _ => setAllocated_other _ _ (by simp only at hi; omega)
      · rw [setAllocated_other _ _ (by omega), hframe _ (Or.inr hend)]
        exact h.past

/-- **Allocation** of an admissible length. -/
theorem baAlloc_spec {ba : Allocator} {bs : List Block} (h : Holds ba bs) {len : Nat}
    (hpos : 1 ≤ len) (hlen : len ≤ ba.size) :
    (baAlloc ba len = some (ba, none) ∧ BestFit (baOrder len ba.pageSize) bs none) ∨
    ∃ m left b right, baAlloc ba len = some ({ ba with bitmap := m }, some b.head) ∧
      bs = left ++ b :: right ∧ BestFit (baOrder len ba.pageSize) bs (some b) ∧
      Holds { ba with bitmap := m } (carve left b (baOrder len ba.pageSize) right) := by
  obtain ⟨h32, hmax, -⟩ := h.baOrder_lt hpos hlen
  exact baAllocOrder_spec h h32 hmax

/-- A store to the allocated bit of a head. -/
theorem Shows.setAllocated {m : Memory} {s e : Nat} {left right : List Block} {b : Block}
    {a : Bool} (h : Shows m s e (left ++ b :: right)) :
    Shows (m.setAllocated b.head a) s e (left ++ ⟨b.head, b.order, a⟩ :: right) := by
  obtain ⟨x, hleft, rfl, hal, hentry, hin, htail⟩ := shows_append.mp h
  have hpos := Nat.two_pow_pos b.order
  refine shows_append.mpr ⟨b.head, ?_, rfl, hal, by rw [setAllocated_same, hentry], ?_, ?_⟩
  · exact hleft.congr fun i _ hi => setAllocated_other _ _ (by omega)
  · intro i hlo hhi
    rw [setAllocated_other _ _ (by omega)]
    exact hin i hlo hhi
  · exact htail.congr fun i hi _ => setAllocated_other _ _ (by omega)

/-- **Release.**  Freeing a block always finishes; the block is
freed and joined with its free buddies. -/
theorem baFree_spec {ba : Allocator} {left right : List Block} {b : Block}
    (h : Holds ba (left ++ b :: right)) :
    ∃ m out, baFree ba b.head = some { ba with bitmap := m } ∧
      Coalesces left ⟨b.head, b.order, false⟩ right out ∧ Holds { ba with bitmap := m } out := by
  have hbound := (h.shows.tiles.mem_bounds (b := b) (by simp)).2
  have hlt := b.head_lt_stop
  have hshow := h.shows.setAllocated (a := false)
  have hpast : ((ba.bitmap.setAllocated b.head false) ba.nrPages).allocated = true := by
    rw [setAllocated_other _ _ (by omega)]
    exact h.past
  have hfuel : 31 < b.order + orderFuel := by rw [orderFuel]; omega
  obtain ⟨m', out, hrun, hco, hshow', hpast'⟩ :=
    baMerge_spec h.nrPages_lt hshow rfl hpast hfuel
  refine ⟨m', out, ?_, hco, h.update hshow' hpast'⟩
  rw [baFree, hrun, Option.map_some]

end BuddyAllocator

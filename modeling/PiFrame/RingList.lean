import Mathlib.Data.List.Nodup
import Mathlib.Logic.Function.Basic

/-!
# Circular doubly linked lists

The lists of `list.h`: every node knows the next one and the previous one, and
the head is a node like the others.  `Ring r head l` says that the pointers `r`
lead from the head through the nodes of `l` and back, in both directions.

A loop over such a list may take out the node it has come to, if it goes back to
the previous one before it goes on.  It then visits the same nodes as a loop over
the list `l` does.
-/

namespace RingList

variable {ν : Type*}

/-- The pointers of all nodes. -/
structure Links (ν : Type*) where
  next : ν → ν
  prev : ν → ν

/-- The pointers lead from `x` through `l` to `y`, and back. -/
def Path (r : Links ν) : ν → List ν → ν → Prop
  | x, [], y => r.next x = y ∧ r.prev y = x
  | x, z :: l, y => r.next x = z ∧ r.prev z = x ∧ Path r z l y

/-- The list `l` with its head. -/
structure Ring (r : Links ν) (head : ν) (l : List ν) : Prop where
  nodup : (head :: l).Nodup
  path : Path r head l head

variable {r r' : Links ν} {x y z head : ν} {l front back : List ν}

/-! ## Paths -/

theorem Ring.ne_head (h : Ring r head (front ++ x :: back)) : x ≠ head := by
  rintro rfl
  exact (List.nodup_cons.mp h.nodup).1 (by simp)

/-- A path through a node is one up to it and one from it on. -/
theorem path_append : Path r x (front ++ z :: back) y ↔ Path r x front z ∧ Path r z back y := by
  induction front generalizing x with
  | nil => simp [Path, and_assoc]
  | cons w front ih => simp [Path, ih, and_assoc]

/-- The next node of a path is its first, or its end. -/
theorem Path.next_eq (h : Path r x l y) : r.next x = l.headD y := by
  cases l with
  | nil => exact h.1
  | cons z l => exact h.1

/-- The last node on the way is the one before the end. -/
theorem Path.prev_mem (h : Path r x l y) : r.prev y ∈ x :: l := by
  induction l generalizing x with
  | nil =>
      rw [h.2]
      exact List.mem_singleton_self x
  | cons z l ih => exact List.mem_cons_of_mem x (ih h.2.2)

/-- A path is not affected by what happens to other pointers. -/
theorem Path.congr (h : Path r x l y) (hnext : ∀ w ∈ x :: l, r'.next w = r.next w)
    (hprev : ∀ w ∈ l ++ [y], r'.prev w = r.prev w) : Path r' x l y := by
  induction l generalizing x with
  | nil =>
      refine ⟨?_, ?_⟩
      · rw [hnext x List.mem_cons_self, h.1]
      · rw [hprev y (List.mem_singleton_self y), h.2]
  | cons z l ih =>
      refine ⟨?_, ?_, ih h.2.2 (fun w hw => hnext w (List.mem_cons_of_mem x hw))
        fun w hw => hprev w (List.mem_cons_of_mem z hw)⟩
      · rw [hnext x List.mem_cons_self, h.1]
      · rw [hprev z List.mem_cons_self, h.2.1]

/-- The last pointers of a path are turned to another end. -/
theorem Path.relink (h : Path r x l y) (hnodup : (x :: l).Nodup)
    (hnext : ∀ w ∈ x :: l, w ≠ r.prev y → r'.next w = r.next w)
    (hprev : ∀ w ∈ l, r'.prev w = r.prev w) (hend : r'.next (r.prev y) = z)
    (hback : r'.prev z = r.prev y) : Path r' x l z := by
  induction l generalizing x with
  | nil =>
      obtain ⟨-, hlast⟩ := h
      rw [hlast] at hend hback
      exact ⟨hend, hback⟩
  | cons w l ih =>
      obtain ⟨hxw, hwx, hrest⟩ := h
      obtain ⟨hout, hnodup'⟩ := List.nodup_cons.mp hnodup
      have hne : x ≠ r.prev y := fun heq => hout (heq ▸ hrest.prev_mem)
      refine ⟨?_, ?_, ih hrest hnodup' (fun v hv => hnext v (List.mem_cons_of_mem x hv))
        fun v hv => hprev v (List.mem_cons_of_mem w hv)⟩
      · rw [hnext x List.mem_cons_self hne, hxw]
      · rw [hprev w List.mem_cons_self, hwx]

/-- The pointers of a path determine its list, since it ends where the end is met for the first
time. -/
theorem Path.unique (h : Path r x l y) (h' : Path r x back y) (hl : y ∉ l) (hback : y ∉ back) :
    l = back := by
  induction l generalizing x back with
  | nil =>
      cases back with
      | nil => rfl
      | cons w back =>
          have hw : y = w := h.1.symm.trans h'.1
          exact absurd (hw ▸ List.mem_cons_self) hback
  | cons w l ih =>
      cases back with
      | nil =>
          have hw : y = w := h'.1.symm.trans h.1
          exact absurd (hw ▸ List.mem_cons_self) hl
      | cons w' back =>
          obtain rfl : w = w' := h.1.symm.trans h'.1
          exact congrArg (w :: ·) (ih h.2.2 h'.2.2 (List.not_mem_of_not_mem_cons hl)
            (List.not_mem_of_not_mem_cons hback))

theorem Ring.unique (h : Ring r head l) (h' : Ring r head back) : l = back :=
  h.path.unique h'.path (List.nodup_cons.mp h.nodup).1 (List.nodup_cons.mp h'.nodup).1

/-! ## The operations -/

variable [DecidableEq ν]

namespace Links

/-- `p->next = q`. -/
def setNext (r : Links ν) (p q : ν) : Links ν :=
  { r with next := Function.update r.next p q }

/-- `p->prev = q`. -/
def setPrev (r : Links ν) (p q : ν) : Links ν :=
  { r with prev := Function.update r.prev p q }

/-- `INIT_LIST_HEAD`. -/
def initListHead (r : Links ν) (list : ν) : Links ν :=
  (r.setNext list list).setPrev list list

/-- `__list_add`. -/
def listAdd (r : Links ν) (cnew prev next : ν) : Links ν :=
  (((r.setPrev next cnew).setNext cnew next).setPrev cnew prev).setNext prev cnew

/-- `list_add_tail`. -/
def listAddTail (r : Links ν) (cnew head : ν) : Links ν :=
  r.listAdd cnew (r.prev head) head

/-- `list_del`. -/
def listDel (r : Links ν) (entry : ν) : Links ν :=
  (r.setPrev (r.next entry) (r.prev entry)).setNext (r.prev entry) (r.next entry)

end Links

/-- A head that has just been initialised has an empty ring. -/
theorem ring_init : Ring (r.initListHead head) head [] := by
  refine ⟨List.nodup_singleton head, ?_, ?_⟩
  · exact Function.update_self ..
  · exact Function.update_self ..

/-- `list_del` takes a node out of the list: its two neighbours are linked to each other, and
the others keep their links. -/
theorem Ring.listDel (h : Ring r head (front ++ x :: back)) :
    Ring (r.listDel x) head (front ++ back) := by
  obtain ⟨hfront, hback⟩ := path_append.mp h.path
  have hnodup : ((head :: front) ++ x :: back).Nodup := h.nodup
  obtain ⟨hn₁, hn₂, hdisj⟩ := List.nodup_append'.mp hnodup
  obtain ⟨hxback, hn₃⟩ := List.nodup_cons.mp hn₂
  have hprev : ∀ w, w ≠ r.next x → (r.listDel x).prev w = r.prev w :=
    fun w hw => Function.update_of_ne hw ..
  have hnext : ∀ w, w ≠ r.prev x → (r.listDel x).next w = r.next w :=
    fun w hw => Function.update_of_ne hw ..
  have hend : (r.listDel x).next (r.prev x) = r.next x := Function.update_self ..
  have hstart : (r.listDel x).prev (r.next x) = r.prev x := Function.update_self ..
  constructor
  · show ((head :: front) ++ back).Nodup
    exact hnodup.sublist ((List.Sublist.refl _).append (List.sublist_cons_self x back))
  · have hfirst : r.next x = back.headD head := hback.next_eq
    -- the part before `x` now ends at what came after it
    have hleft : Path (r.listDel x) head front (r.next x) := by
      refine hfront.relink hn₁ (fun w _ hw => hnext w hw) (fun w hw => hprev w ?_) hend hstart
      intro heq
      rw [heq, hfirst] at hw
      cases back with
      | nil => exact (List.nodup_cons.mp hn₁).1 hw
      | cons z back =>
          exact hdisj (List.mem_cons_of_mem head hw) (List.mem_cons_of_mem x List.mem_cons_self)
    cases back with
    | nil =>
        rw [List.append_nil]
        rw [hfirst] at hleft
        exact hleft
    | cons z back =>
        rw [hfirst] at hleft
        refine path_append.mpr ⟨hleft, hback.2.2.congr (fun w hw => hnext w ?_)
          fun w hw => hprev w ?_⟩
        · intro heq
          exact hdisj (heq ▸ hfront.prev_mem) (List.mem_cons_of_mem x hw)
        · rw [hfirst]
          rintro rfl
          rcases List.mem_append.mp hw with hw | hw
          · exact (List.nodup_cons.mp hn₃).1 hw
          · have hhead : w = head := List.mem_singleton.mp hw
            exact hdisj (hhead ▸ List.mem_cons_self) (List.mem_cons_of_mem x List.mem_cons_self)

/-- `list_add_tail` puts a node at the end of the ring, provided that it is not in the ring yet. -/
theorem Ring.listAddTail (h : Ring r head l) (hx : x ∉ head :: l) :
    Ring (r.listAddTail x head) head (l ++ [x]) := by
  obtain ⟨hhead, hl⟩ := List.nodup_cons.mp h.nodup
  have hne : x ≠ head := fun heq => hx (heq ▸ List.mem_cons_self)
  have hlast : r.prev head ≠ x := fun heq => hx (heq ▸ h.path.prev_mem)
  constructor
  · show ((head :: l) ++ [x]).Nodup
    exact List.nodup_append'.mpr ⟨h.nodup, List.nodup_singleton x,
      List.disjoint_singleton.mpr hx⟩
  · have hend : (r.listAddTail x head).next (r.prev head) = x := Function.update_self ..
    have hback : (r.listAddTail x head).prev x = r.prev head := Function.update_self ..
    refine path_append.mpr ⟨h.path.relink h.nodup (fun w hw hw' => ?_) (fun w hw => ?_) hend
      hback, ?_, ?_⟩
    · have hwx : w ≠ x := fun heq => hx (heq ▸ hw)
      exact (Function.update_of_ne hw' ..).trans (Function.update_of_ne hwx ..)
    · have hwx : w ≠ x := fun heq => hx (heq ▸ List.mem_cons_of_mem head hw)
      have hwh : w ≠ head := fun heq => hhead (heq ▸ hw)
      exact (Function.update_of_ne hwx ..).trans (Function.update_of_ne hwh ..)
    · exact (Function.update_of_ne hlast.symm ..).trans (Function.update_self ..)
    · exact (Function.update_of_ne hne.symm ..).trans (Function.update_self ..)

/-! ## Loops -/

variable {σ : Type*}

/-- `list_for_each` up to the first node where `visit` says so.  It gives no
result if it does not end within `fuel` rounds. -/
def scan (visit : ν → σ → σ × Bool) (head : ν) : Nat → Links ν → ν → σ → Option (σ × Option ν)
  | 0, _, _, _ => none
  | fuel + 1, r, pos, s =>
      if pos = head then some (s, none)
      else
        match visit pos s with
        | (s, true) => some (s, some pos)
        | (s, false) => scan visit head fuel r (r.next pos) s

/-- The same on a list. -/
def look (visit : ν → σ → σ × Bool) : List ν → σ → σ × Option ν
  | [], s => (s, none)
  | x :: l, s =>
      match visit x s with
      | (s, true) => (s, some x)
      | (s, false) => look visit l s

/-- What a loop does with the node it has come to. -/
inductive Verdict (σ : Type*)
  | keep (s : σ)
  | unlink (s : σ)
  | quit (s : σ)

/-- `list_for_each` with a body that may take the node out and go back to the
previous one, and may leave the loop after it has taken a node out. -/
def walk (body : ν → σ → Verdict σ) (head : ν) :
    Nat → Links ν → ν → σ → Option (Links ν × σ × Bool)
  | 0, _, _, _ => none
  | fuel + 1, r, pos, s =>
      if pos = head then some (r, s, false)
      else
        match body pos s with
        | .keep s => walk body head fuel r (r.next pos) s
        | .unlink s =>
            let pPrev := r.prev pos
            let r := r.listDel pos
            walk body head fuel r (r.next pPrev) s
        | .quit s => some (r.listDel pos, s, true)

/-- The same on a list: the nodes that stay, and whether the loop was left. -/
def sweep (body : ν → σ → Verdict σ) : List ν → σ → List ν × σ × Bool
  | [], s => ([], s, false)
  | x :: l, s =>
      match body x s with
      | .keep s =>
          let (kept, s, left) := sweep body l s
          (x :: kept, s, left)
      | .unlink s => sweep body l s
      | .quit s => (l, s, true)

variable {visit : ν → σ → σ × Bool} {body : ν → σ → Verdict σ} {done todo : List ν}

/-- A search in the ring is one in the list, if the fuel is enough to come back to the head. -/
theorem Ring.scan_eq (h : Ring r head (done ++ todo)) {fuel : Nat} (hfuel : todo.length < fuel)
    (s : σ) : scan visit head fuel r (todo.headD head) s = some (look visit todo s) := by
  induction todo generalizing done fuel s with
  | nil =>
      cases fuel with
      | zero => exact absurd hfuel (Nat.not_lt_zero _)
      | succ fuel => simp [scan, look]
  | cons x todo ih =>
      cases fuel with
      | zero => exact absurd hfuel (Nat.not_lt_zero _)
      | succ fuel =>
          have hne := h.ne_head
          have hnext : r.next x = todo.headD head := (path_append.mp h.path).2.next_eq
          have hring : Ring r head ((done ++ [x]) ++ todo) := by
            rw [List.append_assoc]
            exact h
          rw [List.headD_cons, scan, if_neg hne, look, hnext]
          cases hvisit : visit x s with
          | mk s' found =>
              cases found with
              | true => rfl
              | false => exact ih hring (Nat.lt_of_succ_lt_succ hfuel) s'

/-- A loop over the ring that takes nodes out visits what a loop over the list
visits, and leaves a ring of the nodes that stay. -/
theorem Ring.walk_eq (h : Ring r head (done ++ todo)) {fuel : Nat} (hfuel : todo.length < fuel)
    (s : σ) : ∃ r', walk body head fuel r (todo.headD head) s =
        some (r', (sweep body todo s).2) ∧ Ring r' head (done ++ (sweep body todo s).1) := by
  induction todo generalizing r done fuel s with
  | nil =>
      cases fuel with
      | zero => exact absurd hfuel (Nat.not_lt_zero _)
      | succ fuel => exact ⟨r, by simp [walk, sweep], h⟩
  | cons x todo ih =>
      cases fuel with
      | zero => exact absurd hfuel (Nat.not_lt_zero _)
      | succ fuel =>
          have hne := h.ne_head
          have hnext : r.next x = todo.headD head := (path_append.mp h.path).2.next_eq
          have hlt := Nat.lt_of_succ_lt_succ hfuel
          rw [List.headD_cons, walk, if_neg hne, sweep]
          cases hbody : body x s with
          | keep s' =>
              have hring : Ring r head ((done ++ [x]) ++ todo) := by
                rw [List.append_assoc]
                exact h
              obtain ⟨r', hwalk, hkept⟩ := ih hring hlt s'
              refine ⟨r', ?_, ?_⟩
              · dsimp only
                rw [hnext, hwalk]
              · rw [List.append_assoc] at hkept
                exact hkept
          | unlink s' =>
              have hagain : (r.listDel x).next (r.prev x) = todo.headD head :=
                (Function.update_self ..).trans hnext
              obtain ⟨r', hwalk, hkept⟩ := ih h.listDel hlt s'
              refine ⟨r', ?_, hkept⟩
              dsimp only
              rw [hagain, hwalk]
          | quit s' => exact ⟨_, rfl, h.listDel⟩

/-- More rounds do not change the result of a search. -/
theorem scan_mono {fuel fuel' : Nat} (hle : fuel ≤ fuel') {pos : ν} {s : σ}
    {result : σ × Option ν} (h : scan visit head fuel r pos s = some result) :
    scan visit head fuel' r pos s = some result := by
  induction fuel generalizing fuel' pos s with
  | zero => cases h
  | succ fuel ih =>
      cases fuel' with
      | zero => exact absurd hle (Nat.not_succ_le_zero _)
      | succ fuel' =>
          rw [scan] at h ⊢
          by_cases hend : pos = head
          · rw [if_pos hend] at h ⊢
            exact h
          · rw [if_neg hend] at h ⊢
            cases hvisit : visit pos s with
            | mk s' found =>
                rw [hvisit] at h
                cases found with
                | true => exact h
                | false => exact ih (Nat.le_of_succ_le_succ hle) h

/-- More rounds do not change the result of a loop that has come to its end. -/
theorem walk_mono {fuel fuel' : Nat} (hle : fuel ≤ fuel') {pos : ν} {s : σ}
    {result : Links ν × σ × Bool} (h : walk body head fuel r pos s = some result) :
    walk body head fuel' r pos s = some result := by
  induction fuel generalizing fuel' r pos s with
  | zero => cases h
  | succ fuel ih =>
      cases fuel' with
      | zero => exact absurd hle (Nat.not_succ_le_zero _)
      | succ fuel' =>
          have hle' := Nat.le_of_succ_le_succ hle
          rw [walk] at h ⊢
          by_cases hend : pos = head
          · rw [if_pos hend] at h ⊢
            exact h
          · rw [if_neg hend] at h ⊢
            cases hbody : body pos s with
            | keep s' =>
                rw [hbody] at h
                exact ih hle' h
            | unlink s' =>
                rw [hbody] at h
                exact ih hle' h
            | quit s' =>
                rw [hbody] at h
                exact h

omit [DecidableEq ν] in
/-- What every visit keeps, a search in a list keeps. -/
theorem look_invariant (inv : σ → Prop) (hvisit : ∀ x ∈ l, ∀ s, inv s → inv (visit x s).1)
    {s : σ} (hs : inv s) :
    inv (look visit l s).1 ∧ ∀ x, (look visit l s).2 = some x → x ∈ l := by
  induction l generalizing s with
  | nil => exact ⟨hs, fun x h => by cases h⟩
  | cons z l ih =>
      have hz := hvisit z List.mem_cons_self s hs
      rw [look]
      cases hfound : visit z s with
      | mk s' found =>
          rw [hfound] at hz
          cases found with
          | true =>
              refine ⟨hz, fun x h => ?_⟩
              cases h
              exact List.mem_cons_self
          | false =>
              obtain ⟨hinv, hmem⟩ := ih (fun x hx => hvisit x (List.mem_cons_of_mem z hx)) hz
              exact ⟨hinv, fun x h => List.mem_cons_of_mem z (hmem x h)⟩

/-- What every visit keeps, a search in a ring keeps, and it finds a node of the
ring. -/
theorem Ring.scan_invariant (h : Ring r head l) (inv : σ → Prop)
    (hvisit : ∀ x ∈ l, ∀ s, inv s → inv (visit x s).1) {fuel : Nat} {s s' : σ} {found : Option ν}
    (hs : inv s) (hscan : scan visit head fuel r (r.next head) s = some (s', found)) :
    inv s' ∧ ∀ x, found = some x → x ∈ l := by
  have hlong := scan_mono (Nat.le_add_right fuel (l.length + 1)) hscan
  have hring : Ring r head ([] ++ l) := h
  rw [h.path.next_eq, hring.scan_eq (by omega)] at hlong
  obtain ⟨hinv, hmem⟩ := look_invariant inv hvisit hs
  rw [Option.some.inj hlong] at hinv hmem
  exact ⟨hinv, hmem⟩

/-- A loop over a ring ends. -/
theorem Ring.walk_total (h : Ring r head l) (body : ν → σ → Verdict σ) (s : σ) :
    ∃ result, walk body head (l.length + 1) r (r.next head) s = some result ∧
      result.2 = (sweep body l s).2 ∧ Ring result.1 head (sweep body l s).1 := by
  have hring : Ring r head ([] ++ l) := h
  obtain ⟨r', hresult, hkept⟩ := hring.walk_eq (Nat.lt_succ_self l.length) s
  rw [h.path.next_eq]
  exact ⟨_, hresult, rfl, hkept⟩

/-- A loop over a ring, if it ends at all, is one over the list. -/
theorem Ring.walk_spec (h : Ring r head l) {fuel : Nat} {s : σ} {result : Links ν × σ × Bool}
    (hwalk : walk body head fuel r (r.next head) s = some result) :
    result.2 = (sweep body l s).2 ∧ Ring result.1 head (sweep body l s).1 := by
  obtain ⟨result', hresult, hspec⟩ := h.walk_total body s
  have hlong := walk_mono (Nat.le_add_right fuel (l.length + 1)) hwalk
  rw [walk_mono (Nat.le_add_left (l.length + 1) fuel) hresult] at hlong
  obtain rfl := Option.some.inj hlong
  exact hspec

end RingList

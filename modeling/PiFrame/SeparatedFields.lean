import Mathlib.Data.List.Infix

/-!
# Texts that are searched as a whole

Fields are written one after another with a separator behind each of them.  A search of
the whole text for a word and a separator finds the word wherever a field ends with it,
and nowhere else.

`strstr` and `fgets` work on lists of any kind here, as far as they look at them.
-/

namespace SeparatedFields

variable {α : Type*} {sep : α} {w f rest text last : List α} {fields : List (List α)}

/-! ## Fields -/

/-- Two texts that go on with their first separator at one place are the same so far. -/
theorem append_sep_inj {x y tail : List α} (hx : sep ∉ x) (hy : sep ∉ y)
    (h : x ++ sep :: rest = y ++ sep :: tail) : x = y ∧ rest = tail := by
  induction x generalizing y with
  | nil =>
      cases y with
      | nil => exact ⟨rfl, (List.cons.inj h).2⟩
      | cons c y => exact absurd ((List.cons.inj h).1 ▸ List.mem_cons_self) hy
  | cons c x ih =>
      cases y with
      | nil => exact absurd ((List.cons.inj h).1 ▸ List.mem_cons_self) hx
      | cons d y =>
          obtain ⟨hcd, htail⟩ := List.cons.inj h
          obtain ⟨hxy, hrest⟩ := ih (List.not_mem_of_not_mem_cons hx)
            (List.not_mem_of_not_mem_cons hy) htail
          exact ⟨by rw [hcd, hxy], hrest⟩

/-- Behind a field the word is found when the field ends with it, and otherwise further
on. -/
theorem infix_field (hw : sep ∉ w) (hf : sep ∉ f) :
    w ++ [sep] <:+: f ++ sep :: rest ↔ w <:+ f ∨ w ++ [sep] <:+: rest := by
  constructor
  · rintro ⟨front, back, h⟩
    have h : front ++ (w ++ sep :: back) = f ++ sep :: rest := by
      rw [← h]
      simp
    rcases List.append_eq_append_iff.mp h with ⟨a, hfield, htail⟩ | ⟨a, hfront, htail⟩
    · have ha : sep ∉ a := fun hmem => hf (hfield ▸ List.mem_append_right front hmem)
      obtain ⟨rfl, -⟩ := append_sep_inj hw ha htail
      exact .inl ⟨front, hfield.symm⟩
    · cases a with
      | nil =>
          cases w with
          | nil => exact .inl List.nil_suffix
          | cons c w => exact absurd ((List.cons.inj htail).1 ▸ List.mem_cons_self) hw
      | cons c a =>
          obtain ⟨-, hrest⟩ := List.cons.inj htail
          exact .inr ⟨a, back, by rw [hrest]; simp⟩
  · rintro (⟨front, rfl⟩ | hlater)
    · exact ⟨front, rest, by simp⟩
    · exact hlater.trans ⟨f ++ [sep], [], by simp⟩

/-- **The search.**  The word and a separator are found exactly where a field ends with
the word; `last` stands behind the last separator. -/
theorem infix_fields (hw : sep ∉ w) (hfields : ∀ f ∈ fields, sep ∉ f) (hlast : sep ∉ last) :
    w ++ [sep] <:+: fields.flatMap (· ++ [sep]) ++ last ↔ ∃ f ∈ fields, w <:+ f := by
  induction fields with
  | nil =>
      refine iff_of_false (fun h => hlast ?_) fun ⟨_, hmem, _⟩ => by cases hmem
      have hmem : sep ∈ w ++ [sep] := List.mem_append_right w List.mem_cons_self
      exact h.subset hmem
  | cons f fields ih =>
      have hcons : (f :: fields).flatMap (· ++ [sep]) ++ last
          = f ++ sep :: (fields.flatMap (· ++ [sep]) ++ last) := by simp
      rw [hcons, infix_field hw (hfields f List.mem_cons_self),
        ih fun g hg => hfields g (List.mem_cons_of_mem f hg), List.exists_mem_cons_iff]

variable [DecidableEq α]

/-! ## Splitting -/

/-- The separator is in no piece of what is split at it. -/
theorem notMem_of_mem_splitOn (h : f ∈ text.splitOn sep) : sep ∉ f := by
  induction text generalizing f with
  | nil =>
      rw [List.splitOn_nil, List.mem_singleton] at h
      rw [h]
      exact List.not_mem_nil
  | cons c text ih =>
      obtain ⟨first, pieces, hsplit⟩ := List.exists_cons_of_ne_nil (List.splitOn_ne_nil sep text)
      rw [List.splitOn_cons_eq_if_modifyHead, hsplit] at h
      split at h
      · rcases List.mem_cons.mp h with rfl | h
        · exact List.not_mem_nil
        · exact ih (hsplit ▸ h)
      · next hc =>
        rw [beq_iff_eq] at hc
        rcases List.mem_cons.mp h with rfl | h
        · exact List.not_mem_cons_of_ne_of_not_mem (Ne.symm hc)
            (ih (hsplit ▸ List.mem_cons_self))
        · exact ih (hsplit ▸ List.mem_cons_of_mem _ h)

/-- The pieces with their separators, and the last one without. -/
theorem exists_last_splitOn (sep : α) (text : List α) : ∃ last, sep ∉ last ∧
    text = (text.splitOn sep).dropLast.flatMap (· ++ [sep]) ++ last := by
  induction text with
  | nil => exact ⟨[], List.not_mem_nil, rfl⟩
  | cons c text ih =>
      obtain ⟨last, hlast, htext⟩ := ih
      obtain ⟨first, pieces, hsplit⟩ := List.exists_cons_of_ne_nil (List.splitOn_ne_nil sep text)
      rw [List.splitOn_cons_eq_if_modifyHead, hsplit]
      rw [hsplit] at htext
      by_cases hc : c = sep
      · refine ⟨last, hlast, ?_⟩
        rw [if_pos (beq_iff_eq.mpr hc), List.dropLast_cons_cons, List.flatMap_cons, hc,
          List.append_assoc, ← htext]
        rfl
      · rw [if_neg (mt beq_iff_eq.mp hc)]
        cases pieces with
        | nil =>
            refine ⟨c :: last, List.not_mem_cons_of_ne_of_not_mem (Ne.symm hc) hlast, ?_⟩
            exact congrArg (c :: ·) htext
        | cons second pieces =>
            refine ⟨last, hlast, ?_⟩
            rw [List.dropLast_cons_cons, List.flatMap_cons, List.append_assoc] at htext
            rw [List.modifyHead_cons, List.dropLast_cons_cons, List.flatMap_cons,
              List.append_assoc, List.cons_append, List.cons_append, ← htext]

/-- Behind a text without separators the word is found where a piece but the last ends
with it. -/
theorem infix_splitOn (hw : sep ∉ w) (hrest : sep ∉ rest) :
    w ++ [sep] <:+: text ++ rest ↔ ∃ f ∈ (text.splitOn sep).dropLast, w <:+ f := by
  obtain ⟨last, hlast, htext⟩ := exists_last_splitOn sep text
  have hfields : ∀ f ∈ (text.splitOn sep).dropLast, sep ∉ f := fun f hf =>
    notMem_of_mem_splitOn (List.dropLast_subset _ hf)
  have hnone : sep ∉ last ++ rest := by
    rw [List.mem_append, not_or]
    exact ⟨hlast, hrest⟩
  conv_lhs => rw [htext, List.append_assoc]
  exact infix_fields hw hfields hnone

/-! ## Searching -/

/-- `strstr`: what is left from the first occurrence on. -/
def strstr (text w : List α) : Option (List α) :=
  if w.isPrefixOf text then some text
  else
    match text with
    | [] => none
    | _ :: text => strstr text w

/-- `strstr` finds a word if it stands in the text. -/
theorem strstr_isSome : (strstr text w).isSome ↔ w <:+: text := by
  induction text with
  | nil =>
      rw [strstr]
      split
      · next h => exact iff_of_true rfl (List.isPrefixOf_iff_prefix.mp h).isInfix
      · next h =>
          refine iff_of_false Bool.false_ne_true fun hin => h ?_
          rw [List.infix_nil.mp hin]
          rfl
  | cons c text ih =>
      rw [strstr, List.infix_cons_iff, ← ih, ← List.isPrefixOf_iff_prefix]
      split
      · next h => exact iff_of_true rfl (.inl h)
      · next h => exact ⟨.inr, fun hor => hor.resolve_left h⟩

/-! ## Lines -/

/-- The bytes up to the first `stop` with it, at most `n` of them, and those behind. -/
def takeLine (stop : α) : Nat → List α → List α × List α
  | 0, content => ([], content)
  | _ + 1, [] => ([], [])
  | n + 1, c :: content =>
      if c = stop then ([c], content)
      else (c :: (takeLine stop n content).1, (takeLine stop n content).2)

/-- `fgets` with a buffer of so many bytes. -/
def fgets (stop : α) (size : Nat) (content : List α) : Option (List α × List α) :=
  if content = [] then none else some (takeLine stop (size - 1) content)

/-- What the calls of `fgets` read, at most `fuel` of them. -/
def readLines (stop : α) (size : Nat) : Nat → List α → List (List α)
  | 0, _ => []
  | fuel + 1, content =>
      match fgets stop size content with
      | none => []
      | some (line, content) => line :: readLines stop size fuel content

variable {stop : α} {line : List α} {lines : List (List α)} {n size fuel : Nat}

/-- `fgets` reads a short line with its line break. -/
theorem takeLine_line (hline : stop ∉ line) (hshort : line.length < n) :
    takeLine stop n (line ++ stop :: rest) = (line ++ [stop], rest) := by
  induction line generalizing n with
  | nil =>
      obtain ⟨n, rfl⟩ : ∃ k, n = k + 1 := ⟨n - 1, by omega⟩
      exact if_pos rfl
  | cons c line ih =>
      obtain ⟨n, rfl⟩ : ∃ k, n = k + 1 := ⟨n - 1, by omega⟩
      have hc : c ≠ stop := fun heq => hline (heq ▸ List.mem_cons_self)
      rw [List.cons_append, takeLine, if_neg hc,
        ih (List.not_mem_of_not_mem_cons hline) (Nat.lt_of_succ_lt_succ hshort)]
      rfl

/-- Lines that fit into the buffer are read one by one. -/
theorem readLines_lines (hlines : ∀ line ∈ lines, stop ∉ line ∧ line.length + 1 < size)
    (hfuel : lines.length ≤ fuel) :
    readLines stop size fuel (lines.flatMap (· ++ [stop])) = lines.map (· ++ [stop]) := by
  induction lines generalizing fuel with
  | nil =>
      cases fuel with
      | zero => rfl
      | succ fuel => rfl
  | cons line lines ih =>
      obtain ⟨fuel, rfl⟩ : ∃ k, fuel = k + 1 :=
        ⟨fuel - 1, by rw [List.length_cons] at hfuel; omega⟩
      obtain ⟨hstop, hshort⟩ := hlines line List.mem_cons_self
      have hcons : (line :: lines).flatMap (· ++ [stop])
          = line ++ stop :: lines.flatMap (· ++ [stop]) := by simp
      have hsome : line ++ stop :: lines.flatMap (· ++ [stop]) ≠ [] := by simp
      rw [hcons, readLines, fgets, if_neg hsome, takeLine_line hstop (by omega)]
      exact congrArg ((line ++ [stop]) :: ·)
        (ih (fun other hother => hlines other (List.mem_cons_of_mem line hother))
          (Nat.le_of_succ_le_succ hfuel))

end SeparatedFields

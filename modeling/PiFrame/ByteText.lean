import Mathlib.Data.List.DropRight
import Mathlib.Data.List.Infix
import Mathlib.Data.List.TakeWhile
import Mathlib.Tactic.IntervalCases

/-!
# Texts of bytes

A C string or a file is the list of its bytes.  This file has the few things
the configuration code does with them: decimal numerals as `printf` writes and
`scanf` reads them, `strrchr`, and the lines of a file.
-/

/-- The bytes of a string without its terminating NUL, or of a file. -/
abbrev Text := List Char

namespace ByteText

/-- Whether all bytes of a text pass a test is decided by looking at them, and
not at all the bytes there are. -/
instance (t : Text) (p : Char → Prop) [DecidablePred p] : Decidable (∀ c ∈ t, p c) :=
  List.decidableBAll p t

/-- A byte as a character. -/
theorem toNat_ofNat {n : Nat} (h : n < 256) : (Char.ofNat n).toNat = n := by
  have hvalid : n.isValidChar := Or.inl (by omega)
  rw [Char.ofNat, dif_pos hvalid]
  rfl

/-! ## Decimal numerals -/

/-- What `%lu` or `%d` writes for a nonnegative number. -/
def decimal (n : Nat) : Text := Nat.toDigits 10 n

/-- The number that a row of digits denotes. -/
def decimalValue (digits : Text) : Nat := Nat.ofDigitChars 10 digits 0

theorem isDigit_of_mem_decimal {n : Nat} {c : Char} (h : c ∈ decimal n) : c.isDigit :=
  Nat.isDigit_of_mem_toDigits (by decide) (by decide) h

theorem decimal_ne_nil (n : Nat) : decimal n ≠ [] :=
  Nat.toDigits_ne_nil

theorem decimalValue_decimal (n : Nat) : decimalValue (decimal n) = n :=
  Nat.ofDigitChars_ten_toDigits

/-- The digits in front count by the powers of ten behind them. -/
theorem decimalValue_append (front back : Text) :
    decimalValue (front ++ back) = 10 ^ back.length * decimalValue front + decimalValue back := by
  unfold decimalValue
  rw [Nat.ofDigitChars_append, Nat.ofDigitChars_eq_ofDigitChars_zero]

/-- The first digit counts by the powers of ten behind it. -/
theorem decimalValue_cons (c : Char) (digits : Text) :
    decimalValue (c :: digits) = 10 ^ digits.length * (c.toNat - 48) + decimalValue digits := by
  have happ := decimalValue_append [c] digits
  have hone : decimalValue [c] = c.toNat - 48 := by
    simp [decimalValue, Nat.ofDigitChars_cons]
  rw [hone] at happ
  exact happ

/-- Cutting a numeral off only makes the number smaller. -/
theorem decimalValue_le_of_prefix {front all : Text} (h : front <+: all) :
    decimalValue front ≤ decimalValue all := by
  obtain ⟨back, rfl⟩ := h
  rw [decimalValue_append]
  have hpos : 0 < 10 ^ back.length := by positivity
  exact (Nat.le_mul_of_pos_left _ hpos).trans (Nat.le_add_right _ _)

/-- A positive number is written without a leading zero. -/
theorem decimal_head {n : Nat} (hn : 0 < n) :
    ∃ c digits, decimal n = c :: digits ∧ 49 ≤ c.toNat := by
  induction n using Nat.strongRecOn with
  | ind n ih =>
      by_cases hsmall : n < 10
      · refine ⟨n.digitChar, [], Nat.toDigits_of_lt_base hsmall, ?_⟩
        interval_cases n <;> decide
      · obtain ⟨c, digits, hdigits, hc⟩ := ih (n / 10) (by omega) (by omega)
        refine ⟨c, digits ++ [(n % 10).digitChar], ?_, hc⟩
        have hlong := Nat.toDigits_of_base_le (by decide : 1 < 10) (by omega : 10 ≤ n)
        unfold decimal at hdigits ⊢
        rw [hlong, hdigits]
        rfl

/-- What is left of a positive numeral after a cut is still a positive number,
and no larger, unless all of it is gone. -/
theorem decimalValue_cut {n : Nat} (hn : 0 < n) {front : Text} (hcut : front <+: decimal n)
    (hsome : front ≠ []) : 0 < decimalValue front ∧ decimalValue front ≤ n := by
  have hle := decimalValue_le_of_prefix hcut
  rw [decimalValue_decimal] at hle
  refine ⟨?_, hle⟩
  obtain ⟨c, digits, hdigits, hc⟩ := decimal_head hn
  cases front with
  | nil => contradiction
  | cons d rest =>
      rw [hdigits, List.cons_prefix_cons] at hcut
      rw [hcut.1, decimalValue_cons]
      have hpos : 0 < 10 ^ rest.length * (c.toNat - 48) :=
        Nat.mul_pos (by positivity) (by omega)
      omega

/-- `isspace` in the C locale. -/
def isSpace (c : Char) : Bool := c = ' ' || (9 ≤ c.toNat && c.toNat ≤ 13)

/-- The value of the digits in front of a text, and what follows them. -/
def scanDigits (t : Text) : Option (Nat × Text) :=
  let digits := t.takeWhile Char.isDigit
  if digits = [] then none else some (decimalValue digits, t.dropWhile Char.isDigit)

/-- What `%d` and `strtol` read: blanks, a sign, digits. -/
def scanInteger (t : Text) : Option (Int × Text) :=
  match t.dropWhile isSpace with
  | '-' :: rest => (scanDigits rest).map fun r => (-(r.1 : Int), r.2)
  | '+' :: rest => (scanDigits rest).map fun r => ((r.1 : Int), r.2)
  | rest => (scanDigits rest).map fun r => ((r.1 : Int), r.2)

/-- The text goes on with something else than a digit, or not at all. -/
def NoDigitNext (t : Text) : Prop := ∀ c ∈ t.head?, c.isDigit = false

/-- A number is read up to the first character that is no digit. -/
theorem scanDigits_append {t rest : Text} (hdigits : ∀ c ∈ t, c.isDigit) (hsome : t ≠ [])
    (hrest : NoDigitNext rest) : scanDigits (t ++ rest) = some (decimalValue t, rest) := by
  have hstop : rest.takeWhile Char.isDigit = [] ∧ rest.dropWhile Char.isDigit = rest := by
    cases rest with
    | nil => exact ⟨rfl, rfl⟩
    | cons c rest =>
        have hc : c.isDigit = false := hrest c rfl
        simp [hc]
  have htake : (t ++ rest).takeWhile Char.isDigit = t := by
    rw [List.takeWhile_append_of_pos hdigits, hstop.1, List.append_nil]
  have hdrop : (t ++ rest).dropWhile Char.isDigit = rest := by
    rw [List.dropWhile_append_of_pos hdigits, hstop.2]
  simp [scanDigits, htake, hdrop, hsome]

theorem digit_range {c : Char} (h : c.isDigit) : 48 ≤ c.toNat ∧ c.toNat ≤ 57 := by
  simp only [Char.isDigit, ge_iff_le, UInt32.le_iff_toNat_le, Bool.and_eq_true,
    decide_eq_true_eq] at h
  exact h

theorem isSpace_of_isDigit {c : Char} (h : c.isDigit) : isSpace c = false := by
  obtain ⟨hlow, -⟩ := digit_range h
  have hblank : c ≠ ' ' := by rintro rfl; exact absurd hlow (by decide)
  simp only [isSpace, Bool.or_eq_false_iff, decide_eq_false_iff_not, Bool.and_eq_false_iff]
  exact ⟨hblank, Or.inr (by omega)⟩

/-- Blanks in front of a number make no difference. -/
theorem scanInteger_blanks (blanks t : Text) (hblank : ∀ c ∈ blanks, isSpace c) :
    scanInteger (blanks ++ t) = scanInteger t := by
  simp only [scanInteger, List.dropWhile_append_of_pos hblank]

/-- A row of digits in front of something else is read as a number. -/
theorem scanInteger_append {t rest : Text} (hdigits : ∀ c ∈ t, c.isDigit) (hsome : t ≠ [])
    (hrest : NoDigitNext rest) : scanInteger (t ++ rest) = some ((decimalValue t : Int), rest) := by
  have hscan := scanDigits_append hdigits hsome hrest
  cases t with
  | nil => contradiction
  | cons c t =>
      have hc : c.isDigit := hdigits c (by simp)
      have hspace : isSpace c = false := isSpace_of_isDigit hc
      have hminus : c ≠ '-' := by rintro rfl; exact absurd hc (by decide)
      have hplus : c ≠ '+' := by rintro rfl; exact absurd hc (by decide)
      rw [List.cons_append] at hscan ⊢
      simp only [scanInteger, List.dropWhile_cons, hspace, Bool.false_eq_true, if_false]
      split
      · simp_all
      · simp_all
      · rw [hscan]; rfl

/-- An integer without a sign is read as the number it is. -/
theorem scanInteger_digits {t : Text} (hdigits : ∀ c ∈ t, c.isDigit) (hsome : t ≠ []) :
    scanInteger t = some ((decimalValue t : Int), []) := by
  have hscan : scanInteger (t ++ []) = some ((decimalValue t : Int), []) :=
    scanInteger_append hdigits hsome (by simp [NoDigitNext])
  rwa [List.append_nil] at hscan

/-! ## Searching -/

/-- `strrchr`: the text from the last occurrence of a byte on. -/
def strrchr (c : Char) : Text → Option Text
  | [] => none
  | x :: rest =>
      match strrchr c rest with
      | some found => some found
      | none => if x = c then some (x :: rest) else none

/-! ## Lines -/

/-- The lines of a file. -/
def lines (content : Text) : List Text := content.splitOn '\n'

theorem lines_newline (front back : Text) :
    lines (front ++ '\n' :: back) = lines front ++ lines back :=
  List.splitOn_append_cons_self front back

theorem lines_of_not_mem {t : Text} (h : '\n' ∉ t) : lines t = [t] :=
  List.splitOn_eq_singleton h

/-- A piece between separators is a contiguous part of the whole. -/
theorem infix_intercalate {sep piece : Text} {pieces : List Text} (h : piece ∈ pieces) :
    piece <:+: sep.intercalate pieces := by
  induction pieces with
  | nil => simp at h
  | cons first rest ih =>
      cases rest with
      | nil =>
          have hone : piece = first := by simpa using h
          simp [hone]
      | cons second others =>
          have hcat : sep.intercalate (first :: second :: others)
              = first ++ (sep ++ sep.intercalate (second :: others)) := by
            simp [List.intercalate, List.intersperse]
          rw [hcat]
          rcases List.mem_cons.mp h with rfl | hrest
          · exact (List.prefix_append _ _).isInfix
          · apply (ih hrest).trans
            rw [← List.append_assoc]
            exact (List.suffix_append _ _).isInfix

/-- Every line is a contiguous part of the file. -/
theorem infix_of_mem_lines {content line : Text} (h : line ∈ lines content) :
    line <:+: content := by
  have hwhole : List.intercalate ['\n'] (lines content) = content :=
    List.intercalate_splitOn '\n'
  exact hwhole ▸ infix_intercalate h

end ByteText

import PiFrame.ByteText

/-!
# What scanf reads

The conversions of `scanf` on a text.  `%d` and `%u` take blanks, a sign and
digits: such a row is a numeral, and a conversion that succeeds has read one.
`%s` takes blanks and a word.  A number that `printf` wrote with `%d` is a
numeral, so the two are inverse.
-/

namespace ByteText

/-! ## Numerals -/

/-- A row of bytes that a conversion to an integer accepts as a whole. -/
structure Numeral where
  blanks : Text
  sign : Text
  digits : Text
  blank : ∀ c ∈ blanks, isSpace c
  signed : sign = [] ∨ sign = ['+'] ∨ sign = ['-']
  numeric : ∀ c ∈ digits, c.isDigit
  nonempty : digits ≠ []

namespace Numeral

def text (n : Numeral) : Text := n.blanks ++ (n.sign ++ n.digits)

def value (n : Numeral) : Int :=
  if n.sign = ['-'] then -(decimalValue n.digits : Int) else decimalValue n.digits

/-- Digits and nothing else. -/
def Bare (n : Numeral) : Prop := n.blanks = [] ∧ n.sign = []

instance (n : Numeral) : Decidable n.Bare := inferInstanceAs (Decidable (_ ∧ _))

theorem Bare.text {n : Numeral} (h : n.Bare) : n.text = n.digits := by
  simp [Numeral.text, h.1, h.2]

theorem Bare.value {n : Numeral} (h : n.Bare) : n.value = decimalValue n.digits := by
  simp [Numeral.value, h.2]

end Numeral

/-- A text that starts with something else than a blank. -/
theorem dropWhile_nonblank {t : Text} (ht : ∀ c ∈ t.head?, isSpace c = false) :
    t.dropWhile isSpace = t := by
  cases t with
  | nil => rfl
  | cons c t =>
      have hc : isSpace c = false := ht c rfl
      simp [hc]

/-- Blanks in front of something else are dropped, and nothing more. -/
theorem dropWhile_blanks {blanks t : Text} (hblank : ∀ c ∈ blanks, isSpace c)
    (ht : ∀ c ∈ t.head?, isSpace c = false) : (blanks ++ t).dropWhile isSpace = t := by
  rw [List.dropWhile_append_of_pos hblank, dropWhile_nonblank ht]

/-- What is read as a number are all the digits up to the first other character. -/
theorem scanDigits_some {t rest : Text} {value : Nat} (h : scanDigits t = some (value, rest)) :
    ∃ digits, t = digits ++ rest ∧ (∀ c ∈ digits, c.isDigit) ∧ digits ≠ [] ∧
      decimalValue digits = value ∧ NoDigitNext rest := by
  simp only [scanDigits] at h
  split at h
  · cases h
  · rename_i hsome
    cases h
    refine ⟨t.takeWhile Char.isDigit, List.takeWhile_append_dropWhile.symm,
      fun c hc => List.mem_takeWhile_imp hc, hsome, rfl, ?_⟩
    intro c hc
    have hhead := List.head?_dropWhile_not Char.isDigit t
    rw [Option.mem_def] at hc
    rw [hc] at hhead
    simpa using hhead

/-- Reading a numeral gives its value, with its sign and whatever white space is in front of it. -/
theorem scanInteger_numeral (n : Numeral) {rest : Text} (hrest : NoDigitNext rest) :
    scanInteger (n.text ++ rest) = some (n.value, rest) := by
  have hdigits : scanDigits (n.digits ++ rest) = some (decimalValue n.digits, rest) :=
    scanDigits_append n.numeric n.nonempty hrest
  have hskip : ∀ t : Text, (∀ c ∈ t.head?, isSpace c = false) →
      (n.blanks ++ t).dropWhile isSpace = t := fun t => dropWhile_blanks n.blank
  rcases n.signed with hsign | hsign | hsign
  · have hplain := scanInteger_append n.numeric n.nonempty hrest
    have hhead : ∀ c ∈ (n.digits ++ rest).head?, isSpace c = false := by
      intro c hc
      rw [List.head?_append_of_ne_nil _ n.nonempty] at hc
      exact isSpace_of_isDigit (n.numeric c (List.mem_of_mem_head? hc))
    have hsame : scanInteger (n.text ++ rest) = scanInteger (n.digits ++ rest) := by
      simp only [scanInteger, Numeral.text, hsign, List.nil_append, List.append_assoc,
        hskip _ hhead, dropWhile_nonblank hhead]
    rw [hsame, hplain]
    simp [Numeral.value, hsign]
  · have hplus := hskip ('+' :: (n.digits ++ rest)) (by rintro c ⟨rfl⟩; decide)
    simp [scanInteger, Numeral.text, Numeral.value, hsign, hdigits, hplus]
  · have hminus := hskip ('-' :: (n.digits ++ rest)) (by rintro c ⟨rfl⟩; decide)
    simp [scanInteger, Numeral.text, Numeral.value, hsign, hdigits, hminus]

/-- A conversion that succeeds has read a numeral, and stops at the first character that is no
digit. -/
theorem exists_numeral {t rest : Text} {value : Int}
    (h : scanInteger t = some (value, rest)) :
    ∃ n : Numeral, t = n.text ++ rest ∧ n.value = value ∧ NoDigitNext rest := by
  have hsplit : t.takeWhile isSpace ++ t.dropWhile isSpace = t := List.takeWhile_append_dropWhile
  have hblank : ∀ c ∈ t.takeWhile isSpace, isSpace c := fun c hc => List.mem_takeWhile_imp hc
  simp only [scanInteger] at h
  split at h
  · rename_i tail htail
    obtain ⟨⟨v, r⟩, hdigits, heq⟩ := Option.map_eq_some_iff.mp h
    obtain ⟨digits, hcut, hnum, hsome, hval, hrest⟩ := scanDigits_some hdigits
    cases heq
    refine ⟨⟨t.takeWhile isSpace, ['-'], digits, hblank, by simp, hnum, hsome⟩, ?_, ?_, hrest⟩
    · calc t = t.takeWhile isSpace ++ t.dropWhile isSpace := hsplit.symm
        _ = _ := by simp [htail, hcut, Numeral.text]
    · simp [Numeral.value, hval]
  · rename_i tail htail
    obtain ⟨⟨v, r⟩, hdigits, heq⟩ := Option.map_eq_some_iff.mp h
    obtain ⟨digits, hcut, hnum, hsome, hval, hrest⟩ := scanDigits_some hdigits
    cases heq
    refine ⟨⟨t.takeWhile isSpace, ['+'], digits, hblank, by simp, hnum, hsome⟩, ?_, ?_, hrest⟩
    · calc t = t.takeWhile isSpace ++ t.dropWhile isSpace := hsplit.symm
        _ = _ := by simp [htail, hcut, Numeral.text]
    · simp [Numeral.value, hval]
  · obtain ⟨⟨v, r⟩, hdigits, heq⟩ := Option.map_eq_some_iff.mp h
    obtain ⟨digits, hcut, hnum, hsome, hval, hrest⟩ := scanDigits_some hdigits
    cases heq
    refine ⟨⟨t.takeWhile isSpace, [], digits, hblank, by simp, hnum, hsome⟩, ?_, ?_, hrest⟩
    · calc t = t.takeWhile isSpace ++ t.dropWhile isSpace := hsplit.symm
        _ = _ := by simp [hcut, Numeral.text]
    · simp [Numeral.value, hval]

/-- Two readings of one text are the same. -/
theorem numeral_unique {n m : Numeral} {rest other : Text} (hrest : NoDigitNext rest)
    (hother : NoDigitNext other) (heq : n.text ++ rest = m.text ++ other) :
    n.text = m.text ∧ n.value = m.value ∧ rest = other := by
  have hn := scanInteger_numeral n hrest
  rw [heq, scanInteger_numeral m hother, Option.some.injEq, Prod.mk.injEq] at hn
  obtain ⟨hvalue, rfl⟩ := hn
  exact ⟨List.append_cancel_right heq, hvalue.symm, rfl⟩

/-! ## Numbers as printf writes them -/

/-- What `%d` writes. -/
def signedDecimal (n : Int) : Text :=
  if n < 0 then '-' :: decimal n.natAbs else decimal n.natAbs

/-- The numeral of a number. -/
def Numeral.ofInt (n : Int) : Numeral where
  blanks := []
  sign := if n < 0 then ['-'] else []
  digits := decimal n.natAbs
  blank := by simp
  signed := by by_cases h : n < 0 <;> simp [h]
  numeric := fun _ hc => isDigit_of_mem_decimal hc
  nonempty := decimal_ne_nil _

/-- The numeral of an integer is how `%d` prints it. -/
theorem Numeral.ofInt_text (n : Int) : (Numeral.ofInt n).text = signedDecimal n := by
  by_cases h : n < 0 <;> simp [Numeral.text, Numeral.ofInt, signedDecimal, h]

theorem Numeral.ofInt_value (n : Int) : (Numeral.ofInt n).value = n := by
  have hdigits : decimalValue (decimal n.natAbs) = n.natAbs := decimalValue_decimal n.natAbs
  by_cases h : n < 0
  · simp only [Numeral.value, Numeral.ofInt, hdigits, if_pos h, if_true]
    omega
  · have hnosign : ([] : Text) ≠ ['-'] := by simp
    simp only [Numeral.value, Numeral.ofInt, hdigits, if_neg h, if_neg hnosign]
    omega

/-- A number that was written is read back. -/
theorem scanInteger_signedDecimal (n : Int) {rest : Text} (hrest : NoDigitNext rest) :
    scanInteger (signedDecimal n ++ rest) = some (n, rest) := by
  have hscan := scanInteger_numeral (Numeral.ofInt n) hrest
  rwa [Numeral.ofInt_text, Numeral.ofInt_value] at hscan

/-- A conversion consumes something. -/
theorem scanInteger_shorter {t rest : Text} {value : Int}
    (h : scanInteger t = some (value, rest)) : rest.length < t.length := by
  obtain ⟨n, rfl, -, -⟩ := exists_numeral h
  have hdigits : 0 < n.digits.length := List.length_pos_of_ne_nil n.nonempty
  simp only [Numeral.text, List.length_append]
  omega

/-- What `%d` stores: `strtol` stops at the largest and the least 64-bit number,
and the low half is kept. -/
def intOf (n : Int) : Int :=
  if n < -2 ^ 63 then 0
  else if 2 ^ 63 ≤ n then -1
  else (BitVec.ofInt 32 n).toInt

/-- A number that an `int` holds is stored as it is. -/
theorem intOf_of_fits {n : Int} (hlow : -2 ^ 31 ≤ n) (hhigh : n < 2 ^ 31) : intOf n = n := by
  rw [intOf, if_neg (by omega), if_neg (by omega), BitVec.toInt_ofInt,
    Int.bmod_eq_of_le (by omega) (by omega)]

/-! ## Words -/

/-- What `%s` reads: blanks and all that follows up to the next blank. -/
def scanWord (t : Text) : Option (Text × Text) :=
  let word := (t.dropWhile isSpace).takeWhile fun c => !isSpace c
  if word = [] then none
  else some (word, (t.dropWhile isSpace).dropWhile fun c => !isSpace c)

/-- A name that `%s` reads as one word. -/
def Solid (t : Text) : Prop := ∀ c ∈ t, isSpace c = false

instance (t : Text) : Decidable (Solid t) := inferInstanceAs (Decidable (∀ c ∈ t, _))

theorem scanWord_solid {t word rest : Text} (h : scanWord t = some (word, rest)) :
    Solid word := by
  simp only [scanWord] at h
  split at h
  · cases h
  · cases h
    intro c hc
    simpa using List.mem_takeWhile_imp hc

theorem scanWord_shorter {t word rest : Text} (h : scanWord t = some (word, rest)) :
    rest.length < t.length := by
  simp only [scanWord] at h
  split at h
  · cases h
  · rename_i hsome
    cases h
    have hlen : ∀ (l : Text), (l.takeWhile fun c => !isSpace c).length
        + (l.dropWhile fun c => !isSpace c).length = l.length := by
      intro l
      rw [← List.length_append, List.takeWhile_append_dropWhile]
    have hword := List.length_pos_of_ne_nil hsome
    have hskip : (t.dropWhile isSpace).length ≤ t.length := (List.dropWhile_suffix _).length_le
    have hsum := hlen (t.dropWhile isSpace)
    omega

/-- A word and a blank after it. -/
theorem scanWord_append {word rest : Text} {blank : Char} (hsolid : Solid word)
    (hsome : word ≠ []) (hblank : isSpace blank) :
    scanWord (word ++ blank :: rest) = some (word, blank :: rest) := by
  have hhead : (word ++ blank :: rest).dropWhile isSpace = word ++ blank :: rest := by
    refine dropWhile_nonblank fun c hc => ?_
    rw [List.head?_append_of_ne_nil _ hsome] at hc
    exact hsolid c (List.mem_of_mem_head? hc)
  have hkeep : ∀ c ∈ word, (!isSpace c) = true := fun c hc => by simp [hsolid c hc]
  simp [scanWord, hhead, List.takeWhile_append_of_pos hkeep, List.dropWhile_append_of_pos hkeep,
    hblank, hsome]

end ByteText

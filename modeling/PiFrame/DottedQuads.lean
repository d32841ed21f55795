import PiFrame.ConfigNetwork
import PiFrame.ScanText

/-!
# Which addresses pass the check

`PFU_isValidStrIPv4` leaves the grammar to `sscanf`: it accepts four numerals
with dots between them and whatever follows them.  A numeral may have blanks
and a sign in front, and `%u` wraps its value.  The check therefore accepts
every dotted quad, and besides them exactly the spellings called irregular
here.
-/

namespace DottedQuads

open ByteText ConfigNetwork

/-! ## Numerals between dots -/

/-- Numerals with dots between them, and what follows the last one. -/
def dottedText : List Numeral → Text → Text
  | [], rest => rest
  | [n], rest => n.text ++ rest
  | n :: m :: ns, rest => n.text ++ '.' :: dottedText (m :: ns) rest

theorem noDigitNext_dot (t : Text) : NoDigitNext ('.' :: t) := by
  rintro c ⟨rfl⟩
  decide

/-- `sscanf` stores the values of the numerals, as far as there are places for them. -/
theorem scanDotted_dottedText (ns : List Numeral) {rest : Text} (hrest : NoDigitNext rest) :
    scanDotted ns.length (dottedText ns rest) = ns.map fun n => unsignedOf n.value := by
  induction ns with
  | nil => rfl
  | cons n ns ih =>
      cases ns with
      | nil =>
          have hscan := scanInteger_numeral n hrest
          simp only [List.length_cons, List.length_nil, dottedText, scanDotted, hscan,
            List.map_cons, List.map_nil, List.cons.injEq, true_and]
          split <;> rfl
      | cons m ns =>
          have hscan := scanInteger_numeral n (noDigitNext_dot (dottedText (m :: ns) rest))
          rw [List.length_cons, dottedText, scanDotted, hscan]
          exact congrArg (unsignedOf n.value :: ·) ih

/-- When `sscanf` has filled all places, it has read a row of numerals. -/
theorem exists_dottedText (k : Nat) : ∀ {t : Text}, (scanDotted (k + 1) t).length = k + 1 →
    ∃ ns rest, ns.length = k + 1 ∧ NoDigitNext rest ∧ t = dottedText ns rest := by
  induction k with
  | zero =>
      intro t hlen
      rw [scanDotted] at hlen
      split at hlen
      · cases hlen
      · rename_i value rest hscan
        obtain ⟨n, rfl, -, hrest⟩ := exists_numeral hscan
        exact ⟨[n], rest, rfl, hrest, rfl⟩
  | succ k ih =>
      intro t hlen
      rw [scanDotted] at hlen
      split at hlen
      · cases hlen
      · rename_i value tail hscan
        obtain ⟨n, rfl, -, -⟩ := exists_numeral hscan
        split at hlen
        · rename_i tail
          rw [List.length_cons, Nat.add_right_cancel_iff] at hlen
          obtain ⟨ns, rest, hcount, hrest, rfl⟩ := ih hlen
          cases ns with
          | nil => cases hcount
          | cons m ns => exact ⟨n :: m :: ns, rest, by simp_all, hrest, rfl⟩
        · simp at hlen

/-- A text is in one way only a row of so many numerals: the first dot ends the first of them. -/
theorem dottedText_unique {ns : List Numeral} : ∀ {ms : List Numeral} {rest other : Text},
    ns.length = ms.length → ns ≠ [] → NoDigitNext rest → NoDigitNext other →
    dottedText ns rest = dottedText ms other →
    rest = other ∧ ∀ n ∈ ns, ∃ m ∈ ms, n.text = m.text ∧ n.value = m.value := by
  induction ns with
  | nil => intro ms rest other _ hne; contradiction
  | cons n ns ih =>
      intro ms rest other hlen _ hrest hother heq
      cases ms with
      | nil => cases hlen
      | cons m ms =>
          cases ns with
          | nil =>
              cases ms with
              | cons m' ms => cases hlen
              | nil =>
                  obtain ⟨htext, hvalue, hsame⟩ := numeral_unique hrest hother heq
                  refine ⟨hsame, fun k hk => ⟨m, by simp, ?_⟩⟩
                  rw [List.mem_singleton.mp hk]
                  exact ⟨htext, hvalue⟩
          | cons n' ns =>
              cases ms with
              | nil => cases hlen
              | cons m' ms =>
                  obtain ⟨htext, hvalue, htail⟩ :=
                    numeral_unique (noDigitNext_dot _) (noDigitNext_dot _) heq
                  have hcount : (n' :: ns).length = (m' :: ms).length := by simpa using hlen
                  obtain ⟨hsame, hall⟩ := ih hcount (by simp) hrest hother (List.cons.inj htail).2
                  refine ⟨hsame, fun k hk => ?_⟩
                  rcases List.mem_cons.mp hk with rfl | hlater
                  · exact ⟨m, by simp, htext, hvalue⟩
                  · obtain ⟨same, hmem, hread⟩ := hall k hlater
                    exact ⟨same, List.mem_cons_of_mem _ hmem, hread⟩

/-! ## Regular and irregular spellings -/

/-- A number between 0 and 255 in digits. -/
def Octet (n : Numeral) : Prop := n.Bare ∧ decimalValue n.digits ≤ 255

/-- Four numerals that `%u` stores as numbers up to 255, but with a blank or a
sign among them, a number that wraps, or bytes behind the last one. -/
def Irregular (t : Text) : Prop :=
  ∃ ns rest, ns.length = 4 ∧ NoDigitNext rest ∧ t = dottedText ns rest ∧
    (∀ n ∈ ns, unsignedOf n.value ≤ 255) ∧ ((∃ n ∈ ns, ¬Octet n) ∨ rest ≠ [])

/-- A numeral that is spelled like an octet and has its value is one. -/
theorem Octet.of_same {n m : Numeral} (hm : Octet m) (htext : n.text = m.text)
    (hvalue : n.value = m.value) : Octet n := by
  obtain ⟨hbare, hsmall⟩ := hm
  have hnumeric : ∀ c ∈ n.text, c.isDigit := by
    rw [htext, hbare.text]
    exact m.numeric
  have hblanks : n.blanks = [] := by
    apply List.eq_nil_iff_forall_not_mem.mpr
    intro c hc
    have hdigit := hnumeric c (List.mem_append_left _ hc)
    exact absurd (n.blank c hc) (by simp [isSpace_of_isDigit hdigit])
  have hsign : n.sign = [] := by
    have hdigits : ∀ c ∈ n.sign, c.isDigit := fun c hc =>
      hnumeric c (List.mem_append_right _ (List.mem_append_left _ hc))
    rcases n.signed with hsign | hsign | hsign
    · exact hsign
    · exact absurd (hdigits '+' (by simp [hsign])) (by decide)
    · exact absurd (hdigits '-' (by simp [hsign])) (by decide)
  have hn : n.Bare := ⟨hblanks, hsign⟩
  rw [hn.value, hbare.value] at hvalue
  exact ⟨hn, by omega⟩

/-- A dotted quad is four octets with dots between them. -/
theorem dottedQuad_iff (t : Text) :
    DottedQuad t ↔ ∃ ns, ns.length = 4 ∧ t = dottedText ns [] ∧ ∀ n ∈ ns, Octet n := by
  constructor
  · rintro ⟨a, b, c, d, rfl, hparts⟩
    have hoctet : ∀ part ∈ [a, b, c, d], ∃ n : Numeral, n.text = part ∧ Octet n := by
      intro part hp
      obtain ⟨hsome, hdigits, hsmall⟩ := hparts part hp
      exact ⟨⟨[], [], part, by simp, .inl rfl, hdigits, hsome⟩, rfl, ⟨rfl, rfl⟩, hsmall⟩
    obtain ⟨na, rfl, ha⟩ := hoctet a (by simp)
    obtain ⟨nb, rfl, hb⟩ := hoctet b (by simp)
    obtain ⟨nc, rfl, hc⟩ := hoctet c (by simp)
    obtain ⟨nd, rfl, hd⟩ := hoctet d (by simp)
    exact ⟨[na, nb, nc, nd], rfl, by simp [dottedText], by simp [ha, hb, hc, hd]⟩
  · rintro ⟨ns, hlen, rfl, hoctet⟩
    obtain ⟨a, b, c, d, rfl⟩ := List.length_eq_four.mp hlen
    simp only [List.forall_mem_cons] at hoctet
    obtain ⟨ha, hb, hc, hd, -⟩ := hoctet
    refine ⟨a.digits, b.digits, c.digits, d.digits, ?_, ?_⟩
    · simp [dottedText, ha.1.text, hb.1.text, hc.1.text, hd.1.text]
    · simp only [List.forall_mem_cons]
      exact ⟨⟨a.nonempty, a.numeric, ha.2⟩, ⟨b.nonempty, b.numeric, hb.2⟩,
        ⟨c.nonempty, c.numeric, hc.2⟩, ⟨d.nonempty, d.numeric, hd.2⟩, by simp⟩

/-- What the check accepts, as a grammar: four numbers of at most 255 with dots between them,
and anything behind them that does not begin with a digit. -/
theorem valid_iff (t : Text) :
    pfuIsValidStrIPv4 t = true ↔
      ∃ ns rest, ns.length = 4 ∧ NoDigitNext rest ∧ t = dottedText ns rest ∧
        ∀ n ∈ ns, unsignedOf n.value ≤ 255 := by
  constructor
  · intro hvalid
    simp only [pfuIsValidStrIPv4, Bool.and_eq_true, beq_iff_eq, List.all_eq_true,
      decide_eq_true_eq] at hvalid
    obtain ⟨hlen, hsmall⟩ := hvalid
    obtain ⟨ns, rest, hcount, hrest, rfl⟩ := exists_dottedText 3 hlen
    have hscan := scanDotted_dottedText ns hrest
    rw [hcount] at hscan
    rw [hscan] at hsmall
    exact ⟨ns, rest, hcount, hrest, rfl, fun n hn => hsmall _ (List.mem_map_of_mem hn)⟩
  · rintro ⟨ns, rest, hcount, hrest, rfl, hsmall⟩
    have hscan := scanDotted_dottedText ns hrest
    rw [hcount] at hscan
    simp only [pfuIsValidStrIPv4, hscan, Bool.and_eq_true, beq_iff_eq, List.length_map,
      List.all_map, List.all_eq_true, Function.comp_apply, decide_eq_true_eq]
    exact ⟨hcount, hsmall⟩

/-- An irregular spelling is no dotted quad. -/
theorem Irregular.not_dottedQuad {t : Text} (h : Irregular t) : ¬DottedQuad t := by
  obtain ⟨ns, rest, hcount, hrest, rfl, -, hodd⟩ := h
  intro hquad
  obtain ⟨ms, hlen, heq, hoctet⟩ := (dottedQuad_iff _).mp hquad
  have hsome : ns ≠ [] := by
    apply List.ne_nil_of_length_pos
    omega
  have hnil : NoDigitNext [] := by simp [NoDigitNext]
  obtain ⟨hend, hall⟩ := dottedText_unique (hcount.trans hlen.symm) hsome hrest hnil heq
  rcases hodd with ⟨n, hn, hbad⟩ | hrest
  · obtain ⟨m, hm, htext, hvalue⟩ := hall n hn
    exact hbad ((hoctet m hm).of_same htext hvalue)
  · exact hrest hend

/-- The check agrees with the notion of a dotted quad on all texts but the irregular ones. -/
theorem valid_iff_dottedQuad (t : Text) :
    (pfuIsValidStrIPv4 t = true ↔ DottedQuad t) ↔ ¬Irregular t := by
  constructor
  · intro hagree hodd
    have hquad : ¬DottedQuad t := hodd.not_dottedQuad
    obtain ⟨ns, rest, hcount, hrest, htext, hsmall, -⟩ := hodd
    exact hquad (hagree.mp ((valid_iff t).mpr ⟨ns, rest, hcount, hrest, htext, hsmall⟩))
  · intro hregular
    refine ⟨fun hvalid => ?_, fun hquad => hquad.valid⟩
    obtain ⟨ns, rest, hcount, hrest, htext, hsmall⟩ := (valid_iff t).mp hvalid
    have hnone : ¬((∃ n ∈ ns, ¬Octet n) ∨ rest ≠ []) := fun hodd =>
      hregular ⟨ns, rest, hcount, hrest, htext, hsmall, hodd⟩
    obtain ⟨hoctet, hend⟩ := not_or.mp hnone
    have hend : rest = [] := Decidable.not_not.mp hend
    subst hend
    refine (dottedQuad_iff t).mpr ⟨ns, hcount, htext, fun n hn => ?_⟩
    exact Classical.byContradiction fun hbad => hoctet ⟨n, hn, hbad⟩

/-- A port behind an address. -/
def addressWithPort : Text := "10.0.0.1:80".toList

/-- The check accepts an address with something behind it. -/
theorem valid_addressWithPort :
    ¬(pfuIsValidStrIPv4 addressWithPort = true ↔ DottedQuad addressWithPort) := by
  have hvalid : pfuIsValidStrIPv4 addressWithPort = true := by decide
  intro hagree
  obtain ⟨a, b, c, d, htext, hparts⟩ := hagree.mp hvalid
  have hcolon : ':' ∈ addressWithPort := by decide
  have hdigits : ∀ part ∈ [a, b, c, d], ':' ∉ part := fun part hp hc =>
    absurd ((hparts part hp).2.1 ':' hc) (by decide)
  rw [htext] at hcolon
  simp only [List.mem_append, List.mem_cons] at hcolon
  simp only [List.forall_mem_cons] at hdigits
  obtain ⟨ha, hb, hc, hd, -⟩ := hdigits
  simp_all

end DottedQuads

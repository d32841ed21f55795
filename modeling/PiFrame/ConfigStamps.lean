import Mathlib.Tactic.NormNum
import PiFrame.CJsonRoundTrip
import PiFrame.ConfigFiles

/-!
# What the script reads out of a saved file

The number that `pf-getConfig` finds in a file, for a file that
`json_saveFile` has written whole and for one that it has written in part.  A
part counts as a configuration only when the document in it is complete.
-/

namespace ConfigFiles

open ByteText CJson Limits

/-- `LastTime0` or `LastTime1` as a number. -/
def stamp (file : Option Text) : Option Int := shellInteger (lastTime file)

/-- A document that the service can write: a tree made by the writers, within
the size that `PFU_readWholeFile` takes. -/
structure Document where
  root : Node
  written : root.Written
  fits : (cJsonPrint root).length ≤ maxFileBufferSize

theorem fits_empty : (cJsonPrint (.object .nil)).length ≤ maxFileBufferSize := by decide

def Document.text (d : Document) : Text := cJsonPrint d.root

/-- The document has no `LastTime:` of its own. -/
def Document.Clean (d : Document) : Prop := ¬ "LastTime:".toList <:+: d.text

/-- A reading of the clock, `tv_sec`. -/
structure Clock where
  sec : Nat
  positive : 0 < sec
  bounded : sec < 2 ^ 63

theorem one_bounded : 1 < 2 ^ 63 := by decide

def Document.save (d : Document) (now : Clock) : Text := saveText d.root true now.sec

/-- A saved file is the document and a last line with the time. -/
theorem Document.save_eq (d : Document) (now : Clock) :
    d.save now = d.text ++ ('\n' :: ("LastTime:".toList ++ decimal now.sec)) :=
  rfl

/-- A document is read back from the front of a file. -/
theorem Document.parse (d : Document) (rest : Text) : cJsonParse (d.text ++ rest) = some d.root :=
  parse_print d.written true rest

theorem Document.text_ne_nil (d : Document) : d.text ≠ [] := by
  obtain ⟨c, rest, htext, -⟩ := printValue_head 0 true d.written
  intro hnil
  have hcons : d.text = c :: rest := htext
  rw [hnil] at hcons
  contradiction

/-! ## Numbers -/

theorem newline_not_mem_digits {digits : Text} (h : ∀ c ∈ digits, c.isDigit) : '\n' ∉ digits :=
  fun hmem => absurd (h _ hmem) (by decide)

theorem colon_not_mem_digits {digits : Text} (h : ∀ c ∈ digits, c.isDigit) : ':' ∉ digits :=
  fun hmem => absurd (h _ hmem) (by decide)

/-- The shell reads digits as the number they are, if a `long` holds it. -/
theorem shellInteger_digits {digits : Text} (h : ∀ c ∈ digits, c.isDigit) (hsome : digits ≠ [])
    (hbound : decimalValue digits < 2 ^ 63) :
    shellInteger digits = some (decimalValue digits : Int) := by
  simp only [shellInteger, scanInteger_digits h hsome, List.dropWhile_nil, true_and]
  rw [if_pos]
  constructor
  · have hnonneg : (0 : Int) ≤ decimalValue digits := Int.natCast_nonneg _
    exact le_trans (by norm_num) hnonneg
  · exact_mod_cast hbound

/-- A cut numeral reads as a positive number, not above the whole one. -/
theorem shellInteger_cut (now : Clock) {digits : Text} (hcut : digits <+: decimal now.sec)
    (hsome : digits ≠ []) : ∃ v : Int, shellInteger digits = some v ∧ 0 < v ∧ v ≤ now.sec := by
  have hdigits : ∀ c ∈ digits, c.isDigit := fun c hc =>
    isDigit_of_mem_decimal (hcut.subset hc)
  obtain ⟨hpos, hle⟩ := decimalValue_cut now.positive hcut hsome
  exact ⟨_, shellInteger_digits hdigits hsome (hle.trans_lt now.bounded), by exact_mod_cast hpos,
    by exact_mod_cast hle⟩

/-! ## Lines -/

/-- The substitution of one line of digits is that line. -/
theorem substitution_digits {digits : Text} (h : ∀ c ∈ digits, c.isDigit) :
    substitution [digits] = digits := by
  have hlast : ∀ hne : digits ≠ [], ¬ (digits.getLast hne == '\n') = true := by
    intro hne heq
    have hmem := List.getLast_mem hne
    rw [beq_iff_eq.mp heq] at hmem
    exact newline_not_mem_digits h hmem
  simp only [substitution, List.intercalate_singleton]
  exact List.rdropWhile_eq_self_iff.mpr hlast

/-- Behind the colon of a `LastTime:` line there are its digits. -/
theorem secondField_lastTime {digits : Text} (h : ∀ c ∈ digits, c.isDigit) :
    secondField ("LastTime:".toList ++ digits) = digits := by
  have hsplit : ("LastTime".toList ++ ':' :: digits).splitOn ':' = ["LastTime".toList, digits] := by
    rw [List.splitOn_append_cons_self_of_not_mem (by decide),
      List.splitOn_eq_singleton (colon_not_mem_digits h)]
  have hline : "LastTime:".toList ++ digits = "LastTime".toList ++ ':' :: digits := rfl
  rw [hline, secondField, hsplit]
  rfl

/-- A file without `LastTime:` counts as never saved. -/
theorem stamp_of_not_infix {content : Text} (h : ¬ "LastTime:".toList <:+: content) :
    stamp (some content) = some 0 := by
  have hgrep : grepLastTime content = [] := by
    apply List.filter_eq_nil_iff.mpr
    intro line hline hsub
    exact h ((of_decide_eq_true hsub).trans (infix_of_mem_lines hline))
  simp only [stamp, lastTime, hgrep]
  decide

/-- A file that is missing counts as one of second 0. -/
theorem stamp_none : stamp none = some 0 := by
  decide

/-- The script finds the line that was written behind the document, next to
whatever it finds in the document. -/
theorem grepLastTime_append (front : Text) {digits : Text} (h : ∀ c ∈ digits, c.isDigit) :
    grepLastTime (front ++ ('\n' :: ("LastTime:".toList ++ digits)))
      = grepLastTime front ++ ["LastTime:".toList ++ digits] := by
  have hline : '\n' ∉ "LastTime:".toList ++ digits := by
    rw [List.mem_append, not_or]
    exact ⟨by decide, newline_not_mem_digits h⟩
  unfold grepLastTime
  rw [lines_newline, lines_of_not_mem hline, List.filter_append]
  congr 1

/-- Of a saved file the script reads the digits behind the document, and 0 if they are cut off. -/
theorem lastTime_append {front : Text} (hclean : ¬ "LastTime:".toList <:+: front) {digits : Text}
    (h : ∀ c ∈ digits, c.isDigit) :
    lastTime (some (front ++ ('\n' :: ("LastTime:".toList ++ digits))))
      = if digits = [] then ['0'] else digits := by
  have hgrep : grepLastTime front = [] := by
    apply List.filter_eq_nil_iff.mpr
    intro line hline hsub
    exact hclean ((of_decide_eq_true hsub).trans (infix_of_mem_lines hline))
  simp only [lastTime, grepLastTime_append front h, hgrep, List.nil_append, List.map_cons,
    List.map_nil, secondField_lastTime h, substitution_digits h]

/-! ## Whole and cut files -/

/-- A save of a clean document leaves its second in the file. -/
theorem stamp_save {d : Document} (hd : d.Clean) (now : Clock) :
    stamp (some (d.save now)) = some (now.sec : Int) := by
  have hdigits : ∀ c ∈ decimal now.sec, c.isDigit := fun c hc => isDigit_of_mem_decimal hc
  rw [Document.save_eq, stamp, lastTime_append hd hdigits, if_neg (decimal_ne_nil _),
    shellInteger_digits hdigits (decimal_ne_nil _)
      (by rw [decimalValue_decimal]; exact now.bounded), decimalValue_decimal]

/-- A pattern without the separator lies on one side of it.  So `grep` looks at each line by
itself. -/
theorem infix_append_cons {pattern front back : Text} {c : Char} (hc : c ∉ pattern)
    (h : pattern <:+: front ++ c :: back) : pattern <:+: front ∨ pattern <:+: back := by
  obtain ⟨left, right, heq⟩ := h
  rw [List.append_assoc] at heq
  rcases List.append_eq_append_iff.mp heq with ⟨mid, hfront, hrest⟩ | ⟨mid, hleft, hrest⟩
  · left
    rcases List.append_eq_append_iff.mp hrest with ⟨mid', hmid, hright⟩ | ⟨mid', hpat, hright⟩
    · rw [hfront, hmid]
      exact ⟨left, mid', by simp⟩
    · cases mid' with
      | nil =>
          rw [hfront]
          exact ⟨left, [], by simp [hpat]⟩
      | cons x rest =>
          obtain ⟨rfl, -⟩ := List.cons.inj hright
          exact absurd (by rw [hpat]; simp) hc
  · cases mid with
    | nil =>
        left
        rw [List.nil_append] at hrest
        cases pattern with
        | nil => exact ⟨[], front, by simp⟩
        | cons x rest =>
            obtain ⟨rfl, -⟩ := List.cons.inj hrest
            exact absurd (by simp) hc
    | cons x rest =>
        right
        obtain ⟨-, hback⟩ := List.cons.inj hrest
        exact ⟨rest, right, by rw [hback]; simp⟩

/-- **Every cut.**  An initial part of a save is one that the script does not
count, or it has the whole document and some digits of the time. -/
theorem stamp_cut {d : Document} (hd : d.Clean) (now : Clock) (n : Nat) :
    stamp (some ((d.save now).take n)) = some 0 ∨
      (d.text.length ≤ n ∧
        ∃ v : Int, stamp (some ((d.save now).take n)) = some v ∧ 0 < v ∧ v ≤ now.sec) := by
  by_cases hshort : n ≤ d.text.length + 9
  · left
    apply stamp_of_not_infix
    intro hsub
    have hpart : (d.save now).take n <+: d.text ++ ('\n' :: "LastTime".toList) := by
      have hwhole : d.save now =
          (d.text ++ ('\n' :: "LastTime".toList)) ++ (':' :: decimal now.sec) := by
        rw [Document.save_eq]
        simp
      rw [hwhole, List.take_append_of_le_length (by simpa using hshort)]
      exact List.take_prefix _ _
    rcases infix_append_cons (by decide) (hsub.trans hpart.isInfix) with hdoc | hrest
    · exact hd hdoc
    · exact absurd hrest (by decide)
  · push Not at hshort
    have hdigits : ∀ c ∈ (decimal now.sec).take (n - (d.text.length + 10)), c.isDigit :=
      fun c hc => isDigit_of_mem_decimal (List.mem_of_mem_take hc)
    have htake : (d.save now).take n
        = d.text ++ ('\n' ::
          ("LastTime:".toList ++ (decimal now.sec).take (n - (d.text.length + 10)))) := by
      have hwhole : d.save now = (d.text ++ ('\n' :: "LastTime:".toList)) ++ decimal now.sec := by
        rw [Document.save_eq]
        simp
      have hlen : (d.text ++ ('\n' :: "LastTime:".toList)).length = d.text.length + 10 := by simp
      rw [hwhole, List.take_append, hlen, List.take_of_length_le (by rw [hlen]; omega)]
      simp
    rw [htake, stamp, lastTime_append hd hdigits]
    split
    · left
      decide
    · rename_i hsome
      exact Or.inr ⟨by omega, shellInteger_cut now (List.take_prefix _ _) hsome⟩

end ConfigFiles

import PiFrame.CJson

/-!
# The parser reads what the printer writes

`parse_print` covers every tree without numbers whose strings hold no NUL, in
both formats and in front of any further text.  The induction follows the three
chains of the tree; each kind of entry meets the separator that the printer puts
behind it.
-/

namespace CJson

open ByteText

/-! ## Strings -/

/-- The bytes of a C string. -/
def NulFree (t : Text) : Prop := ∀ c ∈ t, c ≠ '\x00'

instance (t : Text) : Decidable (NulFree t) :=
  inferInstanceAs (Decidable (∀ c ∈ t, c ≠ '\x00'))

/-- Every control byte but NUL comes back from its escape. -/
theorem parseHex4_hex4 (n : Nat) (hn : n < 32) (rest : Text) :
    parseHex4 (hex4 n ++ rest) = n := by
  have htake : (hex4 n ++ rest).take 4 = hex4 n := List.take_left' rfl
  have hall : ∀ m < 32, (hex4 m).mapM hexValue
      = some [0, 0, m / 16 % 16, m % 16] := by decide
  unfold parseHex4
  rw [htake, hall n hn]
  simp only
  omega

/-- The characters that a token has used up are passed over. -/
theorem unescape_step (token : Text) (k : Nat) (rest : Text) (hk : token.length = k) :
    unescape k (token ++ rest) = unescape 0 rest := by
  induction token generalizing k with
  | nil =>
      cases hk
      rfl
  | cons c token ih =>
      cases hk
      exact ih _ rfl

/-- A byte that stands for itself. -/
theorem unescape_plain {c : Char} (hquote : c ≠ '\x22') (hback : c ≠ '\x5c') (rest : Text) :
    unescape 0 (c :: rest) = (c :: (unescape 0 rest).1, (unescape 0 rest).2) := by
  rw [unescape] <;> simp_all

/-- The `u` escape of a control byte is read back as that byte, and the reading goes on behind
its four digits. -/
theorem unescape_control {n : Nat} (hpos : 0 < n) (hn : n < 32) (rest : Text) :
    unescape 0 ('\x5c' :: 'u' :: (hex4 n ++ rest))
      = (Char.ofNat n :: (unescape 0 rest).1, (unescape 0 rest).2) := by
  have hhex := parseHex4_hex4 n hn rest
  have hu : unicodeEscape (hex4 n ++ rest) = ([Char.ofNat n], 4) := by
    unfold unicodeEscape
    rw [hhex]
    have hsmall : n < 0x80 := by omega
    simp only [utf8, hsmall, if_true]
    rw [if_neg (by omega), if_neg (by omega)]
  rw [unescape]
  simp only [hu]
  have hpass := unescape_step ('u' :: hex4 n) 5 rest rfl
  rw [List.cons_append] at hpass
  rw [hpass]
  rfl

/-- One byte of a string and its printed form: the escape, whether of two characters or of six,
is read back as the one byte. -/
theorem unescape_escapeByte (c : Char) (hc : c ≠ '\x00') (rest : Text) :
    unescape 0 (escapeByte c ++ rest) = (c :: (unescape 0 rest).1, (unescape 0 rest).2) := by
  by_cases hesc : isEscaped c
  · rw [escapeByte, if_pos hesc]
    by_cases hspecial : c = '\x5c' ∨ c = '\x22' ∨ c = '\x08' ∨ c = '\x0c' ∨ c = '\x0a'
        ∨ c = '\x0d' ∨ c = '\x09'
    · rcases hspecial with rfl | rfl | rfl | rfl | rfl | rfl | rfl <;> rfl
    · push Not at hspecial
      obtain ⟨hback, hquote, hb, hf, hn, hr, ht⟩ := hspecial
      have htoken : escapeToken c = 'u' :: hex4 c.toNat := by
        unfold escapeToken
        split <;> simp_all
      have hlow : c.toNat < 32 := by
        simp only [isEscaped, hquote, hback, decide_false, Bool.or_false, decide_eq_true_eq] at hesc
        omega
      have hpos : 0 < c.toNat := by
        rcases Nat.eq_zero_or_pos c.toNat with hzero | hpos
        · exact absurd (Char.toNat_inj.mp hzero) hc
        · exact hpos
      rw [htoken]
      have hstep := unescape_control hpos hlow rest
      rw [Char.ofNat_toNat] at hstep
      exact hstep
  · have hplain : escapeByte c = [c] := by rw [escapeByte, if_neg hesc]
    rw [hplain]
    simp only [isEscaped, Bool.or_eq_true, decide_eq_true_eq, not_or] at hesc
    exact unescape_plain hesc.1.2 hesc.2 rest

/-- A string comes back from its printed form, in front of anything. -/
theorem unescape_escape {str : Text} (hstr : NulFree str) (rest : Text) :
    unescape 0 (escape str ++ '\x22' :: rest) = (str, rest) := by
  induction str with
  | nil => rfl
  | cons c str ih =>
      have htail : NulFree str := fun d hd => hstr d (by simp [hd])
      have hcat : escape (c :: str) ++ '\x22' :: rest
          = escapeByte c ++ (escape str ++ '\x22' :: rest) := by
        simp [escape]
      rw [hcat, unescape_escapeByte c (hstr c (by simp)), ih htail]

/-- A printed string is read back, whatever stands behind it. -/
theorem parseString_printString {str : Text} (hstr : NulFree str) (rest : Text) :
    parseString (printString str ++ rest) = some (str, rest) := by
  have hcat : printString str ++ rest = '\x22' :: (escape str ++ '\x22' :: rest) := by
    simp [printString]
  rw [hcat]
  simp [parseString, unescape_escape hstr]

/-! ## Separators -/

@[simp] theorem skip_cons_low {c : Char} (h : c.toNat ≤ 32) (t : Text) :
    skip (c :: t) = skip t := by
  simp [skip, h]

theorem skip_cons_high {c : Char} (h : 32 < c.toNat) (t : Text) : skip (c :: t) = c :: t := by
  simp [skip, Nat.not_le.mpr h]

theorem skip_append_low {front : Text} (h : ∀ c ∈ front, c.toNat ≤ 32) (t : Text) :
    skip (front ++ t) = skip t := by
  unfold skip
  exact List.dropWhile_append_of_pos (by simpa using h)

/-- What the formatted output adds is skipped. -/
theorem skip_blank (fmt : Bool) {front : Text} (h : ∀ c ∈ front, c.toNat ≤ 32) (t : Text) :
    skip (blank fmt front ++ t) = skip t := by
  cases fmt with
  | false => rfl
  | true => exact skip_append_low h t

theorem tabs_low (n : Nat) : ∀ c ∈ tabs n, c.toNat ≤ 32 := by
  intro c hc
  rw [List.eq_of_mem_replicate hc]
  decide

theorem newline_tabs_low (n : Nat) : ∀ c ∈ '\n' :: tabs n, c.toNat ≤ 32 := by
  intro c hc
  rcases List.mem_cons.mp hc with rfl | hc
  · decide
  · exact tabs_low n c hc

/-- A printed string starts with its quote, so nothing of it is skipped. -/
theorem skip_printString (str rest : Text) :
    skip (printString str ++ rest) = printString str ++ rest := by
  rw [printString, List.cons_append]
  exact skip_cons_high (by decide) _

/-! ## Trees -/

mutual

/-- Trees as the configuration writers build them: no numbers, and C strings. -/
def Node.Written : Node → Prop
  | .null | .false | .true => True
  | .number _ => False
  | .string valuestring => NulFree valuestring
  | .array child => child.Written
  | .object child => child.Written

def Items.Written : Items → Prop
  | .nil => True
  | .cons item next => item.Written ∧ next.Written

def Members.Written : Members → Prop
  | .nil => True
  | .cons string item next => NulFree string ∧ item.Written ∧ next.Written

end

mutual

/-- How deep the calls of the parser go. -/
def Node.size : Node → Nat
  | .array child => 1 + child.size
  | .object child => 1 + child.size
  | _ => 1

def Items.size : Items → Nat
  | .nil => 0
  | .cons item next => 1 + item.size + next.size

def Members.size : Members → Nat
  | .nil => 0
  | .cons _ item next => 1 + item.size + next.size

end

/-- A printed value starts with a visible byte that closes no array. -/
theorem printValue_head (depth : Nat) (fmt : Bool) {item : Node} (h : item.Written) :
    ∃ c rest, printValue depth fmt item = c :: rest ∧ 32 < c.toNat ∧ c ≠ ']' := by
  cases item with
  | null => exact ⟨'n', _, by rw [printValue]; rfl, by decide⟩
  | false => exact ⟨'f', _, by rw [printValue]; rfl, by decide⟩
  | true => exact ⟨'t', _, by rw [printValue]; rfl, by decide⟩
  | number literal => exact absurd h (by simp [Node.Written])
  | string valuestring => exact ⟨'\x22', _, by rw [printValue]; rfl, by decide⟩
  | array child => exact ⟨'[', _, by rw [printValue], by decide⟩
  | object child =>
      cases child with
      | nil => exact ⟨'\x7b', _, by rw [printValue], by decide⟩
      | cons string item next => exact ⟨'\x7b', _, by rw [printValue], by decide⟩

/-- A printed value starts with a printable character, so nothing of it is skipped. -/
theorem skip_printValue (depth : Nat) (fmt : Bool) {item : Node} (h : item.Written) (rest : Text) :
    skip (printValue depth fmt item ++ rest) = printValue depth fmt item ++ rest := by
  obtain ⟨c, tail, hprint, hc, -⟩ := printValue_head depth fmt h
  rw [hprint, List.cons_append]
  exact skip_cons_high hc _

/-- What the parser meets at the first entry of an array. -/
theorem printItems_head (depth : Nat) (fmt : Bool) {item : Node} {next : Items}
    (h : item.Written) (rest : Text) :
    ∃ c tail, printItems depth fmt (.cons item next) ++ rest = c :: tail ∧ 32 < c.toNat ∧
      c ≠ ']' := by
  obtain ⟨c, tail, hprint, hc, hclose⟩ := printValue_head depth fmt h
  cases next with
  | nil => exact ⟨c, tail ++ [']'] ++ rest, by simp [printItems, hprint], hc, hclose⟩
  | cons item' next => exact ⟨c, _, by simp [printItems, hprint]; rfl, hc, hclose⟩

/-- What the parser meets at an entry of an object. -/
theorem printMembers_head (depth : Nat) (fmt : Bool) (string : Text) (item : Node) (next : Members)
    (rest : Text) :
    ∃ tail, printMembers depth fmt (.cons string item next) ++ rest
        = blank fmt (tabs depth) ++ (printString string ++ (':' :: (blank fmt ['\t'] ++ tail)))
      ∧ tail = printValue depth fmt item ++ (match next with
          | .nil => blank fmt ('\n' :: tabs (depth - 1)) ++ ('\x7d' :: rest)
          | .cons string' item' next' =>
              ',' :: (blank fmt ['\n']
                ++ (printMembers depth fmt (.cons string' item' next') ++ rest))) := by
  cases next with
  | nil => exact ⟨_, by simp [printMembers], rfl⟩
  | cons string' item' next' => exact ⟨_, by simp [printMembers], rfl⟩

mutual

/-- **The round trip.**  Whatever follows a printed value, the parser finds the
value and stops there. -/
theorem parseValue_printValue (depth : Nat) (fmt : Bool) (rest : Text) (n : Nat) :
    (item : Node) → item.Written → item.size ≤ n →
      parseValue n (printValue depth fmt item ++ rest) = some (item, rest)
  | .null, _, hn => by
      obtain ⟨m, rfl⟩ : ∃ m, n = m + 1 := ⟨n - 1, by simp [Node.size] at hn; omega⟩
      rfl
  | .false, _, hn => by
      obtain ⟨m, rfl⟩ : ∃ m, n = m + 1 := ⟨n - 1, by simp [Node.size] at hn; omega⟩
      rfl
  | .true, _, hn => by
      obtain ⟨m, rfl⟩ : ∃ m, n = m + 1 := ⟨n - 1, by simp [Node.size] at hn; omega⟩
      rfl
  | .number _, h, _ => absurd h (by simp [Node.Written])
  | .string str, h, hn => by
      obtain ⟨m, rfl⟩ : ∃ m, n = m + 1 := ⟨n - 1, by simp [Node.size] at hn; omega⟩
      have hcat : printValue depth fmt (.string str) ++ rest
          = '\x22' :: (escape str ++ '\x22' :: rest) := by
        simp [printValue, printString]
      rw [Node.Written] at h
      rw [hcat]
      simp [parseValue, unescape_escape h, List.isPrefixOf]
  | .array .nil, _, hn => by
      obtain ⟨m, rfl⟩ : ∃ m, n = m + 1 := ⟨n - 1, by simp [Node.size] at hn; omega⟩
      simp [printValue, printItems, parseValue, List.isPrefixOf, skip_cons_high]
  | .array (.cons item next), h, hn => by
      obtain ⟨m, rfl⟩ : ∃ m, n = m + 1 := ⟨n - 1, by simp [Node.size] at hn; omega⟩
      rw [Node.Written] at h
      have hsize : (Items.cons item next).size ≤ m := by simp only [Node.size] at hn; omega
      have hitem : item.Written := by rw [Items.Written] at h; exact h.1
      have hentries := parseItems_printItems (depth + 1) fmt rest m
        (printItems (depth + 1) fmt (.cons item next) ++ rest) (.cons item next)
        (by simp) h hsize rfl
      obtain ⟨c, tail, htext, hc, hclose⟩ :=
        @printItems_head (depth + 1) fmt item next hitem rest
      rw [printValue, List.cons_append, htext]
      rw [htext] at hentries
      simp only [parseValue]
      rw [skip_cons_high hc]
      simp [hclose, hentries]
  | .object .nil, _, hn => by
      obtain ⟨m, rfl⟩ : ∃ m, n = m + 1 := ⟨n - 1, by simp [Node.size] at hn; omega⟩
      have hskip : skip (blank fmt ('\n' :: tabs (depth - 1)) ++ ('\x7d' :: rest))
          = '\x7d' :: rest := by
        rw [skip_blank fmt (newline_tabs_low _)]
        exact skip_cons_high (by decide) _
      simp [printValue, parseValue, List.isPrefixOf, hskip]
  | .object (.cons string item next), h, hn => by
      obtain ⟨m, rfl⟩ : ∃ m, n = m + 1 := ⟨n - 1, by simp [Node.size] at hn; omega⟩
      rw [Node.Written] at h
      have hsize : (Members.cons string item next).size ≤ m := by
        simp only [Node.size] at hn; omega
      obtain ⟨tail, htext, -⟩ := printMembers_head (depth + 1) fmt string item next rest
      have hskip : skip (blank fmt ['\n'] ++ (printMembers (depth + 1) fmt
            (.cons string item next) ++ rest))
          = printString string ++ (':' :: (blank fmt ['\t'] ++ tail)) := by
        rw [skip_blank fmt (by decide), htext, skip_blank fmt (tabs_low _), skip_printString]
      have hentries := parseMembers_printMembers (depth + 1) fmt rest m
        (printString string ++ (':' :: (blank fmt ['\t'] ++ tail))) (.cons string item next)
        (by simp) h hsize
        (by rw [htext, skip_blank fmt (tabs_low _)])
      rw [printValue, List.cons_append, List.append_assoc]
      simp only [parseValue]
      rw [hskip]
      rw [printString, List.cons_append] at hentries ⊢
      simp only [List.append_assoc, List.cons_append, List.nil_append] at hentries ⊢
      simp [hentries]

/-- The entries of an array, wherever the parser stands in front of them. -/
theorem parseItems_printItems (depth : Nat) (fmt : Bool) (rest : Text) (n : Nat) (value : Text) :
    (items : Items) → items ≠ .nil → items.Written → items.size ≤ n →
      skip value = skip (printItems depth fmt items ++ rest) →
      parseItems n value = some (items, rest)
  | .nil, hsome, _, _, _ => absurd rfl hsome
  | .cons item .nil, _, h, hn, hvalue => by
      rw [Items.Written] at h
      simp only [Items.size] at hn
      obtain ⟨m, rfl⟩ : ∃ m, n = m + 1 := ⟨n - 1, by omega⟩
      have htext : printItems depth fmt (.cons item .nil) ++ rest
          = printValue depth fmt item ++ (']' :: rest) := by
        simp [printItems]
      rw [htext, skip_printValue depth fmt h.1] at hvalue
      have hitem := parseValue_printValue depth fmt (']' :: rest) m item h.1 (by omega)
      simp [parseItems, hvalue, hitem, skip_cons_high]
  | .cons item (.cons item' next), _, h, hn, hvalue => by
      rw [Items.Written] at h
      rw [Items.size] at hn
      obtain ⟨m, rfl⟩ : ∃ m, n = m + 1 := ⟨n - 1, by omega⟩
      have htext : printItems depth fmt (.cons item (.cons item' next)) ++ rest
          = printValue depth fmt item ++ (',' :: (blank fmt [' ']
            ++ (printItems depth fmt (.cons item' next) ++ rest))) := by
        simp [printItems]
      rw [htext, skip_printValue depth fmt h.1] at hvalue
      have hitem := parseValue_printValue depth fmt (',' :: (blank fmt [' ']
        ++ (printItems depth fmt (.cons item' next) ++ rest))) m item h.1 (by omega)
      have hnext := parseItems_printItems depth fmt rest m
        (blank fmt [' '] ++ (printItems depth fmt (.cons item' next) ++ rest)) (.cons item' next)
        (by simp) h.2 (by omega) (skip_blank fmt (by decide) _)
      simp [parseItems, hvalue, hitem, skip_cons_high, hnext]

/-- The entries of an object, wherever the parser stands in front of them. -/
theorem parseMembers_printMembers (depth : Nat) (fmt : Bool) (rest : Text) (n : Nat)
    (value : Text) :
    (members : Members) → members ≠ .nil → members.Written → members.size ≤ n →
      skip value = skip (printMembers depth fmt members ++ rest) →
      parseMembers n value = some (members, rest)
  | .nil, hsome, _, _, _ => absurd rfl hsome
  | .cons string item next, _, h, hn, hvalue => by
      rw [Members.Written] at h
      rw [Members.size] at hn
      obtain ⟨m, rfl⟩ : ∃ m, n = m + 1 := ⟨n - 1, by omega⟩
      obtain ⟨tail, htext, htail⟩ := printMembers_head depth fmt string item next rest
      rw [htext, skip_blank fmt (tabs_low _), skip_printString] at hvalue
      have hname := parseString_printString h.1 (':' :: (blank fmt ['\t'] ++ tail))
      have hskip : skip (blank fmt ['\t'] ++ tail) = tail := by
        rw [skip_blank fmt (by decide), htail, skip_printValue depth fmt h.2.1]
      have hitem := fun behind =>
        parseValue_printValue depth fmt behind m item h.2.1 (by omega)
      rw [parseMembers, hvalue, hname]
      simp only [skip_cons_high (c := ':') (by decide), hskip]
      rw [htail, hitem]
      cases next with
      | nil =>
          have hclose : skip (blank fmt ('\n' :: tabs (depth - 1)) ++ ('\x7d' :: rest))
              = '\x7d' :: rest := by
            rw [skip_blank fmt (newline_tabs_low _)]
            exact skip_cons_high (by decide) _
          simp [hclose]
      | cons string' item' next' =>
          have hnext := parseMembers_printMembers depth fmt rest m
            (blank fmt ['\n'] ++ (printMembers depth fmt (.cons string' item' next') ++ rest))
            (.cons string' item' next') (by simp) h.2.2 (by omega) (skip_blank fmt (by decide) _)
          simp [skip_cons_high, hnext]

end

/-! ## Documents -/

mutual

/-- A printed value has at least as many characters as the item has parts, so its length is fuel
enough. -/
theorem size_le_length (depth : Nat) (fmt : Bool) :
    (item : Node) → item.Written → item.size ≤ (printValue depth fmt item).length
  | .null, _ => by simp [Node.size, printValue]
  | .false, _ => by simp [Node.size, printValue]
  | .true, _ => by simp [Node.size, printValue]
  | .number _, h => absurd h (by simp [Node.Written])
  | .string _, _ => by simp [Node.size, printValue, printString]
  | .array child, h => by
      have hchild := items_size_le_length (depth + 1) fmt child (by rwa [Node.Written] at h)
      simp only [Node.size, printValue, List.length_cons]
      omega
  | .object .nil, _ => by simp [Node.size, Members.size, printValue]
  | .object (.cons string item next), h => by
      have hchild := members_size_le_length (depth + 1) fmt (.cons string item next)
        (by rwa [Node.Written] at h)
      simp only [Node.size, printValue, List.length_cons, List.length_append]
      omega

theorem items_size_le_length (depth : Nat) (fmt : Bool) :
    (items : Items) → items.Written → items.size ≤ (printItems depth fmt items).length
  | .nil, _ => by simp [Items.size]
  | .cons item .nil, h => by
      rw [Items.Written] at h
      have hitem := size_le_length depth fmt item h.1
      simp only [Items.size, printItems, List.length_append, List.length_cons, List.length_nil]
      omega
  | .cons item (.cons item' next), h => by
      rw [Items.Written] at h
      have hitem := size_le_length depth fmt item h.1
      have hnext := items_size_le_length depth fmt (.cons item' next) h.2
      rw [Items.size, printItems]
      simp only [List.length_append, List.length_cons]
      omega

theorem members_size_le_length (depth : Nat) (fmt : Bool) :
    (members : Members) → members.Written →
      members.size ≤ (printMembers depth fmt members).length
  | .nil, _ => by simp [Members.size]
  | .cons string item .nil, h => by
      rw [Members.Written] at h
      have hitem := size_le_length depth fmt item h.2.1
      simp only [Members.size, printMembers, List.length_append, List.length_cons]
      omega
  | .cons string item (.cons string' item' next), h => by
      rw [Members.Written] at h
      have hitem := size_le_length depth fmt item h.2.1
      have hnext := members_size_le_length depth fmt (.cons string' item' next) h.2.2
      rw [Members.size, printMembers]
      simp only [List.length_append, List.length_cons]
      omega

end

/-- There is no NUL in a text if there is none in either half. -/
@[simp] theorem nulFree_append {front back : Text} :
    NulFree (front ++ back) ↔ NulFree front ∧ NulFree back :=
  List.forall_mem_append

/-- There is no NUL in a text if there is none at the front and none behind it. -/
@[simp] theorem nulFree_cons {c : Char} {rest : Text} :
    NulFree (c :: rest) ↔ c ≠ '\x00' ∧ NulFree rest :=
  List.forall_mem_cons

@[simp] theorem nulFree_nil : NulFree [] :=
  List.forall_mem_nil _

theorem nulFree_blank (fmt : Bool) {t : Text} (h : NulFree t) : NulFree (blank fmt t) := by
  cases fmt with
  | false => exact nulFree_nil
  | true => exact h

theorem nulFree_tabs (n : Nat) : NulFree (tabs n) := by
  intro c hc
  rw [List.eq_of_mem_replicate hc]
  decide

theorem nulFree_hex4 (n : Nat) : NulFree (hex4 n) := by
  have hdigit : ∀ m < 16, m.digitChar ≠ '\x00' := by decide
  simp only [hex4, nulFree_cons, nulFree_nil, and_true]
  exact ⟨hdigit _ (Nat.mod_lt _ (by decide)), hdigit _ (Nat.mod_lt _ (by decide)),
    hdigit _ (Nat.mod_lt _ (by decide)), hdigit _ (Nat.mod_lt _ (by decide))⟩

theorem nulFree_escapeByte {c : Char} (hc : c ≠ '\x00') : NulFree (escapeByte c) := by
  unfold escapeByte
  split
  · refine nulFree_cons.mpr ⟨by decide, ?_⟩
    unfold escapeToken
    split <;> simp [nulFree_hex4]
  · exact nulFree_cons.mpr ⟨hc, nulFree_nil⟩

theorem nulFree_escape {str : Text} (h : NulFree str) : NulFree (escape str) := by
  intro c hc
  obtain ⟨d, hd, hcd⟩ := List.mem_flatMap.mp hc
  exact nulFree_escapeByte (h d hd) c hcd

theorem nulFree_printString {str : Text} (h : NulFree str) : NulFree (printString str) := by
  simp [printString, nulFree_escape h]

mutual

/-- A printed value has no NUL, so a file that holds it ends where the text ends. -/
theorem nulFree_printValue (depth : Nat) (fmt : Bool) :
    (item : Node) → item.Written → NulFree (printValue depth fmt item)
  | .null, _ => by rw [printValue]; decide
  | .false, _ => by rw [printValue]; decide
  | .true, _ => by rw [printValue]; decide
  | .number _, h => absurd h (by simp [Node.Written])
  | .string str, h => by
      rw [Node.Written] at h
      rw [printValue]
      exact nulFree_printString h
  | .array child, h => by
      have hchild := nulFree_printItems (depth + 1) fmt child (by rwa [Node.Written] at h)
      simp [printValue, hchild]
  | .object .nil, _ => by
      simp [printValue, nulFree_blank, nulFree_tabs]
  | .object (.cons string item next), h => by
      have hchild := nulFree_printMembers (depth + 1) fmt (.cons string item next)
        (by rwa [Node.Written] at h)
      simp [printValue, hchild, nulFree_blank]

theorem nulFree_printItems (depth : Nat) (fmt : Bool) :
    (items : Items) → items.Written → NulFree (printItems depth fmt items)
  | .nil, _ => by simp [printItems]
  | .cons item .nil, h => by
      rw [Items.Written] at h
      simp [printItems, nulFree_printValue depth fmt item h.1]
  | .cons item (.cons item' next), h => by
      rw [Items.Written] at h
      simp [printItems, nulFree_printValue depth fmt item h.1, nulFree_blank,
        nulFree_printItems depth fmt (.cons item' next) h.2]

theorem nulFree_printMembers (depth : Nat) (fmt : Bool) :
    (members : Members) → members.Written → NulFree (printMembers depth fmt members)
  | .nil, _ => by simp [printMembers]
  | .cons string item .nil, h => by
      rw [Members.Written] at h
      simp [printMembers, nulFree_printString h.1, nulFree_printValue depth fmt item h.2.1,
        nulFree_blank, nulFree_tabs]
  | .cons string item (.cons string' item' next), h => by
      rw [Members.Written] at h
      simp [printMembers, nulFree_printString h.1, nulFree_printValue depth fmt item h.2.1,
        nulFree_blank, nulFree_tabs,
        nulFree_printMembers depth fmt (.cons string' item' next) h.2.2]

end

/-- A document is read back from the front of any text that starts with it. -/
theorem parse_print {item : Node} (h : item.Written) (fmt : Bool) (rest : Text) :
    cJsonParse (printValue 0 fmt item ++ rest) = some item := by
  have hnul : (printValue 0 fmt item ++ rest).takeWhile (· != '\x00')
      = printValue 0 fmt item ++ rest.takeWhile (· != '\x00') := by
    apply List.takeWhile_append_of_pos
    intro c hc
    simpa using nulFree_printValue 0 fmt item h c hc
  have hsize := size_le_length 0 fmt item h
  unfold cJsonParse
  simp only [hnul, skip_printValue 0 fmt h]
  rw [parseValue_printValue 0 fmt _ _ item h (by simp only [List.length_append]; omega)]
  rfl

end CJson

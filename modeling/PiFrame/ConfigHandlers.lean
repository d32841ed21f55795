import Mathlib.Data.List.TakeWhile
import PiFrame.CJsonRoundTrip

/-!
# The tables of configuration handlers

`config_read_iterate` and `config_write_iterate` over a table of named handlers,
and the helpers of `config-util.c` that the handlers use.  A reader takes a string
from the text that `cJSON_Print` makes of it, without the quotes, so what JSON
escapes stays escaped; `reread` is a string after one such trip through its array.

A handler that reads gives no result where it dereferences a null pointer or
writes past the end of an array.
-/

namespace CJson

open ByteText

/-! ## Strings in arrays -/

/-- What an array of `n` bytes holds: a string with its NUL. -/
@[ext]
structure CString (n : Nat) where
  text : Text
  nulFree : NulFree text
  fits : text.length < n

/-- The length of the shortest arrays: the device name and a prefix. -/
instance neZero_sixteen : NeZero 16 := ⟨by decide⟩

/-- A zeroed array. -/
def CString.empty (n : Nat) [NeZero n] : CString n :=
  ⟨[], by simp [NulFree], Nat.pos_of_neZero n⟩

/-- The string that starts at an address: the bytes up to the first NUL. -/
def cString (t : Text) : Text := t.takeWhile (· != '\x00')

/-- What is read up to the first NUL has no NUL in it, whatever the bytes behind are. -/
theorem nulFree_cString (t : Text) : NulFree (cString t) := by
  intro c hc
  simpa using List.mem_takeWhile_imp hc

/-- A text without a NUL is read as a whole, so the handlers see the value as it was printed. -/
theorem cString_of_nulFree {t : Text} (h : NulFree t) : cString t = t := by
  apply List.takeWhile_eq_self_iff.mpr
  intro c hc
  simpa using h c hc

/-- `strncpy (buf, value, sizeof(buf)-1)` into a zeroed array, or `snprintf (buf,
sizeof(buf), "%s", value)`. -/
def strncpy (n : Nat) [NeZero n] (value : Text) : CString n :=
  ⟨(cString value).take (n - 1), fun c hc => nulFree_cString value c (List.mem_of_mem_take hc), by
    have hpos := Nat.pos_of_neZero n
    rw [List.length_take]
    omega⟩

/-- `strcpy (buf, value)`, when it stays inside the array. -/
def strcpy (n : Nat) (value : Text) : Option (CString n) :=
  if h : (cString value).length < n then some ⟨cString value, nulFree_cString value, h⟩ else none

/-- A string that comes from an array of the same size is copied there without loss. -/
theorem strcpy_text {n : Nat} (s : CString n) : strcpy n s.text = some s := by
  simp [strcpy, cString_of_nulFree s.nulFree, s.fits]

/-! ## Items -/

/-- The named children of an item.  There is no result for the entries of an
array, whose missing names `strcmp` would be given. -/
def Node.child : Node → Option Members
  | .object child => some child
  | .array (.cons _ _) => none
  | _ => some .nil

def Members.items : Members → List Node
  | .nil => []
  | .cons _ item next => item :: next.items

/-- The children of an item in their order, named or not. -/
def Node.entries : Node → List Node
  | .array child => child.toList
  | .object child => child.items
  | _ => []

def Members.find (same : Text → Bool) : Members → Option Node
  | .nil => none
  | .cons string item next => if same string then some item else next.find same

/-- `cJSON_AddItemToObject`. -/
def Members.add (name : Text) (item : Node) : Members → Members
  | .nil => .cons name item .nil
  | .cons string first next => .cons string first (next.add name item)

/-- `cJSON_AddStringToObject`. -/
def Members.addString (name value : Text) (members : Members) : Members :=
  members.add name (.string value)

def lower (t : Text) : Text := t.map Char.toLower

/-- `cJSON_GetObjectItem`: the case of letters is ignored. -/
def cJsonGetObjectItem (object : Node) (string : Text) : Option (Option Node) :=
  object.child.map fun child => child.find fun name => lower name == lower string

/-- `json_getValue`. -/
def jsonGetValue (item : Node) : Text :=
  let jvalue := cJsonPrint item
  match item with
  | .string _ => (jvalue.drop 1).dropLast
  | _ => jvalue

/-- `json_getObject`. -/
def jsonGetObject (root : Node) (name : Text) : Option (Option Node) :=
  root.child.map fun child => child.find (· == name)

/-- `json_getValueSibling`. -/
def jsonGetValueSibling (root : Node) (name : Text) : Option (Option Text) :=
  (jsonGetObject root name).map fun item => item.map jsonGetValue

/-- `json_setConfigStringValue`. -/
def jsonSetConfigStringValue {n : Nat} [NeZero n] (node : Node) (name : Text) (buf : CString n) :
    Option (CString n) :=
  (jsonGetValueSibling node name).map fun jvalue =>
    match jvalue with
    | some jvalue => strncpy n jvalue
    | none => buf

/-! ## Tables -/

/-- One entry of a read table and of a write table. -/
structure ReadHandler (Config : Type*) where
  name : Text
  handler : Node → Config → Option Config

structure WriteHandler (Config : Type*) where
  name : Text
  handler : Members → Config → Members

variable {Config : Type*}

def configReadIterate (root : Node) : List (ReadHandler Config) → Config → Option Config
  | [], config => some config
  | entry :: tbl, config =>
      match jsonGetObject root entry.name with
      | none => none
      | some none => configReadIterate root tbl config
      | some (some curr) =>
          match entry.handler curr config with
          | none => none
          | some config => configReadIterate root tbl config

def configWriteIterate (root : Members) (tbl : List (WriteHandler Config)) (config : Config) :
    Members :=
  tbl.foldl (fun root curr => curr.handler root config) root

/-- A configuration that is written, printed, parsed and read into a zeroed one. -/
def roundTrip (rt : List (ReadHandler Config)) (wt : List (WriteHandler Config)) (blank : Config)
    (config : Config) : Option Config :=
  match cJsonParse (cJsonPrint (.object (configWriteIterate .nil wt config))) with
  | none => none
  | some root => configReadIterate root rt blank

/-- The trip `n` times over. -/
def roundTrips (rt : List (ReadHandler Config)) (wt : List (WriteHandler Config)) (blank : Config) :
    Nat → Config → Option Config
  | 0, config => some config
  | n + 1, config => (roundTrip rt wt blank config).bind (roundTrips rt wt blank n)

/-- For a written configuration the text in the middle drops out: a round trip is the read table
applied to the tree of the write table. -/
theorem roundTrip_eq {rt : List (ReadHandler Config)} {wt : List (WriteHandler Config)}
    {blank config : Config} (h : (Node.object (configWriteIterate .nil wt config)).Written) :
    roundTrip rt wt blank config
      = configReadIterate (.object (configWriteIterate .nil wt config)) rt blank := by
  have hparse := parse_print h true []
  rw [List.append_nil] at hparse
  rw [roundTrip, cJsonPrint, hparse]

/-- A configuration that comes back from one trip comes back from all. -/
theorem roundTrips_eq {rt : List (ReadHandler Config)} {wt : List (WriteHandler Config)}
    {blank config : Config} (h : roundTrip rt wt blank config = some config) (n : Nat) :
    roundTrips rt wt blank n config = some config := by
  induction n with
  | zero => rfl
  | succ n ih =>
      rw [roundTrips, h]
      exact ih

/-! ## A string that is written and read -/

/-- The quotes are taken off a printed string, but the escapes are not: what a handler gets is the
escaped text. -/
@[simp] theorem jsonGetValue_string (t : Text) : jsonGetValue (.string t) = escape t := by
  simp [jsonGetValue, cJsonPrint, printValue, printString]

/-- A string behind one trip through a document. -/
def CString.reread {n : Nat} [NeZero n] (s : CString n) : CString n := strncpy n (escape s.text)

/-- A string that JSON escapes nothing of. -/
def Plain (t : Text) : Prop := ∀ c ∈ t, isEscaped c = false

instance (t : Text) : Decidable (Plain t) :=
  inferInstanceAs (Decidable (∀ c ∈ t, isEscaped c = false))

/-- A text without a byte that is escaped is printed as it is, and so comes back as it was. -/
theorem escape_plain {t : Text} (h : Plain t) : escape t = t := by
  induction t with
  | nil => rfl
  | cons c rest ih =>
      have hc : isEscaped c = false := h c (by simp)
      have hrest : escape rest = rest := ih fun d hd => h d (by simp [hd])
      unfold escape at hrest ⊢
      rw [List.flatMap_cons, hrest, escapeByte, hc]
      rfl

/-- The strings that survive the trip: nothing is escaped, or the string fills its
array and is backslashes from the first escaped byte on. -/
def CString.Stable {n : Nat} (s : CString n) : Prop :=
  Plain s.text ∨ (s.text.length + 1 = n ∧
    ∃ front k, Plain front ∧ s.text = front ++ List.replicate k '\x5c')

/-- One escaped byte at the front is enough for a text not to be plain. -/
theorem not_plain_cons {c : Char} (h : isEscaped c = true) (t : Text) : ¬ Plain (c :: t) := by
  intro hplain
  have hc := hplain c (by simp)
  rw [h] at hc
  contradiction

/-- A byte that is not escaped makes no difference to whether the text behind it is plain. -/
theorem plain_cons {c : Char} (h : isEscaped c = false) (t : Text) : Plain (c :: t) ↔ Plain t := by
  constructor
  · exact fun hplain d hd => hplain d (by simp [hd])
  · intro hplain d hd
    rcases List.mem_cons.mp hd with rfl | hd
    · exact h
    · exact hplain d hd

/-- Texts are escaped byte by byte, which is the form the inductions over texts need. -/
theorem escape_cons (c : Char) (t : Text) : escape (c :: t) = escapeByte c ++ escape t :=
  List.flatMap_cons ..

/-- An escaped backslash is one backslash more. -/
theorem escape_backslash (j : Nat) (t : Text) :
    List.replicate j '\x5c' ++ escape ('\x5c' :: t) =
      List.replicate (j + 1 + 1) '\x5c' ++ escape t := by
  rw [escape_cons, List.replicate_succ', List.replicate_succ', List.append_assoc, List.append_assoc]
  rfl

/-- Behind a backslash too many only backslashes stay what they are. -/
theorem take_backslashes (j : Nat) {m : Nat} {t : Text} (hfits : t.length ≤ m) :
    (List.replicate (j + 1) '\x5c' ++ escape t).take m = t
      ↔ t.length = m ∧ t = List.replicate m '\x5c' := by
  induction t generalizing j m with
  | nil =>
      cases m with
      | zero => simp
      | succ m => simp [List.replicate_succ]
  | cons c rest ih =>
      obtain ⟨m, rfl⟩ : ∃ m', m = m' + 1 := ⟨m - 1, by simp only [List.length_cons] at hfits; omega⟩
      simp only [List.length_cons, Nat.add_le_add_iff_right] at hfits
      rw [List.replicate_succ, List.cons_append, List.take_succ_cons, List.cons.injEq,
        List.replicate_succ, List.cons.injEq]
      constructor
      · rintro ⟨rfl, hrest⟩
        rw [escape_backslash, ih (j + 1) hfits] at hrest
        exact ⟨by simp [hrest.1], rfl, hrest.2⟩
      · rintro ⟨hlen, rfl, hrest⟩
        rw [escape_backslash, ih (j + 1) hfits]
        exact ⟨rfl, by simpa using hlen, hrest⟩

/-- A text and what the array keeps of its escaped form.  They are the same if nothing is
escaped, or if the only bytes to be escaped are backslashes at the end of a text that fills the
array: of each pair the first half is kept. -/
theorem take_escape {m : Nat} {t : Text} (hfits : t.length ≤ m) :
    (escape t).take m = t ↔ Plain t ∨ (t.length = m ∧
      ∃ front k, Plain front ∧ t = front ++ List.replicate k '\x5c') := by
  induction t generalizing m with
  | nil => simp [escape, Plain]
  | cons c rest ih =>
      obtain ⟨m, rfl⟩ : ∃ m', m = m' + 1 := ⟨m - 1, by simp only [List.length_cons] at hfits; omega⟩
      simp only [List.length_cons, Nat.add_le_add_iff_right] at hfits
      cases hc : isEscaped c with
      | false =>
          have hescape : escape (c :: rest) = c :: escape rest := by
            rw [escape_cons, escapeByte, hc]
            rfl
          rw [hescape, List.take_succ_cons, List.cons.injEq, ih hfits, plain_cons hc]
          simp only [true_and, List.length_cons, Nat.add_right_cancel_iff]
          apply or_congr_right
          apply and_congr_right
          intro _
          constructor
          · rintro ⟨front, k, hfront, rfl⟩
            exact ⟨c :: front, k, (plain_cons hc front).mpr hfront, rfl⟩
          · rintro ⟨front, k, hfront, heq⟩
            cases front with
            | nil =>
                rw [List.nil_append] at heq
                have hback : c = '\x5c' := List.eq_of_mem_replicate (heq ▸ List.mem_cons_self)
                rw [hback] at hc
                exact absurd hc (by decide)
            | cons d front =>
                obtain ⟨rfl, hrest⟩ := List.cons.inj heq
                exact ⟨front, k, (plain_cons hc front).mp hfront, hrest⟩
      | true =>
          have hescape : escape (c :: rest) = '\x5c' :: (escapeToken c ++ escape rest) := by
            rw [escape_cons, escapeByte, hc]
            rfl
          rw [hescape, List.take_succ_cons, List.cons.injEq]
          constructor
          · rintro ⟨rfl, hrest⟩
            right
            have hall := (take_backslashes 0 hfits).mp hrest
            exact ⟨by simp [hall.1], [], m + 1, by simp [Plain], by rw [hall.2]; rfl⟩
          · rintro (hplain | ⟨hlen, front, k, hfront, heq⟩)
            · exact absurd hplain (not_plain_cons hc rest)
            · cases front with
              | cons d front =>
                  obtain ⟨rfl, -⟩ := List.cons.inj heq
                  exact absurd hfront (not_plain_cons hc front)
              | nil =>
                  rw [List.nil_append] at heq
                  cases k with
                  | zero => simp at heq
                  | succ k =>
                      obtain ⟨rfl, hrest⟩ := List.cons.inj heq
                      have hk : k = m := by
                        have hlen' := congrArg List.length hrest
                        simp only [List.length_replicate] at hlen'
                        simp only [List.length_cons] at hlen
                        omega
                      subst hk
                      exact ⟨rfl, (take_backslashes 0 hfits).mpr ⟨by simpa using hlen, hrest⟩⟩

/-- What comes back of a string after a save and a load: its escaped text, cut off at the end of
the array. -/
theorem CString.reread_text {n : Nat} [NeZero n] (s : CString n) :
    s.reread.text = (escape s.text).take (n - 1) := by
  have hcut : s.reread.text = (cString (escape s.text)).take (n - 1) := rfl
  rw [hcut, cString_of_nulFree (nulFree_escape s.nulFree)]

/-- **The exact strings.**  A string comes back from the trip if and only if it is
stable. -/
theorem CString.reread_eq_iff {n : Nat} [NeZero n] (s : CString n) : s.reread = s ↔ s.Stable := by
  have hpos := Nat.pos_of_neZero n
  have hfits := s.fits
  rw [CString.ext_iff, CString.reread_text, take_escape (by omega), CString.Stable]
  have hlen : s.text.length = n - 1 ↔ s.text.length + 1 = n := by omega
  rw [hlen]

/-- A zeroed array stays zeroed. -/
theorem CString.empty_reread (n : Nat) [NeZero n] : (CString.empty n).reread = CString.empty n :=
  (CString.reread_eq_iff _).mpr (Or.inl (by simp [Plain, CString.empty]))

/-! ## Trees that the handlers build -/

/-- An array of items that can be written can be written. -/
theorem written_ofList {items : List Node} (h : ∀ item ∈ items, item.Written) :
    (Items.ofList items).Written := by
  induction items with
  | nil => simp [Items.ofList, Items.Written]
  | cons item rest ih =>
      rw [Items.ofList, Items.Written]
      exact ⟨h item (by simp), ih fun x hx => h x (by simp [hx])⟩

/-- A member that can be written, under a name without a NUL, keeps an object one that can be
written. -/
theorem written_add {name : Text} {item : Node} {members : Members} (hname : NulFree name)
    (hitem : item.Written) (hmembers : members.Written) : (members.add name item).Written := by
  cases members with
  | nil => simp [Members.add, Members.Written, *]
  | cons string first next =>
      rw [Members.Written] at hmembers
      rw [Members.add, Members.Written]
      exact ⟨hmembers.1, hmembers.2.1, written_add hname hitem hmembers.2.2⟩

/-- A string out of an array of the configuration has no NUL in it, so the object stays one that
can be written. -/
theorem written_addString {n : Nat} {name : Text} (s : CString n) {members : Members}
    (hname : NulFree name) (hmembers : members.Written) :
    (members.addString name s.text).Written :=
  written_add hname s.nulFree hmembers

end CJson

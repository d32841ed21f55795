import Mathlib.Algebra.BigOperators.Group.List.Basic
import Mathlib.Algebra.Order.Ring.Nat
import Mathlib.Data.List.GetD
import Mathlib.Data.List.TakeWhile

/-!
# Records in memory

A record has its fields one behind the other in a memory that is zero past what
was ever stored.  A store goes to a byte of a field by its index, whether or not
the field reaches that far, and is kept in a list.

A row is what one call of `strcpy`, `strncpy` or `snprintf` stores.  What a run of
rows leaves in a field depends only on the rows that reach into it, and a row
goes upwards: it never reaches into a field that lies below its own.
-/

namespace RecordMemory

/-- The byte that ends a string. -/
abbrev nul : Char := '\x00'

/-! ## Bytes and strings -/

def byteAt (memory : List Char) (a : Nat) : Char := memory.getD a nul

/-- `memory[a] = c`. -/
def put (memory : List Char) (a : Nat) (c : Char) : List Char :=
  if a < memory.length then memory.set a c
  else memory ++ (List.replicate (a - memory.length) nul ++ [c])

/-- The bytes of a text are stored one behind the other. -/
def putAll (memory : List Char) (a : Nat) : List Char → List Char
  | [] => memory
  | c :: text => putAll (put memory a c) (a + 1) text

/-- The string that starts at an address. -/
def stringAt (memory : List Char) (a : Nat) : List Char :=
  (memory.drop a).takeWhile (· != nul)

section

variable {memory other text : List Char} {a b n : Nat} {c : Char}

/-- Behind what was ever stored the memory is zero. -/
theorem byteAt_of_le (h : text.length ≤ n) : byteAt text n = nul := by
  rw [byteAt, List.getD_eq_getElem?_getD, List.getElem?_eq_none h]
  rfl

/-- A byte inside a text is one of the text, so a text without a NUL reads as no NUL there. -/
theorem byteAt_mem (h : n < text.length) : byteAt text n ∈ text := by
  rw [byteAt, List.getD_eq_getElem _ _ h]
  exact List.getElem_mem h

/-- In front of the seam two texts read as the first one. -/
theorem byteAt_append_left (h : n < text.length) : byteAt (text ++ other) n = byteAt text n :=
  List.getD_append _ _ _ _ h

/-- Behind the seam two texts read as the second one. -/
theorem byteAt_append_right (h : text.length ≤ n) :
    byteAt (text ++ other) n = byteAt other (n - text.length) :=
  List.getD_append_right _ _ _ _ h

theorem byteAt_take (h : a < n) : byteAt (text.take n) a = byteAt text a := by
  rw [byteAt, byteAt, List.getD_eq_getElem?_getD, List.getD_eq_getElem?_getD,
    List.getElem?_take_of_lt h]

theorem byteAt_drop : byteAt (text.drop n) a = byteAt text (n + a) := by
  rw [byteAt, byteAt, List.getD_eq_getElem?_getD, List.getD_eq_getElem?_getD, List.getElem?_drop]

/-- A NUL at the end of a text makes no difference to any of its bytes. -/
theorem byteAt_append_nul : byteAt (text ++ [nul]) n = byteAt text n := by
  rcases Nat.lt_or_ge n text.length with h | h
  · exact byteAt_append_left h
  · rw [byteAt_append_right h, byteAt_of_le h]
    cases n - text.length <;> rfl

theorem byteAt_zeros : byteAt (List.replicate n nul) a = nul := by
  rcases Nat.lt_or_ge a n with h | h
  · exact List.eq_of_mem_replicate (byteAt_mem (by simpa using h))
  · exact byteAt_of_le (by simpa using h)

/-- **One byte.**  A store changes the byte that it goes to, and no other.  Memory that was not
there yet reads as zero. -/
theorem byteAt_put : byteAt (put memory a c) b = if b = a then c else byteAt memory b := by
  rw [put]
  by_cases hin : a < memory.length
  · rw [if_pos hin]
    by_cases hb : b = a
    · subst hb
      simp [byteAt, hin]
    · have hba : a ≠ b := fun h => hb h.symm
      simp [byteAt, hb, List.getElem?_set_ne hba]
  · rw [if_neg hin]
    rcases Nat.lt_or_ge b memory.length with hb | hb
    · have hne : b ≠ a := by omega
      rw [byteAt_append_left hb, if_neg hne]
    · rw [byteAt_append_right hb]
      by_cases hzero : b < a
      · have hne : b ≠ a := by omega
        rw [byteAt_append_left (by simp; omega), byteAt_zeros, if_neg hne, byteAt_of_le hb]
      · rw [byteAt_append_right (by simp; omega), List.length_replicate]
        by_cases hba : b = a
        · have hsub : b - memory.length - (a - memory.length) = 0 := by omega
          rw [if_pos hba, hsub]
          rfl
        · rw [if_neg hba, byteAt_of_le hb, byteAt_of_le (by simp; omega)]

/-- **A text.**  Its bytes are read back where they were stored, and all others are as before. -/
theorem byteAt_putAll : byteAt (putAll memory a text) b =
    if a ≤ b ∧ b < a + text.length then byteAt text (b - a) else byteAt memory b := by
  induction text generalizing memory a with
  | nil =>
      have hout : ¬ (a ≤ b ∧ b < a + ([] : List Char).length) := by simp
      rw [if_neg hout]
      rfl
  | cons c text ih =>
      rw [putAll, ih, byteAt_put, List.length_cons]
      by_cases hba : b = a
      · subst hba
        have hout : ¬ (b + 1 ≤ b ∧ b < b + 1 + text.length) := by omega
        have hin : b ≤ b ∧ b < b + (text.length + 1) := by omega
        rw [if_neg hout, if_pos hin, if_pos rfl, Nat.sub_self]
        rfl
      · by_cases hin : a + 1 ≤ b ∧ b < a + 1 + text.length
        · have hin' : a ≤ b ∧ b < a + (text.length + 1) := by omega
          have hsub : b - a = b - (a + 1) + 1 := by omega
          rw [if_pos hin, if_pos hin', hsub]
          rfl
        · have hin' : ¬ (a ≤ b ∧ b < a + (text.length + 1)) := by omega
          rw [if_neg hin, if_neg hin', if_neg hba]

theorem stringAt_of_nul (h : byteAt memory a = nul) : stringAt memory a = [] := by
  rw [stringAt]
  rcases Nat.lt_or_ge a memory.length with ha | ha
  · rw [byteAt, List.getD_eq_getElem _ _ ha] at h
    rw [List.drop_eq_getElem_cons ha, h]
    rfl
  · rw [List.drop_eq_nil_of_le ha]
    rfl

/-- A string that does not start at a NUL goes on behind its first byte. -/
theorem stringAt_of_ne (h : byteAt memory a ≠ nul) :
    stringAt memory a = byteAt memory a :: stringAt memory (a + 1) := by
  rcases Nat.lt_or_ge a memory.length with ha | ha
  · rw [byteAt, List.getD_eq_getElem _ _ ha] at h ⊢
    rw [stringAt, List.drop_eq_getElem_cons ha, List.takeWhile_cons_of_pos (by simpa using h)]
    rfl
  · exact absurd (byteAt_of_le ha) h

/-- A string that is read from memory has no NUL in it. -/
theorem nul_notMem_stringAt : nul ∉ stringAt memory a := by
  intro h
  have hne := List.mem_takeWhile_imp h
  simp at hne

/-- A row of bytes that are not NUL, and the string behind it, are one string. -/
theorem stringAt_append (htext : nul ∉ text)
    (h : ∀ i < text.length, byteAt memory (a + i) = byteAt text i) :
    stringAt memory a = text ++ stringAt memory (a + text.length) := by
  induction text generalizing a with
  | nil => rfl
  | cons c text ih =>
      have hfirst : byteAt memory a = c := h 0 (by simp)
      have hc : byteAt memory a ≠ nul := by
        rw [hfirst]
        exact fun heq => htext (by simp [heq])
      have hrest := ih (a := a + 1) (fun hmem => htext (List.mem_cons_of_mem _ hmem))
        fun i hi => by
          have hnext := h (i + 1) (by simpa using hi)
          rw [show a + 1 + i = a + (i + 1) by omega, hnext]
          rfl
      rw [stringAt_of_ne hc, hrest, hfirst, List.length_cons,
        show a + 1 + text.length = a + (text.length + 1) by omega]
      rfl

/-- Each byte of the string, its NUL included, is a byte of the memory from its start on. -/
theorem byteAt_stringAt {i : Nat} (hi : i ≤ (stringAt memory a).length) :
    byteAt memory (a + i) = byteAt (stringAt memory a) i := by
  induction i generalizing a with
  | zero =>
      by_cases hzero : byteAt memory a = nul
      · rw [stringAt_of_nul hzero]
        exact hzero
      · rw [stringAt_of_ne hzero]
        rfl
  | succ i ih =>
      by_cases hzero : byteAt memory a = nul
      · rw [stringAt_of_nul hzero] at hi
        simp at hi
      · rw [stringAt_of_ne hzero] at hi ⊢
        rw [List.length_cons, Nat.add_le_add_iff_right] at hi
        have hnext := ih (a := a + 1) hi
        rw [show a + 1 + i = a + (i + 1) by omega] at hnext
        rw [hnext]
        rfl

/-- What it is for a text to be the string at an address: it has no NUL, and its bytes and the NUL
behind it are there. -/
theorem stringAt_eq_iff : stringAt memory a = text ↔
    nul ∉ text ∧ ∀ i ≤ text.length, byteAt memory (a + i) = byteAt text i := by
  constructor
  · rintro rfl
    exact ⟨nul_notMem_stringAt, fun i hi => byteAt_stringAt hi⟩
  · intro ⟨htext, hbytes⟩
    have hend : byteAt memory (a + text.length) = nul := by
      rw [hbytes _ le_rfl, byteAt_of_le le_rfl]
    rw [stringAt_append htext fun i hi => hbytes i (by omega), stringAt_of_nul hend,
      List.append_nil]

/-- A NUL that is stored inside a string cuts the string in front of it, and what is behind it
is no longer read. -/
theorem stringAt_put_nul : stringAt (put memory (a + n) nul) a = (stringAt memory a).take n := by
  refine stringAt_eq_iff.mpr ⟨fun h => nul_notMem_stringAt (List.mem_of_mem_take h), ?_⟩
  intro i hi
  rw [List.length_take] at hi
  rw [byteAt_put]
  by_cases hin : i = n
  · subst hin
    rw [if_pos rfl, byteAt_of_le (by rw [List.length_take]; omega)]
  · rw [if_neg (by omega), byteAt_stringAt (by omega)]
    rcases Nat.lt_or_ge i (stringAt memory a).length with hlt | hge
    · rw [byteAt_take (by omega)]
    · rw [byteAt_of_le hge, byteAt_of_le (by rw [List.length_take]; omega)]

/-- A NUL bounds the length of a string. -/
theorem length_stringAt_le (h : byteAt memory (a + n) = nul) : (stringAt memory a).length ≤ n := by
  by_contra hlong
  have hmem := byteAt_mem (not_le.mp hlong)
  rw [← byteAt_stringAt (not_le.mp hlong).le, h] at hmem
  exact nul_notMem_stringAt hmem

/-- A string depends on its own bytes and on the NUL that ends it only. -/
theorem stringAt_congr
    (h : ∀ i ≤ (stringAt memory a).length, byteAt other (a + i) = byteAt memory (a + i)) :
    stringAt other a = stringAt memory a :=
  stringAt_eq_iff.mpr ⟨nul_notMem_stringAt, fun i hi => by rw [h i hi, byteAt_stringAt hi]⟩

end

/-! ## Layouts -/

/-- The fields of a record in their order, without gaps between them. -/
class Layout (Field : Type*) [DecidableEq Field] where
  fields : List Field
  size : Field → Nat
  complete : ∀ f, f ∈ fields

variable {Field : Type*} [DecidableEq Field] [Layout Field]

open Layout (size)

/-- The place of a field among the others. -/
def rank (f : Field) : Nat := (Layout.fields : List Field).idxOf f

def offset (f : Field) : Nat := (((Layout.fields : List Field).take (rank f)).map size).sum

/-- Fields with the same place are the same field. -/
theorem eq_of_rank_eq {f g : Field} (h : rank f = rank g) : f = g :=
  (List.idxOf_inj (Layout.complete f)).mp h

/-- A field ends before the fields behind it begin.  The fields are laid out one after the other
in the order of their ranks. -/
theorem offset_add_size_le {f g : Field} (h : rank f < rank g) : offset f + size f ≤ offset g := by
  have hlt : rank f < (Layout.fields : List Field).length :=
    List.idxOf_lt_length_of_mem (Layout.complete f)
  have hget : (Layout.fields : List Field)[rank f] = f := List.getElem_idxOf hlt
  have hsplit : (Layout.fields : List Field).take (rank g)
      = Layout.fields.take (rank f) ++ (f :: (Layout.fields.take (rank g)).drop (rank f + 1)) := by
    have htake := List.take_append_drop (rank f + 1) ((Layout.fields : List Field).take (rank g))
    rw [List.take_take, Nat.min_eq_left (by omega), List.take_succ_eq_append_getElem hlt,
      hget, List.append_assoc] at htake
    exact htake.symm
  calc offset f + size f
      ≤ offset f + (size f
        + ((((Layout.fields : List Field).take (rank g)).drop (rank f + 1)).map size).sum) := by
        omega
    _ = (((Layout.fields : List Field).take (rank g)).map size).sum := by
        conv_rhs => rw [hsplit]
        rw [List.map_append, List.sum_append, List.map_cons, List.sum_cons]
        rfl
    _ = offset g := rfl

/-- Two fields have no byte in common, since one of them lies behind the other. -/
theorem fields_apart {f g : Field} (h : f ≠ g) :
    offset f + size f ≤ offset g ∨ offset g + size g ≤ offset f := by
  rcases Nat.lt_trichotomy (rank f) (rank g) with hlt | heq | hgt
  · exact Or.inl (offset_add_size_le hlt)
  · exact absurd (eq_of_rank_eq heq) h
  · exact Or.inr (offset_add_size_le hgt)

/-! ## Rows of stores -/

/-- Stores into a field from one of its bytes on. -/
structure Row (Field : Type*) where
  field : Field
  start : Nat
  text : List Char
  deriving DecidableEq

/-- `strcpy`. -/
def strcpy (f : Field) (value : List Char) : Row Field := ⟨f, 0, value ++ [nul]⟩

/-- `strncpy`, which fills up with NULs. -/
def strncpy (f : Field) (value : List Char) (n : Nat) : Row Field :=
  ⟨f, 0, (value ++ List.replicate n nul).take n⟩

/-- `snprintf` with the format `%s`. -/
def snprintf (f : Field) (n : Nat) (value : List Char) : Row Field :=
  ⟨f, 0, value.take (n - 1) ++ [nul]⟩

/-- `field[i] = '\0'`. -/
def terminate (f : Field) (i : Nat) : Row Field := ⟨f, i, [nul]⟩

/-- The memory, and the bytes of fields that were stored to. -/
structure Record (Field : Type*) where
  bytes : List Char
  stores : List (Field × Nat)

def Record.run (r : Record Field) (w : Row Field) : Record Field where
  bytes := putAll r.bytes (offset w.field + w.start) w.text
  stores := r.stores ++ (List.range w.text.length).map fun i => (w.field, w.start + i)

def Record.runs (r : Record Field) (ws : List (Row Field)) : Record Field :=
  ws.foldl Record.run r

/-- The string in a field. -/
def Record.string (r : Record Field) (f : Field) : List Char := stringAt r.bytes (offset f)

/-- The string in a field ends inside the field. -/
def Record.Terminated (r : Record Field) (f : Field) : Prop := (r.string f).length < size f

/-- All stores were inside their fields. -/
def Record.Inside (r : Record Field) : Prop := ∀ s ∈ r.stores, s.2 < size s.1

/-- The last byte of a field is a NUL, which ends whatever string is in the field. -/
def Record.Sealed (r : Record Field) (f : Field) : Prop :=
  byteAt r.bytes (offset f + (size f - 1)) = nul

/-- A field holds what it held. -/
def Record.Keeps (r r' : Record Field) (f : Field) : Prop :=
  ∀ i < size f, byteAt r'.bytes (offset f + i) = byteAt r.bytes (offset f + i)

/-- The row stores inside its field. -/
def Row.Fits (w : Row Field) : Prop := ∀ i < w.text.length, w.start + i < size w.field

/-- The row leaves the last byte of its field alone or stores a NUL there. -/
def Row.Seals (w : Row Field) : Prop :=
  w.start + w.text.length = size w.field → byteAt w.text (w.text.length - 1) = nul

/-- The row stores to an address. -/
def Row.Reaches (w : Row Field) (a : Nat) : Prop :=
  offset w.field + w.start ≤ a ∧ a < offset w.field + w.start + w.text.length

section

variable {r : Record Field} {f : Field} {w : Row Field} {ws : List (Row Field)} {a : Nat}

@[simp] theorem runs_nil : r.runs [] = r := rfl

@[simp] theorem runs_cons : r.runs (w :: ws) = (r.run w).runs ws := rfl

/-- Two lists of rows are run one after the other. -/
theorem runs_append {vs : List (Row Field)} : r.runs (ws ++ vs) = (r.runs ws).runs vs :=
  List.foldl_append

/-- **A row.**  Its bytes are read back where they were stored, and all others are as before. -/
theorem byteAt_run : byteAt (r.run w).bytes a =
    if offset w.field + w.start ≤ a ∧ a < offset w.field + w.start + w.text.length then
      byteAt w.text (a - (offset w.field + w.start)) else byteAt r.bytes a :=
  byteAt_putAll

/-- A byte that a row does not reach is as before. -/
theorem byteAt_run_of_not_reaches (h : ¬ w.Reaches a) :
    byteAt (r.run w).bytes a = byteAt r.bytes a := by
  rw [byteAt_run]
  exact if_neg h

/-- A byte that none of the rows reaches is as before. -/
theorem byteAt_runs (h : ∀ w ∈ ws, ¬ w.Reaches a) :
    byteAt (r.runs ws).bytes a = byteAt r.bytes a := by
  induction ws generalizing r with
  | nil => rfl
  | cons w ws ih =>
      rw [runs_cons, ih fun v hv => h v (List.mem_cons_of_mem _ hv),
        byteAt_run_of_not_reaches (h w List.mem_cons_self)]

/-- A row keeps all stores inside their fields exactly if it fits into its own.  What earlier
rows have done stays done. -/
theorem inside_run : (r.run w).Inside ↔ r.Inside ∧ w.Fits := by
  have hstores : (r.run w).stores
      = r.stores ++ (List.range w.text.length).map fun i => (w.field, w.start + i) := rfl
  rw [Record.Inside, hstores]
  simp only [List.mem_append, List.mem_map, List.mem_range, or_imp, forall_and, Record.Inside,
    Row.Fits, forall_exists_index, and_imp]
  apply and_congr_right
  intro _
  constructor
  · exact fun h i hi => h _ i hi rfl
  · intro h s i hi hs
    subst hs
    exact h i hi

/-- **Stores inside.**  A run stores inside if and only if each of its rows does. -/
theorem inside_runs : (r.runs ws).Inside ↔ r.Inside ∧ ∀ w ∈ ws, w.Fits := by
  induction ws generalizing r with
  | nil => simp
  | cons w ws ih =>
      rw [runs_cons, ih, inside_run, List.forall_mem_cons, and_assoc]

/-- A row that fits into its field reaches into no other, as fields have no byte in common. -/
theorem not_reaches_of_fits (hfits : w.Fits) (hne : w.field ≠ f) {i : Nat} (hi : i < size f) :
    ¬ w.Reaches (offset f + i) := by
  intro ⟨hlow, hhigh⟩
  have hin := hfits (offset f + i - (offset w.field + w.start)) (by omega)
  rcases fields_apart hne with h | h <;> omega

/-- A row reaches upwards only: no byte of a field before its own is written. -/
theorem not_reaches_of_rank (h : rank f < rank w.field) {i : Nat} (hi : i < size f) :
    ¬ w.Reaches (offset f + i) := by
  intro ⟨hlow, _⟩
  have hbelow := offset_add_size_le h
  omega

/-- A field that no row reaches into holds what it held. -/
theorem keeps_runs (h : ∀ w ∈ ws, ∀ i < size f, ¬ w.Reaches (offset f + i)) :
    r.Keeps (r.runs ws) f :=
  fun i hi => byteAt_runs fun w hw => h w hw i hi

/-- A string that ends inside its field is one that the field alone holds. -/
theorem Record.Keeps.string {r' : Record Field} (h : r.Keeps r' f) (hend : r.Terminated f) :
    r'.string f = r.string f :=
  stringAt_congr fun i hi => h i (lt_of_le_of_lt hi hend)

/-- Rows that lie above a string leave it alone. -/
theorem string_runs_above (h : ∀ w ∈ ws, rank f < rank w.field) (hend : r.Terminated f) :
    (r.runs ws).string f = r.string f :=
  (keeps_runs fun w hw _ hi => not_reaches_of_rank (h w hw) hi).string hend

/-- A row that lies above a string leaves it alone. -/
theorem string_run_above (h : rank f < rank w.field) (hend : r.Terminated f) :
    (r.run w).string f = r.string f := by
  have habove : ∀ v ∈ [w], rank f < rank v.field := by simpa using h
  exact string_runs_above habove hend

/-- The bytes after a copy, up to its NUL, are those of the text. -/
theorem byteAt_run_strcpy {value : List Char} {i : Nat} (h : i ≤ value.length) :
    byteAt (r.run (strcpy f value)).bytes (offset f + i) = byteAt value i := by
  have hfield : (strcpy f value).field = f := rfl
  have hstart : (strcpy f value).start = 0 := rfl
  have hlen : (strcpy f value).text.length = value.length + 1 := by simp [strcpy]
  have hsub : offset f + i - (offset f + 0) = i := by omega
  rw [byteAt_run, hfield, hstart, hlen, if_pos (by omega), hsub]
  exact byteAt_append_nul

/-- The bytes after a bounded copy are those of the text, filled up with zeros. -/
theorem byteAt_run_strncpy {value : List Char} {n i : Nat} (h : i < n) :
    byteAt (r.run (strncpy f value n)).bytes (offset f + i) = byteAt value i := by
  have hfield : (strncpy f value n).field = f := rfl
  have hstart : (strncpy f value n).start = 0 := rfl
  have hlen : (strncpy f value n).text.length = n := by simp [strncpy]
  have hsub : offset f + i - (offset f + 0) = i := by omega
  rw [byteAt_run, hfield, hstart, hlen, if_pos (by omega), hsub, strncpy, byteAt_take h]
  rcases Nat.lt_or_ge i value.length with hi | hi
  · exact byteAt_append_left hi
  · rw [byteAt_append_right hi, byteAt_zeros, byteAt_of_le hi]

/-- A row leaves the strings behind it alone. -/
theorem stringAt_run_of_le (h : offset w.field + w.start + w.text.length ≤ a) :
    stringAt (r.run w).bytes a = stringAt r.bytes a :=
  stringAt_congr fun _ _ => byteAt_run_of_not_reaches fun hreach => by
    have hhigh := hreach.2
    omega

/-- A NUL far behind its field cuts the string that it falls into, and no other. -/
theorem stringAt_run_terminate {i : Nat} (h : a ≤ offset f + i) :
    stringAt (r.run (terminate f i)).bytes a = (stringAt r.bytes a).take (offset f + i - a) := by
  have hplace : a + (offset f + i - a) = offset f + i := by omega
  rw [← stringAt_put_nul, hplace]
  rfl

theorem byteAt_run_terminate {i : Nat} :
    byteAt (r.run (terminate f i)).bytes (offset f + i) = nul := by
  have hreach : (terminate f i).Reaches (offset f + i) := ⟨le_rfl, Nat.lt_succ_self _⟩
  rw [byteAt_run]
  refine (if_pos hreach).trans ?_
  rw [show (terminate f i).text = [nul] from rfl]
  rw [show offset f + i - (offset (terminate f i).field + (terminate f i).start) = 0 from
    Nat.sub_self _]
  rfl

/-- A copied text is the string in the field, even if it runs over the end. -/
theorem string_strcpy {value : List Char} (h : nul ∉ value) :
    (r.run (strcpy f value)).string f = value :=
  stringAt_eq_iff.mpr ⟨h, fun _ hi => byteAt_run_strcpy hi⟩

/-- A string that is copied stays if the rows behind it lie above it, where they do not reach
its bytes. -/
theorem string_runs_strcpy {front back : List (Row Field)} {value : List Char} (h : nul ∉ value)
    (hend : value.length < size f) (habove : ∀ w ∈ back, rank f < rank w.field) :
    (r.runs (front ++ strcpy f value :: back)).string f = value := by
  have hcopied := string_strcpy (r := r.runs front) (f := f) h
  rw [runs_append, runs_cons, string_runs_above habove, hcopied]
  rw [Record.Terminated, hcopied]
  exact hend

/-- In a field with a NUL at its end every string ends inside. -/
theorem Record.Sealed.terminated (h : r.Sealed f) (hpos : 0 < size f) : r.Terminated f := by
  have hlen : (r.string f).length ≤ size f - 1 := length_stringAt_le h
  exact lt_of_le_of_lt hlen (by omega)

/-- A row that fits, and seals the field if it is its own, leaves a NUL at the end of the field. -/
theorem sealed_run (hfits : w.Fits) (hseals : w.field = f → w.Seals) (hpos : 0 < size f)
    (h : r.Sealed f) : (r.run w).Sealed f := by
  rw [Record.Sealed]
  by_cases hreach : w.Reaches (offset f + (size f - 1))
  · have hfield : w.field = f := by
      by_contra hne
      exact not_reaches_of_fits hfits hne (Nat.sub_one_lt_of_lt hpos) hreach
    subst hfield
    obtain ⟨hlow, hhigh⟩ := hreach
    have hlast := hfits (w.text.length - 1) (by omega)
    have hend : offset w.field + (size w.field - 1) - (offset w.field + w.start)
        = w.text.length - 1 := by omega
    rw [byteAt_run, if_pos ⟨hlow, hhigh⟩, hend]
    exact hseals rfl (by omega)
  · rw [byteAt_run_of_not_reaches hreach]
    exact h

/-- **Strings stay strings.**  Rows that fit and seal their fields keep a field
sealed. -/
theorem sealed_runs (hfits : ∀ w ∈ ws, w.Fits) (hseals : ∀ w ∈ ws, w.field = f → w.Seals)
    (hpos : 0 < size f) (h : r.Sealed f) : (r.runs ws).Sealed f := by
  induction ws generalizing r with
  | nil => exact h
  | cons w ws ih =>
      rw [List.forall_mem_cons] at hfits hseals
      exact ih hfits.2 hseals.2 (sealed_run hfits.1 hseals.1 hpos h)

/-! ## The copies -/

variable {value : List Char} {n i : Nat}

omit [DecidableEq Field] [Layout Field] in
/-- A bounded copy always stores its whole count of bytes. -/
theorem length_strncpy : (strncpy f value n).text.length = n := by
  simp [strncpy]

/-- A bounded copy fits if its bound does, however long the text is. -/
theorem strncpy_fits (h : n ≤ size f) : (strncpy f value n).Fits := by
  intro i hi
  rw [length_strncpy] at hi
  have hstart : (strncpy f value n).start + i = i := Nat.zero_add i
  rw [hstart]
  exact lt_of_lt_of_le hi h

/-- `strncpy` seals a field when it keeps away from the last byte, and when the
string is short enough for it to fill up. -/
theorem strncpy_seals (h : n < size f ∨ value.length < n) : (strncpy f value n).Seals := by
  intro hend
  rw [length_strncpy] at hend ⊢
  have hfull : 0 + n = size f := hend
  have hshort : value.length < n := by omega
  rw [strncpy, byteAt_take (by omega), byteAt_append_right (by omega), byteAt_zeros]

/-- A copy fits exactly if the text is shorter than the field. -/
theorem strcpy_fits_iff : (strcpy f value).Fits ↔ value.length < size f := by
  have hlen : (strcpy f value).text.length = value.length + 1 := by simp [strcpy]
  rw [Row.Fits, hlen]
  have hstart : ∀ i, (strcpy f value).start + i = i := fun i => Nat.zero_add i
  simp only [hstart]
  exact ⟨fun h => h value.length (by omega), fun h i hi => lt_of_le_of_lt (by omega) h⟩

/-- The last byte of a text with its NUL is the NUL. -/
theorem byteAt_last : byteAt (value ++ [nul]) ((value ++ [nul]).length - 1) = nul := by
  have hlen : (value ++ [nul]).length - 1 = value.length := by simp
  rw [hlen, byteAt_append_nul, byteAt_of_le le_rfl]

/-- A copy ends with a NUL, also if it ends at the last byte of the field. -/
theorem strcpy_seals : (strcpy f value).Seals := fun _ => byteAt_last

/-- A text that is printed into at most the whole field fits, however long it is. -/
theorem snprintf_fits (h : n ≤ size f) (hpos : 0 < n) : (snprintf f n value).Fits :=
  strcpy_fits_iff.mpr (by rw [List.length_take]; omega)

/-- A text that is printed ends with a NUL, also if it is cut off. -/
theorem snprintf_seals : (snprintf f n value).Seals := fun _ => byteAt_last

/-- A NUL stays inside the field exactly if its index does, since it is the only byte that is
stored. -/
theorem terminate_fits_iff : (terminate f i).Fits ↔ i < size f := by
  constructor
  · exact fun h => h 0 (Nat.zero_lt_one)
  · intro h j hj
    have hzero : j = 0 := by simpa [terminate] using hj
    rw [hzero]
    exact h

theorem terminate_seals : (terminate f i).Seals := fun _ => rfl

end

end RecordMemory

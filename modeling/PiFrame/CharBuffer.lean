import Mathlib.Data.Nat.Find
import Mathlib.Data.List.Basic
import Mathlib.Logic.Function.Basic

/-!
# Strings in arrays of characters

A C string is a place in memory from which on bytes can be read up to a NUL,
and a buffer is an array with room for so many bytes.  A store past the end of
the array goes somewhere and raises `overrun`.

The functions are those of `string.h`, `snprintf` of a single `%s`, and the copy
from user space that the kernel has.
-/

namespace CharBuffer

/-- The bytes from the start of a string on. -/
structure CString where
  bytes : Nat → UInt8
  terminated : ∃ i, bytes i = 0

/-- An array of `size` characters: the bytes from its start on, past its end too,
and whether there was a store past its end. -/
structure Buffer (size : Nat) where
  bytes : Nat → UInt8
  overrun : Bool

variable {size : Nat}

/-- `b[i] = c`. -/
def Buffer.store (b : Buffer size) (i : Nat) (c : UInt8) : Buffer size where
  bytes := Function.update b.bytes i c
  overrun := b.overrun || decide (size ≤ i)

/-- The first `n` bytes from `src` on are stored one after the other. -/
def Buffer.copy (b : Buffer size) (src : Nat → UInt8) : Nat → Buffer size
  | 0 => b
  | n + 1 => (b.copy src n).store n (src n)

/-- `strlen`. -/
def CString.strlen (s : CString) : Nat := Nat.find s.terminated

/-- `strcpy`. -/
def strcpy (b : Buffer size) (src : CString) : Buffer size :=
  b.copy src.bytes (src.strlen + 1)

/-- `strncpy_from_user`: it returns the length, or `n` if the NUL is not among
the first `n` bytes, and then stores none. -/
def strncpyFromUser (b : Buffer size) (src : CString) (n : Nat) : Buffer size × Nat :=
  if src.strlen < n then (b.copy src.bytes (src.strlen + 1), src.strlen)
  else (b.copy src.bytes n, n)

/-- `snprintf` with the format `%s`, for a positive `n`. -/
def snprintf (b : Buffer size) (n : Nat) (src : CString) : Buffer size :=
  (b.copy src.bytes (min src.strlen (n - 1))).store (min src.strlen (n - 1)) 0

/-- Whether `strncmp` of what follows byte `k` finds no difference. -/
def strncmpFrom (x y : Nat → UInt8) (k : Nat) : Nat → Bool
  | 0 => true
  | n + 1 => if x k ≠ y k then false else if x k = 0 then true else strncmpFrom x y (k + 1) n

/-- Whether `strncmp` is zero. -/
def strncmp (x y : Nat → UInt8) (n : Nat) : Bool := strncmpFrom x y 0 n

/-- Whether `strcmp` is zero. -/
def strcmp (s t : CString) : Bool := strncmp s.bytes t.bytes (s.strlen + 1)

/-! ## What can be read -/

/-- The bytes of a string without its NUL. -/
def CString.text (s : CString) : List UInt8 := (List.range s.strlen).map s.bytes

variable {s t : CString} {b : Buffer size} {src x y : Nat → UInt8} {i k n : Nat}

theorem CString.at_strlen (s : CString) : s.bytes s.strlen = 0 := Nat.find_spec s.terminated

theorem CString.of_lt_strlen (hi : i < s.strlen) : s.bytes i ≠ 0 := Nat.find_min s.terminated hi

theorem CString.strlen_eq_iff : s.strlen = n ↔ s.bytes n = 0 ∧ ∀ i < n, s.bytes i ≠ 0 :=
  Nat.find_eq_iff s.terminated

@[simp] theorem CString.length_text : s.text.length = s.strlen := by
  simp [CString.text]

/-- Two strings are the same if they agree up to the NUL of one of them. -/
theorem CString.text_eq_iff : s.text = t.text ↔ ∀ i ≤ s.strlen, s.bytes i = t.bytes i := by
  constructor
  · intro h i hi
    have hlen : s.strlen = t.strlen := by
      rw [← length_text, ← length_text, h]
    rcases Nat.lt_or_eq_of_le hi with hlt | rfl
    · have hget : s.text[i]? = t.text[i]? := by rw [h]
      simpa [CString.text, hlt, hlen ▸ hlt] using hget
    · rw [s.at_strlen, hlen, t.at_strlen]
  · intro h
    have hlen : t.strlen = s.strlen := by
      refine strlen_eq_iff.mpr ⟨?_, fun i hi => ?_⟩
      · rw [← h _ le_rfl, s.at_strlen]
      · rw [← h i (Nat.le_of_lt hi)]
        exact of_lt_strlen hi
    rw [CString.text, CString.text, hlen]
    apply List.map_congr_left
    intro i hi
    exact h i (Nat.le_of_lt (List.mem_range.mp hi))

/-! ## What is stored -/

@[simp] theorem Buffer.store_bytes_self {c : UInt8} : (b.store i c).bytes i = c :=
  Function.update_self ..

theorem Buffer.store_bytes_of_ne {c : UInt8} (hk : k ≠ i) : (b.store i c).bytes k = b.bytes k :=
  Function.update_of_ne hk ..

/-- A copy writes the first bytes and nothing else. -/
theorem Buffer.copy_bytes : (b.copy src n).bytes i = if i < n then src i else b.bytes i := by
  induction n with
  | zero => rfl
  | succ n ih =>
      rw [Buffer.copy]
      by_cases hi : i = n
      · rw [hi, Buffer.store_bytes_self, if_pos (Nat.lt_succ_self n)]
      · have hlt : i < n + 1 ↔ i < n := by omega
        simp only [Buffer.store_bytes_of_ne hi, ih, hlt]

theorem Buffer.copy_overrun :
    (b.copy src n).overrun = (b.overrun || decide (size < n)) := by
  induction n with
  | zero => simp [Buffer.copy]
  | succ n ih =>
      rw [Buffer.copy, Buffer.store, ih, Bool.or_assoc]
      have hle : size < n + 1 ↔ size < n ∨ size ≤ n := by omega
      simp only [hle, Bool.decide_or]

/-- `strcpy` stays inside exactly if there is room for the string and its NUL. -/
theorem strcpy_overrun :
    (strcpy b s).overrun = (b.overrun || decide (size ≤ s.strlen)) := by
  rw [strcpy, Buffer.copy_overrun]
  simp only [Nat.lt_succ_iff]

theorem strcpy_bytes (hi : i ≤ s.strlen) : (strcpy b s).bytes i = s.bytes i := by
  rw [strcpy, Buffer.copy_bytes, if_pos (by omega)]

/-- What was copied is the same string again. -/
theorem strcpy_text (h : ∃ i, (strcpy b s).bytes i = 0) :
    (CString.mk (strcpy b s).bytes h).text = s.text :=
  (CString.text_eq_iff.mpr fun _ hi => (strcpy_bytes hi).symm).symm

/-- `snprintf` keeps to the number of bytes it is given. -/
theorem snprintf_overrun (hn : 0 < n) (hsize : n ≤ size) :
    (snprintf b n s).overrun = b.overrun := by
  rw [snprintf, Buffer.store, Buffer.copy_overrun]
  have hcopy : ¬ size < min s.strlen (n - 1) := by omega
  have hstore : ¬ size ≤ min s.strlen (n - 1) := by omega
  simp [hcopy, hstore]

/-- A string that is short enough is not cut off. -/
theorem snprintf_bytes (hshort : s.strlen < n) (hi : i ≤ s.strlen) :
    (snprintf b n s).bytes i = s.bytes i := by
  have hmin : min s.strlen (n - 1) = s.strlen := by omega
  rw [snprintf, hmin]
  rcases Nat.lt_or_eq_of_le hi with hlt | rfl
  · rw [Buffer.store_bytes_of_ne (Nat.ne_of_lt hlt), Buffer.copy_bytes, if_pos hlt]
  · rw [Buffer.store_bytes_self, s.at_strlen]

/-! ## Comparisons -/

/-- `strncmp` compares as far as neither the bytes nor the NUL of the first
string say stop. -/
theorem strncmpFrom_iff : strncmpFrom x y k n = true ↔
    ∀ i < n, (∀ j < i, x (k + j) ≠ 0) → x (k + i) = y (k + i) := by
  induction n generalizing k with
  | zero => simp [strncmpFrom]
  | succ n ih =>
      rw [strncmpFrom]
      by_cases hxy : x k = y k
      · rw [if_neg (not_not.mpr hxy)]
        by_cases hzero : x k = 0
        · rw [if_pos hzero]
          refine iff_of_true rfl fun i _ hbefore => ?_
          rcases Nat.eq_zero_or_pos i with rfl | hpos
          · exact hxy
          · exact absurd hzero (hbefore 0 hpos)
        · rw [if_neg hzero, ih]
          constructor
          · intro h i hi hbefore
            cases i with
            | zero => exact hxy
            | succ i =>
                have hnext := h i (by omega) fun j hj => by
                  rw [Nat.add_right_comm]
                  exact hbefore (j + 1) (by omega)
                rwa [Nat.add_right_comm] at hnext
          · intro h i hi hbefore
            have hnext := h (i + 1) (by omega) fun j hj => by
              cases j with
              | zero => exact hzero
              | succ j =>
                  have hj' := hbefore j (by omega)
                  rwa [Nat.add_right_comm] at hj'
            rwa [Nat.add_right_comm]
      · rw [if_pos hxy]
        exact iff_of_false Bool.false_ne_true fun h => hxy (h 0 (by omega) (by omega))

/-- Where `strncmp` gets to the NUL of the first string it compares them all. -/
theorem strncmp_iff (hx : ∀ i ≤ s.strlen, x i = s.bytes i) (hshort : s.strlen < n) :
    strncmp x t.bytes n = true ↔ s.text = t.text := by
  rw [strncmp, strncmpFrom_iff, CString.text_eq_iff]
  simp only [Nat.zero_add]
  constructor
  · intro h i hi
    rw [← hx i hi]
    refine h i (by omega) fun j hj => ?_
    rw [hx j (by omega)]
    exact CString.of_lt_strlen (by omega)
  · intro h i _ hbefore
    have hi : i ≤ s.strlen := by
      by_contra hlt
      apply hbefore s.strlen (by omega)
      rw [hx _ le_rfl, s.at_strlen]
    rw [hx i hi]
    exact h i hi

end CharBuffer

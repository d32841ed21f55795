import PiFrame.CharBuffer

/-!
# Strings that are put together in an array

`strcat`, `snprintf` and `strncpy` on an array that has a string in it.  Each of them
leaves a string there; whether the array was large enough is told by its `overrun`.
-/

namespace CharBuffer

/-- An array with a NUL in it, or behind it. -/
structure StringArray (size : Nat) extends Buffer size where
  terminated : ∃ i, bytes i = 0

/-- A text as a string constant. -/
def ofText (t : List UInt8) : CString := ⟨fun i => (t[i]?).getD 0, t.length, by simp⟩

variable {size : Nat}

/-- The string in the array. -/
def StringArray.string (a : StringArray size) : CString := ⟨a.bytes, a.terminated⟩

/-- `char a[size] = ""`. -/
def StringArray.empty (size : Nat) : StringArray size := ⟨⟨fun _ => 0, false⟩, 0, rfl⟩

/-- The first `n` bytes from `src` on are stored from place `start` on. -/
def Buffer.copyTo (b : Buffer size) (start : Nat) (src : Nat → UInt8) : Nat → Buffer size
  | 0 => b
  | n + 1 => (b.copyTo start src n).store (start + n) (src n)

variable {b : Buffer size} {a : StringArray size} {s : CString} {src : Nat → UInt8}
  {i n start : Nat} {t : List UInt8}

theorem Buffer.copyTo_bytes : (b.copyTo start src n).bytes i
    = if start ≤ i ∧ i < start + n then src (i - start) else b.bytes i := by
  induction n with
  | zero =>
      rw [if_neg (by omega)]
      rfl
  | succ n ih =>
      rw [Buffer.copyTo]
      by_cases hi : i = start + n
      · rw [hi, Buffer.store_bytes_self, if_pos (by omega), Nat.add_sub_cancel_left]
      · have hiff : (start ≤ i ∧ i < start + (n + 1)) ↔ (start ≤ i ∧ i < start + n) := by omega
        simp only [Buffer.store_bytes_of_ne hi, ih, hiff]

/-- A copy overruns the array if its last byte is past the end. -/
theorem Buffer.copyTo_overrun :
    (b.copyTo start src (n + 1)).overrun = (b.overrun || decide (size ≤ start + n)) := by
  induction n with
  | zero => rfl
  | succ n ih =>
      rw [Buffer.copyTo, Buffer.store, ih, Bool.or_assoc]
      have hle : size ≤ start + (n + 1) ↔ size ≤ start + n ∨ size ≤ start + (n + 1) := by omega
      simp only [← Bool.decide_or, ← hle]

/-! ## Texts -/

/-- No byte of a string is its NUL. -/
theorem CString.zero_notMem_text : 0 ∉ s.text := by
  intro hzero
  obtain ⟨i, hi, hbyte⟩ := List.mem_map.mp hzero
  exact CString.of_lt_strlen (List.mem_range.mp hi) hbyte

/-- What a text is made of decides what string it is. -/
theorem CString.text_eq_of_bytes (hbytes : ∀ i < t.length, s.bytes i = (t[i]?).getD 0)
    (hend : s.bytes t.length = 0) (hnul : 0 ∉ t) : s.text = t := by
  have hget : ∀ i, (hi : i < t.length) → (t[i]?).getD 0 = t[i] := fun i hi => by simp [hi]
  have hlen : s.strlen = t.length := by
    refine CString.strlen_eq_iff.mpr ⟨hend, fun i hi hzero => hnul ?_⟩
    rw [hbytes i hi, hget i hi] at hzero
    exact hzero ▸ List.getElem_mem hi
  apply List.ext_getElem (by rw [CString.length_text, hlen])
  intro i hi ht
  rw [← hget i ht, ← hbytes i ht]
  simp [CString.text]

/-- A text without a NUL is the text of its string. -/
@[simp] theorem text_ofText (hnul : 0 ∉ t) : (ofText t).text = t :=
  CString.text_eq_of_bytes (fun _ _ => rfl) (by simp [ofText]) hnul

/-- A text without a NUL is as long as its string. -/
theorem strlen_ofText (hnul : 0 ∉ t) : (ofText t).strlen = t.length := by
  rw [← CString.length_text, text_ofText hnul]

/-- A string of `n` equal characters has length `n`. -/
theorem strlen_ofText_replicate {c : UInt8} (hc : c ≠ 0) :
    (ofText (List.replicate n c)).strlen = n := by
  rw [strlen_ofText fun h => hc (List.eq_of_mem_replicate h).symm, List.length_replicate]

@[simp] theorem StringArray.text_empty : (StringArray.empty size).string.text = [] :=
  CString.text_eq_of_bytes (fun _ hi => by cases hi) rfl List.not_mem_nil

/-- Before its end, a string has the bytes of its text. -/
theorem CString.getD_text (hi : i < s.strlen) : (s.text[i]?).getD 0 = s.bytes i := by
  simp [CString.text, hi]

/-! ## `strcat` -/

/-- `strcat`. -/
def strcat (a : StringArray size) (src : CString) : StringArray size where
  toBuffer := a.copyTo a.string.strlen src.bytes (src.strlen + 1)
  terminated := by
    refine ⟨a.string.strlen + src.strlen, ?_⟩
    rw [Buffer.copyTo_bytes, if_pos (by omega), Nat.add_sub_cancel_left, src.at_strlen]

theorem strcat_text : (strcat a s).string.text = a.string.text ++ s.text := by
  have hlen : (a.string.text ++ s.text).length = a.string.strlen + s.strlen := by
    rw [List.length_append, CString.length_text, CString.length_text]
  have hbyte : ∀ i, (strcat a s).string.bytes i
      = if a.string.strlen ≤ i ∧ i < a.string.strlen + (s.strlen + 1)
        then s.bytes (i - a.string.strlen) else a.bytes i := by
    intro i
    show (a.copyTo a.string.strlen s.bytes (s.strlen + 1)).bytes i = _
    exact Buffer.copyTo_bytes
  apply CString.text_eq_of_bytes
  · intro i hi
    rw [hlen] at hi
    rw [hbyte]
    by_cases hfront : i < a.string.strlen
    · rw [if_neg (by omega), List.getElem?_append_left (by rwa [CString.length_text]),
        CString.getD_text hfront]
      rfl
    · rw [if_pos (by omega), List.getElem?_append_right (by rw [CString.length_text]; omega),
        CString.length_text, CString.getD_text (by omega)]
  · rw [hlen, hbyte, if_pos (by omega), Nat.add_sub_cancel_left, s.at_strlen]
  · simp [CString.zero_notMem_text]

theorem strcat_strlen : (strcat a s).string.strlen = a.string.strlen + s.strlen := by
  rw [← CString.length_text, strcat_text, List.length_append, CString.length_text,
    CString.length_text]

/-- `strcat` stays inside exactly if there is room for both strings and a NUL. -/
theorem strcat_overrun : (strcat a s).overrun
    = (a.overrun || decide (size ≤ a.string.strlen + s.strlen)) :=
  Buffer.copyTo_overrun

/-- Several strings, one after the other. -/
def strcats (a : StringArray size) (pieces : List CString) : StringArray size :=
  pieces.foldl strcat a

variable {pieces : List CString}

/-- A row of `strcat`s appends the texts one after the other. -/
theorem strcats_text :
    (strcats a pieces).string.text = a.string.text ++ pieces.flatMap CString.text := by
  induction pieces generalizing a with
  | nil => exact (List.append_nil _).symm
  | cons s pieces ih =>
      have hfirst : strcats a (s :: pieces) = strcats (strcat a s) pieces := rfl
      rw [hfirst, ih, strcat_text, List.flatMap_cons, List.append_assoc]

/-- A row of `strcat`s stays inside the array exactly if there is room for what they come to. -/
theorem strcats_overrun : (strcats a pieces).overrun = true ↔
    a.overrun = true ∨ pieces ≠ [] ∧ size ≤ (strcats a pieces).string.strlen := by
  induction pieces generalizing a with
  | nil => simp [strcats]
  | cons s pieces ih =>
      have hfirst : strcats a (s :: pieces) = strcats (strcat a s) pieces := rfl
      have hlonger : (strcat a s).string.strlen ≤ (strcats (strcat a s) pieces).string.strlen := by
        rw [← CString.length_text, ← CString.length_text, strcats_text, List.length_append]
        exact Nat.le_add_right _ _
      rw [hfirst, ih, strcat_overrun, Bool.or_eq_true, decide_eq_true_eq, ← strcat_strlen, or_assoc]
      refine or_congr_right ⟨?_, fun ⟨_, h⟩ => ?_⟩
      · rintro (h | ⟨-, h⟩)
        · exact ⟨List.cons_ne_nil _ _, Nat.le_trans h hlonger⟩
        · exact ⟨List.cons_ne_nil _ _, h⟩
      · cases pieces with
        | nil => exact .inl h
        | cons t pieces => exact .inr ⟨List.cons_ne_nil _ _, h⟩

/-! ## `snprintf` -/

/-- `snprintf` of a string that has been put into its format. -/
def printInto (b : Buffer size) (n : Nat) (s : CString) : StringArray size where
  toBuffer := snprintf b n s
  terminated := ⟨min s.strlen (n - 1), Buffer.store_bytes_self⟩

/-- What does not fit is cut off: `snprintf` leaves as many characters as there is room for in
front of the NUL. -/
theorem printInto_text : (printInto b n s).string.text = s.text.take (n - 1) := by
  have hlen : (s.text.take (n - 1)).length = min s.strlen (n - 1) := by
    rw [List.length_take, CString.length_text, Nat.min_comm]
  apply CString.text_eq_of_bytes
  · intro i hi
    rw [hlen] at hi
    have hbyte : (printInto b n s).string.bytes i = s.bytes i := by
      show (snprintf b n s).bytes i = _
      rw [snprintf, Buffer.store_bytes_of_ne (by omega), Buffer.copy_bytes, if_pos hi]
    rw [hbyte, List.getElem?_take_of_lt (by omega), CString.getD_text (by omega)]
  · rw [hlen]
    exact Buffer.store_bytes_self
  · exact fun hzero => CString.zero_notMem_text (List.mem_of_mem_take hzero)

/-- `snprintf` with the size of the array does not overrun it. -/
theorem printInto_overrun (hn : 0 < n) (hsize : n ≤ size) :
    (printInto b n s).overrun = b.overrun :=
  snprintf_overrun hn hsize

/-! ## Cutting off -/

/-- A NUL is stored into a string. -/
def StringArray.cut (a : StringArray size) (n : Nat) : StringArray size where
  toBuffer := a.toBuffer.store n 0
  terminated := ⟨n, Buffer.store_bytes_self⟩

/-- The string ends there, and the characters in front of it stay what they were. -/
theorem StringArray.cut_text (hn : n ≤ a.string.strlen) :
    (a.cut n).string.text = a.string.text.take n := by
  have hlen : (a.string.text.take n).length = n := by
    rw [List.length_take, CString.length_text, Nat.min_eq_left hn]
  apply CString.text_eq_of_bytes
  · intro i hi
    rw [hlen] at hi
    have hbyte : (a.cut n).string.bytes i = a.string.bytes i :=
      Buffer.store_bytes_of_ne (Nat.ne_of_lt hi)
    rw [hbyte, List.getElem?_take_of_lt hi, CString.getD_text (by omega)]
  · rw [hlen]
    exact Buffer.store_bytes_self
  · exact fun hzero => CString.zero_notMem_text (List.mem_of_mem_take hzero)

/-! ## `strncpy` -/

/-- `strncpy`, which fills up with NULs. -/
def strncpy (b : Buffer size) (src : CString) (n : Nat) : Buffer size :=
  b.copy (fun i => if i < src.strlen then src.bytes i else 0) n

/-- `strncpy` overruns the array if it is given more than the size. -/
theorem strncpy_overrun : (strncpy b s n).overrun = (b.overrun || decide (size < n)) :=
  Buffer.copy_overrun

/-- In front of a NUL there is a string after `strncpy`. -/
theorem strncpy_terminated (hlast : b.bytes n = 0) : (strncpy b s n).bytes n = 0 := by
  rw [strncpy, Buffer.copy_bytes, if_neg (Nat.lt_irrefl n), hlast]

/-- What `strncpy` has copied is the string, as far as it goes. -/
theorem strncpy_text (hlast : b.bytes n = 0) :
    (CString.mk (strncpy b s n).bytes ⟨n, strncpy_terminated hlast⟩).text = s.text.take n := by
  have hlen : (s.text.take n).length = min n s.strlen := by
    rw [List.length_take, CString.length_text]
  apply CString.text_eq_of_bytes
  · intro i hi
    rw [hlen] at hi
    show (strncpy b s n).bytes i = _
    rw [List.getElem?_take_of_lt (by omega), CString.getD_text (by omega), strncpy,
      Buffer.copy_bytes, if_pos (by omega), if_pos (by omega)]
  · rw [hlen]
    show (strncpy b s n).bytes _ = 0
    rw [strncpy, Buffer.copy_bytes]
    by_cases hcut : s.strlen < n
    · rw [Nat.min_eq_right (Nat.le_of_lt hcut), if_pos hcut, if_neg (Nat.lt_irrefl _)]
    · rw [Nat.min_eq_left (Nat.le_of_not_lt hcut), if_neg (Nat.lt_irrefl n), hlast]
  · exact fun hzero => CString.zero_notMem_text (List.mem_of_mem_take hzero)

end CharBuffer

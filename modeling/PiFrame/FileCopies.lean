import PiFrame.ConfigFiles
import PiFrame.SafeReads
import PiFrame.SafeWrites

/-!
# Whole files

`rawCopyFile` reads and writes 4096 bytes at a time until nothing more is read, and
the process dies where a call fails.  `PFU_readWholeFile` asks for the size of a file
first and reads so many bytes, 8192 at most.  Between the two calls the file may have
changed.
-/

namespace FileCopies

open ByteMemory ByteText Limits RetryLoop SafeWrites

/-- How a copy ends, with the file it has written. -/
inductive Copied
  | finished (dst : File)
  | died (dst : File)

/-- `sizeof(buffer)` -/
def bufferSize : Nat := 4096

/-- `PFU_safeRead` returns so, for some number of passes. -/
def Reads (content : List UInt8) (turns : Nat → SafeReads.Turn) (buf : Memory) (size offset : Nat)
    (outcome : SafeReads.Outcome) : Prop :=
  Returns (SafeReads.readPass content size) turns (SafeReads.start buf size offset) outcome

/-- `rawCopyFile` from its `i`-th round on, with the source at `offset`.  The kernel
answers the calls of every round in its own way. -/
inductive RawCopyFile (source : List UInt8) (reads : Nat → Nat → SafeReads.Turn)
    (writes : Nat → Nat → Turn) : Nat → Nat → Memory → File → Copied → Prop
  | readFailed {i offset rdcnt buffer filled dst} :
      Reads source (reads i) buffer bufferSize offset (.returned rdcnt filled) → rdcnt < 0 →
      RawCopyFile source reads writes i offset buffer dst (.died dst)
  | readOut {i offset buffer filled dst} :
      Reads source (reads i) buffer bufferSize offset (.returned 0 filled) →
      RawCopyFile source reads writes i offset buffer dst (.finished dst)
  | writeFailed {i offset rdcnt wrcnt buffer filled dst dst'} :
      Reads source (reads i) buffer bufferSize offset (.returned rdcnt filled) → 0 < rdcnt →
      pfuSafeWrite (writes i) dst (filled.load 0 rdcnt.toNat) (.returned wrcnt dst') →
      wrcnt ≠ rdcnt → RawCopyFile source reads writes i offset buffer dst (.died dst')
  | writeDied {i offset rdcnt buffer filled dst dst'} :
      Reads source (reads i) buffer bufferSize offset (.returned rdcnt filled) → 0 < rdcnt →
      pfuSafeWrite (writes i) dst (filled.load 0 rdcnt.toNat) (.died dst') →
      RawCopyFile source reads writes i offset buffer dst (.died dst')
  | again {i offset rdcnt buffer filled dst dst' copied} :
      Reads source (reads i) buffer bufferSize offset (.returned rdcnt filled) → 0 < rdcnt →
      pfuSafeWrite (writes i) dst (filled.load 0 rdcnt.toNat) (.returned rdcnt dst') →
      RawCopyFile source reads writes (i + 1) (offset + rdcnt.toNat) filled dst' copied →
      RawCopyFile source reads writes i offset buffer dst copied

/-- The whole source, or an initial part of it when the process has died. -/
def Copied.Exact (source : List UInt8) : Copied → Prop
  | .finished dst => dst = ⟨source, source.length⟩
  | .died dst => dst.content <+: source

/-! ## PFU_readWholeFile -/

/-- `PFU_getFileSize`: `stat` may fail. -/
def pfuGetFileSize (stSize : Option Nat) : Int :=
  match stSize with
  | none => -1
  | some stSize => stSize

/-- `strncmp` with the beginning of the path. -/
def isProc (path : Text) : Prop := "/proc/".toList <+: path

def isSys (path : Text) : Prop := "/sys/".toList <+: path

instance (path : Text) : Decidable (isProc path) := inferInstanceAs (Decidable (_ <+: path))

instance (path : Text) : Decidable (isSys path) := inferInstanceAs (Decidable (_ <+: path))

/-- `fsize`, as it is when the file is opened. -/
def wantedSize (path : Text) (stSize : Option Nat) : Int :=
  let fsize := pfuGetFileSize stSize
  let fsize := if (maxFileBufferSize : Int) < fsize then
    (maxFileBufferSize : Int) else fsize
  if fsize = 0 ∧ isProc path then maxFileBufferSize else fsize

/-- `fgErr`: an error, or a file that is shorter than its size said. -/
def sizeError (path : Text) (fsize rdSize : Int) : Prop :=
  rdSize < 0 ∨ fsize ≠ rdSize ∧ ¬ (isProc path ∨ isSys path)

instance (path : Text) (fsize rdSize : Int) : Decidable (sizeError path fsize rdSize) :=
  inferInstanceAs (Decidable (_ ∨ _))

/-- `PFU_readWholeFile` returns so.  `opened` is the file behind the descriptor, when
`open` gives one above 0, and `malloced` what the memory held before. -/
inductive ReadWholeFile (path : Text) (stSize : Option Nat) (opened : Option (List UInt8))
    (turns : Nat → SafeReads.Turn) (malloced : Memory) : Option Memory → Prop
  | empty : wantedSize path stSize ≤ 0 →
      ReadWholeFile path stSize opened turns malloced none
  | notOpened : 0 < wantedSize path stSize → opened = none →
      ReadWholeFile path stSize opened turns malloced (some malloced)
  | read {content rdSize filled} : 0 < wantedSize path stSize → opened = some content →
      Reads content turns malloced (wantedSize path stSize).toNat 0 (.returned rdSize filled) →
      ReadWholeFile path stSize opened turns malloced
        (if sizeError path (wantedSize path stSize) rdSize then none else some filled)

variable {source content : List UInt8} {reads : Nat → Nat → SafeReads.Turn}
  {writes : Nat → Nat → Turn} {turns : Nat → SafeReads.Turn} {buffer filled malloced : Memory}
  {dst : File} {copied : Copied} {i size offset : Nat} {rdcnt : Int} {s : SafeReads.Progress}
  {path : Text} {stSize : Option Nat}

/-! ## What a call reads -/

/-- `PFU_safeRead` delivers what there is, or an error. -/
def Got (content : List UInt8) (buf : Memory) (size offset : Nat) (outcome : SafeReads.Outcome) :
    Prop :=
  outcome = SafeReads.delivered content buf size offset ∨
    ∃ value memory, value < 0 ∧ outcome = .returned value memory

/-- What is claimed of a read holds at its next pass and at its end: the bytes in the buffer are
those of the file, from the offset on. -/
theorem reading_pass (h : SafeReads.Reading content buffer size offset s) (turn : SafeReads.Turn) :
    (∀ s', SafeReads.readPass content size turn s = .inl s' →
      SafeReads.Reading content buffer size offset s') ∧
    ∀ r, SafeReads.readPass content size turn s = .inr r → Got content buffer size offset r := by
  cases turn with
  | fail errno =>
      cases errno with
      | eintr =>
          rw [h.readPass_interrupted]
          grind
      | eio => simp [SafeReads.readPass, SafeReads.pread, Got, SafeReads.safeUtilErrorIo]
      | other errno => simp [SafeReads.readPass, SafeReads.pread, Got]
  | deliver most =>
      have hinside := h.inside
      by_cases hend : s.ptr = content.length - offset
      · rw [h.readPass_end hend]
        grind [Got]
      · have hpos := @SafeReads.Reading.piece_pos _ _ _ _ _ most h (by omega)
        rw [SafeReads.readPass_deliver fun hzero => hpos.ne' hzero.2]
        rcases @SafeReads.Reading.loopEnd _ _ _ _ _ most h with hdone | ⟨s', hs', hreading, -⟩
        · rw [hdone]
          grind [Got]
        · rw [hs']
          grind

/-- A read that ends has the bytes of the file from the offset on. -/
theorem Reads.got (hsize : 0 < size) {outcome : SafeReads.Outcome}
    (h : Reads content turns buffer size offset outcome) :
    Got content buffer size offset outcome :=
  Returns.result (SafeReads.Reading content buffer size offset) (fun turn _ hs => reading_pass hs turn)
    (SafeReads.reading_start hsize) h

/-- A call that has not failed has read as much as there is. -/
theorem Reads.value (hsize : 0 < size) (hread : 0 ≤ rdcnt)
    (h : Reads content turns buffer size offset (.returned rdcnt filled)) :
    rdcnt = (min size (content.length - offset) : Nat) ∧
      filled = buffer.store 0 ((content.drop offset).take size) := by
  rcases h.got hsize with hgot | ⟨value, memory, hneg, hgot⟩
  · injection hgot with hvalue hfilled
    exact ⟨hvalue, hfilled⟩
  · injection hgot with hvalue
    omega

/-- The bytes in the buffer are the next bytes of the file. -/
theorem Reads.loaded (hsize : 0 < size) (hread : 0 ≤ rdcnt)
    (h : Reads content turns buffer size offset (.returned rdcnt filled)) :
    filled.load 0 rdcnt.toNat = (content.drop offset).take rdcnt.toNat := by
  obtain ⟨hvalue, hfilled⟩ := h.value hsize hread
  have hlen : ((content.drop offset).take size).length = rdcnt.toNat := by
    rw [List.length_take, List.length_drop]
    omega
  have hsame : (content.drop offset).take size = (content.drop offset).take rdcnt.toNat := by
    rw [← hlen, List.length_take, ← List.take_eq_take_min]
  rw [hfilled, ← hlen, load_store, hlen, hsame]

/-! ## Copying -/

/-- What stands behind a file goes to its end: a copy of the first bytes becomes a longer one,
and the position goes with it. -/
theorem write_end (offset : Nat) (hinside : offset ≤ source.length) (n : Nat) :
    write ⟨source.take offset, offset⟩ ((source.drop offset).take n) 0
      = ⟨source.take (offset + n), offset + ((source.drop offset).take n).length⟩ := by
  have hfront : (source.take offset).length = offset := by
    rw [List.length_take]
    omega
  have hcontent : writeAt (source.take offset) offset ((source.drop offset).take n)
      = source.take (offset + n) := by
    rw [List.take_add]
    by_cases hnone : (source.drop offset).take n = []
    · rw [hnone, writeAt_nil, List.append_nil]
    · have hbehind : (source.take offset).drop (offset + ((source.drop offset).take n).length) = [] :=
        List.drop_of_length_le (by omega)
      rw [writeAt_of_ne hnone, hbehind, List.takeD_eq_take 0 hfront.ge, List.append_nil,
        List.take_take, min_self]
  rw [write, hcontent]

/-- A piece that is written behind a front of the source makes a longer front of it. -/
theorem take_prefix_of_le (hinside : offset ≤ source.length) (data : List UInt8) (n m : Nat)
    (hdata : data = (source.drop offset).take m) :
    (write ⟨source.take offset, offset⟩ (data.take n) 0).content <+: source := by
  rw [hdata, List.take_take, write_end offset hinside]
  exact List.take_prefix _ _

/-- Every outcome of the write leaves an initial part of the source. -/
theorem ends_initial (hinside : offset ≤ source.length) {data : List UInt8} {m : Nat}
    (hdata : data = (source.drop offset).take m) {outcome : Outcome}
    (h : Ends write ⟨source.take offset, offset⟩ data 0 outcome) :
    (∀ value dst', outcome = .returned value dst' → dst'.content <+: source) ∧
      ∀ dst', outcome = .died dst' → dst'.content <+: source := by
  have hpart := fun n => take_prefix_of_le hinside data n m hdata
  have hall := hpart data.length
  rw [List.take_length] at hall
  cases h <;> grind

/-- A write that reports everything has written everything. -/
theorem ends_all {call : File → List UInt8 → Nat → File} {file dst' : File} {data : List UInt8}
    {value : Int} (hvalue : 0 < value) (h : Ends call file data 0 (.returned value dst')) :
    dst' = call file data 0 := by
  cases h with
  | all => rfl
  | noSpace n => exact absurd hvalue (by decide)
  | io n => exact absurd hvalue (by decide)

/-- The induction over the loop of the copy: what has been written is always a front of the
source. -/
theorem RawCopyFile.exact (h : RawCopyFile source reads writes i offset buffer dst copied)
    (hinside : offset ≤ source.length) (hdst : dst = ⟨source.take offset, offset⟩) :
    copied.Exact source := by
  induction h with
  | readFailed hread hneg =>
      subst hdst
      exact List.take_prefix _ _
  | @readOut i offset buffer filled dst hread =>
      obtain ⟨hvalue, -⟩ := hread.value (by decide) le_rfl
      have hend : offset = source.length := by
        have hbuffer : 0 < bufferSize := by decide
        omega
      subst hdst
      rw [hend, List.take_length]
      rfl
  | writeFailed hread hpos hwrite hne =>
      have hends := safeWrite_result hwrite
      subst hdst
      exact (ends_initial hinside (hread.loaded (by decide) hpos.le) hends).1 _ _ rfl
  | writeDied hread hpos hwrite =>
      have hends := safeWrite_result hwrite
      subst hdst
      exact (ends_initial hinside (hread.loaded (by decide) hpos.le) hends).2 _ rfl
  | @again i offset rdcnt buffer filled dst dst' copied hread hpos hwrite hrest ih =>
      obtain ⟨hvalue, -⟩ := hread.value (by decide) hpos.le
      have hends := safeWrite_result hwrite
      have hlen : ((source.drop offset).take rdcnt.toNat).length = rdcnt.toNat := by
        rw [List.length_take, List.length_drop]
        omega
      refine ih (by omega) ?_
      rw [ends_all hpos hends, hread.loaded (by decide) hpos.le, hdst, write_end offset hinside, hlen]

theorem write_returns (sched : Schedule) (file : File) (data : List UInt8) :
    pfuSafeWrite sched.turn file data (.returned data.length (write file data 0)) :=
  returns_all piecewise_write sched

/-- With an obliging kernel every round copies something until everything is copied, so the loop
comes to its end. -/
theorem rawCopyFile_finishes (source : List UInt8) (reads : Nat → SafeReads.Schedule)
    (writes : Nat → Schedule) (hinside : offset ≤ source.length) :
    RawCopyFile source (fun i => (reads i).turn) (fun i => (writes i).turn) i offset buffer
      ⟨source.take offset, offset⟩ (.finished ⟨source, source.length⟩) := by
  induction hleft : source.length - offset using Nat.strongRecOn generalizing i offset buffer with
  | ind left ih =>
      have hread : Reads source (reads i).turn buffer bufferSize offset
          (SafeReads.delivered source buffer bufferSize offset) :=
        SafeReads.safeRead_returns (by decide)
      by_cases hend : offset = source.length
      · subst hend
        rw [SafeReads.delivered, Nat.sub_self, Nat.min_zero] at hread
        rw [List.take_length]
        exact .readOut hread
      · have hbuffer : 0 < bufferSize := by decide
        have hpos : 0 < ((min bufferSize (source.length - offset) : Nat) : Int) := by omega
        have hloaded := hread.loaded hbuffer hpos.le
        have hwrite := write_returns (writes i) ⟨source.take offset, offset⟩
          ((source.drop offset).take (min bufferSize (source.length - offset)))
        have hlen : ((source.drop offset).take (min bufferSize (source.length - offset))).length
            = min bufferSize (source.length - offset) := by
          rw [List.length_take, List.length_drop]
          omega
        rw [write_end offset hinside, hlen] at hwrite
        refine .again hread hpos (by rw [hloaded]; exact hwrite) ?_
        exact ih _ (by simp only [Int.toNat_natCast]; omega) (by simp only [Int.toNat_natCast]; omega) rfl

/-- **Copying.**  Where `rawCopyFile` finishes, the new file is the source to the last
byte, and where the process dies in it, an initial part; and it finishes however the
kernel cuts the data into pieces, between any interruptions. -/
theorem rawCopyFile_exact (source : List UInt8) (buffer : Memory) :
    (∀ reads writes copied, RawCopyFile source reads writes 0 0 buffer ⟨[], 0⟩ copied →
      copied.Exact source) ∧
    ∀ (reads : Nat → SafeReads.Schedule) (writes : Nat → Schedule),
      RawCopyFile source (fun i => (reads i).turn) (fun i => (writes i).turn) 0 0 buffer ⟨[], 0⟩
        (.finished ⟨source, source.length⟩) :=
  ⟨fun _ _ _ h => h.exact (Nat.zero_le _) rfl,
    fun reads writes => rawCopyFile_finishes source reads writes (Nat.zero_le _)⟩

/-! ## Reading -/

/-- The file as it is read.  Without a descriptor the buffer is as `malloc` gave it; else it has
the bytes of the file, up to the size that is wanted. -/
theorem ReadWholeFile.bytes {result : Option Memory} {opened : Option (List UInt8)}
    (h : ReadWholeFile path stSize opened turns malloced result) {memory : Memory}
    (hresult : result = some memory) :
    opened = none ∧ memory = malloced ∨
      ∃ content, opened = some content ∧
        memory = malloced.store 0 (content.take (wantedSize path stSize).toNat) ∧
        (¬ (isProc path ∨ isSys path) → (wantedSize path stSize).toNat ≤ content.length) := by
  cases h with
  | empty hsize => cases hresult
  | notOpened hsize hopened =>
      cases hresult
      exact .inl ⟨hopened, rfl⟩
  | @read content rdSize filled hsize hopened hread =>
      by_cases herr : sizeError path (wantedSize path stSize) rdSize
      · rw [if_pos herr] at hresult
        cases hresult
      · rw [if_neg herr] at hresult
        cases hresult
        have hrd : 0 ≤ rdSize := by
          by_contra hneg
          exact herr (.inl (by omega))
        obtain ⟨hvalue, hfilled⟩ := hread.value (by omega) hrd
        rw [List.drop_zero] at hfilled
        refine .inr ⟨content, hopened, hfilled, fun hplain => ?_⟩
        by_contra hshort
        exact herr (.inr ⟨by omega, hplain⟩)

/-- Outside `/proc` and `/sys`, the size is that of the file, up to the size of the buffer. -/
theorem wantedSize_of_plain (hplain : ¬ (isProc path ∨ isSys path)) (content : List UInt8) :
    wantedSize path (some content.length)
      = (min maxFileBufferSize content.length : Nat) := by
  have hproc : ¬ isProc path := fun h => hplain (.inl h)
  unfold wantedSize
  rw [if_neg fun h => hproc h.2]
  rcases Nat.lt_or_ge maxFileBufferSize content.length with hlong | hshort
  · exact (if_pos (Int.ofNat_lt.2 hlong)).trans (by rw [Nat.min_eq_left hlong.le])
  · exact (if_neg (by simpa [pfuGetFileSize] using hshort)).trans (by rw [Nat.min_eq_right hshort]; rfl)

/-- Outside `/proc` and `/sys`, a file that nobody changes is read, to its end or to the limit.
An empty file gives a null pointer, which the callers take for a failure. -/
theorem readWholeFile_unchanged (hplain : ¬ (isProc path ∨ isSys path)) (content : List UInt8)
    (sched : SafeReads.Schedule) (malloced : Memory) (result : Option Memory) :
    ReadWholeFile path (some content.length) (some content) sched.turn malloced result ↔
      result = if content = [] then none else
        some (malloced.store 0 (content.take maxFileBufferSize)) := by
  have hlimit : 0 < maxFileBufferSize := by decide
  have hwanted := wantedSize_of_plain hplain content
  by_cases hnone : content = []
  · subst hnone
    rw [if_pos rfl]
    constructor
    · intro h
      cases h with
      | empty hsize => rfl
      | notOpened hsize hopened => cases hopened
      | read hsize hopened hread =>
          rw [hwanted] at hsize
          exact absurd hsize (by decide)
    · rintro rfl
      exact .empty (by rw [hwanted]; decide)
  · have hlen : 0 < content.length := List.length_pos_iff.2 hnone
    have hpos : 0 < wantedSize path (some content.length) := by omega
    have hread : Reads content sched.turn malloced (wantedSize path (some content.length)).toNat 0
        (SafeReads.delivered content malloced (wantedSize path (some content.length)).toNat 0) :=
      SafeReads.safeRead_returns (by omega)
    have hvalue : ((min (wantedSize path (some content.length)).toNat (content.length - 0) : Nat) : Int)
        = wantedSize path (some content.length) := by omega
    have htake : (content.drop 0).take (wantedSize path (some content.length)).toNat
        = content.take maxFileBufferSize := by
      rw [List.drop_zero, hwanted, Int.toNat_natCast, ← List.take_eq_take_min]
    rw [SafeReads.delivered, hvalue, htake] at hread
    have hok : ¬ sizeError path (wantedSize path (some content.length))
        (wantedSize path (some content.length)) := by
      rintro (hneg | ⟨hne, -⟩)
      · omega
      · exact hne rfl
    rw [if_neg hnone]
    constructor
    · intro h
      cases h with
      | empty hsize => omega
      | notOpened hsize hopened => cases hopened
      | read hsize hopened hread' =>
          cases hopened
          cases hread'.unique hread
          rw [if_neg hok]
    · rintro rfl
      have h := ReadWholeFile.read hpos rfl hread
      rw [if_neg hok] at h
      exact h

/-- What the service that loads the configuration sees of it. -/
theorem readWholeFile_text (decode : UInt8 → Char) (content : List UInt8) (malloced : Memory) :
    ((if content = [] then none else
        some (malloced.store 0 (content.take maxFileBufferSize)) : Option Memory).map
      fun memory => (memory.load 0 (min maxFileBufferSize content.length)).map decode)
      = ConfigFiles.pfuReadWholeFile (some (content.map decode)) := by
  by_cases hnone : content = []
  · subst hnone
    rfl
  · have hload := @load_store malloced 0 (content.take maxFileBufferSize)
    rw [List.length_take] at hload
    have hmap : content.map decode ≠ [] := by simpa using hnone
    rw [if_neg hnone, ConfigFiles.pfuReadWholeFile, if_neg hmap, Option.map_some, hload, List.map_take]

/-- **Reading a whole file.**  A buffer that is returned holds the file's first bytes,
all that were asked for unless the file is one of the kernel's; only where `open` fails
it holds what the memory held before.  A file that nobody changes is read as it is. -/
theorem readWholeFile_whole (path : Text) (decode : UInt8 → Char) :
    (∀ stSize opened turns malloced memory,
      ReadWholeFile path stSize opened turns malloced (some memory) →
      opened = none ∧ memory = malloced ∨
        ∃ content, opened = some content ∧
          memory = malloced.store 0 (content.take (wantedSize path stSize).toNat) ∧
          (¬ (isProc path ∨ isSys path) → (wantedSize path stSize).toNat ≤ content.length)) ∧
    (¬ (isProc path ∨ isSys path) →
      ∀ (content : List UInt8) (sched : SafeReads.Schedule) (malloced : Memory),
        ∃ result, (∀ result', ReadWholeFile path (some content.length) (some content) sched.turn
            malloced result' ↔ result' = result) ∧
          (result.map fun memory =>
              (memory.load 0 (min maxFileBufferSize content.length)).map decode)
            = ConfigFiles.pfuReadWholeFile (some (content.map decode))) :=
  ⟨fun _ _ _ _ _ h => h.bytes rfl, fun hplain content sched malloced =>
    ⟨_, readWholeFile_unchanged hplain content sched malloced,
      readWholeFile_text decode content malloced⟩⟩

end FileCopies

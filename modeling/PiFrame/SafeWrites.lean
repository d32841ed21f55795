import Mathlib.Data.List.TakeDrop
import PiFrame.SafeReads

/-!
# Writing a file to the last byte

`PFU_safeWrite` and `PFU_safePwrite` give the kernel what is left until nothing is
left.  The kernel may take fewer bytes, or none, and a signal may interrupt it.
Where the device is full or fails, an initial part of the data has been written.
-/

namespace SafeWrites

open ByteMemory RetryLoop

inductive Errno
  | enospc
  | eintr
  | eio
  | other (errno : Nat)
  deriving DecidableEq, Repr

/-- What the kernel decides about a call: to take so many bytes at most, or none. -/
inductive Turn
  | accept (most : Nat)
  | fail (errno : Errno)
  deriving DecidableEq, Repr

/-- An open file and the offset of its descriptor. -/
structure File where
  content : List UInt8
  position : Nat
  deriving DecidableEq, Repr

/-- Bytes are stored from `offset` on, behind zeros if the file ends before it. -/
def writeAt (content : List UInt8) (offset : Nat) (bytes : List UInt8) : List UInt8 :=
  if bytes = [] then content
  else content.takeD offset 0 ++ bytes ++ content.drop (offset + bytes.length)

/-- `write`, which does not look at the offset it is given. -/
def write (file : File) (bytes : List UInt8) (_offset : Nat) : File :=
  ⟨writeAt file.content file.position bytes, file.position + bytes.length⟩

def pwrite (file : File) (bytes : List UInt8) (offset : Nat) : File :=
  { file with content := writeAt file.content offset bytes }

/-- The variables of the loop, and the file; `ptr` is counted from `data`. -/
structure Progress where
  left : Nat
  ptr : Nat
  offset : Nat
  file : File

/-- How a call ends: it returns, or an assertion fails. -/
inductive Outcome
  | returned (value : Int) (file : File)
  | died (file : File)
  deriving DecidableEq, Repr

def safeUtilErrorNoSpace : Int := -1

/-- `while (left > 0)` and the return behind it. -/
def loopEnd (size : Nat) (s : Progress) : Progress ⊕ Outcome :=
  if 0 < s.left then .inl s else .inr (.returned size s.file)

/-- The body of the loop around `call`. -/
def writePass (call : File → List UInt8 → Nat → File) (data : List UInt8) (turn : Turn)
    (s : Progress) : Progress ⊕ Outcome :=
  match turn with
  | .fail .enospc => .inr (.returned safeUtilErrorNoSpace s.file)
  | .fail .eintr => loopEnd data.length s
  | .fail .eio => .inr (.returned SafeReads.safeUtilErrorIo s.file)
  | .fail (.other _) => .inr (.died s.file)
  | .accept most =>
      let taken := (data.drop s.ptr).take (min most s.left)
      loopEnd data.length {
        left := s.left - taken.length
        ptr := s.ptr + taken.length
        offset := s.offset + taken.length
        file := call s.file taken s.offset }

/-- Everything is left at the start. -/
def start (file : File) (data : List UInt8) (offset : Nat) : Progress :=
  ⟨data.length, 0, offset, file⟩

/-- The function returns so, or dies. -/
def pfuSafeWrite (turns : Nat → Turn) (file : File) (data : List UInt8) (outcome : Outcome) : Prop :=
  Returns (writePass write data) turns (start file data 0) outcome

def pfuSafePwrite (turns : Nat → Turn) (file : File) (data : List UInt8) (offset : Nat)
    (outcome : Outcome) : Prop :=
  Returns (writePass pwrite data) turns (start file data offset) outcome

/-- Interruptions, and calls that take nothing, of which there are finitely many. -/
structure Schedule where
  turn : Nat → Turn
  benign : ∀ i errno, turn i = .fail errno → errno = .eintr
  finite : ∃ n, ∀ i ≥ n, turn i ≠ .fail .eintr ∧ turn i ≠ .accept 0

variable {content bytes more data : List UInt8} {file : File} {offset n : Nat} {s : Progress}
  {call : File → List UInt8 → Nat → File}

/-! ## Pieces -/

@[simp] theorem writeAt_nil : writeAt content offset [] = content := if_pos rfl

/-- Bytes are written over what stands there, with zeros up to them where the file is shorter.
Nothing behind them is changed. -/
theorem writeAt_of_ne (h : bytes ≠ []) : writeAt content offset bytes =
    content.takeD offset 0 ++ bytes ++ content.drop (offset + bytes.length) := if_neg h

/-- What is written behind something is written with it: two writes one behind the other are one
write of both. -/
theorem writeAt_append : writeAt (writeAt content offset bytes) (offset + bytes.length) more =
    writeAt content offset (bytes ++ more) := by
  by_cases hbytes : bytes = []
  · subst hbytes
    simp
  by_cases hmore : more = []
  · subst hmore
    simp
  have hfront : (content.takeD offset 0 ++ bytes).length = offset + bytes.length := by
    rw [List.length_append, List.takeD_length]
  rw [writeAt_of_ne hbytes, writeAt_of_ne hmore, writeAt_of_ne (by simp [hbytes]),
    List.takeD_left' hfront]
  have hback : (content.takeD offset 0 ++ bytes ++ content.drop (offset + bytes.length)).drop
      (offset + bytes.length + more.length) = content.drop (offset + (bytes ++ more).length) := by
    rw [← hfront, List.drop_append, List.drop_of_length_le (Nat.le_add_right ..), List.nil_append,
      Nat.add_sub_cancel_left, List.drop_drop, hfront, List.length_append, Nat.add_assoc]
  rw [hback]
  simp

/-- Calls that can be made piece by piece: the second goes on where the first ended. -/
structure Piecewise (call : File → List UInt8 → Nat → File) : Prop where
  nothing : ∀ file offset, call file [] offset = file
  append : ∀ file offset bytes more,
    call (call file bytes offset) more (offset + bytes.length) = call file (bytes ++ more) offset

theorem piecewise_write : Piecewise write where
  nothing file offset := by simp [write]
  append file offset bytes more := by
    simp only [write, writeAt_append, List.length_append, Nat.add_assoc]

/-- `pwrite` at a later offset goes on where it stopped. -/
theorem piecewise_pwrite : Piecewise pwrite where
  nothing file offset := by simp [pwrite]
  append file offset bytes more := by simp only [pwrite, writeAt_append]

/-! ## Progress -/

/-- So much of the data has been written. -/
structure Writing (call : File → List UInt8 → Nat → File) (file : File) (data : List UInt8)
    (offset : Nat) (s : Progress) : Prop where
  total : s.left + s.ptr = data.length
  position : s.offset = offset + s.ptr
  written : s.file = call file (data.take s.ptr) offset

/-- How a call of the function can end. -/
inductive Ends (call : File → List UInt8 → Nat → File) (file : File) (data : List UInt8)
    (offset : Nat) : Outcome → Prop
  | all : Ends call file data offset (.returned data.length (call file data offset))
  | noSpace (n : Nat) : Ends call file data offset
      (.returned safeUtilErrorNoSpace (call file (data.take n) offset))
  | io (n : Nat) : Ends call file data offset
      (.returned SafeReads.safeUtilErrorIo (call file (data.take n) offset))
  | died (n : Nat) : Ends call file data offset (.died (call file (data.take n) offset))

/-- What a pass may lead to. -/
def Leads (call : File → List UInt8 → Nat → File) (file : File) (data : List UInt8) (offset : Nat)
    (next : Progress ⊕ Outcome) : Prop :=
  (∀ s, next = .inl s → Writing call file data offset s) ∧
    ∀ r, next = .inr r → Ends call file data offset r

/-- What is claimed of the loop holds at its end and at its next pass: the loop ends exactly
when nothing is left. -/
theorem Writing.loopEnd (h : Writing call file data offset s) :
    Leads call file data offset (loopEnd data.length s) := by
  unfold SafeWrites.loopEnd
  by_cases hmore : 0 < s.left
  · rw [if_pos hmore]
    refine ⟨fun s' hs' => ?_, nofun⟩
    cases hs'
    exact h
  · rw [if_neg hmore]
    refine ⟨nofun, fun r hr => ?_⟩
    cases hr
    have htotal := h.total
    rw [h.written, show s.ptr = data.length by omega, List.take_length]
    exact .all

/-- What the kernel takes is what comes next, so what has been written is always a front of the
data. -/
theorem Writing.accept (hcall : Piecewise call) (h : Writing call file data offset s) (most : Nat) :
    Writing call file data offset {
      left := s.left - ((data.drop s.ptr).take (min most s.left)).length
      ptr := s.ptr + ((data.drop s.ptr).take (min most s.left)).length
      offset := s.offset + ((data.drop s.ptr).take (min most s.left)).length
      file := call s.file ((data.drop s.ptr).take (min most s.left)) s.offset } := by
  have htotal := h.total
  have hlen : ((data.drop s.ptr).take (min most s.left)).length = min most s.left := by
    rw [List.length_take, List.length_drop]
    omega
  refine ⟨?_, ?_, ?_⟩
  · simp only [hlen]
    omega
  · simp only [h.position, Nat.add_assoc]
  · have hfront : (data.take s.ptr).length = s.ptr := by
      rw [List.length_take]
      omega
    have hjoin : data.take (s.ptr + min most s.left) =
        data.take s.ptr ++ (data.drop s.ptr).take (min most s.left) := List.take_add
    have hpiece := hcall.append file offset (data.take s.ptr) ((data.drop s.ptr).take (min most s.left))
    rw [hfront, ← h.position, ← h.written, ← hjoin] at hpiece
    simp only [hlen]
    exact hpiece

/-- Every pass of the loop keeps what has been written together, be it interrupted, refused or
accepted in part. -/
theorem Writing.pass (hcall : Piecewise call) (h : Writing call file data offset s) (turn : Turn) :
    Leads call file data offset (writePass call data turn s) := by
  have hends : ∀ {r : Outcome}, Ends call file data offset r →
      Leads call file data offset (.inr r) := by
    refine fun hr => ⟨nofun, fun r' hr' => ?_⟩
    cases hr'
    exact hr
  cases turn with
  | accept most => exact (h.accept hcall most).loopEnd
  | fail errno =>
      cases errno with
      | eintr => exact h.loopEnd
      | enospc =>
          refine hends ?_
          rw [h.written]
          exact .noSpace s.ptr
      | eio =>
          refine hends ?_
          rw [h.written]
          exact .io s.ptr
      | other errno =>
          refine hends ?_
          rw [h.written]
          exact .died s.ptr

theorem writing_start (hcall : Piecewise call) :
    Writing call file data offset (start file data offset) :=
  ⟨rfl, rfl, (hcall.nothing file offset).symm⟩

theorem Schedule.turn_cases (sched : Schedule) (i : Nat) :
    sched.turn i = .fail .eintr ∨ ∃ most, sched.turn i = .accept most := by
  cases hturn : sched.turn i with
  | accept most => exact .inr ⟨most, rfl⟩
  | fail errno =>
      rw [sched.benign i errno hturn]
      exact .inl rfl

/-- A pass in which nothing is accepted changes nothing, so the loop tries the same again. -/
theorem writePass_idle (hcall : Piecewise call) {turn : Turn}
    (hidle : turn = .fail .eintr ∨ turn = .accept 0) (hmore : 0 < s.left) :
    writePass call data turn s = .inl s := by
  rcases hidle with rfl | rfl
  · exact if_pos hmore
  · simp [writePass, loopEnd, hcall.nothing, hmore]

/-- With an obliging kernel everything is written: every pass that is not interrupted leaves
less to write. -/
theorem returns_all (hcall : Piecewise call) (sched : Schedule) :
    Returns (writePass call data) sched.turn (start file data offset)
      (.returned data.length (call file data offset)) := by
  have hdone : ∀ {s : Progress}, Writing call file data offset s → s.left = 0 →
      loopEnd data.length s = .inr (.returned data.length (call file data offset)) := by
    intro s h hleft
    have htotal := h.total
    rw [loopEnd, if_neg (by omega), h.written, show s.ptr = data.length by omega, List.take_length]
  by_cases hempty : data.length = 0
  · -- nothing to write: the first pass returns
    apply Returns.now
    rcases sched.turn_cases 0 with hturn | ⟨most, hturn⟩
    · rw [hturn]
      exact hdone (writing_start hcall) hempty
    · rw [hturn]
      refine hdone ((writing_start hcall).accept hcall most) ?_
      simp [start, hempty]
  apply returns_of_measure (fun s => Writing call file data offset s ∧ 0 < s.left) Progress.left
    (fun turn => turn = .fail .eintr ∨ turn = .accept 0)
  · rintro i s ⟨-, hmore⟩ hidle
    exact writePass_idle hcall hidle hmore
  · rintro i s ⟨h, hmore⟩ hbusy
    obtain ⟨most, hturn⟩ := (sched.turn_cases i).resolve_left fun hidle => hbusy (.inl hidle)
    have hsome : most ≠ 0 := by
      rintro rfl
      exact hbusy (.inr hturn)
    have htotal := h.total
    have hlen : ((data.drop s.ptr).take (min most s.left)).length = min most s.left := by
      rw [List.length_take, List.length_drop]
      omega
    have hnext := h.accept hcall most
    rw [hturn]
    by_cases hleft : s.left - ((data.drop s.ptr).take (min most s.left)).length = 0
    · exact .inl (hdone hnext hleft)
    · refine .inr ⟨_, if_pos (Nat.pos_of_ne_zero hleft), ⟨hnext, Nat.pos_of_ne_zero hleft⟩, ?_⟩
      show s.left - ((data.drop s.ptr).take (min most s.left)).length < s.left
      omega
  · obtain ⟨n, hn⟩ := sched.finite
    exact ⟨n, fun i hi hidle => hidle.elim (hn i hi).1 (hn i hi).2⟩
  · exact ⟨writing_start hcall, Nat.pos_of_ne_zero hempty⟩

/-- `PFU_safeWrite` ends with what the loop gives: everything is written, or a front of it and
an error. -/
theorem safeWrite_result {turns : Nat → Turn} {outcome : Outcome}
    (h : pfuSafeWrite turns file data outcome) : Ends write file data 0 outcome :=
  Returns.result (Writing write file data 0) (fun turn _ hs => hs.pass piecewise_write turn)
    (writing_start piecewise_write) h

/-- `PFU_safePwrite` ends with what the loop gives at its offset: everything is written, or a
front of it and an error. -/
theorem safePwrite_result {turns : Nat → Turn} {outcome : Outcome}
    (h : pfuSafePwrite turns file data offset outcome) : Ends pwrite file data offset outcome :=
  Returns.result (Writing pwrite file data offset) (fun turn _ hs => hs.pass piecewise_pwrite turn)
    (writing_start piecewise_pwrite) h

/-- **Writing.**  However the kernel answers, both functions end with all the data
written, or with an error and an initial part of it; and they return when it takes
the data in pieces, between any interruptions. -/
theorem safeWrite_ends (file : File) (data : List UInt8) (offset : Nat) :
    (∀ turns outcome, pfuSafeWrite turns file data outcome → Ends write file data 0 outcome) ∧
    (∀ turns outcome, pfuSafePwrite turns file data offset outcome →
      Ends pwrite file data offset outcome) ∧
    ∀ sched : Schedule,
      pfuSafeWrite sched.turn file data (.returned data.length (write file data 0)) ∧
      pfuSafePwrite sched.turn file data offset (.returned data.length (pwrite file data offset)) := by
  refine ⟨fun _ _ => safeWrite_result, fun _ _ => safePwrite_result, fun sched => ⟨?_, ?_⟩⟩
  · exact returns_all piecewise_write sched
  · exact returns_all piecewise_pwrite sched

end SafeWrites

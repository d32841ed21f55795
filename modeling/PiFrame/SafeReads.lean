import Mathlib.Algebra.Order.Group.Nat
import PiFrame.ByteMemory
import PiFrame.RetryLoop

/-!
# Reading a file to the last byte asked for

`PFU_safeRead` and `PFU_safePread` ask the kernel for what is left until nothing is
left.  The kernel may deliver fewer bytes than there are, though at least one, and a
signal may interrupt it.

`PFU_safeRead` also returns when nothing is delivered, which is at the end of the
file.  `PFU_safePread` goes on asking there: it returns exactly when the file is long
enough.
-/

namespace SafeReads

open ByteMemory RetryLoop

inductive Errno
  | eintr
  | eio
  | other (errno : Nat)
  deriving DecidableEq, Repr

/-- What the kernel decides about a call: to deliver so many bytes at most, or none. -/
inductive Turn
  | deliver (most : Nat)
  | fail (errno : Errno)
  deriving DecidableEq, Repr

/-- The bytes of a successful call, or `errno`. -/
abbrev Answer := List UInt8 ⊕ Errno

/-- `pread`, and `read` with the offset of the descriptor. -/
def pread (content : List UInt8) (turn : Turn) (count offset : Nat) : Answer :=
  match turn with
  | .deliver most => .inl ((content.drop offset).take (max 1 (min most count)))
  | .fail errno => .inr errno

/-- The variables of the loop; `ptr` and the memory are counted from `buf`. -/
structure Progress where
  left : Nat
  ptr : Nat
  offset : Nat
  memory : Memory

/-- How a call ends: it returns, or an assertion fails. -/
inductive Outcome
  | returned (value : Int) (memory : Memory)
  | died

def safeUtilErrorIo : Int := -2

/-- The bytes have been stored at `ptr`, and the variables go on by their number. -/
def Progress.advance (s : Progress) (data : List UInt8) : Progress where
  left := s.left - data.length
  ptr := s.ptr + data.length
  offset := s.offset + data.length
  memory := s.memory.store s.ptr data

/-- `while (left > 0)` and the return behind it. -/
def loopEnd (size : Nat) (s : Progress) : Progress ⊕ Outcome :=
  if 0 < s.left then .inl s else .inr (.returned size s.memory)

/-- The body of the loop in `PFU_safeRead`. -/
def readPass (content : List UInt8) (size : Nat) (turn : Turn) (s : Progress) :
    Progress ⊕ Outcome :=
  match pread content turn s.left s.offset with
  | .inr .eintr => loopEnd size s
  | .inr .eio => .inr (.returned safeUtilErrorIo s.memory)
  | .inr (.other _) => .inr (.returned (-1) s.memory)
  | .inl data =>
      if data.length ≠ s.left ∧ data.length = 0 then
        .inr (.returned ((size : Int) - s.left) s.memory)
      else loopEnd size (s.advance data)

/-- The body of the loop in `PFU_safePread`. -/
def preadPass (content : List UInt8) (size : Nat) (turn : Turn) (s : Progress) :
    Progress ⊕ Outcome :=
  match pread content turn s.left s.offset with
  | .inr .eintr => loopEnd size s
  | .inr .eio => .inr (.returned safeUtilErrorIo s.memory)
  | .inr (.other _) => .inr .died
  | .inl data => loopEnd size (s.advance data)

/-- Both calls start with everything left. -/
def start (buf : Memory) (size offset : Nat) : Progress := ⟨size, 0, offset, buf⟩

/-- `PFU_safeRead` on a descriptor that stands at `offset`. -/
def pfuSafeRead (content : List UInt8) (turns : Nat → Turn) (buf : Memory)
    (size offset fuel : Nat) : Option Outcome :=
  run (readPass content size) fuel turns (start buf size offset)

def pfuSafePread (content : List UInt8) (turns : Nat → Turn) (buf : Memory)
    (size offset fuel : Nat) : Option Outcome :=
  run (preadPass content size) fuel turns (start buf size offset)

/-- Short reads and interruptions, of which there are finitely many. -/
structure Schedule where
  turn : Nat → Turn
  benign : ∀ i errno, turn i = .fail errno → errno = .eintr
  finite : ∃ n, ∀ i ≥ n, turn i ≠ .fail .eintr

/-- As many bytes as are available, and exactly these in the buffer. -/
def delivered (content : List UInt8) (buf : Memory) (size offset : Nat) : Outcome :=
  .returned (min size (content.length - offset) : Nat)
    (buf.store 0 ((content.drop offset).take size))

/-- Both calls return, and with the same bytes. -/
def Agree (content : List UInt8) (sched : Schedule) (buf : Memory) (size offset : Nat) : Prop :=
  (∃ fuel, pfuSafePread content sched.turn buf size offset fuel
      = some (delivered content buf size offset)) ∧
    ∃ fuel, pfuSafeRead content sched.turn buf size offset fuel
      = some (delivered content buf size offset)

variable {content : List UInt8} {turn : Turn} {size offset : Nat} {buf : Memory} {s : Progress}

/-! ## Progress -/

/-- So much has been read from `offset` on, and it is in the buffer. -/
structure Loaded (content : List UInt8) (buf : Memory) (offset : Nat) (s : Progress) : Prop where
  position : s.offset = offset + s.ptr
  inside : s.ptr ≤ content.length - offset
  held : s.memory = buf.store 0 ((content.drop offset).take s.ptr)

/-- Some of the bytes asked for have been read, and some are left. -/
structure Reading (content : List UInt8) (buf : Memory) (size offset : Nat) (s : Progress) :
    Prop extends Loaded content buf offset s where
  total : s.left + s.ptr = size
  unfinished : 0 < s.left

/-- At the start nothing has been read, and the position is the offset. -/
theorem reading_start (hsize : 0 < size) :
    Reading content buf size offset (start buf size offset) where
  position := rfl
  inside := Nat.zero_le _
  held := store_nil.symm
  total := Nat.add_zero size
  unfinished := hsize

/-- The bytes that a successful call delivers. -/
def piece (content : List UInt8) (most : Nat) (s : Progress) : List UInt8 :=
  (content.drop s.offset).take (max 1 (min most s.left))

variable {most : Nat}

/-- A call reads what it is asked for, what the kernel gives and what there is, whichever is
least. -/
theorem Reading.length_piece (h : Reading content buf size offset s) (most : Nat) :
    (piece content most s).length
      = min (max 1 (min most s.left)) (content.length - offset - s.ptr) := by
  rw [piece, List.length_take, List.length_drop, h.position, Nat.sub_sub]

theorem Reading.length_piece_le (h : Reading content buf size offset s) (most : Nat) :
    (piece content most s).length ≤ s.left := by
  have hlen := h.length_piece most
  have hsome := h.unfinished
  omega

/-- Before the end of the file there is at least one byte. -/
theorem Reading.piece_pos (h : Reading content buf size offset s)
    (hmore : s.ptr < content.length - offset) : 0 < (piece content most s).length := by
  have hlen := h.length_piece most
  have hsome := h.unfinished
  omega

/-- At the end of the file there is nothing to read. -/
theorem Reading.piece_end (h : Reading content buf size offset s)
    (hend : s.ptr = content.length - offset) : piece content most s = [] := by
  rw [← List.length_eq_zero_iff, h.length_piece]
  omega

/-- What has been delivered is in the buffer behind the rest, and the position has moved by as
much. -/
theorem Reading.advance (h : Reading content buf size offset s) :
    Loaded content buf offset (s.advance (piece content most s)) := by
  have hlen := h.length_piece most
  have hinside := h.inside
  refine ⟨?_, ?_, ?_⟩
  · show s.offset + (piece content most s).length = _
    rw [h.position, Nat.add_assoc]
    rfl
  · show s.ptr + (piece content most s).length ≤ _
    omega
  · have hfront : ((content.drop offset).take s.ptr).length = s.ptr := by
      rw [List.length_take, List.length_drop, Nat.min_eq_left hinside]
    have hback : ((content.drop offset).drop s.ptr).take (piece content most s).length
        = piece content most s := by
      rw [List.drop_drop, ← h.position, piece, List.length_take, ← List.take_eq_take_min]
    have hjoin : (content.drop offset).take (s.ptr + (piece content most s).length)
        = (content.drop offset).take s.ptr ++ piece content most s := by
      rw [List.take_add, hback]
    have hstore := @store_append buf 0 ((content.drop offset).take s.ptr) (piece content most s)
    rw [Nat.zero_add, hfront, ← hjoin] at hstore
    show s.memory.store s.ptr _ = _
    rw [h.held]
    exact hstore

/-! ## One pass -/

/-- When nothing is left, the file had as many bytes as were asked for. -/
theorem Loaded.delivered (h : Loaded content buf offset s) (hall : s.ptr = size) :
    Outcome.returned size s.memory = delivered content buf size offset := by
  have hmin : min size (content.length - offset) = size := by
    rw [← hall]
    exact Nat.min_eq_left h.inside
  rw [SafeReads.delivered, hmin, h.held, hall]

/-- After a delivery the loop is over with what was asked for, or less is left. -/
theorem Reading.loopEnd (h : Reading content buf size offset s) :
    loopEnd size (s.advance (piece content most s)) = .inr (delivered content buf size offset) ∨
      ∃ s', loopEnd size (s.advance (piece content most s)) = .inl s' ∧
        Reading content buf size offset s' ∧
        s'.left = s.left - (piece content most s).length := by
  have hle := h.length_piece_le most
  have htotal := h.total
  let s' := s.advance (piece content most s)
  have hleft : s'.left = s.left - (piece content most s).length := rfl
  have hptr : s'.ptr = s.ptr + (piece content most s).length := rfl
  by_cases hmore : 0 < s'.left
  · exact .inr ⟨s', if_pos hmore, ⟨h.advance, by omega, hmore⟩, hleft⟩
  · refine .inl ((if_neg hmore).trans (congrArg Sum.inr (h.advance.delivered ?_)))
    show s'.ptr = size
    omega

/-- A pass of `PFU_safeRead` that is not at the end goes on with what it got. -/
theorem readPass_deliver (hend : ¬ ((piece content most s).length ≠ s.left ∧
      (piece content most s).length = 0)) :
    readPass content size (.deliver most) s = loopEnd size (s.advance (piece content most s)) :=
  if_neg hend

/-- A pass of `PFU_safePread` goes on with what it got, be it nothing. -/
theorem preadPass_deliver :
    preadPass content size (.deliver most) s = loopEnd size (s.advance (piece content most s)) :=
  rfl

/-- An interruption of `PFU_safeRead` is repeated. -/
theorem Reading.readPass_interrupted (h : Reading content buf size offset s) :
    readPass content size (.fail .eintr) s = .inl s :=
  if_pos h.unfinished

/-- An interruption of `PFU_safePread` is repeated. -/
theorem Reading.preadPass_interrupted (h : Reading content buf size offset s) :
    preadPass content size (.fail .eintr) s = .inl s :=
  if_pos h.unfinished

/-- At the end of the file `PFU_safeRead` returns with what there was. -/
theorem Reading.readPass_end (h : Reading content buf size offset s)
    (hend : s.ptr = content.length - offset) :
    readPass content size (.deliver most) s = .inr (delivered content buf size offset) := by
  have hnone : piece content most s = [] := h.piece_end hend
  have hsome := h.unfinished
  have htotal := h.total
  have hzero : (piece content most s).length ≠ s.left ∧ (piece content most s).length = 0 := by
    rw [hnone]
    exact ⟨hsome.ne, rfl⟩
  have hvalue : (size : Int) - s.left = (min size (content.length - offset) : Nat) := by omega
  have hbytes : (content.drop offset).take s.ptr = (content.drop offset).take size := by
    have hall : (content.drop offset).length = s.ptr := by rw [List.length_drop, hend]
    rw [List.take_of_length_le hall.le, List.take_of_length_le (by omega)]
  refine (if_pos hzero).trans ?_
  rw [delivered, hvalue, h.held, hbytes]

/-! ## The calls -/

theorem Schedule.turn_cases (sched : Schedule) (i : Nat) :
    sched.turn i = .fail .eintr ∨ ∃ most, sched.turn i = .deliver most := by
  cases hturn : sched.turn i with
  | deliver most => exact .inr ⟨most, rfl⟩
  | fail errno =>
      rw [sched.benign i errno hturn]
      exact .inl rfl

variable {sched : Schedule}

/-- `PFU_safeRead` returns under every fair kernel: each delivery leaves less to read, or is
empty and ends the loop. -/
theorem safeRead_returns (hsize : 0 < size) :
    Returns (readPass content size) sched.turn (start buf size offset)
      (delivered content buf size offset) := by
  apply returns_of_measure (Reading content buf size offset) Progress.left (· = .fail .eintr)
  · intro i s h hidle
    rw [hidle]
    exact h.readPass_interrupted
  · intro i s h hbusy
    obtain ⟨most, hturn⟩ := (sched.turn_cases i).resolve_left hbusy
    rw [hturn]
    by_cases hend : s.ptr = content.length - offset
    · exact .inl (h.readPass_end hend)
    · have hpos : 0 < (piece content most s).length := by
        apply h.piece_pos
        have hinside := h.inside
        omega
      rw [readPass_deliver fun hzero => hpos.ne' hzero.2]
      refine h.loopEnd.imp_right fun ⟨s', hs', hreading, hleft⟩ => ⟨s', hs', hreading, ?_⟩
      have hsome := h.unfinished
      omega
  · exact sched.finite
  · exact reading_start hsize

/-- `PFU_safePread` returns under every fair kernel, if the file is long enough. -/
theorem safePread_returns (hsize : 0 < size) (hlong : offset + size ≤ content.length) :
    Returns (preadPass content size) sched.turn (start buf size offset)
      (delivered content buf size offset) := by
  apply returns_of_measure (Reading content buf size offset) Progress.left (· = .fail .eintr)
  · intro i s h hidle
    rw [hidle]
    exact h.preadPass_interrupted
  · intro i s h hbusy
    obtain ⟨most, hturn⟩ := (sched.turn_cases i).resolve_left hbusy
    have hsome := h.unfinished
    have htotal := h.total
    have hpos : 0 < (piece content most s).length := h.piece_pos (by omega)
    rw [hturn, preadPass_deliver]
    refine h.loopEnd.imp_right fun ⟨s', hs', hreading, hleft⟩ => ⟨s', hs', hreading, ?_⟩
    omega
  · exact sched.finite
  · exact reading_start hsize

/-- When the file is too short, `PFU_safePread` does not return: something is left after every
pass, and the loop has no other end. -/
theorem safePread_stuck (hsize : 0 < size) (hshort : content.length < offset + size)
    {outcome : Outcome} :
    ¬ Returns (preadPass content size) sched.turn (start buf size offset) outcome := by
  apply not_returns_of_invariant (Reading content buf size offset)
  · intro i s h
    rcases sched.turn_cases i with hturn | ⟨most, hturn⟩
    · rw [hturn]
      exact ⟨s, h.preadPass_interrupted, h⟩
    · have htotal := h.total
      have hle := h.length_piece_le most
      have hinside : s.ptr + (piece content most s).length ≤ content.length - offset :=
        h.advance.inside
      have hsome := h.unfinished
      have hleft : 0 < (s.advance (piece content most s)).left := by
        show 0 < s.left - (piece content most s).length
        omega
      rw [hturn, preadPass_deliver]
      refine ⟨_, if_pos hleft, h.advance, ?_, hleft⟩
      show s.left - _ + (s.ptr + _) = size
      omega
  · exact reading_start hsize

/-- **The two calls.**  They agree exactly when the file has all the bytes that are
asked for. -/
theorem safePread_agrees_iff (content : List UInt8) (sched : Schedule) (buf : Memory)
    (size offset : Nat) (hsize : 0 < size) :
    Agree content sched buf size offset ↔ offset + size ≤ content.length := by
  constructor
  · intro ⟨hpread, _⟩
    by_contra hshort
    exact safePread_stuck hsize (by omega) hpread
  · exact fun hlong => ⟨safePread_returns hsize hlong, safeRead_returns hsize⟩

/-- A kernel that delivers everything, after one interruption. -/
def interruptedOnce : Schedule where
  turn := fun i => if i = 0 then .fail .eintr else .deliver 8
  benign := by
    intro i errno h
    split at h
    · cases h
      rfl
    · cases h
  finite := ⟨1, fun i hi => by rw [if_neg (by omega)]; exact Turn.noConfusion⟩

/-- Three bytes of a file of four. -/
theorem safePread_agrees_three :
    0 < 3 ∧ Agree [1, 2, 3, 4] interruptedOnce (fun _ => 0) 3 1 :=
  ⟨by decide, (safePread_agrees_iff [1, 2, 3, 4] interruptedOnce (fun _ => 0) 3 1 (by decide)).mpr
    (by decide)⟩

/-- Four bytes where the file has three. -/
theorem safePread_short : ¬ Agree [1, 2, 3, 4] interruptedOnce (fun _ => 0) 4 1 :=
  fun ⟨hpread, _⟩ => safePread_stuck (by decide) (by decide) hpread

end SafeReads

import Mathlib.Data.List.Zip

/-!
# Checksums that are computed bit by bit

A register of `w` bits takes in a message one bit at a time, the leading bit of
the register against the bit of the message: it is shifted, and the polynomial
is added to it when the two bits differ.  Nothing here depends on the width or
the polynomial.

Two facts carry everything else: the register and the message enter linearly,
and a register that takes in its own leading bits is only shifted.  So `n` bits
can be taken in at once, with a look at a table for the `n` leading bits, and a
message that ends with its own checksum leaves nothing.
-/

namespace SerialCrc

variable {w : Nat} {poly : BitVec w}

/-- One bit of the message. -/
def takeBit (poly r : BitVec w) (bit : Bool) : BitVec w :=
  if r.msb != bit then (r <<< 1) ^^^ poly else r <<< 1

def takeBits (poly r : BitVec w) (bits : List Bool) : BitVec w :=
  bits.foldl (takeBit poly) r

/-- The `n` leading bits of a word, the first one first. -/
def leading : Nat → BitVec w → List Bool
  | 0, _ => []
  | n + 1, r => r.msb :: leading n (r <<< 1)

variable {n : Nat} {r s : BitVec w} {bits others : List Bool}

/-- There are as many leading bits as are asked for. -/
@[simp] theorem length_leading : (leading n r).length = n := by
  induction n generalizing r with
  | zero => rfl
  | succ n ih => rw [leading, List.length_cons, ih]

/-- Bits are taken in one after the other, the first one first. -/
theorem takeBits_cons {bit : Bool} :
    takeBits poly r (bit :: bits) = takeBits poly (takeBit poly r bit) bits := rfl

/-- Two rows of bits are taken in one after the other. -/
theorem takeBits_append :
    takeBits poly r (bits ++ others) = takeBits poly (takeBits poly r bits) others :=
  List.foldl_append

/-- The leading bits of a register are some and those of what is left. -/
theorem leading_add {m : Nat} : leading (m + n) r = leading m r ++ leading n (r <<< m) := by
  induction m generalizing r with
  | zero => rw [Nat.zero_add, BitVec.shiftLeft_zero, leading, List.nil_append]
  | succ m ih =>
      rw [Nat.succ_add, leading, ih, leading, List.cons_append, ← BitVec.shiftLeft_add,
        Nat.add_comm 1 m]

/-! ## Linearity -/

/-- What is added to the shifted register. -/
def feedback (poly : BitVec w) (differ : Bool) : BitVec w := if differ then poly else 0#w

/-- One bit shifts the register and feeds back the sum of the bit and the one that falls out. -/
theorem takeBit_eq {bit : Bool} :
    takeBit poly r bit = r <<< 1 ^^^ feedback poly (r.msb ^^ bit) := by
  rw [takeBit, feedback]
  cases r.msb <;> cases bit <;> simp

theorem feedback_xor {x y : Bool} :
    feedback poly (x ^^ y) = feedback poly x ^^^ feedback poly y := by
  cases x <;> cases y <;> simp [feedback]

theorem takeBit_xor {bit other : Bool} :
    takeBit poly (r ^^^ s) (bit ^^ other) = takeBit poly r bit ^^^ takeBit poly s other := by
  have hdiffer : ((r ^^^ s).msb ^^ (bit ^^ other)) = ((r.msb ^^ bit) ^^ (s.msb ^^ other)) := by
    rw [BitVec.msb_xor, Bool.xor_assoc, Bool.xor_left_comm s.msb, ← Bool.xor_assoc]
  simp only [takeBit_eq, hdiffer, feedback_xor, BitVec.shiftLeft_xor_distrib]
  ac_rfl

/-- The register and the message enter linearly. -/
theorem takeBits_xor (hlen : bits.length = others.length) :
    takeBits poly (r ^^^ s) (List.zipWith Bool.xor bits others)
      = takeBits poly r bits ^^^ takeBits poly s others := by
  induction bits generalizing others r s with
  | nil =>
      rw [List.length_nil, eq_comm, List.length_eq_zero_iff] at hlen
      subst hlen
      rfl
  | cons bit bits ih =>
      cases others with
      | nil => cases hlen
      | cons other others =>
          rw [List.zipWith_cons_cons, takeBits_cons, takeBits_cons, takeBits_cons, takeBit_xor]
          exact ih (Nat.succ.inj hlen)

/-! ## The leading bits -/

/-- A register that takes in its own leading bits is shifted. -/
theorem takeBits_leading : takeBits poly r (leading n r) = r <<< n := by
  induction n generalizing r with
  | zero => exact (BitVec.shiftLeft_zero r).symm
  | succ n ih =>
      have hfirst : takeBit poly r r.msb = r <<< 1 := if_neg (by simp)
      rw [leading, takeBits_cons, hfirst, ih, ← BitVec.shiftLeft_add, Nat.add_comm]

/-- Taken in with all its own bits, a register is empty. -/
theorem takeBits_self : takeBits poly r (leading w r) = 0#w := by
  rw [takeBits_leading, BitVec.shiftLeft_eq_zero le_rfl]

/-- `n` bits at once: the register is shifted, and what is added to it depends only
on the bits in which its leading ones differ from the message. -/
theorem takeBits_eq (hlen : bits.length = n) :
    takeBits poly r bits
      = takeBits poly 0#w (List.zipWith Bool.xor (leading n r) bits) ^^^ r <<< n := by
  have hcancel : List.zipWith Bool.xor (List.zipWith Bool.xor (leading n r) bits) (leading n r)
      = bits := by
    have hlead : (leading n r).length = bits.length := length_leading.trans hlen.symm
    generalize leading n r = lead at hlead
    clear hlen
    induction bits generalizing lead with
    | nil =>
        rw [List.length_eq_zero_iff.mp hlead]
        rfl
    | cons bit bits ih =>
        cases lead with
        | nil => cases hlead
        | cons first lead =>
            rw [List.zipWith_cons_cons, List.zipWith_cons_cons, ih lead (Nat.succ.inj hlead)]
            cases bit <;> cases first <;> rfl
  have hzip : (List.zipWith Bool.xor (leading n r) bits).length = (leading n r).length := by
    rw [List.length_zipWith, length_leading, hlen, Nat.min_self]
  rw [← @takeBits_leading _ poly, ← takeBits_xor hzip, hcancel, BitVec.zero_xor]

/-- The leading bits, each by its place. -/
theorem leading_eq_map : leading n r = (List.range n).map r.getMsbD := by
  induction n generalizing r with
  | zero => rfl
  | succ n ih =>
      rw [leading, ih, List.range_succ_eq_map, List.map_cons, List.map_map,
        BitVec.msb_eq_getMsbD_zero]
      congr 1
      apply List.map_congr_left
      intro i _
      rw [BitVec.getMsbD_shiftLeft]
      rfl

/-- The leading bits of a sum are the sums of the leading bits. -/
theorem zipWith_leading : List.zipWith Bool.xor (leading n r) (leading n s)
    = leading n (r ^^^ s) := by
  induction n generalizing r s with
  | zero => rfl
  | succ n ih =>
      rw [leading, leading, leading, List.zipWith_cons_cons, ih, BitVec.shiftLeft_xor_distrib,
        BitVec.msb_xor]

end SerialCrc

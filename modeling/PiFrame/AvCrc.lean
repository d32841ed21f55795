import PiFrame.SerialCrc

/-!
# The checksum of the transport streams

`PFU_avCRC` takes a message in byte by byte, through a table of 256 words and a
register whose bytes are in the opposite order.  With the built-in table it is the
checksum that is computed bit by bit, the leading bit first.
-/

namespace AvCrc

open SerialCrc

/-- The polynomial of the checksum. -/
def poly : BitVec 32 := 0x04C11DB7#32

/-- The built-in table, and the word behind it that no byte leads to. -/
def avCtx : List (BitVec 32) := [
  0x00000000#32, 0xB71DC104#32, 0x6E3B8209#32, 0xD926430D#32, 0xDC760413#32, 0x6B6BC517#32,
  0xB24D861A#32, 0x0550471E#32, 0xB8ED0826#32, 0x0FF0C922#32, 0xD6D68A2F#32, 0x61CB4B2B#32,
  0x649B0C35#32, 0xD386CD31#32, 0x0AA08E3C#32, 0xBDBD4F38#32, 0x70DB114C#32, 0xC7C6D048#32,
  0x1EE09345#32, 0xA9FD5241#32, 0xACAD155F#32, 0x1BB0D45B#32, 0xC2969756#32, 0x758B5652#32,
  0xC836196A#32, 0x7F2BD86E#32, 0xA60D9B63#32, 0x11105A67#32, 0x14401D79#32, 0xA35DDC7D#32,
  0x7A7B9F70#32, 0xCD665E74#32, 0xE0B62398#32, 0x57ABE29C#32, 0x8E8DA191#32, 0x39906095#32,
  0x3CC0278B#32, 0x8BDDE68F#32, 0x52FBA582#32, 0xE5E66486#32, 0x585B2BBE#32, 0xEF46EABA#32,
  0x3660A9B7#32, 0x817D68B3#32, 0x842D2FAD#32, 0x3330EEA9#32, 0xEA16ADA4#32, 0x5D0B6CA0#32,
  0x906D32D4#32, 0x2770F3D0#32, 0xFE56B0DD#32, 0x494B71D9#32, 0x4C1B36C7#32, 0xFB06F7C3#32,
  0x2220B4CE#32, 0x953D75CA#32, 0x28803AF2#32, 0x9F9DFBF6#32, 0x46BBB8FB#32, 0xF1A679FF#32,
  0xF4F63EE1#32, 0x43EBFFE5#32, 0x9ACDBCE8#32, 0x2DD07DEC#32, 0x77708634#32, 0xC06D4730#32,
  0x194B043D#32, 0xAE56C539#32, 0xAB068227#32, 0x1C1B4323#32, 0xC53D002E#32, 0x7220C12A#32,
  0xCF9D8E12#32, 0x78804F16#32, 0xA1A60C1B#32, 0x16BBCD1F#32, 0x13EB8A01#32, 0xA4F64B05#32,
  0x7DD00808#32, 0xCACDC90C#32, 0x07AB9778#32, 0xB0B6567C#32, 0x69901571#32, 0xDE8DD475#32,
  0xDBDD936B#32, 0x6CC0526F#32, 0xB5E61162#32, 0x02FBD066#32, 0xBF469F5E#32, 0x085B5E5A#32,
  0xD17D1D57#32, 0x6660DC53#32, 0x63309B4D#32, 0xD42D5A49#32, 0x0D0B1944#32, 0xBA16D840#32,
  0x97C6A5AC#32, 0x20DB64A8#32, 0xF9FD27A5#32, 0x4EE0E6A1#32, 0x4BB0A1BF#32, 0xFCAD60BB#32,
  0x258B23B6#32, 0x9296E2B2#32, 0x2F2BAD8A#32, 0x98366C8E#32, 0x41102F83#32, 0xF60DEE87#32,
  0xF35DA999#32, 0x4440689D#32, 0x9D662B90#32, 0x2A7BEA94#32, 0xE71DB4E0#32, 0x500075E4#32,
  0x892636E9#32, 0x3E3BF7ED#32, 0x3B6BB0F3#32, 0x8C7671F7#32, 0x555032FA#32, 0xE24DF3FE#32,
  0x5FF0BCC6#32, 0xE8ED7DC2#32, 0x31CB3ECF#32, 0x86D6FFCB#32, 0x8386B8D5#32, 0x349B79D1#32,
  0xEDBD3ADC#32, 0x5AA0FBD8#32, 0xEEE00C69#32, 0x59FDCD6D#32, 0x80DB8E60#32, 0x37C64F64#32,
  0x3296087A#32, 0x858BC97E#32, 0x5CAD8A73#32, 0xEBB04B77#32, 0x560D044F#32, 0xE110C54B#32,
  0x38368646#32, 0x8F2B4742#32, 0x8A7B005C#32, 0x3D66C158#32, 0xE4408255#32, 0x535D4351#32,
  0x9E3B1D25#32, 0x2926DC21#32, 0xF0009F2C#32, 0x471D5E28#32, 0x424D1936#32, 0xF550D832#32,
  0x2C769B3F#32, 0x9B6B5A3B#32, 0x26D61503#32, 0x91CBD407#32, 0x48ED970A#32, 0xFFF0560E#32,
  0xFAA01110#32, 0x4DBDD014#32, 0x949B9319#32, 0x2386521D#32, 0x0E562FF1#32, 0xB94BEEF5#32,
  0x606DADF8#32, 0xD7706CFC#32, 0xD2202BE2#32, 0x653DEAE6#32, 0xBC1BA9EB#32, 0x0B0668EF#32,
  0xB6BB27D7#32, 0x01A6E6D3#32, 0xD880A5DE#32, 0x6F9D64DA#32, 0x6ACD23C4#32, 0xDDD0E2C0#32,
  0x04F6A1CD#32, 0xB3EB60C9#32, 0x7E8D3EBD#32, 0xC990FFB9#32, 0x10B6BCB4#32, 0xA7AB7DB0#32,
  0xA2FB3AAE#32, 0x15E6FBAA#32, 0xCCC0B8A7#32, 0x7BDD79A3#32, 0xC660369B#32, 0x717DF79F#32,
  0xA85BB492#32, 0x1F467596#32, 0x1A163288#32, 0xAD0BF38C#32, 0x742DB081#32, 0xC3307185#32,
  0x99908A5D#32, 0x2E8D4B59#32, 0xF7AB0854#32, 0x40B6C950#32, 0x45E68E4E#32, 0xF2FB4F4A#32,
  0x2BDD0C47#32, 0x9CC0CD43#32, 0x217D827B#32, 0x9660437F#32, 0x4F460072#32, 0xF85BC176#32,
  0xFD0B8668#32, 0x4A16476C#32, 0x93300461#32, 0x242DC565#32, 0xE94B9B11#32, 0x5E565A15#32,
  0x87701918#32, 0x306DD81C#32, 0x353D9F02#32, 0x82205E06#32, 0x5B061D0B#32, 0xEC1BDC0F#32,
  0x51A69337#32, 0xE6BB5233#32, 0x3F9D113E#32, 0x8880D03A#32, 0x8DD09724#32, 0x3ACD5620#32,
  0xE3EB152D#32, 0x54F6D429#32, 0x7926A9C5#32, 0xCE3B68C1#32, 0x171D2BCC#32, 0xA000EAC8#32,
  0xA550ADD6#32, 0x124D6CD2#32, 0xCB6B2FDF#32, 0x7C76EEDB#32, 0xC1CBA1E3#32, 0x76D660E7#32,
  0xAFF023EA#32, 0x18EDE2EE#32, 0x1DBDA5F0#32, 0xAAA064F4#32, 0x738627F9#32, 0xC49BE6FD#32,
  0x09FDB889#32, 0xBEE0798D#32, 0x67C63A80#32, 0xD0DBFB84#32, 0xD58BBC9A#32, 0x62967D9E#32,
  0xBBB03E93#32, 0x0CADFF97#32, 0xB110B0AF#32, 0x060D71AB#32, 0xDF2B32A6#32, 0x6836F3A2#32,
  0x6D66B4BC#32, 0xDA7B75B8#32, 0x035D36B5#32, 0xB440F7B1#32, 0x00000001#32]

/-- `PFU_avCRC`; without a table it is the built-in one. -/
def pfuAvCRC (ctx : Option (List (BitVec 32))) (crc : BitVec 32) (buffer : List (BitVec 8)) :
    BitVec 32 :=
  let ctx := ctx.getD avCtx
  buffer.foldl (fun crc byte => ctx.getD (crc.setWidth 8 ^^^ byte).toNat 0#32 ^^^ crc >>> 8) crc

/-- The four bytes of a word in the opposite order. -/
def byteSwap (x : BitVec 32) : BitVec 32 :=
  x.extractLsb' 0 8 ++ x.extractLsb' 8 8 ++ x.extractLsb' 16 8 ++ x.extractLsb' 24 8

/-- The bits of a message, the leading bit of each byte first. -/
def bitsOf (buffer : List (BitVec 8)) : List Bool := buffer.flatMap (leading 8)

/-- The four bytes of a word, the lowest one first. -/
def littleEndian (x : BitVec 32) : List (BitVec 8) :=
  [x.setWidth 8, (x >>> 8).setWidth 8, (x >>> 16).setWidth 8, (x >>> 24).setWidth 8]

variable {x y crc : BitVec 32} {byte : BitVec 8} {buffer : List (BitVec 8)}

/-! ## Words in the opposite order -/

/-- Each bit keeps its place in its byte. -/
theorem getLsbD_byteSwap (i : Nat) (hi : i < 32) :
    (byteSwap x).getLsbD i = x.getLsbD (24 - i / 8 * 8 + i % 8) := by
  simp only [byteSwap, BitVec.getLsbD_append, BitVec.getLsbD_extractLsb']
  have hmod : i % 8 < 8 := Nat.mod_lt i (by decide)
  have hbyte : i / 8 = 0 ∨ i / 8 = 1 ∨ i / 8 = 2 ∨ i / 8 = 3 := by omega
  rcases hbyte with h | h | h | h
  · rw [if_pos (by omega), decide_eq_true (by omega), Bool.true_and]
    congr 1
    omega
  · rw [if_neg (by omega), if_pos (by omega), decide_eq_true (by omega), Bool.true_and]
    congr 1
    omega
  · rw [if_neg (by omega), if_neg (by omega), if_pos (by omega), decide_eq_true (by omega),
      Bool.true_and]
    congr 1
    omega
  · rw [if_neg (by omega), if_neg (by omega), if_neg (by omega), decide_eq_true (by omega),
      Bool.true_and]
    congr 1
    omega

theorem byteSwap_xor : byteSwap (x ^^^ y) = byteSwap x ^^^ byteSwap y := by
  apply BitVec.eq_of_getLsbD_eq
  intro i hi
  simp only [BitVec.getLsbD_xor, getLsbD_byteSwap i hi]

theorem byteSwap_byteSwap : byteSwap (byteSwap x) = x := by
  apply BitVec.eq_of_getLsbD_eq
  intro i hi
  rw [getLsbD_byteSwap i hi, getLsbD_byteSwap _ (by omega)]
  congr 1
  omega

/-- A shift by a byte goes the other way behind the swap. -/
theorem byteSwap_shift : byteSwap (x >>> 8) = byteSwap x <<< 8 := by
  apply BitVec.eq_of_getLsbD_eq
  intro i hi
  rw [getLsbD_byteSwap i hi, BitVec.getLsbD_ushiftRight, BitVec.getLsbD_shiftLeft,
    decide_eq_true hi, Bool.true_and]
  by_cases hlow : i < 8
  · rw [decide_eq_true hlow, Bool.not_true, Bool.false_and]
    exact BitVec.getLsbD_of_ge x _ (by omega)
  · rw [decide_eq_false hlow, Bool.not_false, Bool.true_and, getLsbD_byteSwap _ (by omega)]
    congr 1
    omega

/-- The first bits behind the swap are those of the last byte. -/
theorem leading_byteSwap : leading 8 (byteSwap x) = leading 8 (x.setWidth 8) := by
  rw [leading_eq_map, leading_eq_map]
  apply List.map_congr_left
  intro i hi
  have hi : i < 8 := List.mem_range.mp hi
  rw [BitVec.getMsbD_eq_getLsbD, BitVec.getMsbD_eq_getLsbD, getLsbD_byteSwap _ (by omega),
    BitVec.getLsbD_setWidth, decide_eq_true (by omega), decide_eq_true hi,
    decide_eq_true (by omega)]
  congr 2
  omega

/-! ## The table -/

/-- Each word of the table is what eight bits make of an empty register. -/
theorem table_eq : ∀ index : BitVec 8,
    byteSwap (avCtx.getD index.toNat 0#32) = takeBits poly 0#32 (leading 8 index) := by
  decide +kernel

/-- A byte through the table is a byte bit by bit. -/
theorem byteSwap_step :
    byteSwap (avCtx.getD (crc.setWidth 8 ^^^ byte).toNat 0#32 ^^^ crc >>> 8)
      = takeBits poly (byteSwap crc) (leading 8 byte) := by
  rw [byteSwap_xor, byteSwap_shift, table_eq, takeBits_eq (r := byteSwap crc) length_leading,
    leading_byteSwap, zipWith_leading]

/-! ## Messages -/

/-- Through the table or bit by bit, it is the same register in the opposite order. -/
theorem byteSwap_avCRC :
    byteSwap (pfuAvCRC none crc buffer) = takeBits poly (byteSwap crc) (bitsOf buffer) := by
  induction buffer generalizing crc with
  | nil => rfl
  | cons byte buffer ih =>
      have hbits : bitsOf (byte :: buffer) = leading 8 byte ++ bitsOf buffer :=
        List.flatMap_cons
      have hstep : pfuAvCRC none crc (byte :: buffer)
          = pfuAvCRC none (avCtx.getD (crc.setWidth 8 ^^^ byte).toNat 0#32 ^^^ crc >>> 8)
            buffer := rfl
      rw [hbits, hstep, ih, byteSwap_step, takeBits_append]

/-- The CRC of two pieces goes on from that of the first. -/
theorem avCRC_append {front back : List (BitVec 8)} :
    pfuAvCRC none crc (front ++ back) = pfuAvCRC none (pfuAvCRC none crc front) back :=
  List.foldl_append

/-- The bits of a word in little-endian order are those of the swapped word. -/
theorem bitsOf_littleEndian : bitsOf (littleEndian x) = leading 32 (byteSwap x) := by
  have hparts : leading 32 (byteSwap x) = leading 8 (byteSwap x) ++ (leading 8 (byteSwap x <<< 8)
      ++ (leading 8 (byteSwap x <<< 8 <<< 8) ++ leading 8 (byteSwap x <<< 8 <<< 8 <<< 8))) := by
    rw [← leading_add, ← leading_add, ← leading_add]
  have hshift : x >>> 16 = x >>> 8 >>> 8 ∧ x >>> 24 = x >>> 8 >>> 8 >>> 8 := by
    rw [← BitVec.shiftRight_add, ← BitVec.shiftRight_add]
    exact ⟨rfl, rfl⟩
  rw [hparts, bitsOf, littleEndian, hshift.1, hshift.2]
  simp only [← byteSwap_shift, leading_byteSwap, List.flatMap_cons, List.flatMap_nil,
    List.append_nil]

/-- A register that takes in itself is empty. -/
theorem avCRC_littleEndian : pfuAvCRC none crc (littleEndian crc) = 0#32 := by
  rw [← byteSwap_byteSwap (x := pfuAvCRC none crc (littleEndian crc)), byteSwap_avCRC,
    bitsOf_littleEndian, takeBits_self]
  rfl

/-- **The checksum.**  With the built-in table the register is, in the opposite order
of bytes, that of the checksum computed bit by bit, and a message that ends with its
own checksum leaves nothing. -/
theorem avCRC_serial (crc : BitVec 32) (buffer : List (BitVec 8)) :
    byteSwap (pfuAvCRC none crc buffer) = takeBits poly (byteSwap crc) (bitsOf buffer) ∧
      pfuAvCRC none crc (buffer ++ littleEndian (pfuAvCRC none crc buffer)) = 0#32 := by
  refine ⟨byteSwap_avCRC, ?_⟩
  rw [avCRC_append, avCRC_littleEndian]

end AvCrc

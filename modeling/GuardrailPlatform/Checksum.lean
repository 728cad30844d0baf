import GuardrailPlatform.CrcPolynomial
import GuardrailPlatform.Nkeys

/-!
# The checksum of an nkey

`CRC_TABLE` and `withChecksum` of `generate-auth.ts`, with JavaScript's 32-bit
operators.  A remainder never leaves the lowest sixteen places, so a step of the
loop is a step of the register in `Crc`: the table is its table, every index is
in it, and what is appended is the remainder of the message.
-/

namespace Guardrail

/-! ## As the code computes it -/

/-- A round of the inner loop that fills the table. -/
def crcBit (crc : BitVec 32) : BitVec 32 :=
  if crc &&& 0x8000#32 ≠ 0#32 then ((crc <<< 1) ^^^ 0x1021#32) &&& 0xffff#32
  else (crc <<< 1) &&& 0xffff#32

/-- `CRC_TABLE`: storing into it keeps sixteen bits. -/
def crcTable : List (BitVec 16) :=
  (List.range 256).map fun index => (crcBit^[8] (BitVec.ofNat 32 index <<< 8)).setWidth 16

/-- The index at which the loop of `withChecksum` reads the table. -/
def crcIndex (crc : BitVec 32) (byte : UInt8) : ℕ :=
  (((crc.sshiftRight 8) ^^^ byte.toBitVec.setWidth 32) &&& 0xff#32).toNat

/-- The loop's body, where an entry beyond the table reads as zero. -/
def crcStep (crc : BitVec 32) (byte : UInt8) : BitVec 32 :=
  (((crc <<< 8) &&& 0xffff#32) ^^^ (crcTable[crcIndex crc byte]?.getD 0#16).setWidth 32)
    &&& 0xffff#32

/-- The loop of `withChecksum`. -/
def crcLoop (raw : List UInt8) : BitVec 32 := raw.foldl crcStep 0#32

def withChecksum (raw : List UInt8) : List UInt8 :=
  raw ++ [(crcLoop raw &&& 0xff#32).toNat.toUInt8,
    ((crcLoop raw).sshiftRight 8 &&& 0xff#32).toNat.toUInt8]

/-! ## As it is defined -/

/-- CRC-16/XMODEM's polynomial, `X ^ 16 + X ^ 12 + X ^ 5 + 1`. -/
def xmodem : BitVec 16 := 0x1021#16

/-- The bits of a message, each byte's highest first. -/
def messageBits (bytes : List UInt8) : List Bool := bytes.flatMap fun byte => Crc.bitsOf byte.toBitVec

/-- CRC-16/XMODEM, bit by bit over the whole message. -/
def crc16 (bytes : List UInt8) : BitVec 16 := Crc.checksum xmodem (messageBits bytes)

/-- A word of sixteen bits, its low byte first. -/
def littleEndian (word : BitVec 16) : List UInt8 :=
  [UInt8.ofBitVec (word.setWidth 8), UInt8.ofBitVec ((word >>> 8).setWidth 8)]

example : littleEndian (crc16 [0x31, 0x32, 0x33, 0x34, 0x35, 0x36, 0x37, 0x38, 0x39]) =
    [0xc3, 0x31] := by decide +kernel

/-! ## Sixteen bits in thirty-two -/

/-- Masking a word with sixteen ones keeps its low half and clears the rest. -/
theorem and_ffff (x : BitVec 32) : x &&& 0xffff#32 = (x.setWidth 16).setWidth 32 := by
  apply BitVec.eq_of_toNat_eq
  rw [BitVec.toNat_and, BitVec.toNat_setWidth, BitVec.toNat_setWidth]
  have hmask := Nat.and_two_pow_sub_one_eq_mod x.toNat 16
  have hsmall : x.toNat % 2 ^ 16 < 2 ^ 32 := Nat.lt_of_lt_of_le (Nat.mod_lt _ (by decide)) (by decide)
  rw [Nat.mod_eq_of_lt hsmall]
  exact hmask

/-- Masking a word with eight ones keeps its low byte and clears the rest. -/
theorem and_ff (x : BitVec 32) : x &&& 0xff#32 = (x.setWidth 8).setWidth 32 := by
  apply BitVec.eq_of_toNat_eq
  rw [toNat_and_255, BitVec.toNat_setWidth, BitVec.toNat_setWidth]
  have hsmall : x.toNat % 2 ^ 8 < 2 ^ 32 := Nat.lt_of_lt_of_le (Nat.mod_lt _ (by decide)) (by decide)
  rw [Nat.mod_eq_of_lt hsmall]

/-- A register of sixteen bits comes back from a word of 32. -/
theorem setWidth_setWidth_self (r : BitVec 16) : (r.setWidth 32).setWidth 16 = r := by
  rw [BitVec.setWidth_setWidth_of_le _ (by decide), BitVec.setWidth_eq]

/-- Shifting a register in 32 bits and cutting it back is shifting it in its own sixteen. -/
theorem setWidth_shiftLeft (r : BitVec 16) (n : ℕ) :
    ((r.setWidth 32) <<< n).setWidth 16 = r <<< n := by
  apply BitVec.eq_of_toNat_eq
  rw [BitVec.toNat_setWidth, BitVec.toNat_shiftLeft, BitVec.toNat_shiftLeft, BitVec.toNat_setWidth]
  have hr : r.toNat % 2 ^ 32 = r.toNat := Nat.mod_eq_of_lt (Nat.lt_trans r.isLt (by decide))
  rw [hr, Nat.mod_mod_of_dvd _ (by decide : 2 ^ 16 ∣ 2 ^ 32)]

/-- The bit that the loop tests, masked out of the wider register, is the highest of the
sixteen. -/
theorem and_8000 (r : BitVec 16) : r.setWidth 32 &&& 0x8000#32 ≠ 0#32 ↔ r.msb = true := by
  have hplace : (r.setWidth 32).getLsbD 15 = r.msb := by
    rw [BitVec.getLsbD_setWidth, BitVec.msb_eq_getLsbD_last]
    rfl
  have hmask : (0x8000#32) = BitVec.twoPow 32 15 := by decide
  rw [hmask, BitVec.and_twoPow, hplace]
  cases r.msb with
  | false => simp
  | true =>
      simp only [if_true, iff_true]
      decide

/-- One round of the inner loop is one shift of the register. -/
theorem crcBit_setWidth (r : BitVec 16) :
    crcBit (r.setWidth 32) = (Crc.shift xmodem r).setWidth 32 := by
  rw [crcBit, Crc.shift]
  by_cases hmsb : r.msb = true
  · rw [if_pos ((and_8000 r).mpr hmsb), if_pos hmsb, and_ffff, BitVec.setWidth_xor,
      setWidth_shiftLeft]
    rfl
  · rw [if_neg (mt (and_8000 r).mp hmsb), if_neg hmsb, and_ffff, setWidth_shiftLeft,
      BitVec.xor_zero]

/-- Rounds of the inner loop, on a masked word, are shifts of the sixteen-bit register. -/
theorem iterate_crcBit (n : ℕ) (r : BitVec 16) :
    crcBit^[n] (r.setWidth 32) = (Crc.shifts xmodem n r).setWidth 32 := by
  induction n with
  | zero => rfl
  | succ n ih => rw [Function.iterate_succ_apply', ih, crcBit_setWidth, ← Crc.shifts_succ]

/-! ## The table and the loop -/

/-- The table has one entry for each value that a byte can have. -/
theorem length_crcTable : crcTable.length = 256 := by
  rw [crcTable, List.length_map, List.length_range]

/-- An entry of the source's table is the word which `Crc` derives for the same byte. -/
theorem crcTable_getElem? (x : BitVec 8) : crcTable[x.toNat]? = some (Crc.table xmodem x) := by
  have hword : BitVec.ofNat 32 x.toNat <<< 8 =
      (Crc.topWord x : BitVec 16).setWidth 32 := by
    apply BitVec.eq_of_toNat_eq
    have hx := x.isLt
    rw [Crc.topWord, BitVec.toNat_setWidth, BitVec.toNat_shiftLeft, BitVec.toNat_shiftLeft,
      BitVec.toNat_ofNat, BitVec.toNat_setWidth, Nat.shiftLeft_eq, Nat.shiftLeft_eq]
    omega
  rw [crcTable, List.getElem?_map, List.getElem?_range x.isLt, Option.map_some, hword,
    iterate_crcBit, setWidth_setWidth_self, Crc.table]

/-- The upper byte of sixteen bits, taken by a signed shift of 32 bits as the code does. -/
theorem sshiftRight_setWidth (r : BitVec 16) :
    ((r.setWidth 32).sshiftRight 8).setWidth 8 = (r >>> 8).setWidth 8 := by
  have hpositive : (r.setWidth 32).msb = false := by
    rw [BitVec.msb_setWidth, BitVec.getLsbD_of_ge r _ (by decide), Bool.and_false]
  have hr : r.toNat % 2 ^ 32 = r.toNat := Nat.mod_eq_of_lt (Nat.lt_trans r.isLt (by decide))
  apply BitVec.eq_of_toNat_eq
  rw [BitVec.sshiftRight_eq_of_msb_false hpositive, BitVec.toNat_setWidth,
    BitVec.toNat_ushiftRight, BitVec.toNat_setWidth, BitVec.toNat_setWidth,
    BitVec.toNat_ushiftRight, hr]

/-- The index is the upper byte of the remainder and the next byte. -/
theorem crcIndex_setWidth (r : BitVec 16) (byte : UInt8) :
    crcIndex (r.setWidth 32) byte = (Crc.upper 8 r ^^^ byte.toBitVec).toNat := by
  have hupper : (r >>> 8).setWidth 8 = Crc.upper 8 r := rfl
  rw [crcIndex, and_ff, BitVec.setWidth_xor, sshiftRight_setWidth, hupper,
    BitVec.setWidth_setWidth_of_le _ (by decide), BitVec.setWidth_eq, BitVec.toNat_setWidth]
  have hsmall := (Crc.upper 8 r ^^^ byte.toBitVec).isLt
  exact Nat.mod_eq_of_lt (by omega)

/-- The index that the loop computes is within the table, whatever the register and the
byte. -/
theorem crcIndex_lt (crc : BitVec 32) (byte : UInt8) : crcIndex crc byte < crcTable.length := by
  rw [crcIndex, toNat_and_255, length_crcTable]
  exact Nat.mod_lt _ (by decide)

/-- A step of the loop feeds a byte's bits to the register. -/
theorem crcStep_setWidth (r : BitVec 16) (byte : UInt8) :
    crcStep (r.setWidth 32) byte =
      (Crc.feeds xmodem r (Crc.bitsOf byte.toBitVec)).setWidth 32 := by
  rw [crcStep, crcIndex_setWidth, crcTable_getElem?, Option.getD_some,
    and_ffff (r.setWidth 32 <<< 8), setWidth_shiftLeft, ← BitVec.setWidth_xor, and_ffff, setWidth_setWidth_self,
    Crc.feeds_bitsOf_eq_table (by decide) (by decide)]

/-- The loop over the bytes feeds the register with the bits of the message, byte by byte.
-/
theorem foldl_crcStep (r : BitVec 16) (raw : List UInt8) :
    raw.foldl crcStep (r.setWidth 32) = (Crc.feeds xmodem r (messageBits raw)).setWidth 32 := by
  induction raw generalizing r with
  | nil => rfl
  | cons byte raw ih =>
      have hbits : messageBits (byte :: raw) = Crc.bitsOf byte.toBitVec ++ messageBits raw :=
        List.flatMap_cons
      rw [List.foldl_cons, crcStep_setWidth, ih, hbits, Crc.feeds, Crc.feeds, Crc.feeds,
        List.foldl_append]

/-- **The loop's remainder** is that of the whole message, in a register whose upper half
stays empty. -/
theorem crcLoop_eq (raw : List UInt8) : crcLoop raw = (crc16 raw).setWidth 32 := by
  rw [crc16, Crc.checksum_eq_feeds (by decide), ← foldl_crcStep]
  rfl

theorem toUInt8_and_ff (x : BitVec 32) :
    (x &&& 0xff#32).toNat.toUInt8 = UInt8.ofBitVec (x.setWidth 8) := by
  apply UInt8.toNat.inj
  rw [Nat.toUInt8, UInt8.toNat_ofNat', toNat_and_255, Nat.mod_mod, UInt8.toNat_ofBitVec,
    BitVec.toNat_setWidth]

/-- The checksum is put behind the data as two bytes, the low one of them first. -/
theorem withChecksum_eq (raw : List UInt8) :
    withChecksum raw = raw ++ littleEndian (crc16 raw) := by
  rw [withChecksum, crcLoop_eq, toUInt8_and_ff, toUInt8_and_ff, sshiftRight_setWidth,
    BitVec.setWidth_setWidth_of_le _ (by decide), littleEndian]

open Polynomial in
/-- The polynomial over two elements that the constants of the table belong to, written out.
-/
theorem generator_xmodem : Crc.generator xmodem = X ^ 16 + X ^ 12 + X ^ 5 + 1 := by
  have hregister : Crc.ofRegister xmodem = X ^ 12 + X ^ 5 + 1 := by
    simp only [Crc.ofRegister, Finset.sum_range_succ, Finset.sum_range_zero, xmodem]
    simp [Crc.coefficient]
    ring
  rw [Crc.generator, hregister]
  ring

open Polynomial in
/-- **The checksum** is the remainder of the message, low byte first, and the table is never
read beyond its end. -/
theorem withChecksum_appends_crc16 (raw : List UInt8) :
    withChecksum raw = raw ++ littleEndian (crc16 raw) ∧
      Crc.ofRegister (crc16 raw) =
        (Crc.ofBits (messageBits raw) * X ^ 16) %ₘ (X ^ 16 + X ^ 12 + X ^ 5 + 1) ∧
      ∀ done byte left, raw = done ++ byte :: left →
        crcIndex (crcLoop done) byte < crcTable.length := by
  refine ⟨withChecksum_eq raw, ?_, fun done byte _ _ => crcIndex_lt (crcLoop done) byte⟩
  rw [← generator_xmodem]
  exact Crc.ofRegister_checksum (by decide) xmodem (messageBits raw)

end Guardrail

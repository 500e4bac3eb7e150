import Robinarb.Library.BitFields
import Robinarb.Math.TickBitmap

/-! # Decoding storage words

The decoders of `slot_layout` and the mapping-slot formula. The hash function is
a parameter: it belongs to a dependency.
-/

namespace Robinarb

/-- `keccak256` on the two-word buffers the formula hashes. -/
abbrev Keccak := BitVec 512 → B256

def decodeShifted128 (w : U256) (shift : Nat) : U128 :=
  let mask := (1#256 <<< 128) - 1#256
  ((w >>> shift) &&& mask).setWidth 128

/-- `keccak256(abi.encodePacked(int256(key), uint256(base)))`. -/
def mappingSlotSigned (keccak : Keccak) (key : Int) (base : U256) : U256 :=
  keccak (BitVec.ofInt 256 key ++ base)

def decodeV2Packed (w : U256) : U128 × U128 :=
  let mask := (1#256 <<< 112) - 1#256
  ((w &&& mask).setWidth 128, ((w >>> 112) &&& mask).setWidth 128)

def decodeV3Slot0 (w : U256) : U256 × Int :=
  let mask160 := (1#256 <<< 160) - 1#256
  let sqrt := w &&& mask160
  let raw : U32 := ((w >>> 160) &&& 0xFFFFFF#256).setWidth 32
  let tick := if raw &&& 0x800000#32 ≠ 0#32 then (raw ||| 0xFF000000#32).toInt else raw.toInt
  (sqrt, tick)

def decodeLow128 (w : U256) : U128 :=
  let mask := (1#256 <<< 128) - 1#256
  (w &&& mask).setWidth 128

section Fields

theorem decodeShifted128_eq (w : U256) (shift : Nat) : decodeShifted128 w shift = w.extractLsb' shift 128 := by
  rw [decodeShifted128, BitFields.setWidth_shift_mask (by decide), BitVec.setWidth_eq]

theorem decodeLow128_eq (w : U256) : decodeLow128 w = w.extractLsb' 0 128 := by
  rw [decodeLow128, BitFields.setWidth_mask (by decide), BitVec.setWidth_eq]

theorem decodeV2Packed_fields (w : U256) :
    decodeV2Packed w = ((w.extractLsb' 0 112).setWidth 128, (w.extractLsb' 112 112).setWidth 128) := by
  rw [decodeV2Packed, BitFields.setWidth_mask (by decide), BitFields.setWidth_shift_mask (by decide)]

/-- Sign extension by hand: a 24-bit field read as an `int24`. -/
theorem signExtend24_eq (field : BitVec 24) :
    (if field.setWidth 32 &&& 0x800000#32 ≠ 0#32 then (field.setWidth 32 ||| 0xFF000000#32).toInt
      else (field.setWidth 32).toInt) = field.toInt := by
  have hBit : (field.setWidth 32 &&& 0x800000#32 ≠ 0#32) ↔ field.msb = true := by
    rw [show 0x800000#32 = BitVec.twoPow 32 23 from rfl, BitVec.and_twoPow, BitVec.getLsbD_setWidth,
      BitVec.msb_eq_getLsbD_last, show 24 - 1 = 23 from rfl]
    cases field.getLsbD 23 <;> decide
  rw [← BitVec.toInt_signExtend_of_le (x := field) (v := 32) (by decide)]
  split
  · rename_i hSet
    rw [← BitFields.setWidth_or_ones field (hBit.mp hSet)]
    rfl
  · rename_i hClear
    rw [BitVec.signExtend_eq_setWidth_of_msb_false (Bool.eq_false_iff.mpr (mt hBit.mpr hClear))]

theorem decodeV3Slot0_fields (w : U256) :
    decodeV3Slot0 w = ((w.extractLsb' 0 160).setWidth 256, (w.extractLsb' 160 24).toInt) := by
  have hSqrt := BitFields.setWidth_mask (n := 160) (by decide) w 256
  have hRaw := BitFields.setWidth_shift_mask (n := 24) (by decide) w 160 32
  rw [BitVec.setWidth_eq] at hSqrt
  rw [show (1#256 <<< 24) - 1#256 = 0xFFFFFF#256 from rfl] at hRaw
  rw [decodeV3Slot0, hSqrt, hRaw, signExtend24_eq]

theorem decodeV3Slot0_tickRange (w : U256) : TickRange (decodeV3Slot0 w).2 := by
  rw [decodeV3Slot0_fields]
  constructor
  · exact BitVec.le_toInt _
  · exact BitVec.toInt_lt

end Fields

end Robinarb

import Robinarb.Math.Quote
import Robinarb.State.SamplePool

/-! # Packed words

The storage words of the pools and the decoders that take them apart. Every decoder reads
one field: it gives back the field's value under any other bits, and no other bit reaches
its result.
-/

namespace Robinarb

open BitFields

/-- `reserve0 | reserve1 | timestamp`, the first field lowest. -/
def v2Word (reserve0 reserve1 : BitVec 112) (timestamp : BitVec 32) : U256 := timestamp ++ reserve1 ++ reserve0

/-- `sqrtPriceX96 | tick | rest`; the rest is the oracle's and the protocol's. -/
def slot0Word (sqrtPriceX96 : BitVec 160) (tick : BitVec 24) (rest : BitVec 72) : U256 :=
  rest ++ tick ++ sqrtPriceX96

theorem decodeV2Packed_v2Word (reserve0 reserve1 : BitVec 112) (timestamp : BitVec 32) :
    decodeV2Packed (v2Word reserve0 reserve1 timestamp) = (reserve0.setWidth 128, reserve1.setWidth 128) := by
  have hLow : (v2Word reserve0 reserve1 timestamp).extractLsb' 0 112 = reserve0 :=
    BitVec.extractLsb'_append_eq_right
  have hHigh : (v2Word reserve0 reserve1 timestamp).extractLsb' 112 112 = reserve1 := by
    calc
      (v2Word reserve0 reserve1 timestamp).extractLsb' 112 112 = (timestamp ++ reserve1).extractLsb' 0 112 :=
        BitVec.extractLsb'_append_eq_of_le (by decide)
      _ = reserve1 := BitVec.extractLsb'_append_eq_right
  rw [decodeV2Packed_fields, hLow, hHigh]

theorem decodeV3Slot0_slot0Word (sqrtPriceX96 : BitVec 160) {tick : Int} (ht : TickRange tick) (rest : BitVec 72) :
    decodeV3Slot0 (slot0Word sqrtPriceX96 (BitVec.ofInt 24 tick) rest) = (sqrtPriceX96.setWidth 256, tick) := by
  have hSqrt : (slot0Word sqrtPriceX96 (BitVec.ofInt 24 tick) rest).extractLsb' 0 160 = sqrtPriceX96 :=
    BitVec.extractLsb'_append_eq_right
  have hField : (slot0Word sqrtPriceX96 (BitVec.ofInt 24 tick) rest).extractLsb' 160 24 = BitVec.ofInt 24 tick := by
    calc
      (slot0Word sqrtPriceX96 (BitVec.ofInt 24 tick) rest).extractLsb' 160 24 =
          (rest ++ BitVec.ofInt 24 tick).extractLsb' 0 24 :=
        BitVec.extractLsb'_append_eq_of_le (by decide)
      _ = BitVec.ofInt 24 tick := BitVec.extractLsb'_append_eq_right
  have hTick : (BitVec.ofInt 24 tick).toInt = tick := by
    obtain ⟨hLow, hHigh⟩ := ht
    rw [BitVec.toInt_ofInt]
    apply Int.bmod_eq_of_le <;> omega
  rw [decodeV3Slot0_fields, hSqrt, hField, hTick]

theorem decodeShifted128_decodes {shift : Nat} (h : shift ≤ 128) :
    Decodes shift (fun liquidity : U128 => liquidity) fun word : U256 => decodeShifted128 word shift :=
  .of_extract (by omega) fun word => decodeShifted128_eq word shift

theorem pips_decodes (pool : PoolMeta) {shift : Nat} (h : shift ≤ 240) :
    Decodes shift (fun lastFee : BitVec 16 => lastFee.setWidth 32) ((ClFee.word shift).pips pool) :=
  .of_extract (by omega) fun word => setWidth_shift_mask (n := 16) (by decide) word shift 32

section Nets

variable (keccak : Keccak)

/-- The word of a tick's mapping slot: gross and net of a packed tick. -/
def ClTickReader.tickWord (r : ClTickReader) (tick : Int) : U256 :=
  r.rd (mappingSlotSigned keccak tick r.ticksBase)

/-- The word after it, which holds the net of a two-word tick. -/
def ClTickReader.deltaWord (r : ClTickReader) (tick : Int) : U256 :=
  r.rd (mappingSlotSigned keccak tick r.ticksBase + 1#256)

/-- The net that a reader of this codec returns is the field at `start` of `word`. -/
structure ReadsNet (codec : TickCodec) (word : ClTickReader → Int → U256) (start : Nat) : Prop where
  inverts : ∀ (r : ClTickReader) tick net rest, r.codec = codec →
    word r tick = overwrite start net rest → r.liquidityNet keccak tick = net
  reads_field : ∀ (r s : ClTickReader) tick other, r.codec = codec → s.codec = codec →
    AgreeOn start 128 (word r tick) (word s other) → r.liquidityNet keccak tick = s.liquidityNet keccak other

theorem ReadsNet.of_extract {codec : TickCodec} {word : ClTickReader → Int → U256} {start : Nat} (h : start ≤ 128)
    (hNet : ∀ r tick, r.codec = codec → r.liquidityNet keccak tick = (word r tick).extractLsb' start 128) :
    ReadsNet keccak codec word start where
  inverts r tick net rest hCodec hWord := by
    rw [hNet r tick hCodec, hWord, extract_overwrite (by omega)]
  reads_field r s tick other hr hs hAgree := by
    rw [hNet r tick hr, hNet s other hs, extract_eq_of_agreeOn hAgree]

theorem packed_readsNet : ReadsNet keccak .packed (ClTickReader.tickWord keccak) 128 := by
  apply ReadsNet.of_extract keccak le_rfl
  intro r tick hCodec
  rw [ClTickReader.liquidityNet, hCodec]
  exact BitVec.setWidth_ushiftRight_eq_extractLsb

theorem twoWord_readsNet : ReadsNet keccak .twoWord (ClTickReader.deltaWord keccak) 0 := by
  apply ReadsNet.of_extract keccak (by decide)
  intro r tick hCodec
  rw [ClTickReader.liquidityNet, hCodec]
  exact decodeLow128_eq _

end Nets

/-- Every decoder inverts its layout, and reads no bit outside its field. -/
theorem decoders_invert_layouts (keccak : Keccak) :
    (∀ reserve0 reserve1 timestamp,
      decodeV2Packed (v2Word reserve0 reserve1 timestamp) = (reserve0.setWidth 128, reserve1.setWidth 128)) ∧
    Decodes 0 (fun reserve0 : BitVec 112 => reserve0.setWidth 128) (fun word => (decodeV2Packed word).1) ∧
    Decodes 112 (fun reserve1 : BitVec 112 => reserve1.setWidth 128) (fun word => (decodeV2Packed word).2) ∧
    (∀ sqrtPriceX96 tick rest, TickRange tick →
      decodeV3Slot0 (slot0Word sqrtPriceX96 (BitVec.ofInt 24 tick) rest) = (sqrtPriceX96.setWidth 256, tick)) ∧
    Decodes 0 (fun sqrtPriceX96 : BitVec 160 => sqrtPriceX96.setWidth 256) (fun word => (decodeV3Slot0 word).1) ∧
    Decodes 160 (fun tick : BitVec 24 => tick.toInt) (fun word => (decodeV3Slot0 word).2) ∧
    (∀ shift, shift ≤ 128 →
      Decodes shift (fun liquidity : U128 => liquidity) fun word : U256 => decodeShifted128 word shift) ∧
    (∀ word, decodeShifted128 word 0 = decodeLow128 word) ∧
    ReadsNet keccak .packed (ClTickReader.tickWord keccak) 128 ∧
    ReadsNet keccak .twoWord (ClTickReader.deltaWord keccak) 0 ∧
    (∀ pool shift, shift ≤ 240 →
      Decodes shift (fun lastFee : BitVec 16 => lastFee.setWidth 32) ((ClFee.word shift).pips pool)) := by
  refine ⟨decodeV2Packed_v2Word, ?_, ?_, ?_, ?_, ?_, ?_, ?_, packed_readsNet keccak, twoWord_readsNet keccak, ?_⟩
  · exact .of_extract (by decide) fun word => congrArg Prod.fst (decodeV2Packed_fields word)
  · exact .of_extract (by decide) fun word => congrArg Prod.snd (decodeV2Packed_fields word)
  · intro sqrtPriceX96 tick rest ht
    exact decodeV3Slot0_slot0Word sqrtPriceX96 ht rest
  · exact .of_extract (by decide) fun word => congrArg Prod.fst (decodeV3Slot0_fields word)
  · exact .of_extract (by decide) fun word => congrArg Prod.snd (decodeV3Slot0_fields word)
  · intro shift hShift
    exact decodeShifted128_decodes hShift
  · intro word
    rw [decodeShifted128_eq, decodeLow128_eq]
  · intro pool shift hShift
    exact pips_decodes pool hShift

def oneWordReader (codec : TickCodec) (word : U256) : ClTickReader :=
  .new ⟨fun _ => some word, fun _ => none, []⟩ 1#160 5#256 6#256 codec

theorem negative_fields_decoded :
    decodeV3Slot0 (slot0Word 4295128739#160 (BitVec.ofInt 24 (-193461)) 0xDEAD#72) = (4295128739#256, -193461) ∧
    (oneWordReader .packed (overwrite 128 (-5#128) (BitVec.allOnes 256))).liquidityNet referenceKeccak 7 = -5#128 ∧
    (oneWordReader .twoWord (overwrite 0 (-5#128) (BitVec.allOnes 256))).liquidityNet referenceKeccak 7 = -5#128 := by
  obtain ⟨-, -, -, hSlot0, -, -, -, -, hPacked, hTwoWord, -⟩ := decoders_invert_layouts referenceKeccak
  refine ⟨?_, ?_, ?_⟩
  · exact hSlot0 4295128739#160 (-193461) 0xDEAD#72 ⟨by decide, by decide⟩
  · exact hPacked.inverts _ 7 (-5#128) (BitVec.allOnes 256) rfl rfl
  · exact hTwoWord.inverts _ 7 (-5#128) (BitVec.allOnes 256) rfl rfl

end Robinarb

import Robinarb.State.ChainState
import Mathlib.Data.List.Nodup

/-! # A sample pool

A Uniswap V3 pool at spacing 1 with the usual layout: `slot0` in slot 0,
`liquidity` in slot 4, the mappings in slots 5 and 6. The hash has the digests of
the words -1, 0, 1 and of the ticks -1, 0, 1, and a collision-free stand-in
elsewhere.
-/

namespace Robinarb

def mappingBuffer (key : Int) (base : U256) : BitVec 512 := BitVec.ofInt 256 key ++ base

def digests : List (BitVec 512 × B256) :=
  [(mappingBuffer (-1) 6#256, 0x63187d71e139eee983a88d0737447c7451979b3dbb75903c76b5fe430d36588e#256),
   (mappingBuffer 0 6#256, 0x54cdd369e4e8a8515e52ca72ec816c2101831ad1f18bf44102ed171459c9b4f8#256),
   (mappingBuffer 1 6#256, 0x3e5fec24aa4dc4e5aee2e025e51e1392c72a2500577559fae9665c6d52bd6a31#256),
   (mappingBuffer (-1) 5#256, 0x2e8de2577e7c560a9913fd732cd5ba1f61f809b10c283800da9499091ac562a5#256),
   (mappingBuffer 0 5#256, 0x05b8ccbb9d4d8fb16ea74ce3c29a41f1b461fbdaff4714a0d9a8eb05499746bc#256),
   (mappingBuffer 1 5#256, 0x1471eb6eb2c5e789fc3de43f8ce62938c7d1836ec861730447e2ada8fd81017b#256)]

def standIn (buffer : BitVec 512) : B256 := 1#128 ++ (buffer.extractLsb' 256 64 ++ buffer.extractLsb' 0 64)

def referenceKeccak : Keccak := fun buffer => (digests.lookup buffer).getD (standIn buffer)

theorem digests_injective : ∀ a ∈ digests, ∀ b ∈ digests, a.2 = b.2 → a.1 = b.1 := by
  have hAll : (digests.all fun a => digests.all fun b => a.2 != b.2 || a.1 == b.1) = true := by decide
  rintro a ha b hb hDigest
  have hPair := List.all_eq_true.mp (List.all_eq_true.mp hAll a ha) b hb
  rw [hDigest, bne_self_eq_false, Bool.false_or] at hPair
  exact eq_of_beq hPair

theorem digests_high : ∀ a ∈ digests, a.2.extractLsb' 128 128 ≠ 1#128 := by
  have hAll : (digests.all fun a => decide (a.2.extractLsb' 128 128 ≠ 1#128)) = true := by decide
  rintro a ha
  exact of_decide_eq_true (List.all_eq_true.mp hAll a ha)

theorem standIn_high (buffer : BitVec 512) : (standIn buffer).extractLsb' 128 128 = 1#128 :=
  BitVec.extractLsb'_append_eq_left

theorem referenceKeccak_cases (buffer : BitVec 512) :
    (buffer, referenceKeccak buffer) ∈ digests ∨ referenceKeccak buffer = standIn buffer := by
  unfold referenceKeccak
  cases h : digests.lookup buffer with
  | none => exact .inr rfl
  | some digest =>
    obtain ⟨before, after, hEq, _⟩ := List.lookup_eq_some_iff.mp h
    left
    rw [hEq]
    simp

theorem standIn_key {key : Int} {base : U256} (hLow : -2 ^ 31 ≤ key) (hHigh : key < 2 ^ 31) :
    ((mappingBuffer key base).extractLsb' 256 64).toNat = (key % 2 ^ 64).toNat := by
  rw [mappingBuffer, BitVec.extractLsb'_append_eq_of_le (by omega), BitVec.extractLsb'_toNat, BitVec.toNat_ofInt,
    Nat.sub_self, Nat.shiftRight_zero]
  omega

theorem standIn_base {key : Int} {base : U256} (hBase : base.toNat < 2 ^ 64) :
    ((mappingBuffer key base).extractLsb' 0 64).toNat = base.toNat := by
  rw [mappingBuffer, BitVec.extractLsb'_append_eq_of_add_le (by omega), BitVec.extractLsb'_toNat,
    Nat.shiftRight_zero, Nat.mod_eq_of_lt hBase]

theorem standIn_inj {key key' : Int} {base base' : U256} (hLow : -2 ^ 31 ≤ key) (hHigh : key < 2 ^ 31)
    (hLow' : -2 ^ 31 ≤ key') (hHigh' : key' < 2 ^ 31) (hBase : base.toNat < 2 ^ 64)
    (hBase' : base'.toNat < 2 ^ 64) (h : standIn (mappingBuffer key base) = standIn (mappingBuffer key' base')) :
    key = key' ∧ base = base' := by
  have hPair := congrArg (fun x : BitVec (128 + (64 + 64)) => x.extractLsb' 0 (64 + 64)) h
  simp only [standIn, BitVec.extractLsb'_append_eq_right] at hPair
  have hKey := congrArg (fun x => (x.extractLsb' 64 64).toNat) hPair
  have hRest := congrArg (fun x => (x.extractLsb' 0 64).toNat) hPair
  simp only [BitVec.extractLsb'_append_eq_left, BitVec.extractLsb'_append_eq_right] at hKey hRest
  rw [standIn_key hLow hHigh, standIn_key hLow' hHigh'] at hKey
  rw [standIn_base hBase, standIn_base hBase'] at hRest
  exact ⟨by omega, BitVec.eq_of_toNat_eq hRest⟩

theorem mappingSlotSigned_inj {key key' : Int} {base base' : U256} (hLow : -2 ^ 31 ≤ key)
    (hHigh : key < 2 ^ 31) (hLow' : -2 ^ 31 ≤ key') (hHigh' : key' < 2 ^ 31) (hBase : base.toNat < 2 ^ 64)
    (hBase' : base'.toNat < 2 ^ 64)
    (h : mappingSlotSigned referenceKeccak key base = mappingSlotSigned referenceKeccak key' base') :
    key = key' ∧ base = base' := by
  change referenceKeccak (mappingBuffer key base) = referenceKeccak (mappingBuffer key' base') at h
  rcases referenceKeccak_cases (mappingBuffer key base) with hMem | hStandIn <;>
    obtain hMem' | hStandIn' := referenceKeccak_cases (mappingBuffer key' base')
  · have hBuffer := digests_injective _ hMem _ hMem' h
    have hBaseEq := congrArg (fun x : BitVec (256 + 256) => x.extractLsb' 0 256) hBuffer
    have hKeyEq := congrArg (fun x : BitVec (256 + 256) => (x.extractLsb' 256 256).toNat) hBuffer
    simp only [mappingBuffer, BitVec.extractLsb'_append_eq_left, BitVec.extractLsb'_append_eq_right,
      BitVec.toNat_ofInt] at hBaseEq hKeyEq
    exact ⟨by omega, hBaseEq⟩
  · exact absurd (by rw [h, hStandIn', standIn_high]) (digests_high _ hMem)
  · exact absurd (by rw [← h, hStandIn, standIn_high]) (digests_high _ hMem')
  · rw [hStandIn, hStandIn'] at h
    exact standIn_inj hLow hHigh hLow' hHigh' hBase hBase' h

theorem digests_above : ∀ a ∈ digests, 2 ^ 128 ≤ a.2.toNat := by
  have hAll : (digests.all fun a => decide (2 ^ 128 ≤ a.2.toNat)) = true := by decide
  rintro a ha
  exact of_decide_eq_true (List.all_eq_true.mp hAll a ha)

theorem mappingSlotSigned_above (key : Int) (base : U256) :
    2 ^ 128 ≤ (mappingSlotSigned referenceKeccak key base).toNat := by
  change 2 ^ 128 ≤ (referenceKeccak (mappingBuffer key base)).toNat
  obtain hMem | hStandIn := referenceKeccak_cases (mappingBuffer key base)
  · exact digests_above _ hMem
  · have hHigh := congrArg BitVec.toNat (standIn_high (mappingBuffer key base))
    rw [BitVec.extractLsb'_toNat, Nat.shiftRight_eq_div_pow] at hHigh
    rw [hStandIn]
    simp only [BitVec.toNat_ofNat] at hHigh
    omega

theorem mappingSlotSigned_ne {key : Int} {base slot : U256} (h : slot.toNat < 2 ^ 128) :
    mappingSlotSigned referenceKeccak key base ≠ slot := by
  rintro rfl
  have hAbove := mappingSlotSigned_above key base
  omega

def samplePlan : ClPlan where
  addr := 1#160
  slot0 := 0#256
  liquidity := 4#256
  liquidityShift := 0
  ticksBase := 5#256
  bitmapBase := 6#256
  tickCodec := .packed
  fee := .fromMeta

/-- Price and tick of the sample: tick 1, at the price of tick 1. -/
def sampleSlot0 : U256 := 79232123823359799118286999568#256 ||| 1#256 <<< 160

/-- Ticks 0 and 1 are initialized. -/
def sampleWord (slot : U256) : U256 :=
  if slot = 0#256 then sampleSlot0
  else if slot = 4#256 then 1000000000000000000#256
  else if slot = mappingSlotSigned referenceKeccak 0 6#256 then 3#256
  else if slot = mappingSlotSigned referenceKeccak 0 5#256 then 400000000000#256 <<< 128
  else if slot = mappingSlotSigned referenceKeccak 1 5#256 then 250000000000#256 <<< 128
  else 0#256

def sampleStorage : Storage := fun key => sampleWord key.2

/-- The sample pool with its plan slots prefetched and no tick data yet. -/
def sampleState : ChainState where
  memo key := if key ∈ ChainState.planSlots (.cl samplePlan) then some (sampleStorage key) else none
  tickCache _ := none
  plans := [some (.cl samplePlan)]

theorem sampleStorage_bitmap {word : Int} (hLow : -2 ^ 31 ≤ word) (hHigh : word < 2 ^ 31) :
    sampleStorage (bitmapSlot referenceKeccak 1#160 6#256 word) = if word = 0 then 3#256 else 0#256 := by
  have hTick : ∀ tick : Int, -2 ^ 31 ≤ tick → tick < 2 ^ 31 →
      mappingSlotSigned referenceKeccak word 6#256 ≠ mappingSlotSigned referenceKeccak tick 5#256 := by
    intro tick hTickLow hTickHigh hEq
    exact absurd (mappingSlotSigned_inj hLow hHigh hTickLow hTickHigh (by decide) (by decide) hEq).2 (by decide)
  change sampleWord (mappingSlotSigned referenceKeccak word 6#256) = _
  rw [sampleWord, if_neg (mappingSlotSigned_ne (by decide)), if_neg (mappingSlotSigned_ne (by decide)),
    if_neg (hTick 0 (by omega) (by omega)), if_neg (hTick 1 (by omega) (by omega))]
  by_cases hWord : word = 0
  · rw [if_pos (by rw [hWord]), if_pos hWord]
  · rw [if_neg hWord, if_neg]
    intro hEq
    exact hWord (mappingSlotSigned_inj hLow hHigh (by omega) (by omega) (by decide) (by decide) hEq).1

end Robinarb

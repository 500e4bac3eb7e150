import Robinarb.State.Coupling

/-! # Pools with two-word ticks

The reader takes the net of a two-word pool from the second word of a tick, and no
operation fetches that word. A set bit of a known bitmap word then has the net zero.
-/

namespace Robinarb

open CacheFill ChainState

section Runs

variable (keccak : Keccak) (engine : Engine) (plans : List (Option SlotPlan)) (tickSpacing : Nat → Int)
  (chain : Nat → Storage)

/-- The calls of the bootstrap, of the resync loop and of the pipeline. Ticks are `i32`. -/
inductive Called : TickOp → Prop where
  | hydrateAll : Called (.hydrateAllTicks engine)
  | hydratePool {idx : Nat} {plan : SlotPlan} (planned : plans[idx]?.join = some plan) :
      Called (.hydrateClTicksForPool plan (tickSpacing idx))
  | patch {ev : IngestEvent} {pool : TickPool} {ticks : List Int}
      (call : patchCall plans tickSpacing ev = some (pool, ticks)) (fits : ∀ t ∈ ticks, -2 ^ 31 ≤ t ∧ t < 2 ^ 31) :
      Called (.patchClTicks pool ticks)

/-- Hydrations and patches one after the other, from an empty tick cache, with the log of
their reads. Every read succeeds. The memo holds plan slots. -/
inductive ClRun : List SlotCompletion → ChainState → Prop where
  | start {s : ChainState} (empty : s.tickCache = fun _ => none) (same : s.plans = plans)
      (planned : ∀ key, (s.memo key).isSome → ∃ q, some q ∈ plans ∧ key ∈ planSlots q) : ClRun [] s
  | memo {log : List SlotCompletion} {s t : ChainState} (prev : ClRun log s) (cache : t.tickCache = s.tickCache)
      (same : t.plans = s.plans)
      (planned : ∀ key, (t.memo key).isSome → ∃ q, some q ∈ plans ∧ key ∈ planSlots q) : ClRun log t
  | op {log : List SlotCompletion} {s : ChainState} {op : TickOp} {first second : List SlotCompletion}
      (prev : ClRun log s) (called : Called engine plans tickSpacing op) (completed : op.Completed keccak s first second)
      (served : ∀ completion ∈ first ++ second, ∃ n, completion.2 = some (chain n completion.1)) :
      ClRun (log ++ (first ++ second)) (hydrated s first second)

end Runs

section Deltas

variable (keccak : Keccak) (plan : ClPlan)

def ClPlan.deltaKey (tick : Int) : SlotKey := (plan.addr, mappingSlotSigned keccak tick plan.ticksBase + 1#256)

def onChainDelta (storage : Storage) (tick : Int) : I128 := decodeLow128 (storage (plan.deltaKey keccak tick))

/-- The nets of the set bits of every word the reader knows are those of the chain. -/
def NetsAgree (storage : Storage) (s : ChainState) : Prop :=
  ∀ word : Int, -2 ^ 15 ≤ word → word < 2 ^ 15 → ∀ bits,
    ((plan.reader s).source keccak).bitmapWord word = some bits → ∀ bit, bits.getLsbD bit = true →
      (plan.reader s).liquidityNet keccak (256 * word + bit) = onChainDelta keccak plan storage (256 * word + bit)

/-- What the last read of a slot has brought. -/
def lastRead (log : List SlotCompletion) (key : SlotKey) : Option U256 := fill (fun _ => none) log key

/-- A slot of one of the mappings that the operations read. -/
def MappingSlot (plans : List (Option SlotPlan)) (key : SlotKey) : Prop :=
  ∃ q, some (.cl q) ∈ plans ∧ ∃ k : Int, -2 ^ 31 ≤ k ∧ k < 2 ^ 31 ∧
    (key = bitmapSlot keccak q.addr q.bitmapBase k ∨ key = tickSlot keccak q.addr q.ticksBase k)

/-- The second word of a tick is no slot of a mapping and no plan slot. -/
structure DeltasApart (plans : List (Option SlotPlan)) : Prop where
  mapping : ∀ tick : Int, -2 ^ 23 ≤ tick → tick < 2 ^ 23 → ¬MappingSlot keccak plans (plan.deltaKey keccak tick)
  planned : ∀ tick : Int, -2 ^ 23 ≤ tick → tick < 2 ^ 23 → ∀ q, some q ∈ plans →
    plan.deltaKey keccak tick ∉ planSlots q

end Deltas

section Keys

variable {keccak : Keccak} {engine : Engine} {plans : List (Option SlotPlan)} {tickSpacing : Nat → Int}
  {chain : Nat → Storage} {log : List SlotCompletion} {s : ChainState}

theorem slotsOfBits_mapping {q : ClPlan} (hq : some (.cl q) ∈ plans) {spacing word : Int} {bits : U256} {key : SlotKey}
    (hKey : key ∈ slotsOfBits keccak q.addr q.ticksBase spacing word bits) : MappingSlot keccak plans key := by
  obtain ⟨bit, -, rfl⟩ := (mem_slotsOfBits keccak).mp hKey
  obtain ⟨hLow, hHigh⟩ := rawTick_range word bit spacing
  exact ⟨q, hq, _, hLow, hHigh, .inr rfl⟩

theorem bitmapSlot_mapping {q : ClPlan} (hq : some (.cl q) ∈ plans) {word : Int} (hLow : -2 ^ 15 ≤ word)
    (hHigh : word < 2 ^ 15) : MappingSlot keccak plans (bitmapSlot keccak q.addr q.bitmapBase word) :=
  ⟨q, hq, word, by omega, by omega, .inl rfl⟩

theorem clTickWindows_plan {asked : List (SlotPlan × Int)} {range : Int} {pw : PoolWindow}
    (h : pw ∈ s.clTickWindows asked range) : ∃ q spacing, (SlotPlan.cl q, spacing) ∈ asked ∧ pw.addr = q.addr ∧
      pw.ticksBase = q.ticksBase ∧ pw.bitmapBase = q.bitmapBase ∧ -2 ^ 15 ≤ pw.lo ∧ pw.hi < 2 ^ 15 := by
  obtain ⟨⟨plan, spacing⟩, hAsked, hWindow⟩ := List.mem_filterMap.mp h
  cases plan with
  | v2Packed addr slot => cases hWindow
  | v2TwoSlot addr r0 => cases hWindow
  | cl q =>
    unfold clTickWindow at hWindow
    dsimp only at hWindow
    split at hWindow
    · cases hWindow
      exact ⟨q, spacing, hAsked, rfl, rfl, rfl, (saturateI16_range _).1, (saturateI16_range _).2⟩
    · cases hWindow

theorem windowSlots_mapping {asked : List (SlotPlan × Int)} (hAsked : ∀ q spacing, (SlotPlan.cl q, spacing) ∈ asked →
    some (.cl q) ∈ plans) {range : Int} {after : ChainState} {key : SlotKey}
    (hKey : key ∈ windowBitmapSlots keccak (s.clTickWindows asked range) ∨
      key ∈ after.windowTickSlots keccak (s.clTickWindows asked range)) : MappingSlot keccak plans key := by
  obtain hKey | hKey := hKey
  · obtain ⟨pw, hWindow, hKey⟩ := List.mem_flatMap.mp hKey
    obtain ⟨q, spacing, hMem, hAddr, -, hBase, hLow, hHigh⟩ := clTickWindows_plan hWindow
    obtain ⟨word, hWord, rfl⟩ := List.mem_map.mp hKey
    obtain ⟨hFirst, hLast⟩ := mem_wordRange.mp hWord
    rw [hAddr, hBase]
    exact bitmapSlot_mapping (hAsked q spacing hMem) (by omega) (by omega)
  · obtain ⟨pw, hWindow, hKey⟩ := List.mem_flatMap.mp hKey
    obtain ⟨q, spacing, hMem, hAddr, hBase, -, -, -⟩ := clTickWindows_plan hWindow
    obtain ⟨word, -, hKey⟩ := List.mem_flatMap.mp hKey
    rw [hAddr, hBase] at hKey
    exact slotsOfBits_mapping (hAsked q spacing hMem) hKey

theorem patchCall_plan {ev : IngestEvent} {pool : TickPool} {ticks : List Int}
    (h : patchCall plans tickSpacing ev = some (pool, ticks)) :
    ∃ q, some (.cl q) ∈ plans ∧ pool.addr = q.addr ∧ pool.ticksBase = q.ticksBase ∧ pool.bitmapBase = q.bitmapBase := by
  unfold patchCall at h
  split at h
  · split at h
    · rename_i q hPlan
      cases h
      exact ⟨q, List.mem_of_getElem? (Option.join_eq_some_iff.mp hPlan), rfl, rfl, rfl⟩
    · cases h
  · cases h

theorem Called.mapping {op : TickOp} (hPlans : s.plans = plans) (h : Called engine plans tickSpacing op)
    {t : ChainState} {key : SlotKey} (hKey : key ∈ op.firstBatch keccak s ∨ key ∈ op.secondBatch keccak s t) :
    MappingSlot keccak plans key := by
  cases h with
  | hydrateAll =>
    refine windowSlots_mapping (fun q spacing hMem => ?_) hKey
    obtain ⟨pool, -, hPool⟩ := List.mem_filterMap.mp hMem
    split at hPool
    · rename_i found hPlan
      cases hPool
      rw [ChainState.plan, hPlans] at hPlan
      exact List.mem_of_getElem? (Option.join_eq_some_iff.mp hPlan)
    · cases hPool
  | hydratePool hPlanned =>
    refine windowSlots_mapping (fun q spacing hMem => ?_) hKey
    rw [(Prod.mk.inj (List.mem_singleton.mp hMem)).1]
    exact List.mem_of_getElem? (Option.join_eq_some_iff.mp hPlanned)
  | patch hCall hFits =>
    obtain ⟨q, hq, hAddr, hTicks, hBitmap⟩ := patchCall_plan hCall
    obtain hKey | hKey := hKey
    · obtain ⟨word, hWord, rfl⟩ := List.mem_map.mp hKey
      obtain ⟨hLow, hHigh⟩ := mem_patchWords hWord
      rw [hAddr, hBitmap]
      exact bitmapSlot_mapping hq hLow hHigh
    · obtain hTick | hBits := List.mem_append.mp hKey
      · obtain ⟨t, hMem, rfl⟩ := List.mem_map.mp hTick
        rw [hAddr, hTicks]
        exact ⟨q, hq, t, (hFits t hMem).1, (hFits t hMem).2, .inr rfl⟩
      · obtain ⟨word, -, hKey⟩ := List.mem_flatMap.mp hBits
        rw [hAddr, hTicks] at hKey
        exact slotsOfBits_mapping hq hKey

end Keys

section Nets

variable {keccak : Keccak} {engine : Engine} {plans : List (Option SlotPlan)} {tickSpacing : Nat → Int}
  {chain : Nat → Storage} {log : List SlotCompletion} {s : ChainState} {plan : ClPlan}

/-- What a run has read into the tick cache, and what the memo may hold. -/
structure ReadsKnown (keccak : Keccak) (plans : List (Option SlotPlan)) (log : List SlotCompletion) (s : ChainState) :
    Prop where
  same : s.plans = plans
  cache : s.tickCache = fill (fun _ => none) log
  mapping : ∀ completion ∈ log, MappingSlot keccak plans completion.1
  planned : ∀ key, (s.memo key).isSome → ∃ q, some q ∈ plans ∧ key ∈ planSlots q

theorem Called.completions_mapping {op : TickOp} (hPlans : s.plans = plans) (h : Called engine plans tickSpacing op)
    {first second : List SlotCompletion} (hCompleted : op.Completed keccak s first second) :
    ∀ completion ∈ first ++ second, MappingSlot keccak plans completion.1 := by
  intro completion hMem
  obtain hFirst | hSecond := List.mem_append.mp hMem
  · have hFirst := hCompleted.firstBatch.subset (List.mem_map_of_mem hFirst)
    exact h.mapping (t := s) hPlans (.inl hFirst)
  · exact h.mapping hPlans (.inr (hCompleted.secondBatch.subset (List.mem_map_of_mem hSecond)))

theorem ClRun.reads (hRun : ClRun keccak engine plans tickSpacing chain log s) : ReadsKnown keccak plans log s := by
  induction hRun with
  | start hEmpty hSame hPlanned => exact ⟨hSame, hEmpty, nofun, hPlanned⟩
  | memo _ hCache hSame hPlanned ih => exact ⟨hSame.trans ih.same, hCache.trans ih.cache, ih.mapping, hPlanned⟩
  | op _ hCalled hCompleted _ ih =>
    refine ⟨ih.same, ?_, ?_, ih.planned⟩
    · rw [hydrated, prefetchTicks_tickCache, prefetchTicks_tickCache, ih.cache, ← fill_append, ← fill_append]
    · intro completion hMem
      obtain hOld | hNew := List.mem_append.mp hMem
      · exact ih.mapping completion hOld
      · exact hCalled.completions_mapping ih.same hCompleted completion hNew

theorem ReadsKnown.read_zero (h : ReadsKnown keccak plans log s) {key : SlotKey} (hMapping : ¬MappingSlot keccak plans key)
    (hPlanned : ∀ q, some q ∈ plans → key ∉ planSlots q) : s.read key.1 key.2 = 0#256 := by
  have hMemo : s.memo key = none := by
    by_contra hSome
    obtain ⟨q, hq, hKey⟩ := h.planned key (Option.isSome_iff_ne_none.mpr hSome)
    exact hPlanned q hq hKey
  have hCache : s.tickCache key = none := by
    rw [h.cache]
    obtain hSame | ⟨value, hMem, -⟩ := fill_cases (fun _ => none) log key
    · exact hSame
    · exact absurd (h.mapping _ hMem) hMapping
  rw [read_of_memo_none hMemo, hCache]
  rfl

theorem ClRun.liquidityNet_zero (hRun : ClRun keccak engine plans tickSpacing chain log s)
    (hTwoWord : plan.tickCodec = .twoWord) (hApart : DeltasApart keccak plan plans) {tick : Int} (hLow : -2 ^ 23 ≤ tick)
    (hHigh : tick < 2 ^ 23) : (plan.reader s).liquidityNet keccak tick = 0#128 := by
  have hZero := hRun.reads.read_zero (hApart.mapping tick hLow hHigh) (hApart.planned tick hLow hHigh)
  unfold ClTickReader.liquidityNet
  rw [show (plan.reader s).codec = .twoWord from hTwoWord]
  change decodeLow128 (s.read plan.addr (mappingSlotSigned keccak tick plan.ticksBase + 1#256)) = 0#128
  rw [show s.read plan.addr (mappingSlotSigned keccak tick plan.ticksBase + 1#256) = 0#256 from hZero]
  decide

/-- After any run, the nets of a two-word pool are those of the chain if and only if no
bitmap word, as it was last read, has the bit of a tick whose delta on chain is not zero. -/
theorem twoWord_nets_iff (hRun : ClRun keccak engine plans tickSpacing chain log s)
    (hTwoWord : plan.tickCodec = .twoWord) (hApart : DeltasApart keccak plan plans) (storage : Storage) :
    NetsAgree keccak plan storage s ↔
      ∀ word : Int, -2 ^ 15 ≤ word → word < 2 ^ 15 → ∀ bits,
        lastRead log (bitmapSlot keccak plan.addr plan.bitmapBase word) = some bits →
        ∀ bit, bits.getLsbD bit = true → onChainDelta keccak plan storage (256 * word + bit) = 0#128 := by
  have hWord : ∀ word, ((plan.reader s).source keccak).bitmapWord word =
      lastRead log (bitmapSlot keccak plan.addr plan.bitmapBase word) := fun word =>
    congrFun hRun.reads.cache (bitmapSlot keccak plan.addr plan.bitmapBase word)
  unfold NetsAgree
  refine forall_congr' fun word => forall₂_congr fun hLow hHigh => forall_congr' fun bits => ?_
  rw [hWord]
  refine forall_congr' fun _ => forall_congr' fun bit => forall_congr' fun hSet => ?_
  have hBit : bit < 256 := BitVec.lt_of_getLsbD hSet
  rw [hRun.liquidityNet_zero hTwoWord hApart (by omega) (by omega)]
  exact eq_comm

end Nets

section Sample

/-- Ticks of two words in slot 6, their table in slot 5. -/
def twoWordPlan : ClPlan where
  addr := 1#160
  slot0 := 2#256
  liquidity := 3#256
  liquidityShift := 0
  ticksBase := 6#256
  bitmapBase := 5#256
  tickCodec := .twoWord
  fee := .fromMeta

/-- Ticks 0 and 1 are initialized, tick 0 with a delta. -/
def twoWordStorage (delta : U256) : Storage := fun key =>
  if key.2 = mappingSlotSigned referenceKeccak 0 5#256 then 3#256
  else if key.2 = mappingSlotSigned referenceKeccak 0 6#256 + 1#256 then delta
  else 0#256

theorem standIn_succ (tick : Int) : standIn (mappingBuffer tick 6#256) + 1#256 = standIn (mappingBuffer tick 7#256) := by
  have hBase : ∀ base : U256, (mappingBuffer tick base).extractLsb' 0 64 = base.extractLsb' 0 64 := fun base =>
    BitVec.extractLsb'_append_eq_of_add_le (by omega)
  have hKey : ∀ base : U256, (mappingBuffer tick base).extractLsb' 256 64 = (BitVec.ofInt 256 tick).extractLsb' 0 64 :=
    fun base => BitVec.extractLsb'_append_eq_of_le (by omega)
  unfold standIn
  rw [hBase, hBase, hKey, hKey]
  generalize (BitVec.ofInt 256 tick).extractLsb' 0 64 = key
  apply BitVec.eq_of_toNat_eq
  have hLow : ∀ n : Nat, n < 2 ^ 64 → (key ++ BitVec.ofNat 64 n).toNat = key.toNat * 2 ^ 64 + n := by
    intro n hn
    rw [BitVec.toNat_append, BitVec.toNat_ofNat, Nat.mod_eq_of_lt hn, ← Nat.shiftLeft_add_eq_or_of_lt hn,
      Nat.shiftLeft_eq]
  have hAll : ∀ low : BitVec 128, (1#128 ++ low).toNat = 2 ^ 128 + low.toNat := by
    intro low
    rw [BitVec.toNat_append, ← Nat.shiftLeft_add_eq_or_of_lt low.isLt, Nat.shiftLeft_eq]
    rfl
  have hKeyLt := key.isLt
  rw [BitVec.toNat_add, hAll, hAll, show (6#256).extractLsb' 0 64 = BitVec.ofNat 64 6 by decide,
    show (7#256).extractLsb' 0 64 = BitVec.ofNat 64 7 by decide, hLow 6 (by omega), hLow 7 (by omega)]
  simp only [BitVec.toNat_ofNat]
  omega

theorem digests_succ : ∀ a ∈ digests, (∀ b ∈ digests, a.2 + 1#256 ≠ b.2) ∧ (a.2 + 1#256).extractLsb' 128 128 ≠ 1#128 := by
  have hAll : (digests.all fun a => (digests.all fun b => a.2 + 1#256 != b.2) &&
      (a.2 + 1#256).extractLsb' 128 128 != 1#128) = true := by decide
  intro a ha
  obtain ⟨hOthers, hHigh⟩ := Bool.and_eq_true_iff.mp (List.all_eq_true.mp hAll a ha)
  exact ⟨fun b hb => bne_iff_ne.mp (List.all_eq_true.mp hOthers b hb), bne_iff_ne.mp hHigh⟩

theorem succ_tickSlot_ne {tick key : Int} {base : U256} (hLow : -2 ^ 31 ≤ tick) (hHigh : tick < 2 ^ 31)
    (hKeyLow : -2 ^ 31 ≤ key) (hKeyHigh : key < 2 ^ 31) (hBase : base = 5#256 ∨ base = 6#256) :
    mappingSlotSigned referenceKeccak tick 6#256 + 1#256 ≠ mappingSlotSigned referenceKeccak key base := by
  change referenceKeccak (mappingBuffer tick 6#256) + 1#256 ≠ referenceKeccak (mappingBuffer key base)
  intro hSame
  rcases referenceKeccak_cases (mappingBuffer tick 6#256) with hMem | hStandIn <;>
    obtain hOther | hOther := referenceKeccak_cases (mappingBuffer key base)
  · exact (digests_succ _ hMem).1 _ hOther hSame
  · exact (digests_succ _ hMem).2 (by rw [hSame, hOther, standIn_high])
  · rw [hStandIn, standIn_succ] at hSame
    exact digests_high _ hOther (by rw [← hSame, standIn_high])
  · rw [hStandIn, standIn_succ, hOther] at hSame
    have hSmall : base.toNat < 2 ^ 64 := by
      obtain rfl | rfl := hBase <;> decide
    have hSeven := (standIn_inj hLow hHigh hKeyLow hKeyHigh (by decide) hSmall hSame).2
    obtain rfl | rfl := hBase <;> exact absurd hSeven (by decide)

theorem twoWordPlan_apart : DeltasApart referenceKeccak twoWordPlan [some (.cl twoWordPlan)] := by
  constructor
  · rintro tick hLow hHigh ⟨q, hq, k, hkLow, hkHigh, hKey⟩
    obtain rfl : q = twoWordPlan := by simpa using hq
    obtain hKey | hKey := hKey
    · exact succ_tickSlot_ne (by omega) (by omega) hkLow hkHigh (.inl rfl) (Prod.mk.inj hKey).2
    · exact succ_tickSlot_ne (by omega) (by omega) hkLow hkHigh (.inr rfl) (Prod.mk.inj hKey).2
  · intro tick _ _ q hq hKey
    obtain rfl : q = .cl twoWordPlan := by simpa using hq
    have hSmall : ∀ slot : U256, slot.toNat < 2 ^ 128 →
        mappingSlotSigned referenceKeccak tick 6#256 + 1#256 ≠ slot + 1#256 := by
      intro slot hSlot hSame
      have hSlotEq : mappingSlotSigned referenceKeccak tick 6#256 = slot := by bv_omega
      exact mappingSlotSigned_ne hSlot hSlotEq
    obtain hKey | hKey := List.mem_pair.mp hKey
    · exact hSmall 1#256 (by decide) (Prod.mk.inj hKey).2
    · exact hSmall 2#256 (by decide) (Prod.mk.inj hKey).2

def twoWordStart : ChainState := ⟨fun _ => none, fun _ => none, [some (.cl twoWordPlan)]⟩

def twoWordPatch : TickOp := .patchClTicks ⟨1#160, 6#256, 5#256, 1⟩ [0, 1]

def twoWordFirst (delta : U256) : List SlotCompletion :=
  serve (twoWordStorage delta) (twoWordPatch.firstBatch referenceKeccak twoWordStart)

def twoWordSecond (delta : U256) : List SlotCompletion :=
  serve (twoWordStorage delta) (twoWordPatch.secondBatch referenceKeccak twoWordStart
    (twoWordStart.prefetchTicks (twoWordFirst delta)))

/-- A mint on ticks 0 and 1 is patched into an empty tick cache. -/
theorem twoWord_run (delta : U256) : ClRun referenceKeccak ⟨[], []⟩ [some (.cl twoWordPlan)] (fun _ => 1)
    (fun _ => twoWordStorage delta) ([] ++ (twoWordFirst delta ++ twoWordSecond delta))
    (hydrated twoWordStart (twoWordFirst delta) (twoWordSecond delta)) := by
  have hCall : patchCall [some (.cl twoWordPlan)] (fun _ => 1) (.poolLog 11 0 (some (0, 1))) =
    some (⟨1#160, 6#256, 5#256, 1⟩, [0, 1]) := rfl
  have hCompleted : twoWordPatch.Completed referenceKeccak twoWordStart (twoWordFirst delta) (twoWordSecond delta) :=
    ⟨serve_completes _ _, serve_completes _ _⟩
  refine .op (.start rfl rfl nofun) (.patch hCall ?_) hCompleted ?_
  · intro t ht
    obtain rfl | rfl := List.mem_pair.mp ht <;> decide
  · intro completion hMem
    obtain hMem | hMem := List.mem_append.mp hMem
    · exact ⟨0, serve_served _ _ completion hMem⟩
    · exact ⟨0, serve_served _ _ completion hMem⟩

/-- After the patch the reader knows the bit of tick 0 and takes its net as zero. -/
theorem twoWord_net_missing : ¬∀ (engine : Engine) (plans : List (Option SlotPlan)) (tickSpacing : Nat → Int)
    (storage : Storage) (log : List SlotCompletion) (s : ChainState) (plan : ClPlan), plan.tickCodec = .twoWord →
    DeltasApart referenceKeccak plan plans →
    ClRun referenceKeccak engine plans tickSpacing (fun _ => storage) log s →
    NetsAgree referenceKeccak plan storage s := by
  intro hAll
  have hAgree := hAll _ _ _ _ _ _ twoWordPlan rfl twoWordPlan_apart (twoWord_run 400#256)
  have hNet := hAgree 0 (by decide) (by decide) 3#256 (by decide +kernel) 0 (by decide)
  exact absurd hNet (by decide +kernel)

theorem twoWord_nets_zero : NetsAgree referenceKeccak twoWordPlan (twoWordStorage 0#256)
    (hydrated twoWordStart (twoWordFirst 0#256) (twoWordSecond 0#256)) := by
  refine (twoWord_nets_iff (twoWord_run 0#256) rfl twoWordPlan_apart (twoWordStorage 0#256)).mpr ?_
  intro word hLow hHigh bits _ bit hSet
  have hBit : bit < 256 := BitVec.lt_of_getLsbD hSet
  have hOther : mappingSlotSigned referenceKeccak (256 * word + bit) 6#256 + 1#256 ≠
      mappingSlotSigned referenceKeccak 0 5#256 :=
    succ_tickSlot_ne (by omega) (by omega) (by decide) (by decide) (.inl rfl)
  have hZero : twoWordStorage 0#256 (twoWordPlan.deltaKey referenceKeccak (256 * word + bit)) = 0#256 :=
    (if_neg hOther).trans (ite_self _)
  rw [onChainDelta, hZero]
  decide

end Sample

end Robinarb

import Robinarb.State.Patch
import Mathlib.Data.List.Induction

/-! # Bitmap words and their nets while batches run

Every completed read is visible at once, between the two batches of an operation
too, and any read may fail. A bitmap word is then known together with all its
nets exactly as long as no read returns a bit whose net is not cached yet.
-/

namespace Robinarb

open CacheFill ChainState

/-- The operations that write the tick cache. -/
inductive TickOp where
  | hydrateAllTicks (engine : Engine)
  | hydrateClTicksForPool (plan : SlotPlan) (tickSpacing : Int)
  | patchClTicks (pool : TickPool) (ticks : List Int)

/-- The CL pools `hydrate_all_ticks` collects. -/
def ChainState.clPlans (s : ChainState) (engine : Engine) : List (SlotPlan × Int) :=
  engine.metas.filterMap fun m =>
    match s.plan m.idx with
    | some (.cl plan) => some (.cl plan, m.tickSpacing)
    | _ => none

section Ops

variable (keccak : Keccak)

def TickOp.firstBatch (s : ChainState) : TickOp → List SlotKey
  | .hydrateAllTicks engine =>
    windowBitmapSlots keccak (s.clTickWindows (s.clPlans engine) bootstrapTickWordRange)
  | .hydrateClTicksForPool plan tickSpacing =>
    windowBitmapSlots keccak (s.clTickWindows [(plan, tickSpacing)] bootstrapTickWordRange)
  | .patchClTicks pool ticks => pool.patchWordKeys keccak ticks

/-- The windows come from the state at the start, the words from the state after the first batch. -/
def TickOp.secondBatch (s after : ChainState) : TickOp → List SlotKey
  | .hydrateAllTicks engine =>
    after.windowTickSlots keccak (s.clTickWindows (s.clPlans engine) bootstrapTickWordRange)
  | .hydrateClTicksForPool plan tickSpacing =>
    after.windowTickSlots keccak (s.clTickWindows [(plan, tickSpacing)] bootstrapTickWordRange)
  | .patchClTicks pool ticks => pool.patchTickKeys keccak after ticks

/-- Completions of one operation, failures included. -/
structure TickOp.Completed (op : TickOp) (s : ChainState) (first second : List SlotCompletion) : Prop where
  firstBatch : Completes (op.firstBatch keccak s) first
  secondBatch : Completes (op.secondBatch keccak s (s.prefetchTicks first)) second

/-- The pool of a window, at the spacing the window is read at. -/
def PoolWindow.pool (pw : PoolWindow) : TickPool := ⟨pw.addr, pw.ticksBase, pw.bitmapBase, pw.spacing⟩

def TickPool.atLeastOne (pool : TickPool) : TickPool := { pool with spacing := max pool.spacing 1 }

/-- The bitmap words that an operation reads. -/
def TickOp.words (s : ChainState) : TickOp → List (TickPool × Int)
  | .hydrateAllTicks engine =>
    (s.clTickWindows (s.clPlans engine) bootstrapTickWordRange).flatMap fun pw =>
      (wordRange pw.lo pw.hi).map fun word => (pw.pool, word)
  | .hydrateClTicksForPool plan tickSpacing =>
    (s.clTickWindows [(plan, tickSpacing)] bootstrapTickWordRange).flatMap fun pw =>
      (wordRange pw.lo pw.hi).map fun word => (pw.pool, word)
  | .patchClTicks pool ticks => (patchWords pool.spacing ticks).map fun word => (pool.atLeastOne, word)

/-- The net slots of the ticks that a patch is given. -/
def TickOp.given : TickOp → List SlotKey
  | .patchClTicks pool ticks => ticks.map (pool.tickKey keccak)
  | _ => []

/-- An operation on known pools. The ticks of a patch are `i32`. -/
def TickOp.Known (pools : List TickPool) (s : ChainState) (op : TickOp) : Prop :=
  (∀ pw ∈ op.words s, pw.1 ∈ pools) ∧
    match op with
    | .patchClTicks pool ticks => pool.atLeastOne ∈ pools ∧ ∀ t ∈ ticks, -2 ^ 31 ≤ t ∧ t < 2 ^ 31
    | _ => True

/-- One call of an operation: the completions of its batches, and what of them has come in. -/
structure TickCall where
  op : TickOp
  first : List SlotCompletion
  second : List SlotCompletion
  seen : List SlotCompletion

/-- Both batches are in, and no net was lost. Bitmap words may be. -/
structure TickCall.Whole (call : TickCall) : Prop where
  seen : call.seen = call.first ++ call.second
  nets : ∀ completion ∈ call.second, completion.2.isSome

def logOf (calls : List TickCall) : List SlotCompletion := calls.flatMap TickCall.seen

/-- Sequences of operations. A call may be looked at, or broken off, between any two of its
completions; other tasks write the memo only. -/
inductive TickRun (pools : List TickPool) (start : ChainState) : List TickCall → ChainState → Prop where
  | start : TickRun pools start [] start
  | memo {calls : List TickCall} {s t : ChainState} (prev : TickRun pools start calls s)
      (same : t.tickCache = s.tickCache) : TickRun pools start calls t
  | call {calls : List TickCall} {s : ChainState} {call : TickCall} (prev : TickRun pools start calls s)
      (known : call.op.Known pools s) (apart : MemoApart keccak pools s)
      (completed : call.op.Completed keccak s call.first call.second)
      (seen : call.seen <+: call.first ++ call.second) :
      TickRun pools start (calls ++ [call]) (s.prefetchTicks call.seen)

/-- The net was there at the start, or a patch was given its tick and has read it. -/
def NetGiven (cache : SlotCache) (calls : List TickCall) (key : SlotKey) : Prop :=
  (cache key).isSome ∨ ∃ call ∈ calls, key ∈ call.op.given keccak ∧ ∃ net, (key, some net) ∈ call.seen

/-- Every bitmap word that a call reads has only bits whose ticks earlier patches were given. -/
def BitsGiven (pools : List TickPool) (cache : SlotCache) (calls : List TickCall) : Prop :=
  ∀ earlier call later, calls = earlier ++ call :: later →
    ∀ pool ∈ pools, ∀ word : Int, -2 ^ 15 ≤ word → word < 2 ^ 15 →
      ∀ bits, (pool.bitmapKey keccak word, some bits) ∈ call.seen → ∀ bit, bits.getLsbD bit = true →
        NetGiven keccak cache earlier (pool.tickKey keccak (rawTick word bit pool.spacing))

def NetSlot (pools : List TickPool) (key : SlotKey) : Prop :=
  ∃ pool ∈ pools, ∃ tick : Int, -2 ^ 31 ≤ tick ∧ tick < 2 ^ 31 ∧ key = pool.tickKey keccak tick

end Ops

section Batches

variable {keccak : Keccak} {pools : List TickPool} {op : TickOp} {s after : ChainState} {key : SlotKey}

theorem firstBatch_eq (op : TickOp) (s : ChainState) :
    op.firstBatch keccak s = (op.words s).map fun pw => pw.1.bitmapKey keccak pw.2 := by
  cases op with
  | hydrateAllTicks engine =>
    simp only [TickOp.firstBatch, TickOp.words, windowBitmapSlots, List.map_flatMap, List.map_map]
    rfl
  | hydrateClTicksForPool plan tickSpacing =>
    simp only [TickOp.firstBatch, TickOp.words, windowBitmapSlots, List.map_flatMap, List.map_map]
    rfl
  | patchClTicks pool ticks =>
    simp only [TickOp.firstBatch, TickOp.words, List.map_map]
    rfl

theorem secondBatch_eq (op : TickOp) (s after : ChainState) :
    op.secondBatch keccak s after = op.given keccak ++ (op.words s).flatMap fun pw =>
      slotsOfBits keccak pw.1.addr pw.1.ticksBase pw.1.spacing pw.2
        (after.read pw.1.addr (mappingSlotSigned keccak pw.2 pw.1.bitmapBase)) := by
  cases op with
  | hydrateAllTicks engine =>
    simp only [TickOp.secondBatch, TickOp.words, TickOp.given, windowTickSlots, List.nil_append, List.flatMap_assoc,
      List.flatMap_map]
    rfl
  | hydrateClTicksForPool plan tickSpacing =>
    simp only [TickOp.secondBatch, TickOp.words, TickOp.given, windowTickSlots, List.nil_append, List.flatMap_assoc,
      List.flatMap_map]
    rfl
  | patchClTicks pool ticks =>
    simp only [TickOp.secondBatch, TickOp.words, TickOp.given, TickPool.patchTickKeys, patchTickSlots, List.flatMap_map]
    rfl

/-- The second batch asks for what a patch is given and for the bits of the words as read. -/
theorem mem_secondBatch : key ∈ op.secondBatch keccak s after ↔ key ∈ op.given keccak ∨
    ∃ pw ∈ op.words s, ∃ bit, (after.read pw.1.addr (mappingSlotSigned keccak pw.2 pw.1.bitmapBase)).getLsbD bit = true ∧
      key = pw.1.tickKey keccak (rawTick pw.2 bit pw.1.spacing) := by
  rw [secondBatch_eq, List.mem_append, List.mem_flatMap]
  simp only [mem_slotsOfBits]
  rfl

theorem clTickWindow_range {asked : SlotPlan × Int} {range : Int} {pw : PoolWindow}
    (h : s.clTickWindow range asked = some pw) : -2 ^ 15 ≤ pw.lo ∧ pw.hi < 2 ^ 15 := by
  obtain ⟨plan, spacing⟩ := asked
  cases plan with
  | v2Packed addr slot => cases h
  | v2TwoSlot addr r0 => cases h
  | cl q =>
    unfold clTickWindow at h
    dsimp only at h
    split at h
    · cases h
      exact ⟨(saturateI16_range _).1, (saturateI16_range _).2⟩
    · cases h

theorem windowWords_range {asked : List (SlotPlan × Int)} {range : Int} {pw : TickPool × Int}
    (h : pw ∈ (s.clTickWindows asked range).flatMap fun w => (wordRange w.lo w.hi).map fun word => (w.pool, word)) :
    -2 ^ 15 ≤ pw.2 ∧ pw.2 < 2 ^ 15 := by
  obtain ⟨window, hWindow, hWord⟩ := List.mem_flatMap.mp h
  obtain ⟨word, hRange, rfl⟩ := List.mem_map.mp hWord
  obtain ⟨plan, -, hPlan⟩ := List.mem_filterMap.mp hWindow
  obtain ⟨hLow, hHigh⟩ := clTickWindow_range hPlan
  obtain ⟨hFirst, hLast⟩ := mem_wordRange.mp hRange
  exact ⟨hLow.trans hFirst, hLast.trans_lt hHigh⟩

theorem words_range {pw : TickPool × Int} (h : pw ∈ op.words s) : -2 ^ 15 ≤ pw.2 ∧ pw.2 < 2 ^ 15 := by
  cases op with
  | hydrateAllTicks engine => exact windowWords_range h
  | hydrateClTicksForPool plan tickSpacing => exact windowWords_range h
  | patchClTicks pool ticks =>
    obtain ⟨word, hWord, rfl⟩ := List.mem_map.mp h
    exact mem_patchWords hWord

theorem TickOp.Known.firstBatch (h : op.Known pools s) (hKey : key ∈ op.firstBatch keccak s) :
    ∃ pool word, (pool, word) ∈ op.words s ∧ pool ∈ pools ∧ -2 ^ 15 ≤ word ∧ word < 2 ^ 15 ∧
      key = pool.bitmapKey keccak word := by
  rw [firstBatch_eq] at hKey
  obtain ⟨⟨pool, word⟩, hWord, rfl⟩ := List.mem_map.mp hKey
  obtain ⟨hLow, hHigh⟩ := words_range hWord
  exact ⟨pool, word, hWord, h.1 _ hWord, hLow, hHigh, rfl⟩

theorem TickOp.Known.given (h : op.Known pools s) (hKey : key ∈ op.given keccak) : NetSlot keccak pools key := by
  cases op with
  | hydrateAllTicks engine => cases hKey
  | hydrateClTicksForPool plan tickSpacing => cases hKey
  | patchClTicks pool ticks =>
    obtain ⟨t, hTick, rfl⟩ := List.mem_map.mp hKey
    obtain ⟨-, hPool, hFits⟩ := h
    exact ⟨_, hPool, t, (hFits t hTick).1, (hFits t hTick).2, rfl⟩

theorem TickOp.Known.secondBatch (h : op.Known pools s) (hKey : key ∈ op.secondBatch keccak s after) :
    NetSlot keccak pools key := by
  obtain hGiven | ⟨⟨pool, word⟩, hWord, bit, -, rfl⟩ := mem_secondBatch.mp hKey
  · exact h.given hGiven
  · obtain ⟨hLow, hHigh⟩ := rawTick_range word bit pool.spacing
    exact ⟨pool, h.1 _ hWord, _, hLow, hHigh, rfl⟩

theorem SlotsDistinct.not_netSlot (h : SlotsDistinct keccak pools) {pool : TickPool} (hPool : pool ∈ pools) {word : Int}
    (hLow : -2 ^ 15 ≤ word) (hHigh : word < 2 ^ 15) : ¬NetSlot keccak pools (pool.bitmapKey keccak word) := by
  rintro ⟨q, hq, tick, hTickLow, hTickHigh, hEq⟩
  exact h.bitmap_tick pool hPool q hq word tick hLow hHigh hTickLow hTickHigh hEq

/-- A first batch brings no net. -/
theorem TickOp.Completed.first_not_net {first second : List SlotCompletion} (h : op.Completed keccak s first second)
    (hDistinct : SlotsDistinct keccak pools) (hKnown : op.Known pools s) {value : Option U256}
    (hMem : (key, value) ∈ first) : ¬NetSlot keccak pools key := by
  obtain ⟨pool, word, -, hPool, hLow, hHigh, rfl⟩ := hKnown.firstBatch (h.firstBatch.subset (List.mem_map_of_mem hMem))
  exact hDistinct.not_netSlot hPool hLow hHigh

/-- A second batch brings nets only. -/
theorem TickOp.Completed.second_net {first second : List SlotCompletion} (h : op.Completed keccak s first second)
    (hKnown : op.Known pools s) {value : Option U256} (hMem : (key, value) ∈ second) : NetSlot keccak pools key :=
  hKnown.secondBatch (h.secondBatch.subset (List.mem_map_of_mem hMem))

end Batches

section Runs

variable {keccak : Keccak} {pools : List TickPool} {start t : ChainState} {calls : List TickCall}

theorem logOf_append (calls : List TickCall) (call : TickCall) : logOf (calls ++ [call]) = logOf calls ++ call.seen := by
  rw [logOf, List.flatMap_append, List.flatMap_singleton]
  rfl

theorem mem_logOf {call : TickCall} (h : call ∈ calls) {completion : SlotCompletion} (hSeen : completion ∈ call.seen) :
    completion ∈ logOf calls :=
  List.mem_flatMap.mpr ⟨call, h, hSeen⟩

theorem TickRun.tickCache_eq (h : TickRun keccak pools start calls t) :
    t.tickCache = fill start.tickCache (logOf calls) := by
  induction h with
  | start => rfl
  | memo _ same ih => rw [same, ih]
  | call _ _ _ _ _ ih => rw [prefetchTicks_tickCache, ih, logOf_append, fill_append]

theorem NetGiven.mono {cache : SlotCache} {key : SlotKey} (h : NetGiven keccak cache calls key) (call : TickCall) :
    NetGiven keccak cache (calls ++ [call]) key := by
  refine h.imp_right ?_
  rintro ⟨other, hMem, hGiven⟩
  exact ⟨other, List.mem_append_left _ hMem, hGiven⟩

theorem NetGiven.cached {cache : SlotCache} {key : SlotKey} (h : NetGiven keccak cache calls key) :
    (fill cache (logOf calls) key).isSome := by
  refine fill_isSome_iff.mpr (h.imp_right ?_)
  rintro ⟨call, hMem, -, net, hSeen⟩
  exact ⟨net, mem_logOf hMem hSeen⟩

/-- While words come with their nets, the nets that are there come from the start or from
patches that were given their ticks: the bits of a word only ask for nets that are there. -/
theorem TickRun.netGiven (hDistinct : SlotsDistinct keccak pools) (h : TickRun keccak pools start calls t)
    (hCoupled : ∀ part, part <+: logOf calls → Coupled keccak pools (fill start.tickCache part)) {key : SlotKey}
    (hNet : NetSlot keccak pools key) (hCached : (t.tickCache key).isSome) :
    NetGiven keccak start.tickCache calls key := by
  induction h with
  | start => exact .inl hCached
  | memo _ same ih => exact ih hCoupled (same ▸ hCached)
  | @call calls s call hPrev hKnown hApart hCompleted hSeen ih =>
    rw [logOf_append] at hCoupled
    have hBefore : (s.tickCache key).isSome → NetGiven keccak start.tickCache (calls ++ [call]) key := fun hOld =>
      (ih (fun part hPart => hCoupled part (hPart.trans (List.prefix_append _ _))) hOld).mono call
    rw [prefetchTicks_tickCache] at hCached
    obtain hOld | ⟨net, hMem⟩ := fill_isSome_iff.mp hCached
    · exact hBefore hOld
    have hNotFirst : (key, some net) ∉ call.first := fun hFirst => hCompleted.first_not_net hDistinct hKnown hFirst hNet
    have hSecond := (List.mem_append.mp (hSeen.subset hMem)).resolve_left hNotFirst
    obtain hGiven | ⟨⟨pool, word⟩, hWord, bit, hSet, rfl⟩ :=
      mem_secondBatch.mp (hCompleted.secondBatch.subset (List.mem_map_of_mem hSecond))
    · exact .inr ⟨call, List.mem_append_right _ (List.mem_singleton_self _), hGiven, net, hMem⟩
    -- the bit is one of a word that was known before the second batch began
    have hFirst : call.first <+: call.seen := by
      obtain hShort | hLong := List.prefix_or_prefix_of_prefix hSeen (List.prefix_append call.first call.second)
      · exact absurd (hShort.subset hMem) hNotFirst
      · exact hLong
    obtain ⟨hLow, hHigh⟩ := words_range hWord
    have hPool := hKnown.1 _ hWord
    rw [read_word hApart hPool hLow hHigh] at hSet
    cases hBits : fill s.tickCache call.first (pool.bitmapKey keccak word) with
    | none => simp [hBits] at hSet
    | some bits =>
      rw [hBits, Option.getD_some] at hSet
      have hAt := hCoupled (logOf calls ++ call.first) ((List.prefix_append_right_inj _).mpr hFirst)
      rw [fill_append, ← hPrev.tickCache_eq] at hAt
      obtain hOld | ⟨other, hOther⟩ := fill_isSome_iff.mp (hAt pool hPool word hLow hHigh bits hBits bit hSet)
      · exact hBefore hOld
      · exact absurd hNet (hCompleted.first_not_net hDistinct hKnown hOther)

theorem coupled_of_nets {cache : SlotCache} {log : List SlotCompletion}
    (hNets : ∀ pool ∈ pools, ∀ word : Int, -2 ^ 15 ≤ word → word < 2 ^ 15 →
      ∀ bits, (pool.bitmapKey keccak word, some bits) ∈ log → ∀ bit, bits.getLsbD bit = true →
        (cache (pool.tickKey keccak (rawTick word bit pool.spacing))).isSome)
    (hCoupled : Coupled keccak pools cache) : Coupled keccak pools (fill cache log) := by
  intro pool hPool word hLow hHigh bits hWord bit hSet
  apply fill_isSome
  obtain hSame | ⟨value, hMem, hNew⟩ := fill_cases cache log (pool.bitmapKey keccak word)
  · rw [hSame] at hWord
    exact hCoupled pool hPool word hLow hHigh bits hWord bit hSet
  · rw [hNew, Option.some.injEq] at hWord
    subst hWord
    exact hNets pool hPool word hLow hHigh value hMem bit hSet

theorem BitsGiven.init {cache : SlotCache} {call : TickCall} (h : BitsGiven keccak pools cache (calls ++ [call])) :
    BitsGiven keccak pools cache calls := by
  intro earlier other later hCalls
  exact h earlier other (later ++ [call]) (by rw [hCalls, List.append_assoc, List.cons_append])

/-- Calls whose words have only given bits keep words and nets together at every completion. -/
theorem BitsGiven.coupled {cache : SlotCache} (h : BitsGiven keccak pools cache calls)
    (hStart : Coupled keccak pools cache) :
    ∀ part, part <+: logOf calls → Coupled keccak pools (fill cache part) := by
  induction calls using List.reverseRecOn with
  | nil =>
    intro part hPart
    rw [List.prefix_nil.mp hPart]
    exact hStart
  | append_singleton calls call ih =>
    intro part hPart
    rw [logOf_append] at hPart
    have hBefore := ih h.init
    obtain hShort | ⟨rest, rfl⟩ := List.prefix_or_prefix_of_prefix hPart (List.prefix_append (logOf calls) call.seen)
    · exact hBefore part hShort
    · have hRest : rest <+: call.seen := (List.prefix_append_right_inj _).mp hPart
      rw [fill_append]
      refine coupled_of_nets ?_ (hBefore _ (List.prefix_refl _))
      intro pool hPool word hLow hHigh bits hMem bit hSet
      exact (h calls call [] rfl pool hPool word hLow hHigh bits (hRest.subset hMem) bit hSet).cached

/-- The state before a call of a run, and what is known of the call. -/
theorem TickRun.split {earlier later : List TickCall} {call : TickCall}
    (h : TickRun keccak pools start (earlier ++ call :: later) t) :
    ∃ s, TickRun keccak pools start earlier s ∧ call.op.Known pools s ∧
      call.op.Completed keccak s call.first call.second ∧ call.seen <+: call.first ++ call.second := by
  generalize hCalls : earlier ++ call :: later = calls at h
  induction h generalizing later with
  | start => simp at hCalls
  | memo _ _ ih => exact ih hCalls
  | @call calls s last hPrev hKnown _ hCompleted hSeen ih =>
    obtain rfl | ⟨rest, final, rfl⟩ := List.eq_nil_or_concat later
    · obtain ⟨rfl, hLast⟩ := List.append_inj' hCalls rfl
      cases hLast
      exact ⟨s, hPrev, hKnown, hCompleted, hSeen⟩
    · have hInit : earlier ++ call :: rest ++ [final] = calls ++ [last] := by simpa using hCalls
      exact ih (List.append_inj' hInit rfl).1

/-- A word is read by a first batch, before any net of the call. -/
theorem word_before_nets {first second seen : List SlotCompletion} (hSeen : seen <+: first ++ second)
    {completion : SlotCompletion} (hMem : completion ∈ seen) (hWord : completion ∉ second) :
    ∃ before, before ++ [completion] <+: seen ∧ ∀ other ∈ before ++ [completion], other ∈ first := by
  have hIn : ∀ part, part <+: seen → part <+: first → completion ∈ part →
      ∃ before, before ++ [completion] <+: seen ∧ ∀ other ∈ before ++ [completion], other ∈ first := by
    intro part hPart hFirst hMem
    obtain ⟨before, after, rfl⟩ := List.append_of_mem hMem
    have hBefore : before ++ [completion] <+: before ++ completion :: after := ⟨after, by simp⟩
    exact ⟨before, hBefore.trans hPart, fun other hOther => hFirst.subset (hBefore.subset hOther)⟩
  obtain hShort | hLong := List.prefix_or_prefix_of_prefix hSeen (List.prefix_append first second)
  · exact hIn seen (List.prefix_refl _) hShort hMem
  · exact hIn first hLong (List.prefix_refl _) ((List.mem_append.mp (hSeen.subset hMem)).resolve_right hWord)

theorem TickRun.bitsGiven (hDistinct : SlotsDistinct keccak pools) (h : TickRun keccak pools start calls t)
    (hCoupled : ∀ part, part <+: logOf calls → Coupled keccak pools (fill start.tickCache part)) :
    BitsGiven keccak pools start.tickCache calls := by
  rintro earlier call later rfl pool hPool word hLow hHigh bits hMem bit hSet
  obtain ⟨s, hBefore, hKnown, hCompleted, hSeen⟩ := h.split
  have hWord : (pool.bitmapKey keccak word, some bits) ∉ call.second := fun hSecond =>
    hDistinct.not_netSlot hPool hLow hHigh (hCompleted.second_net hKnown hSecond)
  obtain ⟨before, hPart, hFirst⟩ := word_before_nets hSeen hMem hWord
  have hLog : logOf (earlier ++ call :: later) = logOf earlier ++ (call.seen ++ logOf later) := by
    rw [logOf, List.flatMap_append, List.flatMap_cons]
    rfl
  rw [hLog] at hCoupled
  have hRange := rawTick_range word bit pool.spacing
  have hNet : NetSlot keccak pools (pool.tickKey keccak (rawTick word bit pool.spacing)) :=
    ⟨pool, hPool, _, hRange.1, hRange.2, rfl⟩
  -- as soon as the word is in, its net is, and no net is among the completions of a first batch
  have hAt := hCoupled (logOf earlier ++ (before ++ [(pool.bitmapKey keccak word, some bits)]))
    ((List.prefix_append_right_inj _).mpr (hPart.trans (List.prefix_append _ _)))
  rw [fill_append, fill_append] at hAt
  have hCached := hAt pool hPool word hLow hHigh bits (by simp [complete, CacheFill.insert]) bit hSet
  rw [← fill_append] at hCached
  obtain hOld | ⟨net, hNew⟩ := fill_isSome_iff.mp hCached
  · rw [← hBefore.tickCache_eq] at hOld
    exact hBefore.netGiven hDistinct (fun part hPart => hCoupled part (hPart.trans (List.prefix_append _ _))) hNet hOld
  · exact absurd hNet (hCompleted.first_not_net hDistinct hKnown (hFirst _ hNew))

/-- A call that loses no net leaves words and nets together. -/
theorem TickCall.Whole.coupled {s : ChainState} {call : TickCall} (h : call.Whole)
    (hDistinct : SlotsDistinct keccak pools) (hKnown : call.op.Known pools s) (hApart : MemoApart keccak pools s)
    (hCompleted : call.op.Completed keccak s call.first call.second) (hCoupled : Coupled keccak pools s.tickCache) :
    Coupled keccak pools (s.prefetchTicks call.seen).tickCache := by
  rw [h.seen, prefetchTicks_tickCache, fill_append]
  refine coupled_of_batches ?_ ?_ hCoupled
  · intro q hq word hLow hHigh
    apply fill_of_notMem hCompleted.secondBatch
    exact fun hMem => hDistinct.not_netSlot hq hLow hHigh (hKnown.secondBatch hMem)
  · intro q hq word hLow hHigh hAsked bits hWord bit hSet
    obtain ⟨pool, other, hRead, hPool, hOtherLow, hOtherHigh, hEq⟩ :=
      hKnown.firstBatch (hCompleted.firstBatch.subset hAsked)
    obtain ⟨rfl, rfl⟩ := hDistinct.bitmap_inj q hq pool hPool word other hLow hHigh hOtherLow hOtherHigh hEq
    have hNet : q.tickKey keccak (rawTick word bit q.spacing) ∈
        call.op.secondBatch keccak s (s.prefetchTicks call.first) := by
      refine mem_secondBatch.mpr (.inr ⟨(q, word), hRead, bit, ?_, rfl⟩)
      rw [read_word hApart hq hLow hHigh, hWord]
      exact hSet
    obtain ⟨net, -, hFound⟩ := fill_of_mem hCompleted.secondBatch h.nets hNet (fill s.tickCache call.first)
    rw [hFound]
    rfl

theorem TickRun.coupled_of_whole (hDistinct : SlotsDistinct keccak pools) (h : TickRun keccak pools start calls t)
    (hStart : Coupled keccak pools start.tickCache) (hWhole : ∀ call ∈ calls, call.Whole) :
    Coupled keccak pools t.tickCache := by
  induction h with
  | start => exact hStart
  | memo _ same ih => exact same ▸ ih hWhole
  | call _ hKnown hApart hCompleted _ ih =>
    have hCall := hWhole _ (List.mem_append_right _ (List.mem_singleton_self _))
    exact hCall.coupled hDistinct hKnown hApart hCompleted (ih fun call hMem => hWhole call (List.mem_append_left _ hMem))

/-- In every run, a known bitmap word comes with the nets of all its bits in every state the
run passes through if and only if every word that a call reads has only bits whose nets were
there at the start or were read by an earlier patch that was given their ticks. Between
calls words and nets are together as long as no read of a net fails. -/
theorem tickRun_coupled_iff (hDistinct : SlotsDistinct keccak pools) (hRun : TickRun keccak pools start calls t)
    (hStart : Coupled keccak pools start.tickCache) :
    ((∀ part, part <+: logOf calls → Coupled keccak pools (fill start.tickCache part)) ↔
      BitsGiven keccak pools start.tickCache calls) ∧
    (BitsGiven keccak pools start.tickCache calls → Coupled keccak pools t.tickCache) ∧
    ((∀ call ∈ calls, call.Whole) → Coupled keccak pools t.tickCache) := by
  refine ⟨⟨hRun.bitsGiven hDistinct, fun h => h.coupled hStart⟩, fun h => ?_, hRun.coupled_of_whole hDistinct hStart⟩
  rw [hRun.tickCache_eq]
  exact h.coupled hStart _ (List.prefix_refl _)

end Runs

section Sample

/-- Replies of a provider that fails every read. -/
def failAll (keys : List SlotKey) : List SlotCompletion := keys.map fun key => (key, none)

theorem failAll_completes (keys : List SlotKey) : Completes keys (failAll keys) := by
  simp [Completes, failAll, Function.comp_def]

theorem fill_failAll (cache : SlotCache) (keys : List SlotKey) : fill cache (failAll keys) = cache := by
  induction keys with
  | nil => rfl
  | cons key rest ih => exact ih

/-- A patch of both ticks from an empty cache that gets the nets and none of the words. -/
def netsOnly : TickCall where
  op := .patchClTicks samplePool [0, 1]
  first := failAll (samplePool.patchWordKeys referenceKeccak [0, 1])
  second := serve sampleStorage ([0, 1].map (samplePool.tickKey referenceKeccak))
  seen := failAll (samplePool.patchWordKeys referenceKeccak [0, 1]) ++
    serve sampleStorage ([0, 1].map (samplePool.tickKey referenceKeccak))

/-- The patch of the next event on the same ticks, before its second batch. -/
def wordsNext : TickCall where
  op := .patchClTicks samplePool [0, 1]
  first := serve sampleStorage (samplePool.patchWordKeys referenceKeccak [0, 1])
  second := serve sampleStorage (samplePool.patchTickKeys referenceKeccak ((sampleState.prefetchTicks netsOnly.seen).prefetchTicks
    (serve sampleStorage (samplePool.patchWordKeys referenceKeccak [0, 1]))) [0, 1])
  seen := serve sampleStorage (samplePool.patchWordKeys referenceKeccak [0, 1])

theorem samplePatch_known (s : ChainState) :
    (TickOp.patchClTicks samplePool [0, 1]).Known [samplePool] s := by
  refine ⟨fun pw hWord => ?_, List.mem_singleton_self _, by decide⟩
  obtain ⟨word, -, rfl⟩ := List.mem_map.mp hWord
  exact List.mem_singleton_self _

theorem sampleState_apart : MemoApart referenceKeccak [samplePool] sampleState := by
  intro pool hPool word hLow hHigh
  obtain rfl := List.mem_singleton.mp hPool
  exact sample_slotsApart.bitmap_none hLow hHigh

theorem wordsNext_run : TickRun referenceKeccak [samplePool] sampleState [netsOnly, wordsNext]
    ((sampleState.prefetchTicks netsOnly.seen).prefetchTicks wordsNext.seen) := by
  have hFirst : TickRun referenceKeccak [samplePool] sampleState ([] ++ [netsOnly])
      (sampleState.prefetchTicks netsOnly.seen) := by
    refine .call .start (samplePatch_known _) sampleState_apart ⟨failAll_completes _, ?_⟩ (List.prefix_refl _)
    rw [show (netsOnly.op.secondBatch referenceKeccak sampleState (sampleState.prefetchTicks netsOnly.first)) =
      [0, 1].map (samplePool.tickKey referenceKeccak) by decide +kernel]
    exact serve_completes _ _
  exact .call hFirst (samplePatch_known _) sampleState_apart ⟨serve_completes _ _, serve_completes _ _⟩
    (List.prefix_append _ _)

theorem wordsNext_given : BitsGiven referenceKeccak [samplePool] sampleState.tickCache [netsOnly, wordsNext] := by
  intro earlier call later hCalls pool hPool word hLow hHigh bits hMem bit hSet
  obtain rfl := List.mem_singleton.mp hPool
  rcases earlier with _ | ⟨other, _ | ⟨last, more⟩⟩
  · -- the first patch has read nets only
    obtain ⟨rfl, -⟩ := List.cons.inj hCalls
    obtain hMem | hMem := List.mem_append.mp hMem
    · obtain ⟨key, -, hKey⟩ := List.mem_map.mp hMem
      cases hKey
    · obtain ⟨key, hNet, hKey⟩ := List.mem_map.mp hMem
      obtain ⟨tick, hTick, rfl⟩ := List.mem_map.mp hNet
      have hRange : tick = 0 ∨ tick = 1 := by simpa using hTick
      exact absurd (congrArg Prod.fst hKey).symm
        (samplePool_slotsDistinct.bitmap_tick _ hPool _ hPool word tick hLow hHigh (by omega) (by omega))
  · obtain ⟨hOther, hRest⟩ := List.cons.inj hCalls
    obtain ⟨rfl, -⟩ := List.cons.inj hRest
    rw [← hOther]
    have hBits := serve_served _ _ _ hMem
    rw [show samplePool.bitmapKey referenceKeccak word = bitmapSlot referenceKeccak 1#160 6#256 word from rfl,
      sampleStorage_bitmap (by omega) (by omega), Option.some.injEq] at hBits
    subst hBits
    split at hSet
    · rename_i hWord
      subst hWord
      refine .inr ⟨netsOnly, List.mem_singleton_self _, ?_⟩
      rcases bits_three hSet with rfl | rfl
      · exact ⟨by decide +kernel, _, List.mem_append_right _ (List.mem_map_of_mem List.mem_cons_self)⟩
      · exact ⟨by decide +kernel, _, List.mem_append_right _ (List.mem_map_of_mem (by decide +kernel))⟩
    · simp at hSet
  · simp at hCalls

theorem samplePatch_coupled : (∀ part, part <+: logOf [netsOnly, wordsNext] →
      Coupled referenceKeccak [samplePool] (fill sampleState.tickCache part)) ∧
    fill sampleState.tickCache (logOf [netsOnly, wordsNext]) (samplePool.bitmapKey referenceKeccak 0) = some 3#256 := by
  have hEmpty : Coupled referenceKeccak [samplePool] sampleState.tickCache := by
    intro pool _ word _ _ bits hWord
    cases (hWord : none = some bits)
  exact ⟨(tickRun_coupled_iff samplePool_slotsDistinct wordsNext_run hEmpty).1.mpr wordsNext_given, by decide +kernel⟩

theorem exists_lost (keys : List SlotKey) :
    ∃ lost : List SlotCompletion, Completes keys lost ∧ ∀ cache, fill cache lost = cache :=
  ⟨failAll keys, failAll_completes keys, fun cache => fill_failAll cache keys⟩

/-- A first hydration that loses its net reads leaves word 0 cached without the net of tick 0. -/
theorem hydrate_without_nets : ¬∀ (pools : List TickPool) (start t : ChainState) (calls : List TickCall),
    SlotsDistinct referenceKeccak pools → TickRun referenceKeccak pools start calls t →
    Coupled referenceKeccak pools start.tickCache → Coupled referenceKeccak pools t.tickCache := by
  intro h
  have hEmpty : Coupled referenceKeccak [samplePool] sampleState.tickCache := by
    intro pool _ word _ _ bits hWord
    cases (hWord : none = some bits)
  obtain ⟨lost, hLost, hKeep⟩ := exists_lost (TickOp.secondBatch referenceKeccak sampleState
    (sampleState.prefetchTicks sampleFirst) (.hydrateClTicksForPool (.cl samplePlan) 1))
  have hRun : TickRun referenceKeccak [samplePool] sampleState
      ([] ++ [⟨.hydrateClTicksForPool (.cl samplePlan) 1, sampleFirst, lost, sampleFirst ++ lost⟩])
      (sampleState.prefetchTicks (sampleFirst ++ lost)) := by
    refine .call .start ⟨fun pw hWord => ?_, trivial⟩ sampleState_apart ⟨serve_completes sampleStorage _, hLost⟩
      (List.prefix_refl _)
    obtain ⟨window, hWindow, hWord⟩ := List.mem_flatMap.mp hWord
    obtain ⟨word, -, rfl⟩ := List.mem_map.mp hWord
    obtain rfl := List.mem_singleton.mp hWindow
    exact List.mem_singleton_self _
  have hWord : fill sampleState.tickCache sampleFirst (samplePool.bitmapKey referenceKeccak 0) = some 3#256 := by
    decide +kernel
  have hCoupled := h [samplePool] _ _ _ samplePool_slotsDistinct hRun hEmpty
  rw [prefetchTicks_tickCache, fill_append, hKeep] at hCoupled
  have hNet := hCoupled samplePool (List.mem_singleton_self _) 0 (by omega) (by omega) 3#256 hWord 0 (by decide)
  exact absurd hNet (by decide +kernel)

end Sample

end Robinarb

import Robinarb.Library.CursorFill
import Robinarb.Library.PartialMaps
import Robinarb.Library.SetBits
import Robinarb.State.SamplePool

/-! # The tick reader

`TickSync.sol`: the constructor reads the bitmap of a word range twice, first to count the
initialized ticks and then to fill an array of that length. `none` is a revert: a read that
fails, a checked operation, an index past the end.
-/

namespace Robinarb.TickSync

open SetBits CursorFill PartialMaps

/-- What a pool answers, each read with the same answer throughout the call. -/
structure Pool where
  tickSpacing : Option Int
  tickBitmap : Int → Option U256
  ticks : Int → Option I128

structure TickNet where
  tick : Int
  liquidityNet : I128

def checkedAdd (a b : U256) : Option U256 := if a.toNat + b.toNat < 2 ^ 256 then some (a + b) else none

/-- The explicit conversion to `int24`. -/
def int24 (x : Int) : Int := x.bmod (2 ^ 24)

/-- The loop of `_popcount`, from the count so far. -/
def popcountFrom (x c : U256) : Option U256 :=
  if _h : x = 0#256 then some c
  else (checkedAdd c 1#256).bind (popcountFrom (x &&& (x - 1#256)))
termination_by (setBits x).length
decreasing_by
  have := length_setBits_and_pred _h
  omega

def _popcount (x : U256) : Option U256 := popcountFrom x 0#256

namespace Pool

variable (p : Pool)

/-- One word of the first pass. -/
def countWord (count : U256) (w : Int) : Option U256 :=
  (p.tickBitmap w).bind fun bm => (_popcount bm).bind (checkedAdd count)

def tickNet (spacing w : Int) (b : Nat) : Option TickNet := do
  let tick := int24 ((w * 256 + b) * spacing)
  let net ← p.ticks tick
  return ⟨tick, net⟩

def fillWord (spacing w : Int) (bm : U256) (out : List TickNet × Nat) : Option (List TickNet × Nat) :=
  (List.range 256).foldlM (fun out b =>
    if (bm >>> b) &&& 1#256 = 1#256 then (p.tickNet spacing w b).bind (put out) else some out) out

/-- One word of the second pass. -/
def fillStep (spacing : Int) (out : List TickNet × Nat) (w : Int) : Option (List TickNet × Nat) :=
  (p.tickBitmap w).bind fun bm => if bm = 0#256 then some out else p.fillWord spacing w bm out

def constructor (wordStart wordEnd : BitVec 16) : Option (List TickNet) := do
  let spacing ← p.tickSpacing
  let words := wordRange wordStart.toInt wordEnd.toInt
  let count ← words.foldlM p.countWord 0#256
  let (out, _) ← words.foldlM (p.fillStep spacing) (List.replicate count.toNat ⟨0, 0#128⟩, 0)
  return out

/-- One pass: the set bits of each word in turn. -/
def scan (spacing : Int) (words : List Int) : Option (List TickNet) :=
  (words.mapM fun w => (p.tickBitmap w).bind fun bm => (setBits bm).mapM (p.tickNet spacing w)).map List.flatten

def marked (bms : List U256) : Nat := (bms.map fun bm => (setBits bm).length).sum

end Pool

section Counting

theorem checkedAdd_eq {a b : U256} (h : a.toNat + b.toNat < 2 ^ 256) : checkedAdd a b = some (a + b) := if_pos h

theorem popcountFrom_eq (x c : U256) (h : c.toNat + (setBits x).length < 2 ^ 256) :
    popcountFrom x c = some (c + BitVec.ofNat 256 (setBits x).length) := by
  induction hSize : (setBits x).length generalizing x c with
  | zero =>
    rw [popcountFrom]
    split
    · rw [show BitVec.ofNat 256 0 = 0#256 from rfl, BitVec.add_zero]
    · rename_i hx
      have hOne := length_setBits_and_pred hx
      omega
  | succ n ih =>
    rw [popcountFrom]
    split
    · rename_i hx
      rw [hx, setBits_zero] at hSize
      cases hSize
    · rename_i hx
      have hOne := length_setBits_and_pred hx
      have hNext : (c + 1#256).toNat = c.toNat + 1 := by
        rw [BitVec.toNat_add, show (1#256).toNat = 1 from rfl, Nat.mod_eq_of_lt (by omega)]
      rw [checkedAdd_eq (show c.toNat + (1#256).toNat < 2 ^ 256 by rw [show (1#256).toNat = 1 from rfl]; omega),
        Option.bind_some, ih _ (c + 1#256) (by omega) (by omega), BitVec.add_assoc, Nat.add_comm n 1, BitVec.ofNat_add]

theorem _popcount_eq (x : U256) : _popcount x = some (BitVec.ofNat 256 (setBits x).length) := by
  have hLe := length_setBits_le x
  rw [_popcount, popcountFrom_eq x 0#256 (by rw [show (0#256).toNat = 0 from rfl]; omega), BitVec.zero_add]

end Counting

namespace Pool

variable {p : Pool} {spacing : Int} {words : List Int}

theorem marked_cons (bm : U256) (bms : List U256) : marked (bm :: bms) = (setBits bm).length + marked bms := by
  rw [marked, List.map_cons, List.sum_cons, marked]

theorem foldlM_countWord (acc : U256) (hAcc : acc.toNat + 256 * words.length < 2 ^ 256) :
    words.foldlM p.countWord acc =
      (words.mapM p.tickBitmap).map fun bms => acc + BitVec.ofNat 256 (marked bms) := by
  induction words generalizing acc with
  | nil =>
    change some acc = some (acc + 0#256)
    rw [BitVec.add_zero]
  | cons w rest ih =>
    rw [List.foldlM_cons, List.mapM_cons, countWord]
    rw [List.length_cons] at hAcc
    cases p.tickBitmap w with
    | none => rfl
    | some bm =>
      have hLe := length_setBits_le bm
      have hCount : (BitVec.ofNat 256 (setBits bm).length).toNat = (setBits bm).length := by
        rw [BitVec.toNat_ofNat, Nat.mod_eq_of_lt (by omega)]
      have hSum : (acc + BitVec.ofNat 256 (setBits bm).length).toNat = acc.toNat + (setBits bm).length := by
        rw [BitVec.toNat_add, hCount, Nat.mod_eq_of_lt (by omega)]
      rw [Option.bind_some, _popcount_eq, Option.bind_some, checkedAdd_eq (by rw [hCount]; omega)]
      change rest.foldlM p.countWord (acc + BitVec.ofNat 256 (setBits bm).length) = _
      rw [ih (acc + BitVec.ofNat 256 (setBits bm).length) (by omega)]
      cases rest.mapM p.tickBitmap with
      | none => rfl
      | some bms =>
        change some (acc + BitVec.ofNat 256 (setBits bm).length + BitVec.ofNat 256 (marked bms)) =
          some (acc + BitVec.ofNat 256 (marked (bm :: bms)))
        rw [marked_cons, BitVec.ofNat_add, BitVec.add_assoc]

theorem bit_set (bm : U256) (b : Nat) : (bm >>> b) &&& 1#256 = 1#256 ↔ bm.getLsbD b = true := by
  rw [BitVec.and_one_eq_setWidth_ofBool_getLsbD, BitVec.getLsbD_ushiftRight, Nat.add_zero]
  cases bm.getLsbD b <;> decide

theorem fillWord_eq (w : Int) (bm : U256) (out : List TickNet × Nat) :
    p.fillWord spacing w bm out = (setBits bm).foldlM (fun out b => (p.tickNet spacing w b).bind (put out)) out := by
  rw [fillWord, setBits, List.foldlM_filter]
  simp only [bit_set]
  rfl

theorem fillStep_filled {w : Int} {bm : U256} (hBitmap : p.tickBitmap w = some bm) (done : List TickNet)
    (blank : TickNet) (room : Nat) :
    p.fillStep spacing (filled done blank ((setBits bm).length + room)) w =
      ((setBits bm).mapM (p.tickNet spacing w)).map fun ticks => filled (done ++ ticks) blank room := by
  rw [fillStep, hBitmap, Option.bind_some]
  split
  · rename_i hZero
    rw [hZero, setBits_zero, List.length_nil, Nat.zero_add]
    change some (filled done blank room) = some (filled (done ++ []) blank room)
    rw [List.append_nil]
  · rw [fillWord_eq, foldlM_put]

theorem scan_cons (w : Int) {bm : U256} (hBitmap : p.tickBitmap w = some bm) :
    p.scan spacing (w :: words) =
      ((setBits bm).mapM (p.tickNet spacing w)).bind fun ticks => (p.scan spacing words).map (ticks ++ ·) := by
  rw [scan, List.mapM_cons, hBitmap, Option.bind_some, scan]
  cases (setBits bm).mapM (p.tickNet spacing w) with
  | none => rfl
  | some ticks =>
    cases words.mapM fun w => (p.tickBitmap w).bind fun bm => (setBits bm).mapM (p.tickNet spacing w) with
    | none => rfl
    | some more => rfl

/-- With as much room as there are marked ticks, the array is filled to its end. -/
theorem foldlM_fillStep {bms : List U256} (hBitmaps : words.mapM p.tickBitmap = some bms) (done : List TickNet)
    (blank : TickNet) :
    words.foldlM (p.fillStep spacing) (filled done blank (marked bms)) =
      (p.scan spacing words).map fun out => filled (done ++ out) blank 0 := by
  induction words generalizing bms done with
  | nil =>
    obtain rfl : bms = [] := (Option.some.inj hBitmaps).symm
    change some (filled done blank 0) = some (filled (done ++ []) blank 0)
    rw [List.append_nil]
  | cons w rest ih =>
    rw [List.mapM_cons] at hBitmaps
    obtain ⟨bm, hBitmap, hRest⟩ := Option.bind_eq_some_iff.mp hBitmaps
    obtain ⟨others, hOthers, hEnd⟩ := Option.bind_eq_some_iff.mp hRest
    obtain rfl : bm :: others = bms := Option.some.inj hEnd
    rw [List.foldlM_cons, marked_cons, fillStep_filled hBitmap, scan_cons w hBitmap]
    cases (setBits bm).mapM (p.tickNet spacing w) with
    | none => rfl
    | some ticks =>
      change rest.foldlM (p.fillStep spacing) (filled (done ++ ticks) blank (marked others)) = _
      rw [ih hOthers]
      cases p.scan spacing rest with
      | none => rfl
      | some out =>
        change some (filled (done ++ ticks ++ out) blank 0) = some (filled (done ++ (ticks ++ out)) blank 0)
        rw [List.append_assoc]

theorem scan_none (hBitmaps : words.mapM p.tickBitmap = none) : p.scan spacing words = none := by
  induction words with
  | nil => cases hBitmaps
  | cons w rest ih =>
    cases hBitmap : p.tickBitmap w with
    | none => rw [scan, List.mapM_cons, hBitmap]; rfl
    | some bm =>
      rw [List.mapM_cons, hBitmap] at hBitmaps
      have hOthers : rest.mapM p.tickBitmap = none := by
        cases hOther : rest.mapM p.tickBitmap with
        | none => rfl
        | some others => rw [hOther] at hBitmaps; cases hBitmaps
      rw [scan_cons w hBitmap, ih hOthers]
      cases (setBits bm).mapM (p.tickNet spacing w) with
      | none => rfl
      | some ticks => rfl

theorem length_words (wordStart wordEnd : BitVec 16) :
    (wordRange wordStart.toInt wordEnd.toInt).length ≤ 2 ^ 16 := by
  have hLow := BitVec.le_toInt wordStart
  have hHigh := BitVec.toInt_lt (x := wordEnd)
  rw [wordRange, List.length_map, List.length_range]
  omega

theorem marked_le (bms : List U256) : marked bms ≤ 256 * bms.length := by
  induction bms with
  | nil => exact Nat.le_refl 0
  | cons bm rest ih =>
    have hLe := length_setBits_le bm
    rw [marked_cons, List.length_cons]
    omega

theorem constructor_eq_scan (wordStart wordEnd : BitVec 16) :
    p.constructor wordStart wordEnd =
      p.tickSpacing.bind fun spacing => p.scan spacing (wordRange wordStart.toInt wordEnd.toInt) := by
  have hLength := length_words wordStart wordEnd
  rw [constructor]
  generalize wordRange wordStart.toInt wordEnd.toInt = words at hLength ⊢
  cases p.tickSpacing with
  | none => rfl
  | some spacing =>
    change (words.foldlM p.countWord 0#256).bind _ = p.scan spacing words
    rw [foldlM_countWord 0#256 (by rw [show (0#256).toNat = 0 from rfl]; omega)]
    cases hBitmaps : words.mapM p.tickBitmap with
    | none => rw [scan_none hBitmaps]; rfl
    | some bms =>
      have hCount : (0#256 + BitVec.ofNat 256 (marked bms)).toNat = marked bms := by
        have hLe := marked_le bms
        rw [length_of_mapM hBitmaps] at hLe
        rw [BitVec.zero_add, BitVec.toNat_ofNat, Nat.mod_eq_of_lt (by omega)]
      have hFill : words.foldlM (p.fillStep spacing) _ = _ := foldlM_fillStep hBitmaps [] ⟨0, 0#128⟩
      rw [filled, List.nil_append, List.length_nil] at hFill
      rw [Option.map_some, Option.bind_some, hCount, hFill]
      cases p.scan spacing words with
      | none => rfl
      | some out =>
        change some (out ++ []) = some out
        rw [List.append_nil]

end Pool

section Window

variable {spacing : Int} {bits : Int → U256} {net : Int → I128} {words : List Int} {p : Pool}

def tickAt (spacing w : Int) (b : Nat) : Int := (w * 256 + b) * spacing

def entryAt (net : Int → I128) (spacing w : Int) (b : Nat) : TickNet := ⟨tickAt spacing w b, net (tickAt spacing w b)⟩

/-- The pool as the call finds it: it answers for the words and for the ticks they mark, and
a mark lies on a tick that has a price. -/
structure Pool.Holds (p : Pool) (spacing : Int) (bits : Int → U256) (net : Int → I128) (words : List Int) : Prop where
  positive : 0 < spacing
  spacing_eq : p.tickSpacing = some spacing
  bitmap_eq : ∀ w ∈ words, p.tickBitmap w = some (bits w)
  ticks_eq : ∀ w ∈ words, ∀ b, (bits w).getLsbD b = true → p.ticks (tickAt spacing w b) = some (net (tickAt spacing w b))
  priced : ∀ w ∈ words, ∀ b, (bits w).getLsbD b = true →
    minTick ≤ tickAt spacing w b ∧ tickAt spacing w b ≤ maxTick

theorem tickNet_eq (h : p.Holds spacing bits net words) {w : Int} (hWord : w ∈ words) {b : Nat}
    (hSet : (bits w).getLsbD b = true) :
    p.tickNet spacing w b = some (entryAt net spacing w b) := by
  obtain ⟨hLow, hHigh⟩ := h.priced w hWord b hSet
  have hTick : int24 ((w * 256 + b) * spacing) = tickAt spacing w b := by
    unfold minTick at hLow
    unfold maxTick at hHigh
    exact Int.bmod_eq_of_le (by change _ ≤ tickAt spacing w b; omega) (by change tickAt spacing w b < _; omega)
  rw [Pool.tickNet, hTick, h.ticks_eq w hWord b hSet]
  rfl

theorem scan_eq (hBitmap : ∀ w ∈ words, p.tickBitmap w = some (bits w))
    (hNets : ∀ w ∈ words, ∀ b, (bits w).getLsbD b = true → p.tickNet spacing w b = some (entryAt net spacing w b)) :
    p.scan spacing words = some (words.flatMap fun w => (setBits (bits w)).map (entryAt net spacing w)) := by
  induction words with
  | nil => rfl
  | cons w rest ih =>
    obtain ⟨hWord, hRest⟩ := List.forall_mem_cons.mp hBitmap
    obtain ⟨hNet, hOthers⟩ := List.forall_mem_cons.mp hNets
    rw [Pool.scan_cons w hWord, mapM_eq_map fun b hMem => hNet b (mem_setBits.mp hMem), ih hRest hOthers]
    rfl

theorem rawTick_eq {w : Int} (hLow : -2 ^ 15 ≤ w) (hHigh : w < 2 ^ 15) {b : Nat} (hBit : b < 256)
    (hPriced : minTick ≤ tickAt spacing w b ∧ tickAt spacing w b ≤ maxTick) :
    rawTick w b spacing = tickAt spacing w b := by
  obtain ⟨hMin, hMax⟩ := hPriced
  unfold minTick at hMin
  unfold maxTick at hMax
  rw [rawTick, wrapI32_eq (show -2 ^ 31 ≤ w * 256 + b by omega) (by omega), ← tickAt,
    wrapI32_eq (by omega) (by omega)]

theorem entries_sorted (hPos : 0 < spacing) (lo hi : Int) :
    (((wordRange lo hi).flatMap fun w => (setBits (bits w)).map (entryAt net spacing w)).map TickNet.tick).Pairwise
      (· < ·) := by
  rw [List.map_flatMap, List.pairwise_flatMap]
  constructor
  · intro w _
    rw [List.map_map, List.pairwise_map]
    refine (setBits_sorted (bits w)).imp fun {a b} hLess => ?_
    have hOrder : w * 256 + (a : Int) < w * 256 + (b : Int) := by omega
    exact Int.mul_lt_mul_of_pos_right hOrder hPos
  · rw [wordRange, List.pairwise_map]
    refine List.pairwise_lt_range.imp fun {j k} hLess x hx y hy => ?_
    rw [List.map_map, List.mem_map] at hx hy
    obtain ⟨a, hLeft, rfl⟩ := hx
    obtain ⟨b, hRight, rfl⟩ := hy
    have hBit := BitVec.lt_of_getLsbD (mem_setBits.mp hLeft)
    have hOrder : (lo + (j : Int)) * 256 + (a : Int) < (lo + (k : Int)) * 256 + (b : Int) := by omega
    exact Int.mul_lt_mul_of_pos_right hOrder hPos

theorem slotsOfBits_eq (keccak : Keccak) (addr : Address) (ticksBase : U256) (w : Int) (word : U256) :
    slotsOfBits keccak addr ticksBase spacing w word =
      (setBits word).map fun b => tickSlot keccak addr ticksBase (rawTick w b spacing) := by
  rw [slotsOfBits]
  split
  · rename_i hZero
    rw [hZero, setBits_zero]
    rfl
  · rfl

/-- Over a window that the program hydrates, the call returns the marked ticks in ascending
order, each once and with the pool's net, and their slots are those the second batch reads. -/
theorem constructor_lists_window (keccak : Keccak) {wordStart wordEnd : BitVec 16}
    (h : p.Holds spacing bits net (wordRange wordStart.toInt wordEnd.toInt)) {s : ChainState} {addr : Address}
    {bitmapBase : U256}
    (hRead : ∀ w ∈ wordRange wordStart.toInt wordEnd.toInt, s.read addr (mappingSlotSigned keccak w bitmapBase) = bits w)
    (ticksBase : U256) :
    ∃ out, p.constructor wordStart wordEnd = some out ∧ (out.map TickNet.tick).Pairwise (· < ·) ∧
      (∀ e, e ∈ out ↔ ∃ w ∈ wordRange wordStart.toInt wordEnd.toInt, ∃ b, (bits w).getLsbD b = true ∧
        e = ⟨tickAt spacing w b, net (tickAt spacing w b)⟩) ∧
      s.windowTickSlots keccak [⟨addr, ticksBase, bitmapBase, spacing, wordStart.toInt, wordEnd.toInt⟩] =
        out.map fun e => tickSlot keccak addr ticksBase e.tick := by
  refine ⟨(wordRange wordStart.toInt wordEnd.toInt).flatMap fun w => (setBits (bits w)).map (entryAt net spacing w),
    ?_, entries_sorted h.positive _ _, fun e => ?_, ?_⟩
  · rw [Pool.constructor_eq_scan, h.spacing_eq, Option.bind_some]
    exact scan_eq h.bitmap_eq fun w hWord b hSet => tickNet_eq h hWord hSet
  · simp only [List.mem_flatMap, List.mem_map, mem_setBits]
    constructor
    · rintro ⟨w, hWord, b, hSet, rfl⟩
      exact ⟨w, hWord, b, hSet, rfl⟩
    · rintro ⟨w, hWord, b, hSet, rfl⟩
      exact ⟨w, hWord, b, hSet, rfl⟩
  · rw [ChainState.windowTickSlots, List.flatMap_singleton, List.map_flatMap]
    apply List.flatMap_congr
    intro w (hWord : w ∈ wordRange wordStart.toInt wordEnd.toInt)
    rw [hRead w hWord, slotsOfBits_eq, List.map_map]
    apply List.map_congr_left
    intro b hMem
    have hSet := mem_setBits.mp hMem
    obtain ⟨hLow, hHigh⟩ := mem_wordRange.mp hWord
    have hStart := BitVec.le_toInt wordStart
    have hEnd := BitVec.toInt_lt (x := wordEnd)
    rw [rawTick_eq (by omega) (by omega) (BitVec.lt_of_getLsbD hSet) (h.priced w hWord b hSet)]
    rfl

/-- Every word marks its first tick and its fourth. -/
def evenPool : Pool := ⟨some 60, fun _ => some 9#256, fun tick => some (BitVec.ofInt 128 tick)⟩

theorem evenPool_holds (lo hi : BitVec 16) (hLow : -8 ≤ lo.toInt) (hHigh : hi.toInt ≤ 8) :
    evenPool.Holds 60 (fun _ => 9#256) (BitVec.ofInt 128) (wordRange lo.toInt hi.toInt) where
  positive := by decide
  spacing_eq := rfl
  bitmap_eq _ _ := rfl
  ticks_eq _ _ _ _ := rfl
  priced w hWord b hSet := by
    obtain ⟨hStart, hEnd⟩ := mem_wordRange.mp hWord
    have hBit := BitVec.lt_of_getLsbD hSet
    unfold tickAt minTick maxTick
    omega

theorem evenPool_listed : ∃ out, evenPool.constructor (-1#16) 1#16 = some out ∧ (out.map TickNet.tick).Pairwise (· < ·) ∧
      (∀ e, e ∈ out ↔ ∃ w ∈ wordRange (-1#16).toInt (1#16).toInt, ∃ b, (9#256).getLsbD b = true ∧
        e = ⟨tickAt 60 w b, BitVec.ofInt 128 (tickAt 60 w b)⟩) ∧
      (ChainState.mk (fun _ => some 9#256) (fun _ => none) []).windowTickSlots referenceKeccak
          [⟨1#160, 5#256, 6#256, 60, (-1#16).toInt, (1#16).toInt⟩] =
        out.map fun e => tickSlot referenceKeccak 1#160 5#256 e.tick :=
  constructor_lists_window referenceKeccak (evenPool_holds (-1#16) 1#16 (by decide) (by decide)) (fun _ _ => rfl) 5#256

end Window

end Robinarb.TickSync

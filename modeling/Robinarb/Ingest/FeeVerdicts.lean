import Robinarb.Ingest.Identity
import Robinarb.Executor.Receipts
import Mathlib.Data.List.AList

/-! # The verdicts on fee tokens

`detect` from one start to the next, with the file of verdicts that it finds and leaves.
Probes complete in any order, and a start may fail to write the file or leave it torn.
-/

namespace Robinarb.FeeProbe

open Batch

/-- The verdicts on file, by the token's text. -/
abbrev Cache := AList fun _ : List Char => Bool

/-- `Address::to_string`, and `str::parse` back. -/
structure AddressFormat where
  toText : Address → List Char
  parse : List Char → Option Address
  parse_toText : ∀ a, parse (toText a) = some a

inductive SaveResult where
  | written
  | refused
  | torn

/-- One start: what it is configured and answered, the order its probes complete in, and
what becomes of the file. -/
structure Start (F : Type) where
  boot : Bootstrap F
  rpc : BootstrapRpc
  found : List DiscoveredPool
  completed : List Address
  saved : SaveResult

/-- A file that is missing or does not parse is an empty cache. -/
def loadCache (file : Option Cache) : Cache := file.getD ∅

namespace Start

variable {F : Type} (format : AddressFormat) (s : Start F)

def discovered : List DiscoveredPool := dedupe [] s.found

/-- A panic in `fetch_decimals` ends the start before anything is probed. -/
def decimals : List (Address × U8) :=
  (batched s.rpc.aggregate3 1 Bootstrap.decimalsCall Bootstrap.decimalsSite (tokenSet s.discovered)).getD []

def candidates : List Address := (tokenSet s.discovered).filter fun t => !(s.boot.anchors.any fun a => a.token = t)

def verdict (t : Address) : Option Bool :=
  s.rpc.probeToken t (s.boot.holdersOf s.discovered t) (decimalsOf s.decimals t)

def toProbe (cache : Cache) : List Address := s.candidates.filter fun t => decide (format.toText t ∉ cache)

def record (cache : Cache) (t : Address) : Cache :=
  match s.verdict t with
  | some isFee => cache.insert (format.toText t) isFee
  | none => cache

def resolved (cache : Cache) : Cache := s.completed.foldl (s.record format) cache

def detect (cache : Cache) : List Address :=
  ((s.resolved format cache).entries.filter fun e => e.2).filterMap fun e => format.parse e.1

def saveCache (file : Option Cache) : Option Cache :=
  match s.saved with
  | .written => some (s.resolved format (loadCache file))
  | .refused => file
  | .torn => none

def informed (cache : Cache) : Bootstrap F := { s.boot with feeCache := fun t => cache.lookup (format.toText t) }

def finding (t : Address) : Option Bool := if t ∈ s.candidates then s.verdict t else none

/-- The starts whose findings are on file. -/
def keptBy (kept : List (Start F)) (s : Start F) : List (Start F) :=
  match s.saved with
  | .written => kept ++ [s]
  | .refused => kept
  | .torn => []

end Start

variable {F : Type} {format : AddressFormat} {s : Start F} {cache : Cache} {t : Address}

inductive History (format : AddressFormat) : List (Start F) → Option Cache → Prop where
  | first : History format [] none
  | next {starts : List (Start F)} {file : Option Cache} (before : History format starts file) (s : Start F)
      (completes : s.completed.Perm (s.toProbe format (loadCache file))) :
      History format (starts ++ [s]) (s.saveCache format file)

def firstFinding (starts : List (Start F)) (t : Address) : Option Bool := starts.findSome? fun s => s.finding t

def Cache.Written (format : AddressFormat) (cache : Cache) : Prop := ∀ key ∈ cache, ∃ a, format.toText a = key

section Records

theorem AddressFormat.toText_inj {a b : Address} (h : format.toText a = format.toText b) : a = b :=
  Option.some.inj ((format.parse_toText a).symm.trans ((congrArg format.parse h).trans (format.parse_toText b)))

theorem lookup_record (u : Address) : (s.record format cache u).lookup (format.toText t) =
    if t = u then (s.verdict t).or (cache.lookup (format.toText t)) else cache.lookup (format.toText t) := by
  rw [Start.record]
  by_cases hSame : t = u
  · subst hSame
    rw [if_pos rfl]
    cases s.verdict t with
    | none => rfl
    | some isFee => exact AList.lookup_insert cache
  · rw [if_neg hSame]
    cases s.verdict u with
    | none => rfl
    | some isFee => exact AList.lookup_insert_ne fun hText => hSame (AddressFormat.toText_inj hText)

theorem lookup_foldl_record (tokens : List Address) : (tokens.foldl (s.record format) cache).lookup (format.toText t) =
    if t ∈ tokens then (s.verdict t).or (cache.lookup (format.toText t)) else cache.lookup (format.toText t) := by
  induction tokens generalizing cache with
  | nil => rfl
  | cons u rest ih =>
    rw [List.foldl_cons, ih, lookup_record]
    by_cases hSame : t = u
    · subst hSame
      rw [if_pos rfl, if_pos (List.mem_cons_self : t ∈ t :: rest)]
      cases s.verdict t <;> split <;> rfl
    · rw [if_neg hSame]
      simp only [List.mem_cons, hSame, false_or]

theorem mem_toProbe : t ∈ s.toProbe format cache ↔ t ∈ s.candidates ∧ cache.lookup (format.toText t) = none := by
  rw [Start.toProbe, List.mem_filter, decide_eq_true_iff, AList.lookup_eq_none]

/-- A verdict on file stands, a finding fills a gap. -/
theorem lookup_resolved (hCompletes : s.completed.Perm (s.toProbe format cache)) :
    (s.resolved format cache).lookup (format.toText t) = (cache.lookup (format.toText t)).or (s.finding t) := by
  have hProbed : t ∈ s.completed ↔ t ∈ s.candidates ∧ cache.lookup (format.toText t) = none :=
    hCompletes.mem_iff.trans mem_toProbe
  rw [Start.resolved, lookup_foldl_record, Start.finding]
  cases hFiled : cache.lookup (format.toText t) with
  | some isFee =>
    have hStands : t ∉ s.completed := fun h => Option.some_ne_none isFee (hFiled.symm.trans (hProbed.mp h).2)
    rw [if_neg hStands]
    rfl
  | none =>
    by_cases hCandidate : t ∈ s.candidates
    · rw [if_pos (hProbed.mpr ⟨hCandidate, hFiled⟩), if_pos hCandidate, Option.or_none, Option.none_or]
    · rw [if_neg fun h => hCandidate (hProbed.mp h).1, if_neg hCandidate]
      rfl

theorem Cache.Written.record (h : cache.Written format) (u : Address) : (s.record format cache u).Written format := by
  rw [Start.record]
  cases s.verdict u with
  | none => exact h
  | some isFee =>
    intro key hKey
    obtain rfl | hOld := (AList.mem_insert cache).mp hKey
    · exact ⟨u, rfl⟩
    · exact h key hOld

theorem Cache.Written.resolved (h : cache.Written format) : (s.resolved format cache).Written format := by
  rw [Start.resolved]
  generalize s.completed = tokens
  induction tokens generalizing cache with
  | nil => exact h
  | cons u rest ih => exact ih (h.record u)

theorem mem_detect (h : cache.Written format) :
    t ∈ s.detect format cache ↔ (s.resolved format cache).lookup (format.toText t) = some true := by
  rw [Start.detect, List.mem_filterMap, ← Option.mem_def, AList.mem_lookup_iff]
  constructor
  · rintro ⟨⟨key, isFee⟩, hEntry, hParse⟩
    obtain ⟨hMem, hFee⟩ := List.mem_filter.mp hEntry
    obtain ⟨a, rfl⟩ := h.resolved key (AList.mem_keys.mpr (List.mem_map_of_mem hMem))
    obtain rfl : a = t := Option.some.inj ((format.parse_toText a).symm.trans hParse)
    obtain rfl : isFee = true := hFee
    exact hMem
  · intro hEntry
    exact ⟨_, List.mem_filter.mpr ⟨hEntry, rfl⟩, format.parse_toText t⟩

end Records

section Histories

variable {starts : List (Start F)} {file : Option Cache}

theorem firstFinding_append (starts : List (Start F)) (s : Start F) (t : Address) :
    firstFinding (starts ++ [s]) t = (firstFinding starts t).or (s.finding t) := by
  rw [firstFinding, List.findSome?_append, List.findSome?_singleton, firstFinding]

/-- What the file says of a token is the first conclusive finding on record. -/
theorem History.remembers (h : History format starts file) : (loadCache file).Written format ∧
    ∀ t, (loadCache file).lookup (format.toText t) = firstFinding (starts.foldl Start.keptBy []) t := by
  induction h with
  | first => exact ⟨fun key hKey => absurd hKey (AList.notMem_empty key), fun t => AList.lookup_empty _⟩
  | next before s completes ih =>
    obtain ⟨hWritten, hLookup⟩ := ih
    rw [List.foldl_append, List.foldl_cons, List.foldl_nil, Start.keptBy, Start.saveCache]
    cases s.saved with
    | written =>
      refine ⟨hWritten.resolved, fun t => ?_⟩
      rw [firstFinding_append, ← hLookup t]
      exact lookup_resolved completes
    | refused => exact ⟨hWritten, hLookup⟩
    | torn => exact ⟨fun key hKey => absurd hKey (AList.notMem_empty key), fun t => AList.lookup_empty _⟩

theorem isFeeToken_informed (hCompletes : s.completed.Perm (s.toProbe format cache)) :
    (s.informed format cache).isFeeToken s.rpc s.discovered s.decimals t = true ↔
      (s.resolved format cache).lookup (format.toText t) = some true := by
  have hFiled : (s.informed format cache).feeCache t = cache.lookup (format.toText t) := rfl
  rw [lookup_resolved hCompletes, Bootstrap.isFeeToken, hFiled]
  cases cache.lookup (format.toText t) with
  | some isFee => exact ⟨congrArg some, Option.some.inj⟩
  | none =>
    have hCandidate : t ∈ s.candidates ↔
        t ∈ tokenSet s.discovered ∧ (!(s.boot.anchors.any fun a => a.token = t)) = true := by
      rw [Start.candidates, List.mem_filter]
    change (decide (t ∈ tokenSet s.discovered) && !(s.boot.anchors.any fun a => a.token = t) &&
      decide (s.verdict t = some true)) = true ↔ _
    rw [Bool.and_eq_true, Bool.and_eq_true, decide_eq_true_iff, decide_eq_true_iff, ← hCandidate, Option.none_or, Start.finding]
    split
    · rename_i hMem
      exact ⟨fun h => h.2, fun h => ⟨hMem, h⟩⟩
    · rename_i hMem
      exact ⟨fun h => absurd h.1 hMem, fun h => by cases h⟩

theorem kept_registration {regs : List (PoolRegistration F)}
    (h : (s.informed format cache).hydrate s.rpc s.found = some regs) {reg : PoolRegistration F} (hReg : reg ∈ regs)
    (hToken : t = reg.pool.token0 ∨ t = reg.pool.token1) :
    (s.informed format cache).isFeeToken s.rpc s.discovered s.decimals t = false := by
  obtain ⟨decimals, hDecimals, hRest⟩ := Option.bind_eq_some_iff.mp h
  obtain ⟨made, hMade, hRest⟩ := Option.bind_eq_some_iff.mp hRest
  obtain ⟨balances, hBalances, hEnd⟩ := Option.bind_eq_some_iff.mp hRest
  obtain rfl := Option.some.inj hEnd
  have hRead : s.decimals = decimals := by
    rw [Start.decimals, Start.discovered, hDecimals, Option.getD_some]
  obtain ⟨source, hSource, i, rfl⟩ := Bootstrap.mem_number hReg
  have hKeeps := (List.mem_filter.mp hSource).2
  rw [Bootstrap.keeps, Bool.and_eq_true, Bool.and_eq_true, Bool.not_eq_true', Bool.or_eq_false_iff, Bool.or_eq_false_iff,
    Bool.or_eq_false_iff] at hKeeps
  rw [hRead]
  obtain rfl | rfl := hToken
  · exact hKeeps.1.1.1.2
  · exact hKeeps.1.1.2.2

/-- A start's fee tokens are those whose first conclusive finding, of the ones on file and
then its own, is a shortfall: each is probed until it has a verdict on file and not after,
and no pool of theirs is kept. -/
theorem History.detect_iff (h : History format starts file) (hCompletes : s.completed.Perm (s.toProbe format (loadCache file)))
    (t : Address) :
    (t ∈ s.detect format (loadCache file) ↔ firstFinding (starts.foldl Start.keptBy [] ++ [s]) t = some true) ∧
      (t ∈ s.completed ↔ t ∈ s.candidates ∧ firstFinding (starts.foldl Start.keptBy []) t = none) ∧
      ∀ regs, (s.informed format (loadCache file)).hydrate s.rpc s.found = some regs → ∀ reg ∈ regs,
        t = reg.pool.token0 ∨ t = reg.pool.token1 → firstFinding (starts.foldl Start.keptBy [] ++ [s]) t ≠ some true := by
  obtain ⟨hWritten, hLookup⟩ := h.remembers
  have hFirst : (s.resolved format (loadCache file)).lookup (format.toText t) =
      firstFinding (starts.foldl Start.keptBy [] ++ [s]) t := by
    rw [lookup_resolved hCompletes, hLookup t, firstFinding_append]
  refine ⟨?_, ?_, fun regs hRegs reg hReg hToken hFee => ?_⟩
  · rw [mem_detect hWritten, hFirst]
  · rw [hCompletes.mem_iff, mem_toProbe, hLookup t]
  · have hClean := kept_registration hRegs hReg hToken
    rw [(isFeeToken_informed hCompletes).mpr (hFirst.trans hFee)] at hClean
    cases hClean

end Histories

section Sample

/-- Addresses without letters, whose text has no case to choose. -/
def plainFormat : AddressFormat where
  toText := addressText
  parse text := (RadixText.read 16 toDigit16 (2 ^ 160) (text.drop 2)).map (BitVec.ofNat 160)
  parse_toText a := by
    change (RadixText.read 16 toDigit16 (2 ^ 160) (hexDigits 40 a.toNat)).map _ = _
    rw [hexDigits, RadixText.read_write (by decide) toDigit16_hexGlyph (a.isLt.trans_le (by decide)) a.isLt, Option.map_some,
      BitVec.ofNat_toNat, BitVec.setWidth_eq]

def probedRpc (isFee : Address → Bool) : BootstrapRpc :=
  { Bootstrap.hostileToken with probeToken := fun t _ _ => some (isFee t) }

def firstStart : Start Nat :=
  ⟨Bootstrap.sampleBootstrap, probedRpc fun t => t = 2#160, [Bootstrap.sampleFound 7#160 1#160 2#160], [2#160, 1#160],
    .written⟩

/-- Token 2, which was short at the first start, is whole at this one. -/
def laterStart : Start Nat :=
  ⟨Bootstrap.sampleBootstrap, probedRpc fun _ => false,
    [Bootstrap.sampleFound 7#160 1#160 2#160, Bootstrap.sampleFound 8#160 2#160 4#160], [4#160], .written⟩

theorem later_detect_iff :
    (2#160 ∈ laterStart.detect plainFormat (loadCache (firstStart.saveCache plainFormat none)) ↔
        firstFinding ([firstStart].foldl Start.keptBy [] ++ [laterStart]) 2#160 = some true) ∧
      (2#160 ∈ laterStart.completed ↔
        2#160 ∈ laterStart.candidates ∧ firstFinding ([firstStart].foldl Start.keptBy []) 2#160 = none) ∧
      ∀ regs, (laterStart.informed plainFormat (loadCache (firstStart.saveCache plainFormat none))).hydrate laterStart.rpc
          laterStart.found = some regs → ∀ reg ∈ regs, 2#160 = reg.pool.token0 ∨ 2#160 = reg.pool.token1 →
        firstFinding ([firstStart].foldl Start.keptBy [] ++ [laterStart]) 2#160 ≠ some true :=
  (History.next .first firstStart (by decide +kernel)).detect_iff (by decide +kernel) 2#160

end Sample

end Robinarb.FeeProbe

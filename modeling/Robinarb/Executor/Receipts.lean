import Robinarb.Library.RadixText
import Robinarb.Routing.GasGate
import Mathlib.Data.Rat.Floor

/-! # Receipts

What `log_result` makes of a transaction receipt: its quantities in hex, and the net of the
anchor's transfers into the executor. Texts are lists of characters, and letters outside of
ASCII, which no hex text has, keep their case. The conversion to ETH rounds as doubles do.
-/

namespace Robinarb

open scoped Numerals
open Binary64

/-- A JSON value; `scalar` is null, a boolean or a number. -/
inductive Json where
  | scalar
  | string (text : List Char)
  | array (xs : List Json)
  | object (fields : List (String × Json))

namespace Json

def get (v : Json) (key : String) : Json :=
  match v with
  | .object fields => (fields.lookup key).getD .scalar
  | _ => .scalar

def asStr : Json → Option (List Char)
  | .string text => some text
  | _ => none

def asArray : Json → Option (List Json)
  | .array xs => some xs
  | _ => none

end Json

section Hex

def hexGlyph (d : Nat) : Char := Char.ofNat (if d < 10 then 48 + d else 87 + d)

/-- `char::to_digit(16)` -/
def toDigit16 (c : Char) : Option Nat :=
  if 48 ≤ c.toNat ∧ c.toNat ≤ 57 then some (c.toNat - 48)
  else if 97 ≤ c.toNat ∧ c.toNat ≤ 102 then some (c.toNat - 87)
  else if 65 ≤ c.toNat ∧ c.toNat ≤ 70 then some (c.toNat - 55)
  else none

def hexDigits (width n : Nat) : List Char := RadixText.write 16 hexGlyph width n

def lowercase (text : List Char) : List Char := text.map Char.toLower

/-- `trim_start_matches("0x")` -/
def trimStart0x : List Char → List Char
  | '0' :: 'x' :: rest => trimStart0x rest
  | text => text

/-- `u128::from_str_radix(_, 16)` -/
def parseU128 (text : List Char) : Option U128 :=
  match text with
  | [] => none
  | ['+'] => none
  | '+' :: rest => (RadixText.read 16 toDigit16 (2 ^ 128) rest).map (BitVec.ofNat 128)
  | text => (RadixText.read 16 toDigit16 (2 ^ 128) text).map (BitVec.ofNat 128)

def hexU128 (v : Json) : U128 := (v.asStr.bind fun text => parseU128 (trimStart0x text)).getD 0#128

/-- `format!("{a:?}").to_lowercase()`: the checksum of an address is in the case of its letters. -/
def addressText (a : Address) : List Char := '0' :: 'x' :: hexDigits 40 a.toNat

/-- `{:0>width}` -/
def padStart (width : Nat) (text : List Char) : List Char := List.replicate (width - text.length) '0' ++ text

def accountTopic (account : Address) : List Char := '0' :: 'x' :: padStart 64 ((addressText account).drop 2)

def transferTopic : List Char :=
  '0' :: 'x' :: hexDigits 64 0xddf252ad1be2c89b69c2b068fc378daa952ba7f163c4a11628f55a4df523b3ef

end Hex

section Deltas

/-- One log of the loop. -/
def transferDelta (token accTopic : List Char) (delta : I128) (log : Json) : I128 :=
  if (log.get "address").asStr.map lowercase ≠ some token then delta
  else
    match (log.get "topics").asArray with
    | some (t0 :: sender :: recipient :: _) =>
      if t0.asStr ≠ some transferTopic then delta
      else
        let amount : I128 := hexU128 (log.get "data")
        let delta := if recipient.asStr.map lowercase = some accTopic then delta + amount else delta
        if sender.asStr.map lowercase = some accTopic then delta - amount else delta
    | _ => delta

def anchorDeltaFromLogs (logs : Json) (token account : Address) : I128 :=
  match logs.asArray with
  | none => 0#128
  | some logs => logs.foldl (transferDelta (addressText token) (accountTopic account)) 0#128

end Deltas

section Realized

variable {K : Type} [Field K] [LinearOrder K] [FloorSemiring K]

/-- `x as i128` where `x` is not negative. -/
def asI128 (x : K) : I128 := BitVec.ofNat 128 (min ⌊x⌋₊ (2 ^ 127 - 1))

def anchorDeltaToWethWei (anchors : List (TradingAnchor K)) (prices : Address → Option K) (anchor : Address)
    (amount : I128) : I128 :=
  match anchors.find? fun a => decide (a.token = anchor) with
  | none => amount
  | some a =>
    match prices anchor with
    | none => amount
    | some rate =>
      let sign : I128 := if amount.toInt < 0 then -1 else 1
      let units := rounded (rounded ((amount.toInt.natAbs : Nat) : K) / powi 10 a.decimals.toNat)
      sign * asI128 (rounded (rounded (units * rate) * 10 ^ 18))

structure Realized where
  block : U128
  gasUsed : U128
  effectiveGasPrice : U128
  l1FeeWei : U128
  gasCostWei : U128
  anchorDelta : I128
  netProfitEthWei : I128

/-- The realized side of the record of `log_result`. -/
def realized (anchors : List (TradingAnchor K)) (prices : Address → Option K) (executor anchor : Address) (r : Json) :
    Realized :=
  let gasUsed := hexU128 (r.get "gasUsed")
  let gasPrice := hexU128 (r.get "effectiveGasPrice")
  let l1Fee := hexU128 (r.get "l1Fee")
  let gasCost := gasUsed * gasPrice + l1Fee
  let anchorDelta := anchorDeltaFromLogs (r.get "logs") anchor executor
  { block := hexU128 (r.get "blockNumber")
    gasUsed := gasUsed
    effectiveGasPrice := gasPrice
    l1FeeWei := l1Fee
    gasCostWei := gasCost
    anchorDelta := anchorDelta
    netProfitEthWei := anchorDeltaToWethWei anchors prices anchor anchorDelta - gasCost }

end Realized

section Parsing

theorem toDigit16_hexGlyph : ∀ d < 16, toDigit16 (hexGlyph d) = some d := by decide

theorem toLower_toNat (c : Char) : c.toLower.toNat = if 65 ≤ c.toNat ∧ c.toNat ≤ 90 then c.toNat + 32 else c.toNat := by
  have hBounds : (c.val ≥ 'A'.val ∧ c.val ≤ 'Z'.val) ↔ 65 ≤ c.toNat ∧ c.toNat ≤ 90 := by
    rw [ge_iff_le, UInt32.le_iff_toNat_le, UInt32.le_iff_toNat_le]
    rfl
  unfold Char.toLower
  by_cases h : 65 ≤ c.toNat ∧ c.toNat ≤ 90
  · rw [dif_pos (hBounds.mpr h), if_pos h]
    change (c.val + ('a'.val - 'A'.val)).toNat = c.val.toNat + 32
    have hSmall : c.val.toNat ≤ 90 := h.2
    rw [UInt32.toNat_add, show ('a'.val - 'A'.val).toNat = 32 from rfl]
    omega
  · rw [dif_neg (fun hUpper => h (hBounds.mp hUpper)), if_neg h]

theorem toDigit16_toLower (c : Char) : toDigit16 c.toLower = toDigit16 c := by
  unfold toDigit16
  rw [toLower_toNat]
  by_cases hUpper : 65 ≤ c.toNat ∧ c.toNat ≤ 90
  · rw [if_pos hUpper]
    simp only [show ¬(48 ≤ c.toNat + 32 ∧ c.toNat + 32 ≤ 57) by omega, show ¬(48 ≤ c.toNat ∧ c.toNat ≤ 57) by omega,
      show ¬(97 ≤ c.toNat ∧ c.toNat ≤ 102) by omega, show ¬(65 ≤ c.toNat + 32 ∧ c.toNat + 32 ≤ 70) by omega, if_false]
    by_cases hDigit : c.toNat ≤ 70
    · rw [if_pos (by omega), if_pos (by omega), show c.toNat + 32 - 87 = c.toNat - 55 by omega]
    · rw [if_neg (by omega), if_neg (by omega)]
  · rw [if_neg hUpper]

def IsHex (text : List Char) : Prop := ∀ c ∈ text, (toDigit16 c).isSome

theorem isHex_of_lowercase {text : List Char} {width n : Nat} (h : lowercase text = hexDigits width n) : IsHex text := by
  intro c hc
  have hLower : c.toLower ∈ hexDigits width n := h ▸ List.mem_map_of_mem hc
  obtain ⟨d, hd, hGlyph⟩ := RadixText.mem_write (by decide) hLower
  rw [← toDigit16_toLower, hGlyph, toDigit16_hexGlyph d hd]
  rfl

theorem trimStart0x_of_isHex {text : List Char} (h : IsHex text) : trimStart0x ('0' :: 'x' :: text) = text := by
  rw [trimStart0x]
  unfold trimStart0x
  split
  · have hMarker := h 'x' (List.mem_cons_of_mem _ List.mem_cons_self)
    exact absurd hMarker (by decide)
  · rfl

theorem parseU128_of_isHex {text : List Char} (h : IsHex text) (hText : text ≠ []) :
    parseU128 text = (RadixText.read 16 toDigit16 (2 ^ 128) text).map (BitVec.ofNat 128) := by
  have hPlus : ∀ rest, text ≠ '+' :: rest := by
    rintro rest rfl
    exact absurd (h '+' List.mem_cons_self) (by decide)
  unfold parseU128
  split
  · exact absurd rfl hText
  · exact absurd rfl (hPlus [])
  · exact absurd rfl (hPlus _)
  · rfl

/-- A number in hex behind its mark, in some width and any case. -/
def Json.Shows (v : Json) (n : Nat) : Prop :=
  ∃ text width, v.asStr = some ('0' :: 'x' :: text) ∧ lowercase text = hexDigits (width + 1) n ∧ n < 16 ^ (width + 1)

theorem hexU128_eq {v : Json} {n : Nat} (h : v.Shows n) (hSmall : n < 2 ^ 128) : hexU128 v = BitVec.ofNat 128 n := by
  obtain ⟨text, width, hText, hDigits, hWidth⟩ := h
  have hHex := isHex_of_lowercase hDigits
  have hSome : text ≠ [] := by
    rintro rfl
    have hLength := congrArg List.length hDigits
    rw [hexDigits, RadixText.length_write] at hLength
    cases hLength
  have hRead : RadixText.read 16 toDigit16 (2 ^ 128) text = some n := by
    rw [← RadixText.read_map toDigit16_toLower, show text.map Char.toLower = hexDigits (width + 1) n from hDigits]
    exact RadixText.read_write (by decide) toDigit16_hexGlyph hWidth hSmall
  rw [hexU128, hText, Option.bind_some, trimStart0x_of_isHex hHex, parseU128_of_isHex hHex hSome, hRead]
  rfl

end Parsing

section Topics

def topicText (a : Address) : List Char := '0' :: 'x' :: hexDigits 64 a.toNat

theorem accountTopic_eq (account : Address) : accountTopic account = topicText account := by
  have hPadded : hexDigits (24 + 40) account.toNat = List.replicate 24 (hexGlyph 0) ++ hexDigits 40 account.toNat :=
    RadixText.write_add (by decide) (show account.toNat < 16 ^ 40 from account.isLt) 24
  have hLength : (hexDigits 40 account.toNat).length = 40 := RadixText.length_write 40 account.toNat
  rw [accountTopic, addressText, topicText, List.drop_succ_cons, List.drop_succ_cons, List.drop_zero, padStart, hLength, hPadded]
  rfl

theorem topicText_inj {a b : Address} : topicText a = topicText b ↔ a = b := by
  constructor
  · intro h
    have hDigits : hexDigits 64 a.toNat = hexDigits 64 b.toNat := (List.cons.inj (List.cons.inj h).2).2
    have hLt : ∀ c : Address, c.toNat < 16 ^ 64 := fun c => Nat.lt_trans c.isLt (by decide)
    exact BitVec.eq_of_toNat_eq (RadixText.write_inj (by decide) toDigit16_hexGlyph (hLt a) (hLt b) hDigits)
  · exact congrArg topicText

end Topics

section Moves

/-- A move of a token; what is minted comes from the zero address, and what is burned goes there. -/
structure Transfer where
  sender : Address
  recipient : Address
  amount : U256

/-- The balances of a token after a move, `none` where the sender does not have the amount. -/
def Transfer.apply (balance : Address → Nat) (m : Transfer) : Option (Address → Nat) :=
  if m.sender = 0#160 ∨ m.amount.toNat ≤ balance m.sender then
    some fun a => (if a = m.sender then balance a - m.amount.toNat else balance a) +
      if a = m.recipient then m.amount.toNat else 0
  else none

def Transfer.net (account : Address) (m : Transfer) : Int :=
  (if m.recipient = account then (m.amount.toNat : Int) else 0) - if m.sender = account then (m.amount.toNat : Int) else 0

theorem Transfer.apply_net {account : Address} (hAccount : account ≠ 0#160) {m : Transfer} {before after : Address → Nat}
    (h : m.apply before = some after) : (after account : Int) = before account + m.net account := by
  obtain ⟨hHeld, h⟩ := Option.ite_none_right_eq_some.mp h
  obtain rfl := Option.some.inj h
  unfold net
  by_cases hSender : account = m.sender
  · have hEnough : m.amount.toNat ≤ before account :=
      hSender ▸ hHeld.resolve_left fun hZero => hAccount (hSender.trans hZero)
    simp only [if_pos hSender, if_pos hSender.symm, eq_comm (a := account) (b := m.recipient)]
    split <;> omega
  · simp only [if_neg hSender, if_neg (Ne.symm hSender), eq_comm (a := account) (b := m.recipient)]
    split <;> omega

/-- The `Transfer` log of a token for a move. -/
structure Json.Logs (token : Address) (m : Transfer) (log : Json) : Prop where
  address : (log.get "address").asStr.map lowercase = some (addressText token)
  topics : ∃ t0 sender recipient rest, (log.get "topics").asArray = some (t0 :: sender :: recipient :: rest) ∧
    t0.asStr = some transferTopic ∧ sender.asStr.map lowercase = some (topicText m.sender) ∧
    recipient.asStr.map lowercase = some (topicText m.recipient)
  data : (log.get "data").Shows m.amount.toNat

def Json.Unrelated (token : Address) (log : Json) : Prop :=
  (log.get "address").asStr.map lowercase = some (addressText token) → ∀ t0 sender recipient rest,
    (log.get "topics").asArray = some (t0 :: sender :: recipient :: rest) → t0.asStr ≠ some transferTopic

/-- The logs of a transaction that moved the token so, among any others. -/
inductive Receipted (token : Address) : List Json → List Transfer → Prop where
  | nil : Receipted token [] []
  | moved {log : Json} {m : Transfer} {logs : List Json} {moves : List Transfer} (shown : log.Logs token m)
      (rest : Receipted token logs moves) : Receipted token (log :: logs) (m :: moves)
  | other {log : Json} {logs : List Json} {moves : List Transfer} (unrelated : log.Unrelated token)
      (rest : Receipted token logs moves) : Receipted token (log :: logs) moves

variable {token account : Address} {log : Json}

theorem transferDelta_logs {m : Transfer} (h : log.Logs token m) (hSmall : m.amount.toNat < 2 ^ 128) (delta : I128) :
    transferDelta (addressText token) (accountTopic account) delta log = delta + BitVec.ofInt 128 (m.net account) := by
  obtain ⟨t0, sender, recipient, rest, hTopics, hName, hSender, hRecipient⟩ := h.topics
  have hAmount : hexU128 (log.get "data") = BitVec.ofInt 128 m.amount.toNat :=
    (hexU128_eq h.data hSmall).trans (BitVec.ofInt_natCast 128 _).symm
  have hTo : (recipient.asStr.map lowercase = some (accountTopic account)) ↔ m.recipient = account := by
    rw [hRecipient, accountTopic_eq, Option.some.injEq, topicText_inj]
  have hFrom : (sender.asStr.map lowercase = some (accountTopic account)) ↔ m.sender = account := by
    rw [hSender, accountTopic_eq, Option.some.injEq, topicText_inj]
  have hAddress : ¬(log.get "address").asStr.map lowercase ≠ some (addressText token) := not_not.mpr h.address
  have hTopic : ¬t0.asStr ≠ some transferTopic := not_not.mpr hName
  simp only [transferDelta, if_neg hAddress, hTopics, if_neg hTopic, hAmount, hTo, hFrom, Transfer.net]
  rw [Int.sub_eq_add_neg, BitVec.ofInt_add, BitVec.ofInt_neg, ← BitVec.add_assoc, ← BitVec.sub_eq_add_neg]
  split <;> split <;> simp

theorem transferDelta_unrelated (h : log.Unrelated token) (accTopic : List Char) (delta : I128) :
    transferDelta (addressText token) accTopic delta log = delta := by
  unfold transferDelta
  split
  · rfl
  · rename_i hAddress
    split
    · rename_i t0 sender recipient rest hTopics
      exact if_pos (h (not_not.mp hAddress) t0 sender recipient rest hTopics)
    · rfl

theorem foldl_transferDelta (hAccount : account ≠ 0#160) {logs : List Json} {moves : List Transfer}
    (h : Receipted token logs moves) (hSmall : ∀ m ∈ moves, m.amount.toNat < 2 ^ 128) {before after : Address → Nat}
    (hMoves : moves.foldlM Transfer.apply before = some after) (delta : I128) :
    logs.foldl (transferDelta (addressText token) (accountTopic account)) delta =
      delta + BitVec.ofInt 128 (after account - before account) := by
  induction h generalizing before delta with
  | nil =>
    cases hMoves
    rw [Int.sub_self, show BitVec.ofInt 128 0 = 0#128 from rfl, BitVec.add_zero]
    rfl
  | @moved log m logs moves hShown _ ih =>
    obtain ⟨hFirst, hRest⟩ := List.forall_mem_cons.mp hSmall
    rw [List.foldlM_cons] at hMoves
    obtain ⟨middle, hApply, hMoves⟩ := Option.bind_eq_some_iff.mp hMoves
    have hNet := Transfer.apply_net hAccount hApply
    have hSum : (after account : Int) - before account = m.net account + (after account - middle account) := by omega
    rw [List.foldl_cons, transferDelta_logs hShown hFirst, ih hRest hMoves, hSum, BitVec.ofInt_add, BitVec.add_assoc]
  | other hUnrelated _ ih =>
    rw [List.foldl_cons, transferDelta_unrelated hUnrelated]
    exact ih hSmall hMoves delta

/-- Whatever else is in the receipt: the delta is what the balance of the account has changed by. -/
theorem anchorDelta_toInt (hAccount : account ≠ 0#160) {logs : List Json} {moves : List Transfer}
    (h : Receipted token logs moves) (hSmall : ∀ m ∈ moves, m.amount.toNat < 2 ^ 128) {before after : Address → Nat}
    (hMoves : moves.foldlM Transfer.apply before = some after) (hBefore : before account < 2 ^ 127)
    (hAfter : after account < 2 ^ 127) :
    (anchorDeltaFromLogs (.array logs) token account).toInt = after account - before account := by
  rw [anchorDeltaFromLogs, Json.asArray]
  dsimp only
  rw [foldl_transferDelta hAccount h hSmall hMoves, BitVec.zero_add]
  apply BitVec.toInt_ofInt_eq_self (by decide) <;> norm_num <;> omega

end Moves

section Net

variable {K : Type} [Field K] [LinearOrder K] [FloorSemiring K] [IsStrictOrderedRing K] {anchors : List (TradingAnchor K)}
  {prices : Address → Option K}

/-- To WETH and back to its smallest unit an amount rounds three times. -/
theorem scaled_near {n : Nat} (hn : 0 < n) :
    Near 3 (rounded (rounded (rounded (rounded (n : K) / 10 ^ 18) * 1) * 10 ^ 18)) (n : K) := by
  have hOne : 1 ≤ (n : K) * 2 ^ 0 := by
    rw [pow_zero, mul_one]
    exact_mod_cast hn
  have hRead := (Near.refl (n : K)).rounded (normal_of_le (by decide) hOne)
  have hReadLow := le_rounded_mul (by decide) hOne
  rw [pow_zero, mul_one] at hReadLow
  have hUnitsLow : 1 ≤ rounded (n : K) / 10 ^ 18 * 2 ^ 60 := by
    rw [div_mul_eq_mul_div, le_div_iff₀ (by positivity), one_mul]
    calc (10 : K) ^ 18 ≤ 1 * 2 ^ 60 := by norm_num
      _ ≤ rounded (n : K) * 2 ^ 60 := by gcongr
  have hUnits := (hRead.div_right (show (0 : K) ≤ 10 ^ 18 by positivity)).rounded (normal_of_le (by decide) hUnitsLow)
  have hWeiLow : 1 ≤ rounded (rounded (n : K) / 10 ^ 18) * 10 ^ 18 * 2 ^ 60 := by
    rw [mul_right_comm]
    exact one_le_mul_of_one_le_of_one_le (le_rounded_mul (by decide) hUnitsLow) (one_le_pow₀ (by norm_num))
  have hWei := (hUnits.mul_right (show (0 : K) ≤ 10 ^ 18 by positivity)).rounded (normal_of_le (by decide) hWeiLow)
  rw [div_mul_cancel₀ _ (by positivity)] at hWei
  rw [mul_one, rounded_rounded]
  exact hWei

/-- The whole part is off by one and one part in `2^51` at most. -/
theorem scaled_floor (n : Nat) :
    |(⌊rounded (rounded (rounded (rounded (n : K) / 10 ^ 18) * 1) * 10 ^ 18)⌋₊ : Int) - n| * 2 ^ 51 ≤ n + 2 ^ 51 := by
  rcases Nat.eq_zero_or_pos n with rfl | hn
  · have hZero : rounded (0 : K) = 0 := by
      have hNone := rounded_natCast_of_le (K := K) (Nat.zero_le _)
      rwa [Nat.cast_zero] at hNone
    rw [Nat.cast_zero, hZero, zero_div, hZero, zero_mul, hZero, zero_mul, hZero, Nat.floor_zero]
    decide
  obtain ⟨hDown, hUp⟩ := scaled_near (K := K) hn
  have hNonneg : 0 ≤ rounded (rounded (rounded (rounded (n : K) / 10 ^ 18) * 1) * 10 ^ 18) :=
    (mul_nonneg (Nat.cast_nonneg n) (pow_nonneg one_sub_unit_nonneg 3)).trans hDown
  generalize rounded (rounded (rounded (rounded (n : K) / 10 ^ 18) * 1) * 10 ^ 18) = z at hDown hUp hNonneg ⊢
  have hFloor := Nat.floor_le hNonneg
  have hNext := Nat.lt_floor_add_one z
  have hCubes : (1 + 1 / 2 ^ 53 : K) ^ 3 * 2 ^ 51 ≤ 2 ^ 51 + 1 ∧ (2 ^ 51 - 1 : K) ≤ (1 - 1 / 2 ^ 53) ^ 3 * 2 ^ 51 := by
    constructor <;> norm_num
  have hAbove : (⌊z⌋₊ : K) * 2 ^ 51 ≤ n * (2 ^ 51 + 1) := by
    calc (⌊z⌋₊ : K) * 2 ^ 51 ≤ (n : K) * (1 + 1 / 2 ^ 53) ^ 3 * 2 ^ 51 :=
          mul_le_mul_of_nonneg_right (hFloor.trans hUp) (by positivity)
      _ = (n : K) * ((1 + 1 / 2 ^ 53) ^ 3 * 2 ^ 51) := by rw [mul_assoc]
      _ ≤ (n : K) * (2 ^ 51 + 1) := mul_le_mul_of_nonneg_left hCubes.1 (Nat.cast_nonneg n)
  have hBelow : (n : K) * (2 ^ 51 - 1) ≤ (⌊z⌋₊ + 1) * 2 ^ 51 := by
    calc (n : K) * (2 ^ 51 - 1) ≤ (n : K) * ((1 - 1 / 2 ^ 53) ^ 3 * 2 ^ 51) :=
          mul_le_mul_of_nonneg_left hCubes.2 (Nat.cast_nonneg n)
      _ = (n : K) * (1 - 1 / 2 ^ 53) ^ 3 * 2 ^ 51 := by rw [mul_assoc]
      _ ≤ (⌊z⌋₊ + 1) * 2 ^ 51 := mul_le_mul_of_nonneg_right (hDown.trans hNext.le) (by positivity)
  have hUpper : (⌊z⌋₊ : Int) * 2 ^ 51 ≤ n * (2 ^ 51 + 1) := by exact_mod_cast hAbove
  have hLower : (n : Int) * (2 ^ 51 - 1) ≤ (⌊z⌋₊ + 1) * 2 ^ 51 := by exact_mod_cast hBelow
  obtain ⟨hAbs, -⟩ | ⟨hAbs, -⟩ := abs_cases ((⌊z⌋₊ : Int) - n)
  · rw [hAbs]
    linarith
  · rw [hAbs]
    linarith

/-- In WETH the conversion is the identity, but for its roundings. -/
theorem anchorDeltaToWethWei_weth (hDecimals : ∀ a ∈ anchors, a.token = weth → a.decimals = 18#8)
    (hRate : ∀ rate ∈ prices weth, rate = 1) {amount : I128} (hAmount : amount.toInt.natAbs < 2 ^ 126) :
    ∃ wei : Int, anchorDeltaToWethWei anchors prices weth amount = BitVec.ofInt 128 wei ∧
      |wei - amount.toInt| * 2 ^ 51 ≤ |amount.toInt| + 2 ^ 51 := by
  have hExact : ∃ wei : Int, amount = BitVec.ofInt 128 wei ∧ |wei - amount.toInt| * 2 ^ 51 ≤ |amount.toInt| + 2 ^ 51 := by
    refine ⟨amount.toInt, BitVec.ofInt_toInt.symm, ?_⟩
    rw [sub_self, abs_zero, zero_mul]
    positivity
  unfold anchorDeltaToWethWei
  split
  · exact hExact
  · rename_i a ha
    have hToken : a.token = weth := by simpa using List.find?_some ha
    split
    · exact hExact
    · rename_i rate hPrice
      have hNear := scaled_floor (K := K) amount.toInt.natAbs
      have hTen : powi (10 : K) a.decimals.toNat = 10 ^ 18 := by
        rw [hDecimals a (List.mem_of_find?_eq_some ha) hToken]
        exact powi_ten (by decide)
      dsimp only
      rw [hTen, hRate rate hPrice, asI128]
      generalize ⌊rounded (rounded (rounded (rounded ((amount.toInt.natAbs : Nat) : K) / 10 ^ 18) * 1) * 10 ^ 18)⌋₊ = m
        at hNear ⊢
      have hRoom : m ≤ 2 ^ 127 - 1 := by
        have hShift : |(m : Int) - amount.toInt.natAbs| ≤ 2 ^ 76 := by omega
        obtain ⟨-, hHigh⟩ := abs_le.mp hShift
        omega
      rw [Nat.min_eq_left hRoom, ← BitVec.ofInt_natCast, ← Int.natCast_natAbs]
      split
      · rename_i hNegative
        refine ⟨-m, ?_, ?_⟩
        · rw [BitVec.ofInt_neg]
          exact (BitVec.neg_mul _ _).trans (congrArg _ (BitVec.one_mul _))
        · rwa [show -(m : Int) - amount.toInt = -(m - amount.toInt.natAbs) by omega, abs_neg]
      · refine ⟨m, BitVec.one_mul _, ?_⟩
        rwa [show (m : Int) - amount.toInt = m - amount.toInt.natAbs by omega]

/-- The receipt of a transaction that moved the token so and used so much gas; the L1 fee
may be missing. -/
structure ReceiptOf (token : Address) (moves : List Transfer) (gasUsed gasPrice l1Fee : Nat) (r : Json) : Prop where
  logs : ∃ logs, r.get "logs" = .array logs ∧ Receipted token logs moves
  gasUsed : (r.get "gasUsed").Shows gasUsed
  gasPrice : (r.get "effectiveGasPrice").Shows gasPrice
  l1Fee : (r.get "l1Fee").Shows l1Fee ∨ r.get "l1Fee" = .scalar ∧ l1Fee = 0

theorem ReceiptOf.gasCost {token : Address} {moves : List Transfer} {gasUsed gasPrice l1Fee : Nat} {r : Json}
    (h : ReceiptOf token moves gasUsed gasPrice l1Fee r) (hUsed : gasUsed < 2 ^ 128) (hPrice : gasPrice < 2 ^ 128)
    (hFee : l1Fee < 2 ^ 128) : hexU128 (r.get "gasUsed") * hexU128 (r.get "effectiveGasPrice") + hexU128 (r.get "l1Fee") =
      BitVec.ofNat 128 (gasUsed * gasPrice + l1Fee) := by
  have hL1 : hexU128 (r.get "l1Fee") = BitVec.ofNat 128 l1Fee := by
    obtain hShown | ⟨hMissing, rfl⟩ := h.l1Fee
    · exact hexU128_eq hShown hFee
    · rw [hMissing]
      rfl
  rw [hexU128_eq h.gasUsed hUsed, hexU128_eq h.gasPrice hPrice, hL1, BitVec.ofNat_add, BitVec.ofNat_mul]

end Net

section Sample

theorem lowercase_hexDigits (width n : Nat) : lowercase (hexDigits width n) = hexDigits width n := by
  have hGlyph : ∀ d < 16, (hexGlyph d).toLower = hexGlyph d := by decide
  have hSame : ∀ c ∈ hexDigits width n, c.toLower = id c := by
    intro c hc
    obtain ⟨d, hd, rfl⟩ := RadixText.mem_write (by decide) hc
    exact hGlyph d hd
  exact (List.map_congr_left hSame).trans (List.map_id _)

def hexJson (width n : Nat) : Json := .string ('0' :: 'x' :: hexDigits width n)

theorem hexJson_shows {width n : Nat} (h : n < 16 ^ (width + 1)) : (hexJson (width + 1) n).Shows n :=
  ⟨_, width, rfl, lowercase_hexDigits _ _, h⟩

def transferJson (token : Address) (m : Transfer) : Json :=
  .object [("address", hexJson 40 token.toNat),
    ("topics", .array [.string transferTopic, hexJson 64 m.sender.toNat, hexJson 64 m.recipient.toNat]),
    ("data", hexJson 64 m.amount.toNat)]

theorem transferJson_logs (token : Address) (m : Transfer) : (transferJson token m).Logs token m := by
  have hText : ∀ (width n : Nat), (hexJson width n).asStr.map lowercase = some ('0' :: 'x' :: hexDigits width n) := by
    intro width n
    exact congrArg (fun digits => some ('0' :: 'x' :: digits)) (lowercase_hexDigits width n)
  exact ⟨hText 40 token.toNat, ⟨_, _, _, [], rfl, rfl, hText 64 m.sender.toNat, hText 64 m.recipient.toNat⟩,
    hexJson_shows m.amount.isLt⟩

def lentMoves : List Transfer :=
  [⟨9#160, 5#160, 1000#256⟩, ⟨5#160, 7#160, 1000#256⟩, ⟨7#160, 5#160, 1500#256⟩, ⟨5#160, 9#160, 1000#256⟩]

/-- A loan of 1000 that buys 1500, with a log of the pool among the transfers. -/
def lentReceipt : Json :=
  .object [("blockNumber", hexJson 1 12), ("gasUsed", hexJson 2 100), ("effectiveGasPrice", hexJson 1 2),
    ("logs", .array (.object [("address", hexJson 40 7), ("topics", .array [])] :: lentMoves.map (transferJson weth)))]

def lentBalances (a : Address) : Nat := if a = 5#160 then 7 else 10000

def wethAnchors : List (TradingAnchor ℚ) := [⟨⟨weth, 18#8⟩, 1, 2, none⟩]

def unitRates (_ : Address) : Option ℚ := some 1

/-- More digits than a double has: 21 wei are lost. -/
example : (anchorDeltaToWethWei wethAnchors unitRates weth 1234567890123456789#128).toInt = 1234567890123456768 := by
  decide +kernel

end Sample

end Robinarb

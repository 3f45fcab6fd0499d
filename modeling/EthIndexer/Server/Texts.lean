import EthIndexer.Server.Model.Handlers
/-!
# The texts of requests and responses

What the handlers accept in a path or a parameter, text by text. A block
number is a decimal text whose value fits in 64 bits, with any number of
zeros in front. A hash or an address is `0x` and its digits, each letter in
either case. So everything that a response prints can be sent back: a
number, a hash, and an address.

What hashes and addresses look like is go-ethereum's business, and
`GoEthereum.Lawful` is what is assumed of it.
-/

namespace EthIndexer

namespace Server

/-! ## Numbers -/

theorem parseBlockNumber_eq_ok_iff {value : Text} {n : UInt64} :
    parseBlockNumber value = .ok n ↔
      value ≠ [] ∧ (∀ c ∈ value, Decimal.IsDigit c) ∧ Decimal.value value = n.toNat := by
  unfold parseBlockNumber
  split
  · rename_i hnil
    exact ⟨(fun h => by cases h), fun h => absurd hnil h.1⟩
  · split
    · rename_i hother
      obtain ⟨c, hc, hdigit⟩ := hother
      exact ⟨(fun h => by cases h), fun h => absurd (h.2.1 c hc) hdigit⟩
    · exact Decimal.parseUint64_eq_ok_iff

theorem parseBlockNumber_text (n : UInt64) : parseBlockNumber (Decimal.text n.toNat) = .ok n :=
  parseBlockNumber_eq_ok_iff.2
    ⟨Decimal.text_ne_nil _, fun _ => Decimal.isDigit_of_mem_text, Decimal.value_text _⟩

/-! ## Hashes and addresses -/

/-- A text for given bytes: `0x` and their digits, in any case. -/
def Spells (value : Text) (bytes : List UInt8) : Prop :=
  ∃ digits, value = hexStart ++ digits ∧ digits.map Hex.lower = Hex.encode bytes

/-- **What is assumed of the texts of fixed bytes.** With `0x` in front, a
text is one of them if its digits are hexadecimal and of the right number,
and it is read as the bytes that the digits spell; what is printed spells
the bytes, in whatever case. -/
structure HexFixed.Lawful {n : ℕ} (lib : HexFixed n) : Prop where
  isHex : ∀ digits, lib.isHex (hexStart ++ digits) = true ↔
    digits.length = 2 * n ∧ ∀ c ∈ digits, (Hex.nibble c).isSome
  ofHex : ∀ digits (x : FixedBytes n), Hex.decode digits = some x.1 →
    lib.ofHex (hexStart ++ digits) = x
  hex : ∀ x, Spells (lib.hex x) x.1

/-- **What is assumed of go-ethereum.** -/
structure GoEthereum.Lawful (geth : GoEthereum) : Prop where
  hash : geth.hash.Lawful
  address : geth.address.Lawful
  encode : ∀ bytes, Spells (geth.encode bytes) bytes

section Fixed

variable {n : ℕ} {lib : HexFixed n} {invalid : Fault}

/-- **The parse of a hash or an address is exact.** -/
theorem parseHexFixed_eq_ok_iff (hlib : lib.Lawful) {value : Text} {x : FixedBytes n} :
    parseHexFixed lib invalid value = .ok x ↔ Spells value x.1 := by
  unfold parseHexFixed
  split
  · rename_i hbad
    refine ⟨(fun h => by cases h), ?_⟩
    rintro ⟨digits, rfl, hdigits⟩
    have hdecode := Hex.decode_eq_some_iff.2 hdigits
    have hlength := Hex.length_of_decode hdecode
    rw [x.2] at hlength
    rcases hbad with hbad | hbad | hbad
    · rw [List.length_append, hlength] at hbad
      exact absurd rfl hbad
    · exact absurd (List.prefix_append _ _) hbad
    · rw [(hlib.isHex digits).2 ⟨hlength, Hex.isSome_nibble_of_decode hdecode⟩] at hbad
      cases hbad
  · rename_i hgood
    rw [not_or, not_or, not_not, not_not, Bool.not_eq_false] at hgood
    obtain ⟨-, ⟨digits, rfl⟩, hisHex⟩ := hgood
    obtain ⟨hdigits, hnibbles⟩ := (hlib.isHex digits).1 hisHex
    obtain ⟨bytes, hbytes⟩ := Hex.exists_decode hdigits hnibbles
    have hn : bytes.length = n := by
      have hlength := Hex.length_of_decode hbytes
      omega
    rw [hlib.ofHex digits ⟨bytes, hn⟩ hbytes, Except.ok.injEq]
    constructor
    · rintro rfl
      exact ⟨digits, rfl, Hex.decode_eq_some_iff.1 hbytes⟩
    · rintro ⟨digits', heq, hdigits'⟩
      rw [List.append_cancel_left heq, Hex.decode_eq_some_iff.2 hdigits'] at hbytes
      exact Subtype.ext (Option.some.inj hbytes).symm

/-- What is printed is read back. -/
theorem parseHexFixed_hex (hlib : lib.Lawful) (x : FixedBytes n) :
    parseHexFixed lib invalid (lib.hex x) = .ok x :=
  (parseHexFixed_eq_ok_iff hlib).2 (hlib.hex x)

end Fixed

/-- Bytes have one spelling up to case. -/
theorem Spells.inj {value : Text} {b b' : List UInt8} (h : Spells value b) (h' : Spells value b') :
    b = b' := by
  obtain ⟨digits, rfl, hdigits⟩ := h
  obtain ⟨digits', heq, hdigits'⟩ := h'
  rw [List.append_cancel_left heq, hdigits'] at hdigits
  exact (Hex.encode_injective hdigits).symm

/-! ## Limits -/

theorem limit_iff {n : UInt64} {limit : UInt32} :
    ¬ (n = 0 ∨ n > maxEventPageSize.toUInt64) ∧ n.toUInt32 = limit ↔
      n = limit.toUInt64 ∧ 1 ≤ limit ∧ limit ≤ maxEventPageSize := by
  have hn := n.toNat_lt
  have hmax : maxEventPageSize.toUInt64.toNat = 1000 := rfl
  have hone : 1 ≤ limit ↔ 1 ≤ limit.toNat := UInt32.le_iff_toNat_le
  have hle : limit ≤ maxEventPageSize ↔ limit.toNat ≤ 1000 := UInt32.le_iff_toNat_le
  have hzero : n = 0 ↔ n.toNat = 0 := UInt64.toNat_inj.symm
  rw [gt_iff_lt, UInt64.lt_iff_toNat_lt, hmax, hzero, ← UInt32.toNat_inj, ← UInt64.toNat_inj,
    UInt64.toNat_toUInt32, UInt32.toNat_toUInt64, hone, hle]
  omega

theorem parseEventLimit_eq_ok_iff {parameters : Values} {limit : UInt32} :
    parseEventLimit parameters = .ok limit ↔
      (parameters.get? "limit" = none ∧ limit = defaultEventPageSize) ∨
      ∃ value, parameters.get? "limit" = some [value] ∧
        parseBlockNumber value = .ok limit.toUInt64 ∧ 1 ≤ limit ∧ limit ≤ maxEventPageSize := by
  unfold parseEventLimit
  cases hvalues : parameters.get? "limit" with
  | none => simp [eq_comm]
  | some values =>
    rcases values with - | ⟨value, - | ⟨other, rest⟩⟩
    · simp
    · have hsome : ∀ P : Text → Prop, (∃ v, some [value] = some [v] ∧ P v) ↔ P value := by simp
      simp only [hsome, reduceCtorEq, false_and, false_or]
      cases hnumber : parseBlockNumber value with
      | error err => simp
      | ok n =>
        rw [Except.ok.injEq, ← limit_iff]
        dsimp only
        split
        · rename_i hbad
          exact ⟨(fun h => by cases h), fun h => absurd hbad h.1⟩
        · rename_i hgood
          rw [Except.ok.injEq]
          exact ⟨fun h => ⟨hgood, h⟩, fun h => h.2⟩
    · simp

/-! ## What can be sent back -/

/-- **Numbers are read exactly.** A path's number and a page's limit are
accepted if and only if the text is decimal and its value is in range,
whatever its length; a limit that is not given is 100; and every number
that is printed is read back. -/
theorem decimal_texts_exact (value : Text) (parameters : Values) :
    (∀ n : UInt64, parseBlockNumber value = .ok n ↔
      value ≠ [] ∧ (∀ c ∈ value, Decimal.IsDigit c) ∧ Decimal.value value = n.toNat) ∧
    (∀ limit : UInt32, parseEventLimit parameters = .ok limit ↔
      (parameters.get? "limit" = none ∧ limit = 100) ∨
      ∃ text, parameters.get? "limit" = some [text] ∧ text ≠ [] ∧
        (∀ c ∈ text, Decimal.IsDigit c) ∧ Decimal.value text = limit.toNat ∧
        1 ≤ limit.toNat ∧ limit.toNat ≤ 1000) ∧
    ∀ n : UInt64, parseBlockNumber (Decimal.text n.toNat) = .ok n := by
  refine ⟨fun n => parseBlockNumber_eq_ok_iff, fun limit => ?_, parseBlockNumber_text⟩
  simp only [parseEventLimit_eq_ok_iff, parseBlockNumber_eq_ok_iff, UInt32.toNat_toUInt64,
    UInt32.le_iff_toNat_le, and_assoc]
  rfl

/-- **Hashes and addresses are read exactly**: `0x` and the digits, in any
case, with what is assumed of go-ethereum. What a response prints for them
is read back. -/
theorem hex_texts_exact {geth : GoEthereum} (hgeth : geth.Lawful) (value : Text) :
    (∀ hash, parseTransactionHash geth value = .ok hash ↔ Spells value hash.1) ∧
    (∀ address, parseEventAddress geth value = .ok address ↔ Spells value address.1) ∧
    (∀ hash, parseTransactionHash geth (geth.hash.hex hash) = .ok hash) ∧
    ∀ address, parseEventAddress geth (geth.address.hex address) = .ok address :=
  ⟨fun _ => parseHexFixed_eq_ok_iff hgeth.hash, fun _ => parseHexFixed_eq_ok_iff hgeth.address,
    parseHexFixed_hex hgeth.hash, parseHexFixed_hex hgeth.address⟩

/-! ## A library -/

/-- Texts of fixed bytes that print in lower case. -/
def HexFixed.plain (n : ℕ) : HexFixed n where
  isHex value :=
    (value.drop 2).length == 2 * n && (value.drop 2).all fun c => (Hex.nibble c).isSome
  ofHex value := ((Hex.decode (value.drop 2)).bind fun bytes =>
    if h : bytes.length = n then some ⟨bytes, h⟩ else none).getD default
  hex x := hexStart ++ Hex.encode x.1

def GoEthereum.plain : GoEthereum where
  hash := .plain 32
  address := .plain 20
  encode bytes := hexStart ++ Hex.encode bytes

theorem HexFixed.lawful_plain (n : ℕ) : (HexFixed.plain n).Lawful where
  isHex digits := by
    have hdrop : (hexStart ++ digits).drop 2 = digits := rfl
    simp only [plain, hdrop, Bool.and_eq_true, beq_iff_eq, List.all_eq_true]
  ofHex digits x hdigits := by
    have hdrop : (hexStart ++ digits).drop 2 = digits := rfl
    rw [plain]
    simp only [hdrop, hdigits, Option.bind_some, dif_pos x.2, Option.getD_some]
  hex x := ⟨_, rfl, Hex.map_lower_encode x.1⟩

theorem GoEthereum.lawful_plain : GoEthereum.plain.Lawful where
  hash := HexFixed.lawful_plain 32
  address := HexFixed.lawful_plain 20
  encode bytes := ⟨_, rfl, Hex.map_lower_encode bytes⟩

/-- Digits in upper case are read, although they print in lower case. -/
theorem hex_texts_exact_upper :
    parseTransactionHash .plain (hexStart ++ (List.replicate 62 48 ++ [65, 66])) =
      .ok (.spelling 171) :=
  ((hex_texts_exact GoEthereum.lawful_plain _).1 _).2 ⟨_, rfl, by decide +kernel⟩

end Server

end EthIndexer

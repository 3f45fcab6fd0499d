import Mathlib.Algebra.Order.Group.Nat
import Mathlib.Data.Nat.Digits.Defs
import Mathlib.Tactic.Ring
/-!
# Numbers and bytes as texts

Decimal and hexadecimal texts, as the bytes of their characters.

A decimal text has a value, and many texts have the same one, since zeros
in front do not count. `parseUint64` reads a text into 64 bits as Go's
standard library does it, with one comparison before a digit is taken in
and one after it; it accepts exactly the texts whose value fits
(`parseUint64_eq_ok_iff`).

A hexadecimal text is read in either case. So the texts of given bytes are
those that come to one text in lower case (`Hex.decode_eq_some_iff`), and
who prints some letters in upper case prints nothing else.
-/

namespace EthIndexer

/-! ## Decimal texts -/

namespace Decimal

def IsDigit (c : UInt8) : Prop := 48 ≤ c ∧ c ≤ 57

instance (c : UInt8) : Decidable (IsDigit c) := inferInstanceAs (Decidable (_ ∧ _))

/-- The value of a digit. -/
def digit (c : UInt8) : ℕ := c.toNat - 48

/-- The value of a text after digits of value `n`. -/
def valueFrom (n : ℕ) (text : List UInt8) : ℕ := text.foldl (fun n c => n * 10 + digit c) n

/-- The value of a text. -/
abbrev value (text : List UInt8) : ℕ := valueFrom 0 text

/-- The shortest text of a number. -/
def text (n : ℕ) : List UInt8 :=
  if n = 0 then [48] else (Nat.digits 10 n).reverse.map fun d => UInt8.ofNat (48 + d)

/-- The shortest text of an integer. -/
def intText (z : ℤ) : List UInt8 := if z < 0 then 45 :: text z.natAbs else text z.natAbs

theorem valueFrom_cons (n : ℕ) (c : UInt8) (l : List UInt8) :
    valueFrom n (c :: l) = valueFrom (n * 10 + digit c) l := by
  unfold valueFrom
  rw [List.foldl_cons]

theorem valueFrom_append (n : ℕ) (l l' : List UInt8) :
    valueFrom n (l ++ l') = valueFrom (valueFrom n l) l' := List.foldl_append

theorem le_valueFrom (n : ℕ) (l : List UInt8) : n ≤ valueFrom n l := by
  induction l generalizing n with
  | nil => exact le_refl n
  | cons c l ih =>
    have hrest := ih (n * 10 + digit c)
    rw [valueFrom_cons]
    omega

theorem toNat_digitByte {d : ℕ} (h : d < 10) : (UInt8.ofNat (48 + d)).toNat = 48 + d :=
  UInt8.toNat_ofNat_of_lt' (by change 48 + d < 256; omega)

/-- The digits of a number, from the highest. -/
theorem value_reverse_map {l : List ℕ} (h : ∀ d ∈ l, d < 10) :
    value (l.reverse.map fun d => UInt8.ofNat (48 + d)) = Nat.ofDigits 10 l := by
  induction l with
  | nil => rfl
  | cons d l ih =>
    have hlast : digit (UInt8.ofNat (48 + d)) = d := by
      rw [digit, toNat_digitByte (h d List.mem_cons_self)]
      omega
    have hfront : valueFrom 0 _ = _ := ih fun d hd => h d (List.mem_cons_of_mem _ hd)
    rw [List.reverse_cons, List.map_append, value, valueFrom_append, hfront, Nat.ofDigits_cons,
      List.map_cons, valueFrom_cons, hlast]
    exact (congrArg (· + d) (Nat.mul_comm _ _)).trans (Nat.add_comm _ _)

theorem text_ne_nil (n : ℕ) : text n ≠ [] := by
  unfold text
  split
  · exact List.cons_ne_nil _ _
  · rename_i hn
    rw [ne_eq, List.map_eq_nil_iff, List.reverse_eq_nil_iff, Nat.digits_eq_nil_iff_eq_zero]
    exact hn

theorem isDigit_of_mem_text {n : ℕ} {c : UInt8} (h : c ∈ text n) : IsDigit c := by
  unfold text at h
  split at h
  · rw [List.mem_singleton] at h
    subst h
    decide
  · obtain ⟨d, hd, rfl⟩ := List.mem_map.1 h
    have hlt := Nat.digits_lt_base (by omega) (List.mem_reverse.1 hd)
    have hnat := toNat_digitByte hlt
    rw [IsDigit, UInt8.le_iff_toNat_le, UInt8.le_iff_toNat_le, hnat]
    constructor
    · change 48 ≤ 48 + d
      omega
    · change 48 + d ≤ 57
      omega

/-- **A printed number reads back.** -/
theorem value_text (n : ℕ) : value (text n) = n := by
  unfold text
  split
  · rename_i hn
    rw [hn]
    rfl
  · rw [value_reverse_map fun d hd => Nat.digits_lt_base (by omega) hd, Nat.ofDigits_digits]

theorem text_injective : Function.Injective text :=
  Function.LeftInverse.injective value_text

theorem intText_injective : Function.Injective intText := by
  have hsign : ∀ n, (45 : UInt8) ∉ text n := fun n hmem => by
    have hdigit := isDigit_of_mem_text hmem
    revert hdigit
    decide
  intro a b h
  unfold intText at h
  split at h
  · split at h
    · have habs := text_injective (List.cons.inj h).2
      omega
    · exact absurd (h ▸ List.mem_cons_self) (hsign b.natAbs)
  · split at h
    · exact absurd (h ▸ List.mem_cons_self) (hsign a.natAbs)
    · have habs := text_injective h
      omega

/-! ## Reading into 64 bits -/

/-- Why `strconv.ParseUint` refuses a text. -/
inductive NumError
  | errSyntax
  | errRange
  deriving DecidableEq

/-- `maxUint64/10 + 1`: ten times that is too large. -/
def cutoff : UInt64 := 0xffffffffffffffff / 10 + 1

/-- The loop of `strconv.ParseUint(text, 10, 64)`. -/
def parseUint64From (n : UInt64) : List UInt8 → Except NumError UInt64
  | [] => .ok n
  | c :: rest =>
    if ¬ IsDigit c then .error .errSyntax
    else if n ≥ cutoff then .error .errRange
    else
      let shifted := n * 10
      let next := shifted + (c - 48).toUInt64
      if next < shifted then .error .errRange else parseUint64From next rest

/-- `strconv.ParseUint(text, 10, 64)`. -/
def parseUint64 (text : List UInt8) : Except NumError UInt64 :=
  if text = [] then .error .errSyntax else parseUint64From 0 text

theorem toNat_digit {c : UInt8} (h : IsDigit c) : (c - 48).toUInt64.toNat = digit c := by
  rw [UInt8.toNat_toUInt64, UInt8.toNat_sub_of_le _ _ h.1]
  rfl

theorem digit_le {c : UInt8} (h : IsDigit c) : digit c ≤ 9 := by
  have hle := UInt8.le_iff_toNat_le.1 h.2
  change c.toNat ≤ 57 at hle
  rw [digit]
  omega

/-- Below the cutoff there is room for one more digit. -/
theorem lt_cutoff_iff {n : UInt64} : n < cutoff ↔ n.toNat < 1844674407370955162 := by
  rw [UInt64.lt_iff_toNat_lt]
  rfl

theorem toNat_shifted {n : UInt64} (h : n < cutoff) : (n * 10).toNat = n.toNat * 10 := by
  have hlt := lt_cutoff_iff.1 h
  rw [UInt64.toNat_mul]
  change n.toNat * 10 % 2 ^ 64 = _
  omega

/-- The check after a digit is taken in finds every overflow. -/
theorem not_next_lt_iff {n : UInt64} {c : UInt8} (hn : n < cutoff) (hc : IsDigit c) :
    ¬ n * 10 + (c - 48).toUInt64 < n * 10 ↔ n.toNat * 10 + digit c < 2 ^ 64 := by
  have hlt := lt_cutoff_iff.1 hn
  have hd := digit_le hc
  rw [UInt64.lt_iff_toNat_lt, UInt64.toNat_add, toNat_shifted hn, toNat_digit hc]
  omega

theorem toNat_next {n : UInt64} {c : UInt8} (hn : n < cutoff) (hc : IsDigit c)
    (h : n.toNat * 10 + digit c < 2 ^ 64) :
    (n * 10 + (c - 48).toUInt64).toNat = n.toNat * 10 + digit c := by
  rw [UInt64.toNat_add, toNat_shifted hn, toNat_digit hc, Nat.mod_eq_of_lt h]

/-- **The loop of the parser**, from the value read so far: the rest is
digits, and the whole fits. -/
theorem parseUint64From_eq_ok_iff {text : List UInt8} {n m : UInt64} :
    parseUint64From n text = .ok m ↔
      (∀ c ∈ text, IsDigit c) ∧ valueFrom n.toNat text = m.toNat := by
  induction text generalizing n with
  | nil =>
    refine ⟨fun h => ?_, fun h => ?_⟩
    · cases h
      exact ⟨List.forall_mem_nil _, rfl⟩
    · exact congrArg Except.ok (UInt64.toNat_inj.1 h.2)
  | cons c rest ih =>
    have hm := m.toNat_lt
    have hle := le_valueFrom (n.toNat * 10 + digit c) rest
    rw [valueFrom_cons, List.forall_mem_cons, parseUint64From]
    by_cases hc : IsDigit c
    · rw [if_neg (not_not.2 hc)]
      by_cases hn : n < cutoff
      · rw [if_neg (UInt64.not_le.2 hn)]
        dsimp only
        by_cases hnext : n.toNat * 10 + digit c < 2 ^ 64
        · rw [if_neg ((not_next_lt_iff hn hc).2 hnext), ih, toNat_next hn hc hnext]
          exact ⟨fun h => ⟨⟨hc, h.1⟩, h.2⟩, fun h => ⟨h.1.2, h.2⟩⟩
        · have hover := mt (not_next_lt_iff hn hc).1 hnext
          rw [if_pos (not_not.1 hover)]
          refine ⟨(fun h => by cases h), fun h => ?_⟩
          omega
      · have hge := mt lt_cutoff_iff.2 hn
        rw [if_pos (UInt64.not_lt.1 hn)]
        refine ⟨(fun h => by cases h), fun h => ?_⟩
        omega
    · rw [if_pos hc]
      exact ⟨(fun h => by cases h), fun h => absurd h.1.1 hc⟩

/-- **The 64-bit reader is exact**: no overflow passes, and no number that
fits is refused. -/
theorem parseUint64_eq_ok_iff {text : List UInt8} {n : UInt64} :
    parseUint64 text = .ok n ↔
      text ≠ [] ∧ (∀ c ∈ text, IsDigit c) ∧ value text = n.toNat := by
  unfold parseUint64
  split
  · rename_i hnil
    exact ⟨(fun h => by cases h), fun h => absurd hnil h.1⟩
  · rename_i hne
    rw [parseUint64From_eq_ok_iff]
    exact ⟨fun h => ⟨hne, h⟩, fun h => h.2⟩

end Decimal

/-! ## Hexadecimal texts -/

namespace Hex

/-- A digit, in lower case. -/
def digit (d : ℕ) : UInt8 := UInt8.ofNat (if d < 10 then 48 + d else 87 + d)

/-- The value of a digit of either case. -/
def nibble (c : UInt8) : Option ℕ :=
  if 48 ≤ c ∧ c ≤ 57 then some (c.toNat - 48)
  else if 97 ≤ c ∧ c ≤ 102 then some (c.toNat - 87)
  else if 65 ≤ c ∧ c ≤ 70 then some (c.toNat - 55)
  else none

def lower (c : UInt8) : UInt8 := if 65 ≤ c ∧ c ≤ 90 then c + 32 else c

/-- `hex.EncodeToString`. -/
def encode : List UInt8 → List UInt8
  | [] => []
  | b :: rest => digit (b.toNat / 16) :: digit (b.toNat % 16) :: encode rest

/-- `hex.DecodeString`. -/
def decode : List UInt8 → Option (List UInt8)
  | [] => some []
  | [_] => none
  | a :: b :: rest => do
    let high ← nibble a
    let low ← nibble b
    return UInt8.ofNat (high * 16 + low) :: (← decode rest)

@[simp] theorem length_encode (l : List UInt8) : (encode l).length = 2 * l.length := by
  induction l with
  | nil => rfl
  | cons b l ih =>
    rw [encode, List.length_cons, List.length_cons, ih, List.length_cons]
    omega

/-- A character is read as the digit that its lower case prints. -/
theorem nibble_ofNat : ∀ n < 256, ∀ d < 16,
    nibble (UInt8.ofNat n) = some d ↔ lower (UInt8.ofNat n) = digit d := by
  decide +kernel

theorem nibble_lt_ofNat : ∀ n < 256, ∀ d ∈ nibble (UInt8.ofNat n), d < 16 := by
  decide +kernel

/-- A character is a digit of a value if in lower case it is the digit. -/
theorem nibble_eq_some_iff {c : UInt8} {d : ℕ} :
    nibble c = some d ↔ d < 16 ∧ lower c = digit d := by
  have hspec := nibble_ofNat c.toNat c.toNat_lt
  have hlt := nibble_lt_ofNat c.toNat c.toNat_lt
  rw [UInt8.ofNat_toNat] at hspec hlt
  constructor
  · intro h
    exact ⟨hlt d h, (hspec d (hlt d h)).1 h⟩
  · rintro ⟨hd, h⟩
    exact (hspec d hd).2 h

/-- **The texts of given bytes** are those with one lower case. -/
theorem decode_eq_some_iff {text bytes : List UInt8} :
    decode text = some bytes ↔ text.map lower = encode bytes := by
  fun_induction decode text generalizing bytes with
  | case1 =>
    cases bytes with
    | nil => exact ⟨fun _ => rfl, fun _ => rfl⟩
    | cons b bytes => exact ⟨(fun h => by cases h), fun h => by cases h⟩
  | case2 c =>
    refine ⟨(fun h => by cases h), fun h => ?_⟩
    have hlength := congrArg List.length h
    rw [List.length_map, length_encode, List.length_singleton] at hlength
    omega
  | case3 a b rest ih =>
    simp only [Option.bind_eq_bind, Option.bind_eq_some_iff, Option.pure_def, Option.some.injEq,
      List.map_cons]
    constructor
    · rintro ⟨high, hhigh, low, hlow, tail, htail, rfl⟩
      obtain ⟨hh, ha⟩ := nibble_eq_some_iff.1 hhigh
      obtain ⟨hl, hb⟩ := nibble_eq_some_iff.1 hlow
      have hbyte : (UInt8.ofNat (high * 16 + low)).toNat = high * 16 + low :=
        UInt8.toNat_ofNat_of_lt' (by change high * 16 + low < 256; omega)
      have hdiv : (high * 16 + low) / 16 = high := by omega
      have hmod : (high * 16 + low) % 16 = low := by omega
      rw [encode, hbyte, hdiv, hmod, ha, hb, ih.1 htail]
    · intro h
      cases bytes with
      | nil => cases h
      | cons byte bytes =>
        have hlt := byte.toNat_lt
        obtain ⟨ha, hrest⟩ := List.cons.inj h
        obtain ⟨hb, htail⟩ := List.cons.inj hrest
        refine ⟨byte.toNat / 16, nibble_eq_some_iff.2 ⟨by omega, ha⟩, byte.toNat % 16,
          nibble_eq_some_iff.2 ⟨by omega, hb⟩, bytes, ih.2 htail, ?_⟩
        rw [Nat.div_add_mod' byte.toNat 16, UInt8.ofNat_toNat]

theorem isSome_nibble_of_decode {text bytes : List UInt8} (h : decode text = some bytes) :
    ∀ c ∈ text, (nibble c).isSome := by
  fun_induction decode text generalizing bytes with
  | case1 => exact List.forall_mem_nil _
  | case2 c => cases h
  | case3 a b rest ih =>
    simp only [Option.bind_eq_bind, Option.bind_eq_some_iff, Option.pure_def] at h
    obtain ⟨high, hhigh, low, hlow, tail, htail, -⟩ := h
    refine List.forall_mem_cons.2 ⟨?_, List.forall_mem_cons.2 ⟨?_, ih htail⟩⟩
    · rw [hhigh, Option.isSome_some]
    · rw [hlow, Option.isSome_some]

theorem exists_decode {text : List UInt8} {n : ℕ} (hlength : text.length = 2 * n)
    (h : ∀ c ∈ text, (nibble c).isSome) : ∃ bytes, decode text = some bytes := by
  fun_induction decode text generalizing n with
  | case1 => exact ⟨[], rfl⟩
  | case2 c =>
    rw [List.length_singleton] at hlength
    omega
  | case3 a b rest ih =>
    obtain ⟨ha, hb, hrest⟩ := And.imp_right List.forall_mem_cons.1 (List.forall_mem_cons.1 h)
    obtain ⟨high, hhigh⟩ := Option.isSome_iff_exists.1 ha
    obtain ⟨low, hlow⟩ := Option.isSome_iff_exists.1 hb
    rw [List.length_cons, List.length_cons] at hlength
    obtain ⟨tail, htail⟩ := ih (show rest.length = 2 * (n - 1) by omega) hrest
    rw [hhigh, hlow, htail]
    exact ⟨_, rfl⟩

theorem length_of_decode {text bytes : List UInt8} (h : decode text = some bytes) :
    text.length = 2 * bytes.length := by
  rw [← length_encode, ← decode_eq_some_iff.1 h, List.length_map]

theorem lower_digit : ∀ d < 16, lower (digit d) = digit d := by decide

theorem map_lower_encode (l : List UInt8) : (encode l).map lower = encode l := by
  induction l with
  | nil => rfl
  | cons b l ih =>
    have hlt := b.toNat_lt
    rw [encode, List.map_cons, List.map_cons, ih, lower_digit _ (by omega),
      lower_digit _ (by omega)]

theorem decode_encode (l : List UInt8) : decode (encode l) = some l :=
  decode_eq_some_iff.2 (map_lower_encode l)

theorem encode_injective : Function.Injective encode := by
  intro a b h
  have hdecode := decode_encode a
  rw [h, decode_encode] at hdecode
  exact (Option.some.inj hdecode).symm

end Hex

end EthIndexer

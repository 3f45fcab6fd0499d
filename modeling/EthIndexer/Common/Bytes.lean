import Mathlib.Algebra.Order.Group.Nat
import Mathlib.Data.List.Induction
import Mathlib.Tactic.Ring
/-!
# Numbers and texts as bytes

A number in a fixed count of bytes, the most significant first, and the
base-64 text of a list of bytes, without padding. A text is a list of
bytes as well.

The base-64 decoder is as lenient as the one of Go's standard library: it
skips line breaks, and of a last digit that is only partly used it drops
the rest. So it undoes the encoder (`Base64.decode_encode`) and is far
from injective; who needs one text for each list of bytes has to encode
again and compare.
-/

namespace EthIndexer

/-! ## Big-endian numbers -/

namespace BigEndian

/-- The `width` low bytes of a number, the most significant first. -/
def bytes : ℕ → ℕ → List UInt8
  | 0, _ => []
  | width + 1, n => bytes width (n / 256) ++ [UInt8.ofNat n]

/-- The number that bytes spell. -/
def value (l : List UInt8) : ℕ := l.foldl (fun acc b => acc * 256 + b.toNat) 0

@[simp] theorem length_bytes (width n : ℕ) : (bytes width n).length = width := by
  induction width generalizing n with
  | zero => rfl
  | succ width ih => rw [bytes, List.length_append, ih, List.length_singleton]

theorem value_append_singleton (l : List UInt8) (b : UInt8) :
    value (l ++ [b]) = value l * 256 + b.toNat := by
  rw [value, List.foldl_append]
  rfl

/-- **A number is read back** from enough bytes. -/
theorem value_bytes {width n : ℕ} (h : n < 256 ^ width) : value (bytes width n) = n := by
  induction width generalizing n with
  | zero =>
    rw [pow_zero] at h
    rw [Nat.lt_one_iff.1 h]
    rfl
  | succ width ih =>
    have hdiv : n / 256 < 256 ^ width := Nat.div_lt_of_lt_mul (by rw [← pow_succ']; exact h)
    rw [bytes, value_append_singleton, ih hdiv, UInt8.toNat_ofNat']
    exact Nat.div_add_mod' n 256

theorem bytes_value (l : List UInt8) : bytes l.length (value l) = l := by
  induction l using List.reverseRecOn with
  | nil => rfl
  | append_singleton l b ih =>
    have hb := b.toNat_lt
    have hdiv : (value l * 256 + b.toNat) / 256 = value l := by omega
    have hlow : UInt8.ofNat (value l * 256 + b.toNat) = b := UInt8.toNat_inj.1 (by
      rw [UInt8.toNat_ofNat']
      omega)
    rw [List.length_append, List.length_singleton, value_append_singleton, bytes, hdiv, hlow, ih]

theorem value_lt (l : List UInt8) : value l < 256 ^ l.length := by
  induction l using List.reverseRecOn with
  | nil => exact Nat.one_pos
  | append_singleton l b ih =>
    have hb := b.toNat_lt
    rw [value_append_singleton, List.length_append, List.length_singleton, pow_succ]
    omega

end BigEndian

/-! ## Base 64 -/

namespace Base64

/-- The six-bit digits of bytes, three bytes at a time. The bits that are
missing at the end count as zero. -/
def sextets : List UInt8 → List ℕ
  | [] => []
  | [a] =>
    let v := a.toNat * 65536
    [v / 262144, v / 4096 % 64]
  | [a, b] =>
    let v := a.toNat * 65536 + b.toNat * 256
    [v / 262144, v / 4096 % 64, v / 64 % 64]
  | a :: b :: c :: rest =>
    let v := a.toNat * 65536 + b.toNat * 256 + c.toNat
    v / 262144 :: v / 4096 % 64 :: v / 64 % 64 :: v % 64 :: sextets rest

/-- The bytes of six-bit digits, four digits at a time. Bits that fill no
byte are dropped; a single last digit fills none. -/
def octets : List ℕ → Option (List UInt8)
  | [] => some []
  | [_] => none
  | [a, b] =>
    let v := a * 262144 + b * 4096
    some [UInt8.ofNat (v / 65536)]
  | [a, b, c] =>
    let v := a * 262144 + b * 4096 + c * 64
    some [UInt8.ofNat (v / 65536), UInt8.ofNat (v / 256)]
  | a :: b :: c :: d :: rest => do
    let v := a * 262144 + b * 4096 + c * 64 + d
    return UInt8.ofNat (v / 65536) :: UInt8.ofNat (v / 256) :: UInt8.ofNat v :: (← octets rest)

theorem lt_of_mem_sextets (l : List UInt8) : ∀ n ∈ sextets l, n < 64 := by
  fun_induction sextets l with
  | case1 => exact nofun
  | case2 a =>
    have ha := a.toNat_lt
    simp only [List.forall_mem_cons]
    exact ⟨by omega, by omega, nofun⟩
  | case3 a b =>
    have ha := a.toNat_lt
    have hb := b.toNat_lt
    simp only [List.forall_mem_cons]
    exact ⟨by omega, by omega, by omega, nofun⟩
  | case4 a b c rest v ih =>
    have ha := a.toNat_lt
    have hb := b.toNat_lt
    have hc := c.toNat_lt
    simp only [List.forall_mem_cons]
    exact ⟨by omega, by omega, by omega, by omega, ih⟩

theorem ofNat_eq_of_mod_eq {n : ℕ} {a : UInt8} (h : n % 256 = a.toNat) : UInt8.ofNat n = a :=
  UInt8.toNat_inj.1 (UInt8.toNat_ofNat'.trans h)

/-- **The digits of bytes give the bytes back.** -/
theorem octets_sextets (l : List UInt8) : octets (sextets l) = some l := by
  -- the digits of a group make up its number again, or, at the end of the
  -- list, the part of it that bytes are read from
  fun_induction sextets l with
  | case1 => rfl
  | case2 a v =>
    have ha := a.toNat_lt
    rw [octets, ofNat_eq_of_mod_eq]
    omega
  | case3 a b v =>
    have ha := a.toNat_lt
    have hb := b.toNat_lt
    have hv : v / 262144 * 262144 + v / 4096 % 64 * 4096 + v / 64 % 64 * 64 = v := by omega
    rw [octets, hv, ofNat_eq_of_mod_eq (a := a) (by omega), ofNat_eq_of_mod_eq (a := b) (by omega)]
  | case4 a b c rest v ih =>
    have ha := a.toNat_lt
    have hb := b.toNat_lt
    have hc := c.toNat_lt
    have hv : v / 262144 * 262144 + v / 4096 % 64 * 4096 + v / 64 % 64 * 64 + v % 64 = v := by
      omega
    rw [octets, hv, ih, ofNat_eq_of_mod_eq (a := a) (by omega),
      ofNat_eq_of_mod_eq (a := b) (by omega), ofNat_eq_of_mod_eq (a := c) (by omega)]
    rfl

/-- Sixty-four characters, none of them a line break, in the order of the
digits they stand for. -/
structure Alphabet where
  digit : ℕ → UInt8
  value : UInt8 → Option ℕ
  value_digit : ∀ n < 64, value (digit n) = some n
  value_lineFeed : value 10 = none
  value_carriageReturn : value 13 = none

variable (A : Alphabet)

/-- The text of bytes. -/
def encode (l : List UInt8) : List UInt8 := (sextets l).map A.digit

/-- The bytes of a text, if it is one after its line breaks are taken
out. -/
def decode (text : List UInt8) : Option (List UInt8) := do
  let digits ← (text.filter (fun c => c != 10 && c != 13)).mapM A.value
  octets digits

theorem mapM_value_map_digit {l : List ℕ} (h : ∀ n ∈ l, n < 64) :
    (l.map A.digit).mapM A.value = some l := by
  induction l with
  | nil => rfl
  | cons n l ih =>
    rw [List.forall_mem_cons] at h
    rw [List.map_cons, List.mapM_cons, A.value_digit n h.1, ih h.2]
    rfl

theorem filter_encode (l : List UInt8) :
    (encode A l).filter (fun c => c != 10 && c != 13) = encode A l := by
  refine List.filter_eq_self.2 fun c hc => ?_
  obtain ⟨n, hn, rfl⟩ := List.mem_map.1 hc
  have hvalue := A.value_digit n (lt_of_mem_sextets l n hn)
  have hlineFeed : A.digit n ≠ 10 := fun h => by
    rw [h, A.value_lineFeed] at hvalue
    cases hvalue
  have hcarriageReturn : A.digit n ≠ 13 := fun h => by
    rw [h, A.value_carriageReturn] at hvalue
    cases hvalue
  rw [bne_iff_ne.2 hlineFeed, bne_iff_ne.2 hcarriageReturn]
  rfl

/-- **Decoding undoes encoding.** -/
theorem decode_encode (l : List UInt8) : decode A (encode A l) = some l := by
  rw [decode, filter_encode, encode, mapM_value_map_digit A (lt_of_mem_sextets l)]
  exact octets_sextets l

end Base64

end EthIndexer

import EthIndexer.Common.Bytes
import EthIndexer.Common.GoMap
import EthIndexer.Domain
/-!
# The event cursor of the HTTP interface

A page of events ends with a cursor, which the server hands out as one
opaque text and takes back in the next request. `encodeEventCursor` writes
the three fields at their full width and spells the bytes in base 64;
`parseEventCursor` reads them back.

The decoder of `encoding/base64` takes more texts than the encoder writes:
it skips line breaks and ignores the bits of the last digit that fill no
byte. `parseEventCursor` encodes what it read once more and compares, so
of all the texts of one cursor it takes a single one
(`parseEventCursor_eq_some_iff`).
-/

namespace EthIndexer

namespace Server

/-! ## The functions -/

/-- A Go string. -/
abbrev Text := List UInt8

/-- `url.Values`. -/
abbrev Values := GoMap String (List Text)

/-- The characters of `base64.RawURLEncoding`. -/
def urlAlphabet : Text :=
  "ABCDEFGHIJKLMNOPQRSTUVWXYZabcdefghijklmnopqrstuvwxyz0123456789-_".toList.map
    fun c => UInt8.ofNat c.toNat

/-- `base64.RawURLEncoding`. -/
def rawURLEncoding : Base64.Alphabet where
  digit n := urlAlphabet.getD n 0
  value c := urlAlphabet.idxOf? c
  value_digit := by decide +kernel
  value_lineFeed := by decide +kernel
  value_carriageReturn := by decide +kernel

/-- `binary.BigEndian.PutUint64`. -/
def putUint64 (v : UInt64) : List UInt8 := BigEndian.bytes 8 v.toNat

/-- `binary.BigEndian.PutUint32`. -/
def putUint32 (v : UInt32) : List UInt8 := BigEndian.bytes 4 v.toNat

/-- `binary.BigEndian.Uint64`. -/
def uint64 (b : List UInt8) : UInt64 := UInt64.ofNat (BigEndian.value b)

/-- `binary.BigEndian.Uint32`. -/
def uint32 (b : List UInt8) : UInt32 := UInt32.ofNat (BigEndian.value b)

def eventCursorEncodedSize : ℕ := 8 + 32 + 4

def errInvalidEventCursor : Fault := .error [] "invalid event cursor"

/-- The bytes of a cursor. -/
def cursorBytes (cursor : EventCursor) : List UInt8 :=
  putUint64 cursor.blockNumber ++ cursor.blockHash.1 ++ putUint32 cursor.logIndex

def encodeEventCursor (cursor : EventCursor) : Text :=
  Base64.encode rawURLEncoding (cursorBytes cursor)

/-- The cursor that bytes hold. `common.BytesToHash` is called on as many
bytes as a hash has, so the hash is these. -/
def cursorOfBytes (decoded : FixedBytes eventCursorEncodedSize) : EventCursor where
  blockNumber := uint64 (decoded.1.take 8)
  blockHash := ⟨(decoded.1.drop 8).take 32, by
    rw [List.length_take, List.length_drop, decoded.2]
    rfl⟩
  logIndex := uint32 (decoded.1.drop (8 + 32))

def parseEventCursor (parameters : Values) : Go (Option EventCursor) :=
  match parameters.get? "cursor" with
  | none => .ok none
  | some [value] =>
    if value = [] then .error errInvalidEventCursor
    else match Base64.decode rawURLEncoding value with
      | none => .error errInvalidEventCursor
      | some decoded =>
        if h : decoded.length ≠ eventCursorEncodedSize ∨
            Base64.encode rawURLEncoding decoded ≠ value then
          .error errInvalidEventCursor
        else .ok (some (cursorOfBytes ⟨decoded, not_not.1 (not_or.1 h).1⟩))
  | some _ => .error errInvalidEventCursor

/-! ## Fields as bytes -/

/-- Eight bytes hold a `uint64`. -/
theorem uint64_putUint64 (v : UInt64) : uint64 (putUint64 v) = v := by
  rw [uint64, putUint64, BigEndian.value_bytes v.toNat_lt, UInt64.ofNat_toNat]

theorem putUint64_uint64 {b : List UInt8} (h : b.length = 8) : putUint64 (uint64 b) = b := by
  have hlt := BigEndian.value_lt b
  rw [h] at hlt
  rw [putUint64, uint64, UInt64.toNat_ofNat_of_lt' hlt, ← h, BigEndian.bytes_value]

/-- Four bytes hold a `uint32`. -/
theorem uint32_putUint32 (v : UInt32) : uint32 (putUint32 v) = v := by
  rw [uint32, putUint32, BigEndian.value_bytes v.toNat_lt, UInt32.ofNat_toNat]

theorem putUint32_uint32 {b : List UInt8} (h : b.length = 4) : putUint32 (uint32 b) = b := by
  have hlt := BigEndian.value_lt b
  rw [h] at hlt
  rw [putUint32, uint32, UInt32.toNat_ofNat_of_lt' hlt, ← h, BigEndian.bytes_value]

/-! ## Cursors as bytes -/

/-- A cursor is written in 44 bytes. -/
theorem length_cursorBytes (c : EventCursor) : (cursorBytes c).length = eventCursorEncodedSize := by
  rw [cursorBytes, List.length_append, List.length_append, c.blockHash.2]
  simp only [putUint64, putUint32, BigEndian.length_bytes]
  rfl

/-- A cursor is read back from its bytes. -/
theorem cursorOfBytes_cursorBytes (c : EventCursor) :
    cursorOfBytes ⟨cursorBytes c, length_cursorBytes c⟩ = c := by
  have hnumber : (putUint64 c.blockNumber).length = 8 := BigEndian.length_bytes 8 _
  have hfront : (putUint64 c.blockNumber ++ c.blockHash.1).length = 8 + 32 := by
    rw [List.length_append, hnumber, c.blockHash.2]
  have htake : (cursorBytes c).take 8 = putUint64 c.blockNumber := by
    rw [cursorBytes, List.append_assoc]
    exact List.take_left' hnumber
  have hmiddle : ((cursorBytes c).drop 8).take 32 = c.blockHash.1 := by
    rw [cursorBytes, List.append_assoc, List.drop_left' hnumber]
    exact List.take_left' c.blockHash.2
  have hdrop : (cursorBytes c).drop (8 + 32) = putUint32 c.logIndex := by
    rw [cursorBytes]
    exact List.drop_left' hfront
  simp only [cursorOfBytes, htake, hmiddle, hdrop, uint64_putUint64, uint32_putUint32]

/-- And bytes of the right number are those of the cursor they hold. -/
theorem cursorBytes_cursorOfBytes (b : FixedBytes eventCursorEncodedSize) :
    cursorBytes (cursorOfBytes b) = b.1 := by
  obtain ⟨b, h⟩ := b
  rw [eventCursorEncodedSize] at h
  have hnumber : (b.take 8).length = 8 := by rw [List.length_take]; omega
  have hindex : (b.drop (8 + 32)).length = 4 := by rw [List.length_drop]; omega
  rw [cursorBytes, cursorOfBytes, putUint64_uint64 hnumber, putUint32_uint32 hindex,
    List.append_assoc, ← List.drop_drop, List.take_append_drop, List.take_append_drop]

/-- No cursor has an empty text, which would be refused. -/
theorem encodeEventCursor_ne_nil (c : EventCursor) : encodeEventCursor c ≠ [] := by
  intro hnil
  have hdecode := Base64.decode_encode rawURLEncoding (cursorBytes c)
  rw [show Base64.encode rawURLEncoding (cursorBytes c) = [] from hnil] at hdecode
  have hempty : [] = cursorBytes c := Option.some.inj hdecode
  have hlength := length_cursorBytes c
  rw [← hempty] at hlength
  cases hlength

/-! ## The codec -/

/-- What the parser makes of a single value. -/
theorem parseEventCursor_eq_some_iff {parameters : Values} {s : Text} {c : EventCursor}
    (hs : parameters.get? "cursor" = some [s]) :
    parseEventCursor parameters = .ok (some c) ↔ encodeEventCursor c = s := by
  rw [parseEventCursor, hs]
  dsimp only
  constructor
  · intro h
    split at h
    · cases h
    split at h
    · cases h
    rename_i decoded _
    split at h
    · cases h
    -- past the checks, the bytes have the length of a cursor and spell `s`
    rename_i hchecks
    cases h
    rw [encodeEventCursor, cursorBytes_cursorOfBytes]
    exact not_not.1 (not_or.1 hchecks).2
  · rintro rfl
    have hdecode : Base64.decode rawURLEncoding (encodeEventCursor c) = some (cursorBytes c) :=
      Base64.decode_encode rawURLEncoding (cursorBytes c)
    rw [if_neg (encodeEventCursor_ne_nil c), hdecode]
    dsimp only
    rw [dif_neg (by rw [not_or, not_not, not_not]; exact ⟨length_cursorBytes c, rfl⟩),
      cursorOfBytes_cursorBytes]

/-- **A cursor has one text.** The text of a cursor is read as that
cursor, a text that is read as a cursor is that cursor's text, and two
requests whose texts are read as the same cursor carry the same text. -/
theorem eventCursor_codec {parameters : Values} {s : Text}
    (hs : parameters.get? "cursor" = some [s]) :
    (∀ c, s = encodeEventCursor c → parseEventCursor parameters = .ok (some c)) ∧
      (∀ c, parseEventCursor parameters = .ok (some c) → encodeEventCursor c = s) ∧
      ∀ (parameters' : Values) (s' : Text) (c : EventCursor),
        parameters'.get? "cursor" = some [s'] →
        parseEventCursor parameters = .ok (some c) →
        parseEventCursor parameters' = .ok (some c) → s = s' := by
  refine ⟨fun c h => (parseEventCursor_eq_some_iff hs).2 h.symm,
    fun c => (parseEventCursor_eq_some_iff hs).1, fun parameters' s' c hs' h h' => ?_⟩
  rw [← (parseEventCursor_eq_some_iff hs).1 h, ← (parseEventCursor_eq_some_iff hs').1 h']

/-- The last log of block 7, whose hash spells 9. -/
def cursorSeven : EventCursor := ⟨7, Hash.spelling 9, 4294967295⟩

/-- A request for one event before a cursor. -/
def requestBefore (s : Text) : Values :=
  GoMap.set (GoMap.set ∅ "limit" [[49]]) "cursor" [s]

/-- The cursor of an event of block 7, there and back. -/
theorem eventCursor_codec_seven :
    (requestBefore (encodeEventCursor cursorSeven)).get? "cursor" =
        some [encodeEventCursor cursorSeven] ∧
      parseEventCursor (requestBefore (encodeEventCursor cursorSeven)) = .ok (some cursorSeven) :=
  ⟨GoMap.get?_set_self _ _ _, (eventCursor_codec (GoMap.get?_set_self _ _ _)).1 _ rfl⟩

-- A line break in front is skipped by the decoder and refused by the parser.
example :
    Base64.decode rawURLEncoding (10 :: encodeEventCursor cursorSeven) =
        some (cursorBytes cursorSeven) ∧
      parseEventCursor (requestBefore (10 :: encodeEventCursor cursorSeven)) =
        .error errInvalidEventCursor := by
  decide +kernel

end Server

end EthIndexer

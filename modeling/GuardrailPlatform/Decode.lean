import GuardrailPlatform.JsonParse
import GuardrailPlatform.Utf8

/-!
# From bytes to a value

`decode` is `JSON.parse` of what a `TextDecoder` makes of the bytes.  The
decoder refuses nothing: whatever is not UTF-8 becomes the replacement
character, one for each maximal part of a sequence, and a byte order mark in
front is dropped.  So `decode` throws exactly where the text is no JSON.
-/

namespace Js

/-- A sequence that is still owed bytes, the next of them within bounds. -/
structure PendingPoint where
  point : ℕ
  needed : ℕ
  lower : ℕ
  upper : ℕ

/-- What the first byte of a sequence opens: a code point, or one that is owed bytes. -/
def leadByte (b : ℕ) : ℕ ⊕ PendingPoint :=
  if b < 0x80 then .inl b
  else if 0xC2 ≤ b ∧ b ≤ 0xDF then .inr ⟨b - 0xC0, 1, 0x80, 0xBF⟩
  else if b = 0xE0 then .inr ⟨0, 2, 0xA0, 0xBF⟩
  else if b = 0xED then .inr ⟨0xD, 2, 0x80, 0x9F⟩
  else if 0xE1 ≤ b ∧ b ≤ 0xEF then .inr ⟨b - 0xE0, 2, 0x80, 0xBF⟩
  else if b = 0xF0 then .inr ⟨0, 3, 0x90, 0xBF⟩
  else if 0xF1 ≤ b ∧ b ≤ 0xF3 then .inr ⟨b - 0xF0, 3, 0x80, 0xBF⟩
  else if b = 0xF4 then .inr ⟨4, 3, 0x80, 0x8F⟩
  else .inl 0xFFFD

/-- The code points of a byte sequence. -/
def decodePoints : Option PendingPoint → List UInt8 → List ℕ
  | none, [] => []
  | some _, [] => [0xFFFD]
  | none, b :: bytes =>
    match leadByte b.toNat with
    | .inl point => point :: decodePoints none bytes
    | .inr pending => decodePoints (some pending) bytes
  | some pending, b :: bytes =>
    if pending.lower ≤ b.toNat ∧ b.toNat ≤ pending.upper then
      let point := pending.point * 64 + (b.toNat - 0x80)
      if pending.needed = 1 then point :: decodePoints none bytes
      else decodePoints (some ⟨point, pending.needed - 1, 0x80, 0xBF⟩) bytes
    else
      -- the sequence ends here, and the byte starts another
      match leadByte b.toNat with
      | .inl point => 0xFFFD :: point :: decodePoints none bytes
      | .inr pending => 0xFFFD :: decodePoints (some pending) bytes

/-- The code units of a code point. -/
def pointUnits (point : ℕ) : JSString :=
  if point < 0x10000 then [point.toUInt16]
  else [(0xD800 + (point - 0x10000) / 0x400).toUInt16,
    (0xDC00 + (point - 0x10000) % 0x400).toUInt16]

/-- `new TextDecoder().decode(data)`. -/
def textDecode (data : List UInt8) : JSString :=
  let points := decodePoints none data
  (if points.head? = some 0xFEFF then points.tail else points).flatMap pointUnits

/-- `decode`.  `none` is the throw on a text that is no JSON. -/
def decode (data : List UInt8) : Option Value := parseText (textDecode data)

example : textDecode [0xF0, 0x9F, 0x98, 0x80, 0xE2, 0x82, 0x41] = [0xD83D, 0xDE00, 0xFFFD, 65] := by
  decide

end Js

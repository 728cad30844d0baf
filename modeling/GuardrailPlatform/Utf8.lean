import GuardrailPlatform.JsonText

/-!
# UTF-8 bytes of a string

`Buffer.from(text)`: surrogate pairs become one code point, and a surrogate
without its partner becomes the replacement character, so different strings can
have the same bytes.  An ASCII string shares its bytes with no other
(`ascii_of_utf8_eq`).
-/

namespace Js

/-- The code point of a unit outside a pair. -/
def loneCodePoint (u : UInt16) : ℕ := if IsSurrogate u then 0xFFFD else u.toNat

/-- The code points of a string. -/
def codePoints : JSString → List ℕ
  | [] => []
  | [u] => [loneCodePoint u]
  | u :: v :: rest =>
    if IsPair u v then
      (0x10000 + (u.toNat - 0xD800) * 0x400 + (v.toNat - 0xDC00)) :: codePoints rest
    else loneCodePoint u :: codePoints (v :: rest)

/-- The bytes of a code point. -/
def utf8Bytes (c : ℕ) : List ℕ :=
  if c < 0x80 then [c]
  else if c < 0x800 then [0xC0 + c / 64, 0x80 + c % 64]
  else if c < 0x10000 then [0xE0 + c / 4096, 0x80 + c / 64 % 64, 0x80 + c % 64]
  else [0xF0 + c / 262144, 0x80 + c / 4096 % 64, 0x80 + c / 64 % 64, 0x80 + c % 64]

/-- `Buffer.from(text)`. -/
def utf8 (s : JSString) : List ℕ := (codePoints s).flatMap utf8Bytes

def IsAscii (s : JSString) : Prop := ∀ u ∈ s, u.toNat < 0x80

/-- A code point of ASCII is written as one byte, which is its own number. -/
theorem utf8Bytes_ascii {c : ℕ} (h : c < 0x80) : utf8Bytes c = [c] := if_pos h

/-- The first byte of a code point beyond ASCII is beyond ASCII. -/
theorem utf8Bytes_wide {c : ℕ} (h : ¬ c < 0x80) : ∃ b bs, utf8Bytes c = b :: bs ∧ ¬ b < 0x80 := by
  unfold utf8Bytes
  split_ifs
  · exact ⟨_, _, rfl, by omega⟩
  · exact ⟨_, _, rfl, by omega⟩
  · exact ⟨_, _, rfl, by omega⟩

/-- A unit of ASCII is a code point by itself, of the same number. -/
theorem loneCodePoint_ascii {u : UInt16} (h : u.toNat < 0x80) : loneCodePoint u = u.toNat :=
  if_neg (by unfold IsSurrogate; omega)

/-- A unit outside ASCII becomes no ASCII code point, whether it is replaced or not. -/
theorem loneCodePoint_wide {u : UInt16} (h : ¬ u.toNat < 0x80) : ¬ loneCodePoint u < 0x80 := by
  rw [loneCodePoint]
  split <;> omega

/-- An ASCII unit is a code point by itself, whatever follows it. -/
theorem codePoints_ascii {u : UInt16} (h : u.toNat < 0x80) (rest : JSString) :
    codePoints (u :: rest) = u.toNat :: codePoints rest := by
  cases rest with
  | nil => exact congrArg (fun c => [c]) (loneCodePoint_ascii h)
  | cons v rest => rw [codePoints, if_neg (by unfold IsPair; omega), loneCodePoint_ascii h]

/-- A unit outside ASCII is the beginning of a code point outside ASCII. -/
theorem codePoints_wide {u : UInt16} (h : ¬ u.toNat < 0x80) (rest : JSString) :
    ∃ c cs, codePoints (u :: rest) = c :: cs ∧ ¬ c < 0x80 := by
  cases rest with
  | nil => exact ⟨_, _, by rw [codePoints], loneCodePoint_wide h⟩
  | cons v rest =>
      rw [codePoints]
      split
      · exact ⟨_, _, rfl, by omega⟩
      · exact ⟨_, _, rfl, loneCodePoint_wide h⟩

/-- An ASCII unit is one byte of the text, whatever follows it. -/
theorem utf8_ascii {u : UInt16} (h : u.toNat < 0x80) (rest : JSString) :
    utf8 (u :: rest) = u.toNat :: utf8 rest := by
  rw [utf8, codePoints_ascii h, List.flatMap_cons, utf8Bytes_ascii h]
  rfl

/-- A unit outside ASCII is written with a first byte that is outside ASCII. -/
theorem utf8_wide {u : UInt16} (h : ¬ u.toNat < 0x80) (rest : JSString) :
    ∃ b bs, utf8 (u :: rest) = b :: bs ∧ ¬ b < 0x80 := by
  obtain ⟨c, cs, hc, hwide⟩ := codePoints_wide h rest
  obtain ⟨b, bs, hb, hbyte⟩ := utf8Bytes_wide hwide
  exact ⟨b, _, by rw [utf8, hc, List.flatMap_cons, hb, List.cons_append], hbyte⟩

/-- **Bytes of ASCII text.**  No other string has the bytes of an ASCII one. -/
theorem ascii_of_utf8_eq {s t : JSString} (hs : IsAscii s) (h : utf8 s = utf8 t) : s = t := by
  induction s generalizing t with
  | nil =>
      cases t with
      | nil => rfl
      | cons v t =>
          by_cases hv : v.toNat < 0x80
          · rw [utf8_ascii hv] at h
            cases h
          · obtain ⟨b, bs, hb, -⟩ := utf8_wide hv t
            rw [hb] at h
            cases h
  | cons u s ih =>
      have hu := hs u List.mem_cons_self
      rw [utf8_ascii hu] at h
      cases t with
      | nil => cases h
      | cons v t =>
          by_cases hv : v.toNat < 0x80
          · rw [utf8_ascii hv, List.cons.injEq, UInt16.toNat_inj] at h
            rw [h.1, ih (fun w hw => hs w (List.mem_cons_of_mem _ hw)) h.2]
          · obtain ⟨b, bs, hb, hbyte⟩ := utf8_wide hv t
            rw [hb, List.cons.injEq] at h
            exact absurd (h.1 ▸ hu) hbyte

end Js

import GuardrailPlatform.Decode

/-!
# Text in files

Writing a string to a file writes its UTF-8 bytes, and reading them gives the
string back when every surrogate in it has its partner
(`fileText_fileBytes_iff`); a lone one comes back as the replacement character.

A text put together from parts with plain text between them is well formed just
when its parts are.
-/

namespace Js

/-- `writeFileSync(path, text)`. -/
def fileBytes (text : JSString) : List UInt8 := (utf8 text).map Nat.toUInt8

/-- `readFileSync(path, "utf8")`. -/
def fileText (bytes : List UInt8) : JSString := (decodePoints none bytes).flatMap pointUnits

/-- `String.prototype.isWellFormed`. -/
def isWellFormed : JSString → Bool
  | [] => true
  | [u] => !decide (IsSurrogate u)
  | u :: v :: rest =>
    if IsPair u v then isWellFormed rest else !decide (IsSurrogate u) && isWellFormed (v :: rest)

/-! ## Code points in bytes -/

/-- A code point outside the surrogates. -/
def IsScalar (c : ℕ) : Prop := c < 0x110000 ∧ ¬ (0xD800 ≤ c ∧ c ≤ 0xDFFF)

/-- A number below 256 is read back from the byte that it is made to. -/
theorem toNat_toUInt8 {n : ℕ} (h : n < 256) : n.toUInt8.toNat = n := by
  rw [Nat.toUInt8, UInt8.toNat_ofNat']
  exact Nat.mod_eq_of_lt h

/-- The first byte of a character of two bytes announces one more. -/
theorem leadByte_two {c : ℕ} (hlow : 0x80 ≤ c) (hhigh : c < 0x800) :
    leadByte (0xC0 + c / 64) = .inr ⟨c / 64, 1, 0x80, 0xBF⟩ := by
  rw [leadByte, if_neg (by omega), if_pos (by omega), Nat.add_sub_cancel_left]

/-- What a lead byte of three opens, and the bounds that it sets for the second byte. -/
theorem leadByte_three {c : ℕ} (hlow : 0x800 ≤ c) (hhigh : c < 0x10000) (h : IsScalar c) :
    ∃ lower upper, leadByte (0xE0 + c / 4096) = .inr ⟨c / 4096, 2, lower, upper⟩ ∧
      lower ≤ 0x80 + c / 64 % 64 ∧ 0x80 + c / 64 % 64 ≤ upper := by
  obtain ⟨-, hscalar⟩ := h
  rw [leadByte, if_neg (by omega), if_neg (by omega)]
  by_cases hfirst : c / 4096 = 0
  · exact ⟨0xA0, 0xBF, by rw [if_pos (by omega), hfirst], by omega, by omega⟩
  · rw [if_neg (by omega)]
    by_cases hlast : c / 4096 = 0xD
    · exact ⟨0x80, 0x9F, by rw [if_pos (by omega), hlast], by omega, by omega⟩
    · refine ⟨0x80, 0xBF, ?_, by omega, by omega⟩
      rw [if_neg (by omega), if_pos (by omega), Nat.add_sub_cancel_left]

/-- The first byte of a character of four bytes announces three more, the next
within its bounds. -/
theorem leadByte_four {c : ℕ} (hlow : 0x10000 ≤ c) (hhigh : c < 0x110000) :
    ∃ lower upper, leadByte (0xF0 + c / 262144) = .inr ⟨c / 262144, 3, lower, upper⟩ ∧
      lower ≤ 0x80 + c / 4096 % 64 ∧ 0x80 + c / 4096 % 64 ≤ upper := by
  rw [leadByte, if_neg (by omega), if_neg (by omega), if_neg (by omega), if_neg (by omega),
    if_neg (by omega)]
  by_cases hfirst : c / 262144 = 0
  · exact ⟨0x90, 0xBF, by rw [if_pos (by omega), hfirst], by omega, by omega⟩
  · rw [if_neg (by omega)]
    by_cases hlast : c / 262144 = 4
    · refine ⟨0x80, 0x8F, ?_, by omega, by omega⟩
      rw [if_neg (by omega), if_pos (by omega), hlast]
    · refine ⟨0x80, 0xBF, ?_, by omega, by omega⟩
      rw [if_pos (by omega), Nat.add_sub_cancel_left]

/-- A further byte of a character, within its bounds, is taken in and resets the bounds. -/
theorem decodePoints_tail {point needed lower upper n : ℕ} (hneeded : needed ≠ 1) (hn : n < 64)
    (hlower : lower ≤ 0x80 + n) (hupper : 0x80 + n ≤ upper) (rest : List UInt8) :
    decodePoints (some ⟨point, needed, lower, upper⟩) ((0x80 + n).toUInt8 :: rest) =
      decodePoints (some ⟨point * 64 + n, needed - 1, 0x80, 0xBF⟩) rest := by
  rw [decodePoints, toNat_toUInt8 (by omega), if_pos ⟨hlower, hupper⟩, if_neg hneeded,
    Nat.add_sub_cancel_left]

/-- The last byte of a character completes it when it is within its bounds. -/
theorem decodePoints_last {point lower upper n : ℕ} (hn : n < 64)
    (hlower : lower ≤ 0x80 + n) (hupper : 0x80 + n ≤ upper) (rest : List UInt8) :
    decodePoints (some ⟨point, 1, lower, upper⟩) ((0x80 + n).toUInt8 :: rest) =
      (point * 64 + n) :: decodePoints none rest := by
  rw [decodePoints, toNat_toUInt8 (by omega), if_pos ⟨hlower, hupper⟩, if_pos rfl,
    Nat.add_sub_cancel_left]

/-- The bytes that a code point is written as are read back as that code point. -/
theorem decodePoints_utf8Bytes {c : ℕ} (h : IsScalar c) (rest : List UInt8) :
    decodePoints none ((utf8Bytes c).map Nat.toUInt8 ++ rest) = c :: decodePoints none rest := by
  rw [utf8Bytes]
  by_cases hone : c < 0x80
  · have hlead : leadByte c = .inl c := by rw [leadByte, if_pos hone]
    rw [if_pos hone, List.map_singleton, List.singleton_append, decodePoints,
      toNat_toUInt8 (by omega), hlead]
  rw [if_neg hone]
  by_cases htwo : c < 0x800
  · rw [if_pos htwo, List.map_cons, List.map_singleton, List.cons_append, List.singleton_append,
      decodePoints, toNat_toUInt8 (by omega), leadByte_two (by omega) htwo]
    simp only
    rw [decodePoints_last (by omega) (by omega) (by omega)]
    congr 1
    omega
  rw [if_neg htwo]
  by_cases hthree : c < 0x10000
  · obtain ⟨lower, upper, hlead, hlower, hupper⟩ := leadByte_three (by omega) hthree h
    simp only [if_pos hthree, List.map_cons, List.map_nil, List.cons_append, List.nil_append]
    rw [decodePoints, toNat_toUInt8 (by omega), hlead]
    simp only
    rw [decodePoints_tail (by decide) (by omega) hlower hupper,
      decodePoints_last (by omega) (by omega) (by omega)]
    congr 1
    omega
  · obtain ⟨hhigh, -⟩ := h
    obtain ⟨lower, upper, hlead, hlower, hupper⟩ := leadByte_four (by omega) hhigh
    simp only [if_neg hthree, List.map_cons, List.map_nil, List.cons_append, List.nil_append]
    rw [decodePoints, toNat_toUInt8 (by omega), hlead]
    simp only
    rw [decodePoints_tail (by decide) (by omega) hlower hupper,
      decodePoints_tail (by decide) (by omega) (by omega) (by omega),
      decodePoints_last (by omega) (by omega) (by omega)]
    congr 1
    omega

/-- A unit by itself is written as a scalar value: a lone half is replaced. -/
theorem isScalar_loneCodePoint (u : UInt16) : IsScalar (loneCodePoint u) := by
  have hu : u.toNat < 65536 := u.toNat_lt
  rw [loneCodePoint]
  split
  · exact ⟨by omega, by omega⟩
  · rename_i hplain
    exact ⟨by omega, hplain⟩

/-- Only scalar values are written to a file: halves of a character become the replacement.
-/
theorem isScalar_of_mem_codePoints {text : JSString} : ∀ c ∈ codePoints text, IsScalar c := by
  induction text using codePoints.induct with
  | case1 => simp [codePoints]
  | case2 u =>
      intro c hc
      rw [codePoints, List.mem_singleton] at hc
      rw [hc]
      exact isScalar_loneCodePoint u
  | case3 u v rest hpair ih =>
      intro c hc
      rw [codePoints, if_pos hpair] at hc
      rcases List.mem_cons.mp hc with hc | hc
      · obtain ⟨hhigh, hlow⟩ := hpair
        exact ⟨by omega, by omega⟩
      · exact ih c hc
  | case4 u v rest hpair ih =>
      intro c hc
      rw [codePoints, if_neg hpair] at hc
      rcases List.mem_cons.mp hc with rfl | hc
      · exact isScalar_loneCodePoint u
      · exact ih c hc

/-- The bytes of scalar code points are read back as those code points, in their order. -/
theorem decodePoints_flatMap {points : List ℕ} (h : ∀ c ∈ points, IsScalar c) :
    decodePoints none ((points.flatMap utf8Bytes).map Nat.toUInt8) = points := by
  induction points with
  | nil => rfl
  | cons c points ih =>
      rw [List.flatMap_cons, List.map_append, decodePoints_utf8Bytes (h c List.mem_cons_self),
        ih fun d hd => h d (List.mem_cons_of_mem _ hd)]

/-- A file is read back as the code points it was written from. -/
theorem fileText_fileBytes (text : JSString) :
    fileText (fileBytes text) = (codePoints text).flatMap pointUnits := by
  rw [fileText, fileBytes, utf8, decodePoints_flatMap isScalar_of_mem_codePoints]

/-! ## Which text survives -/

/-- A unit by itself is read back as itself, unless it was half a character. -/
theorem pointUnits_lone (u : UInt16) :
    ∃ w, pointUnits (loneCodePoint u) = [w] ∧ (w = u ↔ ¬ IsSurrogate u) := by
  have hu : u.toNat < 65536 := u.toNat_lt
  have hscalar := isScalar_loneCodePoint u
  have hsmall : loneCodePoint u < 0x10000 := by
    rw [loneCodePoint]
    split <;> omega
  refine ⟨(loneCodePoint u).toUInt16, by rw [pointUnits, if_pos hsmall], ?_⟩
  rw [loneCodePoint]
  by_cases hsurrogate : IsSurrogate u
  · rw [if_pos hsurrogate]
    apply iff_of_false _ (not_not_intro hsurrogate)
    rintro rfl
    exact absurd hsurrogate (by decide)
  · rw [if_neg hsurrogate]
    exact iff_of_true (by simp [Nat.toUInt16]) hsurrogate

/-- The two halves of a character are read back as these halves. -/
theorem pointUnits_pair {u v : UInt16} (h : IsPair u v) :
    pointUnits (0x10000 + (u.toNat - 0xD800) * 0x400 + (v.toNat - 0xDC00)) = [u, v] := by
  obtain ⟨hu, hv⟩ := h
  have hhigh : 0xD800 + (0x10000 + (u.toNat - 0xD800) * 0x400 + (v.toNat - 0xDC00) - 0x10000) / 0x400 =
      u.toNat := by omega
  have hlow : 0xDC00 + (0x10000 + (u.toNat - 0xD800) * 0x400 + (v.toNat - 0xDC00) - 0x10000) % 0x400 =
      v.toNat := by omega
  rw [pointUnits, if_neg (by omega), hhigh, hlow]
  simp [Nat.toUInt16]

/-- **Text and its bytes.**  Well-formed text is read as it was written, and no other text. -/
theorem fileText_fileBytes_iff (text : JSString) :
    fileText (fileBytes text) = text ↔ isWellFormed text = true := by
  rw [fileText_fileBytes]
  induction text using codePoints.induct with
  | case1 => simp [codePoints, isWellFormed]
  | case2 u =>
      obtain ⟨w, hunits, hw⟩ := pointUnits_lone u
      rw [codePoints, List.flatMap_singleton, hunits, isWellFormed, Bool.not_eq_true',
        decide_eq_false_iff_not, ← hw, List.cons.injEq, and_iff_left rfl]
  | case3 u v rest hpair ih =>
      rw [codePoints, if_pos hpair, List.flatMap_cons, pointUnits_pair hpair, isWellFormed,
        if_pos hpair, ← ih]
      simp
  | case4 u v rest hpair ih =>
      obtain ⟨w, hunits, hw⟩ := pointUnits_lone u
      rw [codePoints, if_neg hpair, List.flatMap_cons, hunits, isWellFormed, if_neg hpair,
        Bool.and_eq_true, Bool.not_eq_true', decide_eq_false_iff_not, ← hw, ← ih,
        List.singleton_append, List.cons.injEq]

/-! ## Text in parts -/

/-- Text without surrogates. -/
def IsPlain (text : JSString) : Prop := ∀ u ∈ text, ¬ IsSurrogate u

instance (text : JSString) : Decidable (IsPlain text) :=
  decidable_of_iff (text.all fun u => !decide (IsSurrogate u)) (by simp [IsPlain])

theorem IsPlain.append {a b : JSString} (ha : IsPlain a) (hb : IsPlain b) : IsPlain (a ++ b) := by
  intro u hu
  rcases List.mem_append.mp hu with hu | hu
  · exact ha u hu
  · exact hb u hu

/-- A printable letter of ASCII. -/
def printable (u : UInt16) : Bool := decide (32 ≤ u.toNat) && decide (u.toNat ≤ 126)

/-- A constant is printable when each of the letters it is made of is. -/
theorem printable_str {letters : List Char}
    (h : letters.all (fun c => decide (32 ≤ c.toNat) && decide (c.toNat ≤ 126)) = true) :
    (str (String.ofList letters)).all printable = true := by
  rw [str, String.toList_ofList, List.all_flatMap, List.all_eq_true]
  intro c hc
  have hletter := List.all_eq_true.mp h c hc
  rw [Bool.and_eq_true, decide_eq_true_eq, decide_eq_true_eq] at hletter
  obtain ⟨hlow, hhigh⟩ := hletter
  have hunit : c.toNat.toUInt16.toNat = c.toNat := by
    rw [Nat.toUInt16, UInt16.toNat_ofNat']
    exact Nat.mod_eq_of_lt (by omega)
  rw [charUnits, if_pos (by omega), List.all_cons, List.all_nil, Bool.and_true, printable, hunit]
  simp [hlow, hhigh]

/-- Printable text holds no half of a character, so a file keeps it. -/
theorem isPlain_of_printable {text : JSString} (h : text.all printable = true) : IsPlain text := by
  intro u hu hsurrogate
  obtain ⟨hlow, -⟩ := hsurrogate
  have hletter := List.all_eq_true.mp h u hu
  rw [printable, Bool.and_eq_true, decide_eq_true_eq, decide_eq_true_eq] at hletter
  omega

/-- A constant of printable letters is plain, which an evaluation of its letters decides. -/
theorem isPlain_str {letters : List Char}
    (h : letters.all (fun c => decide (32 ≤ c.toNat) && decide (c.toNat ≤ 126)) = true) :
    IsPlain (str (String.ofList letters)) :=
  isPlain_of_printable (printable_str h)

theorem not_isPair_right {u v : UInt16} (h : ¬ IsSurrogate v) : ¬ IsPair u v := by
  intro hpair
  obtain ⟨-, hlow⟩ := hpair
  exact h ⟨by omega, by omega⟩

theorem not_isPair_left {u v : UInt16} (h : ¬ IsSurrogate u) : ¬ IsPair u v := by
  intro hpair
  obtain ⟨hhigh, -⟩ := hpair
  exact h ⟨by omega, by omega⟩

/-- A unit that is no half decides nothing about the text behind it. -/
theorem isWellFormed_cons_plain {u : UInt16} (h : ¬ IsSurrogate u) (text : JSString) :
    isWellFormed (u :: text) = isWellFormed text := by
  cases text with
  | nil => simp [isWellFormed, h]
  | cons v rest => rw [isWellFormed, if_neg (not_isPair_left h)]; simp [h]

/-- A cut behind or before a unit that is no surrogate splits no pair. -/
theorem isWellFormed_append_cons (a : JSString) {u : UInt16} (h : ¬ IsSurrogate u) (b : JSString) :
    isWellFormed (a ++ u :: b) = (isWellFormed a && isWellFormed b) := by
  induction a using isWellFormed.induct with
  | case1 => rw [List.nil_append, isWellFormed_cons_plain h, isWellFormed, Bool.true_and]
  | case2 x =>
      rw [List.singleton_append, isWellFormed, isWellFormed, if_neg (not_isPair_right h),
        isWellFormed_cons_plain h]
  | case3 x y rest hpair ih =>
      rw [List.cons_append, List.cons_append, isWellFormed, if_pos hpair, ih, isWellFormed,
        if_pos hpair]
  | case4 x y rest hpair ih =>
      rw [List.cons_append] at ih
      rw [List.cons_append, List.cons_append, isWellFormed, if_neg hpair, ih, isWellFormed,
        if_neg hpair, Bool.and_assoc]

/-- Plain text in front of a text does not decide whether it is well-formed. -/
theorem isWellFormed_plain_append {glue : JSString} (h : IsPlain glue) (text : JSString) :
    isWellFormed (glue ++ text) = isWellFormed text := by
  induction glue with
  | nil => rfl
  | cons u glue ih =>
      rw [List.cons_append, isWellFormed_cons_plain (h u List.mem_cons_self),
        ih fun v hv => h v (List.mem_cons_of_mem _ hv)]

theorem isWellFormed_plain {text : JSString} (h : IsPlain text) : isWellFormed text = true := by
  rw [← List.append_nil text, isWellFormed_plain_append h, isWellFormed]

/-- Plain text between two texts keeps their halves apart, so each is judged
alone. -/
theorem isWellFormed_glue (a : JSString) {glue : JSString} (h : IsPlain glue) (hglue : glue ≠ [])
    (b : JSString) : isWellFormed (a ++ (glue ++ b)) = (isWellFormed a && isWellFormed b) := by
  obtain ⟨u, rest, rfl⟩ := List.exists_cons_of_ne_nil hglue
  rw [List.cons_append, isWellFormed_append_cons a (h u List.mem_cons_self),
    isWellFormed_plain_append fun v hv => h v (List.mem_cons_of_mem _ hv)]

/-- Plain text behind decides nothing about the text in front of it. -/
theorem isWellFormed_append_plain (a : JSString) {glue : JSString} (h : IsPlain glue) :
    isWellFormed (a ++ glue) = isWellFormed a := by
  by_cases hglue : glue = []
  · rw [hglue, List.append_nil]
  · rw [← List.append_nil glue, isWellFormed_glue a h hglue, isWellFormed, Bool.and_true]

theorem isWellFormed_join {glue : JSString} (h : IsPlain glue) (hglue : glue ≠ [])
    (parts : List JSString) :
    isWellFormed (glue.intercalate parts) = parts.all isWellFormed := by
  induction parts with
  | nil => rfl
  | cons part parts ih =>
      by_cases hlast : parts = []
      · rw [hlast, List.intercalate_singleton]
        simp
      · rw [List.intercalate_cons_of_ne_nil hlast, List.append_assoc, isWellFormed_glue _ h hglue, ih,
          List.all_cons]

end Js

import GuardrailPlatform.JsonOrder

/-!
# JSON text and its unique reading

`render` is the text `JSON.stringify` writes for a JSON value, without
whitespace.  Strings are escaped as ECMAScript's well-formed `JSON.stringify`
does: control characters, the quote and the backslash, and every surrogate that
is not part of a pair.

The text is uniquely readable: two values with the same text are the same but
for the sign of zero (`render_injective`).  The induction is on the value, and
its statement carries whatever text follows, which must not extend a number.
-/

namespace Js

/-! ## Strings -/

/-- Lower-case hexadecimal digit. -/
def hexDigit (n : ℕ) : UInt16 := if n < 10 then (48 + n).toUInt16 else (87 + n).toUInt16

/-- The six-unit escape of a code unit. -/
def unicodeEscape (u : UInt16) : JSString :=
  [92, 117, hexDigit (u.toNat / 4096 % 16), hexDigit (u.toNat / 256 % 16),
    hexDigit (u.toNat / 16 % 16), hexDigit (u.toNat % 16)]

/-- A surrogate code unit. -/
def IsSurrogate (u : UInt16) : Prop := 0xD800 ≤ u.toNat ∧ u.toNat ≤ 0xDFFF

instance : DecidablePred IsSurrogate := fun _ => inferInstanceAs (Decidable (_ ∧ _))

/-- A code unit outside a surrogate pair, as JSON writes it. -/
def quoteUnit (u : UInt16) : JSString :=
  if u = 34 then [92, 34]
  else if u = 92 then [92, 92]
  else if u = 8 then [92, 98]
  else if u = 9 then [92, 116]
  else if u = 10 then [92, 110]
  else if u = 12 then [92, 102]
  else if u = 13 then [92, 114]
  else if u.toNat < 32 ∨ IsSurrogate u then unicodeEscape u
  else [u]

/-- A high surrogate followed by a low one. -/
def IsPair (u v : UInt16) : Prop :=
  (0xD800 ≤ u.toNat ∧ u.toNat ≤ 0xDBFF) ∧ (0xDC00 ≤ v.toNat ∧ v.toNat ≤ 0xDFFF)

instance (u v : UInt16) : Decidable (IsPair u v) := inferInstanceAs (Decidable (_ ∧ _))

/-- The body of a string literal and its closing quote. -/
def quoteUnits : JSString → JSString
  | [] => [34]
  | [u] => quoteUnit u ++ [34]
  | u :: v :: rest =>
    if IsPair u v then u :: v :: quoteUnits rest else quoteUnit u ++ quoteUnits (v :: rest)

/-- The code unit a one-letter escape stands for. -/
def unescape (c : UInt16) : UInt16 :=
  if c = 98 then 8 else if c = 116 then 9 else if c = 110 then 10
  else if c = 102 then 12 else if c = 114 then 13 else c

/-- The value of a hexadecimal digit. -/
def hexValue (u : UInt16) : ℕ := if u.toNat < 58 then u.toNat - 48 else u.toNat - 87

/-- Read a string literal's body up to its closing quote. -/
def unquote : JSString → Option (JSString × JSString)
  | [] => none
  | u :: rest =>
    if u = 34 then some ([], rest)
    else if u = 92 then
      match rest with
      | [] => none
      | c :: rest =>
        if c = 117 then
          match rest with
          | h₃ :: h₂ :: h₁ :: h₀ :: rest =>
            let unit := hexValue h₃ * 4096 + hexValue h₂ * 256 + hexValue h₁ * 16 + hexValue h₀
            (unquote rest).map (fun r => (unit.toUInt16 :: r.1, r.2))
          | _ => none
        else (unquote rest).map (fun r => (unescape c :: r.1, r.2))
    else (unquote rest).map (fun r => (u :: r.1, r.2))

/-- A hexadecimal digit is read back to the number it was written for. -/
theorem hexValue_hexDigit {n : ℕ} (h : n < 16) : hexValue (hexDigit n) = n := by
  interval_cases n <;> rfl

theorem unquote_close (t : JSString) : unquote (34 :: t) = some ([], t) := by
  rw [unquote.eq_def]
  rfl

/-- A backslash and a letter are read as the unit they stand for. -/
theorem unquote_letter {c : UInt16} (h : c ≠ 117) (t : JSString) :
    unquote (92 :: c :: t) = (unquote t).map (fun r => (unescape c :: r.1, r.2)) := by
  rw [unquote.eq_def]
  simp only [show (92 : UInt16) ≠ 34 by decide, if_false, if_true, if_neg h]

theorem unquote_raw {u : UInt16} (hquote : u ≠ 34) (hslash : u ≠ 92) (t : JSString) :
    unquote (u :: t) = (unquote t).map (fun r => (u :: r.1, r.2)) := by
  rw [unquote.eq_def]
  simp only [if_neg hquote, if_neg hslash]

/-- An escape of four hexadecimal digits is read as the code unit that it spells. -/
theorem unquote_unicodeEscape (u : UInt16) (t : JSString) :
    unquote (unicodeEscape u ++ t) = (unquote t).map (fun r => (u :: r.1, r.2)) := by
  have hunit : u.toNat / 4096 % 16 * 4096 + u.toNat / 256 % 16 * 256 +
      u.toNat / 16 % 16 * 16 + u.toNat % 16 = u.toNat := by
    have : u.toNat < 65536 := u.toNat_lt
    omega
  simp only [unicodeEscape, List.cons_append, List.nil_append]
  rw [unquote.eq_def]
  simp only [show (92 : UInt16) ≠ 34 by decide, if_false, if_true,
    hexValue_hexDigit (Nat.mod_lt _ (show 0 < 16 by decide)), hunit]
  rw [show u.toNat.toUInt16 = u from UInt16.ofNat_toNat]

/-- However a unit was written, plainly or as an escape, reading takes it back before the
rest. -/
theorem unquote_quoteUnit (u : UInt16) (t : JSString) :
    unquote (quoteUnit u ++ t) = (unquote t).map (fun r => (u :: r.1, r.2)) := by
  unfold quoteUnit
  split_ifs with h₁ h₂ h₃ h₄ h₅ h₆ h₇ h₈
  iterate 7
    · subst u
      exact unquote_letter (by decide) t
  · exact unquote_unicodeEscape u t
  · exact unquote_raw h₁ h₂ t

/-- **String literals.**  Reading a literal gives back the string it was
written for and the text after it. -/
theorem unquote_quoteUnits (s t : JSString) : unquote (quoteUnits s ++ t) = some (s, t) := by
  induction s using quoteUnits.induct with
  | case1 => exact unquote_close t
  | case2 u =>
      rw [quoteUnits, List.append_assoc, unquote_quoteUnit]
      exact congrArg _ (unquote_close t)
  | case3 u v rest hpair ih =>
      have hu : u ≠ 34 ∧ u ≠ 92 := by
        constructor <;> rintro rfl <;> exact absurd hpair.1 (by decide)
      have hv : v ≠ 34 ∧ v ≠ 92 := by
        constructor <;> rintro rfl <;> exact absurd hpair.2 (by decide)
      rw [quoteUnits, if_pos hpair, List.cons_append, List.cons_append, unquote_raw hu.1 hu.2,
        unquote_raw hv.1 hv.2, ih]
      rfl
  | case4 u v rest hpair ih =>
      rw [quoteUnits, if_neg hpair, List.append_assoc, unquote_quoteUnit, ih]
      rfl

/-- A quoted text says where it ends, so the text and what follows can be read
off. -/
theorem quoteUnits_append_injective {s s' t t' : JSString}
    (h : quoteUnits s ++ t = quoteUnits s' ++ t') : s = s' ∧ t = t' := by
  have hread := unquote_quoteUnits s t
  rw [h, unquote_quoteUnits, Option.some.injEq, Prod.mk.injEq] at hread
  exact ⟨hread.1.symm, hread.2.symm⟩

/-! ## Values -/

mutual

/-- The text of a JSON value. -/
def render : Json → JSString
  | .null => [110, 117, 108, 108]
  | .bool true => [116, 114, 117, 101]
  | .bool false => [102, 97, 108, 115, 101]
  | .number x => numberText x
  | .string s => 34 :: quoteUnits s
  | .array items => 91 :: renderItems items
  | .object members => 123 :: renderMembers members

/-- Array elements up to the closing bracket. -/
def renderItems : List Json → JSString
  | [] => [93]
  | j :: js => render j ++ renderMoreItems js

/-- The elements after the first, each behind its comma. -/
def renderMoreItems : List Json → JSString
  | [] => [93]
  | j :: js => 44 :: (render j ++ renderMoreItems js)

/-- Object members up to the closing brace. -/
def renderMembers : List (JSString × Json) → JSString
  | [] => [125]
  | (k, j) :: ms => 34 :: (quoteUnits k ++ 58 :: (render j ++ renderMoreMembers ms))

/-- The members after the first, each behind its comma. -/
def renderMoreMembers : List (JSString × Json) → JSString
  | [] => [125]
  | (k, j) :: ms => 44 :: 34 :: (quoteUnits k ++ 58 :: (render j ++ renderMoreMembers ms))

end

example : render (.object [(str "a", .array [.null, .number (.ofInt (-7))]), (str "b\"", .bool true)]) =
    str "\x7b\"a\":[null,-7],\"b\\\"\":true\x7d" := by decide

mutual

/-- Forget the sign of every zero in the value. -/
def Json.unsign : Json → Json
  | .number x => .number x.unsignZero
  | .array items => .array (unsignItems items)
  | .object members => .object (unsignMembers members)
  | j => j

def Json.unsignItems : List Json → List Json
  | [] => []
  | j :: js => j.unsign :: unsignItems js

def Json.unsignMembers : List (JSString × Json) → List (JSString × Json)
  | [] => []
  | (k, j) :: js => (k, j.unsign) :: unsignMembers js

end

/-- Losing the signs of zeros goes element by element, and keeps their order. -/
theorem Json.unsignItems_eq_map (items : List Json) :
    Json.unsignItems items = items.map Json.unsign := by
  induction items with
  | nil => rfl
  | cons j js ih => rw [Json.unsignItems, ih, List.map_cons]

/-- Losing the signs of zeros goes member by member, and keeps the keys. -/
theorem Json.unsignMembers_eq (members : List (JSString × Json)) :
    Json.unsignMembers members = mapValues Json.unsign members := by
  induction members with
  | nil => rfl
  | cons m ms ih =>
      rw [Json.unsignMembers, ih]
      rfl

/-- A text that cannot extend a number written before it. -/
def Stops (t : JSString) : Prop := ∀ u ∈ t.head?, ¬ IsNumberUnit u

/-- A text that begins with no number unit cannot extend a number. -/
theorem stops_cons {u : UInt16} {t : JSString} (h : ¬ IsNumberUnit u) : Stops (u :: t) := by
  intro v hv
  rwa [← Option.some.inj hv]

/-- What follows an element is a comma or a bracket, which ends a number. -/
theorem stops_moreItems (js : List Json) (t : JSString) : Stops (renderMoreItems js ++ t) := by
  cases js <;> exact stops_cons (by decide)

/-- What follows a member is a comma or a brace, which ends a number. -/
theorem stops_moreMembers (ms : List (JSString × Json)) (t : JSString) :
    Stops (renderMoreMembers ms ++ t) := by
  cases ms <;> exact stops_cons (by decide)

/-- The text of a number, before anything that stops one, is the longest run of number
units. -/
theorem takeWhile_numberText (x : Finite) {t : JSString} (ht : Stops t) :
    (numberText x ++ t).takeWhile (fun u => decide (IsNumberUnit u)) = numberText x := by
  rw [List.takeWhile_append_of_pos (fun u hu => by simpa using numberText_units x u hu)]
  cases t with
  | nil => simp
  | cons u t =>
      have hu : ¬ IsNumberUnit u := ht u rfl
      simp [hu]

/-- A number can be read off a text where what follows cannot extend it. -/
theorem numberText_append_injective {x y : Finite} {t t' : JSString} (ht : Stops t)
    (ht' : Stops t') (h : numberText x ++ t = numberText y ++ t') :
    x.unsignZero = y.unsignZero ∧ t = t' := by
  have htext : numberText x = numberText y := by
    rw [← takeWhile_numberText x ht, h, takeWhile_numberText y ht']
  refine ⟨numberText_injective htext, ?_⟩
  rwa [htext, List.append_cancel_left_eq] at h

/-- A text that begins neither with a digit nor with a minus is no number's. -/
theorem numberText_ne_cons {x : Finite} {t r : JSString} {u : UInt16}
    (hdigit : ¬ IsDigit u) (hminus : u ≠ 45) : numberText x ++ t ≠ u :: r := by
  obtain ⟨v, rest, htext, hv⟩ := numberText_head x
  rw [htext, List.cons_append]
  intro h
  obtain ⟨rfl, -⟩ := List.cons.inj h
  exact hv.elim hdigit hminus

/-- What reading one value uniquely means, whatever follows it. -/
def ReadsUniquely (x : Json) : Prop :=
  ∀ y t t', Stops t → Stops t' → render x ++ t = render y ++ t' → x.unsign = y.unsign ∧ t = t'

/-- The rest of an array can be read off, if each of its elements can. -/
theorem renderMoreItems_append_injective {js : List Json} (hread : ∀ j ∈ js, ReadsUniquely j)
    {js' : List Json} {t t' : JSString}
    (h : renderMoreItems js ++ t = renderMoreItems js' ++ t') :
    js.map Json.unsign = js'.map Json.unsign ∧ t = t' := by
  induction js generalizing js' with
  | nil =>
      cases js' with
      | nil => simpa [renderMoreItems] using h
      | cons j' js' => simp [renderMoreItems] at h
  | cons j js ih =>
      cases js' with
      | nil => simp [renderMoreItems] at h
      | cons j' js' =>
          simp only [renderMoreItems, List.cons_append, List.append_assoc, List.cons.injEq,
            true_and] at h
          obtain ⟨hj, hrest⟩ := hread j List.mem_cons_self j' _ _ (stops_moreItems js t)
            (stops_moreItems js' t') h
          obtain ⟨hjs, htail⟩ := ih (fun i hi => hread i (List.mem_cons_of_mem _ hi)) hrest
          exact ⟨by rw [List.map_cons, hj, hjs, List.map_cons], htail⟩

/-- No value is written as a closing bracket, so an empty array is told from a
full one. -/
theorem render_ne_bracket (j : Json) (t r : JSString) : render j ++ t ≠ 93 :: r := by
  cases j with
  | number x => exact numberText_ne_cons (by decide) (by decide)
  | bool b => cases b <;> simp [render]
  | _ => simp [render]

/-- An array's elements can be read off, if each of them can. -/
theorem renderItems_append_injective {js : List Json} (hread : ∀ j ∈ js, ReadsUniquely j)
    {js' : List Json} {t t' : JSString} (h : renderItems js ++ t = renderItems js' ++ t') :
    js.map Json.unsign = js'.map Json.unsign ∧ t = t' := by
  cases js with
  | nil =>
      cases js' with
      | nil => simpa [renderItems] using h
      | cons j' js' =>
          simp only [renderItems, List.append_assoc] at h
          exact absurd h.symm (render_ne_bracket _ _ _)
  | cons j js =>
      cases js' with
      | nil =>
          simp only [renderItems, List.append_assoc] at h
          exact absurd h (render_ne_bracket _ _ _)
      | cons j' js' =>
          simp only [renderItems, List.append_assoc] at h
          obtain ⟨hj, hrest⟩ := hread j List.mem_cons_self j' _ _ (stops_moreItems js t)
            (stops_moreItems js' t') h
          obtain ⟨hjs, htail⟩ := renderMoreItems_append_injective
            (fun i hi => hread i (List.mem_cons_of_mem _ hi)) hrest
          exact ⟨by rw [List.map_cons, hj, hjs, List.map_cons], htail⟩

/-- One member is read off the front of an object's text in one way only. -/
theorem member_append_injective {k k' : JSString} {j j' : Json} {r r' : JSString}
    (hread : ReadsUniquely j) (hr : Stops r) (hr' : Stops r')
    (h : quoteUnits k ++ 58 :: (render j ++ r) = quoteUnits k' ++ 58 :: (render j' ++ r')) :
    k = k' ∧ j.unsign = j'.unsign ∧ r = r' := by
  obtain ⟨hk, hrest⟩ := quoteUnits_append_injective h
  exact ⟨hk, hread j' r r' hr hr' (List.cons.inj hrest).2⟩

/-- The rest of an object can be read off, if each of its values can. -/
theorem renderMoreMembers_append_injective {ms : List (JSString × Json)}
    (hread : ∀ m ∈ ms, ReadsUniquely m.2) {ms' : List (JSString × Json)} {t t' : JSString}
    (h : renderMoreMembers ms ++ t = renderMoreMembers ms' ++ t') :
    mapValues Json.unsign ms = mapValues Json.unsign ms' ∧ t = t' := by
  induction ms generalizing ms' with
  | nil =>
      cases ms' with
      | nil => simpa [renderMoreMembers] using h
      | cons m' ms' => simp [renderMoreMembers] at h
  | cons m ms ih =>
      cases ms' with
      | nil => simp [renderMoreMembers] at h
      | cons m' ms' =>
          obtain ⟨k, j⟩ := m
          obtain ⟨k', j'⟩ := m'
          simp only [renderMoreMembers, List.cons_append, List.append_assoc, List.cons.injEq,
            true_and] at h
          obtain ⟨rfl, hj, hrest⟩ := member_append_injective (hread _ List.mem_cons_self)
            (stops_moreMembers ms t) (stops_moreMembers ms' t') h
          obtain ⟨hms, htail⟩ := ih (fun n hn => hread n (List.mem_cons_of_mem _ hn)) hrest
          exact ⟨congrArg₂ List.cons (congrArg _ hj) hms, htail⟩

/-- An object's members can be read off, if each of their values can. -/
theorem renderMembers_append_injective {ms : List (JSString × Json)}
    (hread : ∀ m ∈ ms, ReadsUniquely m.2) {ms' : List (JSString × Json)} {t t' : JSString}
    (h : renderMembers ms ++ t = renderMembers ms' ++ t') :
    mapValues Json.unsign ms = mapValues Json.unsign ms' ∧ t = t' := by
  cases ms with
  | nil =>
      cases ms' with
      | nil => simpa [renderMembers] using h
      | cons m' ms' => simp [renderMembers] at h
  | cons m ms =>
      cases ms' with
      | nil => simp [renderMembers] at h
      | cons m' ms' =>
          obtain ⟨k, j⟩ := m
          obtain ⟨k', j'⟩ := m'
          simp only [renderMembers, List.cons_append, List.append_assoc, List.cons.injEq,
            true_and] at h
          obtain ⟨rfl, hj, hrest⟩ := member_append_injective (hread _ List.mem_cons_self)
            (stops_moreMembers ms t) (stops_moreMembers ms' t') h
          obtain ⟨hms, htail⟩ := renderMoreMembers_append_injective
            (fun n hn => hread n (List.mem_cons_of_mem _ hn)) hrest
          exact ⟨congrArg₂ List.cons (congrArg _ hj) hms, htail⟩

theorem number_readsUniquely (x : Finite) : ReadsUniquely (.number x) := by
  intro y t t' ht ht' h
  cases y with
  | number y =>
      obtain ⟨hxy, htail⟩ := numberText_append_injective ht ht' h
      exact ⟨congrArg Json.number hxy, htail⟩
  | bool b => cases b <;> exact absurd h (numberText_ne_cons (by decide) (by decide))
  | _ => exact absurd h (numberText_ne_cons (by decide) (by decide))

/-- **Unique reading.**  A value's text, with any text behind it that does not
extend a number, determines the value up to the sign of zero. -/
theorem readsUniquely (x : Json) : ReadsUniquely x := by
  induction x using Json.ind with
  | number x => exact number_readsUniquely x
  | null =>
      intro y t t' ht ht' h
      cases y with
      | number y => exact absurd h.symm (numberText_ne_cons (by decide) (by decide))
      | bool b => cases b <;> simp [render] at h
      | null => simpa [render] using h
      | _ => simp [render] at h
  | bool b =>
      intro y t t' ht ht' h
      cases y with
      | number y =>
          cases b <;> exact absurd h.symm (numberText_ne_cons (by decide) (by decide))
      | bool b' => cases b <;> cases b' <;> simp_all [render]
      | _ => cases b <;> simp [render] at h
  | string s =>
      intro y t t' ht ht' h
      cases y with
      | number y => exact absurd h.symm (numberText_ne_cons (by decide) (by decide))
      | bool b => cases b <;> simp [render] at h
      | string s' =>
          obtain ⟨rfl, htail⟩ := quoteUnits_append_injective (List.cons.inj h).2
          exact ⟨rfl, htail⟩
      | _ => simp [render] at h
  | array items ih =>
      intro y t t' ht ht' h
      cases y with
      | number y => exact absurd h.symm (numberText_ne_cons (by decide) (by decide))
      | bool b => cases b <;> simp [render] at h
      | array items' =>
          obtain ⟨hitems, htail⟩ := renderItems_append_injective ih (List.cons.inj h).2
          refine ⟨?_, htail⟩
          rw [Json.unsign, Json.unsign, Json.unsignItems_eq_map, Json.unsignItems_eq_map, hitems]
      | _ => simp [render] at h
  | object members ih =>
      intro y t t' ht ht' h
      cases y with
      | number y => exact absurd h.symm (numberText_ne_cons (by decide) (by decide))
      | bool b => cases b <;> simp [render] at h
      | object members' =>
          obtain ⟨hmembers, htail⟩ := renderMembers_append_injective ih (List.cons.inj h).2
          refine ⟨?_, htail⟩
          rw [Json.unsign, Json.unsign, Json.unsignMembers_eq, Json.unsignMembers_eq, hmembers]
      | _ => simp [render] at h

/-- One text is the text of one value, up to the signs of zeros. -/
theorem render_injective {x y : Json} (h : render x = render y) : x.unsign = y.unsign :=
  (readsUniquely x y [] [] (by simp [Stops]) (by simp [Stops]) (congrArg (· ++ []) h)).1

end Js

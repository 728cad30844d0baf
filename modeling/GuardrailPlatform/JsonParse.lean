import GuardrailPlatform.JsonText

/-!
# JSON.parse

The reader `JSON.parse` is: blanks, literals, numerals with their rounding to a
double, strings with their escapes, arrays and objects.  A member name that
comes twice keeps its place and takes the later value.  Nesting is bounded by a
fuel, of which a text has enough in its own length.
-/

namespace Js

/-! ## Rounding -/

/-- The nearest integer, ties to even. -/
def roundHalfEven (q : ℚ) : ℤ :=
  if q - ⌊q⌋ < 1 / 2 then ⌊q⌋
  else if q - ⌊q⌋ > 1 / 2 then ⌊q⌋ + 1
  else if ⌊q⌋ % 2 = 0 then ⌊q⌋ else ⌊q⌋ + 1

/-- The double nearest to a magnitude, unless it is beyond the largest. -/
def nearestDouble (q : ℚ) : Option ℚ :=
  let exponent := max (Int.log 2 q - 52) (-1074)
  let double : ℚ := roundHalfEven (q / 2 ^ exponent) * 2 ^ exponent
  if double < 2 ^ 1024 then some double else none

/-- The magnitude `n * 10 ^ e`. -/
def Decimal.ofScaled (n : ℕ) (e : ℤ) (hpos : 0 < n) : Decimal where
  digits := (stripZeros n n e).1
  exponent := (stripZeros n n e).2
  normal := stripZeros_normal hpos (Nat.lt_pow_self (by norm_num))

/-- The shortest decimal that is read as the double.  Zero has none. -/
def shortestDecimal (double : ℚ) : Option Decimal :=
  (List.range 17).findSome? fun places =>
    let exponent := Int.log 10 double - places
    let n := (roundHalfEven (double / 10 ^ exponent)).toNat
    if h : 0 < n ∧ nearestDouble (n * 10 ^ exponent) = some double then
      some (Decimal.ofScaled n exponent h.1)
    else none

/-- The number a numeral's sign and magnitude stand for. -/
def Number.ofMagnitude (negative : Bool) (q : ℚ) : Number :=
  match nearestDouble q with
  | none => .infinity negative
  | some double =>
    match shortestDecimal double with
    | some d => .finite (.nonzero negative d)
    | none => .finite (.zero negative)

example : Number.ofMagnitude true (1 / 10) = .finite (.nonzero true ⟨1, -1, by decide⟩) := by decide +kernel

example : Number.ofMagnitude false 9007199254740993 =
    .finite (.nonzero false ⟨9007199254740992, 0, by decide⟩) := by decide +kernel

example : Number.ofMagnitude false (10 ^ 999) = .infinity false := by decide +kernel

/-! ## Numerals -/

/-- The digits a text starts with, and what follows them. -/
def spanDigits (t : JSString) : JSString × JSString :=
  (t.takeWhile (fun u => decide (IsDigit u)), t.dropWhile (fun u => decide (IsDigit u)))

/-- One digit or more. -/
def readRun (t : JSString) : Option (JSString × JSString) :=
  if (spanDigits t).1 = [] then none else some (spanDigits t)

/-- The digits before the point: a zero stands alone. -/
def readWhole (t : JSString) : Option (JSString × JSString) :=
  (readRun t).filter fun r => decide (r.1.head? ≠ some 48 ∨ r.1 = [48])

/-- The digits after the point, where there is one. -/
def readFraction : JSString → Option (JSString × JSString)
  | [] => some ([], [])
  | u :: t => if u = 46 then readRun t else some ([], u :: t)

/-- The sign of an exponent, which may be left out. -/
def readPowerSign : JSString → Bool × JSString
  | [] => (false, [])
  | u :: t => if u = 45 then (true, t) else if u = 43 then (false, t) else (false, u :: t)

/-- The exponent, where there is one. -/
def readPower : JSString → Option (ℤ × JSString)
  | [] => some (0, [])
  | u :: t =>
    if u = 101 ∨ u = 69 then
      (readRun (readPowerSign t).2).map fun r =>
        (if (readPowerSign t).1 then -(readDigits r.1 : ℤ) else readDigits r.1, r.2)
    else some (0, u :: t)

/-- A numeral without its sign: its magnitude. -/
def readUnsigned (t : JSString) : Option (ℚ × JSString) := do
  let (whole, t) ← readWhole t
  let (fraction, t) ← readFraction t
  let (power, t) ← readPower t
  return (readDigits (whole ++ fraction) * 10 ^ (power - fraction.length), t)

def readNumeral : JSString → Option (Number × JSString)
  | [] => none
  | u :: t =>
    if u = 45 then (readUnsigned t).map fun r => (Number.ofMagnitude true r.1, r.2)
    else (readUnsigned (u :: t)).map fun r => (Number.ofMagnitude false r.1, r.2)

/-! ## Strings -/

/-- The value of a hexadecimal digit of either case. -/
def hexDigit? (u : UInt16) : Option ℕ :=
  if IsDigit u then some (u.toNat - 48)
  else if 97 ≤ u.toNat ∧ u.toNat ≤ 102 then some (u.toNat - 87)
  else if 65 ≤ u.toNat ∧ u.toNat ≤ 70 then some (u.toNat - 55)
  else none

/-- The code unit of a one-letter escape. -/
def escaped? (c : UInt16) : Option UInt16 :=
  if c ∈ [34, 92, 47, 98, 102, 110, 114, 116] then some (unescape c) else none

/-- The code unit four hexadecimal digits write. -/
def hexUnit? (h₃ h₂ h₁ h₀ : UInt16) : Option UInt16 := do
  let d₃ ← hexDigit? h₃
  let d₂ ← hexDigit? h₂
  let d₁ ← hexDigit? h₁
  let d₀ ← hexDigit? h₀
  return (d₃ * 4096 + d₂ * 256 + d₁ * 16 + d₀).toUInt16

/-- A string literal after its opening quote. -/
def readText : JSString → Option (JSString × JSString)
  | [] => none
  | u :: rest =>
    if u = 34 then some ([], rest)
    else if u = 92 then
      match rest with
      | [] => none
      | c :: rest =>
        if c = 117 then
          match rest with
          | h₃ :: h₂ :: h₁ :: h₀ :: rest =>
            (hexUnit? h₃ h₂ h₁ h₀).bind fun unit => (readText rest).map fun r => (unit :: r.1, r.2)
          | _ => none
        else (escaped? c).bind fun unit => (readText rest).map fun r => (unit :: r.1, r.2)
    else if u.toNat < 32 then none
    else (readText rest).map fun r => (u :: r.1, r.2)

theorem readText_close (t : JSString) : readText (34 :: t) = some ([], t) := by
  rw [readText.eq_def]
  rfl

/-- Four hexadecimal digits spell a unit, or the text is no JSON. -/
theorem readText_hex (h₃ h₂ h₁ h₀ : UInt16) (t : JSString) :
    readText (92 :: 117 :: h₃ :: h₂ :: h₁ :: h₀ :: t) =
      (hexUnit? h₃ h₂ h₁ h₀).bind fun unit => (readText t).map fun r => (unit :: r.1, r.2) := by
  rw [readText.eq_def]
  rfl

/-- A backslash and a letter stand for a unit, or the text is no JSON. -/
theorem readText_letter {c : UInt16} (hc : c ≠ 117) (t : JSString) :
    readText (92 :: c :: t) =
      (escaped? c).bind fun unit => (readText t).map fun r => (unit :: r.1, r.2) := by
  rw [readText.eq_def]
  simp only [show (92 : UInt16) ≠ 34 by decide, if_false, if_true, if_neg hc]

/-- Any other unit stands for itself, unless it is a control character. -/
theorem readText_raw {u : UInt16} (hquote : u ≠ 34) (hslash : u ≠ 92) (t : JSString) :
    readText (u :: t) =
      if u.toNat < 32 then none else (readText t).map fun r => (u :: r.1, r.2) := by
  rw [readText.eq_def]
  simp only [if_neg hquote, if_neg hslash]

/-! ## Values -/

def IsBlank (u : UInt16) : Prop := u = 32 ∨ u = 9 ∨ u = 10 ∨ u = 13

instance : DecidablePred IsBlank := fun _ => inferInstanceAs (Decidable (_ ∨ _))

def skipBlanks (t : JSString) : JSString := t.dropWhile (fun u => decide (IsBlank u))

/-- A literal name. -/
def readLiteral (name : JSString) (v : Value) (t : JSString) : Option (Value × JSString) :=
  if t.take name.length = name then some (v, t.drop name.length) else none

/-- A member name that comes again keeps its place. -/
def assignMember (out : List (JSString × Value)) (m : JSString × Value) :
    List (JSString × Value) :=
  if out.any (·.1 == m.1) then out.map (fun n => if n.1 == m.1 then m else n)
  else defineProperty out m

/-- The members of an object, in the order they are created. -/
def objectOf (members : List (JSString × Value)) : Value :=
  .object (members.foldl assignMember [])

/-- What follows an opening bracket: the closing one, or something inside. -/
def readEnclosed (close : UInt16) (empty : Value)
    (inner : JSString → Option (Value × JSString)) (t : JSString) : Option (Value × JSString) :=
  match skipBlanks t with
  | [] => none
  | u :: rest => if u = close then some (empty, rest) else inner (u :: rest)

/-- What follows an element: the closing bracket, or a comma and more. -/
def readMore {α : Type} (close : UInt16) (first : α) (more : JSString → Option (List α × JSString))
    (t : JSString) : Option (List α × JSString) :=
  match skipBlanks t with
  | [] => none
  | u :: rest =>
    if u = close then some ([first], rest)
    else if u = 44 then (more rest).map fun r => (first :: r.1, r.2)
    else none

/-- A member's name and the colon after it. -/
def readName (t : JSString) : Option (JSString × JSString) :=
  match skipBlanks t with
  | [] => none
  | u :: rest =>
    if u = 34 then
      (readText rest).bind fun name =>
        match skipBlanks name.2 with
        | [] => none
        | c :: rest => if c = 58 then some (name.1, rest) else none
    else none

mutual

/-- A value at the start of a text, and what follows it. -/
def readValue : ℕ → JSString → Option (Value × JSString)
  | 0, _ => none
  | fuel + 1, t =>
    match skipBlanks t with
    | [] => none
    | u :: rest =>
      if u = 34 then (readText rest).map fun r => (.string r.1, r.2)
      else if u = 91 then
        readEnclosed 93 (.array []) (fun t => (readElements fuel t).map fun r => (.array r.1, r.2)) rest
      else if u = 123 then
        readEnclosed 125 (.object [])
          (fun t => (readMembers fuel t).map fun r => (objectOf r.1, r.2)) rest
      else if u = 110 then readLiteral (str "null") .null (u :: rest)
      else if u = 116 then readLiteral (str "true") (.bool true) (u :: rest)
      else if u = 102 then readLiteral (str "false") (.bool false) (u :: rest)
      else (readNumeral (u :: rest)).map fun r => (.number r.1, r.2)

/-- Array elements up to the closing bracket. -/
def readElements : ℕ → JSString → Option (List Value × JSString)
  | 0, _ => none
  | fuel + 1, t => (readValue fuel t).bind fun r => readMore 93 r.1 (readElements fuel) r.2

/-- Object members up to the closing brace. -/
def readMembers : ℕ → JSString → Option (List (JSString × Value) × JSString)
  | 0, _ => none
  | fuel + 1, t =>
    (readName t).bind fun name =>
      (readValue fuel name.2).bind fun r => readMore 125 (name.1, r.1) (readMembers fuel) r.2

end

/-- `JSON.parse`.  `none` is the throw of a `SyntaxError`. -/
def parseText (text : JSString) : Option Value :=
  match readValue (2 * text.length + 2) text with
  | some (v, rest) => if skipBlanks rest = [] then some v else none
  | none => none

/-! ## Enough fuel -/

theorem length_skipBlanks_le (t : JSString) : (skipBlanks t).length ≤ t.length :=
  (List.dropWhile_suffix _).length_le

/-- A run of digits has one at least, so reading it leaves less of the text. -/
theorem length_of_readRun {t : JSString} {r : JSString × JSString} (h : readRun t = some r) :
    r.2.length < t.length := by
  unfold readRun at h
  split at h
  · cases h
  · rename_i hne
    obtain rfl := Option.some.inj h
    have hsplit := List.takeWhile_append_dropWhile (p := fun u => decide (IsDigit u)) (l := t)
    have hlength := congrArg List.length hsplit
    have hpos : 0 < (spanDigits t).1.length := List.length_pos_iff.mpr hne
    simp only [spanDigits, List.length_append] at hlength hpos ⊢
    omega

/-- Reading a fraction, which may be missing, leaves no more of the text. -/
theorem length_of_readFraction {t : JSString} {r : JSString × JSString}
    (h : readFraction t = some r) : r.2.length ≤ t.length := by
  cases t with
  | nil =>
      obtain rfl := Option.some.inj h
      exact le_rfl
  | cons u t =>
      rw [readFraction] at h
      split at h
      · have hrun := length_of_readRun h
        rw [List.length_cons]
        omega
      · obtain rfl := Option.some.inj h
        exact le_rfl

/-- Reading an exponent, which may be missing, leaves no more of the text. -/
theorem length_of_readPower {t : JSString} {r : ℤ × JSString} (h : readPower t = some r) :
    r.2.length ≤ t.length := by
  cases t with
  | nil =>
      obtain rfl := Option.some.inj h
      exact le_rfl
  | cons u t =>
      rw [readPower] at h
      split at h
      · obtain ⟨run, hrun, rfl⟩ := Option.map_eq_some_iff.mp h
        have hshort := length_of_readRun hrun
        have hsign : (readPowerSign t).2.length ≤ t.length := by
          cases t with
          | nil => exact le_rfl
          | cons v t =>
              rw [readPowerSign]
              split_ifs <;> simp
        rw [List.length_cons]
        dsimp only
        omega
      · obtain rfl := Option.some.inj h
        exact le_rfl

/-- Reading an unsigned number consumes a digit at least, so what is left is shorter. -/
theorem length_of_readUnsigned {t : JSString} {r : ℚ × JSString} (h : readUnsigned t = some r) :
    r.2.length < t.length := by
  simp only [readUnsigned, Option.bind_eq_bind, Option.bind_eq_some_iff, Option.pure_def,
    Option.some.injEq] at h
  obtain ⟨whole, hwhole, fraction, hfraction, power, hpower, rfl⟩ := h
  have h₁ := length_of_readRun (Option.filter_eq_some_iff.mp hwhole).1
  have h₂ := length_of_readFraction hfraction
  have h₃ := length_of_readPower hpower
  dsimp only
  omega

/-- Reading a number leaves less text than it was given, since a number has a digit at
least. -/
theorem length_of_readNumeral {t : JSString} {r : Number × JSString} (h : readNumeral t = some r) :
    r.2.length < t.length := by
  cases t with
  | nil => cases h
  | cons u t =>
      rw [readNumeral] at h
      split at h
      · obtain ⟨q, hq, rfl⟩ := Option.map_eq_some_iff.mp h
        have hshort := length_of_readUnsigned hq
        rw [List.length_cons]
        dsimp only
        omega
      · obtain ⟨q, hq, rfl⟩ := Option.map_eq_some_iff.mp h
        exact length_of_readUnsigned hq

/-- Reading one of the three names consumes the whole name, so what is left is shorter. -/
theorem length_of_readLiteral {name t : JSString} {v : Value} {r : Value × JSString}
    (hname : name ≠ []) (h : readLiteral name v t = some r) : r.2.length < t.length := by
  unfold readLiteral at h
  split at h
  · rename_i htake
    obtain rfl := Option.some.inj h
    have hpos := List.length_pos_iff.mpr hname
    have hlength := congrArg List.length htake
    rw [List.length_take] at hlength
    rw [List.length_drop]
    omega
  · cases h

/-- Reading a text consumes its closing quotation mark at least, whatever
escapes it holds. -/
theorem length_of_readText {t : JSString} {r : JSString × JSString} (h : readText t = some r) :
    r.2.length < t.length := by
  induction t using readText.induct generalizing r with
  | case1 => cases h
  | case2 t =>
      rw [readText_close] at h
      obtain rfl := Option.some.inj h
      exact Nat.lt_succ_self _
  | case3 => cases h
  | case4 h₃ h₂ h₁ h₀ rest _ ih =>
      rw [readText_hex] at h
      obtain ⟨unit, -, hrest⟩ := Option.bind_eq_some_iff.mp h
      obtain ⟨more, hmore, rfl⟩ := Option.map_eq_some_iff.mp hrest
      have hshort := ih hmore
      simp only [List.length_cons]
      omega
  | case5 rest hnone =>
      rw [readText.eq_def] at h
      simp only [show (92 : UInt16) ≠ 34 by decide, if_false, if_true] at h
      cases h
  | case6 c rest hc _ ih =>
      rw [readText_letter hc] at h
      obtain ⟨unit, -, hrest⟩ := Option.bind_eq_some_iff.mp h
      obtain ⟨more, hmore, rfl⟩ := Option.map_eq_some_iff.mp hrest
      have hshort := ih hmore
      simp only [List.length_cons]
      omega
  | case7 u t hquote hslash hcontrol =>
      rw [readText_raw hquote hslash, if_pos hcontrol] at h
      cases h
  | case8 u t hquote hslash hcontrol ih =>
      rw [readText_raw hquote hslash, if_neg hcontrol] at h
      obtain ⟨more, hmore, rfl⟩ := Option.map_eq_some_iff.mp h
      have hshort := ih hmore
      simp only [List.length_cons]
      omega

/-- Reading something enclosed leaves less text, since a bracket is consumed whatever the
inner reader does. -/
theorem length_of_readEnclosed {close : UInt16} {empty : Value}
    {inner : JSString → Option (Value × JSString)} {t : JSString} {r : Value × JSString}
    (hinner : ∀ {t r}, inner t = some r → r.2.length < t.length)
    (h : readEnclosed close empty inner t = some r) : r.2.length < t.length := by
  have hblanks := length_skipBlanks_le t
  unfold readEnclosed at h
  cases hskip : skipBlanks t with
  | nil =>
      rw [hskip] at h
      cases h
  | cons u rest =>
      rw [hskip] at h hblanks
      dsimp only at h
      split_ifs at h
      · obtain rfl := Option.some.inj h
        rw [List.length_cons] at hblanks
        exact hblanks
      · have hshort := hinner h
        omega

/-- Reading on after an element consumes a comma or the closing bracket. -/
theorem length_of_readMore {α : Type} {close : UInt16} {first : α}
    {more : JSString → Option (List α × JSString)} {t : JSString} {r : List α × JSString}
    (hmore : ∀ {t r}, more t = some r → r.2.length < t.length)
    (h : readMore close first more t = some r) : r.2.length < t.length := by
  have hblanks := length_skipBlanks_le t
  unfold readMore at h
  cases hskip : skipBlanks t with
  | nil =>
      rw [hskip] at h
      cases h
  | cons u rest =>
      rw [hskip] at h hblanks
      rw [List.length_cons] at hblanks
      dsimp only at h
      split_ifs at h
      · obtain rfl := Option.some.inj h
        exact hblanks
      · obtain ⟨items, hitems, rfl⟩ := Option.map_eq_some_iff.mp h
        have hshort := hmore hitems
        dsimp only
        omega

/-- Reading a member's name leaves less text, for its quotation marks and its colon are
consumed. -/
theorem length_of_readName {t : JSString} {r : JSString × JSString} (h : readName t = some r) :
    r.2.length < t.length := by
  have hblanks := length_skipBlanks_le t
  unfold readName at h
  cases hskip : skipBlanks t with
  | nil =>
      rw [hskip] at h
      cases h
  | cons u rest =>
      rw [hskip] at h hblanks
      rw [List.length_cons] at hblanks
      dsimp only at h
      split_ifs at h
      obtain ⟨name, hname, hcolon⟩ := Option.bind_eq_some_iff.mp h
      have hshort := length_of_readText hname
      have hafter := length_skipBlanks_le name.2
      cases hskip' : skipBlanks name.2 with
      | nil =>
          rw [hskip'] at hcolon
          cases hcolon
      | cons c rest =>
          rw [hskip'] at hcolon hafter
          rw [List.length_cons] at hafter
          dsimp only at hcolon
          split_ifs at hcolon
          obtain rfl := Option.some.inj hcolon
          dsimp only
          omega

/-- A value, the elements of an array and the members of an object all take something of the
text. -/
theorem read_consumes (fuel : ℕ) :
    (∀ {t r}, readValue fuel t = some r → r.2.length < t.length) ∧
    (∀ {t r}, readElements fuel t = some r → r.2.length < t.length) ∧
    (∀ {t r}, readMembers fuel t = some r → r.2.length < t.length) := by
  induction fuel with
  | zero =>
      refine ⟨?_, ?_, ?_⟩ <;> intro t r h <;> cases h
  | succ fuel ih =>
      obtain ⟨ihvalue, ihitems, ihmembers⟩ := ih
      refine ⟨?_, ?_, ?_⟩
      · intro t r h
        have hblanks := length_skipBlanks_le t
        rw [readValue] at h
        cases hskip : skipBlanks t with
        | nil =>
            rw [hskip] at h
            cases h
        | cons u rest =>
            rw [hskip] at h hblanks
            rw [List.length_cons] at hblanks
            have hname : ∀ {name : JSString} {v : Value}, name ≠ [] →
                readLiteral name v (u :: rest) = some r → r.2.length < t.length := by
              intro name v hne hliteral
              have hshort := length_of_readLiteral hne hliteral
              rw [List.length_cons] at hshort
              omega
            dsimp only at h
            split_ifs at h
            · obtain ⟨text, htext, rfl⟩ := Option.map_eq_some_iff.mp h
              have hshort := length_of_readText htext
              dsimp only
              omega
            · have hshort := length_of_readEnclosed (fun {t r} hinner => by
                obtain ⟨items, hitems, rfl⟩ := Option.map_eq_some_iff.mp hinner
                exact ihitems hitems) h
              omega
            · have hshort := length_of_readEnclosed (fun {t r} hinner => by
                obtain ⟨members, hmembers, rfl⟩ := Option.map_eq_some_iff.mp hinner
                exact ihmembers hmembers) h
              omega
            · exact hname (by decide) h
            · exact hname (by decide) h
            · exact hname (by decide) h
            · obtain ⟨number, hnumber, rfl⟩ := Option.map_eq_some_iff.mp h
              have hshort := length_of_readNumeral hnumber
              rw [List.length_cons] at hshort
              dsimp only
              omega
      · intro t r h
        obtain ⟨v, hv, hmore⟩ := Option.bind_eq_some_iff.mp h
        exact (length_of_readMore ihitems hmore).trans (ihvalue hv)
      · intro t r h
        obtain ⟨name, hname, hmember⟩ := Option.bind_eq_some_iff.mp h
        obtain ⟨v, hv, hmore⟩ := Option.bind_eq_some_iff.mp hmember
        exact (length_of_readMore ihmembers hmore).trans ((ihvalue hv).trans (length_of_readName hname))

/-- What is read between brackets depends on the inner reader on shorter texts
only. -/
theorem readEnclosed_congr {close : UInt16} {empty : Value}
    {inner inner' : JSString → Option (Value × JSString)} {t : JSString}
    (h : ∀ s : JSString, s.length ≤ t.length → inner s = inner' s) :
    readEnclosed close empty inner t = readEnclosed close empty inner' t := by
  have hblanks := length_skipBlanks_le t
  unfold readEnclosed
  cases hskip : skipBlanks t with
  | nil => rfl
  | cons u rest =>
      rw [hskip] at hblanks
      dsimp only
      rw [h _ hblanks]

/-- What is read behind an element depends on the reader of more on shorter
texts only. -/
theorem readMore_congr {α : Type} {close : UInt16} {first : α}
    {more more' : JSString → Option (List α × JSString)} {t : JSString}
    (h : ∀ s : JSString, s.length < t.length → more s = more' s) :
    readMore close first more t = readMore close first more' t := by
  have hblanks := length_skipBlanks_le t
  unfold readMore
  cases hskip : skipBlanks t with
  | nil => rfl
  | cons u rest =>
      rw [hskip, List.length_cons] at hblanks
      dsimp only
      rw [h _ hblanks]

/-- Beyond twice the text's length more fuel changes nothing, for values, elements and
members alike; by induction on the fuel. -/
theorem read_stable (fuel : ℕ) :
    (∀ fuel' t, 2 * t.length + 1 ≤ fuel → 2 * t.length + 1 ≤ fuel' →
      readValue fuel t = readValue fuel' t) ∧
    (∀ fuel' t, 2 * t.length + 2 ≤ fuel → 2 * t.length + 2 ≤ fuel' →
      readElements fuel t = readElements fuel' t) ∧
    (∀ fuel' t, 2 * t.length + 2 ≤ fuel → 2 * t.length + 2 ≤ fuel' →
      readMembers fuel t = readMembers fuel' t) := by
  induction fuel with
  | zero =>
      refine ⟨?_, ?_, ?_⟩ <;> intro fuel' t h <;> omega
  | succ fuel ih =>
      obtain ⟨ihvalue, ihitems, ihmembers⟩ := ih
      refine ⟨?_, ?_, ?_⟩
      · intro fuel' t h h'
        obtain ⟨fuel', rfl⟩ : ∃ n, fuel' = n + 1 := ⟨fuel' - 1, by omega⟩
        have hblanks := length_skipBlanks_le t
        rw [readValue, readValue]
        cases hskip : skipBlanks t with
        | nil => rfl
        | cons u rest =>
            rw [hskip, List.length_cons] at hblanks
            dsimp only
            rw [readEnclosed_congr fun s hs => congrArg _ (ihitems fuel' s (by omega) (by omega)),
              readEnclosed_congr fun s hs => congrArg _ (ihmembers fuel' s (by omega) (by omega))]
      · intro fuel' t h h'
        obtain ⟨fuel', rfl⟩ : ∃ n, fuel' = n + 1 := ⟨fuel' - 1, by omega⟩
        rw [readElements, readElements, ihvalue fuel' t (by omega) (by omega)]
        cases hv : readValue fuel' t with
        | none => rfl
        | some v =>
            have hshort := (read_consumes fuel').1 hv
            exact readMore_congr fun s hs => ihitems fuel' s (by omega) (by omega)
      · intro fuel' t h h'
        obtain ⟨fuel', rfl⟩ : ∃ n, fuel' = n + 1 := ⟨fuel' - 1, by omega⟩
        rw [readMembers, readMembers]
        cases hname : readName t with
        | none => rfl
        | some name =>
            have hshort := length_of_readName hname
            rw [Option.bind_some, Option.bind_some, ihvalue fuel' name.2 (by omega) (by omega)]
            cases hv : readValue fuel' name.2 with
            | none => rfl
            | some v =>
                have hshort' := (read_consumes fuel').1 hv
                exact readMore_congr fun s hs => ihmembers fuel' s (by omega) (by omega)

/-- **Enough fuel.**  Any fuel beyond twice the text's length reads what the parser's own
reads. -/
theorem readValue_of_fuel {fuel : ℕ} {t : JSString} (h : 2 * t.length + 1 ≤ fuel) :
    readValue fuel t = readValue (2 * t.length + 2) t :=
  (read_stable fuel).1 _ t h (by omega)

end Js

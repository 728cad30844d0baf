import Mathlib

/-!
# JavaScript strings and numbers, as JSON writes them

A JavaScript string is the list of its UTF-16 code units, lone surrogates
included.  A finite number is kept as what ECMAScript's `Number::toString`
reads off it: a sign, the shortest decimal digits, and a power of ten.  Every
double is one of these, so a fact about all of them is a fact about doubles.

The one theorem the rest of the development needs is `numberText_injective`:
the decimal text of a finite number determines the number, up to the sign of
zero, which JSON does not write.
-/

namespace Js

/-- A JavaScript string: its UTF-16 code units. -/
abbrev JSString := List UInt16

/-- The code units of one Unicode scalar value. -/
def charUnits (c : Char) : JSString :=
  if c.toNat < 0x10000 then [c.toNat.toUInt16]
  else [(0xD800 + (c.toNat - 0x10000) / 0x400).toUInt16,
    (0xDC00 + (c.toNat - 0x10000) % 0x400).toUInt16]

/-- A string literal of the source. -/
def str (s : String) : JSString := s.toList.flatMap charUnits

/-! ## Finite numbers -/

/-- The magnitude `digits * 10 ^ exponent` of a nonzero finite number, with no
trailing zero among the digits. -/
structure Decimal where
  digits : ℕ
  exponent : ℤ
  normal : digits % 10 ≠ 0
deriving DecidableEq

/-- A finite number: a signed zero or a signed magnitude. -/
inductive Finite
  | zero (negative : Bool)
  | nonzero (negative : Bool) (magnitude : Decimal)
deriving DecidableEq

/-- A JavaScript number. -/
inductive Number
  | nan
  | infinity (negative : Bool)
  | finite (x : Finite)
deriving DecidableEq

/-- Move the trailing zeros of `n` into the exponent; `fuel` bounds how many. -/
def stripZeros : ℕ → ℕ → ℤ → ℕ × ℤ
  | 0, n, e => (n, e)
  | fuel + 1, n, e => if n % 10 = 0 then stripZeros fuel (n / 10) (e + 1) else (n, e)

/-- With enough fuel no zero is left at the end: the digits are normal. -/
theorem stripZeros_normal {fuel n : ℕ} {e : ℤ} (hpos : 0 < n) (hfuel : n < 10 ^ fuel) :
    (stripZeros fuel n e).1 % 10 ≠ 0 := by
  induction fuel generalizing n e with
  | zero => simp at hfuel; omega
  | succ fuel ih =>
      by_cases h : n % 10 = 0
      · rw [stripZeros, if_pos h]
        exact ih (by omega) (by rw [pow_succ] at hfuel; omega)
      · rwa [stripZeros, if_neg h]

/-- Moving the final zeros of a coefficient into the exponent does not change the value. -/
theorem stripZeros_value (fuel n : ℕ) (e : ℤ) :
    ((stripZeros fuel n e).1 : ℚ) * 10 ^ (stripZeros fuel n e).2 = n * 10 ^ e := by
  induction fuel generalizing n e with
  | zero => rfl
  | succ fuel ih =>
      by_cases h : n % 10 = 0
      · rw [stripZeros, if_pos h, ih]
        obtain ⟨m, rfl⟩ := Nat.dvd_of_mod_eq_zero h
        rw [Nat.mul_div_cancel_left _ (by norm_num), zpow_add₀ (by norm_num)]
        push_cast
        ring
      · rw [stripZeros, if_neg h]

/-- The magnitude of a positive integer. -/
def Decimal.ofNat (n : ℕ) (hpos : 0 < n) : Decimal where
  digits := (stripZeros n n 0).1
  exponent := (stripZeros n n 0).2
  normal := stripZeros_normal hpos (Nat.lt_pow_self (by norm_num))

/-- The number an integer is. -/
def Finite.ofInt (z : ℤ) : Finite :=
  if h : 0 < z.natAbs then .nonzero (decide (z < 0)) (Decimal.ofNat z.natAbs h)
  else .zero false

/-- Zero without its sign: what JSON keeps of a finite number. -/
def Finite.unsignZero : Finite → Finite
  | .zero _ => .zero false
  | x => x

/-- The rational a finite number stands for. -/
def Decimal.value (d : Decimal) : ℚ := d.digits * 10 ^ d.exponent

/-- The rational a finite number stands for. -/
def Finite.value : Finite → ℚ
  | .zero _ => 0
  | .nonzero negative d => if negative then -d.value else d.value

/-- A decimal stands for a positive number; signs and zero are `Finite`'s. -/
theorem Decimal.value_pos (d : Decimal) : 0 < d.value := by
  have hpos : 0 < d.digits := by
    have := d.normal
    omega
  exact mul_pos (by exact_mod_cast hpos) (zpow_pos (by norm_num) _)

/-- Digits without a trailing zero and their exponent are read off the value. -/
theorem digits_exponent_unique {s t : ℕ} {a b : ℤ}
    (hs : s % 10 ≠ 0) (ht : t % 10 ≠ 0)
    (h : (s : ℚ) * 10 ^ a = t * 10 ^ b) : s = t ∧ a = b := by
  wlog hab : a ≤ b generalizing s t a b
  · exact (this ht hs h.symm (by omega)).imp Eq.symm Eq.symm
  obtain ⟨k, rfl⟩ : ∃ k : ℕ, b = a + k := ⟨(b - a).toNat, by omega⟩
  have hten : (10 : ℚ) ^ a ≠ 0 := zpow_ne_zero _ (by norm_num)
  have hcancel : (s : ℚ) = t * 10 ^ k := by
    rw [zpow_add₀ (by norm_num), zpow_natCast] at h
    refine mul_right_cancel₀ hten ?_
    linarith
  have hnat : s = t * 10 ^ k := by exact_mod_cast hcancel
  cases k with
  | zero => simpa using hnat
  | succ k =>
      rw [pow_succ, ← mul_assoc] at hnat
      omega

/-- Normal decimals are told apart by their value: there is one for each number. -/
theorem Decimal.value_injective : Function.Injective Decimal.value := by
  rintro ⟨s, a, hs⟩ ⟨t, b, ht⟩ h
  obtain ⟨rfl, rfl⟩ := digits_exponent_unique hs ht h
  rfl

/-- Numbers of one value differ in the sign of zero at most. -/
theorem Finite.value_injective {x y : Finite} (h : x.value = y.value) :
    x.unsignZero = y.unsignZero := by
  rcases x with _ | ⟨_ | _, d⟩ <;> rcases y with _ | ⟨_ | _, f⟩ <;>
    simp only [Finite.value, Finite.unsignZero, if_true, Bool.false_eq_true, if_false] at h ⊢
  all_goals first
    | rw [Decimal.value_injective h]
    | rw [Decimal.value_injective (neg_injective h)]
    | (exfalso; have := d.value_pos; have := f.value_pos; linarith)
    | (exfalso; have := d.value_pos; linarith)
    | (exfalso; have := f.value_pos; linarith)

/-- An integer, written as a number, has the value of the integer. -/
theorem Finite.value_ofInt (z : ℤ) : (Finite.ofInt z).value = z := by
  unfold Finite.ofInt
  split
  · have hvalue : (Decimal.ofNat z.natAbs ‹_›).value = (z.natAbs : ℚ) := by
      simpa [Decimal.value, Decimal.ofNat] using stripZeros_value z.natAbs z.natAbs 0
    by_cases hz : z < 0
    · simp only [Finite.value, hz, decide_true, if_true, hvalue]
      rw [Nat.cast_natAbs, abs_of_neg hz]
      push_cast
      ring
    · simp only [Finite.value, hz, decide_false, Bool.false_eq_true, if_false, hvalue]
      rw [Nat.cast_natAbs, abs_of_nonneg (by omega)]
  · have : z = 0 := by omega
    simp [Finite.value, this]

/-- The zero of an integer has no sign to lose, so taking signs off zeros leaves integers
alone. -/
theorem Finite.ofInt_unsignZero (z : ℤ) : (Finite.ofInt z).unsignZero = Finite.ofInt z := by
  unfold Finite.ofInt
  split <;> rfl

theorem Finite.ofInt_injective : Function.Injective Finite.ofInt := by
  intro a b h
  have hvalue := congrArg Finite.value h
  rw [Finite.value_ofInt, Finite.value_ofInt] at hvalue
  exact_mod_cast hvalue

/-- The integer a finite number is, if it is one. -/
def Finite.toInt? : Finite → Option ℤ
  | .zero _ => some 0
  | .nonzero negative d =>
    if 0 ≤ d.exponent then
      let magnitude : ℤ := d.digits * 10 ^ d.exponent.toNat
      some (if negative then -magnitude else magnitude)
    else none

theorem stripZeros_exponent (fuel n : ℕ) (e : ℤ) : e ≤ (stripZeros fuel n e).2 := by
  induction fuel generalizing n e with
  | zero => exact le_rfl
  | succ fuel ih =>
      rw [stripZeros]
      split
      · exact (by omega : e ≤ e + 1).trans (ih _ _)
      · exact le_rfl

/-- A number that is read as an integer has that integer's value. -/
theorem Finite.value_of_toInt? {x : Finite} {z : ℤ} (h : x.toInt? = some z) : x.value = z := by
  rcases x with _ | ⟨negative, d⟩
  · obtain rfl := Option.some.inj h
    simp [Finite.value]
  · rw [Finite.toInt?] at h
    split at h
    · rename_i hexponent
      obtain rfl := Option.some.inj h
      have hpower : (10 : ℚ) ^ d.exponent = 10 ^ d.exponent.toNat := by
        rw [← zpow_natCast, Int.toNat_of_nonneg hexponent]
      cases negative <;> simp [Finite.value, Decimal.value, hpower]
    · cases h

/-- Writing an integer as a number and reading it as an integer again loses nothing. -/
theorem Finite.toInt?_ofInt (z : ℤ) : (Finite.ofInt z).toInt? = some z := by
  have hread : ∃ w, (Finite.ofInt z).toInt? = some w := by
    unfold Finite.ofInt
    split
    · exact ⟨_, if_pos (stripZeros_exponent _ _ _)⟩
    · exact ⟨0, rfl⟩
  obtain ⟨w, hw⟩ := hread
  have hvalue := Finite.value_of_toInt? hw
  rw [Finite.value_ofInt] at hvalue
  rw [hw, Int.cast_inj.mp hvalue]

/-! ## Decimal text -/

/-- The decimal digits of a natural number. -/
def digitText (n : ℕ) : JSString := (Nat.toDigits 10 n).map (fun c => c.toNat.toUInt16)

/-- A run of the digit zero. -/
def zeros (k : ℕ) : JSString := List.replicate k 48

/-- The exponent part of a number too large or too small to write out. -/
def exponentText (e : ℤ) : JSString :=
  101 :: (if e < 0 then 45 else 43) :: digitText e.natAbs

/-- `Number::toString` on a positive magnitude: plain digits up to `10 ^ 21`,
a point among or before the digits down to `10 ^ -6`, an exponent beyond. -/
def Decimal.text (d : Decimal) : JSString :=
  let digits := digitText d.digits
  let k : ℤ := digits.length
  let n := d.exponent + k
  if k ≤ n ∧ n ≤ 21 then digits ++ zeros (n - k).toNat
  else if 0 < n ∧ n ≤ 21 then digits.take n.toNat ++ 46 :: digits.drop n.toNat
  else if -6 < n ∧ n ≤ 0 then 48 :: 46 :: (zeros (-n).toNat ++ digits)
  else if k = 1 then digits ++ exponentText (n - 1)
  else digits.take 1 ++ 46 :: (digits.drop 1 ++ exponentText (n - 1))

/-- `Number::toString` on a finite number. -/
def numberText : Finite → JSString
  | .zero _ => [48]
  | .nonzero negative d => if negative then 45 :: d.text else d.text

example : numberText (Finite.ofInt (-1200)) = str "-1200" := by decide

/-- A code unit that a decimal digit has. -/
def IsDigit (u : UInt16) : Prop := 48 ≤ u.toNat ∧ u.toNat ≤ 57

instance : DecidablePred IsDigit := fun _ => inferInstanceAs (Decidable (_ ∧ _))

/-- A code unit that `numberText` can produce. -/
def IsNumberUnit (u : UInt16) : Prop := IsDigit u ∨ u = 45 ∨ u = 46 ∨ u = 43 ∨ u = 101

instance : DecidablePred IsNumberUnit := fun _ => inferInstanceAs (Decidable (_ ∨ _))

/-- A character of the basic plane is its own code unit, so the two numbers are equal. -/
theorem toNat_charUnit {c : Char} (h : c.toNat < 65536) :
    c.toNat.toUInt16.toNat = c.toNat :=
  UInt16.toNat_ofNat_of_lt' h

/-- The characters of a decimal numeral are the ten digits, by their code points. -/
theorem digitChar_bounds {n : ℕ} {c : Char} (hc : c ∈ Nat.toDigits 10 n) :
    48 ≤ c.toNat ∧ c.toNat ≤ 57 := by
  have hdigit := Nat.isDigit_of_mem_toDigits (by norm_num) (by norm_num) hc
  simp only [Char.isDigit, Bool.and_eq_true, decide_eq_true_eq] at hdigit
  exact ⟨UInt32.le_iff_toNat_le.mp hdigit.1, UInt32.le_iff_toNat_le.mp hdigit.2⟩

theorem isDigit_of_mem_digitText {n : ℕ} {u : UInt16} (h : u ∈ digitText n) : IsDigit u := by
  obtain ⟨c, hc, rfl⟩ := List.mem_map.mp h
  have hbounds := digitChar_bounds hc
  rwa [IsDigit, toNat_charUnit (by omega)]

theorem isDigit_of_mem_zeros {k : ℕ} {u : UInt16} (h : u ∈ zeros k) : IsDigit u := by
  rw [List.eq_of_mem_replicate h]
  decide

/-- A digit is not the decimal point, so the reader does not stop inside an
integer. -/
theorem IsDigit.ne_point {u : UInt16} (h : IsDigit u) : u ≠ 46 := by
  rintro rfl
  exact absurd h (by decide)

/-- A digit is not the exponent mark, so a mantissa ends where it should. -/
theorem IsDigit.ne_exponent {u : UInt16} (h : IsDigit u) : u ≠ 101 := by
  rintro rfl
  exact absurd h (by decide)

/-- A digit is not the minus sign, so an unsigned text is read as one. -/
theorem IsDigit.ne_minus {u : UInt16} (h : IsDigit u) : u ≠ 45 := by
  rintro rfl
  exact absurd h (by decide)

theorem digitText_ne_nil (n : ℕ) : digitText n ≠ [] := by
  simp [digitText, Nat.toDigits_ne_nil]

/-! ## Reading the text back -/

/-- The number a run of digits writes. -/
def readDigits (t : JSString) : ℕ := t.foldl (fun sofar u => 10 * sofar + (u.toNat - 48)) 0

/-- Digits with at most one point among them. -/
def readMantissa (t : JSString) : ℚ :=
  readDigits (t.filter (· ≠ 46)) / 10 ^ ((t.dropWhile (· ≠ 46)).length - 1)

/-- An exponent part, or nothing. -/
def readExponent : JSString → ℤ
  | _ :: sign :: ds => if sign = 45 then -readDigits ds else readDigits ds
  | _ => 0

/-- The magnitude a text writes. -/
def readMagnitude (t : JSString) : ℚ :=
  readMantissa (t.takeWhile (· ≠ 101)) * 10 ^ readExponent (t.dropWhile (· ≠ 101))

/-- Reading on from a number read so far shifts it by the digits to come. -/
theorem readDigits_foldl (t : JSString) (a : ℕ) :
    t.foldl (fun sofar u => 10 * sofar + (u.toNat - 48)) a = a * 10 ^ t.length + readDigits t := by
  induction t generalizing a with
  | nil => simp [readDigits]
  | cons u t ih =>
      have hread : readDigits (u :: t) = (10 * 0 + (u.toNat - 48)) * 10 ^ t.length + readDigits t :=
        ih _
      rw [List.foldl_cons, ih, hread]
      simp only [List.length_cons, pow_succ]
      ring

/-- Reading two runs of digits in a row shifts the first by the length of the second. -/
theorem readDigits_append (s t : JSString) :
    readDigits (s ++ t) = readDigits s * 10 ^ t.length + readDigits t := by
  rw [readDigits, List.foldl_append, readDigits_foldl]
  rfl

theorem readDigits_zeros (k : ℕ) : readDigits (zeros k) = 0 := by
  induction k with
  | zero => rfl
  | succ k ih =>
      rw [zeros, List.replicate_succ', readDigits_append]
      simpa [zeros, readDigits] using ih

/-- The decimal numeral of a natural number is read back to that number. -/
theorem readDigits_digitText (n : ℕ) : readDigits (digitText n) = n := by
  have hfold : ∀ (cs : List Char) (a : ℕ), (∀ c ∈ cs, c.toNat < 65536) →
      (cs.map (fun c => c.toNat.toUInt16)).foldl
        (fun sofar u => 10 * sofar + (u.toNat - 48)) a = Nat.ofDigitChars 10 cs a := by
    intro cs
    induction cs with
    | nil => intros; rfl
    | cons c cs ih =>
        intro a hcs
        simp only [List.map_cons, List.foldl_cons, toNat_charUnit (hcs c List.mem_cons_self)]
        rw [ih _ (fun d hd => hcs d (List.mem_cons_of_mem _ hd))]
        rfl
  rw [readDigits, digitText, hfold, Nat.ofDigitChars_ten_toDigits]
  intro c hc
  have := digitChar_bounds hc
  omega

/-- A run of digits holds neither a point nor an exponent mark. -/
def AllDigits (t : JSString) : Prop := ∀ u ∈ t, IsDigit u

/-- A numeral is all digits, as the reader of an integer asks. -/
theorem allDigits_digitText (n : ℕ) : AllDigits (digitText n) :=
  fun _ => isDigit_of_mem_digitText

theorem allDigits_zeros (k : ℕ) : AllDigits (zeros k) :=
  fun _ => isDigit_of_mem_zeros

theorem AllDigits.append {s t : JSString} (hs : AllDigits s) (ht : AllDigits t) :
    AllDigits (s ++ t) := by
  intro u hu
  exact (List.mem_append.mp hu).elim (hs u) (ht u)

theorem AllDigits.take {t : JSString} (ht : AllDigits t) (k : ℕ) : AllDigits (t.take k) :=
  fun u hu => ht u (List.mem_of_mem_take hu)

theorem AllDigits.drop {t : JSString} (ht : AllDigits t) (k : ℕ) : AllDigits (t.drop k) :=
  fun u hu => ht u (List.mem_of_mem_drop hu)

/-- A mantissa of digits alone, without a point, is read as the integer they spell. -/
theorem readMantissa_digits {t : JSString} (ht : AllDigits t) :
    readMantissa t = readDigits t := by
  have hfilter : t.filter (· ≠ 46) = t :=
    List.filter_eq_self.mpr (fun u hu => by simpa using (ht u hu).ne_point)
  have hdrop : t.dropWhile (· ≠ 46) = [] :=
    List.dropWhile_eq_nil_iff.mpr (fun u hu => by simpa using (ht u hu).ne_point)
  rw [readMantissa, hfilter, hdrop]
  simp

/-- A mantissa with a point is divided by as many tens as digits follow it. -/
theorem readMantissa_point {s t : JSString} (hs : AllDigits s) (ht : AllDigits t) :
    readMantissa (s ++ 46 :: t) = readDigits (s ++ t) / 10 ^ t.length := by
  have hself : ∀ {r : JSString}, AllDigits r → r.filter (· ≠ 46) = r := fun hr =>
    List.filter_eq_self.mpr (fun u hu => by simpa using (hr u hu).ne_point)
  have hdrop : (s ++ 46 :: t).dropWhile (· ≠ 46) = 46 :: t := by
    rw [List.dropWhile_append_of_pos (fun u hu => by simpa using (hs u hu).ne_point)]
    simp
  have hfilter : (s ++ 46 :: t).filter (· ≠ 46) = s ++ t := by
    rw [List.filter_append, hself hs, List.filter_cons_of_neg (by simp), hself ht]
  rw [readMantissa, hfilter, hdrop]
  simp

theorem readMagnitude_plain {m : JSString} (hm : ∀ u ∈ m, u ≠ 101) :
    readMagnitude m = readMantissa m := by
  have htake : m.takeWhile (· ≠ 101) = m :=
    List.takeWhile_eq_self_iff.mpr (fun u hu => by simpa using hm u hu)
  have hdrop : m.dropWhile (· ≠ 101) = [] :=
    List.dropWhile_eq_nil_iff.mpr (fun u hu => by simpa using hm u hu)
  rw [readMagnitude, htake, hdrop]
  simp [readExponent]

/-- The exponent that is written behind a number is the one that is read back. -/
theorem readExponent_exponentText (e : ℤ) : readExponent (exponentText e) = e := by
  by_cases he : e < 0
  · simp only [exponentText, readExponent, if_pos he, if_true, readDigits_digitText]
    omega
  · simp only [exponentText, readExponent, if_neg he, readDigits_digitText]
    rw [if_neg (by decide)]
    omega

/-- A mantissa without an exponent mark, followed by an exponent part, is scaled by that
power of ten. -/
theorem readMagnitude_exponent {m : JSString} (hm : ∀ u ∈ m, u ≠ 101) (e : ℤ) :
    readMagnitude (m ++ exponentText e) = readMantissa m * 10 ^ e := by
  have hmark : exponentText e = 101 :: (exponentText e).tail := rfl
  have htake : (m ++ exponentText e).takeWhile (· ≠ 101) = m := by
    rw [List.takeWhile_append_of_pos (fun u hu => by simpa using hm u hu), hmark]
    simp
  have hdrop : (m ++ exponentText e).dropWhile (· ≠ 101) = exponentText e := by
    rw [List.dropWhile_append_of_pos (fun u hu => by simpa using hm u hu), hmark]
    simp
  rw [readMagnitude, htake, hdrop, readExponent_exponentText]

theorem AllDigits.ne_mark {t : JSString} (ht : AllDigits t) : ∀ u ∈ t, u ≠ 101 :=
  fun u hu => (ht u hu).ne_exponent

/-- Digits around a point hold no exponent mark, so the mark is looked for behind them. -/
theorem AllDigits.point_ne_mark {s t : JSString} (hs : AllDigits s) (ht : AllDigits t) :
    ∀ u ∈ s ++ 46 :: t, u ≠ 101 := by
  intro u hu
  rcases List.mem_append.mp hu with h | h
  · exact hs.ne_mark u h
  · rcases List.mem_cons.mp h with rfl | h
    · decide
    · exact ht.ne_mark u h

/-- Reading back the text of a magnitude, in whichever notation it was written, gives its
value. -/
theorem readMagnitude_text (d : Decimal) : readMagnitude d.text = d.value := by
  have hD := allDigits_digitText d.digits
  have hread := readDigits_digitText d.digits
  have hlen : 0 < (digitText d.digits).length :=
    List.length_pos_iff.mpr (digitText_ne_nil _)
  generalize hdigits : digitText d.digits = D at hD hread hlen
  have hten : (10 : ℚ) ≠ 0 := by norm_num
  unfold Decimal.text Decimal.value
  simp only [hdigits]
  split_ifs with hA hB hC hk
  · -- all digits stand before the point
    have hall := hD.append (allDigits_zeros (d.exponent + D.length - D.length).toNat)
    obtain ⟨j, hj⟩ : ∃ j : ℕ, d.exponent = j := ⟨d.exponent.toNat, by omega⟩
    rw [readMagnitude_plain hall.ne_mark, readMantissa_digits hall, readDigits_append,
      readDigits_zeros, hread, hj]
    simp [zeros]
  · -- the point falls among the digits
    have htake := hD.take (d.exponent + D.length).toNat
    have hdrop := hD.drop (d.exponent + D.length).toNat
    rw [readMagnitude_plain (htake.point_ne_mark hdrop), readMantissa_point htake hdrop,
      List.take_append_drop, hread, List.length_drop]
    obtain ⟨j, hj⟩ : ∃ j : ℕ, d.exponent = -j := ⟨(-d.exponent).toNat, by omega⟩
    have : D.length - (d.exponent + D.length).toNat = j := by omega
    rw [this, hj, zpow_neg, zpow_natCast, div_eq_mul_inv]
  · -- the point falls before the digits
    have hzero : AllDigits [48] := by simp [AllDigits, IsDigit]
    have htail := (allDigits_zeros (-(d.exponent + D.length)).toNat).append hD
    rw [show (48 :: 46 :: (zeros (-(d.exponent + D.length)).toNat ++ D) : JSString) =
        [48] ++ 46 :: (zeros (-(d.exponent + D.length)).toNat ++ D) from rfl,
      readMagnitude_plain (hzero.point_ne_mark htail), readMantissa_point hzero htail,
      readDigits_append, readDigits_append, readDigits_zeros, hread]
    obtain ⟨j, hj⟩ : ∃ j : ℕ, d.exponent = -j := ⟨(-d.exponent).toNat, by omega⟩
    have hcount : (zeros (-(d.exponent + D.length)).toNat ++ D).length = j := by
      simp [zeros]
      omega
    rw [hcount, hj, zpow_neg, zpow_natCast, div_eq_mul_inv]
    simp [readDigits]
  · -- one digit and an exponent
    rw [readMagnitude_exponent hD.ne_mark, readMantissa_digits hD, hread]
    congr 2
    omega
  · -- a point after the first digit, and an exponent
    rw [← List.cons_append, ← List.append_assoc,
      readMagnitude_exponent ((hD.take 1).point_ne_mark (hD.drop 1)),
      readMantissa_point (hD.take 1) (hD.drop 1), List.take_append_drop, hread,
      List.length_drop, div_mul_eq_mul_div, mul_div_assoc, ← zpow_natCast, ← zpow_sub₀ hten]
    congr 2
    omega

/-! ## Injectivity -/

/-- A number's text, sign included. -/
def readNumber : JSString → ℚ
  | [] => 0
  | u :: t => if u = 45 then -readMagnitude t else readMagnitude (u :: t)

/-- The text of a magnitude starts with a digit, so no sign and no quote is mistaken for it.
-/
theorem Decimal.text_head (d : Decimal) : ∃ u t, d.text = u :: t ∧ IsDigit u := by
  obtain ⟨u, t, hD⟩ := List.exists_cons_of_ne_nil (digitText_ne_nil d.digits)
  have hu : IsDigit u := allDigits_digitText d.digits u (by simp [hD])
  unfold Decimal.text
  simp only [hD]
  split_ifs with hA hB hC hk
  · exact ⟨u, _, rfl, hu⟩
  · obtain ⟨j, hj⟩ : ∃ j : ℕ, (d.exponent + ((u :: t).length : ℤ)).toNat = j + 1 :=
      ⟨(d.exponent + ((u :: t).length : ℤ)).toNat - 1, by omega⟩
    rw [hj]
    exact ⟨u, _, rfl, hu⟩
  · exact ⟨48, _, rfl, by decide⟩
  · exact ⟨u, _, rfl, hu⟩
  · exact ⟨u, _, rfl, hu⟩

/-- What `String(x)` writes, a reader takes back to the value of `x`. -/
theorem readNumber_numberText (x : Finite) : readNumber (numberText x) = x.value := by
  rcases x with _ | ⟨_ | _, d⟩
  · simp [numberText, readNumber, readMagnitude, readMantissa, readExponent, readDigits,
      Finite.value]
  · obtain ⟨u, t, htext, hu⟩ := d.text_head
    have h := readMagnitude_text d
    rw [htext] at h
    simpa [numberText, Finite.value, htext, readNumber, hu.ne_minus] using h
  · simpa [numberText, readNumber, Finite.value] using readMagnitude_text d

/-- **Number text.**  Two finite numbers written alike are the same number, up
to the sign of zero. -/
theorem numberText_injective {x y : Finite} (h : numberText x = numberText y) :
    x.unsignZero = y.unsignZero := by
  apply Finite.value_injective
  rw [← readNumber_numberText, h, readNumber_numberText]

/-- The text of a number is the same once a zero has lost its sign. -/
theorem numberText_unsignZero (x : Finite) : numberText x.unsignZero = numberText x := by
  cases x <;> rfl

/-- An exponent is written in units that only numbers are written in. -/
theorem exponentText_units (e : ℤ) : ∀ u ∈ exponentText e, IsNumberUnit u := by
  intro u hu
  simp only [exponentText, List.mem_cons] at hu
  rcases hu with rfl | rfl | hu
  · decide
  · split <;> decide
  · exact .inl (isDigit_of_mem_digitText hu)

/-- A decimal is written in units that only numbers are written in. -/
theorem Decimal.text_units (d : Decimal) : ∀ u ∈ d.text, IsNumberUnit u := by
  have hD := allDigits_digitText d.digits
  have hpoint : IsNumberUnit 46 := by decide
  unfold Decimal.text
  intro u hu
  simp only at hu
  split_ifs at hu
  · exact .inl (hD.append (allDigits_zeros _) u hu)
  · simp only [List.mem_append, List.mem_cons] at hu
    rcases hu with hu | rfl | hu
    · exact .inl (hD.take _ u hu)
    · exact hpoint
    · exact .inl (hD.drop _ u hu)
  · simp only [List.mem_append, List.mem_cons] at hu
    rcases hu with rfl | rfl | hu | hu
    · decide
    · exact hpoint
    · exact .inl (isDigit_of_mem_zeros hu)
    · exact .inl (hD u hu)
  · rcases List.mem_append.mp hu with hu | hu
    · exact .inl (hD u hu)
    · exact exponentText_units _ u hu
  · simp only [List.mem_append, List.mem_cons] at hu
    rcases hu with hu | rfl | hu | hu
    · exact .inl (hD.take _ u hu)
    · exact hpoint
    · exact .inl (hD.drop _ u hu)
    · exact exponentText_units _ u hu

/-- A number's text holds no quote, bracket, comma or blank to confuse a reader. -/
theorem numberText_units (x : Finite) : ∀ u ∈ numberText x, IsNumberUnit u := by
  rcases x with _ | ⟨_ | _, d⟩
  · intro u hu
    rw [List.mem_singleton.mp hu]
    decide
  · simpa [numberText] using d.text_units
  · intro u hu
    simp only [numberText, if_true, List.mem_cons] at hu
    rcases hu with rfl | hu
    · decide
    · exact d.text_units u hu

/-- A number's text is not empty, and starts with a digit or with a minus sign. -/
theorem numberText_head (x : Finite) :
    ∃ u t, numberText x = u :: t ∧ (IsDigit u ∨ u = 45) := by
  rcases x with _ | ⟨_ | _, d⟩
  · exact ⟨48, [], rfl, by decide⟩
  · obtain ⟨u, t, htext, hu⟩ := d.text_head
    exact ⟨u, t, htext, .inl hu⟩
  · exact ⟨45, d.text, rfl, .inr rfl⟩

end Js

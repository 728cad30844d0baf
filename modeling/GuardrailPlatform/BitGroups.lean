import Mathlib.Algebra.Ring.Nat
import Mathlib.Tactic.Common

/-!
# Strings of bits, read in groups

A list of numbers spells a string of bits, each number a group of the same
width.  Reading a string in groups of another width and dropping what is left
over gives numbers that spell the same string, up to its end.

An accumulator of `N` bits holds the bits that have not been read yet in its
lowest places.  What stands above them does not matter, so nothing is lost when
it overflows: it is enough that the pending bits fit (`Holds.push`).
-/

namespace BitGroups

/-! ## Spelling -/

/-- The lowest `w` bits of a number, the highest first. -/
def bits : ℕ → ℕ → List Bool
  | 0, _ => []
  | w + 1, n => n.testBit w :: bits w n

/-- The bits of several numbers. -/
def spell (w : ℕ) (ns : List ℕ) : List Bool := ns.flatMap (bits w)

/-- A group of a given width has as many bits, leading zeros included. -/
@[simp] theorem length_bits (w n : ℕ) : (bits w n).length = w := by
  induction w with
  | zero => rfl
  | succ w ih => rw [bits, List.length_cons, ih]

/-- Groups spelled in a row have as many bits as there are groups, times their width. -/
theorem length_spell (w : ℕ) (ns : List ℕ) : (spell w ns).length = ns.length * w := by
  induction ns with
  | nil => simp [spell]
  | cons n ns ih =>
      rw [spell, List.flatMap_cons, List.length_append, length_bits, List.length_cons]
      rw [spell] at ih
      rw [ih, Nat.succ_mul, Nat.add_comm]

/-- Spelling two lists of groups in a row spells the first of them and then the second. -/
theorem spell_append (w : ℕ) (ms ns : List ℕ) : spell w (ms ++ ns) = spell w ms ++ spell w ns :=
  List.flatMap_append

theorem spell_cons (w n : ℕ) (ns : List ℕ) : spell w (n :: ns) = bits w n ++ spell w ns :=
  List.flatMap_cons

/-- The bits of a group are those of the number, from the highest of its places down. -/
theorem bits_eq_map (w n : ℕ) : bits w n = (List.range w).map fun i => n.testBit (w - 1 - i) := by
  induction w with
  | zero => rfl
  | succ w ih =>
      rw [bits, ih, List.range_succ_eq_map, List.map_cons, List.map_map]
      congr 1
      apply List.map_congr_left
      intro i _
      rw [Function.comp_apply, Nat.add_sub_cancel, Nat.succ_eq_add_one, Nat.sub_sub, Nat.add_comm 1]

/-- A group of bits is decided by the bits below its width. -/
theorem bits_congr {w m n : ℕ} (h : ∀ i < w, m.testBit i = n.testBit i) : bits w m = bits w n := by
  induction w with
  | zero => rfl
  | succ w ih => rw [bits, bits, h w w.lt_succ_self, ih fun i hi => h i (by omega)]

/-- Two numbers with the same group of a width have the same bits below it. -/
theorem testBit_of_bits_eq {w m n : ℕ} (h : bits w m = bits w n) :
    ∀ i < w, m.testBit i = n.testBit i := by
  induction w with
  | zero =>
      intro i hi
      omega
  | succ w ih =>
      rw [bits, bits, List.cons.injEq] at h
      intro i hi
      by_cases hlast : i = w
      · rw [hlast]
        exact h.1
      · exact ih h.2 i (by omega)

/-- Numbers that fit a width are told apart by their groups of that width. -/
theorem eq_of_bits_eq {w m n : ℕ} (h : bits w m = bits w n) (hm : m < 2 ^ w) (hn : n < 2 ^ w) :
    m = n := by
  apply Nat.eq_of_testBit_eq
  intro i
  by_cases hi : i < w
  · exact testBit_of_bits_eq h i hi
  · have hpow : 2 ^ w ≤ 2 ^ i := Nat.pow_le_pow_right (by decide) (by omega)
    rw [Nat.testBit_lt_two_pow (by omega), Nat.testBit_lt_two_pow (by omega)]

theorem bits_add (m w n : ℕ) : bits (m + w) n = bits m (n >>> w) ++ bits w n := by
  induction m with
  | zero => rw [Nat.zero_add, bits, List.nil_append]
  | succ m ih =>
      have hbit : (n >>> w).testBit m = n.testBit (m + w) := by
        rw [Nat.testBit_shiftRight, Nat.add_comm]
      rw [Nat.succ_add, bits, ih, bits, hbit, List.cons_append]

theorem bits_zero (w : ℕ) : bits w 0 = List.replicate w false := by
  induction w with
  | zero => rfl
  | succ w ih => rw [bits, ih, Nat.zero_testBit, List.replicate_succ]

theorem bits_mod (w n : ℕ) : bits w (n % 2 ^ w) = bits w n := by
  apply bits_congr
  intro i hi
  rw [Nat.testBit_mod_two_pow, decide_eq_true hi, Bool.true_and]

/-- **Reading is unique.**  Numbers that spell the same string, but for less than
one group at its end, are the same numbers. -/
theorem spell_append_inj {w : ℕ} {ms ns : List ℕ} {s t : List Bool}
    (hms : ∀ m ∈ ms, m < 2 ^ w) (hns : ∀ n ∈ ns, n < 2 ^ w) (hs : s.length < w) (ht : t.length < w)
    (h : spell w ms ++ s = spell w ns ++ t) : ms = ns ∧ s = t := by
  have hlength := congrArg List.length h
  rw [List.length_append, List.length_append] at hlength
  induction ms generalizing ns with
  | nil =>
      cases ns with
      | nil => exact ⟨rfl, h⟩
      | cons n ns =>
          rw [spell_cons, List.length_append, length_bits] at hlength
          simp only [spell, List.flatMap_nil, List.length_nil] at hlength
          omega
  | cons m ms ih =>
      cases ns with
      | nil =>
          rw [spell_cons, List.length_append, length_bits] at hlength
          simp only [spell, List.flatMap_nil, List.length_nil] at hlength
          omega
      | cons n ns =>
          rw [spell_cons, spell_cons, List.append_assoc, List.append_assoc] at h
          obtain ⟨hfirst, hrest⟩ := List.append_inj h (by rw [length_bits, length_bits])
          obtain ⟨rfl, rfl⟩ := ih (fun k hk => hms k (List.mem_cons_of_mem _ hk))
            (fun k hk => hns k (List.mem_cons_of_mem _ hk)) hrest
            (by simpa using congrArg List.length hrest)
          obtain rfl := eq_of_bits_eq hfirst (hms m List.mem_cons_self) (hns n List.mem_cons_self)
          exact ⟨rfl, rfl⟩

/-- Groups of one width can be read off their bits: equal spellings come from equal groups.
-/
theorem spell_inj {w : ℕ} (hw : 0 < w) {ms ns : List ℕ} (hms : ∀ m ∈ ms, m < 2 ^ w)
    (hns : ∀ n ∈ ns, n < 2 ^ w) (h : spell w ms = spell w ns) : ms = ns :=
  (@spell_append_inj w ms ns [] [] hms hns hw hw (by rw [h])).1

/-! ## Accumulators -/

variable {N : ℕ}

/-- The pending bits stand in the lowest places. -/
def Holds (acc : BitVec N) (pending : List Bool) : Prop := bits pending.length acc.toNat = pending

theorem holds_nil (acc : BitVec N) : Holds acc [] := rfl

/-- Shifting the next group in puts its bits behind the pending ones, while the register has
room for both. -/
theorem Holds.push {acc x : BitVec N} {pending : List Bool} {w : ℕ} (h : Holds acc pending)
    (hroom : pending.length + w ≤ N) (hx : x.toNat < 2 ^ w) :
    Holds ((acc <<< w) ||| x) (pending ++ bits w x.toNat) := by
  have hupper : bits pending.length (((acc <<< w) ||| x).toNat >>> w) =
      bits pending.length acc.toNat := by
    apply bits_congr
    intro i hi
    have hhigh : x.getLsbD (w + i) = false := by
      rw [← BitVec.testBit_toNat]
      apply Nat.testBit_lt_two_pow
      exact Nat.lt_of_lt_of_le hx (Nat.pow_le_pow_right (by decide) (by omega))
    have hin : w + i < N := by omega
    have hfar : ¬ w + i < w := by omega
    rw [Nat.testBit_shiftRight, BitVec.testBit_toNat, BitVec.testBit_toNat, BitVec.getLsbD_or,
      BitVec.getLsbD_shiftLeft, hhigh, Bool.or_false, Nat.add_sub_cancel_left]
    simp only [hin, hfar, decide_true, decide_false, Bool.not_false, Bool.true_and]
  have hlower : bits w ((acc <<< w) ||| x).toNat = bits w x.toNat := by
    apply bits_congr
    intro i hi
    rw [BitVec.testBit_toNat, BitVec.testBit_toNat, BitVec.getLsbD_or, BitVec.getLsbD_shiftLeft]
    simp [hi]
  rw [Holds, List.length_append, length_bits, bits_add, hupper, hlower, h]

/-- The first of the pending bits are read off, and the others stay. -/
theorem Holds.pop {acc : BitVec N} {first rest : List Bool} (h : Holds acc (first ++ rest)) :
    bits first.length (acc >>> rest.length).toNat = first ∧ Holds acc rest := by
  rw [Holds, List.length_append, bits_add] at h
  obtain ⟨hfirst, hrest⟩ := List.append_inj h (length_bits _ _)
  rw [BitVec.toNat_ushiftRight]
  exact ⟨hfirst, hrest⟩

/-- Shifting in nothing puts zeros behind the pending bits, as the last group of an encoding
needs. -/
theorem Holds.pad {acc : BitVec N} {pending : List Bool} (h : Holds acc pending) {z : ℕ}
    (hroom : pending.length + z ≤ N) :
    Holds (acc <<< z) (pending ++ List.replicate z false) := by
  have hpush := h.push hroom (show (0#N).toNat < 2 ^ z by rw [BitVec.toNat_zero]; exact Nat.two_pow_pos z)
  rwa [BitVec.or_zero, BitVec.toNat_ofNat, Nat.zero_mod, bits_zero] at hpush

end BitGroups

import Mathlib.Logic.Function.Iterate
import Mathlib.Tactic.Common

/-!
# Cyclic redundancy checks

Bits are divided by a polynomial of degree `w` over the field of two elements:
the next bit of the dividend comes into a register of `w` bits at its lower end,
and what leaves at the upper end takes the polynomial away.  The checksum of a
message is what the register holds when the message and `w` zeros have passed.

A register may also be fed at its upper end, without the zeros
(`checksum_eq_feeds`), and several bits at a time from a table
(`feeds_bitsOf_eq_table`).  Both rest on the shift being linear in exclusive or.
-/

namespace Crc

variable {w : ℕ} (poly : BitVec w)

/-! ## Division -/

/-- The register moves up one place. -/
def shift (r : BitVec w) : BitVec w := (r <<< 1) ^^^ if r.msb then poly else 0#w

def shifts (n : ℕ) : BitVec w → BitVec w := (shift poly)^[n]

/-- A bit in the lowest place. -/
def bottom (b : Bool) : BitVec w := if b then 1#w else 0#w

/-- A bit in the highest place. -/
def top (b : Bool) : BitVec w := bottom b <<< (w - 1)

/-- The next bit of the dividend comes in at the lower end. -/
def divideBit (r : BitVec w) (b : Bool) : BitVec w := shift poly r ^^^ bottom b

def divide (r : BitVec w) (bits : List Bool) : BitVec w := bits.foldl (divideBit poly) r

/-- The checksum of a message: the remainder of the message and `w` zeros. -/
def checksum (message : List Bool) : BitVec w :=
  divide poly 0#w (message ++ List.replicate w false)

/-- The next bit comes in at the upper end. -/
def feed (r : BitVec w) (b : Bool) : BitVec w := shift poly (r ^^^ top b)

def feeds (r : BitVec w) (bits : List Bool) : BitVec w := bits.foldl (feed poly) r

/-! ## Shifting -/

variable {poly}

/-- No shift at all leaves the register as it was. -/
@[simp] theorem shifts_zero (r : BitVec w) : shifts poly 0 r = r := rfl

/-- The last of several shifts may be taken off, which is how the step of an induction uses
them. -/
theorem shifts_succ (n : ℕ) (r : BitVec w) : shifts poly (n + 1) r = shift poly (shifts poly n r) :=
  Function.iterate_succ_apply' _ n r

/-- The first of several shifts may be taken off, and done to the register beforehand. -/
theorem shifts_succ_shift (n : ℕ) (r : BitVec w) :
    shifts poly (n + 1) r = shifts poly n (shift poly r) :=
  Function.iterate_succ_apply _ n r

/-- A shift is linear: it takes apart what an exclusive or has put together. -/
theorem shift_xor (a b : BitVec w) : shift poly (a ^^^ b) = shift poly a ^^^ shift poly b := by
  have hout : (if (a ^^^ b).msb then poly else 0#w) =
      (if a.msb then poly else 0#w) ^^^ if b.msb then poly else 0#w := by
    rw [BitVec.msb_xor]
    cases a.msb <;> cases b.msb <;> simp
  rw [shift, shift, shift, hout, BitVec.shiftLeft_xor_distrib]
  ac_rfl

theorem shifts_xor (n : ℕ) (a b : BitVec w) :
    shifts poly n (a ^^^ b) = shifts poly n a ^^^ shifts poly n b := by
  induction n with
  | zero => rfl
  | succ n ih => rw [shifts_succ, ih, shift_xor, ← shifts_succ, ← shifts_succ]

/-- While nothing but zeros leaves the register, its shifts are plain shifts to the left. -/
theorem shifts_of_low {r : BitVec w} {n : ℕ} (h : ∀ i < n, r.getMsbD i = false) :
    shifts poly n r = r <<< n := by
  induction n with
  | zero => simp
  | succ n ih =>
      have hout : (r <<< n).msb = false := by
        rw [BitVec.msb_shiftLeft]
        exact h n n.lt_succ_self
      rw [shifts_succ, ih fun i hi => h i (by omega), shift, hout, if_neg Bool.false_ne_true,
        BitVec.xor_zero, ← BitVec.shiftLeft_add]

/-- A register with one bit at the top has it there and nowhere else. -/
theorem getMsbD_top (b : Bool) {i : ℕ} (hi : i < w) :
    (top b : BitVec w).getMsbD i = (decide (i = 0) && b) := by
  rw [top, BitVec.getMsbD_shiftLeft]
  cases b with
  | false => simp [bottom]
  | true =>
      simp only [bottom, if_true, BitVec.getMsbD_one, Bool.and_true]
      by_cases hzero : i = 0
      · subst hzero
        simp only [Nat.zero_add, decide_true, Bool.true_and, decide_eq_true_eq]
        exact hi
      · simp [hzero]

theorem top_shiftLeft (b : Bool) : (top b : BitVec w) <<< 1 = 0#w := by
  apply BitVec.eq_of_getMsbD_eq
  intro i hi
  rw [BitVec.getMsbD_shiftLeft, BitVec.getMsbD_zero]
  by_cases hnext : i + 1 < w
  · rw [getMsbD_top b hnext]
    simp
  · exact BitVec.getMsbD_of_ge _ _ (by omega)

/-- A register with one bit at the top has that bit as its leading one. -/
theorem msb_top (hw : 0 < w) (b : Bool) : (top b : BitVec w).msb = b := by
  rw [BitVec.msb_eq_getMsbD_zero, getMsbD_top b hw]
  simp

/-- Of what is added, the highest place is fed and the rest moves up. -/
theorem shift_xor_eq (hw : 0 < w) (r y : BitVec w) :
    shift poly (r ^^^ y) = feed poly r y.msb ^^^ (y <<< 1) := by
  have hfed : shift poly (top y.msb) = shift poly y ^^^ (y <<< 1) := by
    rw [shift, shift, msb_top hw, top_shiftLeft, BitVec.xor_comm (y <<< 1), BitVec.xor_assoc,
      BitVec.xor_self, BitVec.xor_zero, BitVec.zero_xor]
  rw [feed, shift_xor, shift_xor, hfed, BitVec.xor_assoc, BitVec.xor_assoc, BitVec.xor_self,
    BitVec.xor_zero]

/-! ## Two ways in -/

/-- Feeding a bit to a shifted register is dividing by that bit first. -/
theorem feed_shifts (hw : 0 < w) (r : BitVec w) (b : Bool) :
    feed poly (shifts poly w r) b = shifts poly w (divideBit poly r b) := by
  have hbottom : shifts poly w (bottom b : BitVec w) = shift poly (top b) := by
    obtain ⟨n, rfl⟩ : ∃ n, w = n + 1 := ⟨w - 1, by omega⟩
    rw [shifts_succ, top, shifts_of_low]
    · rfl
    · intro i hi
      cases b with
      | false => simp [bottom]
      | true =>
          simp only [bottom, if_true, BitVec.getMsbD_one, Nat.add_sub_cancel]
          have hbelow : i ≠ n := by omega
          simp [hbelow]
  rw [feed, divideBit, shift_xor, shifts_xor, hbottom, ← shifts_succ, ← shifts_succ_shift]

/-- Feeding a message to a register that was shifted through is dividing the message first
and shifting after. -/
theorem feeds_shifts (hw : 0 < w) (r : BitVec w) (bits : List Bool) :
    feeds poly (shifts poly w r) bits = shifts poly w (divide poly r bits) := by
  induction bits generalizing r with
  | nil => rfl
  | cons b bits ih =>
      rw [feeds, List.foldl_cons, feed_shifts hw]
      exact ih _

theorem shifts_zero_register (n : ℕ) : shifts poly n 0#w = 0#w := by
  rw [shifts_of_low fun i _ => BitVec.getMsbD_zero, BitVec.zero_shiftLeft]

theorem divide_zeros (n : ℕ) (r : BitVec w) :
    divide poly r (List.replicate n false) = shifts poly n r := by
  induction n generalizing r with
  | zero => rfl
  | succ n ih =>
      have hstep : divideBit poly r false = shift poly r := BitVec.xor_zero
      rw [List.replicate_succ, divide, List.foldl_cons, hstep, shifts_succ_shift]
      exact ih _

/-- **Without the zeros.**  Feeding the message at the upper end gives its checksum. -/
theorem checksum_eq_feeds (hw : 0 < w) (message : List Bool) :
    checksum poly message = feeds poly 0#w message := by
  rw [checksum, divide, List.foldl_append]
  change divide poly (divide poly 0#w message) (List.replicate w false) = _
  rw [divide_zeros, ← feeds_shifts hw, shifts_zero_register]

/-! ## Several bits at a time -/

/-- The bits of a word, the highest first. -/
def bitsOf {k : ℕ} (x : BitVec k) : List Bool := (List.range k).map x.getMsbD

/-- A word in the highest places of a register. -/
def topWord {k : ℕ} (x : BitVec k) : BitVec w := x.setWidth w <<< (w - k)

/-- What a word in the highest places becomes when it has left. -/
def table (poly : BitVec w) {k : ℕ} (x : BitVec k) : BitVec w := shifts poly k (topWord x)

/-- The highest places of a register. -/
def upper (k : ℕ) (r : BitVec w) : BitVec k := (r >>> (w - k)).setWidth k

/-- A word at the top of a register is read off from the top. -/
theorem getMsbD_topWord {k : ℕ} (hk : k ≤ w) (x : BitVec k) (i : ℕ) :
    (topWord x : BitVec w).getMsbD i = x.getMsbD i := by
  have hfar : w - k ≤ i + (w - k) := by omega
  have hback : i + (w - k) + k - w = i := by omega
  rw [topWord, BitVec.getMsbD_shiftLeft, BitVec.getMsbD_setWidth, hback]
  simp [hfar]

/-- Shifting a register that holds message bits feeds them and moves up the
rest. -/
theorem shifts_xor_eq (hw : 0 < w) (r y : BitVec w) (n : ℕ) :
    shifts poly n (r ^^^ y) = feeds poly r ((List.range n).map y.getMsbD) ^^^ (y <<< n) := by
  induction n with
  | zero => simp [feeds]
  | succ n ih =>
      rw [shifts_succ, ih, shift_xor_eq hw, BitVec.msb_shiftLeft, ← BitVec.shiftLeft_add,
        List.range_succ, List.map_append, feeds, feeds, List.foldl_append]
      rfl

/-- Feeding a word is adding it at the top and shifting it out. -/
theorem feeds_bitsOf (hw : 0 < w) {k : ℕ} (hk : k ≤ w) (r : BitVec w) (x : BitVec k) :
    feeds poly r (bitsOf x) = shifts poly k (r ^^^ topWord x) := by
  have hgone : (topWord x : BitVec w) <<< k = 0#w := by
    apply BitVec.eq_of_getMsbD_eq
    intro i hi
    rw [BitVec.getMsbD_shiftLeft, getMsbD_topWord hk, BitVec.getMsbD_zero]
    exact BitVec.getMsbD_of_ge _ _ (by omega)
  have hbits : bitsOf x = (List.range k).map (topWord x : BitVec w).getMsbD := by
    apply List.map_congr_left
    intro i _
    exact (getMsbD_topWord hk x i).symm
  rw [shifts_xor_eq hw, hgone, BitVec.xor_zero, hbits]

/-- **From a table.**  A word is fed by one look at the table and one move. -/
theorem feeds_bitsOf_eq_table (hw : 0 < w) {k : ℕ} (hk : k ≤ w) (r : BitVec w) (x : BitVec k) :
    feeds poly r (bitsOf x) = (r <<< k) ^^^ table poly (upper k r ^^^ x) := by
  have hupper : ∀ i < k, (topWord (upper k r) : BitVec w).getMsbD i = r.getMsbD i := by
    intro i hi
    have hplace : i + w - k - (w - k) = i := by omega
    have hin : i + w - k < w := by omega
    have hfar : ¬ i + w - k < w - k := by omega
    rw [getMsbD_topWord hk, upper, BitVec.getMsbD_setWidth, BitVec.getMsbD_ushiftRight, hplace]
    simp [hin, hfar, show k - w ≤ i by omega]
  have hgone : (topWord (upper k r) : BitVec w) <<< k = 0#w := by
    apply BitVec.eq_of_getMsbD_eq
    intro i hi
    rw [BitVec.getMsbD_shiftLeft, getMsbD_topWord hk, BitVec.getMsbD_zero]
    exact BitVec.getMsbD_of_ge _ _ (by omega)
  have hlower : shifts poly k (r ^^^ topWord (upper k r)) = r <<< k := by
    rw [shifts_of_low, BitVec.shiftLeft_xor_distrib, hgone, BitVec.xor_zero]
    intro i hi
    rw [BitVec.getMsbD_xor, hupper i hi, Bool.xor_self]
  have hsum : (topWord (upper k r ^^^ x) : BitVec w) = topWord (upper k r) ^^^ topWord x := by
    rw [topWord, BitVec.setWidth_xor, BitVec.shiftLeft_xor_distrib]
    rfl
  rw [feeds_bitsOf hw hk, table, hsum, ← hlower, ← shifts_xor]
  congr 1
  rw [BitVec.xor_assoc, ← BitVec.xor_assoc (topWord (upper k r)), BitVec.xor_self, BitVec.zero_xor]

end Crc

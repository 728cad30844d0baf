import GuardrailPlatform.BitGroups
import GuardrailPlatform.JsNumber

/-!
# Base 32 as nkeys write it

`generate-auth.ts` writes and reads nkeys itself.  Both directions push their
input through one number of 32 bits that is never masked, so it overflows; what
they read of it stands in its lowest twelve places.  Written out and read back,
every byte array is itself (`decodeLoop_base32`).
-/

namespace Guardrail

open Js BitGroups

/-! ## Writing and reading -/

/-- `BASE32`. -/
def base32Alphabet : JSString := str "ABCDEFGHIJKLMNOPQRSTUVWXYZ234567"

/-- `BASE32[index]`. -/
def base32Letter (index : ℕ) : UInt16 := base32Alphabet.getD index 0

/-- The letters of all complete groups of five pending bits, and how many bits are left. -/
def drainBits (value : BitVec 32) : ℕ → JSString × ℕ
  | bits + 5 =>
    (base32Letter ((value >>> bits) &&& 31#32).toNat :: (drainBits value bits).1,
      (drainBits value bits).2)
  | bits => ([], bits)

/-- The loop of `base32`, over the bytes still to come. -/
def base32Loop (value : BitVec 32) (bits : ℕ) : List UInt8 → JSString
  | [] => if bits > 0 then [base32Letter ((value <<< (5 - bits)) &&& 31#32).toNat] else []
  | byte :: bytes =>
    let value := (value <<< 8) ||| byte.toBitVec.setWidth 32
    (drainBits value (bits + 8)).1 ++ base32Loop value (drainBits value (bits + 8)).2 bytes

def base32 (bytes : List UInt8) : JSString := base32Loop 0#32 0 bytes

/-- What `decodeSeed` throws on a character outside the alphabet. -/
def invalidSeed (seed : JSString) : JSString :=
  str "'" ++ seed.take 4 ++ str "...' is not a valid nkey seed."

/-- The loop of `decodeSeed`, over the characters still to come. -/
def decodeLoop (seed : JSString) (value : BitVec 32) (bits : ℕ) :
    JSString → Except JSString (List UInt8)
  | [] => .ok []
  | character :: rest =>
    match base32Alphabet.idxOf? character with
    | none => .error (invalidSeed seed)
    | some index =>
      let value := (value <<< 5) ||| BitVec.ofNat 32 index
      if bits + 5 ≥ 8 then
        (decodeLoop seed value (bits + 5 - 8) rest).map
          (((value >>> (bits + 5 - 8)) &&& 255#32).toNat.toUInt8 :: ·)
      else decodeLoop seed value (bits + 5) rest

example : base32 [0x95, 0] = str "SUAA" := by decide

/-! ## What is written -/

/-- A letter of the alphabet is found at the very index it stands at. -/
theorem idxOf_base32Letter {index : ℕ} (h : index < 32) :
    base32Alphabet.idxOf? (base32Letter index) = some index := by
  have hall : ∀ i < 32, base32Alphabet.idxOf? (base32Letter i) = some i := by decide
  exact hall index h

/-- A letter's place in the alphabet is the digit that it was written for. -/
theorem idxOf_base32Letter_eq {index : ℕ} (h : index < 32) :
    base32Alphabet.idxOf (base32Letter index) = index := by
  have hall : ∀ i < 32, base32Alphabet.idxOf (base32Letter i) = i := by decide
  exact hall index h

/-- Masking a word with thirty-one leaves the lowest five bits of its number. -/
theorem toNat_and_31 (x : BitVec 32) : (x &&& 31#32).toNat = x.toNat % 2 ^ 5 := by
  rw [BitVec.toNat_and]
  exact Nat.and_two_pow_sub_one_eq_mod x.toNat 5

/-- Masking a word with eight ones takes the remainder of its number by 256. -/
theorem toNat_and_255 (x : BitVec 32) : (x &&& 255#32).toNat = x.toNat % 2 ^ 8 := by
  rw [BitVec.toNat_and]
  exact Nat.and_two_pow_sub_one_eq_mod x.toNat 8

/-- The byte that is taken from the accumulator has the accumulator's low eight bits. -/
theorem bits_lowByte (x : BitVec 32) :
    bits 8 (x &&& 255#32).toNat.toUInt8.toNat = bits 8 x.toNat := by
  rw [Nat.toUInt8, UInt8.toNat_ofNat', bits_mod, toNat_and_255, bits_mod]

/-- The letters drained spell the pending bits, but for fewer than five. -/
theorem drainBits_spec {value : BitVec 32} {pending : List Bool} (h : Holds value pending) :
    ∃ digits rest, (∀ d ∈ digits, d < 2 ^ 5) ∧ rest.length < 5 ∧ Holds value rest ∧
      pending = spell 5 digits ++ rest ∧
      drainBits value pending.length = (digits.map base32Letter, rest.length) := by
  generalize hn : pending.length = n
  induction n using drainBits.induct generalizing pending with
  | case1 bits ih =>
      obtain ⟨first, rest, rfl, hfirst⟩ : ∃ first rest, pending = first ++ rest ∧
          first.length = 5 :=
        ⟨pending.take 5, pending.drop 5, (List.take_append_drop 5 pending).symm, by
          rw [List.length_take]
          omega⟩
      have hrest : rest.length = bits := by
        rw [List.length_append] at hn
        omega
      obtain ⟨hread, hholds⟩ := h.pop
      rw [hfirst, hrest] at hread
      obtain ⟨digits, left, hdigits, hleft, hholds, hspell, hdrain⟩ := ih hholds hrest
      refine ⟨((value >>> bits) &&& 31#32).toNat :: digits, left, ?_, hleft, hholds, ?_, ?_⟩
      · intro d hd
        rcases List.mem_cons.mp hd with rfl | hd
        · rw [toNat_and_31]
          exact Nat.mod_lt _ (by decide)
        · exact hdigits d hd
      · rw [spell_cons, toNat_and_31, bits_mod, hread, List.append_assoc, ← hspell]
      · rw [drainBits, hdrain, List.map_cons]
  | case2 bits hsmall =>
      refine ⟨[], pending, by simp, ?_, h, rfl, ?_⟩
      · by_contra hlarge
        exact hsmall (bits - 5) (by omega)
      · rw [hn, drainBits]
        · rfl
        · exact hsmall

/-- The letters written spell the pending bits and the bytes, filled up with zeros. -/
theorem base32Loop_spec {value : BitVec 32} {pending : List Bool} (h : Holds value pending)
    (hpending : pending.length < 5) (bytes : List UInt8) :
    ∃ digits z, (∀ d ∈ digits, d < 2 ^ 5) ∧ z < 5 ∧
      spell 5 digits = pending ++ spell 8 (bytes.map UInt8.toNat) ++ List.replicate z false ∧
      base32Loop value pending.length bytes = digits.map base32Letter := by
  induction bytes generalizing value pending with
  | nil =>
      by_cases hempty : pending.length > 0
      · have hpad := @Holds.pad 32 value pending h (5 - pending.length) (by omega)
        have hfull : (pending ++ List.replicate (5 - pending.length) false).length = 5 := by
          rw [List.length_append, List.length_replicate]
          omega
        rw [Holds, hfull] at hpad
        refine ⟨[((value <<< (5 - pending.length)) &&& 31#32).toNat], 5 - pending.length,
          ?_, by omega, ?_, ?_⟩
        · intro d hd
          rw [List.mem_singleton.mp hd, toNat_and_31]
          exact Nat.mod_lt _ (by decide)
        · rw [spell_cons, toNat_and_31, bits_mod, hpad]
          simp [spell]
        · rw [base32Loop, if_pos hempty, List.map_singleton]
      · obtain rfl : pending = [] := List.eq_nil_of_length_eq_zero (by omega)
        exact ⟨[], 0, by simp, by decide, rfl, rfl⟩
  | cons byte bytes ih =>
      have hbyte : (byte.toBitVec.setWidth 32).toNat = byte.toNat := by
        rw [BitVec.toNat_setWidth]
        exact Nat.mod_eq_of_lt (Nat.lt_trans byte.toNat_lt (by decide))
      have hpush := @Holds.push 32 value (byte.toBitVec.setWidth 32) pending 8 h (by omega)
        (by rw [hbyte]; exact byte.toNat_lt)
      rw [hbyte] at hpush
      obtain ⟨first, rest, hfirst, hrest, hholds, hspell, hdrain⟩ := drainBits_spec hpush
      rw [List.length_append, length_bits] at hdrain
      obtain ⟨others, z, hothers, hz, hothersSpell, hloop⟩ := ih hholds hrest
      refine ⟨first ++ others, z, ?_, hz, ?_, ?_⟩
      · intro d hd
        rcases List.mem_append.mp hd with hd | hd
        · exact hfirst d hd
        · exact hothers d hd
      · rw [spell_append, hothersSpell, List.map_cons, spell_cons, ← List.append_assoc pending,
          hspell, ← List.append_assoc, ← List.append_assoc]
      · rw [base32Loop, hdrain, List.map_append, hloop]

/-- A base32 text spells the bytes' bits, and zeros to fill the last letter. -/
theorem base32_spec (bytes : List UInt8) :
    ∃ digits z, (∀ d ∈ digits, d < 2 ^ 5) ∧ z < 5 ∧
      spell 5 digits = spell 8 (bytes.map UInt8.toNat) ++ List.replicate z false ∧
      base32 bytes = digits.map base32Letter :=
  base32Loop_spec (holds_nil 0#32) (by decide) bytes

/-! ## What is read -/

/-- The bytes read spell what is pending and the letters, but for less than one byte. -/
theorem decodeLoop_spec (seed : JSString) {value : BitVec 32} {pending : List Bool}
    (h : Holds value pending) (hpending : pending.length < 8) {digits : List ℕ}
    (hdigits : ∀ d ∈ digits, d < 2 ^ 5) :
    ∃ bytes rest, rest.length < 8 ∧
      pending ++ spell 5 digits = spell 8 (bytes.map UInt8.toNat) ++ rest ∧
      decodeLoop seed value pending.length (digits.map base32Letter) = .ok bytes := by
  induction digits generalizing value pending with
  | nil => exact ⟨[], pending, hpending, by simp [spell], rfl⟩
  | cons d digits ih =>
      have hd : d < 2 ^ 5 := hdigits d List.mem_cons_self
      have hothers : ∀ d ∈ digits, d < 2 ^ 5 := fun d hd => hdigits d (List.mem_cons_of_mem _ hd)
      have hindex : (BitVec.ofNat 32 d).toNat = d := by
        rw [BitVec.toNat_ofNat]
        exact Nat.mod_eq_of_lt (Nat.lt_trans hd (by decide))
      have hpush := @Holds.push 32 value (BitVec.ofNat 32 d) pending 5 h (by omega)
        (by rw [hindex]; exact hd)
      rw [hindex] at hpush
      have hlength : (pending ++ bits 5 d).length = pending.length + 5 := by
        rw [List.length_append, length_bits]
      rw [spell_cons, ← List.append_assoc, List.map_cons, decodeLoop, idxOf_base32Letter hd]
      by_cases hfull : pending.length + 5 ≥ 8
      · obtain ⟨first, left, hcut, hfirst⟩ : ∃ first left, pending ++ bits 5 d = first ++ left ∧
            first.length = 8 :=
          ⟨(pending ++ bits 5 d).take 8, (pending ++ bits 5 d).drop 8,
            (List.take_append_drop 8 _).symm, by
              rw [List.length_take]
              omega⟩
        have hleft : left.length = pending.length + 5 - 8 := by
          rw [hcut, List.length_append] at hlength
          omega
        rw [hcut] at hpush
        obtain ⟨hread, hholds⟩ := hpush.pop
        rw [hfirst, hleft] at hread
        obtain ⟨bytes, rest, hrest, hspell, hloop⟩ := ih hholds (by omega) hothers
        rw [hleft] at hloop
        refine ⟨_, rest, hrest, ?_, by simp only [if_pos hfull, hloop]; rfl⟩
        rw [hcut, List.append_assoc, hspell, List.map_cons, spell_cons, bits_lowByte, hread,
          List.append_assoc]
      · obtain ⟨bytes, rest, hrest, hspell, hloop⟩ := ih hpush (by omega) hothers
        rw [hlength] at hloop
        exact ⟨bytes, rest, hrest, hspell, by simp only [if_neg hfull, hloop]⟩

/-- The decoding loop takes the bytes off the digits' bits, and drops what is
less than one. -/
theorem decodeLoop_letters (seed : JSString) {digits : List ℕ} (hdigits : ∀ d ∈ digits, d < 2 ^ 5) :
    ∃ bytes rest, rest.length < 8 ∧ spell 5 digits = spell 8 (bytes.map UInt8.toNat) ++ rest ∧
      decodeLoop seed 0#32 0 (digits.map base32Letter) = .ok bytes :=
  decodeLoop_spec seed (holds_nil 0#32) (by decide) hdigits

/-- A character outside the alphabet is refused wherever it stands in the text. -/
theorem decodeLoop_of_foreign (seed : JSString) (value : BitVec 32) (bits : ℕ) {text : JSString}
    (h : ∃ u ∈ text, u ∉ base32Alphabet) :
    decodeLoop seed value bits text = .error (invalidSeed seed) := by
  induction text generalizing value bits with
  | nil => simp at h
  | cons character rest ih =>
      by_cases hletter : character ∈ base32Alphabet
      · obtain ⟨u, hu, hforeign⟩ := h
        have hrest : ∃ u ∈ rest, u ∉ base32Alphabet := by
          rcases List.mem_cons.mp hu with rfl | hu
          · exact absurd hletter hforeign
          · exact ⟨u, hu, hforeign⟩
        obtain ⟨index, hindex⟩ : ∃ index, base32Alphabet.idxOf? character = some index :=
          Option.isSome_iff_exists.mp (List.isSome_idxOf?.mpr hletter)
        rw [decodeLoop, hindex]
        by_cases hfull : bits + 5 ≥ 8
        · simp only [if_pos hfull, ih _ _ hrest]
          rfl
        · simp only [if_neg hfull, ih _ _ hrest]
      · rw [decodeLoop, List.idxOf?_eq_none_iff.mpr hletter]

theorem toNat_map_inj {a b : List UInt8} (h : a.map UInt8.toNat = b.map UInt8.toNat) : a = b :=
  List.map_injective_iff.mpr (fun _ _ => UInt8.toNat.inj) h

theorem toNat_lt_of_mem_map {bytes : List UInt8} : ∀ n ∈ bytes.map UInt8.toNat, n < 2 ^ 8 := by
  intro n hn
  obtain ⟨byte, -, rfl⟩ := List.mem_map.mp hn
  exact byte.toNat_lt

/-- **Round trip.**  What is written in base 32, of any bytes, is read back to those bytes.
-/
theorem decodeLoop_base32 (seed : JSString) (bytes : List UInt8) :
    decodeLoop seed 0#32 0 (base32 bytes) = .ok bytes := by
  obtain ⟨digits, z, hdigits, hz, hspell, hwrite⟩ := base32_spec bytes
  obtain ⟨read, rest, hrest, hread, hloop⟩ := decodeLoop_letters seed hdigits
  rw [hspell] at hread
  obtain ⟨hsame, -⟩ := spell_append_inj toNat_lt_of_mem_map toNat_lt_of_mem_map
    (by rw [List.length_replicate]; omega) hrest hread
  obtain rfl := toNat_map_inj hsame
  rw [hwrite, hloop]

end Guardrail

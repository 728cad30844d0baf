import GuardrailPlatform.Checksum

/-!
# Seeds

`encodeSeed` puts two prefix bytes before the 32 of a raw seed and two of
checksum behind them, and writes all of it in base 32; `decodeSeed` reads base 32
and cuts the middle out.  What is written is read back (`decodeSeed_encodeSeed`).

The prefix, the checksum and the length are written but never read, so any string
of letters decodes.  It is the writing of what it decodes to just when its bits
are well formed.
-/

namespace Guardrail

open Js BitGroups

/-! ## Writing and reading -/

/-- `PREFIX_SEED`. -/
def prefixSeed : ℕ := 18 <<< 3

/-- `PREFIX_USER`. -/
def prefixUser : ℕ := 20 <<< 3

/-- `encodeSeed`. -/
def encodeSeed (rawSeed : List UInt8) : JSString :=
  let first := (prefixSeed ||| (prefixUser >>> 5)).toUInt8
  let second := ((prefixUser &&& 31) <<< 3).toUInt8
  base32 (withChecksum (first :: second :: rawSeed))

/-- `decodeSeed`: the prefix at the front and the checksum at the back are cut off. -/
def decodeSeed (seed : JSString) : Except JSString (List UInt8) :=
  (decodeLoop seed 0#32 0 seed).map fun bytes => (bytes.take 34).drop 2

/-- What `randomBytes(32)` gives. -/
structure RawSeed where
  bytes : List UInt8
  length_eq : bytes.length = 32

/-- The bytes that `encodeSeed` writes. -/
def seedBytes (rawSeed : List UInt8) : List UInt8 :=
  0x95 :: 0 :: rawSeed ++ littleEndian (crc16 (0x95 :: 0 :: rawSeed))

/-- A seed is written as the base32 of its prefix, key and checksum. -/
theorem encodeSeed_eq (rawSeed : List UInt8) : encodeSeed rawSeed = base32 (seedBytes rawSeed) := by
  have hfirst : (prefixSeed ||| (prefixUser >>> 5)).toUInt8 = 0x95 := by decide
  have hsecond : ((prefixUser &&& 31) <<< 3).toUInt8 = 0 := by decide
  rw [encodeSeed, hfirst, hsecond, withChecksum_eq]
  rfl

theorem decodeSeed_encodeSeed (raw : RawSeed) : decodeSeed (encodeSeed raw.bytes) = .ok raw.bytes := by
  have hcut : ((seedBytes raw.bytes).take 34).drop 2 = raw.bytes := by
    have hprefix : (0x95 :: 0 :: raw.bytes).length = 34 := by
      rw [List.length_cons, List.length_cons, raw.length_eq]
    rw [seedBytes, List.take_append_of_le_length hprefix.ge, List.take_of_length_le hprefix.le]
    rfl
  rw [decodeSeed, encodeSeed_eq, decodeLoop_base32, Except.map, hcut]

/-- **Round trip**, for bytes of any number and so for raw seeds. -/
theorem base32_round_trip :
    (∀ (seed : JSString) (bytes : List UInt8), decodeLoop seed 0#32 0 (base32 bytes) = .ok bytes) ∧
      ∀ raw : RawSeed, decodeSeed (encodeSeed raw.bytes) = .ok raw.bytes :=
  ⟨decodeLoop_base32, decodeSeed_encodeSeed⟩

/-! ## Strings of letters -/

/-- The bits that a string of letters spells. -/
def seedBits (seed : JSString) : List Bool := spell 5 (seed.map (base32Alphabet.idxOf ·))

/-- A letter of the alphabet is read off its own place in it. -/
theorem base32Letter_idxOf {u : UInt16} (h : u ∈ base32Alphabet) :
    base32Letter (base32Alphabet.idxOf u) = u := by
  have hget := List.getElem_idxOf (List.idxOf_lt_length_of_mem h)
  rw [base32Letter, List.getD_eq_getElem _ _ (List.idxOf_lt_length_of_mem h), hget]

/-- A seed made of the alphabet's letters is spelled again by their places in it. -/
theorem map_base32Letter {seed : JSString} (h : ∀ u ∈ seed, u ∈ base32Alphabet) :
    (seed.map (base32Alphabet.idxOf ·)).map base32Letter = seed := by
  have hletters : seed.map (fun u => base32Letter (base32Alphabet.idxOf u)) = seed.map id :=
    List.map_congr_left fun u hu => base32Letter_idxOf (h u hu)
  rw [List.map_map]
  exact hletters.trans (List.map_id seed)

/-- The place of every letter of a seed in the alphabet has five bits. -/
theorem lt_of_mem_map_idxOf {seed : JSString} (h : ∀ u ∈ seed, u ∈ base32Alphabet) :
    ∀ d ∈ seed.map (base32Alphabet.idxOf ·), d < 2 ^ 5 := by
  intro d hd
  obtain ⟨u, hu, rfl⟩ := List.mem_map.mp hd
  exact List.idxOf_lt_length_of_mem (h u hu)

/-- A seed's bits are the bits of its digits, five for each digit. -/
theorem seedBits_map {digits : List ℕ} (h : ∀ d ∈ digits, d < 2 ^ 5) :
    seedBits (digits.map base32Letter) = spell 5 digits := by
  have hdigits : digits.map (fun d => base32Alphabet.idxOf (base32Letter d)) = digits.map id :=
    List.map_congr_left fun d hd => idxOf_base32Letter_eq (h d hd)
  rw [seedBits, List.map_map]
  exact congrArg (spell 5) (hdigits.trans (List.map_id digits))

/-- Each letter of a seed carries five bits, so its bits are five times as many. -/
theorem length_seedBits (seed : JSString) : (seedBits seed).length = seed.length * 5 := by
  rw [seedBits, length_spell, List.length_map]

/-- The checksum's bits of a word are the groups' bits of its number. -/
theorem bitsOf_eq_bits {k : ℕ} (x : BitVec k) : Crc.bitsOf x = bits k x.toNat := by
  rw [Crc.bitsOf, bits_eq_map]
  apply List.map_congr_left
  intro i hi
  rw [BitVec.getMsbD, decide_eq_true (List.mem_range.mp hi), Bool.true_and, BitVec.testBit_toNat]

/-- The bits of a message are those that its bytes spell, eight to a byte. -/
theorem messageBits_eq (bytes : List UInt8) :
    messageBits bytes = spell 8 (bytes.map UInt8.toNat) := by
  have hbyte : (fun byte : UInt8 => Crc.bitsOf byte.toBitVec) = fun byte => bits 8 byte.toNat :=
    funext fun byte => bitsOf_eq_bits byte.toBitVec
  rw [messageBits, spell, List.flatMap_map, hbyte]

/-- Each byte of a message carries eight bits, so its bits are eight times as many. -/
theorem length_messageBits (bytes : List UInt8) : (messageBits bytes).length = bytes.length * 8 := by
  rw [messageBits_eq, length_spell, List.length_map]

/-- Messages in a row have the bits of the first and then those of the second. -/
theorem messageBits_append (a b : List UInt8) :
    messageBits (a ++ b) = messageBits a ++ messageBits b :=
  List.flatMap_append

/-- A message can be read off its bits: no two messages have the same. -/
theorem messageBits_inj {a b : List UInt8} (h : messageBits a = messageBits b) : a = b := by
  rw [messageBits_eq, messageBits_eq] at h
  exact toNat_map_inj (spell_inj (by decide) toNat_lt_of_mem_map toNat_lt_of_mem_map h)

/-- Letters are the writing of bytes just when they spell these and zeros behind them. -/
theorem base32_eq_iff {seed : JSString} (h : ∀ u ∈ seed, u ∈ base32Alphabet) (bytes : List UInt8) :
    base32 bytes = seed ↔
      ∃ z < 5, seedBits seed = messageBits bytes ++ List.replicate z false := by
  obtain ⟨digits, z, hdigits, hz, hspell, hwrite⟩ := base32_spec bytes
  rw [← messageBits_eq] at hspell
  constructor
  · intro hseed
    refine ⟨z, hz, ?_⟩
    rw [← hseed, hwrite, seedBits_map hdigits, hspell]
  · intro hbits
    obtain ⟨z', hz', hbits⟩ := hbits
    have hlength := congrArg List.length hspell
    have hlength' := congrArg List.length hbits
    rw [length_spell, List.length_append, List.length_replicate] at hlength
    rw [length_seedBits, List.length_append, List.length_replicate] at hlength'
    obtain rfl : z = z' := by omega
    have hsame : digits = seed.map (base32Alphabet.idxOf ·) :=
      spell_inj (by decide) hdigits (lt_of_mem_map_idxOf h) (hspell.trans hbits.symm)
    rw [hwrite, hsame, map_base32Letter h]

/-- Letters are read as the bytes they spell, and the bits that are no byte any more are
dropped. -/
theorem decodeLoop_of_letters {seed : JSString} (h : ∀ u ∈ seed, u ∈ base32Alphabet) :
    ∃ bytes rest, rest.length < 8 ∧ seedBits seed = messageBits bytes ++ rest ∧
      decodeLoop seed 0#32 0 seed = .ok bytes := by
  obtain ⟨bytes, rest, hrest, hspell, hloop⟩ := decodeLoop_letters seed (lt_of_mem_map_idxOf h)
  rw [map_base32Letter h] at hloop
  rw [← messageBits_eq] at hspell
  exact ⟨bytes, rest, hrest, hspell, hloop⟩

/-- What decodes is a string of the alphabet's letters, and whatever is one decodes. -/
theorem decodeSeed_error_iff (seed : JSString) :
    (∃ e, decodeSeed seed = .error e) ↔ ∃ u ∈ seed, u ∉ base32Alphabet := by
  constructor
  · intro herror
    obtain ⟨e, herror⟩ := herror
    by_contra hletters
    push Not at hletters
    obtain ⟨bytes, -, -, -, hloop⟩ := decodeLoop_of_letters hletters
    rw [decodeSeed, hloop] at herror
    cases herror
  · intro hforeign
    exact ⟨invalidSeed seed, by rw [decodeSeed, decodeLoop_of_foreign seed _ _ hforeign]; rfl⟩

/-! ## Well-formed seeds -/

/-- **A well-formed seed**: 58 letters of 290 bits, the prefix in the first 16, in 16 more the
checksum of the 272 before them, and two zeros. -/
structure WellFormedSeed (seed : JSString) : Prop where
  letters : ∀ u ∈ seed, u ∈ base32Alphabet
  length_eq : seed.length = 58
  header : (seedBits seed).take 16 = Crc.bitsOf 0x9500#16
  checksum : ((seedBits seed).drop 272).take 16 =
    messageBits (littleEndian (Crc.checksum xmodem ((seedBits seed).take 272)))
  padding : (seedBits seed).drop 288 = [false, false]

/-- The bits of what `encodeSeed` writes, of thirty-two bytes, are well formed. -/
theorem wellFormedSeed_encodeSeed {seed : JSString} (h : ∀ u ∈ seed, u ∈ base32Alphabet)
    {raw : List UInt8} (hraw : raw.length = 32) (hseed : encodeSeed raw = seed) :
    WellFormedSeed seed := by
  rw [encodeSeed_eq] at hseed
  obtain ⟨z, hz, hbits⟩ := (base32_eq_iff h _).mp hseed
  have hmessage : (messageBits (0x95 :: 0 :: raw)).length = 272 := by
    rw [length_messageBits, List.length_cons, List.length_cons, hraw]
  have hword : ∀ word, (messageBits (littleEndian word)).length = 16 := fun word =>
    length_messageBits _
  rw [seedBytes, messageBits_append, List.append_assoc] at hbits
  have hlength := congrArg List.length hbits
  rw [length_seedBits, List.length_append, List.length_append, hmessage, hword,
    List.length_replicate] at hlength
  obtain rfl : z = 2 := by omega
  have htail : (seedBits seed).drop 272 =
      messageBits (littleEndian (crc16 (0x95 :: 0 :: raw))) ++ [false, false] := by
    rw [hbits]
    exact List.drop_left' hmessage
  refine ⟨h, by omega, ?_, ?_, ?_⟩
  · rw [hbits]
    rfl
  · rw [htail, hbits, List.take_left' (hword _), List.take_left' hmessage, crc16]
  · rw [show 288 = 272 + 16 from rfl, ← List.drop_drop, htail]
    exact List.drop_left' (hword _)

/-- Well-formed bits are those of what `encodeSeed` writes of some thirty-two bytes. -/
theorem WellFormedSeed.exists_encodeSeed {seed : JSString} (h : WellFormedSeed seed) :
    ∃ raw : List UInt8, raw.length = 32 ∧ encodeSeed raw = seed := by
  obtain ⟨bytes, rest, hrest, hbits, -⟩ := decodeLoop_of_letters h.letters
  have hlength := congrArg List.length hbits
  rw [length_seedBits, h.length_eq, List.length_append, length_messageBits] at hlength
  have hbytes : bytes.length = 36 := by omega
  have hpadding : rest = [false, false] := by
    rw [← h.padding, hbits]
    exact (List.drop_left' (by rw [length_messageBits, hbytes])).symm
  obtain ⟨message, word, rfl, hmessage⟩ : ∃ message word, bytes = message ++ word ∧
      message.length = 34 :=
    ⟨bytes.take 34, bytes.drop 34, (List.take_append_drop 34 bytes).symm, by
      rw [List.length_take, hbytes]
      rfl⟩
  obtain ⟨header, raw, rfl, hheader⟩ : ∃ header raw, message = header ++ raw ∧
      header.length = 2 :=
    ⟨message.take 2, message.drop 2, (List.take_append_drop 2 message).symm, by
      rw [List.length_take, hmessage]
      rfl⟩
  have hword : word.length = 2 := by
    rw [List.length_append, hmessage] at hbytes
    omega
  rw [List.length_append] at hmessage
  have hmessageBits : (messageBits (header ++ raw)).length = 272 := by
    rw [length_messageBits, List.length_append]
    omega
  obtain rfl : header = [0x95, 0] := by
    apply messageBits_inj
    have htake := h.header
    rw [hbits, messageBits_append, messageBits_append, List.append_assoc, List.append_assoc,
      List.take_left' (by rw [length_messageBits, hheader])] at htake
    exact htake
  obtain rfl : word = littleEndian (crc16 ([0x95, 0] ++ raw)) := by
    apply messageBits_inj
    have htake := h.checksum
    rw [hbits, messageBits_append, List.append_assoc, List.drop_left' hmessageBits,
      List.take_left' hmessageBits,
      List.take_left' (by rw [length_messageBits, hword])] at htake
    exact htake
  refine ⟨raw, by omega, ?_⟩
  rw [encodeSeed_eq]
  apply (base32_eq_iff h.letters _).mpr
  exact ⟨2, by decide, by rw [hbits, hpadding]; rfl⟩

/-- **Which strings are refused or written back**: those with a letter that is none, and the
well-formed seeds. -/
theorem decodeSeed_canonical_iff (seed : JSString) :
    ((∃ e, decodeSeed seed = .error e) ∨
        ∃ r, decodeSeed seed = .ok r ∧ r.length = 32 ∧ encodeSeed r = seed) ↔
      (∃ u ∈ seed, u ∉ base32Alphabet) ∨ WellFormedSeed seed := by
  rw [decodeSeed_error_iff]
  by_cases hforeign : ∃ u ∈ seed, u ∉ base32Alphabet
  · exact iff_of_true (Or.inl hforeign) (Or.inl hforeign)
  · have hletters : ∀ u ∈ seed, u ∈ base32Alphabet := by
      push Not at hforeign
      exact hforeign
    rw [or_iff_right hforeign, or_iff_right hforeign]
    constructor
    · intro hwritten
      obtain ⟨r, -, hlength, hseed⟩ := hwritten
      exact wellFormedSeed_encodeSeed hletters hlength hseed
    · intro hwell
      obtain ⟨r, hlength, hseed⟩ := hwell.exists_encodeSeed
      refine ⟨r, ?_, hlength, hseed⟩
      rw [← hseed]
      exact decodeSeed_encodeSeed ⟨r, hlength⟩

/-- With one letter altered, a seed's writing decodes to another key, whose seed it is not. -/
theorem altered_seed_decodes :
    encodeSeed (List.replicate 32 0) =
        str "SUAAAAAAAAAAAAAAAAAAAAAAAAAAAAAAAAAAAAAAAAAAAAAAAAAAAAAAEQ" ∧
      decodeSeed (str "SUAACAAAAAAAAAAAAAAAAAAAAAAAAAAAAAAAAAAAAAAAAAAAAAAAAAAAEQ") =
        .ok (1 :: List.replicate 31 0) ∧
      encodeSeed (1 :: List.replicate 31 0) ≠
        str "SUAACAAAAAAAAAAAAAAAAAAAAAAAAAAAAAAAAAAAAAAAAAAAAAAAAAAAEQ" := by
  refine ⟨?_, ?_, ?_⟩
  · decide +kernel
  · rfl
  · decide +kernel

end Guardrail

import GuardrailPlatform.Words

/-!
# Wrapping by a regular expression

All matches of `.{1,width}(\s|$)` in a text, one after the other: each is the
longest run of at most `width` letters that ends before a space or at the end.
A space that begins no match is left out.  So is the beginning of a word that is
longer than `width`: of it the last `width` letters are kept (`wrap_long`).
-/

namespace LineWrap

open Words

variable {α : Type*} (space dot : α → Bool) (width : ℕ)

/-- Letters before a space or the end. -/
def fits (t : List α) (n : ℕ) : Bool :=
  decide (n ≤ t.length) && (t.take n).all dot && (t.drop n).head?.all space

/-- The length of the match at the start of a text, its space not counted. -/
def matchLength (t : List α) : Option ℕ :=
  ((List.range width).map (· + 1)).reverse.find? (fits space dot t)

/-- The matches, some letters ahead. -/
def wrapFrom : ℕ → List α → List (List α)
  | _, [] => []
  | k + 1, _ :: t => wrapFrom k t
  | 0, u :: t =>
    match matchLength space dot width (u :: t) with
    | some n => (u :: t).take (n + 1) :: wrapFrom n t
    | none => wrapFrom 0 t

def wrap (t : List α) : List (List α) := wrapFrom space dot width 0 t

variable {space dot width}

/-- A line fits where its units may stand on one and a blank or the end follows. -/
theorem fits_iff {t : List α} {n : ℕ} :
    fits space dot t n = true ↔ n ≤ t.length ∧ (∀ u ∈ t.take n, dot u = true) ∧
      ∀ u ∈ (t.drop n).head?, space u = true := by
  rw [fits, Bool.and_eq_true, Bool.and_eq_true, decide_eq_true_eq, List.all_eq_true, and_assoc]
  cases (t.drop n).head? <;> simp

/-- The lengths that are tried are those up to the width, the longest first. -/
theorem mem_lengths {n : ℕ} : n ∈ ((List.range width).map (· + 1)).reverse ↔ 0 < n ∧ n ≤ width := by
  rw [List.mem_reverse, List.mem_map]
  constructor
  · intro h
    obtain ⟨m, hm, rfl⟩ := h
    have hlt := List.mem_range.mp hm
    omega
  · intro h
    exact ⟨n - 1, List.mem_range.mpr (by omega), by omega⟩

/-- A match that is found has letters in it, fits the pattern and is within the width. -/
theorem matchLength_some {t : List α} {n : ℕ} (h : matchLength space dot width t = some n) :
    0 < n ∧ n ≤ width ∧ fits space dot t n = true := by
  obtain ⟨hpos, hle⟩ := mem_lengths.mp (List.mem_of_find?_eq_some h)
  exact ⟨hpos, hle, List.find?_some h⟩

/-- No length is found exactly where none up to the width fits. -/
theorem matchLength_none {t : List α} : matchLength space dot width t = none ↔
    ∀ n, 0 < n → n ≤ width → fits space dot t n = false := by
  rw [matchLength, List.find?_eq_none]
  constructor
  · intro h n hpos hle
    exact Bool.not_eq_true _ ▸ h n (mem_lengths.mpr ⟨hpos, hle⟩)
  · intro h n hn
    obtain ⟨hpos, hle⟩ := mem_lengths.mp hn
    rw [h n hpos hle]
    exact Bool.false_ne_true

/-- Wrapping a text from a place in it is wrapping what follows that place. -/
theorem wrapFrom_eq_drop (k : ℕ) (t : List α) :
    wrapFrom space dot width k t = wrap space dot width (t.drop k) := by
  induction t generalizing k with
  | nil => rw [List.drop_nil, wrapFrom, wrap, wrapFrom]
  | cons u t ih =>
      cases k with
      | zero => rfl
      | succ k => rw [wrapFrom, ih, List.drop_succ_cons]

/-- Where a length matches, a line is that much of the text together with the space behind
it. -/
theorem wrap_match {t : List α} {n : ℕ} (h : matchLength space dot width t = some n) :
    wrap space dot width t = t.take (n + 1) :: wrap space dot width (t.drop (n + 1)) := by
  cases t with
  | nil =>
      obtain ⟨hpos, -, hfits⟩ := matchLength_some h
      have hle := (fits_iff.mp hfits).1
      simp only [List.length_nil] at hle
      omega
  | cons u t =>
      rw [wrap, wrapFrom, h]
      simp only
      rw [wrapFrom_eq_drop, List.drop_succ_cons]

theorem wrap_skip {u : α} {t : List α} (h : matchLength space dot width (u :: t) = none) :
    wrap space dot width (u :: t) = wrap space dot width t := by
  rw [wrap, wrapFrom, h]
  rfl

/-- Whatever stands in a line of a wrapped text stands in the text. -/
theorem mem_of_mem_wrapFrom {k : ℕ} {t line : List α} (h : line ∈ wrapFrom space dot width k t) :
    ∀ u ∈ line, u ∈ t := by
  induction t generalizing k with
  | nil => rw [wrapFrom] at h; cases h
  | cons v t ih =>
      cases k with
      | succ k =>
          rw [wrapFrom] at h
          exact fun u hu => List.mem_cons_of_mem v (ih h u hu)
      | zero =>
          rw [wrapFrom] at h
          cases hmatch : matchLength space dot width (v :: t) with
          | none =>
              rw [hmatch] at h
              exact fun u hu => List.mem_cons_of_mem v (ih h u hu)
          | some n =>
              rw [hmatch] at h
              rcases List.mem_cons.mp h with rfl | h
              · exact fun u hu => List.mem_of_mem_take hu
              · exact fun u hu => List.mem_cons_of_mem v (ih h u hu)

/-! ## Words at the start -/

theorem length_le_of_fits {word rest : List α} (hword : ∀ u ∈ word, space u = false) {n : ℕ}
    (h : fits space dot (word ++ rest) n = true) : word.length ≤ n := by
  by_contra hinside
  obtain ⟨-, -, hend⟩ := fits_iff.mp h
  have hdrop : (word ++ rest).drop n = word.drop n ++ rest :=
    List.drop_append_of_le_length (by omega)
  obtain ⟨u, left, hleft⟩ : ∃ u left, word.drop n = u :: left :=
    List.exists_cons_of_ne_nil (List.ne_nil_of_length_pos (by rw [List.length_drop]; omega))
  have hu : space u = true := by
    apply hend
    rw [hdrop, hleft]
    rfl
  have hmem : u ∈ word := List.mem_of_mem_drop (hleft ▸ List.mem_cons_self)
  rw [hword u hmem] at hu
  cases hu

variable (hdot : ∀ u, space u = false → dot u = true)

include hdot in
/-- A whole word, without a space in it, fits where a blank follows it or the text ends. -/
theorem fits_word {word rest : List α} (hword : ∀ u ∈ word, space u = false)
    (hrest : ∀ u ∈ rest.head?, space u = true) :
    fits space dot (word ++ rest) word.length = true := by
  rw [fits_iff, List.take_left, List.drop_left, List.length_append]
  exact ⟨by omega, fun u hu => hdot u (hword u hu), hrest⟩

include hdot in
/-- **A long word**, one of the width or longer, keeps its last letters: as many as the
width, and the blank behind them. -/
theorem wrap_long {word rest : List α} (hpos : 0 < width) (hlong : width ≤ word.length)
    (hword : ∀ u ∈ word, space u = false) (hrest : ∀ u ∈ rest.head?, space u = true) :
    wrap space dot width (word ++ rest) =
      (word.drop (word.length - width) ++ rest.take 1) :: wrap space dot width (rest.drop 1) := by
  induction word with
  | nil => simp only [List.length_nil] at hlong; omega
  | cons u word ih =>
      by_cases hexact : width = (u :: word).length
      · have hmatch : matchLength space dot width (u :: word ++ rest) = some (u :: word).length := by
          cases hfound : matchLength space dot width (u :: word ++ rest) with
          | none =>
              have hno := matchLength_none.mp hfound (u :: word).length (by omega) (by omega)
              rw [fits_word hdot hword hrest] at hno
              cases hno
          | some n =>
              obtain ⟨-, hle, hfits⟩ := matchLength_some hfound
              have hge := length_le_of_fits hword hfits
              rw [Option.some_inj]
              omega
        rw [wrap_match hmatch, hexact, Nat.sub_self, List.drop_zero, List.take_length_add_append,
          List.drop_length_add_append]
      · have hnone : matchLength space dot width (u :: (word ++ rest)) = none := by
          apply matchLength_none.mpr
          intro n _ hle
          by_contra hfits
          have hge := length_le_of_fits hword (Bool.not_eq_false _ ▸ hfits)
          omega
        have hlength : (u :: word).length - width = word.length - width + 1 := by
          rw [List.length_cons] at hexact hlong ⊢
          omega
        rw [List.cons_append, wrap_skip hnone, ih (by rw [List.length_cons] at hexact hlong; omega)
          fun v hv => hword v (List.mem_cons_of_mem _ hv), hlength, List.drop_succ_cons]

/-! ## One step -/

include hdot in
/-- What stands at the start of a text: a last line, a line and its space, a space that is left
out, or a word that is cut. -/
theorem wrap_cases (hpos : 0 < width) (t : List α) :
    (t.length ≤ width ∧ (t = [] ∨ wrap space dot width t = [t])) ∨
      (∃ line u rest, space u = true ∧ line.length ≤ width ∧ t = line ++ u :: rest ∧
        wrap space dot width t = (line ++ [u]) :: wrap space dot width rest) ∨
      (∃ u rest, space u = true ∧ t = u :: rest ∧
        wrap space dot width t = wrap space dot width rest) ∨
      (∃ word rest, (∀ u ∈ word, space u = false) ∧ (∀ u ∈ rest.head?, space u = true) ∧
        width < word.length ∧ t = word ++ rest ∧
        wrap space dot width t =
          (word.drop (word.length - width) ++ rest.take 1) ::
            wrap space dot width (rest.drop 1)) := by
  cases hmatch : matchLength space dot width t with
  | some n =>
      obtain ⟨-, hwidth, hfits⟩ := matchLength_some hmatch
      obtain ⟨hle, -, hend⟩ := fits_iff.mp hfits
      have hwrap := wrap_match hmatch
      have ht := List.take_append_drop n t
      cases hdrop : t.drop n with
      | nil =>
          have hlength : t.length ≤ n := List.drop_eq_nil_iff.mp hdrop
          rw [List.take_of_length_le (by omega), List.drop_of_length_le (by omega)] at hwrap
          exact Or.inl ⟨by omega, Or.inr hwrap⟩
      | cons u rest =>
          rw [hdrop] at hend ht
          have hline : (t.take n).length = n := by
            rw [List.length_take]
            omega
          refine Or.inr (Or.inl ⟨t.take n, u, rest, hend u rfl, by omega, ht.symm, ?_⟩)
          rw [hwrap, ← List.take_append_drop n (t.take (n + 1)), List.take_take,
            Nat.min_eq_left (Nat.le_succ n), List.drop_take, ← List.drop_drop, hdrop]
          simp
  | none =>
      cases t with
      | nil => exact Or.inl ⟨Nat.zero_le _, Or.inl rfl⟩
      | cons u rest =>
          by_cases hu : space u = true
          · exact Or.inr (Or.inr (Or.inl ⟨u, rest, hu, rfl, wrap_skip hmatch⟩))
          · obtain ⟨word, left, hcut, hword, hleft⟩ : ∃ word left, u :: rest = word ++ left ∧
                (∀ v ∈ word, space v = false) ∧ ∀ v ∈ left.head?, space v = true := by
              refine ⟨(u :: rest).takeWhile fun v => !space v,
                (u :: rest).dropWhile fun v => !space v,
                List.takeWhile_append_dropWhile.symm, fun v hv => ?_, fun v hv => ?_⟩
              · simpa using List.mem_takeWhile_imp hv
              · have hnot := List.head?_dropWhile_not (fun v => !space v) (u :: rest)
                rw [Option.mem_def] at hv
                rw [hv] at hnot
                simpa using hnot
            have hlong : width < word.length := by
              by_contra hshort
              have hne : word ≠ [] := by
                intro hempty
                rw [hempty, List.nil_append] at hcut
                rw [← hcut] at hleft
                exact hu (hleft u rfl)
              have hno := matchLength_none.mp hmatch word.length (List.length_pos_of_ne_nil hne)
                (by omega)
              rw [hcut, fits_word hdot hword hleft] at hno
              cases hno
            refine Or.inr (Or.inr (Or.inr ⟨word, left, hword, hleft, hlong, hcut, ?_⟩))
            rw [hcut]
            exact wrap_long hdot hpos hlong.le hword hleft

/-! ## What is kept of the words -/

/-- A blank ends a word and begins none, so the text may be cut there. -/
theorem words_append_space {u : α} (hu : space u = true) (s t : List α) :
    words (fun v => !space v) (s ++ u :: t) =
      words (fun v => !space v) s ++ words (fun v => !space v) t :=
  words_append_skip (by simp [hu]) s t

include hdot in
/-- **What the matches hold.**  A property that text has when its parts between spaces have it
stays true of all matches unless it is lost where a long word is cut. -/
theorem wrap_all_iff (hpos : 0 < width) {ok : List α → Bool} (hnil : ok [] = true)
    (hsplit : ∀ a u b, space u = true → ok (a ++ u :: b) = (ok a && ok b)) {t : List α}
    (ht : ok t = true) :
    (wrap space dot width t).all ok = true ↔
      ∀ word ∈ words (fun u => !space u) t, width < word.length →
        ok (word.drop (word.length - width)) = true := by
  induction hn : t.length using Nat.strong_induction_on generalizing t with
  | _ length ih =>
  have hshort : ∀ {line : List α}, line.length ≤ width → ∀ word ∈ words (fun u => !space u) line,
      width < word.length → ok (word.drop (word.length - width)) = true := by
    intro line hline word hword hlong
    have hlength := length_le_of_mem_words hword
    omega
  obtain ⟨hline, hlast⟩ | ⟨line, u, rest, hu, hline, rfl, hwrap⟩ | ⟨u, rest, hu, rfl, hwrap⟩ |
    ⟨word, rest, hword, hrest, hlong, rfl, hwrap⟩ := wrap_cases hdot hpos t
  · apply iff_of_true _ (hshort hline)
    rcases hlast with rfl | hwrap
    · rfl
    · rw [hwrap, List.all_cons, ht, List.all_nil, Bool.and_true]
  · rw [hsplit line u rest hu, Bool.and_eq_true] at ht
    have hpiece : ok (line ++ [u]) = true := by rw [hsplit line u [] hu, ht.1, hnil]; rfl
    rw [hwrap, List.all_cons, hpiece, Bool.true_and, ih rest.length _ ht.2 rfl,
      words_append_space hu]
    · constructor
      · intro h w hw
        rcases List.mem_append.mp hw with hw | hw
        · exact hshort hline w hw
        · exact h w hw
      · exact fun h w hw => h w (List.mem_append_right _ hw)
    · rw [List.length_append, List.length_cons] at hn
      omega
  · have hwords := words_append_space hu [] rest
    rw [← List.nil_append (u :: rest), hsplit [] u rest hu, hnil, Bool.true_and] at ht
    rw [List.nil_append, words_nil, List.nil_append] at hwords
    rw [hwrap, hwords]
    rw [List.length_cons] at hn
    exact ih rest.length (by omega) ht rfl
  · have hne : word ≠ [] := by
      rintro rfl
      simp only [List.length_nil] at hlong
      omega
    have halone : words (fun u => !space u) word = [word] :=
      words_word hne fun u hu => by simp [hword u hu]
    rw [hwrap]
    cases rest with
    | nil =>
        rw [List.append_nil, halone, List.take_nil, List.append_nil, List.drop_nil]
        simp [wrap, wrapFrom, hlong]
    | cons u rest =>
        have hu : space u = true := hrest u rfl
        rw [hsplit word u rest hu, Bool.and_eq_true] at ht
        have hlength : rest.length < length := by
          rw [List.length_append, List.length_cons] at hn
          omega
        have hpiece : ok (word.drop (word.length - width) ++ [u]) =
            ok (word.drop (word.length - width)) := by
          rw [hsplit _ u [] hu, hnil, Bool.and_true]
        rw [List.take_succ_cons, List.take_zero, List.drop_succ_cons, List.drop_zero, List.all_cons,
          hpiece, Bool.and_eq_true, ih rest.length hlength ht.2 rfl, words_append_space hu, halone]
        simp [hlong]

end LineWrap

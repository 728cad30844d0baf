import Mathlib.Algebra.GroupWithZero.Nat
import Mathlib.Data.List.DropRight
import Mathlib.Tactic.Common

/-!
# The words of a text, joined by a mark

A predicate says which letters are kept.  The words of a text are its maximal
runs of kept letters.  Writing one mark for each run of the others and trimming
the marks at both ends joins the words (`trimMarks_collapse`).

A cut through the joined words is again words joined by marks, except where it
falls right behind a mark (`isJoined_take_iff`).
-/

namespace Words

variable {α : Type*} (keep : α → Bool) (mark : α)

def words (t : List α) : List (List α) := (t.splitOnP fun u => !keep u).filter (· ≠ [])

def joined (ws : List (List α)) : List α := [mark].intercalate ws

/-- One mark for each run of letters that are not kept; the flag says that the
text before ends in one. -/
def collapse : Bool → List α → List α
  | _, [] => []
  | inRun, u :: t =>
    if keep u then u :: collapse false t
    else if inRun then collapse true t
    else mark :: collapse true t

/-- Without the marks at either end. -/
def trimMarks [BEq α] (t : List α) : List α := (t.rdropWhile (· == mark)).dropWhile (· == mark)

/-- Words joined by single marks. -/
def IsJoined [BEq α] (t : List α) : Prop := ∀ w ∈ t.splitOn mark, w ≠ [] ∧ ∀ u ∈ w, keep u = true

/-- The cut falls behind the mark that follows one of the words. -/
def CutsAt (ws : List (List α)) (n : ℕ) : Prop :=
  ∃ k, 0 < k ∧ k < ws.length ∧ ((ws.take k).map List.length).sum + k = n

variable {keep mark}

/-! ## Words -/

theorem words_nil : words keep [] = [] := by simp [words]

/-- What is not kept in front of a text begins no word. -/
theorem words_skip {u : α} (h : keep u = false) (t : List α) : words keep (u :: t) = words keep t := by
  simp [words, List.splitOnP_cons_eq_if_modifyHead, h]

/-- A kept letter with nothing behind it is a word of one letter. -/
theorem words_keep_nil {u : α} (h : keep u = true) : words keep [u] = [[u]] := by
  simp [words, List.splitOnP_cons_eq_if_modifyHead, h]

/-- A letter before something that is not kept is a word by itself. -/
theorem words_keep_skip {u v : α} (hu : keep u = true) (hv : keep v = false) (t : List α) :
    words keep (u :: v :: t) = [u] :: words keep t := by
  simp [words, List.splitOnP_cons_eq_if_modifyHead, hu, hv]

/-- A kept letter in front of another kept letter lengthens the other's word. -/
theorem words_keep_keep {u v : α} (hu : keep u = true) (hv : keep v = true) (t : List α) :
    ∃ w ws, words keep (v :: t) = (v :: w) :: ws ∧
      words keep (u :: v :: t) = (u :: v :: w) :: ws := by
  obtain ⟨w, ws, hsplit⟩ :=
    List.exists_cons_of_ne_nil (List.splitOnP_ne_nil (fun u => !keep u) t)
  refine ⟨w, ws.filter (· ≠ []), ?_, ?_⟩ <;>
    simp [words, List.splitOnP_cons_eq_if_modifyHead, hu, hv, hsplit]

/-- What is not kept ends a word and begins none, so the text may be cut there. -/
theorem words_append_skip {u : α} (h : keep u = false) (s t : List α) :
    words keep (s ++ u :: t) = words keep s ++ words keep t := by
  rw [words, List.splitOnP_append_cons s t (by simp [h]), List.filter_append]
  rfl

/-- What is not kept behind a text ends no word that was not ended. -/
theorem words_concat_skip {u : α} (h : keep u = false) (t : List α) :
    words keep (t ++ [u]) = words keep t := by
  rw [words_append_skip h, words_nil, List.append_nil]

theorem words_dropWhile {p : α → Bool} (hp : ∀ u, p u = true → keep u = false) (t : List α) :
    words keep (t.dropWhile p) = words keep t := by
  induction t with
  | nil => rfl
  | cons u t ih =>
      by_cases hu : p u = true
      · rw [List.dropWhile_cons_of_pos hu, ih, words_skip (hp u hu)]
      · rw [List.dropWhile_cons_of_neg hu]

theorem words_rdropWhile {p : α → Bool} (hp : ∀ u, p u = true → keep u = false) (t : List α) :
    words keep (t.rdropWhile p) = words keep t := by
  induction t using List.reverseRecOn with
  | nil => rfl
  | append_singleton t u ih =>
      by_cases hu : p u = true
      · rw [List.rdropWhile_concat_pos p t u hu, ih, words_concat_skip (hp u hu)]
      · rw [List.rdropWhile_concat_neg p t u hu]

/-- The words of a text are not empty, and hold only letters that are kept. -/
theorem words_spec (t : List α) : ∀ w ∈ words keep t, w ≠ [] ∧ ∀ u ∈ w, keep u = true := by
  have hsplit : ∀ t : List α, ∀ w ∈ t.splitOnP (fun u => !keep u), ∀ u ∈ w, keep u = true := by
    intro t
    induction t with
    | nil => simp
    | cons v t ih =>
        intro w hw
        obtain ⟨first, rest, hpieces⟩ :=
          List.exists_cons_of_ne_nil (List.splitOnP_ne_nil (fun u => !keep u) t)
        rw [hpieces] at ih
        rw [List.splitOnP_cons_eq_if_modifyHead, hpieces] at hw
        split_ifs at hw with hv
        · rcases List.mem_cons.mp hw with rfl | hw
          · simp
          · exact ih w hw
        · rw [List.modifyHead_cons] at hw
          rcases List.mem_cons.mp hw with rfl | hw
          · intro u hu
            rcases List.mem_cons.mp hu with rfl | hu
            · simpa using hv
            · exact ih first List.mem_cons_self u hu
          · exact ih w (List.mem_cons_of_mem _ hw)
  intro w hw
  obtain ⟨hmem, hne⟩ := List.mem_filter.mp hw
  exact ⟨by simpa using hne, hsplit t w hmem⟩

theorem words_flatten (t : List α) : (words keep t).flatten = t.filter keep := by
  induction t with
  | nil => simp [words_nil]
  | cons u t ih =>
      by_cases hu : keep u = true
      · rw [List.filter_cons_of_pos hu, ← ih]
        cases t with
        | nil => simp [words_keep_nil hu, words_nil]
        | cons v t =>
            by_cases hv : keep v = true
            · obtain ⟨w, ws, hold, hnew⟩ := words_keep_keep hu hv t
              rw [hold, hnew]
              rfl
            · have hskip : keep v = false := by simpa using hv
              rw [words_keep_skip hu hskip, words_skip hskip]
              rfl
      · have hskip : keep u = false := by simpa using hu
        rw [words_skip hskip, List.filter_cons_of_neg hu, ih]

/-- A word is never longer than the text that it is a word of. -/
theorem length_le_of_mem_words {t w : List α} (h : w ∈ words keep t) : w.length ≤ t.length := by
  have hsub : w.length ≤ (words keep t).flatten.length :=
    (List.sublist_flatten_of_mem h).length_le
  rw [words_flatten] at hsub
  exact hsub.trans (List.length_filter_le keep t)

theorem words_word {w : List α} (hne : w ≠ []) (hw : ∀ u ∈ w, keep u = true) :
    words keep w = [w] := by
  have hsplit : w.splitOnP (fun u => !keep u) = [w] :=
    List.splitOnP_eq_singleton fun u hu => by simp [hw u hu]
  rw [words, hsplit]
  simp [hne]

/-! ## Joining -/

theorem joined_nil : joined mark [] = [] := rfl

theorem joined_singleton (w : List α) : joined mark [w] = w := List.intercalate_singleton

/-- Joining a word to others puts one mark between it and them. -/
theorem joined_cons {ws : List (List α)} (h : ws ≠ []) (w : List α) :
    joined mark (w :: ws) = w ++ mark :: joined mark ws := by
  rw [joined, List.intercalate_cons_of_ne_nil h, List.append_assoc]
  rfl

/-- A letter in front of the first word is a letter in front of the joined words. -/
theorem joined_cons_letter (u : α) (w : List α) (ws : List (List α)) :
    joined mark ((u :: w) :: ws) = u :: joined mark (w :: ws) := by
  cases ws with
  | nil => rw [joined_singleton, joined_singleton]
  | cons v ws =>
      have hmore : v :: ws ≠ [] := List.cons_ne_nil v ws
      rw [joined_cons hmore, joined_cons hmore, List.cons_append]

/-- Taking the marks out of joined words leaves the letters of the words. -/
theorem joined_filter (hmark : keep mark = false) {ws : List (List α)}
    (hws : ∀ w ∈ ws, ∀ u ∈ w, keep u = true) : (joined mark ws).filter keep = ws.flatten := by
  induction ws with
  | nil => rfl
  | cons w ws ih =>
      have hw : w.filter keep = w := List.filter_eq_self.mpr (hws w List.mem_cons_self)
      have hrest := ih fun v hv => hws v (List.mem_cons_of_mem _ hv)
      cases ws with
      | nil => rw [joined_singleton, hw, List.flatten_singleton]
      | cons v ws =>
          rw [joined_cons (List.cons_ne_nil v ws), List.filter_append, hw,
            List.filter_cons_of_neg (by simp [hmark]), hrest]
          rfl

/-- A text that was joined is made of kept letters and of marks. -/
theorem mem_joined {ws : List (List α)} (hws : ∀ w ∈ ws, ∀ u ∈ w, keep u = true) :
    ∀ u ∈ joined mark ws, keep u = true ∨ u = mark := by
  induction ws with
  | nil => simp [joined_nil]
  | cons w ws ih =>
      have hrest := ih fun v hv => hws v (List.mem_cons_of_mem _ hv)
      intro u hu
      by_cases hempty : ws = []
      · subst hempty
        rw [joined_singleton] at hu
        exact .inl (hws w List.mem_cons_self u hu)
      · rw [joined_cons hempty, List.mem_append, List.mem_cons] at hu
        rcases hu with hu | rfl | hu
        · exact .inl (hws w List.mem_cons_self u hu)
        · exact .inr rfl
        · exact hrest u hu

/-- A cut behind a mark is behind the first word's mark, or further on. -/
theorem cutsAt_cons {w : List α} {ws : List (List α)} (n : ℕ) :
    CutsAt (w :: ws) n ↔ ws ≠ [] ∧ n = w.length + 1 ∨
      ∃ m, n = w.length + 1 + m ∧ CutsAt ws m := by
  constructor
  · intro h
    obtain ⟨k, hpos, hlt, hsum⟩ := h
    obtain ⟨k, rfl⟩ : ∃ j, k = j + 1 := ⟨k - 1, by omega⟩
    rw [List.take_succ_cons, List.map_cons, List.sum_cons] at hsum
    rw [List.length_cons] at hlt
    by_cases hk : k = 0
    · subst hk
      rw [List.take_zero, List.map_nil, List.sum_nil] at hsum
      refine .inl ⟨?_, by omega⟩
      rintro rfl
      rw [List.length_nil] at hlt
      omega
    · exact .inr ⟨((ws.take k).map List.length).sum + k, by omega, k, by omega, by omega, rfl⟩
  · rintro (⟨hmore, rfl⟩ | ⟨m, rfl, k, hpos, hlt, rfl⟩)
    · have hlength := List.length_pos_iff.mpr hmore
      exact ⟨1, by omega, by rw [List.length_cons]; omega, by simp⟩
    · refine ⟨k + 1, by omega, by rw [List.length_cons]; omega, ?_⟩
      rw [List.take_succ_cons, List.map_cons, List.sum_cons]
      omega

/-- An empty text is no joining: a word at least is asked for. -/
theorem not_isJoined_nil [BEq α] : ¬ IsJoined keep mark [] := by
  intro h
  exact (h [] (by simp)).1 rfl

/-- The words of a text that starts with a kept letter, joined from that letter on. -/
theorem joined_words_keep {u : α} (hu : keep u = true) (t : List α) :
    joined mark (words keep (u :: t)) =
      u :: if words keep t ≠ [] ∧ t.head?.any (fun u => !keep u) then
        mark :: joined mark (words keep t)
      else joined mark (words keep t) := by
  cases t with
  | nil => simp [words_nil, words_keep_nil hu, joined_nil, joined_singleton]
  | cons v t =>
      by_cases hv : keep v = true
      · obtain ⟨w, ws, hold, hnew⟩ := words_keep_keep hu hv t
        rw [if_neg (by simp [hv]), hold, hnew, joined_cons_letter u (v :: w) ws]
      · have hskip : keep v = false := by simpa using hv
        rw [words_keep_skip hu hskip, words_skip hskip]
        by_cases hwords : words keep t = []
        · rw [if_neg (by simp [hwords]), hwords, joined_nil, joined_singleton]
        · rw [if_pos ⟨hwords, by simp [hskip]⟩, joined_cons hwords]
          rfl

theorem joined_words_eq_cons {t : List α} (h : words keep t ≠ []) :
    ∃ v s, keep v = true ∧ joined mark (words keep t) = v :: s := by
  obtain ⟨w, ws, hws⟩ := List.exists_cons_of_ne_nil h
  obtain ⟨hw, hkept⟩ := words_spec t w (by rw [hws]; exact List.mem_cons_self)
  obtain ⟨v, w, rfl⟩ := List.exists_cons_of_ne_nil hw
  refine ⟨v, joined mark (w :: ws), hkept v List.mem_cons_self, ?_⟩
  rw [hws, joined_cons_letter]

/-- A cut beyond a word and its mark is a cut of what follows them. -/
theorem take_append_mark (w t : List α) (m : ℕ) :
    (w ++ mark :: t).take (w.length + 1 + m) = w ++ mark :: t.take m := by
  rw [List.take_append, List.take_of_length_le (by omega),
    show w.length + 1 + m - w.length = m + 1 by omega, List.take_succ_cons]

/-! ## Collapsing and trimming -/

/-- Trimming behind reaches the first letter only where it has taken everything
else. -/
theorem rdropWhile_cons (p : α → Bool) (u : α) (t : List α) :
    (u :: t).rdropWhile p =
      if t.rdropWhile p = [] then if p u then [] else [u] else u :: t.rdropWhile p := by
  induction t using List.reverseRecOn with
  | nil => simp [List.rdropWhile_singleton]
  | append_singleton t v ih =>
      rw [← List.cons_append]
      by_cases hv : p v = true
      · rw [List.rdropWhile_concat_pos p _ v hv, List.rdropWhile_concat_pos p _ v hv, ih]
      · rw [List.rdropWhile_concat_neg p _ v hv, List.rdropWhile_concat_neg p _ v hv,
          if_neg (by simp), List.cons_append]

section

variable [BEq α] [LawfulBEq α]

/-- A kept letter in front of a text stops the trimming at its end. -/
theorem rdropWhile_cons_letter (hmark : keep mark = false) {u : α} (hu : keep u = true)
    (t : List α) :
    (u :: t).rdropWhile (· == mark) = u :: t.rdropWhile (· == mark) := by
  have hne : (u == mark) = false := by
    rw [beq_eq_false_iff_ne]
    rintro rfl
    rw [hu] at hmark
    cases hmark
  rw [rdropWhile_cons]
  split
  · rename_i hempty
    rw [hempty, hne, if_neg Bool.false_ne_true]
  · rfl

/-- A mark in front of a text stays where something is left behind it. -/
theorem rdropWhile_cons_mark (t : List α) : (mark :: t).rdropWhile (· == mark) =
    if t.rdropWhile (· == mark) = [] then [] else mark :: t.rdropWhile (· == mark) := by
  rw [rdropWhile_cons, if_pos (beq_self_eq_true mark)]

/-- What collapsing leaves, but for the marks at its end: the joined words,
behind a mark where the text starts in a run that was not written yet. -/
theorem rdropWhile_collapse (hmark : keep mark = false) (t : List α) :
    (collapse keep mark true t).rdropWhile (· == mark) = joined mark (words keep t) ∧
    (collapse keep mark false t).rdropWhile (· == mark) =
      if words keep t ≠ [] ∧ t.head?.any (fun u => !keep u) then mark :: joined mark (words keep t)
      else joined mark (words keep t) := by
  induction t with
  | nil => simp [collapse, words_nil, joined_nil]
  | cons u t ih =>
      obtain ⟨ihrun, ihtext⟩ := ih
      by_cases hu : keep u = true
      · have hletter : (collapse keep mark false (u :: t)).rdropWhile (· == mark) =
            joined mark (words keep (u :: t)) := by
          rw [collapse, if_pos hu, rdropWhile_cons_letter hmark hu, ihtext, joined_words_keep hu]
        constructor
        · rw [← hletter, collapse, collapse, if_pos hu, if_pos hu]
        · rw [hletter, if_neg (by simp [hu])]
      · have hskip : keep u = false := by simpa using hu
        rw [words_skip hskip]
        constructor
        · rw [collapse, if_neg hu, if_pos rfl, ihrun]
        · rw [collapse, if_neg hu, if_neg Bool.false_ne_true, rdropWhile_cons_mark, ihrun]
          by_cases hwords : words keep t = []
          · rw [if_pos (by rw [hwords, joined_nil]), if_neg (by simp [hwords]), hwords, joined_nil]
          · have hne : joined mark (words keep t) ≠ [] := by
              obtain ⟨v, s, -, hjoined⟩ := @joined_words_eq_cons _ keep mark _ hwords
              rw [hjoined]
              exact List.cons_ne_nil _ _
            rw [if_neg hne, if_pos ⟨hwords, by simp [hskip]⟩]

/-- **Joined words.** Collapsing the marks of a text and trimming them joins the text's
words. -/
theorem trimMarks_collapse (hmark : keep mark = false) (t : List α) :
    trimMarks mark (collapse keep mark false t) = joined mark (words keep t) := by
  have hdrop : (joined mark (words keep t)).dropWhile (· == mark) = joined mark (words keep t) := by
    by_cases hwords : words keep t = []
    · rw [hwords]
      rfl
    · obtain ⟨v, s, hv, hjoined⟩ := @joined_words_eq_cons _ keep mark _ hwords
      rw [hjoined]
      apply List.dropWhile_cons_of_neg
      rw [beq_iff_eq]
      rintro rfl
      rw [hv] at hmark
      cases hmark
  rw [trimMarks, (rdropWhile_collapse hmark t).2]
  split
  · have hself : (mark == mark) = true := beq_self_eq_true mark
    rw [List.dropWhile_cons, if_pos hself, hdrop]
  · exact hdrop

/-! ## Cuts -/

theorem isJoined_of_word (hmark : keep mark = false) {w : List α} (hne : w ≠ [])
    (hw : ∀ u ∈ w, keep u = true) : IsJoined keep mark w := by
  have hnone : mark ∉ w := by
    intro hmem
    rw [hw mark hmem] at hmark
    cases hmark
  rw [IsJoined, List.splitOn_eq_singleton hnone]
  intro v hv
  rw [List.mem_singleton.mp hv]
  exact ⟨hne, hw⟩

/-- A word and a mark before a text leave it for the text to be joined words. -/
theorem isJoined_cons_iff (hmark : keep mark = false) {w : List α} (hne : w ≠ [])
    (hw : ∀ u ∈ w, keep u = true) (t : List α) :
    IsJoined keep mark (w ++ mark :: t) ↔ IsJoined keep mark t := by
  have hnone : mark ∉ w := by
    intro hmem
    rw [hw mark hmem] at hmark
    cases hmark
  rw [IsJoined, List.splitOn_append_cons_self_of_not_mem hnone]
  constructor
  · intro h v hv
    exact h v (List.mem_cons_of_mem _ hv)
  · intro h v hv
    rcases List.mem_cons.mp hv with rfl | hv
    · exact ⟨hne, hw⟩
    · exact h v hv

/-- Two texts with a mark between them are joined words where both are. -/
theorem isJoined_append_iff (s t : List α) :
    IsJoined keep mark (s ++ mark :: t) ↔ IsJoined keep mark s ∧ IsJoined keep mark t := by
  rw [IsJoined, List.splitOn_append_cons_self]
  exact List.forall_mem_append

/-- A cut within a word, behind its first letter, leaves a word. -/
theorem isJoined_take_word (hmark : keep mark = false) {w : List α} (hw : w ≠ [])
    (hkept : ∀ u ∈ w, keep u = true) {n : ℕ} (hn : 0 < n) : IsJoined keep mark (w.take n) := by
  apply isJoined_of_word hmark
  · intro hempty
    rcases List.take_eq_nil_iff.mp hempty with h | h
    · omega
    · exact hw h
  · exact fun u hu => hkept u (List.mem_of_mem_take hu)

/-- **Cuts.**  A cut through joined words leaves joined words, unless it falls
behind a mark. -/
theorem isJoined_take_iff (hmark : keep mark = false) {ws : List (List α)} (hne : ws ≠ [])
    (hws : ∀ w ∈ ws, w ≠ [] ∧ ∀ u ∈ w, keep u = true) {n : ℕ} (hn : 0 < n) :
    IsJoined keep mark ((joined mark ws).take n) ↔ ¬ CutsAt ws n := by
  induction ws generalizing n with
  | nil => exact absurd rfl hne
  | cons w ws ih =>
      obtain ⟨hw, hkept⟩ := hws w List.mem_cons_self
      have hpos := List.length_pos_iff.mpr hw
      have hrest : ∀ v ∈ ws, v ≠ [] ∧ ∀ u ∈ v, keep u = true :=
        fun v hv => hws v (List.mem_cons_of_mem _ hv)
      rw [cutsAt_cons]
      by_cases hmore : ws = []
      · subst hmore
        rw [joined_singleton]
        refine iff_of_true (isJoined_take_word hmark hw hkept hn) ?_
        rintro (⟨h, -⟩ | ⟨m, -, k, -, hk, -⟩)
        · exact h rfl
        · exact absurd hk (Nat.not_lt_zero k)
      · rw [joined_cons hmore]
        by_cases hlt : n < w.length + 1
        · -- the cut falls in the first word
          rw [List.take_append_of_le_length (by omega)]
          refine iff_of_true (isJoined_take_word hmark hw hkept hn) ?_
          rintro (⟨-, h⟩ | ⟨m, h, -⟩) <;> omega
        · obtain ⟨m, rfl⟩ : ∃ m, n = w.length + 1 + m := ⟨n - (w.length + 1), by omega⟩
          rw [take_append_mark, isJoined_cons_iff hmark hw hkept]
          by_cases hzero : m = 0
          · -- the cut falls behind the first mark
            subst hzero
            rw [List.take_zero]
            exact iff_of_false not_isJoined_nil fun h => h (.inl ⟨hmore, rfl⟩)
          · -- the cut falls further on
            rw [ih hmore hrest (by omega)]
            apply not_congr
            constructor
            · exact fun h => .inr ⟨m, rfl, h⟩
            · rintro (⟨-, h⟩ | ⟨m', h, hcut⟩)
              · omega
              · obtain rfl : m = m' := by omega
                exact hcut

end

/-! ## Blocks -/

/-- Blocks that do not hold the mark which ends them are told apart by it. -/
theorem splitOn_closed [BEq α] [LawfulBEq α] {x : α} {blocks : List (List α)}
    (h : ∀ block ∈ blocks, x ∉ block) :
    (blocks.flatMap (· ++ [x])).splitOn x = blocks ++ [[]] := by
  induction blocks with
  | nil => exact List.splitOn_nil x
  | cons block blocks ih =>
      rw [List.flatMap_cons, List.append_assoc, List.singleton_append,
        List.splitOn_append_cons_self_of_not_mem (h block List.mem_cons_self),
        ih fun other hother => h other (List.mem_cons_of_mem _ hother)]
      rfl

end Words

import Mathlib.Data.List.Sort
import Mathlib.Data.List.Perm.Subperm

/-!
# Pages behind a cursor

A source lists the rows a cursor leaves, the newest first.  A page is the first
few of them, and its cursor is the mark of its last row: a coarser reading of
the stamp the rows are sorted by.  The next page is asked for strictly below
that mark.

Following the cursors always ends and never repeats a row (`exists_walk`,
`subperm_of_walk`).  It misses none exactly where every page ends between two
marks (`perm_iff_clear`); which of several rows with one stamp comes first does
not matter, and may change from page to page.
-/

namespace Paging

variable {ρ σ κ : Type}

/-- The rows that following the cursors meets, from one cursor on. -/
inductive Walk (stamp : ρ → σ) (mark : σ → κ) (serve : Option κ → List ρ) (limit : ℕ) :
    Option κ → List ρ → Prop
  | last {cursor : Option κ} (hlast : (serve cursor).length ≤ limit) :
      Walk stamp mark serve limit cursor (serve cursor)
  | next {cursor : Option κ} {row : ρ} {rest : List ρ} (hmore : limit < (serve cursor).length)
      (hrow : ((serve cursor).take limit).getLast? = some row)
      (hrest : Walk stamp mark serve limit (some (mark (stamp row))) rest) :
      Walk stamp mark serve limit cursor ((serve cursor).take limit ++ rest)

variable [LinearOrder κ]

/-- What a cursor leaves. -/
def older (stamp : ρ → σ) (mark : σ → κ) (cursor : Option κ) (row : ρ) : Bool :=
  cursor.all fun c => decide (mark (stamp row) < c)

/-- `serve` lists what its cursor leaves of `all`, the newest first. -/
structure Serves [LinearOrder σ] (stamp : ρ → σ) (mark : σ → κ) (all : List ρ) (serve : Option κ → List ρ) :
    Prop where
  monotone : Monotone mark
  complete : ∀ cursor, (serve cursor).Perm (all.filter (older stamp mark cursor))
  sorted : ∀ cursor, (serve cursor).Pairwise fun a b => stamp b ≤ stamp a

/-- No page of `limit` ends between two equal marks. -/
def Clear (limit : ℕ) (marks : List κ) : Prop :=
  ∀ k a b, marks[(k + 1) * limit - 1]? = some a → marks[(k + 1) * limit]? = some b → b < a

variable {stamp : ρ → σ} {mark : σ → κ} {all : List ρ} {serve : Option κ → List ρ} {limit : ℕ}

/-! ## Where pages end -/

/-- Where all marks fit on a page, no cut can fall between equal ones. -/
theorem clear_of_length_le {marks : List κ} (h : marks.length ≤ limit) : Clear limit marks := by
  intro k a b _ hb
  have hlength := (List.getElem?_eq_some_iff.mp hb).1
  have hlimit : limit ≤ (k + 1) * limit := Nat.le_mul_of_pos_left limit (Nat.succ_pos k)
  omega

/-- Marks are clear where the first page ends above the next one, and the marks behind it
are clear. -/
theorem clear_iff {marks : List κ} (hlimit : 1 ≤ limit) :
    Clear limit marks ↔
      (∀ a b, marks[limit - 1]? = some a → marks[limit]? = some b → b < a) ∧
        Clear limit (marks.drop limit) := by
  constructor
  · intro h
    refine ⟨fun a b ha hb => h 0 a b (by simpa using ha) (by simpa using hb), ?_⟩
    intro k a b ha hb
    rw [List.getElem?_drop] at ha hb
    have hpos : 1 ≤ (k + 1) * limit := Nat.mul_pos (Nat.succ_pos k) hlimit
    have hindex : (k + 1 + 1) * limit = limit + (k + 1) * limit := by rw [Nat.succ_mul, Nat.add_comm]
    refine h (k + 1) a b ?_ ?_
    · rw [hindex, Nat.add_sub_assoc hpos]
      exact ha
    · rw [hindex]
      exact hb
  · rintro ⟨hfirst, hlater⟩ k a b ha hb
    cases k with
    | zero => exact hfirst a b (by simpa using ha) (by simpa using hb)
    | succ k =>
        have hpos : 1 ≤ (k + 1) * limit := Nat.mul_pos (Nat.succ_pos k) hlimit
        have hindex : (k + 1 + 1) * limit = limit + (k + 1) * limit := by
          rw [Nat.succ_mul, Nat.add_comm]
        rw [hindex, Nat.add_sub_assoc hpos] at ha
        rw [hindex] at hb
        refine hlater k a b ?_ ?_
        · rw [List.getElem?_drop]
          exact ha
        · rw [List.getElem?_drop]
          exact hb

/-! ## One page -/

section Page

variable {cursor : Option κ} {row : ρ}

/-- What one cursor leaves, a cursor behind it leaves of the same list. -/
theorem older_and (hrow : older stamp mark cursor row = true) (other : ρ) :
    (older stamp mark (some (mark (stamp row))) other && older stamp mark cursor other) =
      older stamp mark (some (mark (stamp row))) other := by
  cases cursor with
  | none => simp [older]
  | some c =>
      have hbelow : mark (stamp row) < c := by simpa [older] using hrow
      rw [Bool.and_eq_left_iff_imp]
      intro hother
      have hlt : mark (stamp other) < mark (stamp row) := by simpa [older] using hother
      simpa [older] using hlt.trans hbelow

variable [LinearOrder σ] (hserves : Serves stamp mark all serve)
  (hrow : ((serve cursor).take limit).getLast? = some row)
include hserves hrow

/-- The row a cursor was made of is not older than itself by stamp, so it is
behind it by mark alone. -/
theorem older_of_last : older stamp mark cursor row = true := by
  have hmem := List.mem_of_mem_take (List.mem_of_mem_getLast? hrow)
  exact (List.mem_filter.mp ((hserves.complete cursor).subset hmem)).2

/-- A page has no row that is older than its own cursor, the mark of its last one. -/
theorem filter_take : ((serve cursor).take limit).filter
    (older stamp mark (some (mark (stamp row)))) = [] := by
  rw [List.filter_eq_nil_iff]
  intro other hother
  have hsorted := (hserves.sorted cursor).sublist (List.take_sublist limit _)
  have hle : stamp row ≤ stamp other := by
    obtain ⟨front, hfront⟩ := List.getLast?_eq_some_iff.mp hrow
    rw [hfront, List.pairwise_append] at hsorted
    rw [hfront, List.mem_append, List.mem_singleton] at hother
    rcases hother with hother | rfl
    · exact hsorted.2.2 other hother row (List.mem_singleton_self row)
    · exact le_refl _
  simpa [older] using hserves.monotone hle

/-- The next page is asked for among the rows this one left. -/
theorem serve_next_perm : (serve (some (mark (stamp row)))).Perm
    (((serve cursor).drop limit).filter (older stamp mark (some (mark (stamp row))))) := by
  have hall : (all.filter (older stamp mark cursor)).filter
      (older stamp mark (some (mark (stamp row)))) =
        all.filter (older stamp mark (some (mark (stamp row)))) := by
    rw [List.filter_filter]
    exact List.filter_congr fun other _ => older_and (older_of_last hserves hrow) other
  have hsplit : (serve cursor).filter (older stamp mark (some (mark (stamp row)))) =
      ((serve cursor).drop limit).filter (older stamp mark (some (mark (stamp row)))) := by
    conv_lhs => rw [← List.take_append_drop limit (serve cursor), List.filter_append]
    rw [filter_take hserves hrow, List.nil_append]
  have hperm := (hserves.complete cursor).filter (older stamp mark (some (mark (stamp row))))
  rw [hall, hsplit] at hperm
  exact (hserves.complete _).trans hperm.symm

/-- Nothing is lost at the end of a page that ends between two marks. -/
theorem serve_next_perm_iff (hlimit : 1 ≤ limit) (hmore : limit < (serve cursor).length) :
    (serve (some (mark (stamp row)))).length = ((serve cursor).drop limit).length ↔
      ∀ a b, ((serve cursor).map (mark ∘ stamp))[limit - 1]? = some a →
        ((serve cursor).map (mark ∘ stamp))[limit]? = some b → b < a := by
  rw [(serve_next_perm hserves hrow).length_eq, List.length_filter_eq_length_iff]
  have hlast : (serve cursor)[limit - 1]? = some row := by
    rw [List.getLast?_eq_getElem?, List.length_take, Nat.min_eq_left hmore.le,
      List.getElem?_take_of_lt (by omega)] at hrow
    exact hrow
  obtain ⟨first, hfirst⟩ : ∃ first, (serve cursor)[limit]? = some first :=
    ⟨_, List.getElem?_eq_getElem hmore⟩
  have hdrop : (serve cursor).drop limit = first :: (serve cursor).drop (limit + 1) := by
    rw [List.drop_eq_getElem_cons hmore]
    rw [List.getElem?_eq_getElem hmore, Option.some.injEq] at hfirst
    rw [hfirst]
  rw [List.getElem?_map, List.getElem?_map, hlast, hfirst]
  constructor
  · intro hall a b ha hb
    obtain rfl := Option.some.inj ha
    obtain rfl := Option.some.inj hb
    have hbelow := hall first (hdrop ▸ List.mem_cons_self)
    simpa [older] using hbelow
  · intro hedge other hother
    have hbelow : mark (stamp first) < mark (stamp row) := hedge _ _ rfl rfl
    have hsorted := (hserves.sorted cursor).sublist (List.drop_sublist limit _)
    rw [hdrop] at hsorted hother
    have hle : stamp other ≤ stamp first := by
      rcases List.mem_cons.mp hother with rfl | hother
      · exact le_refl _
      · exact List.rel_of_pairwise_cons hsorted hother
    simpa [older] using (hserves.monotone hle).trans_lt hbelow

/-- Each page leaves fewer rows behind its last one than it found, as long as it takes any.
-/
theorem length_serve_next_lt (hlimit : 1 ≤ limit) (hmore : limit < (serve cursor).length) :
    (serve (some (mark (stamp row)))).length < (serve cursor).length := by
  rw [(serve_next_perm hserves hrow).length_eq]
  have hfilter := List.length_filter_le (older stamp mark (some (mark (stamp row))))
    ((serve cursor).drop limit)
  rw [List.length_drop] at hfilter
  omega

end Page

/-! ## A whole walk -/

variable [LinearOrder σ]

/-- **Following the cursors ends**, from any cursor on, when a page has room for one row. -/
theorem exists_walk (hserves : Serves stamp mark all serve) (hlimit : 1 ≤ limit)
    (cursor : Option κ) : ∃ rows, Walk stamp mark serve limit cursor rows := by
  induction hn : (serve cursor).length using Nat.strong_induction_on generalizing cursor with
  | _ n ih =>
      by_cases hlast : (serve cursor).length ≤ limit
      · exact ⟨_, .last hlast⟩
      · have hmore : limit < (serve cursor).length := not_le.mp hlast
        obtain ⟨row, hrow⟩ : ∃ row, ((serve cursor).take limit).getLast? = some row := by
          have hne : (serve cursor).take limit ≠ [] := by
            rw [← List.length_pos_iff, List.length_take]
            omega
          exact ⟨_, List.getLast?_eq_some_getLast hne⟩
        obtain ⟨rest, hrest⟩ :=
          ih _ (hn ▸ length_serve_next_lt hserves hrow hlimit hmore) _ rfl
        exact ⟨_, .next hmore hrow hrest⟩

/-- **Nothing is repeated**: the rows of a walk are among those it could be served, each no
oftener. -/
theorem subperm_of_walk (hserves : Serves stamp mark all serve) {cursor : Option κ}
    {rows : List ρ} (h : Walk stamp mark serve limit cursor rows) :
    rows.Subperm (serve cursor) := by
  induction h with
  | last _ => exact List.Subperm.refl _
  | @next cursor row rest hmore hrow _ ih =>
      have hnext : rest.Subperm ((serve cursor).drop limit) :=
        (ih.trans (serve_next_perm hserves hrow).subperm).trans List.filter_sublist.subperm
      have happend := (List.subperm_append_left ((serve cursor).take limit)).mpr hnext
      rwa [List.take_append_drop] at happend

/-- The walk meets its rows newest first, across the ends of its pages too. -/
theorem sorted_of_walk (hserves : Serves stamp mark all serve) {cursor : Option κ}
    {rows : List ρ} (h : Walk stamp mark serve limit cursor rows) :
    rows.Pairwise fun a b => stamp b ≤ stamp a := by
  induction h with
  | last _ => exact hserves.sorted _
  | @next cursor row rest hmore hrow hrest ih =>
      refine List.pairwise_append.mpr
        ⟨(hserves.sorted cursor).sublist (List.take_sublist limit _), ih, ?_⟩
      intro a ha b hb
      have hb' := (serve_next_perm hserves hrow).subset
        ((subperm_of_walk hserves hrest).subset hb)
      have hsorted := hserves.sorted cursor
      rw [← List.take_append_drop limit (serve cursor), List.pairwise_append] at hsorted
      exact hsorted.2.2 a ha b (List.mem_filter.mp hb').1

/-- Two sorted lists with the same rows show the same marks, place by place. -/
theorem marks_eq_of_perm (hmark : Monotone mark) {rows rows' : List ρ} (hperm : rows.Perm rows')
    (hsorted : rows.Pairwise fun a b => stamp b ≤ stamp a)
    (hsorted' : rows'.Pairwise fun a b => stamp b ≤ stamp a) :
    rows.map (mark ∘ stamp) = rows'.map (mark ∘ stamp) := by
  have hmarks : ∀ {rows : List ρ}, rows.Pairwise (fun a b => stamp b ≤ stamp a) →
      (rows.map (mark ∘ stamp)).Pairwise (· ≥ ·) := by
    intro rows h
    exact List.pairwise_map.mpr (h.imp fun hab => hmark hab)
  exact (hperm.map _).eq_of_pairwise' (hmarks hsorted) (hmarks hsorted')

/-- **Nothing is missed and nothing doubled** exactly where every page ends between two
different marks. -/
theorem perm_iff_clear (hserves : Serves stamp mark all serve) (hlimit : 1 ≤ limit)
    {cursor : Option κ} {rows : List ρ} (h : Walk stamp mark serve limit cursor rows) :
    rows.Perm (serve cursor) ↔ Clear limit ((serve cursor).map (mark ∘ stamp)) := by
  induction h with
  | last hlast =>
      refine ⟨fun _ => clear_of_length_le ?_, fun _ => List.Perm.refl _⟩
      rwa [List.length_map]
  | @next cursor row rest hmore hrow hrest ih =>
      have hwhole := List.take_append_drop limit (serve cursor)
      have hnext := serve_next_perm hserves hrow
      have hedge := serve_next_perm_iff hserves hrow hlimit hmore
      have hrest' := subperm_of_walk hserves hrest
      -- where nothing is lost, the rows behind this page are the next walk's own
      have hmarks : (serve (some (mark (stamp row)))).Perm ((serve cursor).drop limit) →
          (serve (some (mark (stamp row)))).map (mark ∘ stamp) =
            ((serve cursor).map (mark ∘ stamp)).drop limit := by
        intro hperm
        rw [← List.map_drop]
        exact marks_eq_of_perm hserves.monotone hperm (hserves.sorted _)
          ((hserves.sorted cursor).sublist (List.drop_sublist limit _))
      have hsame : (serve (some (mark (stamp row)))).length = ((serve cursor).drop limit).length →
          (serve (some (mark (stamp row)))).Perm ((serve cursor).drop limit) := by
        intro hlength
        exact (hnext.subperm.trans List.filter_sublist.subperm).perm_of_length_le hlength.ge
      rw [clear_iff hlimit, ← hedge]
      constructor
      · intro hperm
        have hdrop : rest.Perm ((serve cursor).drop limit) :=
          (List.perm_append_left_iff _).mp (hperm.trans (List.Perm.of_eq hwhole.symm))
        have hbehind : (serve (some (mark (stamp row)))).length =
            ((serve cursor).drop limit).length := by
          apply le_antisymm
          · exact (hnext.subperm.trans List.filter_sublist.subperm).length_le
          · exact hdrop.length_eq ▸ hrest'.length_le
        refine ⟨hbehind, ?_⟩
        rw [← hmarks (hsame hbehind)]
        exact ih.mp (hdrop.trans (hsame hbehind).symm)
      · intro h
        obtain ⟨hbehind, hlater⟩ := h
        rw [← hmarks (hsame hbehind)] at hlater
        have hperm := (ih.mpr hlater).trans (hsame hbehind)
        exact (hperm.append_left _).trans (List.Perm.of_eq hwhole)

end Paging

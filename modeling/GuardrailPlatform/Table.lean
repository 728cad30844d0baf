import Mathlib.Data.List.Nodup

/-!
# Tables

A table is its rows, no two of which clash under its unique constraints.
Selecting, inserting, updating and deleting are SQL's, each one statement: what
would break a constraint throws.

The last section is what row-level isolation needs: a statement that names the
rows of one part of the table does not see, and does not touch, the others.
-/

namespace Storage

/-- The rows of a table, the newest first. -/
structure Table (ρ : Type) (clash : ρ → ρ → Prop) where
  rows : List ρ
  apart : rows.Pairwise fun a b => ¬ clash a b

namespace Table

variable {ρ : Type} {clash : ρ → ρ → Prop}

/-- A table is its rows: the constraint is a proof about them. -/
@[ext] theorem ext {t u : Table ρ clash} (h : t.rows = u.rows) : t = u := by
  cases t
  cases u
  cases h
  rfl

def empty : Table ρ clash := ⟨[], .nil⟩

instance : Inhabited (Table ρ clash) := ⟨empty⟩

/-- `select ... where`. -/
def select (t : Table ρ clash) (p : ρ → Bool) : List ρ := t.rows.filter p

/-- `insert`.  `none` is a violated constraint. -/
def insert [DecidableRel clash] (t : Table ρ clash) (row : ρ) : Option (Table ρ clash) :=
  if h : ∀ old ∈ t.rows, ¬ clash row old then some ⟨row :: t.rows, .cons h t.apart⟩ else none

/-- `delete ... where`. -/
def delete (t : Table ρ clash) (p : ρ → Bool) : Table ρ clash :=
  ⟨t.rows.filter fun row => !p row, t.apart.filter _⟩

/-- A row after `set` has been applied where it matches. -/
def setWhere (p : ρ → Bool) (set : ρ → ρ) (row : ρ) : ρ := if p row then set row else row

/-- `update ... set ... where`.  `none` is a violated constraint. -/
def update [DecidableRel clash] (t : Table ρ clash) (p : ρ → Bool) (set : ρ → ρ) :
    Option (Table ρ clash) :=
  if h : (t.rows.map (setWhere p set)).Pairwise fun a b => ¬ clash a b then some ⟨_, h⟩ else none

variable {t u : Table ρ clash} {row : ρ} {p q : ρ → Bool} {set : ρ → ρ}

section Insert

variable [DecidableRel clash]

/-- An insertion is taken exactly where no old row clashes, and puts the row in
front. -/
theorem insert_eq_some : t.insert row = some u ↔
    (∀ old ∈ t.rows, ¬ clash row old) ∧ u.rows = row :: t.rows := by
  unfold insert
  split
  · rename_i h
    rw [Option.some.injEq]
    constructor
    · rintro rfl
      exact ⟨h, rfl⟩
    · intro h
      obtain ⟨-, hrows⟩ := h
      exact ext hrows.symm
  · rename_i h
    simp only [reduceCtorEq, false_iff]
    exact fun ⟨hfresh, _⟩ => h hfresh

/-- An update is taken exactly where the rows it leaves do not clash. -/
theorem update_eq_some : t.update p set = some u ↔
    (t.rows.map (setWhere p set)).Pairwise (fun a b => ¬ clash a b) ∧
      u.rows = t.rows.map (setWhere p set) := by
  unfold update
  split
  · rename_i h
    rw [Option.some.injEq]
    constructor
    · rintro rfl
      exact ⟨h, rfl⟩
    · intro h
      obtain ⟨-, hrows⟩ := h
      exact ext hrows.symm
  · rename_i h
    simp only [reduceCtorEq, false_iff]
    exact fun ⟨hapart, _⟩ => h hapart

/-- An update is taken where the rows it would leave do not clash. -/
theorem exists_update_of_pairwise
    (h : t.rows.Pairwise fun a b => ¬ clash (setWhere p set a) (setWhere p set b)) :
    ∃ u, t.update p set = some u :=
  ⟨⟨_, List.pairwise_map.mpr h⟩, update_eq_some.mpr ⟨List.pairwise_map.mpr h, rfl⟩⟩

/-- An update under which no two rows come to clash anew breaks no constraint. -/
theorem exists_update (h : ∀ a b, clash (setWhere p set a) (setWhere p set b) → clash a b) :
    ∃ u, t.update p set = some u :=
  exists_update_of_pairwise (t.apart.imp fun hab hset => hab (h _ _ hset))

/-- An update of one row breaks no constraint if its new value clashes with no other row. -/
theorem exists_update_of_key (hkey : ∀ a b, p a = true → p b = true → clash a b)
    (h : ∀ a ∈ t.rows, ∀ b ∈ t.rows, p a = true → p b = false →
      ¬ clash (set a) b ∧ ¬ clash b (set a)) : ∃ u, t.update p set = some u := by
  refine exists_update_of_pairwise (t.apart.imp_of_mem ?_)
  intro a b ha hb hab
  by_cases hpa : p a = true
  · by_cases hpb : p b = true
    · exact (hab (hkey a b hpa hpb)).elim
    · have hclash := (h a ha b hb hpa (Bool.eq_false_iff.mpr hpb)).1
      simpa [setWhere, hpa, hpb] using hclash
  · by_cases hpb : p b = true
    · have hclash := (h b hb a ha hpb (Bool.eq_false_iff.mpr hpa)).2
      simpa [setWhere, hpa, hpb] using hclash
    · simpa [setWhere, hpa, hpb] using hab

/-- An insertion is taken where no old row clashes with the new one. -/
theorem exists_insert (h : ∀ old ∈ t.rows, ¬ clash row old) : ∃ u, t.insert row = some u :=
  ⟨⟨row :: t.rows, .cons h t.apart⟩, insert_eq_some.mpr ⟨h, rfl⟩⟩

/-- An insertion is refused exactly where one of the rows already there clashes with it. -/
theorem insert_eq_none : t.insert row = none ↔ ∃ old ∈ t.rows, clash row old := by
  unfold insert
  split
  · rename_i h
    simp only [reduceCtorEq, false_iff, not_exists, not_and]
    exact h
  · rename_i h
    simpa using h

/-- An insertion that took has changed the table, which has a row more. -/
theorem insert_ne (h : t.insert row = some u) : u ≠ t := by
  rintro rfl
  have hlength := congrArg List.length (insert_eq_some.mp h).2
  simp at hlength

end Insert

/-- A predicate no two rows of a table can both satisfy selects one row at most. -/
theorem select_of_key (hkey : ∀ a b, p a = true → p b = true → clash a b) (hrow : row ∈ t.rows)
    (hp : p row = true) : t.select p = [row] := by
  have hmem : row ∈ t.select p := List.mem_filter.mpr ⟨hrow, hp⟩
  have hapart : (t.select p).Pairwise fun a b => ¬ clash a b := t.apart.filter p
  have hall : ∀ a ∈ t.select p, p a = true := fun a ha => (List.mem_filter.mp ha).2
  cases hselect : t.select p with
  | nil =>
      rw [hselect] at hmem
      cases hmem
  | cons first rest =>
      rw [hselect] at hmem hapart hall
      cases rest with
      | nil => rw [List.mem_singleton.mp hmem]
      | cons second rest =>
          have hclash := hkey first second (hall _ List.mem_cons_self)
            (hall _ (List.mem_cons_of_mem _ List.mem_cons_self))
          exact (List.rel_of_pairwise_cons hapart List.mem_cons_self hclash).elim

/-- The first row of a selection is a row of the table that was selected. -/
theorem mem_of_head?_select (h : (t.select p).head? = some row) : row ∈ t.rows ∧ p row = true :=
  List.mem_filter.mp (List.mem_of_mem_head? h)

/-- A deletion changes nothing exactly where no row of the table is meant. -/
theorem delete_eq_self : t.delete p = t ↔ ∀ row ∈ t.rows, p row = false := by
  constructor
  · intro h row hrow
    have hrows := congrArg Table.rows h
    have hkept := List.filter_eq_self.mp hrows row hrow
    simpa using hkept
  · intro h
    refine ext (List.filter_eq_self.mpr ?_)
    intro row hrow
    rw [h row hrow]
    rfl

/-- Setting changes nothing exactly where each row it meets is as it sets it. -/
theorem map_setWhere_eq_self {rows : List ρ} :
    rows.map (setWhere p set) = rows ↔ ∀ row ∈ rows, p row = true → set row = row := by
  induction rows with
  | nil => simp
  | cons row rows ih =>
      rw [List.map_cons, List.cons.injEq, ih, List.forall_mem_cons]
      by_cases hp : p row = true
      · simp [setWhere, hp]
      · simp [setWhere, hp]

/-- An update changes nothing exactly where each row it meets is as it sets it. -/
theorem update_eq_self [DecidableRel clash] (h : t.update p set = some u) :
    u = t ↔ ∀ row ∈ t.rows, p row = true → set row = row := by
  rw [← map_setWhere_eq_self, ← (update_eq_some.mp h).2]
  constructor
  · rintro rfl
    rfl
  · exact ext

/-! ## What holds of every row -/

section Forall

variable {P : ρ → Prop}

/-- What holds of all rows holds of the rows that a deletion leaves. -/
theorem forall_delete (h : ∀ row ∈ t.rows, P row) : ∀ row ∈ (t.delete p).rows, P row :=
  fun row hrow => h row (List.mem_filter.mp hrow).1

variable [DecidableRel clash]

/-- What holds of all rows and of the new one holds after its insertion. -/
theorem forall_insert (h : ∀ row ∈ t.rows, P row) (hinsert : t.insert row = some u) (hrow : P row) :
    ∀ row ∈ u.rows, P row := by
  rw [(insert_eq_some.mp hinsert).2]
  exact List.forall_mem_cons.mpr ⟨hrow, h⟩

/-- What holds of all rows and is kept by the setting holds after an update. -/
theorem forall_update (h : ∀ row ∈ t.rows, P row) (hupdate : t.update p set = some u)
    (hset : ∀ row, P row → P (set row)) : ∀ row ∈ u.rows, P row := by
  rw [(update_eq_some.mp hupdate).2]
  intro changed hchanged
  obtain ⟨old, hold, rfl⟩ := List.mem_map.mp hchanged
  by_cases hp : p old = true
  · rw [setWhere, if_pos hp]
    exact hset old (h old hold)
  · rw [setWhere, if_neg hp]
    exact h old hold

end Forall

/-! ## Parts of a table -/

/-- An update that keeps its rows in their part selects from it what it selected before. -/
theorem filter_map_setWhere (hpart : ∀ row, p row = true → q row = true)
    (hset : ∀ row, p row = true → q (set row) = true) (rows : List ρ) :
    (rows.map (setWhere p set)).filter q = (rows.filter q).map (setWhere p set) := by
  rw [List.filter_map]
  congr 1
  refine List.filter_congr ?_
  intro row _
  by_cases hp : p row = true
  · simp [setWhere, hp, hset row hp, hpart row hp]
  · simp [setWhere, hp]

/-- An update of another part, which moves no row into this one, leaves this one alone. -/
theorem filter_map_setWhere_of_disjoint (hpart : ∀ row, p row = true → q row = false)
    (hset : ∀ row, p row = true → q (set row) = false) (rows : List ρ) :
    (rows.map (setWhere p set)).filter q = rows.filter q := by
  induction rows with
  | nil => rfl
  | cons row rows ih =>
      rw [List.map_cons, List.filter_cons, List.filter_cons, ih]
      by_cases hp : p row = true
      · simp [setWhere, hp, hset row hp, hpart row hp]
      · simp [setWhere, hp]

/-- Filtering a part for rows that all lie in it loses none of them. -/
theorem filter_of_part (hpart : ∀ row, p row = true → q row = true) (rows : List ρ) :
    (rows.filter q).filter p = rows.filter p := by
  rw [List.filter_filter]
  refine List.filter_congr ?_
  intro row _
  by_cases hp : p row = true
  · simp [hp, hpart row hp]
  · simp [hp]

section Part

variable {t' u' : Table ρ clash}

/-- What is selected from a part of a table depends on that part alone. -/
theorem select_of_part (h : t.select q = t'.select q) (hpart : ∀ row, p row = true → q row = true) :
    t.select p = t'.select p := by
  have hrows := congrArg (List.filter p) h
  rwa [select, select, filter_of_part hpart, filter_of_part hpart] at hrows

/-- Selecting after a deletion is deleting from what would have been selected before. -/
theorem select_delete (t : Table ρ clash) (p q : ρ → Bool) :
    (t.delete p).select q = (t.select q).filter fun row => !p row := by
  rw [select, delete, select, List.filter_filter, List.filter_filter]
  simp only [Bool.and_comm]

/-- Tables that agree on a part agree on it after the same deletion. -/
theorem delete_of_part (h : t.select q = t'.select q) (p : ρ → Bool) :
    (t.delete p).select q = (t'.delete p).select q := by
  rw [select_delete, select_delete, h]

/-- A deletion that meets no row of a part leaves the part as it is. -/
theorem delete_of_disjoint (t : Table ρ clash) (hpart : ∀ row, p row = true → q row = false) :
    (t.delete p).select q = t.select q := by
  rw [select_delete, List.filter_eq_self]
  intro row hrow
  have hq := (List.mem_filter.mp hrow).2
  by_contra hp
  rw [Bool.not_eq_true', Bool.not_eq_false] at hp
  rw [hpart row hp] at hq
  cases hq

variable [DecidableRel clash]

/-- What is inserted in a part depends on the part, if only rows of the part can clash. -/
theorem insert_of_part (h : t.select q = t'.select q)
    (hclash : ∀ old ∈ t.rows, clash row old → q old = true)
    (hclash' : ∀ old ∈ t'.rows, clash row old → q old = true) :
    (t.insert row = none ∧ t'.insert row = none) ∨
      ∃ u u', t.insert row = some u ∧ t'.insert row = some u' ∧ u.select q = u'.select q := by
  have hmem : ∀ old, q old = true → (old ∈ t.rows ↔ old ∈ t'.rows) := by
    intro old hq
    have hrows : old ∈ t.select q ↔ old ∈ t'.select q := by rw [h]
    simpa [select, hq] using hrows
  by_cases hfree : ∀ old ∈ t.rows, ¬ clash row old
  · have hfree' : ∀ old ∈ t'.rows, ¬ clash row old := by
      intro old hold hold'
      exact hfree old ((hmem old (hclash' old hold hold')).mpr hold) hold'
    obtain ⟨u, hu⟩ := exists_insert hfree
    obtain ⟨u', hu'⟩ := exists_insert hfree'
    refine .inr ⟨u, u', hu, hu', ?_⟩
    rw [select] at h ⊢
    rw [select] at h ⊢
    rw [(insert_eq_some.mp hu).2, (insert_eq_some.mp hu').2, List.filter_cons, List.filter_cons, h]
  · push Not at hfree
    obtain ⟨old, hold, hclashes⟩ := hfree
    have hold' := (hmem old (hclash old hold hclashes)).mp hold
    exact .inl ⟨insert_eq_none.mpr ⟨old, hold, hclashes⟩, insert_eq_none.mpr ⟨old, hold', hclashes⟩⟩

/-- An insertion of a row outside a part leaves the part as it is. -/
theorem insert_of_disjoint (h : t.insert row = some u) (hrow : q row = false) :
    u.select q = t.select q := by
  rw [select, (insert_eq_some.mp h).2, List.filter_cons, hrow, if_neg Bool.false_ne_true, select]

/-- Tables that agree on a part agree on it after the same update within it. -/
theorem update_of_part (h : t.select q = t'.select q) (hu : t.update p set = some u)
    (hu' : t'.update p set = some u') (hpart : ∀ row, p row = true → q row = true)
    (hset : ∀ row, q (set row) = q row) : u.select q = u'.select q := by
  have hkept : ∀ row, p row = true → q (set row) = true := by
    intro row hp
    rw [hset, hpart row hp]
  rw [select, select] at h ⊢
  rw [(update_eq_some.mp hu).2, (update_eq_some.mp hu').2, filter_map_setWhere hpart hkept,
    filter_map_setWhere hpart hkept, h]

/-- An update that keeps its rows outside a part leaves the part as it is. -/
theorem update_of_disjoint (hu : t.update p set = some u)
    (hpart : ∀ row, p row = true → q row = false) (hset : ∀ row, q (set row) = q row) :
    u.select q = t.select q := by
  rw [select, select, (update_eq_some.mp hu).2]
  refine filter_map_setWhere_of_disjoint hpart ?_ _
  intro row hp
  rw [hset, hpart row hp]

end Part

end Table

end Storage

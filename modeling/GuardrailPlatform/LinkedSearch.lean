import Mathlib.Logic.Relation
import Mathlib.Tactic.Common

/-!
# Searching linked trees

Trees whose leaves may be names, where a name may stand for another tree, its own
among them.  A depth-first search follows every name once: one set of seen names
is shared by all branches, and a name that is seen counts as a dead end even
while its tree is still being explored.

The search ends, and nothing is lost (`search_exact`).  What it has left behind
without finding a goal is closed under every step but those into seen names, and
in the end the trees of all seen names are behind it.
-/

namespace LinkedSearch

/-- Trees of finite depth, linked by finitely many names. -/
structure Trees (N K : Type) where
  children : N → List N
  name : N → Option K
  /-- What a name stands for. -/
  bound : K → Option N
  goal : N → Bool
  depth : N → ℕ
  depth_pos : ∀ node, 0 < depth node
  depth_child : ∀ node, ∀ child ∈ children node, depth child < depth node
  names : List K
  mem_names : ∀ k b, bound k = some b → k ∈ names

variable {N K : Type}

/-- One child after the other, with what has been seen carried along. -/
def visit (run : N → List K → Option (Bool × List K)) :
    List N → List K → Option (Bool × List K)
  | [], seen => some (false, seen)
  | child :: rest, seen =>
    (run child seen).bind fun first =>
      (visit run rest first.2).map fun others => (first.1 || others.1, others.2)

/-- The search, to a limited depth of calls: whether a goal was found, and the names seen. -/
def search [DecidableEq K] (t : Trees N K) : ℕ → N → List K → Option (Bool × List K)
  | 0, _, _ => none
  | fuel + 1, node, seen =>
    match t.name node with
    | some k =>
      match t.bound k with
      | none => some (false, seen)
      | some b => if k ∈ seen then some (false, seen) else search t fuel b (k :: seen)
    | none => if t.goal node then some (true, seen) else visit (search t fuel) (t.children node) seen

/-- From a node to a child, and from a name to what it stands for. -/
inductive Step (t : Trees N K) : N → N → Prop
  | child {node child : N} : t.name node = none → child ∈ t.children node → Step t node child
  | bound {node b : N} {k : K} : t.name node = some k → t.bound k = some b → Step t node b

/-- A goal that is no name. -/
def IsGoal (t : Trees N K) (node : N) : Prop := t.name node = none ∧ t.goal node = true

def Reaches (t : Trees N K) (node : N) : Prop :=
  ∃ goal, Relation.ReflTransGen (Step t) node goal ∧ IsGoal t goal

theorem Reaches.of_step {t : Trees N K} {a b : N} (h : Step t a b) (hb : Reaches t b) :
    Reaches t a := by
  obtain ⟨goal, hpath, hgoal⟩ := hb
  exact ⟨goal, Relation.ReflTransGen.head h hpath, hgoal⟩

variable {t : Trees N K}

/-! ## What is left behind -/

/-- Behind the search: no goal in the tree, and its names that stand for something seen. -/
inductive Clear (t : Trees N K) (seen : List K) : N → Prop
  | name {node : N} {k : K} :
      t.name node = some k → (∀ b, t.bound k = some b → k ∈ seen) → Clear t seen node
  | inner {node : N} :
      t.name node = none → t.goal node = false → (∀ child ∈ t.children node, Clear t seen child) →
        Clear t seen node

/-- A node that is clear of a search stays so where more has been seen. -/
theorem Clear.mono {seen seen' : List K} (hsub : seen ⊆ seen') {node : N} (h : Clear t seen node) :
    Clear t seen' node := by
  induction h with
  | name hname hseen => exact Clear.name hname fun b hb => hsub (hseen b hb)
  | inner hname hgoal _ ih => exact Clear.inner hname hgoal ih

/-- The trees of all newly seen names are behind the search. -/
def Leaves (t : Trees N K) (seen seen' : List K) : Prop :=
  ∀ k ∈ seen', k ∉ seen → ∀ b, t.bound k = some b → Clear t seen' b

/-- A search that sees nothing new leaves nothing behind that would still have to be
searched. -/
theorem Leaves.refl (seen : List K) : Leaves t seen seen := fun _ hk hnew => absurd hk hnew

/-- Two searches in a row leave nothing behind that was not searched, if neither of them
does. -/
theorem Leaves.trans {a b c : List K} (hab : Leaves t a b) (hbc : Leaves t b c) (hsub : b ⊆ c) :
    Leaves t a c := by
  intro k hk hnew b' hb'
  by_cases hold : k ∈ b
  · exact (hab k hold hnew b' hb').mono hsub
  · exact hbc k hk hold b' hb'

/-- What is behind the search, with the trees of all seen names, cannot be left. -/
theorem not_reaches_of_clear {seen : List K}
    (hnames : ∀ k ∈ seen, ∀ b, t.bound k = some b → Clear t seen b) {node : N}
    (h : Clear t seen node) : ¬ Reaches t node := by
  have hpath : ∀ {last}, Relation.ReflTransGen (Step t) node last → Clear t seen last := by
    intro last hpath
    induction hpath with
    | refl => exact h
    | tail _ hstep ih =>
        cases ih with
        | name hk hseen =>
            cases hstep with
            | child hnone _ => simp [hk] at hnone
            | bound hk' hb =>
                obtain rfl := Option.some.inj (hk.symm.trans hk')
                exact hnames _ (hseen _ hb) _ hb
        | inner hnone _ hchildren =>
            cases hstep with
            | child _ hmem => exact hchildren _ hmem
            | bound hk _ => simp [hnone] at hk
  intro hreach
  obtain ⟨goal, hreached, hname, hgoal⟩ := hreach
  cases hpath hreached with
  | name hk _ => simp [hname] at hk
  | inner _ hno _ => simp [hgoal] at hno

/-! ## The children of a node -/

variable {run : N → List K → Option (Bool × List K)}

/-- Visiting a list visits its head, and then its tail with what the head has
seen. -/
theorem visit_cons {node : N} {rest : List N} {seen : List K} {result : Bool × List K}
    (h : visit run (node :: rest) seen = some result) :
    ∃ first others, run node seen = some first ∧ visit run rest first.2 = some others ∧
      result = (first.1 || others.1, others.2) := by
  obtain ⟨first, hfirst, hothers⟩ := Option.bind_eq_some_iff.mp h
  obtain ⟨others, hrest, hresult⟩ := Option.map_eq_some_iff.mp hothers
  exact ⟨first, others, hfirst, hrest, hresult.symm⟩

/-- A list is found to reach where one of its nodes is. -/
theorem visit_true {nodes : List N} {seen seen' : List K}
    (h : visit run nodes seen = some (true, seen')) :
    ∃ node ∈ nodes, ∃ before after, run node before = some (true, after) := by
  induction nodes generalizing seen seen' with
  | nil => simp [visit] at h
  | cons node rest ih =>
      obtain ⟨first, others, hfirst, hrest, hresult⟩ := visit_cons h
      obtain ⟨found, after⟩ := first
      cases found with
      | true => exact ⟨node, List.mem_cons_self, seen, after, hfirst⟩
      | false =>
          obtain ⟨found', after'⟩ := others
          simp only [Bool.false_or, Prod.mk.injEq] at hresult
          rw [← hresult.1] at hrest
          obtain ⟨found, hmem, hrun⟩ := ih hrest
          exact ⟨found, List.mem_cons_of_mem _ hmem, hrun⟩

theorem visit_sub {nodes : List N} {seen : List K} {result : Bool × List K}
    (hrun : ∀ node before after, run node before = some after → before ⊆ after.2)
    (h : visit run nodes seen = some result) : seen ⊆ result.2 := by
  induction nodes generalizing seen result with
  | nil =>
      obtain rfl : (false, seen) = result := by simpa [visit] using h
      exact List.Subset.refl seen
  | cons node rest ih =>
      obtain ⟨first, others, hfirst, hrest, rfl⟩ := visit_cons h
      exact List.Subset.trans (hrun _ _ _ hfirst) (@ih first.2 others hrest)

/-- A list that is found not to reach has been cleared, node by node. -/
theorem visit_false {nodes : List N} {seen seen' : List K}
    (hsub : ∀ node before after, run node before = some after → before ⊆ after.2)
    (hrun : ∀ node before after, run node before = some (false, after) →
      Leaves t before after ∧ Clear t after node)
    (h : visit run nodes seen = some (false, seen')) :
    Leaves t seen seen' ∧ ∀ node ∈ nodes, Clear t seen' node := by
  induction nodes generalizing seen with
  | nil =>
      obtain rfl : seen = seen' := by simpa [visit] using h
      exact ⟨Leaves.refl seen, by simp⟩
  | cons node rest ih =>
      obtain ⟨first, others, hfirst, hrest, hresult⟩ := visit_cons h
      obtain ⟨found, after⟩ := first
      obtain ⟨found', after'⟩ := others
      obtain ⟨hfound, rfl⟩ := Prod.mk.injEq .. ▸ hresult
      obtain ⟨rfl, rfl⟩ := Bool.or_eq_false_iff.mp hfound.symm
      obtain ⟨hleaves, hclear⟩ := hrun node seen after hfirst
      obtain ⟨hothers, hall⟩ := ih hrest
      have hgrown : after ⊆ seen' := visit_sub hsub hrest
      refine ⟨hleaves.trans hothers hgrown, fun n hn => ?_⟩
      rcases List.mem_cons.mp hn with rfl | hn
      · exact hclear.mono hgrown
      · exact hall n hn

/-- A visit that ends the same under more fuel ends the same for the list. -/
theorem visit_mono {run' : N → List K → Option (Bool × List K)}
    (hrun : ∀ node seen result, run node seen = some result → run' node seen = some result)
    {nodes : List N} {seen : List K} {result : Bool × List K}
    (h : visit run nodes seen = some result) : visit run' nodes seen = some result := by
  induction nodes generalizing seen result with
  | nil => exact h
  | cons node rest ih =>
      obtain ⟨first, others, hfirst, hrest, rfl⟩ := visit_cons h
      rw [visit, hrun _ _ _ hfirst, Option.bind_some, ih hrest, Option.map_some]

/-- The children are all visited when each is, whatever has been seen by then. -/
theorem visit_some {nodes : List N} {seen : List K}
    (hsub : ∀ node before after, run node before = some after → before ⊆ after.2)
    (hrun : ∀ node ∈ nodes, ∀ before, seen ⊆ before → ∃ result, run node before = some result) :
    ∃ result, visit run nodes seen = some result := by
  induction nodes generalizing seen with
  | nil => exact ⟨_, rfl⟩
  | cons node rest ih =>
      obtain ⟨first, hfirst⟩ := hrun node List.mem_cons_self seen (List.Subset.refl seen)
      obtain ⟨others, hothers⟩ := @ih first.2 fun n hn before hgrown =>
        hrun n (List.mem_cons_of_mem _ hn) before (List.Subset.trans (hsub _ _ _ hfirst) hgrown)
      exact ⟨_, by rw [visit, hfirst, Option.bind_some, hothers, Option.map_some]⟩

/-! ## The search -/

variable [DecidableEq K]

/-- What a call does: a dead end, a name followed, a goal, or the children. -/
theorem search_cases (t : Trees N K) (node : N) (seen : List K) :
    ((∃ k, t.name node = some k ∧ (t.bound k = none ∨ k ∈ seen)) ∧
        ∀ fuel, search t (fuel + 1) node seen = some (false, seen)) ∨
      (∃ k b, t.name node = some k ∧ t.bound k = some b ∧ k ∉ seen ∧
        ∀ fuel, search t (fuel + 1) node seen = search t fuel b (k :: seen)) ∨
      (IsGoal t node ∧ ∀ fuel, search t (fuel + 1) node seen = some (true, seen)) ∨
      (t.name node = none ∧ t.goal node = false ∧
        ∀ fuel, search t (fuel + 1) node seen = visit (search t fuel) (t.children node) seen) := by
  cases hname : t.name node with
  | some k =>
      cases hbound : t.bound k with
      | none => exact Or.inl ⟨⟨k, rfl, Or.inl hbound⟩, fun fuel => by simp [search, hname, hbound]⟩
      | some b =>
          by_cases hseen : k ∈ seen
          · exact Or.inl ⟨⟨k, rfl, Or.inr hseen⟩, fun fuel => by simp [search, hname, hbound, hseen]⟩
          · exact Or.inr (Or.inl ⟨k, b, rfl, hbound, hseen, fun fuel => by
              simp [search, hname, hbound, hseen]⟩)
  | none =>
      cases hgoal : t.goal node with
      | true =>
          exact Or.inr (Or.inr (Or.inl ⟨⟨hname, hgoal⟩, fun fuel => by simp [search, hname, hgoal]⟩))
      | false =>
          exact Or.inr (Or.inr (Or.inr ⟨rfl, rfl, fun fuel => by simp [search, hname, hgoal]⟩))

theorem search_sub {fuel : ℕ} {node : N} {seen : List K} {result : Bool × List K}
    (h : search t fuel node seen = some result) : seen ⊆ result.2 := by
  induction fuel generalizing node seen result with
  | zero => cases h
  | succ fuel ih =>
      obtain ⟨-, hdead⟩ | ⟨k, b, -, -, -, hfollow⟩ | ⟨-, hfound⟩ | ⟨-, -, hvisit⟩ :=
        search_cases t node seen
      · obtain rfl := Option.some.inj ((hdead fuel).symm.trans h)
        exact List.Subset.refl seen
      · rw [hfollow] at h
        exact List.Subset.trans (List.subset_cons_self k seen) (ih h)
      · obtain rfl := Option.some.inj ((hfound fuel).symm.trans h)
        exact List.Subset.refl seen
      · rw [hvisit] at h
        exact visit_sub (fun _ _ _ hrun => ih hrun) h

/-- More depth than a search has needed does not change its result, nor what it has seen. -/
theorem search_succ {fuel : ℕ} {node : N} {seen : List K} {result : Bool × List K}
    (h : search t fuel node seen = some result) : search t (fuel + 1) node seen = some result := by
  induction fuel generalizing node seen result with
  | zero => cases h
  | succ fuel ih =>
      obtain ⟨-, hdead⟩ | ⟨k, b, -, -, -, hfollow⟩ | ⟨-, hfound⟩ | ⟨-, -, hvisit⟩ :=
        search_cases t node seen
      · rwa [hdead] at h ⊢
      · rw [hfollow] at h ⊢
        exact ih h
      · rwa [hfound] at h ⊢
      · rw [hvisit] at h ⊢
        exact visit_mono (fun _ _ _ hrun => ih hrun) h

/-- A search that ended with some fuel ends with the same result when it is given more. -/
theorem search_mono {fuel more : ℕ} (hmore : fuel ≤ more) {node : N} {seen : List K}
    {result : Bool × List K} (h : search t fuel node seen = some result) :
    search t more node seen = some result := by
  induction hmore with
  | refl => exact h
  | step _ ih => exact search_succ ih

theorem reaches_of_search {fuel : ℕ} {node : N} {seen seen' : List K}
    (h : search t fuel node seen = some (true, seen')) : Reaches t node := by
  induction fuel generalizing node seen seen' with
  | zero => cases h
  | succ fuel ih =>
      obtain ⟨-, hdead⟩ | ⟨k, b, hname, hbound, -, hfollow⟩ | ⟨hgoal, -⟩ | ⟨hname, -, hvisit⟩ :=
        search_cases t node seen
      · rw [hdead] at h
        simp at h
      · rw [hfollow] at h
        exact (ih h).of_step (Step.bound hname hbound)
      · exact ⟨node, Relation.ReflTransGen.refl, hgoal⟩
      · rw [hvisit] at h
        obtain ⟨child, hmem, before, after, hrun⟩ := visit_true h
        exact (ih hrun).of_step (Step.child hname hmem)

/-- A name is marked before its tree is explored: when this is done, the mark is earned. -/
theorem search_false {fuel : ℕ} {node : N} {seen seen' : List K}
    (h : search t fuel node seen = some (false, seen')) :
    Leaves t seen seen' ∧ Clear t seen' node := by
  induction fuel generalizing node seen seen' with
  | zero => cases h
  | succ fuel ih =>
      obtain ⟨⟨k, hname, hdead⟩, hresult⟩ | ⟨k, b, hname, hbound, -, hfollow⟩ | ⟨-, hfound⟩ |
        ⟨hname, hgoal, hvisit⟩ := search_cases t node seen
      · obtain rfl : seen = seen' := by simpa [hresult] using h
        refine ⟨Leaves.refl seen, Clear.name hname fun b hb => ?_⟩
        rcases hdead with hnone | hseen
        · rw [hnone] at hb
          cases hb
        · exact hseen
      · rw [hfollow] at h
        obtain ⟨hleaves, hclear⟩ := ih h
        have hmark : k ∈ seen' := search_sub h List.mem_cons_self
        refine ⟨?_, Clear.name hname fun _ _ => hmark⟩
        intro x hx hnew b' hb'
        by_cases hself : x = k
        · subst hself
          obtain rfl : b = b' := Option.some.inj (hbound.symm.trans hb')
          exact hclear
        · exact hleaves x hx (by simp [hself, hnew]) b' hb'
      · rw [hfound] at h
        simp at h
      · rw [hvisit] at h
        obtain ⟨hleaves, hclear⟩ :=
          visit_false (fun _ _ _ hrun => search_sub hrun) (fun _ _ _ hrun => ih hrun) h
        exact ⟨hleaves, Clear.inner hname hgoal hclear⟩

/-! ## The search ends -/

/-- The depth of what the names stand for, but for those seen. -/
def unseen (t : Trees N K) (seen : List K) : List K → ℕ
  | [] => 0
  | k :: names =>
    (if k ∈ seen then 0 else ((t.bound k).map t.depth).getD 0) + unseen t seen names

/-- The more names are seen, the fewer of a list of names are left unseen. -/
theorem unseen_anti {seen seen' : List K} (h : seen ⊆ seen') (names : List K) :
    unseen t seen' names ≤ unseen t seen names := by
  induction names with
  | nil => exact Nat.le_refl 0
  | cons k names ih =>
      rw [unseen, unseen]
      by_cases hseen : k ∈ seen
      · rw [if_pos hseen, if_pos (h hseen)]
        omega
      · rw [if_neg hseen]
        by_cases hseen' : k ∈ seen'
        · rw [if_pos hseen']
          omega
        · rw [if_neg hseen']
          omega

/-- Following a name for the first time is paid for by the tree that the name stands for. -/
theorem unseen_cons {k : K} {b : N} (hbound : t.bound k = some b) {seen : List K} (hseen : k ∉ seen)
    {names : List K} (hk : k ∈ names) :
    t.depth b + unseen t (k :: seen) names ≤ unseen t seen names := by
  induction names with
  | nil => cases hk
  | cons x names ih =>
      rw [unseen, unseen]
      by_cases hself : x = k
      · subst hself
        have hrest := unseen_anti (t := t) (List.subset_cons_self x seen) names
        rw [if_pos List.mem_cons_self, if_neg hseen, hbound, Option.map_some, Option.getD_some]
        omega
      · have hrest := ih ((List.mem_cons.mp hk).resolve_left (Ne.symm hself))
        by_cases hold : x ∈ seen
        · rw [if_pos (List.mem_cons_of_mem _ hold), if_pos hold]
          omega
        · rw [if_neg (by simp [hself, hold]), if_neg hold]
          omega

/-- With fuel for the depth and for every unseen name, a search ends. -/
theorem search_enough {fuel : ℕ} {node : N} {seen : List K}
    (h : t.depth node + unseen t seen t.names ≤ fuel) : ∃ result, search t fuel node seen = some result := by
  induction fuel generalizing node seen with
  | zero =>
      have hpos := t.depth_pos node
      omega
  | succ fuel ih =>
      obtain ⟨-, hdead⟩ | ⟨k, b, -, hbound, hseen, hfollow⟩ | ⟨-, hfound⟩ | ⟨-, -, hvisit⟩ :=
        search_cases t node seen
      · exact ⟨_, hdead fuel⟩
      · have hpaid := unseen_cons hbound hseen (t.mem_names k b hbound)
        have hpos := t.depth_pos node
        rw [hfollow]
        exact ih (by omega)
      · exact ⟨_, hfound fuel⟩
      · rw [hvisit]
        apply visit_some (fun _ _ _ hrun => search_sub hrun)
        intro child hchild before hgrown
        have hdepth := t.depth_child node child hchild
        have hless := unseen_anti (t := t) hgrown t.names
        exact ih (by omega)

/-- **The search is exact and ends.**  Given enough depth it gives one result, and finds a goal
just when one is reached. -/
theorem search_exact (t : Trees N K) (node : N) :
    ∃ found seen,
      (∀ fuel ≥ t.depth node + unseen t [] t.names, search t fuel node [] = some (found, seen)) ∧
      (found = true ↔ Reaches t node) := by
  obtain ⟨⟨found, seen⟩, hresult⟩ := @search_enough N K t _ _ node [] (Nat.le_refl _)
  refine ⟨found, seen, fun fuel hfuel => search_mono hfuel hresult, ?_⟩
  cases found with
  | true => exact iff_of_true rfl (reaches_of_search hresult)
  | false =>
      obtain ⟨hleaves, hclear⟩ := search_false hresult
      have hnames : ∀ k ∈ seen, ∀ b, t.bound k = some b → Clear t seen b := fun k hk =>
        hleaves k hk List.not_mem_nil
      exact iff_of_false Bool.false_ne_true (not_reaches_of_clear hnames hclear)

end LinkedSearch

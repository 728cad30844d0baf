import Mathlib.Data.List.Basic

/-!
# Dotted subjects and the patterns that match them

A subject is a word over some alphabet, cut into tokens by a separator.  A
pattern is such a word in which one token stands for any token and another,
last in the pattern, for one token or more.

A pattern without either matches its own subject and nothing else, and a
pattern whose first token is literal only reaches subjects that begin with it.
-/

namespace Subjects

variable {α : Type*} [DecidableEq α]

/-- The separator and the two wildcard tokens. -/
structure Marks (α : Type*) where
  dot : α
  any : List α
  rest : List α

variable (marks : Marks α)

def tokens (word : List α) : List (List α) := word.splitOn marks.dot

/-- Does a token of a pattern stand for itself? -/
def IsLiteral (token : List α) : Prop := token ≠ marks.any ∧ token ≠ marks.rest

def matchTokens : List (List α) → List (List α) → Bool
  | [], [] => true
  | p :: ps, t :: ts =>
    (p == marks.rest && ps.isEmpty) || ((p == marks.any || p == t) && matchTokens ps ts)
  | _, _ => false

/-- Does the pattern match the subject? -/
def covers (pattern subject : List α) : Bool :=
  matchTokens marks (tokens marks pattern) (tokens marks subject)

variable {marks}

/-- Cutting a word at one of its separators gives the tokens of the front, then those of the
back. -/
theorem tokens_append (front back : List α) :
    tokens marks (front ++ marks.dot :: back) = tokens marks front ++ tokens marks back :=
  List.splitOn_append_cons_self front back

/-- A word that has no separator in it is one token, the word itself. -/
theorem tokens_of_notMem {word : List α} (h : marks.dot ∉ word) : tokens marks word = [word] :=
  List.splitOn_eq_singleton h

/-- A subject can be read off its tokens: no two words are cut into the same. -/
theorem tokens_injective {word word' : List α} (h : tokens marks word = tokens marks word') :
    word = word' := by
  have hjoin := congrArg [marks.dot].intercalate h
  simpa only [tokens, List.intercalate_splitOn] using hjoin

/-- A word can be cut at its last separator in one way only. -/
theorem last_separator_injective {dot : α} {front front' back back' : List α} (hback : dot ∉ back)
    (hback' : dot ∉ back') (h : front ++ dot :: back = front' ++ dot :: back') :
    front = front' ∧ back = back' := by
  have hsplit := congrArg (List.splitOn dot) h
  rw [List.splitOn_append_cons_self, List.splitOn_append_cons_self,
    List.splitOn_eq_singleton hback, List.splitOn_eq_singleton hback'] at hsplit
  obtain ⟨hfront, hlast⟩ := List.append_inj' hsplit rfl
  have hjoin := congrArg [dot].intercalate hfront
  rw [List.intercalate_splitOn, List.intercalate_splitOn] at hjoin
  exact ⟨hjoin, (List.cons.inj hlast).1⟩

theorem matchTokens_literal {ps ts : List (List α)} (h : ∀ p ∈ ps, IsLiteral marks p) :
    matchTokens marks ps ts = true ↔ ps = ts := by
  induction ps generalizing ts with
  | nil => cases ts <;> simp [matchTokens]
  | cons p ps ih =>
      cases ts with
      | nil => simp [matchTokens]
      | cons t ts =>
          obtain ⟨hany, hrest⟩ := h p List.mem_cons_self
          have hps : ∀ q ∈ ps, IsLiteral marks q := fun q hq => h q (List.mem_cons_of_mem _ hq)
          simp [matchTokens, beq_eq_false_iff_ne.mpr hany, beq_eq_false_iff_ne.mpr hrest, ih hps]

/-- **Literal patterns.** A pattern without wildcards matches the subject that is spelled
like it, and no other. -/
theorem covers_literal {pattern subject : List α}
    (h : ∀ p ∈ tokens marks pattern, IsLiteral marks p) :
    covers marks pattern subject = true ↔ pattern = subject := by
  rw [covers, matchTokens_literal h]
  exact ⟨tokens_injective, fun heq => congrArg _ heq⟩

/-- Where a pattern that begins with a literal token matches, the subject begins with that
token. -/
theorem matchTokens_head {p t : List α} {ps ts : List (List α)} (hp : IsLiteral marks p)
    (h : matchTokens marks (p :: ps) (t :: ts) = true) : p = t := by
  simp only [matchTokens, beq_eq_false_iff_ne.mpr hp.1, beq_eq_false_iff_ne.mpr hp.2,
    Bool.false_and, Bool.false_or, Bool.and_eq_true, beq_iff_eq] at h
  exact h.1

/-- Equal fronts are matched token by token, so the match is decided behind them. -/
theorem matchTokens_append_same (front ps ts : List (List α))
    (h : matchTokens marks ps ts = true) :
    matchTokens marks (front ++ ps) (front ++ ts) = true := by
  induction front with
  | nil => exact h
  | cons token front ih => simp [matchTokens, ih]

/-- A closing `rest` matches any further tokens, as long as there is one. -/
theorem matchTokens_rest {ts : List (List α)} (h : ts ≠ []) :
    matchTokens marks [marks.rest] ts = true := by
  cases ts with
  | nil => exact absurd rfl h
  | cons t ts => simp [matchTokens]

/-- A closing `any` matches exactly one further token, whatever the token is. -/
theorem matchTokens_any (token : List α) : matchTokens marks [marks.any] [token] = true := by
  simp [matchTokens]

end Subjects

import Mathlib.Logic.Basic

/-!
# Dialogues

A computation that asks its surroundings questions, one after the other, and
goes on with whatever it is answered.  Nothing is said about who answers: the
same question may be answered otherwise the next time.  What a dialogue does is
the set of its transcripts.
-/

/-- A computation that ends, or asks. -/
inductive Dialogue (Q : Type) (A : Q → Type) (α : Type)
  | done (a : α)
  | ask (question : Q) (next : A question → Dialogue Q A α)

namespace Dialogue

variable {Q : Type} {A : Q → Type} {α : Type}

/-- A question, and what was answered. -/
structure Exchange (Q : Type) (A : Q → Type) where
  question : Q
  answer : A question

/-- A dialogue that goes through these exchanges, the first one first, ends so. -/
inductive Ends : Dialogue Q A α → List (Exchange Q A) → α → Prop
  | done (a : α) : Ends (.done a) [] a
  | ask {question : Q} {next : A question → Dialogue Q A α} {answer : A question}
      {rest : List (Exchange Q A)} {a : α} (h : Ends (next answer) rest a) :
      Ends (.ask question next) (⟨question, answer⟩ :: rest) a

variable {transcript : List (Exchange Q A)} {a b : α}

/-- A dialogue that is over has asked nothing, and ends in its result. -/
theorem ends_done_iff : Ends (.done a : Dialogue Q A α) transcript b ↔ transcript = [] ∧ b = a := by
  constructor
  · intro h
    cases h
    exact ⟨rfl, rfl⟩
  · intro h
    obtain ⟨rfl, rfl⟩ := h
    exact .done b

/-- A dialogue that asks goes on with the answer it is given. -/
theorem ends_ask_iff {question : Q} {next : A question → Dialogue Q A α} :
    Ends (.ask question next) transcript a ↔
      ∃ answer rest, transcript = ⟨question, answer⟩ :: rest ∧ Ends (next answer) rest a := by
  constructor
  · intro h
    cases h with
    | ask h => exact ⟨_, _, rfl, h⟩
  · intro h
    obtain ⟨answer, rest, rfl, h⟩ := h
    exact .ask h

end Dialogue

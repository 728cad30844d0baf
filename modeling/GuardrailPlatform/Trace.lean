import Mathlib.Data.List.Basic

/-!
# Runs as histories

A run is the list of its events, newest first.  What may happen next depends
on the whole history, so an invariant of a run is a statement about what
precedes what: `Run.allowed` recovers, for every event of a run, the history it
was allowed in.
-/

namespace Trace

variable {ε : Type*}

/-- A history each of whose events was allowed when it happened. -/
inductive Run (Allowed : List ε → ε → Prop) : List ε → Prop
  | start : Run Allowed []
  | next {history : List ε} {event : ε} (hrun : Run Allowed history)
      (hallowed : Allowed history event) : Run Allowed (event :: history)

variable {Allowed Allowed' : List ε → ε → Prop} {history later earlier : List ε} {event : ε}

/-- Whatever has happened up to some event of a run is itself a run. -/
theorem Run.of_append (h : Run Allowed (later ++ earlier)) : Run Allowed earlier := by
  induction later with
  | nil => exact h
  | cons event later ih =>
      cases h with
      | next hrun _ => exact ih hrun

/-- An event of a run was allowed by what preceded it, which is itself a run. -/
theorem Run.allowed (h : Run Allowed (later ++ event :: earlier)) :
    Run Allowed earlier ∧ Allowed earlier event := by
  cases h.of_append with
  | next hrun hallowed => exact ⟨hrun, hallowed⟩

/-- Every event of a run was allowed by some part of it. -/
theorem Run.allowed_of_mem (h : Run Allowed history) (hevent : event ∈ history) :
    ∃ earlier, event :: earlier <:+ history ∧ Run Allowed earlier ∧ Allowed earlier event := by
  obtain ⟨later, earlier, rfl⟩ := List.append_of_mem hevent
  exact ⟨earlier, List.suffix_append _ _, h.allowed⟩

/-- A run under one rule is a run under every rule that allows at least as much. -/
theorem Run.mono (h : Run Allowed history)
    (himp : ∀ history event, Allowed history event → Allowed' history event) :
    Run Allowed' history := by
  induction h with
  | start => exact .start
  | next _ hallowed ih => exact .next ih (himp _ _ hallowed)

/-- **The invariant rule.**  What holds at the start and survives every allowed
event holds of every run. -/
theorem Run.invariant {Inv : List ε → Prop} (h : Run Allowed history) (hstart : Inv [])
    (hnext : ∀ history event, Run Allowed history → Inv history → Allowed history event →
      Inv (event :: history)) : Inv history := by
  induction h with
  | start => exact hstart
  | next hrun hallowed ih => exact hnext _ _ hrun ih hallowed

/-- A relation each event has to every earlier one holds between any two. -/
theorem Run.pairwise {R : ε → ε → Prop} (h : Run Allowed history)
    (hnew : ∀ history event, Allowed history event → ∀ earlier ∈ history, R event earlier) :
    history.Pairwise R :=
  h.invariant .nil fun _ _ _ hinv hallowed => .cons (hnew _ _ hallowed) hinv

end Trace

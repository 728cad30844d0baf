import GuardrailPlatform.StoreProgram

/-!
# Transactions

The statements of a transaction run against a copy of the store.  The copy
takes the store's place when they are through and the commit takes effect; a
throw before that rolls back.  The commit is a call like the others, and may
fail from outside.

A transaction leaves what a single statement leaves that makes all its changes
or none (`transact_eq_run`).
-/

namespace Storage.Program

variable {σ ε α : Type}

/-- No call fails from outside. -/
def undisturbed : Faults := fun _ => none

/-- `db.transaction(body)`. -/
def transact (body : Program σ ε α) (faults : Faults) (commit : Option Fault) (s : σ) :
    Outcome ε α × σ :=
  match body.run faults s with
  | (.returned a, t) =>
    match commit with
    | none => (.returned a, t)
    | some .lost => (.crashed, s)
    | some .unacknowledged => (.crashed, t)
  | (outcome, _) => (outcome, s)

/-- All statements of the body at once, where none throws. -/
def atomically (body : Program σ ε α) : Statement σ α := fun s =>
  match body.run undisturbed s with
  | (.returned a, t) => some (a, t)
  | _ => none

/-- A run that returns has met no fault, so it is the run without any. -/
theorem run_undisturbed_of_returned {p : Program σ ε α} {faults : Faults} {s : σ} {a : α}
    (h : (p.run faults s).1 = .returned a) : p.run undisturbed s = p.run faults s := by
  induction p generalizing faults s with
  | done outcome => rfl
  | call statement next ih =>
      obtain ⟨-, b, t, hstatement, hrun⟩ := run_call_returned h
      rw [hrun] at h ⊢
      rw [← ih b h, run]
      simp only [undisturbed, hstatement]
      rfl

/-- **A transaction is one statement.**  It leaves the store as `atomically body`
would, run as a single call, and returns where that returns. -/
theorem transact_eq_run (body : Program σ ε α) (faults : Faults) (commit : Option Fault) (s : σ) :
    ∃ fault, (body.transact faults commit s).2 =
        ((perform (atomically body) : Program σ ε α).run (fun _ => fault) s).2 ∧
      ∀ a, (body.transact faults commit s).1 = .returned a ↔
        ((perform (atomically body) : Program σ ε α).run (fun _ => fault) s).1 = .returned a := by
  rcases hbody : body.run faults s with ⟨outcome, t⟩
  cases outcome with
  | returned a =>
      have hreturned : (body.run faults s).1 = .returned a := by rw [hbody]
      have hall : atomically body s = some (a, t) := by
        rw [atomically, run_undisturbed_of_returned hreturned, hbody]
      refine ⟨commit, ?_⟩
      rw [transact, hbody, perform, run]
      cases commit with
      | none =>
          simp only [hall]
          exact ⟨rfl, fun _ => Iff.rfl⟩
      | some fault =>
          cases fault with
          | lost => exact ⟨rfl, fun _ => Iff.rfl⟩
          | unacknowledged => simp [Statement.after, hall]
  | refused e =>
      refine ⟨some .lost, ?_⟩
      rw [transact, hbody, perform, run]
      simp
  | crashed =>
      refine ⟨some .lost, ?_⟩
      rw [transact, hbody, perform, run]
      simp

/-- One call leaves the store as it was, or as its statement makes it. -/
theorem run_perform_store (statement : Statement σ α) (faults : Faults) (s : σ) :
    ((perform statement : Program σ ε α).run faults s).2 = s ∨
      ∃ a, statement s = some (a, ((perform statement : Program σ ε α).run faults s).2) := by
  rw [perform, run]
  cases hstatement : statement s with
  | none =>
      left
      cases faults 0 with
      | none => rfl
      | some fault => cases fault <;> simp [Statement.after, hstatement]
  | some answer =>
      cases faults 0 with
      | none => exact .inr ⟨answer.1, rfl⟩
      | some fault =>
          cases fault with
          | lost => exact .inl rfl
          | unacknowledged => exact .inr ⟨answer.1, by simp [Statement.after, hstatement]⟩

/-- What a run of two calls leaves: the first store, the one between or the last, by where a
fault struck. -/
theorem interrupt_pair (outcome : Outcome ε α) (faults : Faults) (s t u : σ) :
    (interrupt outcome [t, u] faults s).2 =
      if faults 0 = some .lost then s
      else if faults 0 = none ∧ faults 1 ≠ some .lost then u
      else t := by
  cases hfirst : faults 0 with
  | none =>
      cases hsecond : faults 1 with
      | none => simp [interrupt, hfirst, hsecond]
      | some fault => cases fault <;> simp [interrupt, hfirst, hsecond]
  | some fault => cases fault <;> simp [interrupt, hfirst]

/-- What two statements in a row leave behind, by where the first fault strikes them. -/
theorem run_perform_pair {β γ : Type} {first : Statement σ β} {s t : σ} {b : β}
    (h : first s = some (b, t)) (second : Statement σ γ) (faults : Faults) :
    (((perform first : Program σ ε β) >>= fun _ => perform second).run faults s).2 =
      if faults 0 = some .lost then s
      else if faults 0 = none ∧ faults 1 ≠ some .lost then second.after t
      else t := by
  have hstores : ((perform second : Program σ ε γ).course t).stores = [second.after t] := by
    rw [perform, course, Statement.after]
    cases second t <;> rfl
  rw [run_eq_interrupt, course_perform_bind h, Course.cons_stores, hstores, interrupt_pair]

/-- A statement that throws leaves the store as it was, and nothing that follows it runs. -/
theorem run_perform_bind_of_none {β : Type} {statement : Statement σ β} {s : σ}
    (h : statement s = none) (k : β → Program σ ε α) (faults : Faults) :
    ((perform statement >>= k).run faults s).2 = s := by
  rw [run_eq_interrupt, course_perform_bind_of_none h]
  cases hfault : faults 0 with
  | none => simp only [interrupt, hfault]
  | some fault => cases fault <;> simp only [interrupt, hfault]

end Storage.Program

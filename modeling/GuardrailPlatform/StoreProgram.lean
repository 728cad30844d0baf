import Mathlib.Data.List.Basic

/-!
# Programs over a store

A program answers, or makes one atomic statement against a store and goes on
with what that returned.  A statement may throw for reasons of its own; and any
call may fail from outside, before the statement took effect or after.

Three rules follow.  A run is its undisturbed course, cut short by the first
fault (`run_eq_interrupt`).  What every statement keeps, a run keeps
(`run_frames`).  A program whose every statement gives related stores the same
answer cannot tell them apart (`run_of_blind`).
-/

namespace Storage

variable {σ ε α β : Type}

inductive Outcome (ε α : Type)
  | returned (a : α)
  | refused (e : ε)
  | crashed

/-- Go on where there is a value. -/
def Outcome.bind : Outcome ε α → (α → Outcome ε β) → Outcome ε β
  | .returned a, k => k a
  | .refused e, _ => .refused e
  | .crashed, _ => .crashed

/-- A result that was returned is handed on to what follows in the chain. -/
@[simp] theorem Outcome.bind_returned (a : α) (k : α → Outcome ε β) :
    (Outcome.returned a).bind k = k a := rfl

/-- A chain returns only where each of its links has returned. -/
theorem Outcome.bind_eq_returned {outcome : Outcome ε α} {k : α → Outcome ε β} {b : β}
    (h : outcome.bind k = .returned b) : ∃ a, outcome = .returned a ∧ k a = .returned b := by
  cases outcome with
  | returned a => exact ⟨a, rfl, h⟩
  | refused e => cases h
  | crashed => cases h

/-- One atomic statement.  `none` is a throw, which changes nothing. -/
abbrev Statement (σ β : Type) := σ → Option (β × σ)

inductive Program (σ ε α : Type) : Type 1
  | done (outcome : Outcome ε α)
  | call {β : Type} (statement : Statement σ β) (next : β → Program σ ε α)

namespace Program

def bind : Program σ ε α → (α → Program σ ε β) → Program σ ε β
  | .done (.returned a), k => k a
  | .done (.refused e), _ => .done (.refused e)
  | .done .crashed, _ => .done .crashed
  | .call statement next, k => .call statement fun b => (next b).bind k

instance : Monad (Program σ ε) where
  pure a := .done (.returned a)
  bind := bind

/-- `await` one statement. -/
def perform (statement : Statement σ α) : Program σ ε α :=
  .call statement fun a => .done (.returned a)

/-- `await` a query. -/
def query (read : σ → α) : Program σ ε α := perform fun s => some (read s, s)

/-- `throw` a coded error. -/
def refuse (e : ε) : Program σ ε α := .done (.refused e)

/-- `throw` anything else. -/
def crash : Program σ ε α := .done .crashed

/-- Programs in a row may be bracketed either way, which splits a handler where
a proof needs it. -/
theorem bind_assoc (p : Program σ ε α) (k : α → Program σ ε β) {γ : Type}
    (l : β → Program σ ε γ) : p >>= k >>= l = p >>= fun a => k a >>= l := by
  induction p with
  | done outcome => cases outcome <;> rfl
  | call statement next ih => exact congrArg (Program.call statement) (funext fun b => ih b)

instance : LawfulMonad (Program σ ε) :=
  LawfulMonad.mk' _
    (by
      intro α p
      induction p with
      | done outcome => cases outcome <;> rfl
      | call statement next ih => exact congrArg (Program.call statement) (funext fun b => ih b))
    (fun _ _ => rfl)
    (fun p k l => bind_assoc p k l)

/-- A call that a program makes comes before whatever follows the program. -/
theorem call_bind (statement : Statement σ β) (next : β → Program σ ε α) {γ : Type}
    (k : α → Program σ ε γ) :
    (Program.call statement next) >>= k = .call statement fun b => next b >>= k := rfl

/-- A refusal ends a program, and nothing that would follow it runs. -/
@[simp] theorem refuse_bind (e : ε) (k : α → Program σ ε β) :
    (refuse e : Program σ ε α) >>= k = refuse e := rfl

/-- A crash ends a program, and nothing that would follow it runs. -/
@[simp] theorem crash_bind (k : α → Program σ ε β) : (crash : Program σ ε α) >>= k = crash := rfl

end Program

/-! ## Runs -/

/-- How a call fails from outside. -/
inductive Fault
  /-- The statement never took effect. -/
  | lost
  /-- It took effect, and its answer was lost. -/
  | unacknowledged
deriving DecidableEq

/-- Which calls of a run fail, counted from its first. -/
abbrev Faults := ℕ → Option Fault

/-- The faults from the second call on. -/
def Faults.rest (faults : Faults) : Faults := fun n => faults (n + 1)

/-- The faults of the rest of a run are those of the later calls. -/
@[simp] theorem Faults.rest_apply (faults : Faults) (n : ℕ) : faults.rest n = faults (n + 1) := rfl

/-- The store after a statement, whether it threw or not. -/
def Statement.after (statement : Statement σ β) (s : σ) : σ :=
  match statement s with
  | some (_, t) => t
  | none => s

namespace Program

/-- Run a program to its outcome and the store it leaves. -/
def run : Program σ ε α → Faults → σ → Outcome ε α × σ
  | .done outcome, _, s => (outcome, s)
  | .call statement next, faults, s =>
    match faults 0 with
    | some .lost => (.crashed, s)
    | some .unacknowledged => (.crashed, statement.after s)
    | none =>
      match statement s with
      | none => (.crashed, s)
      | some (b, t) => (next b).run faults.rest t

/-- A query that meets no fault answers from the store and leaves it as it is. -/
theorem run_query_bind {read : σ → α} {k : α → Program σ ε β} {faults : Faults}
    (h : faults 0 = none) (s : σ) :
    (query read >>= k).run faults s = (k (read s)).run faults.rest s := by
  rw [query, perform, call_bind, run, h]
  rfl

/-- A statement that meets no fault takes effect, and the run goes on with its
answer. -/
theorem run_perform_bind {statement : Statement σ α} {k : α → Program σ ε β} {faults : Faults}
    {s t : σ} {a : α} (h : faults 0 = none) (hstatement : statement s = some (a, t)) :
    (perform statement >>= k).run faults s = (k a).run faults.rest t := by
  rw [perform, call_bind, run, h]
  simp only [hstatement]
  rfl

/-- A run that returns made its first call, and is the run of what follows it. -/
theorem run_call_returned {statement : Statement σ β} {next : β → Program σ ε α} {faults : Faults}
    {s : σ} {a : α} (h : ((call statement next).run faults s).1 = .returned a) :
    faults 0 = none ∧ ∃ b t, statement s = some (b, t) ∧
      (call statement next).run faults s = (next b).run faults.rest t := by
  rw [run] at h ⊢
  cases hfault : faults 0 with
  | some fault =>
      rw [hfault] at h
      cases fault <;> cases h
  | none =>
      refine ⟨rfl, ?_⟩
      cases hstatement : statement s with
      | none =>
          simp only [hfault, hstatement] at h
          cases h
      | some bt => exact ⟨bt.1, bt.2, rfl, rfl⟩

/-- A run that goes on with programs that make no call ends with the same store. -/
theorem run_bind_of_silent {p : Program σ ε α} {k : α → Program σ ε β} {f : α → Outcome ε β}
    (hsilent : ∀ a, k a = .done (f a)) (faults : Faults) (s : σ) :
    (p >>= k).run faults s = ((p.run faults s).1.bind f, (p.run faults s).2) := by
  induction p generalizing faults s with
  | done outcome =>
      cases outcome with
      | returned a =>
          show (k a).run faults s = _
          rw [hsilent]
          rfl
      | refused e => rfl
      | crashed => rfl
  | call statement next ih =>
      rw [call_bind, run, run]
      cases faults 0 with
      | some fault => cases fault <;> rfl
      | none =>
          cases statement s with
          | none => rfl
          | some bt => exact ih bt.1 faults.rest bt.2

/-! ## The undisturbed course -/

/-- The store after each call of a run, and how the run ends, when nothing fails from outside. -/
structure Course (σ ε α : Type) where
  stores : List σ
  outcome : Outcome ε α

def Course.cons (s : σ) (c : Course σ ε α) : Course σ ε α := { c with stores := s :: c.stores }

def course : Program σ ε α → σ → Course σ ε α
  | .done outcome, _ => { stores := [], outcome }
  | .call statement next, s =>
    match statement s with
    | none => { stores := [s], outcome := .crashed }
    | some (b, t) => ((next b).course t).cons t

/-- The course of a returned result makes no call, and ends where it began. -/
@[simp] theorem course_pure (a : α) (s : σ) :
    (pure a : Program σ ε α).course s = { stores := [], outcome := .returned a } := rfl

/-- The course of a refusal makes no call, and ends in it. -/
@[simp] theorem course_refuse (e : ε) (s : σ) :
    (refuse e : Program σ ε α).course s = { stores := [], outcome := .refused e } := rfl

/-- The course of a crash makes no call, and ends in it. -/
@[simp] theorem course_crash (s : σ) :
    (crash : Program σ ε α).course s = { stores := [], outcome := .crashed } := rfl

/-- A query adds one store to the course: the one it was asked of. -/
@[simp] theorem course_query_bind (read : σ → α) (k : α → Program σ ε β) (s : σ) :
    (query read >>= k).course s = ((k (read s)).course s).cons s := rfl

/-- A query alone leaves the one store that it was asked of. -/
@[simp] theorem course_query (read : σ → α) (s : σ) :
    (query read : Program σ ε α).course s = { stores := [s], outcome := .returned (read s) } := rfl

/-- A statement that takes effect adds the store it leaves to the course. -/
theorem course_perform_bind {statement : Statement σ α} {s t : σ} {a : α}
    (h : statement s = some (a, t)) (k : α → Program σ ε β) :
    (perform statement >>= k).course s = ((k a).course t).cons t := by
  rw [perform, call_bind, course, h]
  rfl

/-- A statement that the store refuses ends the course in a crash. -/
theorem course_perform_bind_of_none {statement : Statement σ α} {s : σ} (h : statement s = none)
    (k : α → Program σ ε β) :
    (perform statement >>= k).course s = { stores := [s], outcome := .crashed } := by
  rw [perform, call_bind, course, h]

/-- A call before a course puts the store it leaves before the course's own. -/
@[simp] theorem Course.cons_stores (s : σ) (c : Course σ ε α) : (c.cons s).stores = s :: c.stores :=
  rfl

/-- A call before a course leaves how the course ends as it is. -/
@[simp] theorem Course.cons_outcome (s : σ) (c : Course σ ε α) : (c.cons s).outcome = c.outcome :=
  rfl

/-- A course that goes on with a program that makes no call. -/
theorem course_bind_of_silent {p : Program σ ε α} {k : α → Program σ ε β} {f : α → Outcome ε β}
    (hsilent : ∀ a, k a = .done (f a)) (s : σ) :
    (p >>= k).course s =
      { stores := (p.course s).stores, outcome := (p.course s).outcome.bind f } := by
  induction p generalizing s with
  | done outcome =>
      cases outcome with
      | returned a =>
          show (k a).course s = _
          rw [hsilent]
          rfl
      | refused e => rfl
      | crashed => rfl
  | call statement next ih =>
      rw [call_bind, course, course]
      cases statement s with
      | none => rfl
      | some bt =>
          show ((next bt.1 >>= k).course bt.2).cons bt.2 = _
          rw [ih]
          rfl

/-- What is left of a course when calls fail. -/
def interrupt (outcome : Outcome ε α) : List σ → Faults → σ → Outcome ε α × σ
  | [], _, s => (outcome, s)
  | t :: stores, faults, s =>
    match faults 0 with
    | some .lost => (.crashed, s)
    | some .unacknowledged => (.crashed, t)
    | none => interrupt outcome stores faults.rest t

/-- **A run is its course, up to the first fault**, which decides how it ends. -/
theorem run_eq_interrupt (p : Program σ ε α) (faults : Faults) (s : σ) :
    p.run faults s = interrupt (p.course s).outcome (p.course s).stores faults s := by
  induction p generalizing faults s with
  | done outcome => rfl
  | call statement next ih =>
      rw [run, course, Statement.after]
      cases statement s with
      | none =>
          cases hfault : faults 0 with
          | none => simp only [interrupt, hfault]
          | some fault => cases fault <;> simp only [interrupt, hfault]
      | some bt =>
          cases hfault : faults 0 with
          | none =>
              simp only [Course.cons, interrupt, hfault]
              exact ih bt.1 faults.rest bt.2
          | some fault => cases fault <;> simp only [Course.cons, interrupt, hfault]

/-- Whatever fails, a run leaves its store at some point of its course. -/
theorem run_mem_course (p : Program σ ε α) (faults : Faults) (s : σ) :
    (p.run faults s).2 ∈ s :: (p.course s).stores := by
  rw [run_eq_interrupt]
  generalize (p.course s).stores = stores, (p.course s).outcome = outcome
  induction stores generalizing faults s with
  | nil => exact List.mem_singleton_self s
  | cons t stores ih =>
      rw [interrupt]
      split
      · exact List.mem_cons_self
      · exact List.mem_cons_of_mem _ List.mem_cons_self
      · exact List.mem_cons_of_mem _ (ih faults.rest t)

/-! ## Runs with one write -/

/-- Calls that find the store alone do not show, unless one fails. -/
theorem interrupt_replicate_append (outcome : Outcome ε α) (n : ℕ) (stores : List σ)
    (faults : Faults) (s : σ) :
    interrupt outcome (List.replicate n s ++ stores) faults s =
      if ∀ i < n, faults i = none then
        interrupt outcome stores (fun i => faults (n + i)) s
      else (.crashed, s) := by
  induction n generalizing faults with
  | zero => simp
  | succ n ih =>
      rw [List.replicate_succ, List.cons_append, interrupt]
      cases hfault : faults 0 with
      | some fault =>
          have hfaulty : ¬ ∀ i < n + 1, faults i = none := by
            intro hnone
            rw [hnone 0 (Nat.succ_pos n)] at hfault
            cases hfault
          rw [if_neg hfaulty]
          cases fault <;> rfl
      | none =>
          have hiff : (∀ i < n, faults.rest i = none) ↔ ∀ i < n + 1, faults i = none := by
            constructor
            · intro hrest i hi
              cases i with
              | zero => exact hfault
              | succ i => exact hrest i (Nat.lt_of_succ_lt_succ hi)
            · intro hall i hi
              exact hall (i + 1) (Nat.succ_lt_succ hi)
          dsimp only
          rw [ih]
          simp only [hiff]
          simp only [Faults.rest_apply, Nat.add_right_comm n]

/-- **One write.**  A run that makes `checks` calls, then one that takes the
store to `t`, then `reads` more, ends with its outcome if nothing fails, and
crashes otherwise; it leaves the store as it was if a check fails or the write
is lost, and leaves `t` otherwise. -/
theorem interrupt_write (outcome : Outcome ε α) (checks reads : ℕ) (faults : Faults) (s t : σ) :
    interrupt outcome (List.replicate checks s ++ List.replicate (reads + 1) t) faults s =
      (if ∀ i ≤ checks + reads, faults i = none then outcome else .crashed,
        if (∀ i < checks, faults i = none) ∧ faults checks ≠ some .lost then t else s) := by
  rw [interrupt_replicate_append, List.replicate_succ]
  by_cases hchecks : ∀ i < checks, faults i = none
  · rw [if_pos hchecks, interrupt, Nat.add_zero]
    have hreads := interrupt_replicate_append outcome reads []
      (Faults.rest fun i => faults (checks + i)) t
    rw [List.append_nil] at hreads
    cases hwrite : faults checks with
    | some fault =>
        have hfaulty : ¬ ∀ i ≤ checks + reads, faults i = none := by
          intro hnone
          rw [hnone checks (Nat.le_add_right _ _)] at hwrite
          cases hwrite
        cases fault with
        | lost => simp [hfaulty]
        | unacknowledged =>
            rw [if_neg hfaulty, if_pos ⟨hchecks, by simp⟩]
    | none =>
        dsimp only
        rw [hreads]
        have hiff : (∀ i < reads, Faults.rest (fun i => faults (checks + i)) i = none) ↔
            ∀ i ≤ checks + reads, faults i = none := by
          constructor
          · intro hlater i hi
            rcases Nat.lt_trichotomy i checks with hlt | rfl | hgt
            · exact hchecks i hlt
            · exact hwrite
            · have hat := hlater (i - checks - 1) (by omega)
              rw [Faults.rest_apply] at hat
              rwa [show checks + (i - checks - 1 + 1) = i by omega] at hat
          · intro hall i hi
            exact hall _ (by omega)
        by_cases hall : ∀ i ≤ checks + reads, faults i = none
        · rw [if_pos (hiff.mpr hall), if_pos hall, if_pos ⟨hchecks, by simp⟩, interrupt]
        · rw [if_neg (fun h => hall (hiff.mp h)), if_neg hall, if_pos ⟨hchecks, by simp⟩]
  · have hfaulty : ¬ ∀ i ≤ checks + reads, faults i = none :=
      fun hall => hchecks fun i hi => hall i (by omega)
    rw [if_neg hchecks, if_neg hfaulty, if_neg fun h => hchecks h.1]

/-! ## Frames -/

/-- Every statement of the program relates the store it finds to the one it leaves. -/
def Frames (frame : σ → σ → Prop) : Program σ ε α → Prop
  | .done _ => True
  | .call statement next => (∀ s b t, statement s = some (b, t) → frame s t) ∧
    ∀ b, (next b).Frames frame

/-- Programs in a row keep a relation that each of them keeps. -/
theorem Frames.bind {frame : σ → σ → Prop} {p : Program σ ε α} {k : α → Program σ ε β}
    (h : p.Frames frame) (hk : ∀ a, (k a).Frames frame) : (p >>= k).Frames frame := by
  induction p with
  | done outcome =>
      cases outcome with
      | returned a => exact hk a
      | refused e => trivial
      | crashed => trivial
  | call statement next ih => exact ⟨h.1, fun b => ih b (h.2 b)⟩

/-- A program that keeps a relation keeps whatever follows from that relation. -/
theorem Frames.mono {frame frame' : σ → σ → Prop} {p : Program σ ε α} (h : p.Frames frame)
    (himp : ∀ s t, frame s t → frame' s t) : p.Frames frame' := by
  induction p with
  | done outcome => trivial
  | call statement next ih =>
      exact ⟨fun s b t hstatement => himp s t (h.1 s b t hstatement), fun b => ih b (h.2 b)⟩

/-- A program of one statement keeps whatever relation the statement keeps. -/
theorem Frames.perform {frame : σ → σ → Prop} {statement : Statement σ α}
    (h : ∀ s a t, statement s = some (a, t) → frame s t) :
    (perform statement : Program σ ε α).Frames frame := ⟨h, fun _ => trivial⟩

theorem Frames.query {frame : σ → σ → Prop} (hrefl : ∀ s, frame s s) (read : σ → α) :
    (query read : Program σ ε α).Frames frame := by
  refine Frames.perform ?_
  intro s a t h
  obtain ⟨-, rfl⟩ := Prod.mk.inj (Option.some.inj h)
  exact hrefl s

/-- **The frame rule.**  Every store of a course, and so the one a run leaves,
is related to the store the run found. -/
theorem course_frames {frame : σ → σ → Prop} (hrefl : ∀ s, frame s s)
    (htrans : ∀ s t u, frame s t → frame t u → frame s u) {p : Program σ ε α} (h : p.Frames frame) (s : σ) :
    ∀ t ∈ (p.course s).stores, frame s t := by
  induction p generalizing s with
  | done outcome => simp [course]
  | call statement next ih =>
      rw [course]
      split
      · intro t ht
        obtain rfl := List.mem_singleton.mp ht
        exact hrefl _
      · rename_i b t hstatement
        intro u hu
        have hst := h.1 s b t hstatement
        rcases List.mem_cons.mp hu with rfl | hu
        · exact hst
        · exact htrans _ _ _ hst (ih b (h.2 b) t u hu)

/-- A whole run keeps what each call keeps, under any faults, since a fault
loses a call or its answer. -/
theorem run_frames {frame : σ → σ → Prop} (hrefl : ∀ s, frame s s)
    (htrans : ∀ s t u, frame s t → frame t u → frame s u) {p : Program σ ε α}
    (h : p.Frames frame) (faults : Faults) (s : σ) : frame s (p.run faults s).2 := by
  rcases List.mem_cons.mp (run_mem_course p faults s) with hs | hmem
  · rw [hs]
    exact hrefl s
  · exact course_frames hrefl htrans h s _ hmem

/-! ## Two runs -/

/-- A statement that gives related stores one answer, and leaves them related. -/
def Agrees (pre : σ → σ → Prop) (statement : Statement σ β) (post : β → σ → σ → Prop) : Prop :=
  ∀ s s', pre s s' →
    (statement s = none ∧ statement s' = none) ∨
    ∃ b t t', statement s = some (b, t) ∧ statement s' = some (b, t') ∧ post b t t'

/-- Every statement gives related stores one answer.  `post` relates the stores
wherever the run stops, and `ret` where the program returns. -/
inductive Blind (post : σ → σ → Prop) (ret : α → σ → σ → Prop) :
    (σ → σ → Prop) → Program σ ε α → Prop
  | returned {pre : σ → σ → Prop} {a : α} (hpost : ∀ s s', pre s s' → post s s')
      (hret : ∀ s s', pre s s' → ret a s s') : Blind post ret pre (.done (.returned a))
  | refused {pre : σ → σ → Prop} {e : ε} (hpost : ∀ s s', pre s s' → post s s') :
      Blind post ret pre (.done (.refused e))
  | crashed {pre : σ → σ → Prop} (hpost : ∀ s s', pre s s' → post s s') :
      Blind post ret pre (.done .crashed)
  | call {pre : σ → σ → Prop} {β : Type} {statement : Statement σ β}
      {next : β → Program σ ε α} (hpost : ∀ s s', pre s s' → post s s')
      {mid : β → σ → σ → Prop} (hstatement : Agrees pre statement mid)
      (hnext : ∀ b, Blind post ret (mid b) (next b)) : Blind post ret pre (.call statement next)

variable {pre : σ → σ → Prop} {ret : α → σ → σ → Prop}

/-- A program that is blind to a difference leaves stores apart by no more than
is allowed. -/
theorem Blind.post {post : σ → σ → Prop} {p : Program σ ε α} (h : Blind post ret pre p) {s s' : σ} (hs : pre s s') :
    post s s' := by
  cases h with
  | returned hpost _ => exact hpost s s' hs
  | refused hpost => exact hpost s s' hs
  | crashed hpost => exact hpost s s' hs
  | call hpost _ _ => exact hpost s s' hs

variable {post : σ → σ → Prop}

/-- What holds of stores that differ more holds of stores that differ less. -/
theorem Blind.weaken {pre' : σ → σ → Prop} {p : Program σ ε α} (h : Blind post ret pre p)
    (hpre : ∀ s s', pre' s s' → pre s s') : Blind post ret pre' p := by
  cases h with
  | returned hpost hret =>
      exact .returned (fun s s' hs => hpost s s' (hpre s s' hs))
        (fun s s' hs => hret s s' (hpre s s' hs))
  | refused hpost => exact .refused fun s s' hs => hpost s s' (hpre s s' hs)
  | crashed hpost => exact .crashed fun s s' hs => hpost s s' (hpre s s' hs)
  | call hpost hstatement hnext =>
      exact .call (fun s s' hs => hpost s s' (hpre s s' hs))
        (fun s s' hs => hstatement s s' (hpre s s' hs)) hnext

/-- Programs in a row are blind where the second is, on whatever the first
leaves. -/
theorem Blind.bind {ret' : β → σ → σ → Prop} {p : Program σ ε α} {k : α → Program σ ε β}
    (h : Blind post ret pre p) (hk : ∀ a, Blind post ret' (ret a) (k a)) :
    Blind post ret' pre (p >>= k) := by
  induction h with
  | @returned pre a hpost hret => exact (hk a).weaken hret
  | refused hpost => exact .refused hpost
  | crashed hpost => exact .crashed hpost
  | call hpost hstatement _ ih => exact .call hpost hstatement ih

/-- A program of one statement is blind where the statement answers both stores alike. -/
theorem Blind.perform {statement : Statement σ α} (hpost : ∀ s s', pre s s' → post s s')
    (hret : ∀ a s s', ret a s s' → post s s') (h : Agrees pre statement ret) :
    Blind post ret pre (perform statement : Program σ ε α) :=
  .call hpost h fun a => .returned (hret a) fun _ _ hs => hs

/-- A query is blind where it reads the same from both stores. -/
theorem Blind.query {read : σ → α} (hpost : ∀ s s', pre s s' → post s s')
    (h : ∀ s s', pre s s' → read s = read s') :
    Blind post (fun _ => pre) pre (query read : Program σ ε α) :=
  .perform hpost (fun _ => hpost) fun s s' hs =>
    .inr ⟨read s, s, s', rfl, by rw [h s s' hs], hs⟩

/-- **The rule for two runs.**  A blind program tells related stores apart
neither by its outcome nor by what it leaves. -/
theorem run_of_blind {p : Program σ ε α} (h : Blind post ret pre p) (faults : Faults) {s s' : σ}
    (hs : pre s s') :
    (p.run faults s).1 = (p.run faults s').1 ∧ post (p.run faults s).2 (p.run faults s').2 := by
  induction h generalizing faults s s' with
  | returned hpost _ => exact ⟨rfl, hpost s s' hs⟩
  | refused hpost => exact ⟨rfl, hpost s s' hs⟩
  | crashed hpost => exact ⟨rfl, hpost s s' hs⟩
  | @call pre β statement next hpost mid hstatement hnext ih =>
      rw [run, run]
      cases faults 0 with
      | some fault =>
          cases fault with
          | lost => exact ⟨rfl, hpost s s' hs⟩
          | unacknowledged =>
              refine ⟨rfl, ?_⟩
              rcases hstatement s s' hs with ⟨h, h'⟩ | ⟨b, t, t', h, h', ht⟩
              · simpa only [Statement.after, h, h'] using hpost s s' hs
              · simpa only [Statement.after, h, h'] using (hnext b).post ht
      | none =>
          rcases hstatement s s' hs with ⟨h, h'⟩ | ⟨b, t, t', h, h', ht⟩
          · rw [h, h']
            exact ⟨rfl, hpost s s' hs⟩
          · rw [h, h']
            exact ih b faults.rest ht

end Program

end Storage

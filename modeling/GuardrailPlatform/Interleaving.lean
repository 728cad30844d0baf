import GuardrailPlatform.StoreProgram
import GuardrailPlatform.Trace
import Mathlib.Logic.Function.Basic

/-!
# Programs that share a store

Several programs run against one store, one call at a time and in any order.  A
turn gives one of them its next call; a schedule is a history of turns, newest
first.

What every statement of every program keeps, a schedule keeps, and an invariant
may lean on a condition that each turn meets (`Shared.after_invariant`).  A
program that is given all its turns in a row meets what its own undisturbed
course meets (`Shared.allowed_alone`).  What a program may still add to a measure
of the store is spent call by call (`Program.Adds.advance`).
-/

namespace Storage

variable {σ ε α ι : Type}

/-! ## One call -/

namespace Program

/-- Make the next call, if there is one. -/
def advance : Program σ ε α → Option Fault → σ → Program σ ε α × σ
  | .done outcome, _, s => (.done outcome, s)
  | .call statement next, fault, s =>
    match fault with
    | some .lost => (crash, s)
    | some .unacknowledged => (crash, statement.after s)
    | none =>
      match statement s with
      | none => (crash, s)
      | some (b, t) => (next b, t)

/-- A call changes nothing and ends the program, or it is one statement, after
which the program goes on or ends. -/
theorem advance_call {β : Type} (statement : Statement σ β) (next : β → Program σ ε α)
    (fault : Option Fault) (s : σ) :
    (call statement next).advance fault s = (crash, s) ∨
      ∃ b t, statement s = some (b, t) ∧ ((call statement next).advance fault s = (crash, t) ∨
        (call statement next).advance fault s = (next b, t)) := by
  cases hstatement : statement s with
  | none =>
      left
      cases fault with
      | none => simp only [advance, hstatement]
      | some fault => cases fault <;> simp only [advance, Statement.after, hstatement]
  | some bt =>
      cases fault with
      | none => exact .inr ⟨bt.1, bt.2, rfl, .inr (by simp only [advance, hstatement])⟩
      | some fault =>
          cases fault with
          | lost => exact .inl rfl
          | unacknowledged =>
              exact .inr ⟨bt.1, bt.2, rfl, .inl (by
                simp only [advance, Statement.after, hstatement])⟩

/-- A query that meets no fault goes on with its answer, and leaves the store to
the others. -/
theorem advance_query_bind {β : Type} (read : σ → β) (k : β → Program σ ε α) (s : σ) :
    (query read >>= k).advance none s = (k (read s), s) := rfl

variable {frame : σ → σ → Prop}

/-- A call of a framing program is framed whether or not it took effect, and so is what is
left. -/
theorem Frames.advance (hrefl : ∀ s, frame s s) {p : Program σ ε α} (h : p.Frames frame)
    (fault : Option Fault) (s : σ) :
    frame s (p.advance fault s).2 ∧ (p.advance fault s).1.Frames frame := by
  cases p with
  | done outcome => exact ⟨hrefl s, trivial⟩
  | call statement next =>
      rcases advance_call statement next fault s with hsame | ⟨b, t, hstatement, hended | hnext⟩
      · rw [hsame]
        exact ⟨hrefl s, trivial⟩
      · rw [hended]
        exact ⟨h.1 s b t hstatement, trivial⟩
      · rw [hnext]
        exact ⟨h.1 s b t hstatement, h.2 b⟩

/-! ## Programs that know the store they run against -/

/-- Every statement of the program's undisturbed course from `s` relates the
store it finds to the one it leaves. -/
def Careful (frame : σ → σ → Prop) : Program σ ε α → σ → Prop
  | .done _, _ => True
  | .call statement next, s =>
    ∀ b t, statement s = some (b, t) → frame s t ∧ (next b).Careful frame t

/-- A program whose every call keeps a relation is careful about it wherever it
starts. -/
theorem Frames.careful {p : Program σ ε α} (h : p.Frames frame) (s : σ) : p.Careful frame s := by
  induction p generalizing s with
  | done outcome => trivial
  | call statement next ih => exact fun b t hstatement => ⟨h.1 s b t hstatement, ih b (h.2 b) t⟩

/-- A query may look before it leaps: the rest need be careful only about what
it saw. -/
theorem careful_query_bind {β : Type} (hrefl : ∀ s, frame s s) {read : σ → β}
    {k : β → Program σ ε α} {s : σ} (h : (k (read s)).Careful frame s) :
    (query read >>= k).Careful frame s := by
  intro b t hstatement
  obtain ⟨rfl, rfl⟩ := Prod.mk.inj (Option.some.inj hstatement)
  exact ⟨hrefl s, h⟩

/-- A statement is careful where it keeps the relation and its rest is careful
from there. -/
theorem careful_perform_bind {β : Type} {statement : Statement σ β} {k : β → Program σ ε α} {s : σ}
    (h : ∀ b t, statement s = some (b, t) → frame s t ∧ (k b).Careful frame t) :
    (perform statement >>= k).Careful frame s := h

/-- A careful program goes on carefully with one that always keeps the relation. -/
theorem Careful.bind {β : Type} {p : Program σ ε β} {k : β → Program σ ε α} {s : σ}
    (h : p.Careful frame s) (hk : ∀ b, (k b).Frames frame) : (p >>= k).Careful frame s := by
  induction p generalizing s with
  | done outcome =>
      cases outcome with
      | returned b => exact (hk b).careful s
      | refused e => trivial
      | crashed => trivial
  | call statement next ih =>
      intro b t hstatement
      exact ⟨(h b t hstatement).1, ih b (h b t hstatement).2⟩

/-- One call of a careful program keeps the relation and leaves it careful, with
or without a fault. -/
theorem Careful.advance (hrefl : ∀ s, frame s s) {p : Program σ ε α} {s : σ}
    (h : p.Careful frame s) (fault : Option Fault) :
    frame s (p.advance fault s).2 ∧ (p.advance fault s).1.Careful frame (p.advance fault s).2 := by
  cases p with
  | done outcome => exact ⟨hrefl s, trivial⟩
  | call statement next =>
      rcases advance_call statement next fault s with hsame | ⟨b, t, hstatement, hended | hnext⟩
      · rw [hsame]
        exact ⟨hrefl s, trivial⟩
      · rw [hended]
        exact ⟨(h b t hstatement).1, trivial⟩
      · rw [hnext]
        exact h b t hstatement

/-! ## What a program may still add -/

/-- By the measure, the program adds at most `n` on any course. -/
def Adds (measure : σ → ℕ) : Program σ ε α → ℕ → Prop
  | .done _, _ => True
  | .call statement next, n =>
    ∃ k ≤ n, (∀ s b t, statement s = some (b, t) → measure t ≤ measure s + k) ∧
      ∀ b, (next b).Adds measure (n - k)

variable {measure : σ → ℕ} {m n : ℕ}

/-- A bound on what a program adds may be replaced by any larger one. -/
theorem Adds.mono {p : Program σ ε α} (h : p.Adds measure m) (hle : m ≤ n) : p.Adds measure n := by
  induction p generalizing m n with
  | done outcome => trivial
  | call statement next ih =>
      obtain ⟨k, hk, hstatement, hnext⟩ := h
      exact ⟨k, Nat.le_trans hk hle, hstatement, fun b => ih b (hnext b) (Nat.sub_le_sub_right hle k)⟩

/-- Programs in a row add at the most what both of them add together. -/
theorem Adds.bind {β : Type} {p : Program σ ε β} {k : β → Program σ ε α} (h : p.Adds measure m)
    (hk : ∀ b, (k b).Adds measure n) : (p >>= k).Adds measure (m + n) := by
  induction p generalizing m with
  | done outcome =>
      cases outcome with
      | returned b => exact (hk b).mono (Nat.le_add_left n m)
      | refused e => trivial
      | crashed => trivial
  | call statement next ih =>
      obtain ⟨added, hadded, hstatement, hnext⟩ := h
      refine ⟨added, Nat.le_trans hadded (Nat.le_add_right m n), hstatement, fun b => ?_⟩
      have hrest := ih b (hnext b)
      rwa [← Nat.sub_add_comm hadded] at hrest

/-- A program none of whose calls raises the measure adds nothing to it. -/
theorem Frames.adds {p : Program σ ε α} (h : p.Frames fun s t => measure t ≤ measure s) :
    p.Adds measure 0 := by
  induction p with
  | done outcome => trivial
  | call statement next ih => exact ⟨0, Nat.le_refl 0, h.1, fun b => ih b (h.2 b)⟩

/-- A program of one statement adds at the most what that statement does. -/
theorem adds_perform {statement : Statement σ α}
    (h : ∀ s a t, statement s = some (a, t) → measure t ≤ measure s + n) :
    (perform statement : Program σ ε α).Adds measure n :=
  ⟨n, Nat.le_refl n, h, fun _ => trivial⟩

/-- A call spends of what the program may add what it adds. -/
theorem Adds.advance {p : Program σ ε α} (h : p.Adds measure n) (fault : Option Fault) (s : σ) :
    ∃ m ≤ n, measure (p.advance fault s).2 + m ≤ measure s + n ∧
      (p.advance fault s).1.Adds measure m := by
  cases p with
  | done outcome => exact ⟨n, Nat.le_refl n, Nat.le_refl _, trivial⟩
  | call statement next =>
      obtain ⟨k, hk, hstatement, hnext⟩ := h
      rcases advance_call statement next fault s with hsame | ⟨b, t, ht, hended | hon⟩
      · rw [hsame]
        exact ⟨n, Nat.le_refl n, Nat.le_refl _, trivial⟩
      · have hadded := hstatement s b t ht
        rw [hended]
        exact ⟨n - k, Nat.sub_le n k, by dsimp only; omega, trivial⟩
      · have hadded := hstatement s b t ht
        rw [hon]
        exact ⟨n - k, Nat.sub_le n k, by dsimp only; omega, hnext b⟩

end Program

/-! ## Schedules -/

/-- A store, and what is left of each program that runs against it. -/
structure Shared (ι σ ε α : Type) where
  store : σ
  threads : ι → Program σ ε α

/-- One program makes its next call, which may fail from outside. -/
structure Turn (ι : Type) where
  thread : ι
  fault : Option Fault

namespace Shared

variable [DecidableEq ι] {start : Shared ι σ ε α} {frame : σ → σ → Prop}

def take (shared : Shared ι σ ε α) (turn : Turn ι) : Shared ι σ ε α :=
  { store := ((shared.threads turn.thread).advance turn.fault shared.store).2,
    threads := Function.update shared.threads turn.thread
      ((shared.threads turn.thread).advance turn.fault shared.store).1 }

/-- After a schedule, the newest turn first. -/
def after (start : Shared ι σ ε α) : List (Turn ι) → Shared ι σ ε α
  | [] => start
  | turn :: earlier => (start.after earlier).take turn

/-- A turn advances the thread whose turn it is, by one call under the turn's fault. -/
theorem take_threads_self (shared : Shared ι σ ε α) (turn : Turn ι) :
    (shared.take turn).threads turn.thread =
      ((shared.threads turn.thread).advance turn.fault shared.store).1 :=
  Function.update_self _ _ _

/-- A turn leaves every other thread where it was, and with it what that thread will do. -/
theorem take_threads_of_ne (shared : Shared ι σ ε α) {turn : Turn ι} {i : ι}
    (h : i ≠ turn.thread) : (shared.take turn).threads i = shared.threads i :=
  Function.update_of_ne h _ _

/-- However the turns fall, each thread still keeps what it kept at the start. -/
theorem threads_frames (hrefl : ∀ s, frame s s) (h : ∀ i, (start.threads i).Frames frame)
    (turns : List (Turn ι)) (i : ι) : ((start.after turns).threads i).Frames frame := by
  induction turns generalizing i with
  | nil => exact h i
  | cons turn earlier ih =>
      by_cases hi : i = turn.thread
      · subst hi
        rw [after, take_threads_self]
        exact ((ih turn.thread).advance hrefl _ _).2
      · rw [after, take_threads_of_ne _ hi]
        exact ih i

/-- The turns of a schedule whose stores the condition relates. -/
def Allowed (start : Shared ι σ ε α) (condition : σ → σ → Prop) (earlier : List (Turn ι))
    (turn : Turn ι) : Prop :=
  condition (start.after earlier).store (start.after (turn :: earlier)).store

/-- **The invariant rule.**  What survives every statement that meets a
condition survives every schedule whose turns all meet it. -/
theorem after_invariant {Inv : σ → Prop} {condition : σ → σ → Prop} (hrefl : ∀ s, frame s s)
    (hframes : ∀ i, (start.threads i).Frames frame)
    (hkeep : ∀ s t, frame s t → condition s t → Inv s → Inv t) (hstart : Inv start.store)
    {turns : List (Turn ι)} (hrun : Trace.Run (start.Allowed condition) turns) :
    Inv (start.after turns).store :=
  hrun.invariant hstart fun earlier turn _ hinv hallowed =>
    hkeep _ _ ((threads_frames hrefl hframes earlier turn.thread).advance hrefl _ _).1 hallowed hinv

/-- **Alone.** A careful program that has every turn to itself meets its condition
throughout. -/
theorem allowed_alone (hrefl : ∀ s, frame s s) {i : ι}
    (h : (start.threads i).Careful frame start.store) {turns : List (Turn ι)}
    (halone : ∀ turn ∈ turns, turn.thread = i) : Trace.Run (start.Allowed frame) turns := by
  have hboth : Trace.Run (start.Allowed frame) turns ∧
      ((start.after turns).threads i).Careful frame (start.after turns).store := by
    induction turns with
    | nil => exact ⟨.start, h⟩
    | cons turn earlier ih =>
        obtain ⟨hrun, hcareful⟩ := ih fun turn hturn => halone turn (List.mem_cons_of_mem _ hturn)
        obtain rfl := halone turn List.mem_cons_self
        have hnext := hcareful.advance hrefl turn.fault
        refine ⟨.next hrun hnext.1, ?_⟩
        rw [after, take_threads_self]
        exact hnext.2
  exact hboth.1

end Shared

end Storage

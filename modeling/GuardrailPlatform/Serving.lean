import GuardrailPlatform.Interleaving

/-!
# Serving requests from a store

Requests arrive at any moment, and each is served by a program of its own.  The
programs share a store with one another, and with a world outside that changes
it as it likes.  A history is newest first.

Two rules follow.  If all that a program ever returns is what one of its calls
was shown, its answer was the truth at some moment between its beginning and its
end (`seen_since`).  And a program that goes on wherever the others may have
taken the store meanwhile, answers once it has had its turns (`answered`).
-/

namespace Storage

variable {σ ε α ι κ : Type}

/-! ## Programs that answer what they see -/

namespace Program

/-- What the program returns was given to it, or shown by the store of a call. -/
def Sees (shown : σ → α → Prop) : Program σ ε α → (α → Prop) → Prop
  | .done (.returned a), given => given a
  | .done (.refused _), _ => True
  | .done .crashed, _ => True
  | .call statement next, given =>
    ∀ s b t, statement s = some (b, t) → (next b).Sees shown fun a => given a ∨ shown s a

variable {shown : σ → α → Prop} {given given' : α → Prop}

/-- A program that was given less was given nothing it should not have. -/
theorem Sees.mono {p : Program σ ε α} (h : p.Sees shown given) (hle : ∀ a, given a → given' a) :
    p.Sees shown given' := by
  induction p generalizing given given' with
  | done outcome =>
      cases outcome with
      | returned a => exact hle a h
      | refused e => trivial
      | crashed => trivial
  | call statement next ih =>
      intro s b t hstatement
      exact ih b (h s b t hstatement) fun a hgiven => hgiven.imp_left (hle a)

/-- Making a call shows the program the store that the call is made against, and no other.
-/
theorem Sees.advance {p : Program σ ε α} (h : p.Sees shown given) (fault : Option Fault) (s : σ) :
    (p.advance fault s).1.Sees shown fun a => given a ∨ shown s a := by
  cases p with
  | done outcome => exact Sees.mono (p := .done outcome) h fun _ hgiven => .inl hgiven
  | call statement next =>
      rcases advance_call statement next fault s with hsame | ⟨b, t, hstatement, hended | hnext⟩
      · rw [hsame]
        trivial
      · rw [hended]
        trivial
      · rw [hnext]
        exact h s b t hstatement

/-- The program returns within `n` calls, if every call is made against a good
store and others only change the store as `rely` allows. -/
def Answers (Good : σ → Prop) (rely : σ → σ → Prop) : ℕ → Program σ ε α → σ → Prop
  | _, .done (.returned _), _ => True
  | _, .done (.refused _), _ => False
  | _, .done .crashed, _ => False
  | 0, .call _ _, _ => False
  | n + 1, .call statement next, s =>
    ∀ t, rely s t → Good t → ∃ b u, statement t = some (b, u) ∧ (next b).Answers Good rely n u

variable {Good : σ → Prop} {rely : σ → σ → Prop} {n : ℕ} {s t : σ}

/-- A program that has returned needs no further call for its answer. -/
theorem answers_returned (a : α) (n : ℕ) (s : σ) :
    (done (.returned a) : Program σ ε α).Answers Good rely n s := by
  cases n <;> trivial

/-- A call that is made against a good store leaves the program with one call fewer to make.
-/
theorem Answers.advance {p : Program σ ε α} (h : p.Answers Good rely n s) (hrely : rely s t)
    (hgood : Good t) :
    (p.advance none t).1.Answers Good rely (n - 1) (p.advance none t).2 := by
  cases p with
  | done outcome =>
      cases outcome with
      | returned a => exact answers_returned a _ _
      | refused e => cases n <;> exact h.elim
      | crashed => cases n <;> exact h.elim
  | call statement next =>
      cases n with
      | zero => exact h.elim
      | succ n =>
          obtain ⟨b, u, hstatement, hnext⟩ := h t hrely hgood
          simp only [Program.advance, hstatement]
          exact hnext

/-- A program that answers within no further call at all has returned already. -/
theorem Answers.returned {p : Program σ ε α} (h : p.Answers Good rely 0 s) :
    ∃ a, p = .done (.returned a) := by
  cases p with
  | done outcome =>
      cases outcome with
      | returned a => exact ⟨a, rfl⟩
      | refused e => exact h.elim
      | crashed => exact h.elim
  | call statement next => exact h.elim

/-- A program that goes on after a change goes on after a change before it. -/
theorem Answers.rely_trans {p : Program σ ε α} (htrans : ∀ s t u, rely s t → rely t u → rely s u)
    (h : p.Answers Good rely n s) (hrely : rely s t) : p.Answers Good rely n t := by
  cases p with
  | done outcome => cases outcome <;> cases n <;> exact h
  | call statement next =>
      cases n with
      | zero => exact h.elim
      | succ n => exact fun u hu hgood => h u (htrans _ _ _ hrely hu) hgood

end Program

/-! ## Histories -/

/-- What happens to a server. -/
inductive Serving (ι κ σ : Type)
  | began (thread : ι) (request : κ)
  | turn (turn : Turn ι)
  | outside (store : σ)

namespace Serving

section

variable [DecidableEq ι] (serve : κ → Program σ ε α) (start : σ)

/-- The store and what is left of each program. -/
def world : List (Serving ι κ σ) → Shared ι σ ε α
  | [] => { store := start, threads := fun _ => Program.crash }
  | .began thread request :: earlier =>
    { world earlier with threads := Function.update (world earlier).threads thread (serve request) }
  | .turn taken :: earlier => (world earlier).take taken
  | .outside store :: earlier => { world earlier with store }

/-- How many turns a thread has had. -/
def turnsOf (thread : ι) (history : List (Serving ι κ σ)) : ℕ :=
  history.countP fun
    | .turn taken => taken.thread = thread
    | _ => false

variable {serve start} {earlier later : List (Serving ι κ σ)} {thread : ι} {request : κ}

/-- A request that arrives starts its own program, on its thread, from the beginning. -/
theorem world_began_self : (world serve start (.began thread request :: earlier)).threads thread =
    serve request := Function.update_self _ _ _

/-- A request that arrives leaves the programs on other threads where they are. -/
theorem world_began_of_ne {other : ι} (h : other ≠ thread) :
    (world serve start (.began thread request :: earlier)).threads other =
      (world serve start earlier).threads other := Function.update_of_ne h _ _

/-- What every statement of every request keeps, every thread keeps wherever it stands. -/
theorem threads_frames {frame : σ → σ → Prop} (hrefl : ∀ s, frame s s)
    (h : ∀ request, (serve request).Frames frame) (history : List (Serving ι κ σ)) (thread : ι) :
    ((world serve start history).threads thread).Frames frame := by
  induction history generalizing thread with
  | nil => trivial
  | cons event earlier ih =>
      cases event with
      | began other request =>
          by_cases hthread : thread = other
          · rw [hthread, world_began_self]
            exact h request
          · rw [world_began_of_ne hthread]
            exact ih thread
      | turn taken =>
          show (((world serve start earlier).take taken).threads thread).Frames frame
          by_cases hthread : thread = taken.thread
          · rw [hthread, Shared.take_threads_self]
            exact ((ih taken.thread).advance hrefl _ _).2
          · rw [Shared.take_threads_of_ne _ hthread]
            exact ih thread
      | outside store => exact ih thread

/-- Some moment between two histories showed the value. -/
def ShownSince (serve : κ → Program σ ε α) (start : σ) (shown : σ → α → Prop)
    (since history : List (Serving ι κ σ)) (a : α) : Prop :=
  ∃ moment, since <:+ moment ∧ moment <:+ history ∧ shown (world serve start moment).store a

/-- **A snapshot.**  What a thread returns was shown at some moment since it began. -/
theorem seen_since {shown : σ → α → Prop} {given : α → Prop}
    (hsees : (serve request).Sees shown given) (hlast : ∀ other, .began thread other ∉ later) :
    ((world serve start (later ++ .began thread request :: earlier)).threads thread).Sees shown
      fun a => given a ∨ ShownSince serve start shown (.began thread request :: earlier)
        (later ++ .began thread request :: earlier) a := by
  induction later with
  | nil =>
      rw [List.nil_append, world_began_self]
      exact hsees.mono fun _ hgiven => .inl hgiven
  | cons event later ih =>
      have hbefore := ih fun other hmem => hlast other (List.mem_cons_of_mem _ hmem)
      have hsuffix : later ++ .began thread request :: earlier <:+
          event :: (later ++ .began thread request :: earlier) := List.suffix_cons _ _
      have hkept : ((world serve start (later ++ .began thread request :: earlier)).threads
          thread).Sees shown fun a => given a ∨ ShownSince serve start shown
            (.began thread request :: earlier)
            (event :: (later ++ .began thread request :: earlier)) a := by
        refine hbefore.mono fun a hgiven => hgiven.imp_right fun hshown => ?_
        obtain ⟨moment, hsince, huntil, hshown⟩ := hshown
        exact ⟨moment, hsince, List.IsSuffix.trans huntil hsuffix, hshown⟩
      rw [List.cons_append]
      cases event with
      | began other request' =>
          have hother : thread ≠ other := by
            intro hsame
            subst hsame
            exact hlast request' List.mem_cons_self
          rw [world_began_of_ne hother]
          exact hkept
      | turn taken =>
          by_cases hthread : thread = taken.thread
          · subst hthread
            show (((world serve start _).take taken).threads taken.thread).Sees shown _
            rw [Shared.take_threads_self]
            refine (hkept.advance taken.fault _).mono ?_
            intro a hgiven
            rcases hgiven with hgiven | hshown
            · exact hgiven
            · exact .inr ⟨_, List.suffix_append _ _, hsuffix, hshown⟩
          · show (((world serve start _).take taken).threads thread).Sees shown _
            rw [Shared.take_threads_of_ne _ hthread]
            exact hkept
      | outside store => exact hkept

/-- The event leaves a thread undisturbed: the thread's calls do not fail and are
made against good stores, and others change the store as it may rely on. -/
def Undisturbed (serve : κ → Program σ ε α) (start : σ) (Good : σ → Prop) (rely : σ → σ → Prop)
    (thread : ι) (history : List (Serving ι κ σ)) : Serving ι κ σ → Prop
  | .began other _ => other ≠ thread
  | .turn taken =>
    (taken.thread = thread → taken.fault = none ∧ Good (world serve start history).store) ∧
      (taken.thread ≠ thread → rely (world serve start history).store
        (world serve start (.turn taken :: history)).store)
  | .outside store => rely (world serve start history).store store

/-- **An answer.**  A thread that nothing disturbs has answered once it has had
the turns it needs. -/
theorem answered {Good : σ → Prop} {rely : σ → σ → Prop} {n : ℕ} (hrefl : ∀ s, rely s s)
    (htrans : ∀ s t u, rely s t → rely t u → rely s u)
    (hanswers : ∀ s, (serve request).Answers Good rely n s)
    (hquiet : ∀ event middle, event :: middle <:+ later ++ .began thread request :: earlier →
      .began thread request :: earlier <:+ middle →
      Undisturbed serve start Good rely thread middle event)
    (hturns : n ≤ turnsOf thread later) :
    ∃ a, (world serve start (later ++ .began thread request :: earlier)).threads thread =
      .done (.returned a) := by
  have hleft : ((world serve start (later ++ .began thread request :: earlier)).threads
      thread).Answers Good rely (n - turnsOf thread later)
        (world serve start (later ++ .began thread request :: earlier)).store := by
    clear hturns
    induction later with
    | nil =>
        rw [List.nil_append, world_began_self]
        exact hanswers _
    | cons event later ih =>
        have hbefore := ih fun event' middle hmiddle hsince =>
          hquiet event' middle (List.IsSuffix.trans hmiddle (List.suffix_cons _ _)) hsince
        have hnow := hquiet event (later ++ .began thread request :: earlier) (List.suffix_refl _)
          (List.suffix_append _ _)
        rw [List.cons_append]
        cases event with
        | began other request' =>
            have hcount : turnsOf thread (.began other request' :: later) = turnsOf thread later := by
              simp [turnsOf]
            rw [world_began_of_ne (Ne.symm hnow), hcount]
            exact hbefore
        | turn taken =>
            by_cases hthread : taken.thread = thread
            · subst hthread
              obtain ⟨hfault, hgood⟩ := hnow.1 rfl
              have hcount : turnsOf taken.thread (.turn taken :: later) =
                  turnsOf taken.thread later + 1 := by
                simp [turnsOf]
              have hadvance := hbefore.advance (hrefl _) hgood
              rw [hcount, ← Nat.sub_sub]
              show (((world serve start _).take taken).threads taken.thread).Answers _ _ _ _
              rw [Shared.take_threads_self]
              show Program.Answers _ _ _ _ ((world serve start _).take taken).store
              unfold Shared.take
              rw [hfault]
              exact hadvance
            · have hcount : turnsOf thread (.turn taken :: later) = turnsOf thread later := by
                simp [turnsOf, hthread]
              rw [hcount]
              show (((world serve start _).take taken).threads thread).Answers _ _ _ _
              rw [Shared.take_threads_of_ne _ (Ne.symm hthread)]
              exact hbefore.rely_trans htrans (hnow.2 hthread)
        | outside store =>
            have hcount : turnsOf thread (.outside store :: later) = turnsOf thread later := by
              simp [turnsOf]
            rw [hcount]
            exact hbefore.rely_trans htrans hnow
  rw [Nat.sub_eq_zero_of_le hturns] at hleft
  exact hleft.returned

end

end Serving

end Storage

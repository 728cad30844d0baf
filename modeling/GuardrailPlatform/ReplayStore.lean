import GuardrailPlatform.Envelope
import GuardrailPlatform.RegistryData

/-!
# The replay store

`replay.ts` keeps two maps: claims, which expire with the deadline of the
request that made them, and the replies remembered for commands.  This file
models the in-memory store with the clock as an argument, and what the file
prescribes for a delivery of an rpc request: check its freshness, then claim
its key for the rest of its deadline and the permitted skew.

The two comparisons meet exactly: a delivery that is still fresh finds an
earlier claim unexpired, so a request is let through once.
-/

namespace Guardrail

open Js

inductive ReplayClaim
  | fresh
  | duplicate
  | unavailable
deriving DecidableEq

/-- `InMemoryReplayStore`: expiry times, and replies with theirs. -/
structure ReplayStore where
  claims : JSString → Option ℤ
  replies : JSString → Option (JSString × ℤ)

namespace ReplayStore

def empty : ReplayStore := ⟨fun _ => none, fun _ => none⟩

/-- `claim`, at a clock reading. -/
def claim (store : ReplayStore) (now : ℤ) (key : JSString) (ttlMs : ℤ) :
    ReplayClaim × ReplayStore :=
  let claimed := (ReplayClaim.fresh,
    { store with claims := Function.update store.claims key (some (now + ttlMs)) })
  match store.claims key with
  | none => claimed
  | some expiresAt => if expiresAt > now then (.duplicate, store) else claimed

/-- `recall`, at a clock reading. -/
def recallValue (store : ReplayStore) (now : ℤ) (key : JSString) : Option JSString :=
  match store.replies key with
  | none => none
  | some (value, expiresAt) => if expiresAt ≤ now then none else some value

/-- `remember`, at a clock reading. -/
def remember (store : ReplayStore) (now : ℤ) (key value : JSString) (ttlMs : ℤ) : ReplayStore :=
  { store with replies := Function.update store.replies key (some (value, now + ttlMs)) }

end ReplayStore

/-- What happens to the store. -/
inductive ReplayEvent
  | delivery
  | claimReplay (key : JSString) (ttlMs : ℤ)
  | recallReply (key : JSString)
  | rememberReply (key value : JSString) (ttlMs : ℤ)

variable (reg : Registry) (m : RequestMeta) (key : JSString)

/-- One delivery of the request: fresh enough to claim its key, or dropped before that. -/
def deliver (store : ReplayStore) (now : ℤ) : Option ReplayClaim × ReplayStore :=
  match checkFreshness reg m .rpc now with
  | .stale .. => (none, store)
  | .fresh =>
    let (answer, store') := store.claim now key (m.deadlineAt - now + clockSkewMs)
    (some answer, store')

/-- One event: what it answers to a delivery of the request, and the store after it. -/
def ReplayEvent.step (store : ReplayStore) (now : ℤ) : ReplayEvent → Option ReplayClaim × ReplayStore
  | .delivery => deliver reg m key store now
  | .claimReplay other ttlMs => (none, (store.claim now other ttlMs).2)
  | .recallReply _ => (none, store)
  | .rememberReply other value ttlMs => (none, store.remember now other value ttlMs)

/-- What the deliveries of the request were answered, in order. -/
def answersOf (store : ReplayStore) : List (ℤ × ReplayEvent) → List ReplayClaim
  | [] => []
  | (now, event) :: events =>
    (event.step reg m key store now).1.toList ++
      answersOf (event.step reg m key store now).2 events

/-! ## A claim outlives its request -/

variable {reg m key}

/-- The key is claimed until no delivery of the request can be fresh. -/
def ClaimedThrough (m : RequestMeta) (key : JSString) (store : ReplayStore) : Prop :=
  ∃ expiresAt, store.claims key = some expiresAt ∧ m.deadlineAt + clockSkewMs ≤ expiresAt

/-- A request that is fresh comes before its deadline and the permitted skew are over. -/
theorem lt_of_checkFreshness {now : ℤ} (h : checkFreshness reg m .rpc now = .fresh) :
    now < m.deadlineAt + clockSkewMs := by
  unfold checkFreshness at h
  dsimp only at h
  split_ifs at h with _ _ hdeadline
  simpa using hdeadline

/-- A claim of one key leaves what is stored under every other key. -/
theorem claims_claim_of_ne {store : ReplayStore} {now ttlMs : ℤ} {other : JSString}
    (h : other ≠ key) : (store.claim now other ttlMs).2.claims key = store.claims key := by
  unfold ReplayStore.claim
  split
  · exact Function.update_of_ne h.symm _ _
  · split
    · rfl
    · exact Function.update_of_ne h.symm _ _

theorem claim_of_unexpired {store : ReplayStore} {now ttlMs expiresAt : ℤ}
    (hclaims : store.claims key = some expiresAt) (hnow : now < expiresAt) :
    store.claim now key ttlMs = (.duplicate, store) := by
  simp only [ReplayStore.claim, hclaims, gt_iff_lt, hnow, if_true]

/-- A claim that was granted is stored to expire its time to live later. -/
theorem claims_of_fresh {store : ReplayStore} {now ttlMs : ℤ}
    (h : (store.claim now key ttlMs).1 = .fresh) :
    (store.claim now key ttlMs).2.claims key = some (now + ttlMs) := by
  unfold ReplayStore.claim at h ⊢
  split at h
  · exact Function.update_self ..
  · rename_i expiresAt hclaims
    by_cases hnow : expiresAt > now
    · rw [if_pos hnow] at h
      cases h
    · rw [if_neg hnow]
      exact Function.update_self ..

/-- Once a request's key is claimed through, every further delivery is a duplicate or stale. -/
theorem deliver_of_claimedThrough {store : ReplayStore} (h : ClaimedThrough m key store) (now : ℤ) :
    (deliver reg m key store now).1 ≠ some .fresh ∧ (deliver reg m key store now).2 = store := by
  obtain ⟨expiresAt, hclaims, hexpires⟩ := h
  unfold deliver
  split
  · exact ⟨nofun, rfl⟩
  · rename_i hfresh
    have hnow : now < expiresAt := (lt_of_checkFreshness hfresh).trans_le hexpires
    rw [claim_of_unexpired hclaims hnow]
    exact ⟨nofun, rfl⟩

/-- A delivery that is let through leaves its key claimed for as long as the request is
fresh. -/
theorem claimedThrough_of_deliver {store : ReplayStore} {now : ℤ}
    (h : (deliver reg m key store now).1 = some .fresh) :
    ClaimedThrough m key (deliver reg m key store now).2 := by
  unfold deliver at h ⊢
  split at h
  · cases h
  · rename_i hfresh
    have hclaims := claims_of_fresh (Option.some.inj h)
    exact ⟨_, hclaims, by omega⟩

/-- No event on other keys takes the claim away, or grants a claim of its key again. -/
theorem claimedThrough_step {store : ReplayStore} {now : ℤ} {event : ReplayEvent}
    (h : ClaimedThrough m key store) (hother : ∀ k ttlMs, event = .claimReplay k ttlMs → k ≠ key) :
    ClaimedThrough m key (event.step reg m key store now).2 ∧
      (event.step reg m key store now).1 ≠ some .fresh := by
  cases event with
  | delivery =>
      obtain ⟨hanswer, hstore⟩ := @deliver_of_claimedThrough reg _ _ _ h now
      exact ⟨by rw [ReplayEvent.step, hstore]; exact h, hanswer⟩
  | claimReplay other ttlMs =>
      obtain ⟨expiresAt, hclaims, hexpires⟩ := h
      have hne := hother other ttlMs rfl
      exact ⟨⟨expiresAt, (claims_claim_of_ne hne).trans hclaims, hexpires⟩, nofun⟩
  | recallReply other => exact ⟨h, nofun⟩
  | rememberReply other value ttlMs => exact ⟨h, nofun⟩

/-- Once its key is claimed through, no further delivery of the request is let through. -/
theorem fresh_notMem_answersOf {events : List (ℤ × ReplayEvent)} {store : ReplayStore}
    (h : ClaimedThrough m key store)
    (hother : ∀ now k ttlMs, (now, ReplayEvent.claimReplay k ttlMs) ∈ events → k ≠ key) :
    .fresh ∉ answersOf reg m key store events := by
  induction events generalizing store with
  | nil => exact List.not_mem_nil
  | cons entry events ih =>
      obtain ⟨now, event⟩ := entry
      obtain ⟨hclaimed, hanswer⟩ := @claimedThrough_step reg _ _ _ now _ h
        (fun k ttlMs hevent => hother now k ttlMs (hevent ▸ List.mem_cons_self))
      rw [answersOf, List.mem_append, Option.mem_toList, not_or]
      exact ⟨hanswer, ih hclaimed fun now k ttlMs hmem =>
        hother now k ttlMs (List.mem_cons_of_mem _ hmem)⟩

/-- **A request is let through once.**  Whatever the store holds at first and
whatever happens on other keys, at most one delivery of a request is fresh. -/
theorem at_most_one_fresh (reg : Registry) (m : RequestMeta) (key : JSString) (store : ReplayStore)
    (events : List (ℤ × ReplayEvent))
    (hother : ∀ now k ttlMs, (now, ReplayEvent.claimReplay k ttlMs) ∈ events → k ≠ key) :
    (answersOf reg m key store events).count .fresh ≤ 1 := by
  induction events generalizing store with
  | nil => exact Nat.zero_le 1
  | cons entry events ih =>
      obtain ⟨now, event⟩ := entry
      have hrest : ∀ now k ttlMs, (now, ReplayEvent.claimReplay k ttlMs) ∈ events → k ≠ key :=
        fun now k ttlMs hmem => hother now k ttlMs (List.mem_cons_of_mem _ hmem)
      rw [answersOf, List.count_append]
      by_cases hfresh : (event.step reg m key store now).1 = some .fresh
      · have hclaimed : ClaimedThrough m key (event.step reg m key store now).2 := by
          cases event with
          | delivery => exact claimedThrough_of_deliver hfresh
          | claimReplay other ttlMs => cases hfresh
          | recallReply other => cases hfresh
          | rememberReply other value ttlMs => cases hfresh
        have hnone := List.count_eq_zero.mpr
          (@fresh_notMem_answersOf reg _ _ _ _ hclaimed hrest)
        simp [hfresh, hnone]
      · have hnone : (event.step reg m key store now).1.toList.count .fresh = 0 := by
          rw [List.count_eq_zero, Option.mem_toList]
          exact hfresh
        rw [hnone, Nat.zero_add]
        exact ih _ hrest

/-- A project listing, signed at time zero. -/
def listProjects : RequestMeta :=
  { requestId := str "request-1", orgId := str "acme", userId := str "ada", role := .member,
    permissions := [str "project:read"], plan := str "free", resource := str "project",
    operation := .read, issuedAt := 0, deadlineAt := 3000, traceparent := none }

/-- Two deliveries of one listing, with another request's claim between them: one is let
through. -/
theorem listing_let_through_once :
    (answersOf registry listProjects (str "request-1") .empty
      [(10, .delivery), (11, .claimReplay (str "request-2") 4000), (4999, .delivery)]).count
        .fresh ≤ 1 := by
  apply at_most_one_fresh
  intro now k ttlMs hmem
  have hkey : k = str "request-2" := by simp at hmem; exact hmem.2.1
  rw [hkey]
  decide

example : answersOf registry listProjects (str "request-1") .empty
    [(10, .delivery), (4999, .delivery), (5000, .delivery)] = [.fresh, .duplicate] := by decide

end Guardrail

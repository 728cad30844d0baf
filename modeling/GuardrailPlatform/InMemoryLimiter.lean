import GuardrailPlatform.RateLimit

/-!
# The in-memory store, in any interleaving

The store keeps one bucket object a key and hands the object itself to every
call it counts.  A call decides on the count it finds there later, so it may
find increments that came after its own.

The objects of a key are opened one after the other, each once the one before
has run out; every call lies in the window of its object, and the object's count
is the number of its calls.
-/

namespace Guardrail

open Js FixedWindow Trace

/-! ## The objects of a key -/

namespace Buckets

/-- The count of the key's `n`-th object. -/
def count (buckets : Buckets) (n : ℕ) : ℕ := ((buckets.object n).map Bucket.count).getD 0

/-- When the key's `n`-th object runs out. -/
def resetAt (buckets : Buckets) (n : ℕ) : ℤ := ((buckets.object n).map Bucket.resetAt).getD 0

variable {bucket : Bucket} {older : Buckets} {n : ℕ}

/-- The newest bucket is the object that has the highest number. -/
theorem object_newest : object (bucket :: older) older.length = some bucket := if_pos rfl

/-- A bucket of a lower number is found among those behind the newest. -/
theorem object_older (h : n ≠ older.length) : object (bucket :: older) n = object older n :=
  if_neg h

/-- The newest of the buckets is found under the number of those before it, with the count
it has. -/
theorem count_newest : count (bucket :: older) older.length = bucket.count := by
  rw [count, object_newest]
  rfl

/-- The count of an older bucket is not changed by putting a new one in front. -/
theorem count_older (h : n ≠ older.length) : count (bucket :: older) n = count older n := by
  rw [count, object_older h, count]

/-- The newest of the buckets is found under the number of those before it, with the end it
has. -/
theorem resetAt_newest : resetAt (bucket :: older) older.length = bucket.resetAt := by
  rw [resetAt, object_newest]
  rfl

/-- The end of an older bucket is not changed by putting a new one in front. -/
theorem resetAt_older (h : n ≠ older.length) :
    resetAt (bucket :: older) n = resetAt older n := by
  rw [resetAt, object_older h, resetAt]

/-- Every number below the number of buckets leads to a bucket. -/
theorem object_isSome {buckets : Buckets} (h : n < buckets.length) :
    ∃ bucket, buckets.object n = some bucket := by
  induction buckets with
  | nil => simp at h
  | cons bucket older ih =>
      by_cases hn : n = older.length
      · exact ⟨bucket, by rw [hn, object_newest]⟩
      · rw [object_older hn]
        rw [List.length_cons] at h
        exact ih (by omega)

/-- What counting a call does: it opens an object once the newest has run out,
and otherwise joins the newest. -/
inductive Counts (buckets : Buckets) (width reading : ℤ) : Bucket × Buckets → Prop
  | opened (hreset : ∀ n, n + 1 = buckets.length → buckets.resetAt n ≤ reading) :
      Counts buckets width reading (⟨1, reading + width⟩, buckets)
  | joined {bucket : Bucket} {older : Buckets} (hbuckets : buckets = bucket :: older)
      (hlive : reading < bucket.resetAt) :
      Counts buckets width reading (⟨bucket.count + 1, bucket.resetAt⟩, older)

/-- `incr` counts one more in the bucket of the reading, or opens a bucket at
one. -/
theorem incr_counts (buckets : Buckets) (windowSeconds reading : ℤ) :
    Counts buckets (windowSeconds * 1000) reading (buckets.incr windowSeconds reading) := by
  unfold incr
  split
  · apply Counts.opened
    intro n hn
    simp at hn
  · rename_i bucket older
    split
    · rename_i hreset
      apply Counts.opened
      intro n hn
      rw [List.length_cons] at hn
      obtain rfl : n = older.length := by omega
      rwa [resetAt_newest]
    · rename_i hlive
      exact .joined rfl (by omega)

end Buckets

/-! ## The invariant -/

/-- The ledger of a key whose calls all have one limit. -/
structure KeyLedger.Sound (limit : RateLimit) (ledger : KeyLedger) : Prop where
  accounted : Accounted limit ledger.buckets.resetAt ledger.calls
  placed : ∀ c ∈ ledger.calls, c.bucket < ledger.buckets.length
  limited : ∀ c ∈ ledger.calls, c.call.limit = limit
  counts : ∀ n, ledger.buckets.count n = (ledger.calls.filter fun c => c.bucket = n).length
  spaced : ∀ m n, m < n → n < ledger.buckets.length →
    ledger.buckets.resetAt m ≤ ledger.buckets.resetAt n - limit.widthMs
  opened : ∀ n, n < ledger.buckets.length →
    ∃ c ∈ ledger.calls, c.reading = ledger.buckets.resetAt n - limit.widthMs

variable {limit : RateLimit} {ledger : KeyLedger} {call : RateCall}

theorem KeyLedger.sound_empty (limit : RateLimit) : KeyLedger.Sound limit ⟨[], []⟩ where
  accounted := .nil limit _
  placed _ h := absurd h List.not_mem_nil
  limited _ h := absurd h List.not_mem_nil
  counts _ := rfl
  spaced _ n _ h := absurd h (Nat.not_lt_zero n)
  opened n h := absurd h (Nat.not_lt_zero n)

/-- No call has been counted in the object that would come next. -/
theorem KeyLedger.Sound.unplaced (h : ledger.Sound limit) :
    (ledger.calls.filter fun c => c.bucket = ledger.buckets.length) = [] := by
  apply List.filter_eq_nil_iff.mpr
  intro c hc hbucket
  have hlt := h.placed c hc
  rw [of_decide_eq_true hbucket] at hlt
  omega

/-- Where the newest object of a key has run out, every older object of it has too. -/
theorem KeyLedger.Sound.expired (h : ledger.Sound limit) (hwidth : 0 < limit.widthMs) {t : ℤ}
    (hreset : ∀ n, n + 1 = ledger.buckets.length → ledger.buckets.resetAt n ≤ t) :
    ∀ n, n < ledger.buckets.length → ledger.buckets.resetAt n ≤ t := by
  intro n hn
  have hlast := hreset (ledger.buckets.length - 1) (by omega)
  by_cases hlt : n < ledger.buckets.length - 1
  · have hspaced := h.spaced n _ hlt (by omega)
    omega
  · obtain rfl : n = ledger.buckets.length - 1 := by omega
    exact hlast

/-- A further call under the same limit leaves every call under that limit. -/
theorem KeyLedger.Sound.limited_cons (h : ledger.Sound limit) (hlimit : call.limit = limit)
    (bucket position : ℕ) :
    ∀ c ∈ (⟨call, bucket, position, none⟩ : CountedCall ℕ) :: ledger.calls,
      c.call.limit = limit := by
  intro c hc
  rcases List.mem_cons.mp hc with rfl | hc
  · exact hlimit
  · exact h.limited c hc

theorem KeyLedger.Sound.opening (h : ledger.Sound limit) (hwindow : 1 ≤ limit.windowSeconds)
    (hlimit : call.limit = limit) (hordered : call.now ≤ call.reading)
    (hreset : ∀ n, n + 1 = ledger.buckets.length → ledger.buckets.resetAt n ≤ call.reading) :
    KeyLedger.Sound limit
      { buckets := ⟨1, call.reading + limit.widthMs⟩ :: ledger.buckets,
        calls := ⟨call, ledger.buckets.length, 1, none⟩ :: ledger.calls } := by
  have hwidth : 0 < limit.widthMs := by
    unfold RateLimit.widthMs
    omega
  have hnone := h.unplaced
  have hnew : Buckets.resetAt (⟨1, call.reading + limit.widthMs⟩ :: ledger.buckets)
      ledger.buckets.length = call.reading + limit.widthMs := Buckets.resetAt_newest
  have hold : ∀ n, n ≠ ledger.buckets.length →
      Buckets.resetAt (⟨1, call.reading + limit.widthMs⟩ :: ledger.buckets) n =
        ledger.buckets.resetAt n := fun n hn => Buckets.resetAt_older hn
  have hall := h.expired hwidth hreset
  constructor
  · apply h.accounted.cons
    · intro d hd
      exact hold d.bucket (h.placed d hd).ne
    · rw [hnone]
      rfl
    · rfl
    · exact hordered
    · rw [hnew]
      dsimp only [CountedCall.reading]
      omega
    · intro d hd _
      have hlt := h.placed d hd
      have hbefore := hall d.bucket hlt
      rw [hnew, hold d.bucket hlt.ne]
      omega
  · intro c hc
    rw [List.length_cons]
    rcases List.mem_cons.mp hc with rfl | hc
    · exact Nat.lt_succ_self _
    · exact (h.placed c hc).trans (Nat.lt_succ_self _)
  · exact h.limited_cons hlimit _ _
  · intro n
    by_cases hn : n = ledger.buckets.length
    · subst hn
      rw [List.filter_cons_of_pos (by simp), hnone, Buckets.count_newest]
      rfl
    · rw [List.filter_cons_of_neg (by simpa using Ne.symm hn), ← h.counts n,
        Buckets.count_older hn]
  · intro m n hmn hn
    dsimp only at hn ⊢
    rw [List.length_cons] at hn
    rw [hold m (by omega)]
    by_cases hnlast : n = ledger.buckets.length
    · subst hnlast
      have hbefore := hall m hmn
      rw [hnew]
      omega
    · rw [hold n hnlast]
      exact h.spaced m n hmn (by omega)
  · intro n hn
    dsimp only at hn ⊢
    rw [List.length_cons] at hn
    by_cases hnlast : n = ledger.buckets.length
    · subst hnlast
      refine ⟨_, List.mem_cons_self, ?_⟩
      rw [hnew]
      dsimp only [CountedCall.reading]
      omega
    · obtain ⟨c, hc, hreading⟩ := h.opened n (by omega)
      exact ⟨c, List.mem_cons_of_mem _ hc, by rw [hold n hnlast, hreading]⟩

/-- A call that joins the newest object while it is live leaves the ledger sound. -/
theorem KeyLedger.Sound.joining {bucket : Bucket} {older : Buckets}
    (h : ledger.Sound limit) (hlimit : call.limit = limit) (hordered : call.now ≤ call.reading)
    (hclock : ∀ c ∈ ledger.calls, c.reading ≤ call.now)
    (hbuckets : ledger.buckets = bucket :: older) (hlive : call.reading < bucket.resetAt) :
    KeyLedger.Sound limit
      { buckets := ⟨bucket.count + 1, bucket.resetAt⟩ :: older,
        calls := ⟨call, older.length, bucket.count + 1, none⟩ :: ledger.calls } := by
  have hreset : Buckets.resetAt (⟨bucket.count + 1, bucket.resetAt⟩ :: older) =
      ledger.buckets.resetAt := by
    funext n
    rw [hbuckets]
    by_cases hn : n = older.length
    · rw [hn, Buckets.resetAt_newest, Buckets.resetAt_newest]
    · rw [Buckets.resetAt_older hn, Buckets.resetAt_older hn]
  have hnewest : ledger.buckets.resetAt older.length = bucket.resetAt := by
    rw [hbuckets, Buckets.resetAt_newest]
  have hlength : ledger.buckets.length = older.length + 1 := by rw [hbuckets, List.length_cons]
  have hcount : bucket.count = (ledger.calls.filter fun c => c.bucket = older.length).length := by
    rw [← h.counts, hbuckets, Buckets.count_newest]
  constructor
  · apply h.accounted.cons
    · intro d _
      rw [hreset]
    · rw [hcount]
    · rfl
    · exact hordered
    · obtain ⟨c, hc, hreading⟩ := h.opened older.length (by omega)
      have hbefore := hclock c hc
      rw [hreset, hnewest] at *
      dsimp only [CountedCall.reading] at *
      omega
    · intro d hd hne
      have hplaced := h.placed d hd
      change d.bucket ≠ older.length at hne
      rw [hreset]
      exact h.spaced d.bucket older.length (by omega) (by omega)
  · intro c hc
    rw [List.length_cons]
    rcases List.mem_cons.mp hc with rfl | hc
    · exact Nat.lt_succ_self _
    · exact hlength ▸ h.placed c hc
  · exact h.limited_cons hlimit _ _
  · intro n
    by_cases hn : n = older.length
    · subst hn
      rw [List.filter_cons_of_pos (by simp), List.length_cons, ← hcount, Buckets.count_newest]
    · rw [List.filter_cons_of_neg (by simpa using Ne.symm hn), ← h.counts n, hbuckets,
        Buckets.count_older hn, Buckets.count_older hn]
  · intro m n hmn hn
    rw [hreset]
    exact h.spaced m n hmn (hlength ▸ hn)
  · intro n hn
    obtain ⟨c, hc, hreading⟩ := h.opened n (hlength ▸ hn)
    exact ⟨c, List.mem_cons_of_mem _ hc, by rw [hreset, hreading]⟩

theorem KeyLedger.Sound.start (h : ledger.Sound limit) (hwindow : 1 ≤ limit.windowSeconds)
    (hlimit : call.limit = limit) (hordered : call.now ≤ call.reading)
    (hclock : ∀ c ∈ ledger.calls, c.reading ≤ call.now) : (ledger.start call).Sound limit := by
  have hcounts := Buckets.incr_counts ledger.buckets call.limit.windowSeconds call.reading
  unfold KeyLedger.start
  generalize ledger.buckets.incr call.limit.windowSeconds call.reading = counted at hcounts
  rw [hlimit] at hcounts
  cases hcounts with
  | opened hreset => exact h.opening hwindow hlimit hordered hreset
  | joined hbuckets hlive => exact h.joining hlimit hordered hclock hbuckets hlive

/-- A call of the ledger gets the verdict of the calls that its bucket has counted so far.
-/
theorem KeyLedger.Sound.verdict (h : ledger.Sound limit) {c : CountedCall ℕ}
    (hc : c ∈ ledger.calls) :
    (ledger.buckets.object c.bucket).map (verdictOf c.call.limit c.call.now) =
      some (verdictOf limit c.call.now
        ⟨(ledger.calls.filter fun d => d.bucket = c.bucket).length,
          ledger.buckets.resetAt c.bucket⟩) := by
  obtain ⟨bucket, hbucket⟩ := Buckets.object_isSome (h.placed c hc)
  have hcount := h.counts c.bucket
  rw [Buckets.count, hbucket] at hcount
  rw [← hcount, Buckets.resetAt, hbucket, h.limited c hc]
  rfl

theorem KeyLedger.Sound.decide (h : ledger.Sound limit) (number : ℕ) :
    (ledger.decide number).Sound limit where
  accounted := by
    apply h.accounted.judge
    intro c hc _ v hv
    rw [h.verdict hc] at hv
    obtain rfl := Option.some.inj hv
    refine ⟨_, ?_, rfl⟩
    exact (h.accounted.numbered c.bucket).le_length c (List.mem_filter.mpr ⟨hc, by simp⟩)
  placed := by
    intro d hd
    obtain ⟨c, hc, -, hbucket, -⟩ := exists_of_mem_judge hd
    rw [hbucket]
    exact h.placed c hc
  limited := by
    intro d hd
    obtain ⟨c, hc, hcall, -⟩ := exists_of_mem_judge hd
    rw [hcall]
    exact h.limited c hc
  counts n := by
    rw [KeyLedger.decide, filter_judge (fun _ bucket => Decidable.decide (bucket = n)),
      length_judge]
    exact h.counts n
  spaced := h.spaced
  opened n hn := by
    obtain ⟨c, hc, hreading⟩ := h.opened n hn
    by_cases hnumber : c.call.number = number
    · exact ⟨_, mem_judge.mpr (.inl ⟨c, hc, hnumber, rfl⟩), hreading⟩
    · exact ⟨c, mem_judge.mpr (.inr ⟨hc, hnumber⟩), hreading⟩

/-! ## Runs -/

namespace Limiter

variable {history : List LimiterEvent} {key : JSString}

/-- A key's ledger is changed by the events of that key only. -/
theorem after_cons_other {event : LimiterEvent} (h : event.key ≠ key) :
    after (event :: history) key = after history key := by
  cases event with
  | start call => exact Function.update_of_ne (Ne.symm h) _ _
  | decide other number => exact Function.update_of_ne (Ne.symm h) _ _

/-- A call that starts is counted in the ledger of its own key. -/
theorem after_start (call : RateCall) :
    after (.start call :: history) call.key = (after history call.key).start call :=
  Function.update_self ..

/-- A call that is decided is decided in its own key's ledger. -/
theorem after_decide (number : ℕ) :
    after (.decide key number :: history) key = (after history key).decide number :=
  Function.update_self ..

/-- Every call in a key's ledger was started in the history, and under that key. -/
theorem started_of_mem {c : CountedCall ℕ} (hc : c ∈ (after history key).calls) :
    .start c.call ∈ history ∧ c.call.key = key := by
  induction history generalizing c with
  | nil => cases hc
  | cons event history ih =>
      by_cases hkey : event.key = key
      · cases event with
        | start call =>
            obtain rfl : call.key = key := hkey
            rw [after_start] at hc
            rcases List.mem_cons.mp hc with rfl | hc
            · exact ⟨List.mem_cons_self, rfl⟩
            · exact ⟨List.mem_cons_of_mem _ (ih hc).1, (ih hc).2⟩
        | decide other number =>
            obtain rfl : other = key := hkey
            rw [after_decide] at hc
            obtain ⟨d, hd, hcall, -⟩ := exists_of_mem_judge hc
            rw [hcall]
            exact ⟨List.mem_cons_of_mem _ (ih hd).1, (ih hd).2⟩
      · rw [after_cons_other hkey] at hc
        exact ⟨List.mem_cons_of_mem _ (ih hc).1, (ih hc).2⟩

/-- All calls under the key have one limit. -/
def OneLimit (history : List LimiterEvent) (key : JSString) (limit : RateLimit) : Prop :=
  ∀ call, .start call ∈ history → call.key = key → call.limit = limit

/-- **The ledger of a run** is sound for a key whose calls all ask under one limit. -/
theorem sound_of_run (hrun : Run Allowed history) (hwindow : 1 ≤ limit.windowSeconds)
    (hlimit : OneLimit history key limit) : (after history key).Sound limit := by
  induction hrun with
  | start => exact KeyLedger.sound_empty limit
  | @next history event hrun hallowed ih =>
      have hsound := ih fun call hcall => hlimit call (List.mem_cons_of_mem _ hcall)
      by_cases hkey : event.key = key
      · cases event with
        | start call =>
            obtain rfl : call.key = key := hkey
            rw [after_start]
            apply hsound.start hwindow (hlimit call List.mem_cons_self rfl) hallowed.1
            intro c hc
            exact (hallowed.2 c.call (started_of_mem hc).1).2
        | decide other number =>
            obtain rfl : other = key := hkey
            rw [after_decide]
            exact hsound.decide number
      · rwa [after_cons_other hkey]

/-- So is the ledger of an earlier point of a run, whose events are a part of the run's. -/
theorem sound_before {later earlier : List LimiterEvent} {event : LimiterEvent}
    (hrun : Run Allowed (later ++ event :: earlier)) (hwindow : 1 ≤ limit.windowSeconds)
    (hlimit : OneLimit (later ++ event :: earlier) key limit) :
    (after earlier key).Sound limit := by
  apply sound_of_run hrun.allowed.1 hwindow
  intro call hcall
  exact hlimit call (List.mem_append_right _ (List.mem_cons_of_mem _ hcall))

/-- Two calls of one ledger that have one number are the same counted call. -/
theorem eq_of_number (hrun : Run Allowed history) {c d : CountedCall ℕ}
    (hc : c ∈ (after history key).calls) (hd : d ∈ (after history key).calls)
    (hnumber : c.call.number = d.call.number) : c = d := by
  induction hrun generalizing c d with
  | start => cases hc
  | @next history event hrun hallowed ih =>
      by_cases hkey : event.key = key
      · cases event with
        | start call =>
            obtain rfl : call.key = key := hkey
            rw [after_start] at hc hd
            rcases List.mem_cons.mp hc with hnew | hold
            · rcases List.mem_cons.mp hd with hnew' | hold'
              · rw [hnew, hnew']
              · subst hnew
                exact absurd hnumber.symm (hallowed.2 d.call (started_of_mem hold').1).1
            · rcases List.mem_cons.mp hd with hnew' | hold'
              · subst hnew'
                exact absurd hnumber (hallowed.2 c.call (started_of_mem hold).1).1
              · exact ih hold hold' hnumber
        | decide other number =>
            obtain rfl : other = key := hkey
            rw [after_decide] at hc hd
            rcases mem_judge.mp hc with ⟨c', hc', hcnumber, rfl⟩ | ⟨hc', hcnumber⟩
            · rcases mem_judge.mp hd with ⟨d', hd', hdnumber, rfl⟩ | ⟨hd', hdnumber⟩
              · rw [ih hc' hd' hnumber]
              · exact absurd (hnumber.symm.trans hcnumber) hdnumber
            · rcases mem_judge.mp hd with ⟨d', hd', hdnumber, rfl⟩ | ⟨hd', hdnumber⟩
              · exact absurd (hnumber.trans hdnumber) hcnumber
              · exact ih hc' hd' hnumber
      · rw [after_cons_other hkey] at hc hd
        exact ih hc hd hnumber

/-! ## Which calls are admitted -/

theorem decided_append {later earlier : List LimiterEvent} {c : CountedCall ℕ}
    (hrun : Run Allowed (later ++ earlier)) (hc : c ∈ (after earlier key).calls)
    (hdecided : c.verdict ≠ none) : c ∈ (after (later ++ earlier) key).calls := by
  induction later with
  | nil => exact hc
  | cons event later ih =>
      obtain ⟨hrun', hallowed⟩ := @Run.allowed _ _ [] _ _ hrun
      have hbefore := ih hrun'
      rw [List.cons_append]
      by_cases hkey : event.key = key
      · cases event with
        | start call =>
            obtain rfl : call.key = key := hkey
            rw [after_start]
            exact List.mem_cons_of_mem _ hbefore
        | decide other number =>
            obtain rfl : other = key := hkey
            rw [after_decide]
            apply mem_judge.mpr
            by_cases hnumber : c.call.number = number
            · -- a call decides once
              obtain ⟨d, hd, hdnumber, hundecided⟩ := hallowed
              obtain rfl := eq_of_number hrun' hbefore hd (hnumber.trans hdnumber.symm)
              exact absurd hundecided hdecided
            · exact .inr ⟨hbefore, hnumber⟩
      · rwa [after_cons_other hkey]

/-- A call that has a verdict was decided at some point of the run, where the ledger had it.
-/
theorem decision_of_decided {c : CountedCall ℕ} (hc : c ∈ (after history key).calls)
    (hdecided : c.verdict ≠ none) :
    ∃ later earlier d, history = later ++ .decide key c.call.number :: earlier ∧
      d ∈ (after earlier key).calls ∧ d.call.number = c.call.number := by
  induction history generalizing c with
  | nil => cases hc
  | cons event history ih =>
      have hbefore : c ∈ (after history key).calls →
          ∃ later earlier d, event :: history = later ++ .decide key c.call.number :: earlier ∧
            d ∈ (after earlier key).calls ∧ d.call.number = c.call.number := by
        intro hc
        obtain ⟨later, earlier, d, rfl, hd, hnumber⟩ := ih hc hdecided
        exact ⟨event :: later, earlier, d, rfl, hd, hnumber⟩
      by_cases hkey : event.key = key
      · cases event with
        | start call =>
            obtain rfl : call.key = key := hkey
            rw [after_start] at hc
            rcases List.mem_cons.mp hc with rfl | hc
            · exact absurd rfl hdecided
            · exact hbefore hc
        | decide other number =>
            obtain rfl : other = key := hkey
            rw [after_decide] at hc
            rcases mem_judge.mp hc with ⟨d, hd, hnumber, rfl⟩ | ⟨hc, -⟩
            · exact ⟨[], history, d, by rw [hnumber]; rfl, hd, rfl⟩
            · exact hbefore hc
      · rw [after_cons_other hkey] at hc
        exact hbefore hc

/-- A decision is taken on the count that the bucket has by then. -/
theorem judged_mem {later earlier : List LimiterEvent} {number : ℕ} {d : CountedCall ℕ}
    (hrun : Run Allowed (later ++ .decide key number :: earlier))
    (hwindow : 1 ≤ limit.windowSeconds)
    (hlimit : OneLimit (later ++ .decide key number :: earlier) key limit)
    (hd : d ∈ (after earlier key).calls) (hnumber : d.call.number = number) :
    { d with verdict := some (verdictOf limit d.call.now
      ⟨((after earlier key).calls.filter fun e => e.bucket = d.bucket).length,
        (after earlier key).buckets.resetAt d.bucket⟩) } ∈
      (after (later ++ .decide key number :: earlier) key).calls := by
  have hsound := sound_before hrun hwindow hlimit
  apply decided_append hrun
  · rw [after_decide]
    exact mem_judge.mpr (.inl ⟨d, hd, hnumber, by rw [hsound.verdict hd]⟩)
  · exact Option.some_ne_none _

/-- A decision of one of the first calls of a bucket finds no more than the
allowance counted there. -/
def Prompt (history : List LimiterEvent) (key : JSString) (bucket : ℕ) (max : ℤ) : Prop :=
  ∀ later number earlier, history = later ++ .decide key number :: earlier →
    ∀ c ∈ (after earlier key).calls, c.call.number = number → c.bucket = bucket →
      (c.position : ℤ) ≤ max →
      (((after earlier key).calls.filter fun d => d.bucket = bucket).length : ℤ) ≤ max

end Limiter

/-- Of the calls of a bucket the first `max` are admitted, and no others. -/
structure AdmitsFirst {β : Type} (max : ℤ) (calls : List (CountedCall β)) : Prop where
  first : ∀ c ∈ calls, c.admitted = true ↔ (c.position : ℤ) ≤ max
  number : (calls.countP CountedCall.admitted : ℤ) = min (calls.length : ℤ) max

/-- If the admitted calls of a bucket are those among the first `max`, their number is as
the limit says. -/
theorem admitsFirst_of_first {β : Type} {max : ℤ} {calls : List (CountedCall β)} (hmax : 1 ≤ max)
    (hnumbered : Numbered CountedCall.position calls)
    (hfirst : ∀ c ∈ calls, c.admitted = true ↔ (c.position : ℤ) ≤ max) :
    AdmitsFirst max calls := by
  obtain ⟨m, rfl⟩ := Int.eq_ofNat_of_zero_le (show 0 ≤ max by omega)
  refine ⟨hfirst, ?_⟩
  have hcount := hnumbered.countP_eq (m := m) fun c hc => (hfirst c hc).trans Int.ofNat_le
  rw [hcount]
  exact Nat.cast_min ..

open Limiter in
/-- **When the limiter admits exactly the allowance.**  Of the calls counted in
one bucket, all of which have decided, the first `max` are admitted and no
others, if and only if each of those decided before a call beyond the allowance
was counted. -/
theorem limiter_admits_first_iff (history : List LimiterEvent) (key : JSString) (limit : RateLimit)
    (bucket : ℕ) (hrun : Run Allowed history) (hmax : 1 ≤ limit.max)
    (hwindow : 1 ≤ limit.windowSeconds) (hlimit : OneLimit history key limit)
    (hcomplete : ∀ c ∈ (after history key).calls, c.bucket = bucket → c.verdict ≠ none) :
    AdmitsFirst limit.max ((after history key).calls.filter fun c => c.bucket = bucket) ↔
      Prompt history key bucket limit.max := by
  have hsound := sound_of_run hrun hwindow hlimit
  constructor
  · intro hadmits later number earlier hsplit d hd hnumber hbucket hposition
    subst hsplit
    have hjudged := judged_mem hrun hwindow hlimit hd hnumber
    have hadmitted := (hadmits.first _ (List.mem_filter.mpr ⟨hjudged, by simpa using hbucket⟩)).mpr
      hposition
    rw [← hbucket]
    exact ok_verdictOf.mp hadmitted
  · intro hprompt
    apply admitsFirst_of_first hmax (hsound.accounted.numbered bucket)
    intro c hc
    obtain ⟨hc, hbucket⟩ := List.mem_filter.mp hc
    have hbucket := of_decide_eq_true hbucket
    obtain ⟨later, earlier, d, hsplit, hd, hnumber⟩ :=
      decision_of_decided hc (hcomplete c hc hbucket)
    have hcount := hprompt later c.call.number earlier hsplit d hd hnumber
    subst hsplit
    have hjudged := judged_mem hrun hwindow hlimit hd hnumber
    obtain rfl := eq_of_number hrun hc hjudged hnumber.symm
    -- a decision finds at least the call's own increment
    have hnumbered : (d.position : ℤ) ≤
        ((after earlier key).calls.filter fun e => e.bucket = d.bucket).length := by
      have hearlier := sound_before hrun hwindow hlimit
      exact_mod_cast (hearlier.accounted.numbered d.bucket).le_length d
        (List.mem_filter.mpr ⟨hd, by simp⟩)
    constructor
    · intro hadmitted
      exact hnumbered.trans (ok_verdictOf.mp hadmitted)
    · intro hposition
      have hle := hcount hbucket hposition
      rw [← hbucket] at hle
      exact ok_verdictOf.mpr hle

/-- Calls of one tenant on one operation, one allowed a minute. -/
def hastyCall (number : ℕ) (now : ℤ) : RateCall :=
  { number, key := str "org:acme:project:read", limit := { max := 1, windowSeconds := 60 }, now,
    reading := now }

/-- The first call decides before the second is counted. -/
def inTurn : List LimiterEvent :=
  [.decide (str "org:acme:project:read") 2, .start (hastyCall 2 1),
    .decide (str "org:acme:project:read") 1, .start (hastyCall 1 0)]

/-- Both calls are counted before either decides. -/
def sideBySide : List LimiterEvent :=
  [.decide (str "org:acme:project:read") 2, .decide (str "org:acme:project:read") 1,
    .start (hastyCall 2 1), .start (hastyCall 1 0)]

/-- Calls that are decided before the next one starts are a run. -/
theorem inTurn_run : Run Limiter.Allowed inTurn := by
  refine .next (.next (.next (.next .start ?_) ?_) ?_) ?_
  · exact ⟨le_rfl, by simp⟩
  · exact ⟨_, List.mem_cons_self, rfl, rfl⟩
  · refine ⟨le_rfl, ?_⟩
    intro earlier hearlier
    obtain rfl : earlier = hastyCall 1 0 := by simpa using hearlier
    decide
  · exact ⟨_, List.mem_cons_self, rfl, rfl⟩

/-- The example's two calls, which start before any decision, are a run the limiter allows.
-/
theorem sideBySide_run : Run Limiter.Allowed sideBySide := by
  refine .next (.next (.next (.next .start ?_) ?_) ?_) ?_
  · exact ⟨le_rfl, by simp⟩
  · refine ⟨le_rfl, ?_⟩
    intro earlier hearlier
    obtain rfl : earlier = hastyCall 1 0 := by simpa using hearlier
    decide
  · exact ⟨_, List.mem_cons_of_mem _ List.mem_cons_self, rfl, rfl⟩
  · exact ⟨_, List.mem_cons_self, rfl, rfl⟩

/-- The calls of that run ask under one limit, as the theorem demands of a key. -/
theorem inTurn_oneLimit : Limiter.OneLimit inTurn (str "org:acme:project:read")
    { max := 1, windowSeconds := 60 } := by
  intro call hcall _
  rcases (by simpa [inTurn] using hcall : call = hastyCall 2 1 ∨ call = hastyCall 1 0) with
    rfl | rfl
  · rfl
  · rfl

/-- Taken in turn with one allowed, the first call is admitted and the second is refused. -/
theorem limiter_admits_first_inTurn :
    AdmitsFirst 1 ((Limiter.after inTurn (str "org:acme:project:read")).calls.filter
        fun c => c.bucket = 0) ∧
      Limiter.Prompt inTurn (str "org:acme:project:read") 0 1 := by
  have hadmits : AdmitsFirst 1 ((Limiter.after inTurn (str "org:acme:project:read")).calls.filter
      fun c => c.bucket = 0) := by
    refine ⟨?_, rfl⟩
    intro c hc
    have hcases : c = ⟨hastyCall 2 1, 0, 2, some ⟨false, 60⟩⟩ ∨
        c = ⟨hastyCall 1 0, 0, 1, some ⟨true, 0⟩⟩ := by
      rcases List.mem_cons.mp hc with rfl | hc
      · exact .inl rfl
      · exact .inr (List.mem_singleton.mp hc)
    rcases hcases with rfl | rfl
    · decide
    · decide
  refine ⟨hadmits, (limiter_admits_first_iff inTurn _ _ 0 inTurn_run le_rfl (by decide)
    inTurn_oneLimit ?_).mp hadmits⟩
  intro c hc _
  rcases List.mem_cons.mp hc with rfl | hc
  · exact Option.some_ne_none _
  · obtain rfl := List.mem_singleton.mp hc
    exact Option.some_ne_none _

/-- Two calls side by side with one allowed: both are decided on a count of two, and both
are refused. -/
theorem limiter_refuses_both :
    Run Limiter.Allowed sideBySide ∧
      (∀ c ∈ (Limiter.after sideBySide (str "org:acme:project:read")).calls,
        c.bucket = 0 ∧ ∃ verdict, c.verdict = some verdict ∧ verdict.ok = false) ∧
      ¬ AdmitsFirst 1 ((Limiter.after sideBySide (str "org:acme:project:read")).calls.filter
        fun c => c.bucket = 0) := by
  refine ⟨sideBySide_run, ?_, ?_⟩
  · intro c hc
    rcases List.mem_cons.mp hc with rfl | hc
    · exact ⟨rfl, _, rfl, rfl⟩
    · obtain rfl := List.mem_singleton.mp hc
      exact ⟨rfl, _, rfl, rfl⟩
  · intro hadmits
    have hnumber := hadmits.number
    revert hnumber
    decide

end Guardrail

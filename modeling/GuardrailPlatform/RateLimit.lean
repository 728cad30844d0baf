import GuardrailPlatform.FixedWindow
import GuardrailPlatform.Gateway
import GuardrailPlatform.Trace

/-!
# The rate limiter

`rateLimit` reads the clock, has a store count the call, and compares the count
with the allowance.  There are two stores.  The in-memory one opens a window
at the first call it counts and hands back the bucket object itself; the Upstash
one cuts time into aligned windows and counts in Redis.

A call is in two parts around the `await` of its store, and other calls happen
in between.  Clock readings are integers far below `2 ^ 53`, where the floor and
the ceiling of a rounded quotient are those of the exact one.
-/

namespace Guardrail

open Js FixedWindow

/-! ## A call and its verdict -/

/-- What a store answers with: `{ count, resetAt }`. -/
structure Bucket where
  count : ℕ
  resetAt : ℤ

/-- `Math.ceil(ms / 1000)`. -/
def ceilSeconds (ms : ℤ) : ℤ := -(-ms / 1000)

/-- The second half of `rateLimit`, from what its store answered. -/
def verdictOf (limit : RateLimit) (now : ℤ) (bucket : Bucket) : RateVerdict :=
  if (bucket.count : ℤ) > limit.max then
    { ok := false, retryAfterSeconds := ceilSeconds (bucket.resetAt - now) }
  else { ok := true, retryAfterSeconds := 0 }

/-- A call of `rateLimit`: its arguments, its own reading of the clock, and the
reading its store takes. -/
structure RateCall where
  number : ℕ
  key : JSString
  limit : RateLimit
  now : ℤ
  reading : ℤ

/-- A call its store has counted: the bucket it fell in, the count its own
increment left there, and the verdict once there is one. -/
structure CountedCall (β : Type) where
  call : RateCall
  bucket : β
  position : ℕ
  verdict : Option RateVerdict

def CountedCall.admitted {β : Type} (c : CountedCall β) : Bool := c.verdict.any RateVerdict.ok

/-- A call is admitted exactly where it has a verdict and the verdict is ok. -/
theorem CountedCall.admitted_iff {β : Type} (c : CountedCall β) :
    c.admitted = true ↔ ∃ verdict, c.verdict = some verdict ∧ verdict.ok = true := by
  unfold CountedCall.admitted
  cases c.verdict <;> simp

/-- The reading that places a call in its bucket. -/
def CountedCall.reading {β : Type} (c : CountedCall β) : ℤ := c.call.reading

/-- The verdict of one call is in. -/
def judge {β : Type} (number : ℕ) (verdict : CountedCall β → Option RateVerdict)
    (calls : List (CountedCall β)) : List (CountedCall β) :=
  calls.map fun c => if c.call.number = number then { c with verdict := verdict c } else c

/-- The length of a window in milliseconds. -/
def RateLimit.widthMs (limit : RateLimit) : ℤ := limit.windowSeconds * 1000

/-! ## The in-memory store -/

/-- The bucket objects a key has had, newest first.  The map holds the newest;
the older ones may still be awaited. -/
abbrev Buckets := List Bucket

/-- The object a call was handed, by its number among the key's objects. -/
def Buckets.object : Buckets → ℕ → Option Bucket
  | [], _ => none
  | bucket :: older, n => if n = older.length then some bucket else Buckets.object older n

/-- `InMemoryStore.incr`: the object it hands back, and those before it. -/
def Buckets.incr (buckets : Buckets) (windowSeconds reading : ℤ) : Bucket × Buckets :=
  match buckets with
  | [] => (⟨1, reading + windowSeconds * 1000⟩, [])
  | bucket :: older =>
    if bucket.resetAt ≤ reading then (⟨1, reading + windowSeconds * 1000⟩, bucket :: older)
    else ({ bucket with count := bucket.count + 1 }, older)

/-- What the limiter has done under one key. -/
structure KeyLedger where
  buckets : Buckets
  calls : List (CountedCall ℕ)

/-- The first half of a call: its store counts it. -/
def KeyLedger.start (ledger : KeyLedger) (call : RateCall) : KeyLedger :=
  let counted := ledger.buckets.incr call.limit.windowSeconds call.reading
  { buckets := counted.1 :: counted.2,
    calls := ⟨call, counted.2.length, counted.1.count, none⟩ :: ledger.calls }

/-- The second half: the object is read as it is by then. -/
def KeyLedger.decide (ledger : KeyLedger) (number : ℕ) : KeyLedger :=
  { ledger with
    calls := judge number (fun c =>
      (ledger.buckets.object c.bucket).map (verdictOf c.call.limit c.call.now)) ledger.calls }

inductive LimiterEvent
  | start (call : RateCall)
  | decide (key : JSString) (number : ℕ)

def LimiterEvent.key : LimiterEvent → JSString
  | .start call => call.key
  | .decide key _ => key

/-- The in-memory limiter: what it holds under each key. -/
abbrev Limiter := JSString → KeyLedger

namespace Limiter

def step (limiter : Limiter) : LimiterEvent → Limiter
  | .start call => Function.update limiter call.key ((limiter call.key).start call)
  | .decide key number => Function.update limiter key ((limiter key).decide number)

/-- The limiter after a history, newest event first. -/
def after : List LimiterEvent → Limiter
  | [] => fun _ => ⟨[], []⟩
  | event :: history => (after history).step event

/-- Calls are numbered apart and the clock does not go back; a call that has
been counted decides once. -/
def Allowed (history : List LimiterEvent) : LimiterEvent → Prop
  | .start call => call.now ≤ call.reading ∧
      ∀ earlier, .start earlier ∈ history →
        earlier.number ≠ call.number ∧ earlier.reading ≤ call.now
  | .decide key number => ∃ c ∈ (after history key).calls,
      c.call.number = number ∧ c.verdict = none

end Limiter

/-! ## The Upstash store -/

/-- A counter in Redis, and when it is gone. -/
structure RedisCounter where
  value : ℕ
  expireAt : Option ℤ

abbrev Redis := JSString → Option RedisCounter

namespace Redis

/-- The counter under a key, unless it has expired. -/
def live (redis : Redis) (key : JSString) (now : ℤ) : Option RedisCounter :=
  (redis key).filter fun counter => counter.expireAt.all fun expireAt => decide (now < expireAt)

/-- `INCR key`: a missing counter starts at nought, without an expiry. -/
def incr (redis : Redis) (key : JSString) (now : ℤ) : ℕ × Redis :=
  match redis.live key now with
  | some counter =>
    (counter.value + 1,
      Function.update redis key (some { counter with value := counter.value + 1 }))
  | none => (1, Function.update redis key (some ⟨1, none⟩))

/-- `EXPIRE key seconds`. -/
def expire (redis : Redis) (key : JSString) (seconds now : ℤ) : Redis :=
  match redis.live key now with
  | some counter =>
    Function.update redis key (some { counter with expireAt := some (now + seconds * 1000) })
  | none => redis

end Redis

/-- `Math.floor(now / (windowSeconds * 1000))`. -/
def windowAt (windowSeconds reading : ℤ) : ℤ := reading / (windowSeconds * 1000)

/-- `(window + 1) * windowSeconds * 1000`. -/
def windowResetAt (windowSeconds window : ℤ) : ℤ := (window + 1) * windowSeconds * 1000

/-- The counter's name in Redis. -/
def redisKey (key : JSString) (window : ℤ) : JSString :=
  str "rl:" ++ key ++ str ":" ++ numberText (.ofInt window)

/-- What the Upstash limiter has done. -/
structure Upstash where
  redis : Redis
  calls : List (CountedCall ℤ)

/-- What happens: a call's `INCR` runs, its `EXPIRE` runs, its response arrives. -/
inductive UpstashEvent
  | incr (call : RateCall)
  | expire (number : ℕ) (now : ℤ)
  | decide (number : ℕ) (answered : Bool)

namespace Upstash

def start : Upstash := ⟨fun _ => none, []⟩

/-- The first command of a call's pipeline, at the call's reading of the clock. -/
def incr (upstash : Upstash) (call : RateCall) : Upstash :=
  let window := windowAt call.limit.windowSeconds call.reading
  let counted := upstash.redis.incr (redisKey call.key window) call.reading
  { redis := counted.2, calls := ⟨call, window, counted.1, none⟩ :: upstash.calls }

/-- The second command. -/
def expire (upstash : Upstash) (number : ℕ) (now : ℤ) : Upstash :=
  match upstash.calls.find? (fun c => c.call.number == number) with
  | some c =>
    { upstash with
      redis := upstash.redis.expire (redisKey c.call.key c.bucket) c.call.limit.windowSeconds now }
  | none => upstash

/-- The response: the count the `INCR` returned, or nought where there is none. -/
def decide (upstash : Upstash) (number : ℕ) (answered : Bool) : Upstash :=
  { upstash with
    calls := judge number (fun c => some (verdictOf c.call.limit c.call.now
      { count := if answered then c.position else 0,
        resetAt := windowResetAt c.call.limit.windowSeconds c.bucket })) upstash.calls }

def step (upstash : Upstash) : UpstashEvent → Upstash
  | .incr call => upstash.incr call
  | .expire number now => upstash.expire number now
  | .decide number answered => upstash.decide number answered

/-- The limiter after a history, newest event first. -/
def after : List UpstashEvent → Upstash
  | [] => start
  | event :: history => (after history).step event

/-- Calls are numbered apart and the clock does not go back; a pipeline's second
command runs after its first, and every call is answered. -/
def Allowed (history : List UpstashEvent) : UpstashEvent → Prop
  | .incr call => call.now ≤ call.reading ∧
      ∀ earlier, .incr earlier ∈ history →
        earlier.number ≠ call.number ∧ earlier.reading ≤ call.now
  | .expire number now => ∃ c, (after history).calls.find? (fun c => c.call.number == number) =
      some c ∧ c.call.reading ≤ now
  | .decide number answered => (∃ c ∈ (after history).calls, c.call.number = number ∧
      c.verdict = none) ∧ answered = true

end Upstash

/-! ## What an allowance promises -/

/-- Of the calls counted under one key and one limit: how many are admitted in a
bucket and in an interval, and what a refusal says. -/
structure KeepsAllowance {β : Type} [DecidableEq β] (limit : RateLimit)
    (calls : List (CountedCall β)) : Prop where
  perBucket : ∀ b, (calls.countP (fun c => c.admitted && c.bucket = b) : ℤ) ≤ limit.max
  perInterval : ∀ a : ℤ, (calls.countP (fun c => c.admitted &&
    (a ≤ c.reading && c.reading < a + limit.widthMs)) : ℤ) ≤ 2 * limit.max
  hint : ∀ c ∈ calls, ∀ verdict, c.verdict = some verdict → verdict.ok = false →
    1 ≤ verdict.retryAfterSeconds ∧
    ∀ d ∈ calls, c.call.now + 1000 * verdict.retryAfterSeconds ≤ d.reading → d.bucket ≠ c.bucket

/-- What both stores keep track of: the calls of a bucket are numbered as they are
counted, each lies in its bucket's window, and a verdict is taken on a count
that includes the call's own. -/
structure Accounted {β : Type} [DecidableEq β] (limit : RateLimit) (resetAt : β → ℤ)
    (calls : List (CountedCall β)) : Prop where
  numbered : ∀ b, Numbered CountedCall.position (calls.filter fun c => c.bucket = b)
  windows : Windows CountedCall.bucket CountedCall.reading (fun b => resetAt b - limit.widthMs)
    limit.widthMs calls
  judged : ∀ c ∈ calls, ∀ verdict, c.verdict = some verdict →
    ∃ count, c.position ≤ count ∧ verdict = verdictOf limit c.call.now ⟨count, resetAt c.bucket⟩
  ordered : ∀ c ∈ calls, c.call.now ≤ c.call.reading

/-- Without a call there is nothing to account for, whatever the limit and the buckets. -/
theorem Accounted.nil {β : Type} [DecidableEq β] (limit : RateLimit) (resetAt : β → ℤ) :
    Accounted limit resetAt [] where
  numbered _ := trivial
  windows := ⟨fun _ h => absurd h List.not_mem_nil, fun _ h => absurd h List.not_mem_nil⟩
  judged _ h := absurd h List.not_mem_nil
  ordered _ h := absurd h List.not_mem_nil

section verdicts

variable {limit : RateLimit} {now : ℤ} {bucket : Bucket}

/-- A verdict lets pass exactly where the count is within the allowance. -/
theorem ok_verdictOf : (verdictOf limit now bucket).ok = true ↔ (bucket.count : ℤ) ≤ limit.max := by
  unfold verdictOf
  split
  · rename_i hover
    simp only [Bool.false_eq_true, false_iff]
    omega
  · rename_i hunder
    simp only [true_iff]
    omega

/-- A refusal's hint reaches the end of the bucket, and is a second at least while the
bucket is live. -/
theorem retry_verdictOf (hrefused : (verdictOf limit now bucket).ok = false) :
    bucket.resetAt ≤ now + 1000 * (verdictOf limit now bucket).retryAfterSeconds ∧
      (now < bucket.resetAt → 1 ≤ (verdictOf limit now bucket).retryAfterSeconds) := by
  unfold verdictOf ceilSeconds at *
  split at hrefused
  · rename_i hover
    rw [if_pos hover]
    constructor
    · dsimp only
      omega
    · intro hlive
      dsimp only
      omega
  · cases hrefused

end verdicts

section judging

variable {β : Type} {number : ℕ} {verdict : CountedCall β → Option RateVerdict}
  {calls : List (CountedCall β)}

/-- Giving a call its verdict changes that call's verdict, and nothing else of it or of the
others. -/
theorem mem_judge {d : CountedCall β} :
    d ∈ judge number verdict calls ↔
      (∃ c ∈ calls, c.call.number = number ∧ d = { c with verdict := verdict c }) ∨
        (d ∈ calls ∧ d.call.number ≠ number) := by
  unfold judge
  constructor
  · intro h
    obtain ⟨c, hc, rfl⟩ := List.mem_map.mp h
    by_cases hnumber : c.call.number = number
    · rw [if_pos hnumber]
      exact .inl ⟨c, hc, hnumber, rfl⟩
    · rw [if_neg hnumber]
      exact .inr ⟨hc, hnumber⟩
  · intro h
    rcases h with ⟨c, hc, hnumber, rfl⟩ | ⟨hd, hnumber⟩
    · exact List.mem_map.mpr ⟨c, hc, if_pos hnumber⟩
    · exact List.mem_map.mpr ⟨d, hd, if_neg hnumber⟩

/-- A call that was judged is a call from before, at the same bucket and position. -/
theorem exists_of_mem_judge {d : CountedCall β} (h : d ∈ judge number verdict calls) :
    ∃ c ∈ calls, d.call = c.call ∧ d.bucket = c.bucket ∧ d.position = c.position := by
  rcases mem_judge.mp h with ⟨c, hc, -, rfl⟩ | ⟨hd, -⟩
  · exact ⟨c, hc, rfl, rfl, rfl⟩
  · exact ⟨d, hd, rfl, rfl, rfl⟩

/-- A selection that does not look at verdicts selects the same calls before and after
judging. -/
theorem filter_judge (p : RateCall → β → Bool) :
    (judge number verdict calls).filter (fun c => p c.call c.bucket) =
      judge number verdict (calls.filter fun c => p c.call c.bucket) := by
  induction calls with
  | nil => rfl
  | cons c calls ih =>
      simp only [judge, List.map_cons, List.filter_cons] at ih ⊢
      by_cases hnumber : c.call.number = number
      · simp only [hnumber, if_true, ih]
        split <;> simp [hnumber]
      · simp only [hnumber, if_false, ih]
        split <;> simp [hnumber]

theorem length_judge : (judge number verdict calls).length = calls.length := List.length_map _

/-- Judging a call leaves all calls at the places they had in their buckets. -/
theorem numbered_judge (h : Numbered CountedCall.position calls) :
    Numbered CountedCall.position (judge number verdict calls) := by
  induction calls with
  | nil => exact h
  | cons c calls ih =>
      refine ⟨?_, ih h.2⟩
      rw [← judge, length_judge, ← h.1]
      dsimp only
      split <;> rfl

end judging

variable {β : Type} [DecidableEq β] {limit : RateLimit} {resetAt : β → ℤ}
  {calls : List (CountedCall β)}

theorem Accounted.cons {resetAt' : β → ℤ} {c : CountedCall β}
    (h : Accounted limit resetAt calls) (hsame : ∀ d ∈ calls, resetAt' d.bucket = resetAt d.bucket)
    (hposition : c.position = (calls.filter fun d => d.bucket = c.bucket).length + 1)
    (hverdict : c.verdict = none) (hordered : c.call.now ≤ c.call.reading)
    (hinside : resetAt' c.bucket - limit.widthMs ≤ c.reading ∧ c.reading < resetAt' c.bucket)
    (hapart : ∀ d ∈ calls, d.bucket ≠ c.bucket →
      resetAt' d.bucket ≤ resetAt' c.bucket - limit.widthMs) :
    Accounted limit resetAt' (c :: calls) where
  numbered b := by
    by_cases hb : c.bucket = b
    · rw [List.filter_cons_of_pos (by simpa using hb)]
      refine ⟨?_, h.numbered b⟩
      rw [hposition, hb]
    · rw [List.filter_cons_of_neg (by simpa using hb)]
      exact h.numbered b
  windows :=
    { inside := by
        intro d hd
        rcases List.mem_cons.mp hd with rfl | hd
        · omega
        · rw [hsame d hd]
          exact h.windows.inside d hd
      apart := by
        intro d hd e he hne
        rcases List.mem_cons.mp hd with hnew | hold
        · rcases List.mem_cons.mp he with hnew' | hold'
          · exact absurd (by rw [hnew, hnew']) hne
          · subst hnew
            have hbefore := hapart e hold' (Ne.symm hne)
            omega
        · rcases List.mem_cons.mp he with hnew' | hold'
          · subst hnew'
            have hbefore := hapart d hold hne
            omega
          · rw [hsame d hold, hsame e hold']
            exact h.windows.apart d hold e hold' hne }
  judged := by
    intro d hd verdict hd'
    rcases List.mem_cons.mp hd with rfl | hd
    · rw [hverdict] at hd'
      cases hd'
    · rw [hsame d hd]
      exact h.judged d hd verdict hd'
  ordered := by
    intro d hd
    rcases List.mem_cons.mp hd with rfl | hd
    · exact hordered
    · exact h.ordered d hd

/-- The accounts stay in order when a call is judged on a count that includes its own. -/
theorem Accounted.judge {number : ℕ} {verdict : CountedCall β → Option RateVerdict}
    (h : Accounted limit resetAt calls)
    (hverdict : ∀ c ∈ calls, c.call.number = number → ∀ v, verdict c = some v →
      ∃ count, c.position ≤ count ∧ v = verdictOf limit c.call.now ⟨count, resetAt c.bucket⟩) :
    Accounted limit resetAt (judge number verdict calls) where
  numbered b := by
    rw [filter_judge (fun _ bucket => decide (bucket = b))]
    exact numbered_judge (h.numbered b)
  windows :=
    { inside := by
        intro d hd
        obtain ⟨c, hc, hcall, hbucket, -⟩ := exists_of_mem_judge hd
        have hinside := h.windows.inside c hc
        unfold CountedCall.reading at hinside ⊢
        rwa [hcall, hbucket]
      apart := by
        intro d hd e he hne
        obtain ⟨c, hc, -, hbucket, -⟩ := exists_of_mem_judge hd
        obtain ⟨c', hc', -, hbucket', -⟩ := exists_of_mem_judge he
        rw [hbucket, hbucket'] at hne ⊢
        exact h.windows.apart c hc c' hc' hne }
  judged := by
    intro d hd v hv
    rcases mem_judge.mp hd with ⟨c, hc, hnumber, rfl⟩ | ⟨hd, -⟩
    · exact hverdict c hc hnumber v hv
    · exact h.judged d hd v hv
  ordered := by
    intro d hd
    obtain ⟨c, hc, hcall, -, -⟩ := exists_of_mem_judge hd
    rw [hcall]
    exact h.ordered c hc

/-- A call that was admitted was among the first of its bucket, as many as the limit allows.
-/
theorem Accounted.position_le (h : Accounted limit resetAt calls) {c : CountedCall β}
    (hc : c ∈ calls) (hadmitted : c.admitted = true) : (c.position : ℤ) ≤ limit.max := by
  obtain ⟨verdict, hverdict, hok⟩ := c.admitted_iff.mp hadmitted
  obtain ⟨count, hcount, rfl⟩ := h.judged c hc verdict hverdict
  have hle := ok_verdictOf.mp hok
  dsimp only at hle
  omega

/-- No bucket has admitted more calls than the allowance of its limit. -/
theorem Accounted.countP_bucket_le (h : Accounted limit resetAt calls) (hmax : 1 ≤ limit.max)
    (b : β) : calls.countP (fun c => c.admitted && c.bucket = b) ≤ limit.max.toNat := by
  have hcount : calls.countP (fun c => c.admitted && c.bucket = b) =
      (calls.filter fun c => c.bucket = b).countP CountedCall.admitted := by
    rw [List.countP_filter]
  rw [hcount]
  apply (h.numbered b).countP_le
  intro c hc hadmitted
  have hposition := h.position_le (List.mem_of_mem_filter hc) hadmitted
  omega

/-- **From the accounts to the allowance**: calls that are accounted for keep both bounds of
the limit. -/
theorem Accounted.keepsAllowance (h : Accounted limit resetAt calls) (hmax : 1 ≤ limit.max) :
    KeepsAllowance limit calls where
  perBucket b := by
    have hle := h.countP_bucket_le hmax b
    omega
  perInterval a := by
    have hle := h.windows.countP_interval_le (h.countP_bucket_le hmax) a
    omega
  hint c hc verdict hverdict hrefused := by
    obtain ⟨count, -, rfl⟩ := h.judged c hc verdict hverdict
    obtain ⟨hreset, hpositive⟩ := retry_verdictOf hrefused
    have hinside := h.windows.inside c hc
    have hordered := h.ordered c hc
    refine ⟨?_, ?_⟩
    · apply hpositive
      unfold CountedCall.reading at hinside
      dsimp only at hinside ⊢
      omega
    · intro d hd hlater hsame
      have hinside' := (h.windows.inside d hd).2
      rw [hsame] at hinside'
      dsimp only at hinside' hreset
      omega

end Guardrail

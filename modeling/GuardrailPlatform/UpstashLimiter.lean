import GuardrailPlatform.InMemoryLimiter
import GuardrailPlatform.Subjects

/-!
# The Upstash store, and the allowance both stores keep

A window's counter has a name of its own in Redis.  Every `EXPIRE` that reaches
it runs inside the window and lasts the window's length, so the counter is there
until the window ends, and an `INCR` returns how many calls the window has had.
-/

namespace Guardrail

open Js FixedWindow Trace

/-! ## Names and windows -/

/-- No number's text holds the colon that the parts of a key are joined with. -/
theorem colon_notMem_numberText (x : Finite) : (58 : UInt16) ∉ numberText x := by
  intro h
  exact absurd (numberText_units x 58 h) (by decide)

/-- The name of a counter gives back its key and its window. -/
theorem redisKey_injective {key key' : JSString} {window window' : ℤ}
    (h : redisKey key window = redisKey key' window') : key = key' ∧ window = window' := by
  unfold redisKey at h
  rw [List.append_assoc, List.append_assoc (_ ++ key')] at h
  obtain ⟨hfront, hback⟩ := Subjects.last_separator_injective (colon_notMem_numberText _)
    (colon_notMem_numberText _) h
  refine ⟨List.append_cancel_left hfront, Finite.ofInt_injective ?_⟩
  have hunsigned := numberText_injective hback
  rwa [Finite.ofInt_unsignZero, Finite.ofInt_unsignZero] at hunsigned

/-- A reading lies in its aligned window: not before its start, and before its end. -/
theorem windowAt_bounds {windowSeconds : ℤ} (hwindow : 1 ≤ windowSeconds) (reading : ℤ) :
    windowResetAt windowSeconds (windowAt windowSeconds reading) - windowSeconds * 1000 ≤ reading ∧
      reading < windowResetAt windowSeconds (windowAt windowSeconds reading) := by
  have hwidth : 0 < windowSeconds * 1000 := by omega
  have hlow := Int.ediv_mul_le reading hwidth.ne'
  have hhigh := Int.lt_ediv_add_one_mul_self reading hwidth
  have hreset : windowResetAt windowSeconds (windowAt windowSeconds reading) =
      (reading / (windowSeconds * 1000) + 1) * (windowSeconds * 1000) := by
    unfold windowResetAt windowAt
    ring
  rw [hreset]
  constructor
  · linarith
  · exact hhigh

theorem windowResetAt_apart {windowSeconds a b : ℤ} (hwindow : 1 ≤ windowSeconds) (h : a < b) :
    windowResetAt windowSeconds a ≤ windowResetAt windowSeconds b - windowSeconds * 1000 := by
  unfold windowResetAt
  nlinarith

/-! ## The invariant -/

namespace Upstash

/-- The calls counted under a key. -/
def callsOf (upstash : Upstash) (key : JSString) : List (CountedCall ℤ) :=
  upstash.calls.filter fun c => c.call.key = key

/-- How many of the key's calls fell in a window. -/
def countIn (upstash : Upstash) (key : JSString) (window : ℤ) : ℕ :=
  ((upstash.callsOf key).filter fun c => c.bucket = window).length

/-- A window's counter holds the number of its calls, until the window ends. -/
def Holds (windowSeconds window : ℤ) (count : ℕ) : Option RedisCounter → Prop
  | none => count = 0
  | some counter => counter.value = count ∧
      ∀ t, counter.expireAt = some t → windowResetAt windowSeconds window ≤ t

/-- The limiter under a key whose calls all have one limit. -/
structure Sound (limit : RateLimit) (key : JSString) (upstash : Upstash) : Prop where
  accounted : Accounted limit (windowResetAt limit.windowSeconds) (upstash.callsOf key)
  placed : ∀ c ∈ upstash.callsOf key, c.bucket = windowAt limit.windowSeconds c.reading
  limited : ∀ c ∈ upstash.callsOf key, c.call.limit = limit
  holds : ∀ window, Holds limit.windowSeconds window (upstash.countIn key window)
    (upstash.redis (redisKey key window))

variable {limit : RateLimit} {key : JSString} {upstash : Upstash}

theorem sound_start (limit : RateLimit) (key : JSString) : Sound limit key start := by
  have hnone : start.callsOf key = [] := rfl
  constructor
  · rw [hnone]
    exact .nil limit _
  · rw [hnone]
    exact fun _ h => absurd h List.not_mem_nil
  · rw [hnone]
    exact fun _ h => absurd h List.not_mem_nil
  · exact fun _ => rfl

/-- Within its window a counter is live: it does not expire before the window's end. -/
theorem Sound.live (h : Sound limit key upstash) {window now : ℤ}
    (hnow : now < windowResetAt limit.windowSeconds window) :
    upstash.redis.live (redisKey key window) now = upstash.redis (redisKey key window) := by
  unfold Redis.live
  have hholds := h.holds window
  cases hcounter : upstash.redis (redisKey key window) with
  | none => rfl
  | some counter =>
      rw [hcounter] at hholds
      rw [Option.filter_some, if_pos]
      cases hexpire : counter.expireAt with
      | none => rfl
      | some t =>
          have hlast := hholds.2 t hexpire
          rw [Option.all_some, decide_eq_true_eq]
          omega

/-- What an `INCR` inside the window returns, and the counter it leaves. -/
theorem Sound.incr_redis (h : Sound limit key upstash) {window now : ℤ}
    (hnow : now < windowResetAt limit.windowSeconds window) :
    ∃ expireAt, (upstash.redis.incr (redisKey key window) now) =
        (upstash.countIn key window + 1, Function.update upstash.redis (redisKey key window)
          (some ⟨upstash.countIn key window + 1, expireAt⟩)) ∧
      ∀ t, expireAt = some t → windowResetAt limit.windowSeconds window ≤ t := by
  unfold Redis.incr
  rw [h.live hnow]
  have hholds := h.holds window
  cases hcounter : upstash.redis (redisKey key window) with
  | none =>
      rw [hcounter] at hholds
      refine ⟨none, ?_, nofun⟩
      rw [show upstash.countIn key window = 0 from hholds]
  | some counter =>
      rw [hcounter] at hholds
      refine ⟨counter.expireAt, ?_, hholds.2⟩
      rw [← hholds.1]

/-- A call counts under the key it was made with, and under no other. -/
theorem callsOf_incr_other {call : RateCall} (h : call.key ≠ key) :
    (upstash.incr call).callsOf key = upstash.callsOf key := by
  unfold callsOf incr
  rw [List.filter_cons_of_neg (by simpa using h)]

/-- An `INCR` touches its own counter and no other, whatever the time. -/
theorem redis_incr_other (redis : Redis) {name other : JSString} (h : name ≠ other) (now : ℤ) :
    (redis.incr name now).2 other = redis other := by
  unfold Redis.incr
  split
  · exact Function.update_of_ne (Ne.symm h) _ _
  · exact Function.update_of_ne (Ne.symm h) _ _

/-- An `EXPIRE` moves the end of the counter it names, where that is there, and no other. -/
theorem redis_expire_cases (redis : Redis) (name other : JSString) (seconds now : ℤ) :
    redis.expire name seconds now other = redis other ∨
      (name = other ∧ ∃ counter, redis other = some counter ∧
        redis.expire name seconds now other =
          some { counter with expireAt := some (now + seconds * 1000) }) := by
  unfold Redis.expire
  cases hlive : redis.live name now with
  | none => exact .inl rfl
  | some counter =>
      by_cases h : name = other
      · subst h
        obtain ⟨hcounter, -⟩ := Option.filter_eq_some_iff.mp hlive
        exact .inr ⟨rfl, counter, hcounter, Function.update_self ..⟩
      · exact .inl (Function.update_of_ne (Ne.symm h) _ _)

theorem Sound.incr {call : RateCall} (h : Sound limit call.key upstash)
    (hwindow : 1 ≤ limit.windowSeconds) (hlimit : call.limit = limit)
    (hordered : call.now ≤ call.reading)
    (hclock : ∀ c ∈ upstash.callsOf call.key, c.reading ≤ call.now) :
    Sound limit call.key (upstash.incr call) := by
  obtain ⟨hlow, hhigh⟩ := windowAt_bounds hwindow call.reading
  obtain ⟨expireAt, hincr, hexpire⟩ := h.incr_redis hhigh
  have hafter : upstash.incr call =
      { redis := Function.update upstash.redis
          (redisKey call.key (windowAt limit.windowSeconds call.reading))
          (some ⟨upstash.countIn call.key (windowAt limit.windowSeconds call.reading) + 1, expireAt⟩),
        calls := ⟨call, windowAt limit.windowSeconds call.reading,
          upstash.countIn call.key (windowAt limit.windowSeconds call.reading) + 1, none⟩ ::
            upstash.calls } := by
    simp only [Upstash.incr, hlimit, hincr]
  have hcalls : (upstash.incr call).callsOf call.key =
      ⟨call, windowAt limit.windowSeconds call.reading,
        upstash.countIn call.key (windowAt limit.windowSeconds call.reading) + 1, none⟩ ::
          upstash.callsOf call.key := by
    rw [hafter]
    exact List.filter_cons_of_pos (by simp)
  constructor
  · rw [hcalls]
    refine h.accounted.cons (fun _ _ => rfl) rfl rfl hordered ⟨hlow, hhigh⟩ ?_
    intro d hd hne
    -- an earlier window, since the clock does not go back
    have hbefore := hclock d hd
    have hplaced := h.placed d hd
    apply windowResetAt_apart hwindow
    have hle : d.bucket ≤ windowAt limit.windowSeconds call.reading := by
      rw [hplaced]
      exact Int.ediv_le_ediv (by omega) (by omega)
    exact lt_of_le_of_ne hle hne
  · intro c hc
    rw [hcalls] at hc
    rcases List.mem_cons.mp hc with rfl | hc
    · rfl
    · exact h.placed c hc
  · intro c hc
    rw [hcalls] at hc
    rcases List.mem_cons.mp hc with rfl | hc
    · exact hlimit
    · exact h.limited c hc
  · intro window
    have hholds := h.holds window
    unfold countIn at hholds ⊢
    rw [hcalls, hafter]
    by_cases hsame : window = windowAt limit.windowSeconds call.reading
    · subst hsame
      dsimp only
      rw [Function.update_self, List.filter_cons_of_pos (by simp)]
      exact ⟨rfl, hexpire⟩
    · have hname : redisKey call.key window ≠
          redisKey call.key (windowAt limit.windowSeconds call.reading) := by
        intro hname
        exact hsame (redisKey_injective hname).2
      dsimp only
      rw [Function.update_of_ne hname, List.filter_cons_of_neg (by simpa using Ne.symm hsame)]
      exact hholds

theorem Sound.incr_other {call : RateCall} (h : Sound limit key upstash) (hkey : call.key ≠ key) :
    Sound limit key (upstash.incr call) where
  accounted := by
    rw [callsOf_incr_other hkey]
    exact h.accounted
  placed := by
    rw [callsOf_incr_other hkey]
    exact h.placed
  limited := by
    rw [callsOf_incr_other hkey]
    exact h.limited
  holds window := by
    have hredis : (upstash.incr call).redis (redisKey key window) =
        upstash.redis (redisKey key window) := by
      apply redis_incr_other
      intro hname
      exact hkey (redisKey_injective hname).1
    rw [countIn, callsOf_incr_other hkey, hredis]
    exact h.holds window

/-- Running the second command of a pipeline, once the first has run, leaves the counters
sound. -/
theorem Sound.expire (h : Sound limit key upstash) (hwindow : 1 ≤ limit.windowSeconds)
    {number : ℕ} {now : ℤ} {c : CountedCall ℤ}
    (hfind : upstash.calls.find? (fun c => c.call.number == number) = some c)
    (hnow : c.reading ≤ now) : Sound limit key (upstash.expire number now) := by
  have hafter : upstash.expire number now = { upstash with
      redis := upstash.redis.expire (redisKey c.call.key c.bucket) c.call.limit.windowSeconds
        now } := by
    unfold Upstash.expire
    rw [hfind]
  have hcalls : (upstash.expire number now).callsOf key = upstash.callsOf key := by
    rw [hafter]
    rfl
  refine ⟨hcalls ▸ h.accounted, hcalls ▸ h.placed, hcalls ▸ h.limited, ?_⟩
  intro window
  rw [countIn, hcalls, hafter]
  have hholds := h.holds window
  rcases redis_expire_cases upstash.redis (redisKey c.call.key c.bucket) (redisKey key window)
    c.call.limit.windowSeconds now with hsame | ⟨hname, counter, hcounter, hmoved⟩
  · dsimp only
    rw [hsame]
    exact hholds
  · dsimp only
    rw [hcounter] at hholds
    rw [hmoved]
    refine ⟨hholds.1, ?_⟩
    intro t ht
    obtain rfl := Option.some.inj ht
    obtain ⟨hkey, hbucket⟩ := redisKey_injective hname
    have hmem : c ∈ upstash.callsOf key :=
      List.mem_filter.mpr ⟨List.mem_of_find?_eq_some hfind, by simpa using hkey⟩
    -- the command runs no earlier than the window opens
    have hplaced := h.placed c hmem
    obtain ⟨hlow, -⟩ := windowAt_bounds hwindow c.reading
    rw [h.limited c hmem, ← hbucket, hplaced]
    omega

theorem Sound.decide (h : Sound limit key upstash) (number : ℕ) :
    Sound limit key (upstash.decide number true) := by
  have hcalls : ∃ verdict : CountedCall ℤ → Option RateVerdict,
      (upstash.decide number true).callsOf key = judge number verdict (upstash.callsOf key) ∧
      ∀ c, verdict c = some (verdictOf c.call.limit c.call.now
        ⟨c.position, windowResetAt c.call.limit.windowSeconds c.bucket⟩) :=
    ⟨_, filter_judge (fun call _ => Decidable.decide (call.key = key)), fun c => rfl⟩
  obtain ⟨verdict, hcalls, hverdict⟩ := hcalls
  constructor
  · rw [hcalls]
    apply h.accounted.judge
    intro c hc _ v hv
    rw [hverdict, h.limited c hc] at hv
    exact ⟨c.position, le_rfl, (Option.some.inj hv).symm⟩
  · intro d hd
    rw [hcalls] at hd
    obtain ⟨c, hc, hcall, hbucket, -⟩ := exists_of_mem_judge hd
    have hplaced := h.placed c hc
    unfold CountedCall.reading at hplaced ⊢
    rwa [hbucket, hcall]
  · intro d hd
    rw [hcalls] at hd
    obtain ⟨c, hc, hcall, -⟩ := exists_of_mem_judge hd
    rw [hcall]
    exact h.limited c hc
  · intro window
    have hcount : (upstash.decide number true).countIn key window = upstash.countIn key window := by
      rw [countIn, hcalls, filter_judge (fun _ bucket => Decidable.decide (bucket = window)),
        length_judge, countIn]
    rw [hcount]
    exact h.holds window

/-! ## Runs -/

variable {history : List UpstashEvent}

/-- All calls under the key have one limit. -/
def OneLimit (history : List UpstashEvent) (key : JSString) (limit : RateLimit) : Prop :=
  ∀ call, .incr call ∈ history → call.key = key → call.limit = limit

/-- A call that is counted has run its `INCR` at some point of the history. -/
theorem counted_of_mem {c : CountedCall ℤ} (hc : c ∈ (after history).calls) :
    .incr c.call ∈ history := by
  induction history generalizing c with
  | nil => cases hc
  | cons event history ih =>
      cases event with
      | incr call =>
          rcases List.mem_cons.mp hc with rfl | hc
          · exact List.mem_cons_self
          · exact List.mem_cons_of_mem _ (ih hc)
      | expire number now =>
          have hsame : (after (.expire number now :: history)).calls = (after history).calls := by
            simp only [after, step, expire]
            split
            · rfl
            · rfl
          rw [hsame] at hc
          exact List.mem_cons_of_mem _ (ih hc)
      | decide number answered =>
          obtain ⟨d, hd, hcall, -⟩ := exists_of_mem_judge hc
          rw [hcall]
          exact List.mem_cons_of_mem _ (ih hd)

/-- **The limiter of a run** is sound for a key whose calls all ask under one limit. -/
theorem sound_of_run (hrun : Run Allowed history) (hwindow : 1 ≤ limit.windowSeconds)
    (hlimit : OneLimit history key limit) : Sound limit key (after history) := by
  induction hrun with
  | start => exact sound_start limit key
  | @next history event hrun hallowed ih =>
      have hsound := ih fun call hcall => hlimit call (List.mem_cons_of_mem _ hcall)
      cases event with
      | incr call =>
          by_cases hkey : call.key = key
          · subst hkey
            apply hsound.incr hwindow (hlimit call List.mem_cons_self rfl) hallowed.1
            intro c hc
            exact (hallowed.2 c.call (counted_of_mem (List.mem_of_mem_filter hc))).2
          · exact hsound.incr_other hkey
      | expire number now =>
          obtain ⟨c, hfind, hnow⟩ := hallowed
          exact hsound.expire hwindow hfind hnow
      | decide number answered =>
          obtain ⟨-, rfl⟩ := hallowed
          exact hsound.decide number

/-- A window with a call has its counter, until the window ends. -/
theorem Sound.counter_live (h : Sound limit key upstash) {c : CountedCall ℤ}
    (hc : c ∈ upstash.callsOf key) {now : ℤ}
    (hnow : now < windowResetAt limit.windowSeconds c.bucket) :
    ∃ counter, upstash.redis.live (redisKey key c.bucket) now = some counter ∧
      counter.value = upstash.countIn key c.bucket := by
  rw [h.live hnow]
  have hholds := h.holds c.bucket
  cases hcounter : upstash.redis (redisKey key c.bucket) with
  | none =>
      rw [hcounter] at hholds
      have hnone : (upstash.callsOf key).filter (fun d => d.bucket = c.bucket) = [] :=
        List.length_eq_zero_iff.mp hholds
      exact absurd (by simp) (List.filter_eq_nil_iff.mp hnone c hc)
  | some counter =>
      rw [hcounter] at hholds
      exact ⟨counter, rfl, hholds.1⟩

end Upstash

/-! ## Both stores -/

/-- **The allowance.**  Both stores admit at most the allowance in a bucket and
twice the allowance in an interval, and a refusal's hint reaches the next bucket;
the counter of an Upstash window is there until the window ends. -/
theorem limiter_keeps_allowance (key : JSString) (limit : RateLimit) (hmax : 1 ≤ limit.max)
    (hwindow : 1 ≤ limit.windowSeconds) :
    (∀ history, Run Limiter.Allowed history → Limiter.OneLimit history key limit →
      KeepsAllowance limit (Limiter.after history key).calls) ∧
    ∀ history, Run Upstash.Allowed history → Upstash.OneLimit history key limit →
      KeepsAllowance limit ((Upstash.after history).callsOf key) ∧
      ∀ c ∈ (Upstash.after history).callsOf key, ∀ now,
        now < windowResetAt limit.windowSeconds c.bucket →
        ∃ counter, (Upstash.after history).redis.live (redisKey key c.bucket) now = some counter ∧
          counter.value = (Upstash.after history).countIn key c.bucket := by
  constructor
  · intro history hrun hlimit
    exact (Limiter.sound_of_run hrun hwindow hlimit).accounted.keepsAllowance hmax
  · intro history hrun hlimit
    have hsound := Upstash.sound_of_run hrun hwindow hlimit
    exact ⟨hsound.accounted.keepsAllowance hmax, fun c hc now hnow => hsound.counter_live hc hnow⟩

/-- Two calls over Upstash, their pipelines interleaved: the second is one too many. -/
def interleaved : List UpstashEvent :=
  [.decide 2 true, .expire 2 4, .decide 1 true, .expire 1 3, .incr (hastyCall 2 1),
    .incr (hastyCall 1 0)]

/-- Two pipelines whose commands fall in between one another are a run of the endpoint. -/
theorem interleaved_run : Run Upstash.Allowed interleaved := by
  refine .next (.next (.next (.next (.next (.next .start ?_) ?_) ?_) ?_) ?_) ?_
  · exact ⟨le_rfl, by simp⟩
  · refine ⟨le_rfl, ?_⟩
    intro earlier hearlier
    obtain rfl : earlier = hastyCall 1 0 := by simpa using hearlier
    decide
  · exact ⟨_, rfl, by decide⟩
  · exact ⟨⟨_, List.mem_cons_of_mem _ List.mem_cons_self, rfl, rfl⟩, rfl⟩
  · exact ⟨_, rfl, by decide⟩
  · exact ⟨⟨_, List.mem_cons_self, rfl, rfl⟩, rfl⟩

/-- Of two calls that overlap within one interval, the allowance of one admits
one. -/
theorem limiter_keeps_allowance_hasty :
    KeepsAllowance { max := 1, windowSeconds := 60 }
        (Limiter.after inTurn (str "org:acme:project:read")).calls ∧
      ((Upstash.after interleaved).callsOf (str "org:acme:project:read")).map (·.verdict) =
        [some ⟨false, 60⟩, some ⟨true, 0⟩] ∧
      KeepsAllowance { max := 1, windowSeconds := 60 }
        ((Upstash.after interleaved).callsOf (str "org:acme:project:read")) := by
  obtain ⟨hmemory, hupstash⟩ := limiter_keeps_allowance (str "org:acme:project:read")
    { max := 1, windowSeconds := 60 } (by decide) (by decide)
  refine ⟨hmemory _ inTurn_run inTurn_oneLimit, rfl, (hupstash _ interleaved_run ?_).1⟩
  intro call hcall _
  rcases (by simpa [interleaved] using hcall : call = hastyCall 2 1 ∨ call = hastyCall 1 0) with
    rfl | rfl
  · rfl
  · rfl

end Guardrail

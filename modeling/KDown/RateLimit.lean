/-
KDown/RateLimit.lean

Token buckets and the two levels of rate limits (control/rate_limit.rs, and
`acquire_rate` in job/segmented.rs).

A bucket is debited at once, below zero if need be, and the caller is told how
long the refill takes to bring the balance back to zero.  Callers wait at the same
time and finish in any order, so a caller may use its bytes while earlier callers
still wait.  What bounds the bytes in use is that each promise covers everything
debited before it: with the wait of a call over at `T`, all debits up to that call
are at most the burst and the refill until `T` (`acquire_spec`).

* Time and balances are rational, with seconds for the clock.
* Each level of limits has one bucket, and a request asks two of them: its job's
  and that of the engine, in either order, with other requests in between.
* A caller that is cancelled may cut its wait short.  Such a caller has no `use`
  here, since it does not keep to what it was told.

`rate_law`: the bytes used by any time are within burst and rate, for the calls
of one bucket and for every level at once.
-/
import KDown.Runs
import KDown.Tally
import Mathlib.Algebra.Order.Field.Rat
import Mathlib.Tactic.Linarith

namespace KDown

/-! ### The bucket -/

/-- A bucket of one level; `limit` is in bytes per second, and zero is
unlimited. -/
structure TokenBucket where
  limit : ℕ
  burst : ℕ
  tokens : ℚ
  lastRefill : ℚ
  deriving DecidableEq

namespace TokenBucket

/-- A full bucket of the given burst. -/
def withBurst (bytesPerSecond burstBytes : ℕ) (now : ℚ) : TokenBucket :=
  ⟨bytesPerSecond, burstBytes, burstBytes, now⟩

/-- The time since the last refill is turned into tokens, up to the burst. -/
def refill (b : TokenBucket) (now : ℚ) : TokenBucket :=
  let elapsed := now - b.lastRefill
  if 0 < elapsed then
    { b with tokens := min (b.tokens + elapsed * b.limit) b.burst, lastRefill := now }
  else b

/-- The wait before `bytes` may be used, and the bucket after the debit. -/
def acquire (b : TokenBucket) (bytes : ℕ) (now : ℚ) : Option ℚ × TokenBucket :=
  if b.limit = 0 then (none, b)
  else
    let b := b.refill now
    -- the debit stays in the balance while its caller waits
    let b := { b with tokens := b.tokens - bytes }
    if 0 ≤ b.tokens then (none, b) else (some (-b.tokens / b.limit), b)

/-- When the bytes of a call may be used. -/
def ready (b : TokenBucket) (bytes : ℕ) (now : ℚ) : ℚ := now + (b.acquire bytes now).1.getD 0

/-- What was debited and what is left came from the burst and the refill. -/
def Funded (b : TokenBucket) (created : ℚ) (debited : ℕ) : Prop :=
  debited + b.tokens ≤ b.burst + b.limit * (b.lastRefill - created)

variable {b : TokenBucket} {created : ℚ} {debited : ℕ}

theorem refill_lastRefill {now : ℚ} (h : b.lastRefill ≤ now) : (b.refill now).lastRefill = now := by
  rw [refill]
  split_ifs with helapsed
  · rfl
  · show b.lastRefill = now
    linarith

theorem Funded.refill (h : b.Funded created debited) (now : ℚ) :
    (b.refill now).Funded created debited := by
  rw [TokenBucket.refill]
  split_ifs
  · have hmin := min_le_left (b.tokens + (now - b.lastRefill) * b.limit) (b.burst : ℚ)
    show debited + min _ _ ≤ b.burst + b.limit * (now - created)
    rw [Funded] at h
    linarith
  · exact h

theorem refill_limit (b : TokenBucket) (now : ℚ) :
    (b.refill now).limit = b.limit ∧ (b.refill now).burst = b.burst := by
  rw [TokenBucket.refill]
  split_ifs <;> exact ⟨rfl, rfl⟩

/-- An acquisition is a refill and a debit. -/
theorem acquire_eq (hlimit : 0 < b.limit) (bytes : ℕ) (now : ℚ) :
    (b.acquire bytes now).2 = { b.refill now with tokens := (b.refill now).tokens - bytes } ∧
      0 ≤ b.limit * (b.acquire bytes now).1.getD 0 + (b.acquire bytes now).2.tokens := by
  have hpos : (0 : ℚ) < b.limit := Nat.cast_pos.mpr hlimit
  rw [acquire, if_neg hlimit.ne']
  simp only [refill_limit]
  split_ifs with htokens
  · exact ⟨rfl, by simpa using htokens⟩
  · refine ⟨rfl, ?_⟩
    rw [Option.getD_some, mul_div_cancel₀ _ hpos.ne']
    linarith

/-- **What a bucket promises.**  When the wait of a call is over, everything
debited so far is covered. -/
theorem acquire_spec {now : ℚ} (hlimit : 0 < b.limit) (hnow : b.lastRefill ≤ now)
    (h : b.Funded created debited) (bytes : ℕ) :
    (b.acquire bytes now).2.Funded created (debited + bytes) ∧
      (b.acquire bytes now).2.lastRefill = now ∧
      (b.acquire bytes now).2.limit = b.limit ∧ (b.acquire bytes now).2.burst = b.burst ∧
      ∀ T, b.ready bytes now ≤ T →
        ((debited + bytes : ℕ) : ℚ) ≤ b.burst + b.limit * (T - created) := by
  obtain ⟨hacquire, hwait⟩ := acquire_eq hlimit bytes now
  have hfunded : (b.acquire bytes now).2.Funded created (debited + bytes) := by
    have hrefill := h.refill now
    rw [hacquire]
    rw [Funded] at hrefill ⊢
    push_cast
    linarith
  have hlast : (b.acquire bytes now).2.lastRefill = now := by
    rw [hacquire]
    exact refill_lastRefill hnow
  have hsame : (b.acquire bytes now).2.limit = b.limit ∧
      (b.acquire bytes now).2.burst = b.burst := by
    rw [hacquire]
    exact refill_limit b now
  refine ⟨hfunded, hlast, hsame.1, hsame.2, fun T hT => ?_⟩
  rw [Funded, hlast, hsame.1, hsame.2] at hfunded
  rw [ready] at hT
  -- the refill from now until `T` makes up for what the balance is below zero
  have hpos : (0 : ℚ) ≤ b.limit := Nat.cast_nonneg _
  have hrefill := mul_le_mul_of_nonneg_left hT hpos
  linarith

end TokenBucket

/-! ### The calls of one bucket -/

/-- A call of `acquire`, and when its caller uses the bytes. -/
structure RateCall where
  now : ℚ
  bytes : ℕ
  usedAt : ℚ

/-- The calls come in the order of the clock, and every caller waits as told. -/
def Waited : TokenBucket → ℚ → List RateCall → Prop
  | _, _, [] => True
  | b, clock, c :: calls =>
      clock ≤ c.now ∧ b.ready c.bytes c.now ≤ c.usedAt ∧
        Waited (b.acquire c.bytes c.now).2 c.now calls

/-- The bytes in use by a time. -/
def bytesUsedBy (T : ℚ) (calls : List RateCall) : ℕ :=
  listTally (fun c => if c.usedAt ≤ T then c.bytes else 0) calls

/-- Beside the bytes earlier callers use, which were debited, the bucket covers
those of its further calls. -/
theorem bytesUsedBy_le {b : TokenBucket} {created clock T : ℚ} {debited used : ℕ}
    {calls : List RateCall} (hlimit : 0 < b.limit) (hfunded : b.Funded created debited)
    (hclock : b.lastRefill ≤ clock) (hused : used ≤ debited)
    (hbound : (used : ℚ) ≤ b.burst + b.limit * (T - created)) (h : Waited b clock calls) :
    ((used + bytesUsedBy T calls : ℕ) : ℚ) ≤ b.burst + b.limit * (T - created) := by
  induction calls generalizing b clock debited used with
  | nil => exact hbound
  | cons c calls ih =>
    obtain ⟨hnow, hready, hrest⟩ := h
    obtain ⟨hfunded', hlast, hlimit', hburst', hcovered⟩ :=
      TokenBucket.acquire_spec hlimit (hclock.trans hnow) hfunded c.bytes
    rw [← hlimit', ← hburst'] at hbound ⊢
    rw [← hlimit'] at hlimit
    rw [bytesUsedBy, listTally_cons, ← Nat.add_assoc, ← bytesUsedBy]
    split_ifs with hT
    · -- this caller is done by `T`, and so the debits up to it are covered
      have hcover := hcovered T (hready.trans hT)
      rw [← hlimit', ← hburst'] at hcover
      have hle : used + c.bytes ≤ debited + c.bytes := Nat.add_le_add_right hused _
      exact ih hlimit hfunded' hlast.le hle ((Nat.cast_le.mpr hle).trans hcover) hrest
    · exact ih hlimit hfunded' hlast.le (hused.trans (Nat.le_add_right _ _)) hbound hrest

/-! ### Job and engine -/

/-- The effective wait when two buckets gate the same payload. -/
def dominantWait : Option ℚ → Option ℚ → Option ℚ
  | some a, some b => some (max a b)
  | some a, none => some a
  | none, b => b

theorem le_dominantWait {a b : Option ℚ} (ha : ∀ x ∈ a, 0 ≤ x) (hb : ∀ x ∈ b, 0 ≤ x) :
    a.getD 0 ≤ (dominantWait a b).getD 0 ∧ b.getD 0 ≤ (dominantWait a b).getD 0 := by
  rcases a with - | a <;> rcases b with - | b
  · exact ⟨le_rfl, le_rfl⟩
  · exact ⟨hb b rfl, le_rfl⟩
  · exact ⟨le_rfl, ha a rfl⟩
  · exact ⟨le_max_left a b, le_max_right a b⟩

/-- Which of the two waits comes first makes no difference. -/
theorem dominantWait_comm (a b : Option ℚ) : dominantWait a b = dominantWait b a := by
  rcases a with - | a <;> rcases b with - | b
  · rfl
  · rfl
  · rfl
  · exact congrArg some (max_comm a b)

/-- The bucket of the engine, or that of a job. -/
inductive RateLevel
  | engine
  | job (id : ℕ)
  deriving DecidableEq

/-- What a bucket answered. -/
structure Asked where
  now : ℚ
  wait : Option ℚ

/-- When the caller may go on. -/
def Asked.ready (a : Asked) : ℚ := a.now + a.wait.getD 0

/-- The bytes of one chunk on their way through both levels. -/
structure RateRequest where
  job : ℕ
  bytes : ℕ
  jobAsk : Option Asked
  engineAsk : Option Asked
  usedAt : Option ℚ

namespace RateRequest

/-- The bucket is one that the request must ask. -/
def belongs (q : RateRequest) : RateLevel → Bool
  | .engine => true
  | .job id => q.job = id

/-- The answer of the bucket, if it was asked. -/
def asked (q : RateRequest) : RateLevel → Option Asked
  | .engine => q.engineAsk
  | .job id => if q.job = id then q.jobAsk else none

/-- The answer is recorded. -/
def ask (q : RateRequest) (level : RateLevel) (a : Asked) : RateRequest :=
  match level with
  | .engine => { q with engineAsk := some a }
  | .job _ => { q with jobAsk := some a }

/-- When a request may go on that both levels have answered. -/
def goesOn (q : RateRequest) : Option ℚ :=
  q.jobAsk.bind fun a => q.engineAsk.map fun b =>
    max a.now b.now + (dominantWait a.wait b.wait).getD 0

end RateRequest

/-- The limits of all levels, which stay as they are. -/
structure RateConfig where
  limit : RateLevel → ℕ
  burst : RateLevel → ℕ
  created : RateLevel → ℚ

/-- All buckets and requests, on one clock. -/
structure RateSystem where
  clock : ℚ
  bucket : RateLevel → TokenBucket
  requests : List RateRequest

/-- A chunk arrives, asks a bucket, or is used. -/
inductive RateEvent
  /-- A chunk of a job arrives. -/
  | arrive (job bytes : ℕ)
  /-- Its caller asks one of the two buckets. -/
  | ask (i : ℕ) (level : RateLevel) (now : ℚ)
  /-- The caller goes on and uses the bytes. -/
  | use (i : ℕ) (now : ℚ)

/-- The bucket of a level answers a request. -/
def RateSystem.ask (s : RateSystem) (i : ℕ) (q : RateRequest) (level : RateLevel) (now : ℚ) :
    RateSystem :=
  let answer := (s.bucket level).acquire q.bytes now
  { clock := now
    bucket := Function.update s.bucket level answer.2
    requests := s.requests.set i (q.ask level ⟨now, answer.1⟩) }

/-- One event. -/
def rateStep (cfg : RateConfig) (s : RateSystem) : RateEvent → Option RateSystem
  | .arrive job bytes => some { s with requests := s.requests ++ [⟨job, bytes, none, none, none⟩] }
  | .ask i level now =>
      (s.requests[i]?).bind fun q =>
        if s.clock ≤ now ∧ cfg.created level ≤ now ∧ q.belongs level ∧ (q.asked level).isNone then
          some (s.ask i q level now)
        else none
  | .use i now =>
      (s.requests[i]?).bind fun q =>
        if s.clock ≤ now ∧ q.usedAt.isNone ∧ q.goesOn.any (· ≤ now) then
          some { s with clock := now, requests := s.requests.set i { q with usedAt := some now } }
        else none

/-- Before any chunk has arrived every bucket is full. -/
structure RateSystem.Starts (cfg : RateConfig) (s : RateSystem) : Prop where
  requests : s.requests = []
  bucket : ∀ level, s.bucket level =
    .withBurst (cfg.limit level) (cfg.burst level) (cfg.created level)

/-- The bytes that have passed a level by a time. -/
def RateSystem.bytesUsedBy (s : RateSystem) (level : RateLevel) (T : ℚ) : ℕ :=
  listTally (fun q => if q.belongs level ∧ q.usedAt.any (· ≤ T) then q.bytes else 0) s.requests

/-! ### What every level keeps -/

theorem TokenBucket.acquire_wait_nonneg (b : TokenBucket) (bytes : ℕ) (now : ℚ) :
    ∀ x ∈ (b.acquire bytes now).1, 0 ≤ x := by
  intro x hx
  rw [acquire] at hx
  split_ifs at hx with hlimit
  · cases hx
  · simp only at hx
    split_ifs at hx with htokens
    · cases hx
    · cases hx
      rw [not_le] at htokens
      exact div_nonneg (by linarith) (Nat.cast_nonneg _)

/-- No wait is negative, and the bytes were used after both waits. -/
structure RateRequest.Waited (q : RateRequest) : Prop where
  jobWait : ∀ a ∈ q.jobAsk, ∀ x ∈ a.wait, 0 ≤ x
  engineWait : ∀ a ∈ q.engineAsk, ∀ x ∈ a.wait, 0 ≤ x
  used : ∀ t ∈ q.usedAt, (∃ a ∈ q.jobAsk, a.ready ≤ t) ∧ ∃ a ∈ q.engineAsk, a.ready ≤ t

namespace RateRequest

variable {q : RateRequest} {level level' : RateLevel} {a : Asked} {t : ℚ}

theorem Waited.fresh (job bytes : ℕ) : (RateRequest.mk job bytes none none none).Waited where
  jobWait _ ha := absurd ha (Option.not_mem_none _)
  engineWait _ ha := absurd ha (Option.not_mem_none _)
  used _ ht := absurd ht (Option.not_mem_none _)

/-- A request that goes on has waited for both levels. -/
theorem Waited.goesOn (h : q.Waited) (ht : t ∈ q.goesOn) :
    (∃ a ∈ q.jobAsk, a.ready ≤ t) ∧ ∃ a ∈ q.engineAsk, a.ready ≤ t := by
  obtain ⟨a, ha, hrest⟩ := Option.bind_eq_some_iff.mp ht
  obtain ⟨b, hb, rfl⟩ := Option.map_eq_some_iff.mp hrest
  obtain ⟨hjob, hengine⟩ := le_dominantWait (h.jobWait a ha) (h.engineWait b hb)
  exact ⟨⟨a, ha, add_le_add (le_max_left _ _) hjob⟩, b, hb, add_le_add (le_max_right _ _) hengine⟩

theorem Waited.ask (h : q.Waited) (hunused : q.usedAt = none) (ha : ∀ x ∈ a.wait, 0 ≤ x) :
    (q.ask level a).Waited := by
  cases level with
  | engine =>
    refine ⟨h.jobWait, fun b hb => ?_, fun t ht => ?_⟩
    · cases hb
      exact ha
    · rw [show (q.ask .engine a).usedAt = none from hunused] at ht
      cases ht
  | job id =>
    refine ⟨fun b hb => ?_, h.engineWait, fun t ht => ?_⟩
    · cases hb
      exact ha
    · rw [show (q.ask (.job id) a).usedAt = none from hunused] at ht
      cases ht

/-- The bytes of a level were used after its wait. -/
theorem Waited.asked (h : q.Waited) (hbelongs : q.belongs level = true) (ht : t ∈ q.usedAt) :
    ∃ a ∈ q.asked level, a.ready ≤ t := by
  obtain ⟨hjob, hengine⟩ := h.used t ht
  cases level with
  | engine => exact hengine
  | job id =>
    rw [asked, if_pos (of_decide_eq_true hbelongs)]
    exact hjob

theorem asked_ask (hbelongs : q.belongs level = true) : (q.ask level a).asked level = some a := by
  cases level with
  | engine => rfl
  | job id => exact if_pos (of_decide_eq_true hbelongs)

/-- An answer of one level leaves the others as they are. -/
theorem asked_ask_of_ne (hne : level' ≠ level) (hbelongs : q.belongs level = true) :
    (q.ask level a).asked level' = q.asked level' := by
  cases level with
  | engine =>
    cases level' with
    | engine => exact absurd rfl hne
    | job id => rfl
  | job id =>
    cases level' with
    | engine => rfl
    | job id' =>
      have hjob : q.job = id := of_decide_eq_true hbelongs
      have hother : q.job ≠ id' := fun heq => hne (by rw [← heq, hjob])
      show (if q.job = id' then some a else none) = if q.job = id' then q.jobAsk else none
      rw [if_neg hother, if_neg hother]

end RateRequest

namespace RateSystem

/-- What a bucket was debited. -/
def debited (s : RateSystem) (level : RateLevel) : ℕ :=
  listTally (fun q => if (q.asked level).isSome then q.bytes else 0) s.requests

/-- The bytes whose wait at a level is over by a time. -/
def promisedBy (s : RateSystem) (level : RateLevel) (T : ℚ) : ℕ :=
  listTally (fun q => if (q.asked level).any (·.ready ≤ T) then q.bytes else 0) s.requests

/-- The bucket of a level is funded, and its promises are covered. -/
structure Kept (cfg : RateConfig) (s : RateSystem) (level : RateLevel) : Prop where
  limit : (s.bucket level).limit = cfg.limit level
  burst : (s.bucket level).burst = cfg.burst level
  refilled : (s.bucket level).lastRefill ≤ max s.clock (cfg.created level)
  funded : (s.bucket level).Funded (cfg.created level) (s.debited level)
  promised : ∀ T, cfg.created level ≤ T →
    (s.promisedBy level T : ℚ) ≤ cfg.burst level + cfg.limit level * (T - cfg.created level)

/-- Every request has waited, and every limited level keeps its promises. -/
structure Sound (cfg : RateConfig) (s : RateSystem) : Prop where
  waited : ∀ q ∈ s.requests, q.Waited
  kept : ∀ level, 0 < cfg.limit level → s.Kept cfg level

variable {cfg : RateConfig} {s s' : RateSystem} {i job bytes : ℕ} {level : RateLevel} {now : ℚ}

theorem Sound.of_starts (h : s.Starts cfg) : s.Sound cfg := by
  refine ⟨fun q hq => ?_, fun level _ => ?_⟩
  · rw [h.requests] at hq
    cases hq
  · have hbucket := h.bucket level
    refine ⟨?_, ?_, ?_, ?_, fun T hT => ?_⟩
    · rw [hbucket]
      rfl
    · rw [hbucket]
      rfl
    · rw [hbucket]
      exact le_max_right _ _
    · rw [hbucket, debited, h.requests, TokenBucket.Funded]
      simp [TokenBucket.withBurst]
    · rw [promisedBy, h.requests, listTally_nil, Nat.cast_zero]
      have hrefill := mul_nonneg (Nat.cast_nonneg (α := ℚ) (cfg.limit level)) (sub_nonneg.mpr hT)
      exact add_nonneg (Nat.cast_nonneg _) hrefill

/-- A new request has asked for nothing. -/
theorem Sound.arrive (h : s.Sound cfg) (hs : rateStep cfg s (.arrive job bytes) = some s') :
    s'.Sound cfg := by
  cases hs
  refine ⟨fun q hq => ?_, fun level hlimit => ?_⟩
  · rcases List.mem_append.mp hq with hq | hq
    · exact h.waited q hq
    · rw [List.mem_singleton.mp hq]
      exact .fresh job bytes
  · have hk := h.kept level hlimit
    have hasked : RateRequest.asked ⟨job, bytes, none, none, none⟩ level = none := by
      cases level with
      | engine => rfl
      | job id => exact ite_self none
    refine ⟨hk.limit, hk.burst, hk.refilled, ?_, fun T hT => ?_⟩
    · rw [debited, listTally_append, listTally_cons, hasked]
      exact hk.funded
    · rw [promisedBy, listTally_append, listTally_cons, hasked]
      exact hk.promised T hT

/-- The sums of a level that the changed request has not asked in between. -/
theorem sums_set {q q' : RateRequest} (s s' : RateSystem) (hset : s'.requests = s.requests.set i q')
    (hq : s.requests[i]? = some q) (hbytes : q'.bytes = q.bytes)
    (hasked : q'.asked level = q.asked level) :
    s'.debited level = s.debited level ∧ ∀ T, s'.promisedBy level T = s.promisedBy level T := by
  refine ⟨?_, fun T => ?_⟩
  · have hsum := listTally_set hq (fun q => if (q.asked level).isSome then q.bytes else 0) q'
    rw [hasked, hbytes, ← hset] at hsum
    exact Nat.add_right_cancel hsum
  · have hsum := listTally_set hq
      (fun q => if (q.asked level).any (·.ready ≤ T) then q.bytes else 0) q'
    rw [hasked, hbytes, ← hset] at hsum
    exact Nat.add_right_cancel hsum

theorem promisedBy_le (s : RateSystem) (level : RateLevel) (T : ℚ) :
    s.promisedBy level T ≤ s.debited level := by
  rw [promisedBy, debited]
  induction s.requests with
  | nil => exact le_rfl
  | cons q l ih =>
    rw [listTally_cons, listTally_cons]
    refine Nat.add_le_add ?_ ih
    rcases q.asked level with - | a
    · exact le_rfl
    · show (if _ then _ else _) ≤ q.bytes
      split_ifs
      · exact le_rfl
      · exact Nat.zero_le _

theorem mem_set {q' q : RateRequest} (h : q ∈ s.requests.set i q') : q ∈ s.requests ∨ q = q' :=
  List.mem_or_eq_of_mem_set h

/-- **The use of bytes that both buckets have granted** keeps to the rate. -/
theorem Sound.use (h : s.Sound cfg) (hs : rateStep cfg s (.use i now) = some s') :
    s'.Sound cfg := by
  obtain ⟨q, hq, hs⟩ := Option.bind_eq_some_iff.mp hs
  split_ifs at hs with hok
  obtain ⟨hclock, -, hgoes⟩ := hok
  cases hs
  have hmem : q ∈ s.requests := List.mem_of_getElem? hq
  refine ⟨fun r hr => ?_, fun level hlimit => ?_⟩
  · rcases mem_set hr with hr | rfl
    · exact h.waited r hr
    · -- the wait of the request is over
      obtain ⟨t, ht, hle⟩ := Option.any_eq_true _ _ |>.mp hgoes
      obtain ⟨⟨a, ha, hready⟩, b, hb, hready'⟩ := (h.waited q hmem).goesOn ht
      have hnow : t ≤ now := of_decide_eq_true hle
      refine ⟨(h.waited q hmem).jobWait, (h.waited q hmem).engineWait, fun u hu => ?_⟩
      cases hu
      exact ⟨⟨a, ha, hready.trans hnow⟩, b, hb, hready'.trans hnow⟩
  · have hk := h.kept level hlimit
    have hasked : ({ q with usedAt := some now } : RateRequest).asked level = q.asked level := by
      cases level <;> rfl
    obtain ⟨hdebited, hpromised⟩ :=
      sums_set s
        { s with clock := now, requests := s.requests.set i { q with usedAt := some now } }
        rfl hq rfl hasked
    refine ⟨hk.limit, hk.burst, hk.refilled.trans (max_le_max_right _ hclock), ?_, fun T hT => ?_⟩
    · rw [hdebited]
      exact hk.funded
    · rw [hpromised]
      exact hk.promised T hT

theorem bytes_ask (q : RateRequest) (level : RateLevel) (a : Asked) :
    (q.ask level a).bytes = q.bytes := by
  cases level <;> rfl

/-- The level that answers covers one more debit. -/
theorem Kept.ask {q : RateRequest} (hk : s.Kept cfg level) (hlimit : 0 < cfg.limit level)
    (hq : s.requests[i]? = some q) (hclock : s.clock ≤ now) (hcreated : cfg.created level ≤ now)
    (hbelongs : q.belongs level = true) (hnone : q.asked level = none) :
    (s.ask i q level now).Kept cfg level := by
  have hnow : (s.bucket level).lastRefill ≤ now := hk.refilled.trans (max_le hclock hcreated)
  have hpos : 0 < (s.bucket level).limit := hk.limit ▸ hlimit
  obtain ⟨hfunded, hlast, hlimit', hburst', hcovered⟩ :=
    TokenBucket.acquire_spec hpos hnow hk.funded q.bytes
  have hbucket : (s.ask i q level now).bucket level = ((s.bucket level).acquire q.bytes now).2 :=
    Function.update_self ..
  have hasked : ∀ a, (q.ask level a).asked level = some a := fun a => RateRequest.asked_ask hbelongs
  have hdebited : (s.ask i q level now).debited level = s.debited level + q.bytes := by
    have hsum := listTally_set hq (fun q => if (q.asked level).isSome then q.bytes else 0)
      (q.ask level ⟨now, ((s.bucket level).acquire q.bytes now).1⟩)
    simp only [hasked, hnone, bytes_ask, Option.isSome_some, Option.isSome_none,
      Bool.false_eq_true, if_true, if_false, Nat.add_zero] at hsum
    exact hsum
  refine ⟨?_, ?_, ?_, ?_, fun T hT => ?_⟩
  · rw [hbucket, hlimit', hk.limit]
  · rw [hbucket, hburst', hk.burst]
  · rw [hbucket, hlast]
    exact le_max_left _ _
  · rw [hbucket, hdebited]
    exact hfunded
  · have hpromised : (s.ask i q level now).promisedBy level T =
        s.promisedBy level T + if (s.bucket level).ready q.bytes now ≤ T then q.bytes else 0 := by
      have hsum := listTally_set hq
        (fun q => if (q.asked level).any (·.ready ≤ T) then q.bytes else 0)
        (q.ask level ⟨now, ((s.bucket level).acquire q.bytes now).1⟩)
      simp only [hasked, hnone, bytes_ask, Option.any_some, Option.any_none, Bool.false_eq_true,
        if_false, Nat.add_zero, decide_eq_true_eq] at hsum
      exact hsum
    rw [hpromised]
    split_ifs with hready
    · -- what is promised by `T` was debited, and the new promise covers all debits
      have hcover := hcovered T hready
      rw [hk.limit, hk.burst] at hcover
      have hle : s.promisedBy level T + q.bytes ≤ s.debited level + q.bytes :=
        Nat.add_le_add_right (s.promisedBy_le level T) _
      exact (Nat.cast_le.mpr hle).trans hcover
    · exact hk.promised T hT

/-- The other levels are as they were. -/
theorem Kept.ask_other {q : RateRequest} {other : RateLevel} (hk : s.Kept cfg other)
    (hother : other ≠ level) (hq : s.requests[i]? = some q) (hclock : s.clock ≤ now)
    (hbelongs : q.belongs level = true) : (s.ask i q level now).Kept cfg other := by
  have hbucket : (s.ask i q level now).bucket other = s.bucket other :=
    Function.update_of_ne hother ..
  obtain ⟨hdebited, hpromised⟩ := sums_set s (s.ask i q level now) rfl hq
    (bytes_ask q level _) (RateRequest.asked_ask_of_ne hother hbelongs)
  refine ⟨?_, ?_, ?_, ?_, fun T hT => ?_⟩
  · rw [hbucket, hk.limit]
  · rw [hbucket, hk.burst]
  · rw [hbucket]
    exact hk.refilled.trans (max_le_max_right _ hclock)
  · rw [hbucket, hdebited]
    exact hk.funded
  · rw [hpromised]
    exact hk.promised T hT

/-- **A request asks one bucket**, and waits for what that cannot give at once. -/
theorem Sound.ask (h : s.Sound cfg) (hs : rateStep cfg s (.ask i level now) = some s') :
    s'.Sound cfg := by
  obtain ⟨q, hq, hs⟩ := Option.bind_eq_some_iff.mp hs
  split_ifs at hs with hok
  obtain ⟨hclock, hcreated, hbelongs, hnone⟩ := hok
  cases hs
  have hnone : q.asked level = none := Option.isNone_iff_eq_none.mp hnone
  have hwaited := h.waited q (List.mem_of_getElem? hq)
  refine ⟨fun r hr => ?_, fun other hlimit => ?_⟩
  · rcases mem_set hr with hr | rfl
    · exact h.waited r hr
    · refine hwaited.ask ?_ ((s.bucket level).acquire_wait_nonneg q.bytes now)
      -- a request that was used has asked this level before
      rcases hused : q.usedAt with - | t
      · rfl
      · obtain ⟨a, ha, -⟩ := hwaited.asked hbelongs hused
        rw [hnone] at ha
        cases ha
  · by_cases hother : other = level
    · subst hother
      exact (h.kept other hlimit).ask hlimit hq hclock hcreated hbelongs hnone
    · exact (h.kept other hlimit).ask_other hother hq hclock hbelongs

/-- **Every step keeps the promises of every level.** -/
theorem Sound.step {e : RateEvent} (h : s.Sound cfg) (hs : rateStep cfg s e = some s') :
    s'.Sound cfg := by
  cases e with
  | arrive job bytes => exact h.arrive hs
  | ask i level now => exact h.ask hs
  | use i now => exact h.use hs

/-- Bytes are used after the wait that promised them. -/
theorem Sound.bytesUsedBy_le (h : s.Sound cfg) (level : RateLevel) (T : ℚ) :
    s.bytesUsedBy level T ≤ s.promisedBy level T := by
  rw [bytesUsedBy, promisedBy]
  have hwaited := h.waited
  generalize s.requests = l at hwaited
  induction l with
  | nil => exact le_rfl
  | cons q l ih =>
    rw [listTally_cons, listTally_cons]
    refine Nat.add_le_add ?_ (ih fun r hr => hwaited r (List.mem_cons_of_mem q hr))
    by_cases hused : q.belongs level = true ∧ q.usedAt.any (· ≤ T) = true
    · obtain ⟨hbelongs, hany⟩ := hused
      obtain ⟨t, ht, hle⟩ := Option.any_eq_true _ _ |>.mp hany
      obtain ⟨a, ha, hready⟩ := (hwaited q List.mem_cons_self).asked hbelongs ht
      have hpromised : (q.asked level).any (·.ready ≤ T) = true :=
        (Option.any_eq_true _ _).mpr ⟨a, ha, decide_eq_true (hready.trans (of_decide_eq_true hle))⟩
      rw [if_pos ⟨hbelongs, hany⟩, if_pos hpromised]
    · rw [if_neg hused]
      exact Nat.zero_le _

end RateSystem

/-- **The rate law.**  The bytes in use by a time are at most the burst and the
rate since the creation of the bucket: for any calls of one bucket whose callers
wait as told, and for every level when callers take the dominant wait of two. -/
theorem rate_law :
    (∀ (limit burst : ℕ) (created T : ℚ) (calls : List RateCall), 0 < limit → created ≤ T →
      Waited (.withBurst limit burst created) created calls →
      (bytesUsedBy T calls : ℚ) ≤ burst + limit * (T - created)) ∧
    ∀ (cfg : RateConfig) (s : RateSystem),
      Reach (rateStep cfg) (fun _ _ => True) (RateSystem.Starts cfg) s →
      ∀ level T, 0 < cfg.limit level → cfg.created level ≤ T →
        (s.bytesUsedBy level T : ℚ) ≤
          cfg.burst level + cfg.limit level * (T - cfg.created level) := by
  constructor
  · intro limit burst created T calls hlimit hT hwaited
    have hfunded : (TokenBucket.withBurst limit burst created).Funded created 0 := by
      rw [TokenBucket.Funded]
      simp [TokenBucket.withBurst]
    have hrefill := mul_nonneg (Nat.cast_nonneg (α := ℚ) limit) (sub_nonneg.mpr hT)
    have hempty : ((0 : ℕ) : ℚ) ≤ burst + limit * (T - created) := by
      rw [Nat.cast_zero]
      exact add_nonneg (Nat.cast_nonneg _) hrefill
    have hbound := bytesUsedBy_le hlimit hfunded le_rfl le_rfl hempty hwaited
    rw [Nat.zero_add] at hbound
    exact hbound
  · intro cfg s hreach level T hlimit hT
    have hsound : s.Sound cfg :=
      hreach.invariant (fun _ h => .of_starts h) fun _ _ _ h _ hs => h.step hs
    have hle := hsound.bytesUsedBy_le level T
    exact (Nat.cast_le.mpr hle).trans ((hsound.kept level hlimit).promised T hT)

/-- A job of one byte per second below an engine of two. -/
def pacedJob : RateConfig where
  limit level := if level = .engine then 2 else 1
  burst level := if level = .engine then 4 else 1
  created _ := 0

/-- The second of two callers waits for both debits, and a chunk of five bytes
passes the job after four seconds. -/
theorem rate_law_second_caller :
    (bytesUsedBy 2 [⟨0, 5, 2⟩, ⟨0, 2, 4⟩] : ℚ) ≤ (4 : ℕ) + (1 : ℕ) * (2 - 0) ∧
      ∃ s : RateSystem, s.bytesUsedBy (.job 0) 4 = 5 ∧
        (s.bytesUsedBy (.job 0) 4 : ℚ) ≤ (1 : ℕ) + (1 : ℕ) * (4 - 0) := by
  constructor
  · refine rate_law.1 1 4 0 2 [⟨0, 5, 2⟩, ⟨0, 2, 4⟩] Nat.one_pos zero_le_two ?_
    refine ⟨le_rfl, ?_, le_rfl, ?_, trivial⟩
    · decide +kernel
    · decide +kernel
  · let s₀ : RateSystem :=
      ⟨0, fun level => .withBurst (pacedJob.limit level) (pacedJob.burst level) 0, []⟩
    let events : List RateEvent := [.arrive 0 5, .ask 0 (.job 0) 0, .ask 0 .engine 0, .use 0 4]
    have hrun : (runEvents (rateStep pacedJob) s₀ events).map (·.bytesUsedBy (.job 0) 4) =
        some 5 := by
      decide +kernel
    obtain ⟨s, hs, hused⟩ := Option.map_eq_some_iff.mp hrun
    have hstarts : s₀.Starts pacedJob := ⟨rfl, fun _ => rfl⟩
    have hreach := Reach.of_run (.start hstarts) runOk_true hs
    exact ⟨s, hused, rate_law.2 pacedJob s hreach (.job 0) 4 Nat.one_pos zero_le_four⟩

end KDown

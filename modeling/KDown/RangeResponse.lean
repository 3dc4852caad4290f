/-
KDown/RangeResponse.lean

Validation of range responses (http/range.rs) and the response half of a
transfer (http/transport.rs).

`validateRangeResponse` decides from a response head whether a body may be
written as the requested slice.  A partial response is checked against the
requested range, the established total and the expected validators.  A full
response is refused for a range that does not start at zero; for one that does,
it is accepted without looking at its total or its validators.  That branch is
the only one on which an accepted response can contradict the established
resource (`validateRangeResponse_agrees_iff`).
-/
import KDown.Validators
import KDown.Errors

namespace KDown

open ResourceValidators

/-! ### Rejections -/

/-- Why a range response is rejected. -/
inductive RejectionKind
  | fullResponseToNonzeroRange
  | unexpectedStatus
  | startMismatch
  | endOvershoot
  | totalConflict
  | generationChanged
  | bodyOverrun
  deriving DecidableEq, Repr

/-- The text of a kind. -/
def RejectionKind.label : RejectionKind → String
  | .fullResponseToNonzeroRange => "full response to nonzero range"
  | .unexpectedStatus => "unexpected status"
  | .startMismatch => "start mismatch"
  | .endOvershoot => "end overshoot"
  | .totalConflict => "total conflict"
  | .generationChanged => "generation changed"
  | .bodyOverrun => "body overrun"

/-- Why a response is rejected. -/
structure RangeRejection where
  kind : RejectionKind
  detail : String
  deriving DecidableEq, Repr

/-- Generation changes report a resource change, the rest an invalid range
response. -/
def RangeRejection.intoError (r : RangeRejection) : DownloadError :=
  match r.kind with
  | .generationChanged => .resourceChanged r.detail
  | kind => .invalidRangeResponse ("range response rejected: " ++ kind.label ++ ": " ++ r.detail)

/-! ### Validation -/

/-- A validated slice: the body may be read and written at `start`. -/
structure ValidatedRange where
  start : ℕ
  /-- Inclusive end. -/
  stop : ℕ
  totalSize : Option ℕ
  deriving DecidableEq, Repr

/-- The request begins behind the first byte. -/
def rangeRequestIsNonzero (start : ℕ) : Bool := 0 < start

/-- Validate a range response against its request. -/
def validateRangeResponse (requestRange : ByteRange) (response : ResponseMetadata)
    (establishedTotal : Option ℕ) (expectedValidators : Option ResourceValidators) :
    Except RangeRejection ValidatedRange :=
  let (s, e) := requestRange
  if response.status = 200 then
    if rangeRequestIsNonzero s then
      .error ⟨.fullResponseToNonzeroRange, s!"200 response to range request bytes={s}-{e}"⟩
    -- neither the total nor the validators are compared on this branch
    else .ok ⟨0, e, response.totalSize.or establishedTotal⟩
  else if response.status ≠ 206 then
    .error ⟨.unexpectedStatus,
      s!"status {response.status} for range request bytes={s}-{e}"⟩
  else
    match response.contentRange with
    | none => .error ⟨.startMismatch, "206 response missing Content-Range"⟩
    | some cr =>
      if cr.start ≠ s then
        .error ⟨.startMismatch, s!"Content-Range start {cr.start} != requested {s}"⟩
      -- an end before the requested one is accepted
      else if e < cr.stop then
        .error ⟨.endOvershoot, s!"Content-Range end {cr.stop} exceeds requested end {e}"⟩
      else
        match sameGeneration.differs establishedTotal cr.total with
        | some (est, crTotal) =>
          .error ⟨.totalConflict,
            s!"Content-Range total {crTotal} conflicts with established {est}"⟩
        | none =>
          if expectedValidators.any fun v => (v.sameGeneration response.validators).isOk = false
          then .error ⟨.generationChanged, "response validators differ from job generation"⟩
          else .ok ⟨s, cr.stop, cr.total.or establishedTotal⟩

/-- The head agrees with what the job already knows. -/
structure AgreesWith (response : ResponseMetadata) (establishedTotal : Option ℕ)
    (expectedValidators : Option ResourceValidators) : Prop where
  total : Agree establishedTotal response.totalSize
  validators : ∀ v, expectedValidators = some v → v.Consistent response.validators

/-- What an accepted response went through: the full-response branch, or all
the checks of the partial one. -/
theorem validateRangeResponse_eq_ok {s e : ℕ} {response : ResponseMetadata}
    {establishedTotal : Option ℕ} {expectedValidators : Option ResourceValidators}
    {v : ValidatedRange}
    (h : validateRangeResponse (s, e) response establishedTotal expectedValidators = .ok v) :
    (response.status = 200 ∧ s = 0 ∧ v = ⟨0, e, response.totalSize.or establishedTotal⟩) ∨
    (response.status = 206 ∧ ∃ cr, response.contentRange = some cr ∧ cr.start = s ∧ cr.stop ≤ e ∧
      Agree establishedTotal cr.total ∧
      (∀ x, expectedValidators = some x → x.Consistent response.validators) ∧
      v = ⟨s, cr.stop, cr.total.or establishedTotal⟩) := by
  unfold validateRangeResponse at h
  simp only at h
  by_cases h200 : response.status = 200
  · -- the full-response branch looks at nothing but the start
    rw [if_pos h200] at h
    split_ifs at h with hzero
    simp only [rangeRequestIsNonzero, decide_eq_true_eq, not_lt, Nat.le_zero] at hzero
    exact .inl ⟨h200, hzero, (Except.ok.inj h).symm⟩
  by_cases h206 : response.status = 206
  · rw [if_neg h200, if_neg (not_not.mpr h206)] at h
    rcases hcr : response.contentRange with - | cr <;> simp only [hcr] at h
    · cases h
    by_cases hstart : cr.start = s
    · rw [if_neg (not_not.mpr hstart)] at h
      by_cases hend : e < cr.stop
      · rw [if_pos hend] at h; cases h
      rw [if_neg hend] at h
      rcases hdiff : sameGeneration.differs establishedTotal cr.total with - | p <;>
        simp only [hdiff] at h
      · split_ifs at h with hgen
        refine .inr ⟨h206, cr, rfl, hstart, not_lt.mp hend, differs_eq_none.mp hdiff,
          fun x hx => ?_, (Except.ok.inj h).symm⟩
        subst hx
        simp only [Option.any_some, decide_eq_true_eq, Bool.not_eq_false] at hgen
        refine sameGeneration_eq_ok.mp ?_
        rcases hsg : x.sameGeneration response.validators with detail | ⟨⟩
        · rw [hsg] at hgen; cases hgen
        · rfl
      · cases h
    · rw [if_pos hstart] at h; cases h
  · rw [if_neg h200, if_pos h206] at h; cases h

/-- A full response to a range from zero is accepted whatever it carries. -/
theorem validateRangeResponse_full {e : ℕ} {response : ResponseMetadata}
    (h : response.status = 200) (establishedTotal : Option ℕ)
    (expectedValidators : Option ResourceValidators) :
    validateRangeResponse (0, e) response establishedTotal expectedValidators =
      .ok ⟨0, e, response.totalSize.or establishedTotal⟩ := by
  simp [validateRangeResponse, h, rangeRequestIsNonzero]

/-- **Acceptance and agreement.**  Accepting a response implies that it agrees
with the established total and the expected validators, for exactly those
inputs that are not a disagreeing full response to a range from zero. -/
theorem validateRangeResponse_agrees_iff (s e status : ℕ) (headers : Headers)
    (establishedTotal : Option ℕ) (expectedValidators : Option ResourceValidators) :
    let response := ResponseMetadata.fromHead status headers
    ((∃ v, validateRangeResponse (s, e) response establishedTotal expectedValidators = .ok v) →
        AgreesWith response establishedTotal expectedValidators) ↔
      ¬ (status = 200 ∧ s = 0 ∧ ¬ AgreesWith response establishedTotal expectedValidators) := by
  intro response
  constructor
  · rintro h ⟨h200, rfl, hnot⟩
    exact hnot (h ⟨_, validateRangeResponse_full (by exact h200) _ _⟩)
  · rintro h ⟨v, hv⟩
    -- the partial branch has compared everything, so only the full one can fail
    rcases validateRangeResponse_eq_ok hv with ⟨h200, hs, -⟩ | ⟨-, cr, hcr, -, -, htot, hval, -⟩
    · by_contra hnot
      exact h ⟨h200, hs, hnot⟩
    · exact ⟨by rw [ResponseMetadata.fromHead_totalSize hcr]; exact htot, hval⟩

/-- A server that replaced a 1000-byte resource by a 500-byte one and answers
`bytes=0-999` in full is accepted although both total and tag changed. -/
theorem full_response_accepts_other_resource :
    ¬ ∀ (s e status : ℕ) (headers : Headers) (establishedTotal : Option ℕ)
        (expectedValidators : Option ResourceValidators) (v : ValidatedRange),
      validateRangeResponse (s, e) (.fromHead status headers) establishedTotal
        expectedValidators = .ok v →
      AgreesWith (.fromHead status headers) establishedTotal expectedValidators := by
  intro h
  have hbad := h 0 999 200 [("content-length", "500"), ("etag", "\"v2\"")] (some 1000)
    (some ⟨some "\"v1\"", false, none, some 1000⟩) ⟨0, 999, some 500⟩ (by decide)
  exact absurd (hbad.total 1000 500 rfl (by decide)) (by decide)

/-! ### The response half of a transfer -/

/-- How a full response to a ranged request is read. -/
inductive FullResponsePolicy
  | invalidRange
  | resourceChanged
  deriving DecidableEq, Repr

/-- What a range request expects of its response. -/
structure RangeIntent where
  range : ByteRange
  establishedTotal : Option ℕ
  expectedValidators : Option ResourceValidators
  fullResponse : FullResponsePolicy
  deriving DecidableEq, Repr

/-- A fresh full representation or a validated byte range. -/
inductive TransferIntent
  | full
  | range (intent : RangeIntent)
  deriving DecidableEq, Repr

/-- An accepted response; `limit` bounds its body by the requested range. -/
structure TransferResponse where
  start : ℕ
  /-- Inclusive accepted end. -/
  stop : ℕ
  totalSize : Option ℕ
  validators : ResourceValidators
  limit : Option ByteRange
  deriving DecidableEq, Repr

/-- Judge a response head before any body byte is read. -/
def transfer (intent : TransferIntent) (status : ℕ) (headers : Headers) :
    Except DownloadError TransferResponse :=
  let response := ResponseMetadata.fromHead status headers
  if status ≠ 200 ∧ status ≠ 206 then .error (statusToError status)
  else
    match intent with
    | .full =>
        .ok { start := 0
              stop := (response.totalSize.map (· - 1)).getD u64Max
              totalSize := response.totalSize
              validators := response.validators
              limit := none }
    | .range ri =>
        if status = 200 ∧ ri.fullResponse = .resourceChanged then
          .error (.resourceChanged "server ignored If-Range; resource changed")
        else
          match validateRangeResponse ri.range response ri.establishedTotal
              ri.expectedValidators with
          | .error rejection => .error rejection.intoError
          | .ok v =>
              .ok { start := v.start
                    stop := v.stop
                    totalSize := v.totalSize
                    validators := response.validators
                    -- the body is limited by the requested range, not by the accepted one
                    limit := some ri.range }

/-- An accepted ranged response starts where the request does. -/
theorem transfer_range_start {ri : RangeIntent} {status : ℕ} {headers : Headers}
    {response : TransferResponse} (h : transfer (.range ri) status headers = .ok response) :
    response.start = ri.range.1 := by
  unfold transfer at h
  simp only at h
  split_ifs at h
  rcases e : validateRangeResponse ri.range (.fromHead status headers) ri.establishedTotal
      ri.expectedValidators with rejection | v <;> rw [e] at h
  · cases h
  · rcases validateRangeResponse_eq_ok e with ⟨-, hs, rfl⟩ | ⟨-, cr, -, -, -, -, -, rfl⟩
    · cases h; exact hs.symm
    · cases h; rfl

/-- The body limit rejects the chunk that would exceed the requested range. -/
def limitAccepts (limit : Option ByteRange) (delivered len : ℕ) : Bool :=
  match limit with
  | none => true
  | some (s, e) => delivered + len ≤ e - s + 1

end KDown

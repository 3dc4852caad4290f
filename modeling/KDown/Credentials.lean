/-
KDown/Credentials.lean

Authentication challenges over a whole job (control/auth.rs, and the loops of
job/controller.rs and job/segmented.rs that meet them).

A job first probes and then transfers, sequentially or with segmented workers.
The probe loop and the sequential loop each have a stage guard of their own, and
the workers share the counter of `SharedCredentials`; the probe's stages are not
handed on (`stages_counted_anew`).  Where the transfer consults the provider only
while the stages of both phases together leave one, the provider is consulted at
most `maxAuthStages` times (`consultations_bounded`).  In every run at all it is
at most twice as many.

What the HTTP layer answers and what the provider decides comes with the events.
A worker asks under the stage lock, so `provide` is one step.
-/
import KDown.Redirect
import KDown.Runs
import KDown.Sequential
import Mathlib.Logic.Function.Basic

namespace KDown

namespace Auth

/-- What a challenge response looked like. -/
structure Challenge where
  status : ℕ
  authenticate : List String
  origin : String
  deriving DecidableEq, Repr

/-- What the provider answers to a challenge. -/
inductive CredentialDecision
  | headers (extra : List (String × String))
  | decline
  deriving DecidableEq, Repr

/-- How many times a provider was asked. -/
structure AuthStageGuard where
  stagesUsed : ℕ
  deriving DecidableEq, Repr

namespace AuthStageGuard

/-- Nobody was asked yet. -/
def new : AuthStageGuard := ⟨0⟩

/-- The stages are not used up. -/
def canProvide (g : AuthStageGuard) : Bool := g.stagesUsed < maxAuthStages

/-- The provider is asked once more. -/
def record (g : AuthStageGuard) : AuthStageGuard := ⟨g.stagesUsed + 1⟩

end AuthStageGuard

/-- Extract a challenge from response headers. -/
def challengeFromHeaders (status : ℕ) (origin : String) (headers : List (String × String)) :
    Option Challenge :=
  if status ≠ 401 ∧ status ≠ 407 then none
  else
    let name := if status = 407 then "proxy-authenticate" else "www-authenticate"
    let authenticate := (headers.filter fun h => eqIgnoreAsciiCase h.1 name).map Prod.snd
    if authenticate = [] then none else some ⟨status, authenticate, origin⟩

/-- Insert or replace a header. -/
def upsertHeader (headers : List (String × String)) (name value : String) :
    List (String × String) :=
  match headers.findIdx? fun h => eqIgnoreAsciiCase h.1 name with
  | some i => headers.modify i fun h => (h.1, value)
  | none => headers ++ [(name, value)]

/-- Each of the provider's headers replaces those of its name. -/
def upsertHeaders (headers extra : List (String × String)) : List (String × String) :=
  extra.foldl (fun hs h => upsertHeader hs h.1 h.2) headers

/-- Header set to send to `targetUrl` for a request whose credentials were
configured for `originalUrl`. -/
def scopedRequestHeaders (http : HttpCrate) (originalUrl targetUrl : String)
    (headers : List (String × String)) (sensitive forwardCrossOriginCredentials : Bool) :
    List (String × String) :=
  let sameOrigin := (originOf http originalUrl.toList).isSome ∧
    originOf http originalUrl.toList = originOf http targetUrl.toList
  if sameOrigin ∨ forwardCrossOriginCredentials then headers
  else headers.filter fun h => !isOriginCredentialHeader h.1 && !sensitive

/-! ### The shared context of segmented workers -/

/-- What the requests of a segmented job share under one lock. -/
structure SharedCredentials where
  headers : List (String × String)
  provider : Bool
  stagesUsed : ℕ
  answeredChallenge : Option Challenge
  sensitive : Bool
  deriving DecidableEq, Repr

namespace SharedCredentials

/-- The state before the first challenge. -/
def new (headers : List (String × String)) (provider sensitive : Bool) : SharedCredentials where
  headers := headers
  provider := provider
  stagesUsed := 0
  answeredChallenge := none
  sensitive := sensitive

/-- The challenge consumes a stage: the provider will be asked. -/
def consults (c : SharedCredentials) (challenge : Challenge) : Bool :=
  c.provider && !(c.answeredChallenge = some challenge) && c.stagesUsed < maxAuthStages

/-- Consult the provider for one bounded challenge stage; it would decide
`decision`. -/
def provide (c : SharedCredentials) (challenge : Challenge)
    (decision : Except DownloadError CredentialDecision) :
    Except DownloadError Bool × SharedCredentials :=
  if !c.provider then (.ok false, c)
  else if c.answeredChallenge = some challenge then (.ok true, c)
  else if maxAuthStages ≤ c.stagesUsed then (.ok false, c)
  else
    let c := { c with stagesUsed := c.stagesUsed + 1 }
    match decision with
    | .error e => (.error e, c)
    | .ok .decline => (.ok false, c)
    | .ok (.headers extra) =>
        (.ok true,
          { c with headers := upsertHeaders c.headers extra, answeredChallenge := some challenge })

end SharedCredentials

/-! ### Jobs -/

/-- How a request fails. -/
inductive HttpAnswer
  /-- Without a response. -/
  | transport (error : DownloadError)
  | response (status : ℕ) (headers : List (String × String))

/-- A failed request, with the challenge it may carry. -/
structure HttpFailure where
  error : DownloadError
  challenge : Option Challenge

/-- The failure of an answer that is no success. -/
def HttpAnswer.failure (url : String) : HttpAnswer → HttpFailure
  | transport error => ⟨error, none⟩
  | response status headers => ⟨statusToError status, challengeFromHeaders status url headers⟩

/-- Where one request stands in its retry loop. -/
inductive RequestPhase
  /-- At the top of its loop. -/
  | ready
  | sent
  /-- The response was accepted. -/
  | receiving
  | done
  deriving DecidableEq, Repr

/-- The phase of the job, and with it who sends requests. -/
inductive JobPhase
  | probing
  | sequential
  | segmented
  | ended
  deriving DecidableEq, Repr

/-- One request on its way, and whether it was challenged without anybody having
supplied headers since. -/
structure Request where
  phase : RequestPhase
  unanswered : Bool
  /-- At most one credential retry per lease attempt. -/
  providedHere : Bool
  deriving DecidableEq, Repr

/-- A request that has not been sent. -/
def Request.new : Request := ⟨.ready, false, false⟩

/-- The inputs of the job that bear on credentials. -/
structure Config where
  url : String
  /-- The caller's headers and the authorization convenience. -/
  headers : List (String × String)
  credentialProvider : Bool
  forwardCredentialsCrossOrigin : Bool
  retry : RetryPolicy

/-- The credentials of a job on its way through the phases. -/
structure Job where
  phase : JobPhase
  /-- The probe or the sequential request. -/
  main : Request
  attempt : ℕ
  /-- Headers of the probe and of later requests. -/
  headers : List (String × String)
  providerHeaderNames : List String
  probeAuthGuard : AuthStageGuard
  authGuard : AuthStageGuard
  challengeHeaders : List (String × String)
  finalUrl : String
  credentials : SharedCredentials
  /-- Lease attempts of segmented workers. -/
  leases : ℕ → Request
  leaseCount : ℕ
  /-- The challenges the provider was asked about. -/
  consulted : List Challenge
  /-- Requests sent: with which headers, and whether the request had an
  unanswered challenge. -/
  issued : List (List (String × String) × Bool)

/-- A request goes out or is answered, or the job goes to its next phase. -/
inductive Event
  /-- The probe or the sequential request goes out. -/
  | send
  | fail (answer : HttpAnswer) (decision : Except DownloadError CredentialDecision)
  | probed (finalUrl : String) (eligible : Bool)
  /-- The sequential response is accepted. -/
  | received
  /-- The body failed and is tried again. -/
  | bodyFailed
  /-- A worker begins a lease attempt. -/
  | lease
  | leaseSend (r : ℕ)
  | leaseFail (r : ℕ) (answer : HttpAnswer) (decision : Except DownloadError CredentialDecision)
  | leaseReceived (r : ℕ)
  /-- The job ends. -/
  | stop

namespace Job

variable (http : HttpCrate) (cfg : Config)

/-- The job before its probe. -/
def start : Job where
  phase := .probing
  main := .new
  attempt := 0
  headers := cfg.headers
  providerHeaderNames := []
  probeAuthGuard := .new
  authGuard := .new
  challengeHeaders := []
  finalUrl := cfg.url
  credentials := .new [] cfg.credentialProvider false
  leases := fun _ => .new
  leaseCount := 0
  consulted := []
  issued := []

/-- The main request is sent, with the headers it has by then. -/
def sendMain (s : Job) : Job :=
  let headers := if s.phase = .probing then s.headers else upsertHeaders s.headers s.challengeHeaders
  { s with
    main := { s.main with phase := .sent }
    issued := s.issued ++ [(headers, s.main.unanswered)] }

/-- The classifier decides about the main request. -/
def classify (s : Job) (error : DownloadError) : Job :=
  match cfg.retry.decide error s.attempt with
  | some next => { s with attempt := next, main := { s.main with phase := .ready } }
  | none => { s with phase := .ended }

/-- The main request was challenged. -/
def challenged (s : Job) : Job := { s with main := { s.main with unanswered := true } }

/-- The provider supplied headers: the main request is tried again. -/
def supplied (s : Job) : Job :=
  { s with main := { s.main with phase := .ready, unanswered := false } }

/-- The probe failed. -/
def probeFail (s : Job) (failure : HttpFailure)
    (decision : Except DownloadError CredentialDecision) : Job :=
  match failure.challenge with
  | none => s.classify cfg failure.error
  | some ch =>
      if cfg.credentialProvider && s.probeAuthGuard.canProvide then
        let s' := { s.challenged with
          probeAuthGuard := s.probeAuthGuard.record
          consulted := s.consulted ++ [ch] }
        match decision with
        | .ok (.headers extra) =>
            { s'.supplied with
              headers := upsertHeaders s.headers extra
              providerHeaderNames := s.providerHeaderNames ++ extra.map Prod.fst }
        | _ => s'.classify cfg failure.error
      else s.challenged.classify cfg failure.error

/-- The sequential request failed before its body. -/
def transferFail (s : Job) (failure : HttpFailure)
    (decision : Except DownloadError CredentialDecision) : Job :=
  match failure.challenge with
  | none => s.classify cfg failure.error
  | some ch =>
      if cfg.credentialProvider then
        if s.authGuard.canProvide then
          let s' := { s.challenged with
            authGuard := s.authGuard.record
            consulted := s.consulted ++ [ch] }
          match decision with
          | .ok (.headers extra) => { s'.supplied with challengeHeaders := extra }
          | _ => { s' with phase := .ended }
        else { s.challenged with phase := .ended }
      else s.challenged.classify cfg failure.error

/-- The probe has succeeded. -/
def beginTransfer (s : Job) (finalUrl : String) (eligible : Bool) : Job :=
  let sensitive := !s.providerHeaderNames.isEmpty
  { s with
    phase := if eligible then .segmented else .sequential
    main := .new
    attempt := 0
    finalUrl := finalUrl
    credentials := .new
      (scopedRequestHeaders http cfg.url finalUrl s.headers sensitive
        cfg.forwardCredentialsCrossOrigin) cfg.credentialProvider sensitive }

/-- The request of a lease moves on. -/
def setLease (s : Job) (r : ℕ) (q : Request) : Job :=
  { s with leases := Function.update s.leases r q }

/-- A worker hands a challenge to the shared context. -/
def ask (s : Job) (ch : Challenge) (decision : Except DownloadError CredentialDecision) : Job :=
  { s with
    credentials := (s.credentials.provide ch decision).2
    consulted := s.consulted ++ if s.credentials.consults ch then [ch] else [] }

/-- A worker's request failed before its body. -/
def leaseFails (s : Job) (r : ℕ) (failure : HttpFailure)
    (decision : Except DownloadError CredentialDecision) : Job :=
  match failure.challenge with
  | none => s.setLease r { s.leases r with phase := .done }
  | some ch =>
      if (s.leases r).providedHere then
        s.setLease r { s.leases r with phase := .done, unanswered := true }
      else
        match (s.credentials.provide ch decision).1 with
        | .ok true =>
            (s.ask ch decision).setLease r { s.leases r with phase := .ready, providedHere := true }
        | _ => (s.ask ch decision).setLease r { s.leases r with phase := .done, unanswered := true }

/-- One event. -/
def step (s : Job) : Event → Option Job
  | .send =>
      if s.main.phase = .ready ∧ (s.phase = .probing ∨ s.phase = .sequential) then some s.sendMain
      else none
  | .fail answer decision =>
      if s.main.phase = .sent then
        match s.phase with
        | .probing => some (s.probeFail cfg (answer.failure cfg.url) decision)
        | .sequential => some (s.transferFail cfg (answer.failure cfg.url) decision)
        | _ => none
      else none
  | .probed finalUrl eligible =>
      if s.main.phase = .sent ∧ s.phase = .probing then
        some (s.beginTransfer http cfg finalUrl eligible)
      else none
  | .received =>
      if s.main.phase = .sent ∧ s.phase = .sequential then
        some { s with main := { s.main with phase := .receiving } }
      else none
  | .bodyFailed =>
      if s.main.phase = .receiving ∧ s.phase = .sequential then
        some { s with main := { s.main with phase := .ready } }
      else none
  | .lease =>
      if s.phase = .segmented then
        some { s.setLease s.leaseCount .new with leaseCount := s.leaseCount + 1 }
      else none
  | .leaseSend r =>
      if s.phase = .segmented ∧ r < s.leaseCount ∧ (s.leases r).phase = .ready then
        some { s.setLease r { s.leases r with phase := .sent } with
          issued := s.issued ++ [(s.credentials.headers, (s.leases r).unanswered)] }
      else none
  | .leaseFail r answer decision =>
      if s.phase = .segmented ∧ (s.leases r).phase = .sent then
        some (s.leaseFails r (answer.failure s.finalUrl) decision)
      else none
  | .leaseReceived r =>
      if s.phase = .segmented ∧ (s.leases r).phase = .sent then
        some (s.setLease r { s.leases r with phase := .done })
      else none
  | .stop => some { s with phase := .ended }

/-! ### What every run keeps -/

/-- A challenge is never an error that is tried again. -/
theorem decide_of_challenge {url : String} {answer : HttpAnswer} {ch : Challenge}
    (h : (answer.failure url).challenge = some ch) (policy : RetryPolicy) (attempt : ℕ) :
    policy.decide (answer.failure url).error attempt = none := by
  rcases answer with error | ⟨status, headers⟩
  · cases h
  · have hstatus : status = 401 ∨ status = 407 := by
      by_contra hno
      have hnone : challengeFromHeaders status url headers = none :=
        if_pos ⟨fun h' => hno (.inl h'), fun h' => hno (.inr h')⟩
      have hsome : challengeFromHeaders status url headers = some ch := h
      rw [hnone] at hsome
      cases hsome
    rcases hstatus with rfl | rfl <;> rfl

/-- The stages of the phases add up to what the provider was asked, and nobody
goes on with an unanswered challenge. -/
structure StageInv (s : Job) : Prop where
  counted : s.consulted.length =
    s.probeAuthGuard.stagesUsed + s.authGuard.stagesUsed + s.credentials.stagesUsed
  probing : s.phase = .probing → s.authGuard.stagesUsed = 0 ∧ s.credentials.stagesUsed = 0
  sequential : s.phase = .sequential → s.credentials.stagesUsed = 0
  segmented : s.phase = .segmented → s.authGuard.stagesUsed = 0
  probe_le : s.probeAuthGuard.stagesUsed ≤ maxAuthStages
  transfer_le : s.authGuard.stagesUsed + s.credentials.stagesUsed ≤ maxAuthStages
  main : s.phase ≠ .ended → s.main.unanswered = false
  leases : ∀ r, (s.leases r).phase ≠ .done → (s.leases r).unanswered = false
  issued : ∀ x ∈ s.issued, x.2 = false

variable {http cfg} {s s' : Job}

theorem StageInv.start (cfg : Config) : StageInv (start cfg) where
  counted := rfl
  probing := fun _ => ⟨rfl, rfl⟩
  sequential := fun _ => rfl
  segmented := fun _ => rfl
  probe_le := Nat.zero_le _
  transfer_le := Nat.zero_le _
  main := fun _ => rfl
  leases := fun _ _ => rfl
  issued := fun _ hx => (List.not_mem_nil hx).elim

theorem StageInv.stop (hi : StageInv s) : StageInv { s with phase := .ended } where
  counted := hi.counted
  probing := fun h => by cases h
  sequential := fun h => by cases h
  segmented := fun h => by cases h
  probe_le := hi.probe_le
  transfer_le := hi.transfer_le
  main := fun h => absurd rfl h
  leases := hi.leases
  issued := hi.issued

/-- The main request moves on. -/
theorem StageInv.setMain (hi : StageInv s) (q : Request) (hq : q.unanswered = s.main.unanswered)
    (n : ℕ) : StageInv { s with main := q, attempt := n } :=
  { hi with main := fun h => hq.trans (hi.main h) }

theorem StageInv.classify (hi : StageInv s) (error : DownloadError) :
    StageInv (s.classify cfg error) := by
  rw [Job.classify]
  split
  · exact hi.setMain { s.main with phase := .ready } rfl _
  · exact hi.stop

/-- After a challenge the classifier gives up. -/
theorem StageInv.giveUp (hi : StageInv s) {url : String} {answer : HttpAnswer} {ch : Challenge}
    (h : (answer.failure url).challenge = some ch) :
    StageInv (s.challenged.classify cfg (answer.failure url).error) := by
  have hnone : s.challenged.classify cfg (answer.failure url).error
      = { s.challenged with phase := .ended } := by
    rw [Job.classify, decide_of_challenge h]
  rw [hnone]
  exact { hi.stop with main := fun h => absurd rfl h }

theorem StageInv.sendMain (hi : StageInv s) (hphase : s.phase = .probing ∨ s.phase = .sequential) :
    StageInv s.sendMain := by
  have hne : s.phase ≠ .ended := by
    rintro h
    rcases hphase with h' | h' <;> rw [h] at h' <;> cases h'
  refine { hi.setMain { s.main with phase := .sent } rfl s.attempt with issued := fun x hx => ?_ }
  rcases List.mem_append.mp hx with hin | hin
  · exact hi.issued x hin
  · rw [List.mem_singleton.mp hin]
    exact hi.main hne

/-- A stage of the probe. -/
theorem StageInv.probeStage (hi : StageInv s)
    (hcan : s.probeAuthGuard.canProvide = true) (ch : Challenge) :
    StageInv { s with
      probeAuthGuard := s.probeAuthGuard.record, consulted := s.consulted ++ [ch] } := by
  have hlt : s.probeAuthGuard.stagesUsed < maxAuthStages := of_decide_eq_true hcan
  have hcounted := hi.counted
  refine { hi with counted := ?_, probe_le := hlt }
  show (s.consulted ++ [ch]).length = s.probeAuthGuard.stagesUsed + 1 + s.authGuard.stagesUsed +
    s.credentials.stagesUsed
  rw [List.length_append, List.length_singleton]
  omega

theorem StageInv.probeFail (hi : StageInv s) {url : String} (answer : HttpAnswer)
    (decision : Except DownloadError CredentialDecision) :
    StageInv (s.probeFail cfg (answer.failure url) decision) := by
  rw [Job.probeFail]
  split
  · exact hi.classify _
  · next ch hch =>
    split
    · next hcan =>
      have hstage := hi.probeStage (Bool.and_eq_true_iff.mp hcan).2 ch
      split
      · exact { hstage with main := fun _ => rfl }
      · exact hstage.giveUp hch
    · exact hi.giveUp hch

/-- The sequential phase uses up one of its stages. -/
theorem StageInv.transferStage (hi : StageInv s) (hphase : s.phase = .sequential)
    (hcan : s.authGuard.canProvide = true) (ch : Challenge) :
    StageInv { s with authGuard := s.authGuard.record, consulted := s.consulted ++ [ch] } := by
  have hlt : s.authGuard.stagesUsed < maxAuthStages := of_decide_eq_true hcan
  have hcounted := hi.counted
  have hnone := hi.sequential hphase
  refine { hi with counted := ?_, probing := ?_, segmented := ?_, transfer_le := ?_ }
  · show (s.consulted ++ [ch]).length = s.probeAuthGuard.stagesUsed + (s.authGuard.stagesUsed + 1) +
      s.credentials.stagesUsed
    rw [List.length_append, List.length_singleton]
    omega
  · intro h
    rw [show s.phase = _ from h] at hphase
    cases hphase
  · intro h
    rw [show s.phase = _ from h] at hphase
    cases hphase
  · show s.authGuard.stagesUsed + 1 + s.credentials.stagesUsed ≤ maxAuthStages
    omega

theorem StageInv.transferFail (hi : StageInv s) (hphase : s.phase = .sequential) {url : String}
    (answer : HttpAnswer)
    (decision : Except DownloadError CredentialDecision) :
    StageInv (s.transferFail cfg (answer.failure url) decision) := by
  rw [Job.transferFail]
  split
  · exact hi.classify _
  · next ch hch =>
    split
    · split
      · next hcan =>
        have hstage := hi.transferStage hphase hcan ch
        split
        · exact { hstage with main := fun _ => rfl }
        · exact { hstage.stop with main := fun h => absurd rfl h }
      · exact { hi.stop with main := fun h => absurd rfl h }
    · exact hi.giveUp hch

theorem StageInv.beginTransfer (hi : StageInv s) (hphase : s.phase = .probing) (finalUrl : String)
    (eligible : Bool) : StageInv (s.beginTransfer http cfg finalUrl eligible) := by
  obtain ⟨hauth, hcred⟩ := hi.probing hphase
  have hcounted := hi.counted
  refine ⟨?_, fun _ => ⟨hauth, rfl⟩, fun _ => rfl, fun _ => hauth, hi.probe_le, ?_, fun _ => rfl,
    hi.leases, hi.issued⟩
  · show s.consulted.length = s.probeAuthGuard.stagesUsed + s.authGuard.stagesUsed + 0
    omega
  · show s.authGuard.stagesUsed + 0 ≤ maxAuthStages
    rw [hauth]
    exact Nat.zero_le _

theorem StageInv.setLease (hi : StageInv s) (r : ℕ) (q : Request)
    (hq : q.phase ≠ .done → q.unanswered = false) : StageInv (s.setLease r q) := by
  refine { hi with leases := fun r' => ?_ }
  show (Function.update s.leases r q r').phase ≠ _ → (Function.update s.leases r q r').unanswered = _
  by_cases h : r' = r
  · subst h
    rw [Function.update_self]
    exact hq
  · rw [Function.update_of_ne h]
    exact hi.leases r'

end Job

/-- Asking costs a stage exactly when the provider is consulted. -/
theorem SharedCredentials.stagesUsed_provide (c : SharedCredentials) (ch : Challenge)
    (decision : Except DownloadError CredentialDecision) :
    (c.provide ch decision).2.stagesUsed = c.stagesUsed + if c.consults ch then 1 else 0 := by
  rw [provide, consults]
  by_cases hprovider : c.provider = true
  · by_cases hanswered : c.answeredChallenge = some ch
    · simp [hprovider, hanswered]
    · by_cases hstages : c.stagesUsed < maxAuthStages
      · rw [if_neg (by simp [hprovider]), if_neg hanswered, if_neg (Nat.not_le.mpr hstages),
          if_pos (by simp [hprovider, hanswered, hstages])]
        rcases decision with e | ⟨extra⟩ | - <;> rfl
      · simp [hprovider, hanswered, hstages, Nat.not_lt.mp hstages]
  · simp [hprovider]

theorem SharedCredentials.lt_of_consults {c : SharedCredentials} {ch : Challenge}
    (h : c.consults ch = true) : c.stagesUsed < maxAuthStages :=
  of_decide_eq_true (Bool.and_eq_true_iff.mp h).2

namespace Job

variable {http : HttpCrate} {cfg : Config} {s s' : Job}

/-- A worker that asks uses up a stage of the segmented phase, and its own. -/
theorem StageInv.ask (hi : StageInv s) (hphase : s.phase = .segmented) (ch : Challenge)
    (decision : Except DownloadError CredentialDecision) : StageInv (s.ask ch decision) := by
  have hcounted := hi.counted
  have hauth := hi.segmented hphase
  have hprovide := s.credentials.stagesUsed_provide ch decision
  refine { hi with counted := ?_, probing := ?_, sequential := ?_, transfer_le := ?_ }
  · show (s.consulted ++ _).length = s.probeAuthGuard.stagesUsed + s.authGuard.stagesUsed +
      (s.credentials.provide ch decision).2.stagesUsed
    rw [hprovide, List.length_append]
    split <;> simp only [List.length_singleton, List.length_nil] <;> omega
  · intro h
    rw [show s.phase = _ from h] at hphase
    cases hphase
  · intro h
    rw [show s.phase = _ from h] at hphase
    cases hphase
  · show s.authGuard.stagesUsed + (s.credentials.provide ch decision).2.stagesUsed ≤ _
    rw [hprovide, hauth]
    split
    · next hconsults =>
      have hlt := SharedCredentials.lt_of_consults hconsults
      omega
    · have hle := hi.transfer_le
      omega

theorem StageInv.leaseFails (hi : StageInv s) (hphase : s.phase = .segmented) {r : ℕ} {url : String}
    (hsent : (s.leases r).phase = .sent) (answer : HttpAnswer)
    (decision : Except DownloadError CredentialDecision) :
    StageInv (s.leaseFails r (answer.failure url) decision) := by
  have hquiet : (s.leases r).unanswered = false := hi.leases r fun h => by
    rw [hsent] at h
    cases h
  rw [Job.leaseFails]
  split
  · exact hi.setLease r _ fun h => absurd rfl h
  · next ch hch =>
    split
    · exact hi.setLease r _ fun h => absurd rfl h
    · have hasked := hi.ask hphase ch decision
      split
      · exact hasked.setLease r { s.leases r with phase := .ready, providedHere := true } fun _ => hquiet
      · exact hasked.setLease r _ fun h => absurd rfl h

/-- **Every request keeps the count of the stages.** -/
theorem StageInv.step (hi : StageInv s) {e : Event} (hs : s.step http cfg e = some s') :
    StageInv s' := by
  rcases e with - | ⟨answer, decision⟩ | ⟨finalUrl, eligible⟩ | - | - | - | r |
    ⟨r, answer, decision⟩ | r | - <;>
    simp only [Job.step] at hs
  case send =>
    split_ifs at hs with hc
    cases hs
    exact hi.sendMain hc.2
  case fail =>
    split_ifs at hs with hc
    split at hs
    · next hphase =>
      cases hs
      exact hi.probeFail answer decision
    · next hphase =>
      cases hs
      exact hi.transferFail hphase answer decision
    · cases hs
  case probed =>
    split_ifs at hs with hc
    cases hs
    exact hi.beginTransfer hc.2 finalUrl eligible
  case received =>
    split_ifs at hs with hc
    cases hs
    exact hi.setMain { s.main with phase := .receiving } rfl s.attempt
  case bodyFailed =>
    split_ifs at hs with hc
    cases hs
    exact hi.setMain { s.main with phase := .ready } rfl s.attempt
  case lease =>
    split_ifs at hs with hc
    cases hs
    exact { hi.setLease s.leaseCount .new fun _ => rfl with }
  case leaseSend =>
    split_ifs at hs with hc
    cases hs
    have hquiet : (s.leases r).unanswered = false := hi.leases r fun h => by
      rw [hc.2.2] at h
      cases h
    refine { hi.setLease r { s.leases r with phase := .sent } (fun _ => hquiet) with
      issued := fun x hx => ?_ }
    rcases List.mem_append.mp hx with hin | hin
    · exact hi.issued x hin
    · rw [List.mem_singleton.mp hin]
      exact hquiet
  case leaseFail =>
    split_ifs at hs with hc
    cases hs
    exact hi.leaseFails hc.1 hc.2 answer decision
  case leaseReceived =>
    split_ifs at hs with hc
    cases hs
    exact hi.setLease r _ fun h => absurd rfl h
  case stop =>
    cases hs
    exact hi.stop

/-! ### Who asks the provider -/

theorem consulted_classify (error : DownloadError) :
    (s.classify cfg error).consulted = s.consulted := by
  rw [Job.classify]
  split <;> rfl

theorem consulted_probeFail (cfg : Config) (failure : HttpFailure)
    (decision : Except DownloadError CredentialDecision) :
    (s.probeFail cfg failure decision).consulted = s.consulted ∨
      s.probeAuthGuard.canProvide = true ∧
        ∃ ch, (s.probeFail cfg failure decision).consulted = s.consulted ++ [ch] := by
  rw [Job.probeFail]
  split
  · exact .inl (consulted_classify _)
  · next ch hch =>
    split
    · next hcan =>
      refine .inr ⟨(Bool.and_eq_true_iff.mp hcan).2, ch, ?_⟩
      split
      · rfl
      · exact consulted_classify _
    · exact .inl (consulted_classify _)

theorem consulted_transferFail (cfg : Config) (failure : HttpFailure)
    (decision : Except DownloadError CredentialDecision) :
    (s.transferFail cfg failure decision).consulted = s.consulted ∨
      (cfg.credentialProvider = true ∧ failure.challenge.isSome ∧ s.authGuard.canProvide = true) ∧
        ∃ ch, (s.transferFail cfg failure decision).consulted = s.consulted ++ [ch] := by
  rw [Job.transferFail]
  split
  · exact .inl (consulted_classify _)
  · next ch hch =>
    split
    · next hprovider =>
      split
      · next hcan =>
        refine .inr ⟨⟨hprovider, by rw [hch]; rfl, hcan⟩, ch, ?_⟩
        split <;> rfl
      · exact .inl rfl
    · exact .inl (consulted_classify _)

/-- A failed lease asks at most once, and only for a challenge of its own. -/
theorem consulted_leaseFails (r : ℕ) (failure : HttpFailure)
    (decision : Except DownloadError CredentialDecision) :
    (s.leaseFails r failure decision).consulted = s.consulted ∨
      ∃ ch, failure.challenge = some ch ∧ (s.leases r).providedHere = false ∧
        s.credentials.consults ch = true ∧
        (s.leaseFails r failure decision).consulted = s.consulted ++ [ch] := by
  rw [Job.leaseFails]
  split
  · exact .inl rfl
  · next ch hch =>
    split
    · exact .inl rfl
    · next hfirst =>
      have hasked : (s.ask ch decision).consulted = s.consulted ∨
          s.credentials.consults ch = true ∧ (s.ask ch decision).consulted = s.consulted ++ [ch] := by
        rw [ask]
        by_cases hconsults : s.credentials.consults ch = true
        · exact .inr ⟨hconsults, by rw [if_pos hconsults]⟩
        · exact .inl (by rw [if_neg hconsults, List.append_nil])
      rcases hasked with hsame | ⟨hconsults, hmore⟩
      · refine .inl ?_
        split <;> exact hsame
      · refine .inr ⟨ch, hch, by simpa using hfirst, hconsults, ?_⟩
        split <;> exact hmore

/-- Where the transfer is challenged and its own count allows to ask, the stages
of the probe and of the transfer together leave one. -/
def Budgeted (cfg : Config) (s : Job) : Event → Prop
  | .fail answer _ =>
      s.phase = .sequential → cfg.credentialProvider = true →
        (answer.failure cfg.url).challenge.isSome → s.authGuard.canProvide = true →
        s.probeAuthGuard.stagesUsed + s.authGuard.stagesUsed < maxAuthStages
  | .leaseFail r answer _ =>
      ∀ ch ∈ (answer.failure s.finalUrl).challenge, (s.leases r).providedHere = false →
        s.credentials.consults ch = true →
        s.probeAuthGuard.stagesUsed + s.credentials.stagesUsed < maxAuthStages
  | _ => True

instance (cfg : Config) (s : Job) : ∀ e, Decidable (s.Budgeted cfg e)
  | .fail _ _ => inferInstanceAs (Decidable (s.phase = .sequential → _ → _ → _ → _))
  | .leaseFail _ _ _ => inferInstanceAs (Decidable (∀ ch ∈ _, _ → _ → _))
  | .send => .isTrue trivial
  | .probed _ _ => .isTrue trivial
  | .received => .isTrue trivial
  | .bodyFailed => .isTrue trivial
  | .lease => .isTrue trivial
  | .leaseSend _ => .isTrue trivial
  | .leaseReceived _ => .isTrue trivial
  | .stop => .isTrue trivial

/-- A step within the budget keeps the consultations within it. -/
theorem StageInv.consulted_le (hi : StageInv s) {e : Event} (hok : s.Budgeted cfg e)
    (hs : s.step http cfg e = some s') (hle : s.consulted.length ≤ maxAuthStages) :
    s'.consulted.length ≤ maxAuthStages := by
  have hcounted := hi.counted
  have hmore : ∀ {ch : Challenge}, s.consulted.length < maxAuthStages →
      (s.consulted ++ [ch]).length ≤ maxAuthStages := by
    intro ch hlt
    rw [List.length_append, List.length_singleton]
    exact hlt
  rcases e with - | ⟨answer, decision⟩ | ⟨finalUrl, eligible⟩ | - | - | - | r |
    ⟨r, answer, decision⟩ | r | - <;> simp only [Job.step] at hs
  case fail =>
    split_ifs at hs with hc
    split at hs
    · next hphase =>
      cases hs
      rcases consulted_probeFail (s := s) cfg (answer.failure cfg.url) decision with
        hsame | ⟨hcan, ch, hgrown⟩
      · rw [hsame]
        exact hle
      · have hlt : s.probeAuthGuard.stagesUsed < maxAuthStages := of_decide_eq_true hcan
        obtain ⟨hauth, hcred⟩ := hi.probing hphase
        rw [hgrown]
        exact hmore (by omega)
    · next hphase =>
      cases hs
      rcases consulted_transferFail (s := s) cfg (answer.failure cfg.url) decision with
        hsame | ⟨⟨hprovider, hch, hcan⟩, ch, hgrown⟩
      · rw [hsame]
        exact hle
      · have hlt := hok hphase hprovider hch hcan
        have hcred := hi.sequential hphase
        rw [hgrown]
        exact hmore (by omega)
    · cases hs
  case leaseFail =>
    split_ifs at hs with hc
    cases hs
    rcases consulted_leaseFails (s := s) r (answer.failure s.finalUrl) decision with
      hsame | ⟨ch, hch, hfirst, hconsults, hgrown⟩
    · rw [hsame]
      exact hle
    · have hlt := hok ch hch hfirst hconsults
      have hauth := hi.segmented hc.1
      rw [hgrown]
      exact hmore (by omega)
  case stop =>
    cases hs
    exact hle
  all_goals
    split_ifs at hs with hc
    cases hs
    exact hle

/-- In every run the provider is asked at most `maxAuthStages` times while
probing and as often in the transfer. -/
theorem consultations_le_twice (h : Reach (step http cfg) (fun _ _ => True) (· = start cfg) s) :
    s.consulted.length ≤ 2 * maxAuthStages := by
  have hi : StageInv s := h.invariant (fun _ h₀ => h₀ ▸ .start cfg) fun _ _ _ hi _ hs => hi.step hs
  have hcounted := hi.counted
  have hprobe := hi.probe_le
  have htransfer := hi.transfer_le
  omega

/-- **Credentials are asked for within the bound.**  For every job, in every run
of the probe, the sequential transfer or the segmented workers in which the
transfer asks only while the stages of the whole job leave one: the provider was
consulted at most `maxAuthStages` times, and no request was sent again after a
challenge unless the provider or the latched credentials had supplied headers. -/
theorem consultations_bounded (h : Reach (step http cfg) (Budgeted cfg) (· = start cfg) s) :
    s.consulted.length ≤ maxAuthStages ∧
      ∀ headers unanswered, (headers, unanswered) ∈ s.issued → unanswered = false := by
  have hall : StageInv s ∧ s.consulted.length ≤ maxAuthStages := by
    refine h.invariant (I := fun t => StageInv t ∧ t.consulted.length ≤ maxAuthStages) ?_ ?_
    · rintro _ rfl
      exact ⟨.start cfg, Nat.zero_le _⟩
    · rintro t e t' ⟨hi, hle⟩ hok hs
      exact ⟨hi.step hs, hi.consulted_le hok hs hle⟩
  exact ⟨hall.2, fun headers unanswered hin => hall.1.issued _ hin⟩

/-! ### A server that challenges -/

/-- A client that knows one URL. -/
def oneUrl : HttpCrate where
  uri _ := .ok ⟨some "https".toList, some "a.example".toList, some "a.example".toList, none,
    "/f".toList⟩
  headerName _ := .ok ()
  headerValue _ := .ok ()

/-- A job with a provider, which may ask for credentials three times. -/
def providerConfig : Config where
  url := "https://a.example/f"
  headers := []
  credentialProvider := true
  forwardCredentialsCrossOrigin := false
  retry := ⟨true, true, true, 3⟩

/-- A challenge that the provider answers. -/
def challengeAnswered : Event :=
  .fail (.response 401 [("www-authenticate", "Basic realm=files")])
    (.ok (.headers [("authorization", "Basic dXNlcjpwYXNz")]))

/-- The probe and the sequential request are challenged once each. -/
def challengedOnceEach : List Event :=
  [.send, challengeAnswered, .send, .probed "https://a.example/f" false, .send, challengeAnswered,
    .send, .received]

/-- Two challenges use up the two stages. -/
theorem consultations_bounded_challengedOnceEach :
    ∃ s, runEvents (step oneUrl providerConfig) (start providerConfig) challengedOnceEach = some s ∧
      s.issued.length = 4 ∧ s.consulted.length = 2 ∧ 2 ≤ maxAuthStages := by
  have hok : runOk (step oneUrl providerConfig) (Budgeted providerConfig) (start providerConfig)
      challengedOnceEach := by decide +kernel
  have hrun : ∃ s ∈ runEvents (step oneUrl providerConfig) (start providerConfig) challengedOnceEach,
      s.issued.length = 4 ∧ s.consulted.length = 2 := by decide +kernel
  obtain ⟨s, hs, hissued, hconsulted⟩ := hrun
  have hbound := (consultations_bounded (.of_run (.start rfl) hok hs)).1
  rw [hconsulted] at hbound
  exact ⟨s, hs, hissued, hconsulted, hbound⟩

/-- Twice while probing and once more in the transfer. -/
def challengedThrice : List Event :=
  [.send, challengeAnswered, .send, challengeAnswered, .send, .probed "https://a.example/f" false,
    .send, challengeAnswered]

/-- **The stages are counted anew in each phase**, and the provider is asked a
third time. -/
theorem stages_counted_anew :
    ∃ s, runEvents (step oneUrl providerConfig) (start providerConfig) challengedThrice = some s ∧
      maxAuthStages < s.consulted.length := by
  have hrun : ∃ s ∈ runEvents (step oneUrl providerConfig) (start providerConfig) challengedThrice,
      maxAuthStages < s.consulted.length := by decide +kernel
  exact hrun

end Job

end Auth

end KDown

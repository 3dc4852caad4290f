/-
KDown/Redirect.lean

Redirect following (http/redirect.rs and the request loop of
http/transport.rs).

Every response is evaluated by `RedirectTracker.decide`: the `Location` is
resolved against the URL that produced it, and the policy then compares real
targets.  The loop sends one request per URL of the chain; whether a request
drops the caller's credentials depends only on the tracker's latch.

URLs are texts, given as lists of characters.  The parser of the `http` crate
and its checks of header names and values are a parameter: nothing below
depends on what they accept.

`hops` is a 32-bit counter that wraps around in a release build.  With
`max_redirects = 2 ^ 32 - 1` the wrapped counter never exceeds the limit, and
a chain of that many different targets is followed beyond it
(`followed_le_fails_at_wrap`).  For every smaller limit the chain is safe in
every respect (`redirectChain_safe_iff`).
-/
import KDown.Errors
import KDown.Runs
import KDown.TextScan
import Mathlib.Data.Nat.Digits.Lemmas

namespace KDown

/-! ### Text -/

/-- Split at the first occurrence of a word that is not empty. -/
def splitOnceWord (word : List Char) : List Char → Option (List Char × List Char)
  | [] => none
  | d :: cs =>
      match afterWord word (d :: cs) with
      | some rest => some ([], rest)
      | none => (splitOnceWord word cs).map fun p => (d :: p.1, p.2)

/-- ASCII letters are lowered. -/
def toAsciiLowercase (cs : List Char) : List Char := cs.map Char.toLower

/-- Mask every query value. -/
def redactQueryOnly (s : List Char) : List Char :=
  match splitOnce '?' s with
  | none => s
  | some (base, query) =>
      base ++ '?' :: List.intercalate ['&'] ((query.splitOn '&').map maskValue)
where
  maskValue (kv : List Char) : List Char :=
    match splitOnce '=' kv with
    | some (k, _) => k ++ "=REDACTED".toList
    | none => kv

/-- A URL for diagnostics: without userinfo and query values. -/
def redactedUrl (url : List Char) : List Char :=
  match splitOnceWord "://".toList url with
  | none => redactQueryOnly url
  | some (scheme, rest) =>
      let authority := rest.takeWhile (· ≠ '/')
      let pathQuery := rest.dropWhile (· ≠ '/')
      redactQueryOnly (scheme ++ "://".toList ++ withoutUserinfo authority ++ pathQuery)
where
  /-- What follows the last `@`, unless that is the first character. -/
  withoutUserinfo (authority : List Char) : List Char :=
    let host := (authority.reverse.takeWhile (· ≠ '@')).reverse
    if authority.length ≤ host.length + 1 then authority else host

/-! ### What the `http` crate provides -/

/-- What `http::Uri` yields of a URL. -/
structure Uri where
  scheme : Option (List Char)
  authority : Option (List Char)
  host : Option (List Char)
  port : Option ℕ
  path : List Char

/-- What is used of the `http` crate. -/
structure HttpCrate where
  /-- `Uri::try_from`, with the text of its error. -/
  uri : List Char → Except String Uri
  /-- The checks of `HeaderName::from_bytes` and of parsing a value. -/
  headerName : String → Except String Unit
  headerValue : String → Except String Unit

variable (http : HttpCrate)

/-- Parse, with a redacted message on failure. -/
def parseUri (url : List Char) : Except DownloadError Uri :=
  match http.uri url with
  | .ok uri => .ok uri
  | .error e => .error (.invalidUrl s!"{String.ofList (redactedUrl url)}: {e}")

/-- Scheme of an absolute URL, lowercased, when present. -/
def schemeOf (url : List Char) : Option (List Char) :=
  (http.uri url).toOption.bind fun uri => uri.scheme.map toAsciiLowercase

/-- The port of a URL that names none. -/
def defaultPort (scheme : List Char) : ℕ :=
  if toAsciiLowercase scheme = "https".toList then 443 else 80

/-- Normalized `scheme://host:effective-port`. -/
def originOf (url : List Char) : Option (List Char) := do
  let uri ← (http.uri url).toOption
  let scheme ← uri.scheme.map toAsciiLowercase
  let host ← uri.host.map toAsciiLowercase
  let port := uri.port.getD (defaultPort scheme)
  return scheme ++ "://".toList ++ host ++ ":".toList ++ (toString port).toList

/-! ### Resolving a location -/

/-- Collapse `.` and `..` segments in an absolute path. -/
def normalizeDotSegments (path : List Char) : List Char :=
  let segments := (path.splitOn '/').foldl collapse []
  let normalized := '/' :: List.intercalate ['/'] segments
  if path.getLast? = some '/' ∧ normalized.getLast? ≠ some '/' then normalized ++ ['/']
  else normalized
where
  collapse (segments : List (List Char)) (segment : List Char) : List (List Char) :=
    if segment = [] ∨ segment = ['.'] then segments
    else if segment = ['.', '.'] then segments.dropLast
    else segments ++ [segment]

/-- The path up to its last slash. -/
def pathDirectory (path : List Char) : List Char :=
  match (path.reverse.dropWhile (· ≠ '/')).reverse with
  | [] => ['/']
  | dir => dir

/-- The characters of a scheme. -/
def validScheme (scheme : List Char) : Bool :=
  match scheme with
  | [] => false
  | c :: _ => c.isAlpha && scheme.all fun c => c.isAlphanum || c = '+' || c = '-' || c = '.'

/-- A location without a scheme, against the current URL. -/
def resolveRelative (current location : List Char) : Except DownloadError (List Char) := do
  let base ← parseUri http current
  match base.authority with
  | none => .error (.invalidUrl (String.ofList (redactedUrl current)))
  | some authority =>
    let scheme := base.scheme.getD "http".toList
    let withoutFragment := location.takeWhile (· ≠ '#')
    let (locPath, locQuery) := match splitOnce '?' withoutFragment with
      | some (path, query) => (path, some query)
      | none => (withoutFragment, none)
    let path :=
      -- a query or a fragment alone keeps the current path
      if locPath = [] then base.path
      else if locPath.head? = some '/' then normalizeDotSegments locPath
      else normalizeDotSegments (pathDirectory base.path ++ locPath)
    let query := match locQuery with
      | some query => '?' :: query
      | none => []
    .ok (scheme ++ "://".toList ++ authority ++ path ++ query)

/-- Resolve a `Location` value against the current request URL. -/
def resolveRedirect (current location : List Char) : Except DownloadError (List Char) :=
  let location := trimText location
  if location = [] then .error (.redirect "empty Location header")
  else if (afterWord "//".toList location).isSome then do
    let base ← parseUri http current
    .ok (base.scheme.getD "http".toList ++ ':' :: location)
  else match splitOnceWord "://".toList location with
  | some (scheme, _) =>
      if validScheme scheme then .ok location
      else .error (.invalidUrl
        s!"invalid redirect scheme in {String.ofList (redactedUrl location)}")
  | none => resolveRelative http current location

/-! ### The tracker -/

/-- What a job allows of redirects. -/
structure RedirectPolicy where
  maxRedirects : ℕ
  denyDowngrade : Bool
  forwardCrossOriginCredentials : Bool
  deriving DecidableEq, Repr

/-- What is done with a response. -/
inductive RedirectAction
  | follow (location : List Char)
  | final
  | reject (error : DownloadError)

/-- The decision on a response, and whether credentials are left behind. -/
structure RedirectDecision where
  action : RedirectAction
  stripCredentials : Bool

/-- Header names that carry origin credentials. -/
def isOriginCredentialHeader (name : String) : Bool :=
  eqIgnoreAsciiCase name "authorization" || eqIgnoreAsciiCase name "cookie" ||
    eqIgnoreAsciiCase name "proxy-authorization"

/-- The redirects followed so far. -/
structure RedirectTracker where
  /-- A 32-bit counter. -/
  hops : ℕ
  visited : Finset (List Char)
  policy : RedirectPolicy
  crossOriginSeen : Bool

namespace RedirectTracker

/-- No redirect was followed. -/
def new (policy : RedirectPolicy) : RedirectTracker where
  hops := 0
  visited := ∅
  policy := policy
  crossOriginSeen := false

/-- An origin that cannot be parsed is never the same origin. -/
def crossOrigin (current target : List Char) : Bool :=
  match originOf http current, originOf http target with
  | some src, some dst => src ≠ dst
  | _, _ => true

/-- A redirect from https to http. -/
def isDowngrade (current target : List Char) : Bool :=
  schemeOf http current = some "https".toList && schemeOf http target = some "http".toList

/-- The checks on a resolved target, in the order of the source. -/
def decideTarget (t : RedirectTracker) (current target : List Char) (outgoing : Headers) :
    RedirectDecision × RedirectTracker :=
  let hops := (t.hops + 1) % 2 ^ 32
  if t.policy.maxRedirects < hops then
    (⟨.reject (.redirect s!"exceeded {t.policy.maxRedirects} redirects"), false⟩,
      { t with hops := hops })
  else if target ∈ t.visited then
    (⟨.reject (.redirect "redirect loop detected"), false⟩, { t with hops := hops })
  else if t.policy.denyDowngrade && isDowngrade http current target then
    (⟨.reject (.redirect "HTTPS to HTTP downgrade denied"), false⟩,
      { t with hops := hops, visited := insert target t.visited })
  else
    let seen := t.crossOriginSeen ||
      crossOrigin http current target && !t.policy.forwardCrossOriginCredentials
    (⟨.follow target, seen && outgoing.any fun h => isOriginCredentialHeader h.1⟩,
      { t with hops := hops, visited := insert target t.visited, crossOriginSeen := seen })

/-- The statuses that redirect. -/
def isRedirect (status : ℕ) : Bool :=
  status = 301 || status = 302 || status = 303 || status = 307 || status = 308

/-- Evaluate a response against the policy. -/
def decide (t : RedirectTracker) (status : ℕ) (location : Option (List Char))
    (current : List Char) (outgoing : Headers) : RedirectDecision × RedirectTracker :=
  if isRedirect status then
    match location with
    | none =>
        (⟨.reject (.redirect "redirect status without Location header"), false⟩, t)
    | some loc =>
      match resolveRedirect http current loc with
      | .error e => (⟨.reject e, false⟩, t)
      | .ok target => t.decideTarget http current target outgoing
  else (⟨.final, false⟩, t)

/-- What following `target` from `current` takes, and the tracker after it. -/
structure Followed (t t' : RedirectTracker) (current target : List Char) : Prop where
  fits : (t.hops + 1) % 2 ^ 32 ≤ t.policy.maxRedirects
  fresh : target ∉ t.visited
  allowed : t.policy.denyDowngrade = true → isDowngrade http current target = false
  hops : t'.hops = (t.hops + 1) % 2 ^ 32
  visited : t'.visited = insert target t.visited
  policy : t'.policy = t.policy
  seen : t'.crossOriginSeen = (t.crossOriginSeen ||
    crossOrigin http current target && !t.policy.forwardCrossOriginCredentials)

/-- A tracker that has not followed. -/
def SameScope (t t' : RedirectTracker) : Prop :=
  t'.policy = t.policy ∧ t'.crossOriginSeen = t.crossOriginSeen

variable {http} {t : RedirectTracker}

/-- A resolved target is rejected or followed. -/
theorem decideTarget_cases (current target : List Char) (outgoing : Headers) :
    (∃ e, (t.decideTarget http current target outgoing).1.action = .reject e ∧
      SameScope t (t.decideTarget http current target outgoing).2) ∨
    ((t.decideTarget http current target outgoing).1.action = .follow target ∧
      Followed http t (t.decideTarget http current target outgoing).2 current target) := by
  simp only [decideTarget]
  split_ifs with hmax hloop hdown
  · exact .inl ⟨_, rfl, rfl, rfl⟩
  · exact .inl ⟨_, rfl, rfl, rfl⟩
  · exact .inl ⟨_, rfl, rfl, rfl⟩
  · refine .inr ⟨rfl, not_lt.mp hmax, hloop, fun hdeny => ?_, rfl, rfl, rfl, rfl⟩
    simpa [hdeny] using hdown

/-- A response ends the chain or is followed. -/
theorem decide_cases (status : ℕ) (location : Option (List Char)) (current : List Char)
    (outgoing : Headers) :
    ((∀ target, (t.decide http status location current outgoing).1.action ≠ .follow target) ∧
      SameScope t (t.decide http status location current outgoing).2) ∨
    ∃ target, (t.decide http status location current outgoing).1.action = .follow target ∧
      Followed http t (t.decide http status location current outgoing).2 current target := by
  simp only [RedirectTracker.decide]
  split
  · rcases location with - | loc
    · exact .inl ⟨by simp, rfl, rfl⟩
    · rcases hres : resolveRedirect http current loc with e | target
      · exact .inl ⟨by simp [hres], by simp [hres, SameScope]⟩
      · simp only [hres]
        rcases decideTarget_cases (t := t) current target outgoing with ⟨e, he, hsame⟩ | hfollow
        · exact .inl ⟨by simp [he], hsame⟩
        · exact .inr ⟨target, hfollow⟩
  · exact .inl ⟨by simp, rfl, rfl⟩

end RedirectTracker

/-! ### The request loop -/

/-- A request as the caller specifies it. -/
structure RequestSpec where
  url : List Char
  headers : Headers
  validators : Option ResourceValidators
  /-- Ask for the identity encoding. -/
  identityEncoding : Bool
  /-- The caller's header values may all be credentials. -/
  sensitive : Bool

/-- Replace the field of that name, or add it. -/
def Headers.insert (hm : Headers) (name value : String) : Headers :=
  hm.filter (fun h => h.1 ≠ name) ++ [(name, value)]

/-- The fields the transport sets by itself. -/
def engineHeaders (spec : RequestSpec) (range : Option (ℕ × ℕ)) : Headers :=
  let hm : Headers := [("user-agent", "kdown-engine/0.1")]
  let hm := if spec.identityEncoding || range.isSome then hm.insert "accept-encoding" "identity"
    else hm
  match range with
  | none => hm
  | some (first, last) =>
      let hm := hm.insert "range" s!"bytes={first}-{last}"
      match spec.validators.bind ResourceValidators.ifRangeValue with
      | some value => hm.insert "if-range" value
      | none => hm

/-- One field of the caller. -/
def callerHeader (spec : RequestSpec) (stripCredentials : Bool) (hm : Headers)
    (h : String × String) : Except DownloadError Headers :=
  let lower := String.ofList (toAsciiLowercase h.1.toList)
  if lower = "proxy-authorization" then .ok hm
  else if stripCredentials && (isOriginCredentialHeader lower || spec.sensitive) then .ok hm
  else match http.headerName h.1 with
  | .error e => .error (.invalidUrl s!"bad header {h.1}: {e}")
  | .ok _ =>
    match http.headerValue h.2 with
    | .error e => .error (.invalidUrl s!"bad header value {h.1}: {e}")
    | .ok _ => .ok (hm.insert lower h.2)

/-- A request as it goes out. -/
structure SentRequest where
  url : List Char
  stripCredentials : Bool
  headers : Headers

/-- Build the request for one URL of the chain. -/
def singleRequest (spec : RequestSpec) (range : Option (ℕ × ℕ)) (url : List Char)
    (stripCredentials : Bool) : Except DownloadError SentRequest := do
  let uri ← parseUri http url
  if uri.scheme = some "http".toList ∨ uri.scheme = some "https".toList then
    let headers ← spec.headers.foldlM (callerHeader http spec stripCredentials)
      (engineHeaders spec range)
    return ⟨url, stripCredentials, headers⟩
  else .error (.unsupportedScheme (String.ofList (uri.scheme.getD [])))

/-! ### What a request carries -/

section Headers

variable {http} {spec : RequestSpec} {range : Option (ℕ × ℕ)} {strip : Bool}

theorem mem_insert {hm : Headers} {name value : String} {h : String × String}
    (hmem : h ∈ hm.insert name value) : h ∈ hm ∨ h = (name, value) := by
  rcases List.mem_append.mp hmem with hold | hnew
  · exact .inl (List.mem_filter.mp hold).1
  · exact .inr (List.mem_singleton.mp hnew)

/-- The transport's own fields are none of the credential fields. -/
theorem engineHeaders_name {h : String × String} (hmem : h ∈ engineHeaders spec range) :
    h.1 ∈ ["user-agent", "accept-encoding", "range", "if-range"] := by
  have hbase : ∀ {h : String × String},
      h ∈ (if spec.identityEncoding || range.isSome then
        Headers.insert [("user-agent", "kdown-engine/0.1")] "accept-encoding" "identity"
        else [("user-agent", "kdown-engine/0.1")]) →
      h.1 ∈ ["user-agent", "accept-encoding", "range", "if-range"] := by
    intro h hh
    split at hh
    · rcases mem_insert hh with hh | rfl
      · rw [List.mem_singleton.mp hh]
        simp
      · simp
    · rw [List.mem_singleton.mp hh]
      simp
  simp only [engineHeaders] at hmem
  split at hmem
  · exact hbase hmem
  · split at hmem
    · rcases mem_insert hmem with hmem | rfl
      · rcases mem_insert hmem with hmem | rfl
        · exact hbase hmem
        · simp
      · simp
    · rcases mem_insert hmem with hmem | rfl
      · exact hbase hmem
      · simp

/-- A caller's field is dropped, or is added under its lower-case name. -/
theorem callerHeader_cases {hm hm' : Headers} {h : String × String}
    (hok : callerHeader http spec strip hm h = .ok hm') :
    hm' = hm ∨ ∃ lower, lower = String.ofList (toAsciiLowercase h.1.toList) ∧
      lower ≠ "proxy-authorization" ∧
      (strip = true → isOriginCredentialHeader lower = false ∧ spec.sensitive = false) ∧
      hm' = hm.insert lower h.2 := by
  simp only [callerHeader] at hok
  split_ifs at hok with hproxy hstrip
  · exact .inl (Except.ok.inj hok).symm
  · exact .inl (Except.ok.inj hok).symm
  · refine .inr ⟨_, rfl, hproxy, fun hs => by simpa [hs] using hstrip, ?_⟩
    split at hok
    · cases hok
    · split at hok
      · cases hok
      · exact (Except.ok.inj hok).symm

/-- What every field of the caller keeps holds of the whole set. -/
theorem foldlM_callerHeader {P : Headers → Prop} {hm hm' : Headers} {hs : Headers}
    (hstep : ∀ hm h hm', P hm → callerHeader http spec strip hm h = .ok hm' → P hm')
    (h₀ : P hm) (hok : hs.foldlM (callerHeader http spec strip) hm = .ok hm') : P hm' := by
  induction hs generalizing hm with
  | nil => exact Except.ok.inj hok ▸ h₀
  | cons h hs ih =>
    rw [List.foldlM_cons] at hok
    rcases hnext : callerHeader http spec strip hm h with e | next
    · rw [hnext] at hok
      cases hok
    · rw [hnext] at hok
      exact ih (hstep hm h next h₀ hnext) hok

/-- What a request built for `url` carries.  Field names are the lower-case
ones of the `http` crate. -/
structure Carries (spec : RequestSpec) (range : Option (ℕ × ℕ)) (r : SentRequest) : Prop where
  proxy : ∀ h ∈ r.headers, h.1 ≠ "proxy-authorization"
  credentials : r.stripCredentials = true → ∀ h ∈ r.headers, isOriginCredentialHeader h.1 = false
  sensitive : r.stripCredentials = true → spec.sensitive = true →
    r.headers = engineHeaders spec range

/-- Headers of the caller are added to those of the engine. -/
theorem callerHeaders_carries {url : List Char} {headers : Headers}
    (hok : spec.headers.foldlM (callerHeader http spec strip) (engineHeaders spec range)
      = .ok headers) : Carries spec range ⟨url, strip, headers⟩ where
  proxy := by
    refine foldlM_callerHeader (P := fun hm => ∀ h ∈ hm, h.1 ≠ "proxy-authorization")
      (fun hm h hm' hP hh => ?_) (fun h hh => ?_) hok
    · rcases callerHeader_cases hh with rfl | ⟨lower, -, hproxy, -, rfl⟩
      · exact hP
      · intro f hf
        rcases mem_insert hf with hf | rfl
        · exact hP f hf
        · exact hproxy
    · have hname := engineHeaders_name hh
      intro hproxy
      rw [hproxy] at hname
      exact absurd hname (by decide)
  credentials := by
    intro hstrip
    refine foldlM_callerHeader (P := fun hm => ∀ h ∈ hm, isOriginCredentialHeader h.1 = false)
      (fun hm h hm' hP hh => ?_) (fun h hh => ?_) hok
    · rcases callerHeader_cases hh with rfl | ⟨lower, -, -, hcred, rfl⟩
      · exact hP
      · intro f hf
        rcases mem_insert hf with hf | rfl
        · exact hP f hf
        · exact (hcred hstrip).1
    · have hall : ∀ name ∈ ["user-agent", "accept-encoding", "range", "if-range"],
          isOriginCredentialHeader name = false := by decide
      exact hall h.1 (engineHeaders_name hh)
  sensitive := by
    intro hstrip hsens
    refine foldlM_callerHeader (P := fun hm => hm = engineHeaders spec range)
      (fun hm h hm' hP hh => ?_) rfl hok
    rcases callerHeader_cases hh with rfl | ⟨lower, -, -, hcred, -⟩
    · exact hP
    · exact absurd hsens (by rw [(hcred hstrip).2]; decide)

/-- What a request carries is what was asked for it, for its own URL. -/
theorem singleRequest_ok {url : List Char} {r : SentRequest}
    (hok : singleRequest http spec range url strip = .ok r) :
    r.url = url ∧ r.stripCredentials = strip ∧ Carries spec range r := by
  simp only [singleRequest] at hok
  rcases huri : parseUri http url with e | uri
  · rw [huri] at hok
    cases hok
  · rw [huri] at hok
    simp only [bind, Except.bind] at hok
    split at hok
    · rcases hfold : spec.headers.foldlM (callerHeader http spec strip)
        (engineHeaders spec range) with e | headers
      · rw [hfold] at hok
        cases hok
      · rw [hfold] at hok
        rw [← Except.ok.inj hok]
        exact ⟨rfl, rfl, callerHeaders_carries hfold⟩
    · cases hok

end Headers

/-- `request_following_redirects`, with what it has done so far. -/
structure RedirectLoop where
  tracker : RedirectTracker
  url : List Char
  /-- Requests sent, oldest first. -/
  sent : List SentRequest
  /-- Targets followed, oldest first. -/
  followed : List (List Char)
  /-- The final URL, or the error the loop ended with. -/
  outcome : Option (Except DownloadError (List Char))

/-- A response arrives, or the request fails. -/
inductive RedirectLoopEvent
  /-- The response arrives; whether the token is cancelled when the loop
  comes round. -/
  | respond (status : ℕ) (location : Option (List Char)) (cancelled : Bool)
  /-- The request is cancelled, times out or fails. -/
  | fail (error : DownloadError)

namespace RedirectLoop

/-- The top of the loop: the next request goes out. -/
def send (spec : RequestSpec) (range : Option (ℕ × ℕ)) (cancelled : Bool) (l : RedirectLoop) :
    RedirectLoop :=
  if cancelled then { l with outcome := some (.error .cancelled) }
  else match singleRequest http spec range l.url l.tracker.crossOriginSeen with
  | .error e => { l with outcome := some (.error e) }
  | .ok r => { l with sent := l.sent ++ [r] }

/-- The loop before its first request. -/
def start (policy : RedirectPolicy) (spec : RequestSpec) : RedirectLoop where
  tracker := .new policy
  url := spec.url
  sent := []
  followed := []
  outcome := none

/-- The state after the first request. -/
def begin (policy : RedirectPolicy) (spec : RequestSpec) (range : Option (ℕ × ℕ))
    (cancelled : Bool) : RedirectLoop :=
  (start policy spec).send http spec range cancelled

/-- What the loop does with a response. -/
def respond (spec : RequestSpec) (range : Option (ℕ × ℕ)) (l : RedirectLoop) (status : ℕ)
    (location : Option (List Char)) (cancelled : Bool) : RedirectLoop :=
  let (decision, tracker) := l.tracker.decide http status location l.url spec.headers
  match decision.action with
  | .final => { l with tracker := tracker, outcome := some (.ok l.url) }
  | .reject e => { l with tracker := tracker, outcome := some (.error e) }
  | .follow target =>
      RedirectLoop.send http spec range cancelled
        { l with tracker := tracker, url := target, followed := l.followed ++ [target] }

/-- One event. -/
def step (spec : RequestSpec) (range : Option (ℕ × ℕ)) (l : RedirectLoop) :
    RedirectLoopEvent → Option RedirectLoop
  | .respond status location cancelled =>
      if l.outcome.isSome then none else some (l.respond http spec range status location cancelled)
  | .fail error =>
      if l.outcome.isSome then none else some { l with outcome := some (.error error) }

/-! ### Whole chains -/

variable {http} {policy : RedirectPolicy} {spec : RequestSpec} {range : Option (ℕ × ℕ)}

/-- A hop that must not happen when downgrades are denied. -/
def HttpsToHttp (http : HttpCrate) (current target : List Char) : Prop :=
  schemeOf http current = some "https".toList ∧ schemeOf http target = some "http".toList

/-- A chain of redirects, so far, is safe. -/
structure ChainSafe (http : HttpCrate) (policy : RedirectPolicy) (spec : RequestSpec)
    (range : Option (ℕ × ℕ)) (l : RedirectLoop) : Prop where
  distinct : l.followed.Nodup
  bounded : l.followed.length ≤ policy.maxRedirects
  no_downgrade : policy.denyDowngrade = true →
    (spec.url :: l.followed).IsChain fun current target => ¬ HttpsToHttp http current target
  /-- One request per URL of the chain, in its order; the last may not have
  gone out. -/
  requests : l.sent.map SentRequest.url <+: spec.url :: l.followed
  latched : l.sent.Pairwise fun r r' => r.stripCredentials = true → r'.stripCredentials = true
  crossOrigin : policy.forwardCrossOriginCredentials = false →
    l.sent.Pairwise fun r r' =>
      originOf http r.url ≠ originOf http r'.url → r'.stripCredentials = true
  carries : ∀ r ∈ l.sent, Carries spec range r

/-- What holds at every point of the loop, whatever the limit. -/
structure ChainCore (http : HttpCrate) (policy : RedirectPolicy) (spec : RequestSpec)
    (range : Option (ℕ × ℕ)) (l : RedirectLoop) : Prop where
  policy_eq : l.tracker.policy = policy
  hops : l.outcome = none → l.tracker.hops = l.followed.length % 2 ^ 32
  fits : policy.maxRedirects < 2 ^ 32 - 1 → l.followed.length ≤ policy.maxRedirects
  visited : l.outcome = none → ∀ u ∈ l.followed, u ∈ l.tracker.visited
  distinct : l.followed.Nodup
  url_last : (spec.url :: l.followed).getLast? = some l.url
  no_downgrade : policy.denyDowngrade = true →
    (spec.url :: l.followed).IsChain fun current target => ¬ HttpsToHttp http current target
  strip_seen : ∀ r ∈ l.sent, r.stripCredentials = true → l.tracker.crossOriginSeen = true
  latched : l.sent.Pairwise fun r r' => r.stripCredentials = true → r'.stripCredentials = true
  /-- Until the latch is set the chain has stayed at one origin. -/
  one_origin : policy.forwardCrossOriginCredentials = false → l.tracker.crossOriginSeen = false →
    ∀ u ∈ spec.url :: l.followed, originOf http u = originOf http l.url
  crossOrigin : policy.forwardCrossOriginCredentials = false →
    l.sent.Pairwise fun r r' =>
      originOf http r.url ≠ originOf http r'.url → r'.stripCredentials = true
  carries : ∀ r ∈ l.sent, Carries spec range r

/-- What holds while the loop waits for a response. -/
structure ChainInv (http : HttpCrate) (policy : RedirectPolicy) (spec : RequestSpec)
    (range : Option (ℕ × ℕ)) (l : RedirectLoop) : Prop extends
    ChainCore http policy spec range l where
  requests : l.sent.map SentRequest.url <+: spec.url :: l.followed
  all_sent : l.outcome = none → l.sent.map SentRequest.url = spec.url :: l.followed

variable {l : RedirectLoop}

theorem ChainInv.safe (h : ChainInv http policy spec range l)
    (hmax : policy.maxRedirects < 2 ^ 32 - 1) : ChainSafe http policy spec range l where
  distinct := h.distinct
  bounded := h.fits hmax
  no_downgrade := h.no_downgrade
  requests := h.requests
  latched := h.latched
  crossOrigin := h.crossOrigin
  carries := h.carries

theorem ChainCore.start : ChainCore http policy spec range (start policy spec) where
  policy_eq := rfl
  hops := fun _ => rfl
  fits := fun _ => Nat.zero_le _
  visited := fun _ u hu => absurd hu List.not_mem_nil
  distinct := List.nodup_nil
  url_last := rfl
  no_downgrade := fun _ => List.IsChain.singleton _
  strip_seen := fun r hr => absurd hr List.not_mem_nil
  latched := List.Pairwise.nil
  one_origin := fun _ _ u hu => by rw [List.mem_singleton.mp hu]; rfl
  crossOrigin := fun _ => List.Pairwise.nil
  carries := fun r hr => absurd hr List.not_mem_nil

/-- The loop ends; the tracker's counters do not matter any more. -/
theorem ChainCore.finish (h : ChainCore http policy spec range l) {t : RedirectTracker}
    (ht : RedirectTracker.SameScope l.tracker t) (o : Except DownloadError (List Char)) :
    ChainCore http policy spec range { l with tracker := t, outcome := some o } where
  policy_eq := ht.1.trans h.policy_eq
  hops := fun ho => absurd ho (by simp)
  fits := h.fits
  visited := fun ho => absurd ho (by simp)
  distinct := h.distinct
  url_last := h.url_last
  no_downgrade := h.no_downgrade
  strip_seen := fun r hr hs => ht.2.trans (h.strip_seen r hr hs)
  latched := h.latched
  one_origin := fun hf hs => h.one_origin hf (ht.2.symm.trans hs)
  crossOrigin := h.crossOrigin
  carries := h.carries

/-- Not crossing an origin keeps the origin. -/
theorem originOf_eq_of_not_crossOrigin {current target : List Char}
    (h : RedirectTracker.crossOrigin http current target = false) :
    originOf http current = originOf http target := by
  simp only [RedirectTracker.crossOrigin] at h
  split at h
  · next src dst hsrc hdst =>
    rw [hsrc, hdst]
    simpa using h
  · exact absurd h (by simp)

theorem not_httpsToHttp {current target : List Char}
    (h : RedirectTracker.isDowngrade http current target = false) :
    ¬ HttpsToHttp http current target := by
  rintro ⟨hcurrent, htarget⟩
  rw [RedirectTracker.isDowngrade, decide_eq_true hcurrent, decide_eq_true htarget] at h
  exact absurd h (by simp)

/-- A target is followed. -/
theorem ChainCore.follow (h : ChainCore http policy spec range l) (ho : l.outcome = none)
    {t : RedirectTracker} {target : List Char}
    (ht : RedirectTracker.Followed http l.tracker t l.url target) :
    ChainCore http policy spec range
      { l with tracker := t, url := target, followed := l.followed ++ [target] } where
  policy_eq := ht.policy.trans h.policy_eq
  hops := fun _ => by
    rw [ht.hops, h.hops ho, List.length_append, List.length_singleton]
    omega
  fits := fun hmax => by
    have hfit := ht.fits
    have hle := h.fits hmax
    rw [h.hops ho, h.policy_eq] at hfit
    rw [List.length_append, List.length_singleton]
    omega
  visited := fun _ u hu => by
    rw [ht.visited]
    rcases List.mem_append.mp hu with hu | hu
    · exact Finset.mem_insert_of_mem (h.visited ho u hu)
    · rw [List.mem_singleton.mp hu]
      exact Finset.mem_insert_self ..
  distinct := by
    refine List.nodup_append.mpr ⟨h.distinct, List.nodup_singleton _, fun u hu v hv => ?_⟩
    rw [List.mem_singleton.mp hv]
    rintro rfl
    exact ht.fresh (h.visited ho u hu)
  url_last := by
    rw [← List.cons_append]
    exact List.getLast?_concat
  no_downgrade := fun hdeny => by
    rw [← List.cons_append]
    refine List.isChain_append.mpr ⟨h.no_downgrade hdeny, List.IsChain.singleton _, ?_⟩
    intro a ha b hb
    rw [h.url_last] at ha
    obtain rfl := Option.mem_some_iff.mp ha
    obtain rfl := Option.mem_some_iff.mp hb
    exact not_httpsToHttp (ht.allowed (h.policy_eq ▸ hdeny))
  strip_seen := fun r hr hs => by
    rw [ht.seen, h.strip_seen r hr hs]
    rfl
  latched := h.latched
  one_origin := fun hf hs u hu => by
    rw [ht.seen, Bool.or_eq_false_iff, h.policy_eq, hf] at hs
    have hsame : originOf http l.url = originOf http target :=
      originOf_eq_of_not_crossOrigin (by simpa using hs.2)
    rw [← List.cons_append] at hu
    rcases List.mem_append.mp hu with hu | hu
    · exact (h.one_origin hf hs.1 u hu).trans hsame
    · rw [List.mem_singleton.mp hu]
  crossOrigin := h.crossOrigin
  carries := h.carries

/-- The next request goes out with the latch as its flag. -/
theorem ChainCore.send (h : ChainCore http policy spec range l)
    (hunsent : l.sent.map SentRequest.url ++ [l.url] = spec.url :: l.followed)
    (cancelled : Bool) : ChainInv http policy spec range (l.send http spec range cancelled) := by
  have hprefix : l.sent.map SentRequest.url <+: spec.url :: l.followed := ⟨[l.url], hunsent⟩
  simp only [RedirectLoop.send]
  split
  · exact { h.finish ⟨rfl, rfl⟩ _ with requests := hprefix, all_sent := fun ho => absurd ho (by simp) }
  · rcases hreq : singleRequest http spec range l.url l.tracker.crossOriginSeen with e | r
    · exact { h.finish ⟨rfl, rfl⟩ _ with requests := hprefix, all_sent := fun ho => absurd ho (by simp) }
    · obtain ⟨hurl, hflag, hcarries⟩ := singleRequest_ok hreq
      have hall : (l.sent ++ [r]).map SentRequest.url = spec.url :: l.followed := by
        rw [List.map_append, List.map_singleton, hurl]
        exact hunsent
      exact
        { policy_eq := h.policy_eq
          hops := h.hops
          fits := h.fits
          visited := h.visited
          distinct := h.distinct
          url_last := h.url_last
          no_downgrade := h.no_downgrade
          strip_seen := fun r' hr' hs => by
            rcases List.mem_append.mp hr' with hr' | hr'
            · exact h.strip_seen r' hr' hs
            · rw [List.mem_singleton.mp hr', hflag] at hs
              exact hs
          latched := by
            refine List.pairwise_append.mpr ⟨h.latched, List.pairwise_singleton _ _, ?_⟩
            intro a ha b hb hs
            rw [List.mem_singleton.mp hb, hflag]
            exact h.strip_seen a ha hs
          one_origin := h.one_origin
          crossOrigin := fun hf => by
            refine List.pairwise_append.mpr ⟨h.crossOrigin hf, List.pairwise_singleton _ _, ?_⟩
            intro a ha b hb hne
            rw [List.mem_singleton.mp hb, hflag]
            by_contra hseen
            refine hne ?_
            rw [List.mem_singleton.mp hb, hurl]
            refine h.one_origin hf (by simpa using hseen) a.url ?_
            exact hprefix.subset (List.mem_map_of_mem ha)
          carries := fun r' hr' => by
            rcases List.mem_append.mp hr' with hr' | hr'
            · exact h.carries r' hr'
            · rw [List.mem_singleton.mp hr']
              exact hcarries
          requests := hall ▸ List.prefix_rfl
          all_sent := fun _ => hall }

/-- A response ends the chain or takes it one hop further. -/
theorem ChainInv.respond (h : ChainInv http policy spec range l) (ho : l.outcome = none)
    (status : ℕ) (location : Option (List Char)) (cancelled : Bool) :
    ChainInv http policy spec range (l.respond http spec range status location cancelled) := by
  have hfinish : ∀ {t : RedirectTracker}, RedirectTracker.SameScope l.tracker t → ∀ o,
      ChainInv http policy spec range { l with tracker := t, outcome := some o } := fun ht o =>
    { h.toChainCore.finish ht o with
      requests := h.requests
      all_sent := fun ho => absurd ho (by simp) }
  rcases RedirectTracker.decide_cases (t := l.tracker) status location l.url spec.headers with
    ⟨hno, hsame⟩ | ⟨target, hact, hfollow⟩
  · simp only [RedirectLoop.respond]
    split
    · exact hfinish hsame _
    · exact hfinish hsame _
    · next target htarget => exact absurd htarget (hno target)
  · simp only [RedirectLoop.respond, hact]
    refine (h.toChainCore.follow ho hfollow).send ?_ cancelled
    show l.sent.map SentRequest.url ++ [target] = spec.url :: (l.followed ++ [target])
    rw [h.all_sent ho, List.cons_append]

/-- **Every hop keeps what holds while the loop waits.** -/
theorem ChainInv.step (h : ChainInv http policy spec range l) {e : RedirectLoopEvent}
    {l' : RedirectLoop} (hs : l.step http spec range e = some l') :
    ChainInv http policy spec range l' := by
  rcases e with ⟨status, location, cancelled⟩ | error
  · simp only [RedirectLoop.step] at hs
    split at hs
    · cases hs
    · next ho =>
      rw [← Option.some.inj hs]
      exact h.respond (by simpa using ho) status location cancelled
  · simp only [RedirectLoop.step] at hs
    split at hs
    · cases hs
    · rw [← Option.some.inj hs]
      exact
        { h.toChainCore.finish ⟨rfl, rfl⟩ _ with
          requests := h.requests
          all_sent := fun ho => absurd ho (by simp) }

/-- Whatever the servers answer. -/
theorem chainInv_of_run {cancelled : Bool} {es : List RedirectLoopEvent}
    (h : runEvents (step http spec range) (begin http policy spec range cancelled) es = some l) :
    ChainInv http policy spec range l :=
  runEvents_invariant (I := fun _ l => ChainInv http policy spec range l)
    (ChainCore.start.send rfl cancelled) (fun _ _ _ _ _ ih hs => ih.step hs) h

/-! ### The counter wraps around -/

/-- The parser on the URLs of host `a`. -/
def wrapHttp : HttpCrate where
  uri := fun url =>
    match afterWord "http://a/".toList url with
    | some rest => .ok
        { scheme := some "http".toList
          authority := some "a".toList
          host := some "a".toList
          port := none
          path := '/' :: rest }
    | none => .error "invalid uri character"
  headerName := fun _ => .ok ()
  headerValue := fun _ => .ok ()

/-- One URL per number: its binary digits as a path. -/
def wrapTarget (n : ℕ) : List Char :=
  "http://a/".toList ++ (Nat.digits 2 n).map fun d => if d = 0 then '0' else '1'

/-- A request to the first URL of the chain. -/
def wrapSpec : RequestSpec where
  url := wrapTarget 0
  headers := []
  validators := none
  identityEncoding := false
  sensitive := false

/-- `n` redirects, each to a URL of its own. -/
def wrapRun (n : ℕ) : List RedirectLoopEvent :=
  (List.range n).map fun k => .respond 302 (some (wrapTarget k)) false

theorem wrapTarget_injective : Function.Injective wrapTarget := by
  intro m n h
  -- the digits can be read back from the characters
  have hback : ∀ k : ℕ, ((Nat.digits 2 k).map fun d => if d = 0 then '0' else '1').map
      (fun c => if c = '0' then 0 else 1) = Nat.digits 2 k := by
    intro k
    rw [List.map_map]
    conv_rhs => rw [← List.map_id (Nat.digits 2 k)]
    refine List.map_congr_left fun d hd => ?_
    have hlt := Nat.digits_lt_base (by decide) hd
    obtain rfl | rfl : d = 0 ∨ d = 1 := by omega
    · rfl
    · rfl
  refine Nat.digits.injective 2 ?_
  rw [← hback m, ← hback n, List.append_cancel_left h]

theorem trimText_wrapTarget (n : ℕ) : trimText (wrapTarget n) = wrapTarget n := by
  refine trimText_of_not_whitespace fun c hc => ?_
  rcases List.mem_append.mp hc with hc | hc
  · have hall : ("http://a/".toList.all fun c => !c.isWhitespace) = true := rfl
    simpa using List.all_eq_true.mp hall c hc
  · obtain ⟨d, -, rfl⟩ := List.mem_map.mp hc
    split <;> decide

theorem resolveRedirect_wrapTarget (current : List Char) (n : ℕ) :
    resolveRedirect wrapHttp current (wrapTarget n) = .ok (wrapTarget n) := by
  simp only [resolveRedirect, trimText_wrapTarget]
  rfl

/-- The loop after `n` redirects. -/
structure WrapState (policy : RedirectPolicy) (n : ℕ) (l : RedirectLoop) : Prop where
  policy_eq : l.tracker.policy = policy
  running : l.outcome = none
  count : l.followed.length = n
  visited : ∀ u ∈ l.tracker.visited, ∃ k < n, u = wrapTarget k
  url : ∃ k, l.url = wrapTarget k

theorem send_wrapTarget {l : RedirectLoop} {k : ℕ} (h : l.url = wrapTarget k) :
    ∃ r, l.send wrapHttp wrapSpec none false = { l with sent := l.sent ++ [r] } := by
  refine ⟨⟨l.url, l.tracker.crossOriginSeen, engineHeaders wrapSpec none⟩, ?_⟩
  rw [RedirectLoop.send, h]
  rfl

theorem decideTarget_wrapTarget {t : RedirectTracker} {n k : ℕ}
    (hmax : 2 ^ 32 - 1 ≤ t.policy.maxRedirects) (hfresh : wrapTarget n ∉ t.visited) :
    (t.decideTarget wrapHttp (wrapTarget k) (wrapTarget n) []).1.action
      = .follow (wrapTarget n) := by
  have hlt : (t.hops + 1) % 2 ^ 32 < 2 ^ 32 := Nat.mod_lt _ (by decide)
  have hdown : RedirectTracker.isDowngrade wrapHttp (wrapTarget k) (wrapTarget n) = false := rfl
  rw [RedirectTracker.decideTarget, if_neg (by omega), if_neg hfresh, hdown, Bool.and_false]
  rfl

/-- With the limit at the top of its type one more redirect is followed. -/
theorem WrapState.next {n : ℕ} {l : RedirectLoop} (h : WrapState policy n l)
    (hmax : 2 ^ 32 - 1 ≤ policy.maxRedirects) :
    ∃ l', l.step wrapHttp wrapSpec none (.respond 302 (some (wrapTarget n)) false) = some l' ∧
      WrapState policy (n + 1) l' := by
  obtain ⟨k, hk⟩ := h.url
  have hfresh : wrapTarget n ∉ l.tracker.visited := by
    intro hmem
    obtain ⟨m, hlt, heq⟩ := h.visited _ hmem
    exact absurd (wrapTarget_injective heq) hlt.ne'
  have hdecide : l.tracker.decide wrapHttp 302 (some (wrapTarget n)) l.url wrapSpec.headers
      = l.tracker.decideTarget wrapHttp l.url (wrapTarget n) wrapSpec.headers := by
    simp only [RedirectTracker.decide, resolveRedirect_wrapTarget]
    rfl
  rcases RedirectTracker.decideTarget_cases (t := l.tracker) l.url (wrapTarget n)
    wrapSpec.headers with ⟨e, he, -⟩ | ⟨hact, hfollow⟩
  · rw [hk, show wrapSpec.headers = [] from rfl,
      decideTarget_wrapTarget (h.policy_eq ▸ hmax) hfresh] at he
    cases he
  · generalize l.tracker.decideTarget wrapHttp l.url (wrapTarget n) wrapSpec.headers = d
      at hdecide hact hfollow
    let top : RedirectLoop :=
      { l with tracker := d.2, url := wrapTarget n, followed := l.followed ++ [wrapTarget n] }
    obtain ⟨r, hr⟩ := send_wrapTarget (l := top) (k := n) rfl
    refine ⟨{ top with sent := top.sent ++ [r] }, ?_, hfollow.policy.trans h.policy_eq, h.running,
      ?_, fun u hu => ?_, n, rfl⟩
    · rw [RedirectLoop.step, if_neg (by simp [h.running])]
      simp only [RedirectLoop.respond, hdecide, hact]
      exact congrArg some hr
    · show (l.followed ++ [wrapTarget n]).length = n + 1
      rw [List.length_append, h.count, List.length_singleton]
    · rw [show u ∈ d.2.visited ↔ u ∈ insert (wrapTarget n) l.tracker.visited by
        rw [hfollow.visited]] at hu
      rcases Finset.mem_insert.mp hu with rfl | hu
      · exact ⟨n, Nat.lt_succ_self n, rfl⟩
      · obtain ⟨m, hm, rfl⟩ := h.visited u hu
        exact ⟨m, hm.trans (Nat.lt_succ_self n), rfl⟩

/-- With the limit at the top of its type redirects are followed without
end. -/
theorem exists_wrapRun (hmax : 2 ^ 32 - 1 ≤ policy.maxRedirects) (n : ℕ) :
    ∃ l, runEvents (step wrapHttp wrapSpec none) (begin wrapHttp policy wrapSpec none false)
      (wrapRun n) = some l ∧ WrapState policy n l := by
  induction n with
  | zero =>
    obtain ⟨r, hr⟩ := send_wrapTarget (l := start policy wrapSpec) (k := 0) rfl
    refine ⟨_, rfl, ?_⟩
    rw [begin, hr]
    exact ⟨rfl, rfl, rfl, fun u hu => absurd hu (Finset.notMem_empty u), 0, rfl⟩
  | succ n ih =>
    obtain ⟨l, hrun, hstate⟩ := ih
    obtain ⟨l', hstep, hnext⟩ := hstate.next hmax
    refine ⟨l', ?_, hnext⟩
    rw [wrapRun, List.range_succ, List.map_append, runEvents_append]
    rw [wrapRun] at hrun
    rw [hrun]
    simp only [Option.bind_some, List.map_singleton, runEvents, hstep]

/-- The largest limit a policy can hold. -/
def wrapPolicy : RedirectPolicy where
  maxRedirects := 2 ^ 32 - 1
  denyDowngrade := true
  forwardCrossOriginCredentials := false

/-- **One redirect more than the limit is followed.** -/
theorem followed_le_fails_at_wrap :
    ∃ l, runEvents (step wrapHttp wrapSpec none) (begin wrapHttp wrapPolicy wrapSpec none false)
      (wrapRun (2 ^ 32)) = some l ∧ ¬ l.followed.length ≤ wrapPolicy.maxRedirects := by
  have hmax : 2 ^ 32 - 1 ≤ wrapPolicy.maxRedirects := le_rfl
  obtain ⟨l, hrun, hstate⟩ := exists_wrapRun hmax (2 ^ 32)
  refine ⟨l, hrun, ?_⟩
  rw [hstate.count]
  decide

/-- **Redirect chains are safe.**  The chain of every request is safe, whatever
the servers answer, exactly when the limit is below the top of its type. -/
theorem redirectChain_safe_iff (policy : RedirectPolicy) :
    (∀ http spec range cancelled es l,
      runEvents (step http spec range) (begin http policy spec range cancelled) es = some l →
      ChainSafe http policy spec range l) ↔ policy.maxRedirects < 2 ^ 32 - 1 := by
  constructor
  · intro h
    by_contra hmax
    obtain ⟨l, hrun, hstate⟩ := exists_wrapRun (not_lt.mp hmax) (policy.maxRedirects + 1)
    have hle := (h _ _ _ _ _ _ hrun).bounded
    rw [hstate.count] at hle
    omega
  · intro hmax http spec range cancelled es l hrun
    exact (chainInv_of_run hrun).safe hmax

end RedirectLoop

end KDown

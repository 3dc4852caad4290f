/-
KDown/ApiSecurity.lean

Who may use the local API (api/security.rs, and the guards of api/mod.rs).

The service listens on loopback, where every page in a browser can reach it.  It
gives the session token to requests for a loopback host only, and performs a
mutation only with the token and an `Origin` that agrees with `Host`.

* `host_is_accepted_iff` lists the hosts that pass; a bare IPv6 address is not
  among them.
* `api_session_safe` is about pages in a browser.  The browser writes `Host` and
  `Origin` itself, and lets a page read the answers of its own origin only; the
  page chooses everything else.  It may have any authority, also one whose name
  has been made to resolve to loopback.

Requests of safe methods pass the guard with any host.
-/
import KDown.SanitizeFilename
import KDown.Runs
import Mathlib.Logic.Function.Basic

namespace KDown

/-! ### The accepted hosts -/

/-- The hosts of the loopback interface. -/
def acceptedAuthorities : List (List Char) :=
  ["127.0.0.1".toList, "localhost".toList, "[::1]".toList, "::1".toList]

/-- Only loopback names, optionally with a port. -/
def hostIsAccepted (host : List Char) : Bool :=
  let authority := match rsplitOnce ':' host with
    | some (h, _) => h
    | none => host
  acceptedAuthorities.contains authority && authority.isPrefixOf host

theorem rsplitOnce_eq_none {c : Char} {cs : List Char} : rsplitOnce c cs = none ↔ c ∉ cs := by
  rw [rsplitOnce, Option.map_eq_none_iff, splitOnce_eq_none, List.mem_reverse]

/-- **The accepted hosts**: the two loopback names that have no colon, or any of
the four in front of one last colon. -/
theorem host_is_accepted_iff (host : List Char) : hostIsAccepted host = true ↔
    host = "127.0.0.1".toList ∨ host = "localhost".toList ∨
      ∃ authority ∈ acceptedAuthorities, ∃ port, ':' ∉ port ∧ host = authority ++ ':' :: port := by
  rcases hsplit : rsplitOnce ':' host with - | ⟨authority, port⟩
  · -- no colon: the whole host is the authority
    have hfree := rsplitOnce_eq_none.mp hsplit
    have hwhole : hostIsAccepted host = acceptedAuthorities.contains host := by
      rw [hostIsAccepted, hsplit]
      show (acceptedAuthorities.contains host && host.isPrefixOf host) = _
      rw [List.isPrefixOf_iff_prefix.mpr (List.prefix_refl host), Bool.and_true]
    rw [hwhole, List.contains_iff_mem]
    constructor
    · intro hmem
      simp only [acceptedAuthorities, List.mem_cons, List.not_mem_nil, or_false] at hmem
      rcases hmem with rfl | rfl | rfl | rfl
      · exact .inl rfl
      · exact .inr (.inl rfl)
      · exact absurd (by decide) hfree
      · exact absurd (by decide) hfree
    · rintro (rfl | rfl | ⟨authority, -, port, -, rfl⟩)
      · decide
      · decide
      · exact absurd (List.mem_append_right _ List.mem_cons_self) hfree
  · obtain ⟨hhost, hport⟩ := rsplitOnce_eq_some.mp hsplit
    have hpart : hostIsAccepted host = acceptedAuthorities.contains authority := by
      rw [hostIsAccepted, hsplit]
      show (acceptedAuthorities.contains authority && authority.isPrefixOf host) = _
      rw [List.isPrefixOf_iff_prefix.mpr ⟨':' :: port, hhost.symm⟩, Bool.and_true]
    rw [hpart, List.contains_iff_mem]
    have hcolon : ':' ∈ host := hhost ▸ List.mem_append_right _ List.mem_cons_self
    constructor
    · exact fun hmem => .inr (.inr ⟨authority, hmem, port, hport, hhost⟩)
    · rintro (rfl | rfl | ⟨authority', hmem, port', hport', hhost'⟩)
      · exact absurd hcolon (by decide)
      · exact absurd hcolon (by decide)
      · -- the last colon is found
        have hsame := rsplitOnce_eq_some.mpr ⟨hhost', hport'⟩
        rw [hsplit] at hsame
        cases hsame
        exact hmem

/-! ### The guards -/

/-- The header values that are read, where they are visible text. -/
structure RequestHeaders where
  contentType : Option (List Char)
  csrf : Option (List Char)
  origin : Option (List Char)
  host : Option (List Char)
  secFetchSite : Option (List Char)

/-- The token and the origin of the server. -/
structure SecurityContext where
  csrfToken : List Char
  origin : List Char

/-- The method of a request. -/
inductive HttpMethod
  | get
  | head
  | options
  | post
  | put
  | patch
  | delete
  | extension (name : List Char)
  deriving DecidableEq

/-- Why a request is refused. -/
inductive ApiRefusal
  | unsupportedMediaType
  | forbidden (message : String)

/-- The scheme of the server's own origin. -/
def httpScheme : List Char := "http://".toList

/-- The scheme of a secure origin. -/
def httpsScheme : List Char := "https://".toList

/-- The authority of the `Origin` is the `Host`. -/
def originMatchesHost (headers : RequestHeaders) : Bool :=
  match headers.origin, headers.host with
  | some origin, some host => origin = httpScheme ++ host || origin = httpsScheme ++ host
  | _, _ => false

/-- The body is not declared as JSON. -/
def wrongContentType (headers : RequestHeaders) : Bool :=
  headers.contentType.any fun value => value ≠ "application/json".toList

/-- A mutation carries the token, comes from the server's origin, and has no
contrary fetch metadata. -/
def mutationIsAllowed (headers : RequestHeaders) (security : SecurityContext) : Bool :=
  if wrongContentType headers then false
  else
    headers.csrf = some security.csrfToken && originMatchesHost headers &&
      headers.secFetchSite.all fun value => value = "same-origin".toList

/-- The methods that change nothing. -/
def HttpMethod.isSafe : HttpMethod → Bool
  | .get => true
  | .head => true
  | .options => true
  | _ => false

/-- Safe methods pass through. -/
def mutationGuard (method : HttpMethod) (headers : RequestHeaders) (security : SecurityContext) :
    Except ApiRefusal Unit :=
  if method.isSafe then .ok ()
  else if wrongContentType headers then .error .unsupportedMediaType
  else if mutationIsAllowed headers security then .ok ()
  else .error (.forbidden "this action requires the session token and a same-origin request")

/-- The token is released to accepted hosts. -/
def bootstrap (headers : RequestHeaders) (security : SecurityContext) :
    Except ApiRefusal (List Char) :=
  if hostIsAccepted (headers.host.getD []) then .ok security.csrfToken
  else .error (.forbidden "this service only accepts loopback hosts")

/-- A mutation that passes has the token and an origin that agrees with the host. -/
theorem mutationGuard_ok {method : HttpMethod} {headers : RequestHeaders}
    {security : SecurityContext} (hmethod : method.isSafe = false)
    (h : mutationGuard method headers security = .ok ()) :
    headers.csrf = some security.csrfToken ∧ originMatchesHost headers = true := by
  rw [mutationGuard, hmethod, if_neg (by decide)] at h
  split_ifs at h with hcontent hallowed
  rw [mutationIsAllowed, if_neg hcontent, Bool.and_eq_true, Bool.and_eq_true,
    decide_eq_true_eq] at hallowed
  exact hallowed.1

/-! ### Pages in a browser -/

/-- A page, its origin, and whether it has the token. -/
structure BrowserPage where
  secure : Bool
  authority : List Char
  hasToken : Bool

/-- The origin of a page. -/
def BrowserPage.origin (page : BrowserPage) : List Char :=
  (if page.secure then httpsScheme else httpScheme) ++ page.authority

/-- The server with the pages that talk to it. -/
structure ApiSession where
  security : SecurityContext
  pages : ℕ → BrowserPage
  /-- The mutations that were performed: by which page, and for which host. -/
  performed : List (ℕ × List Char)

/-- What a page does. -/
inductive BrowserEvent
  /-- A page requests the bootstrap of a host. -/
  | bootstrap (page : ℕ) (host : List Char)
  | mutate (page : ℕ) (host : List Char) (method : HttpMethod) (headers : RequestHeaders)

namespace ApiSession

/-- The headers of a request without a body. -/
def plainHeaders (host : List Char) : RequestHeaders := ⟨none, none, none, some host, none⟩

/-- One event. -/
def step (s : ApiSession) : BrowserEvent → Option ApiSession
  | .bootstrap page host =>
      match KDown.bootstrap (plainHeaders host) s.security with
      | .ok _ =>
          -- the answer of another origin is not shown to the page
          if (s.pages page).origin = httpScheme ++ host then
            some { s with
              pages := Function.update s.pages page { s.pages page with hasToken := true } }
          else some s
      | .error _ => some s
  | .mutate page host method headers =>
      match mutationGuard method headers s.security with
      | .ok _ =>
          some (if method.isSafe then s
          else { s with performed := s.performed ++ [(page, host)] })
      | .error _ => some s

/-- The browser writes `Host`, and an `Origin` that is the page's own or hidden; a
page that has not read the token does not send it. -/
def BrowserRules (s : ApiSession) : BrowserEvent → Prop
  | .bootstrap _ _ => True
  | .mutate page host _ headers =>
      headers.host = some host ∧
        (headers.origin = none ∨ headers.origin = some "null".toList ∨
          headers.origin = some (s.pages page).origin) ∧
        (headers.csrf = some s.security.csrfToken → (s.pages page).hasToken = true)

/-- No page has the token, and nothing was performed. -/
structure Starts (s : ApiSession) : Prop where
  pages : ∀ page, (s.pages page).hasToken = false
  performed : s.performed = []

/-- Only pages of accepted hosts have the token, and only they have performed
mutations, on their own host. -/
structure Inv (s : ApiSession) : Prop where
  token : ∀ page, (s.pages page).hasToken = true → hostIsAccepted (s.pages page).authority = true
  performed : ∀ p ∈ s.performed,
    (s.pages p.1).hasToken = true ∧ (s.pages p.1).authority = p.2

variable {s s' : ApiSession}

theorem Inv.start (h : s.Starts) : s.Inv where
  token := fun page htoken => by
    rw [h.pages] at htoken
    cases htoken
  performed := by
    rw [h.performed]
    exact fun p hp => absurd hp List.not_mem_nil

theorem https_ne_http (a b : List Char) : httpsScheme ++ a ≠ httpScheme ++ b := by
  intro h
  have hfront := congrArg (List.take 5) h
  rw [List.take_append_of_le_length (by decide),
    List.take_append_of_le_length (by decide)] at hfront
  exact absurd hfront (by decide)

/-- Origins agree where their authorities do. -/
theorem authority_of_origin {page : BrowserPage} {host : List Char}
    (h : page.origin = httpScheme ++ host ∨ page.origin = httpsScheme ++ host) :
    page.authority = host := by
  rw [BrowserPage.origin] at h
  cases hsecure : page.secure
  · rw [hsecure, if_neg (by decide)] at h
    rcases h with h | h
    · exact List.append_cancel_left h
    · exact absurd h.symm (https_ne_http _ _)
  · rw [hsecure, if_pos rfl] at h
    rcases h with h | h
    · exact absurd h (https_ne_http _ _)
    · exact List.append_cancel_left h

/-- One request in a browser. -/
theorem Inv.step {e : BrowserEvent} (h : s.Inv) (hrules : s.BrowserRules e)
    (hs : s.step e = some s') : s'.Inv := by
  cases e with
  | bootstrap page host =>
    rw [ApiSession.step] at hs
    split at hs
    · next token hbootstrap =>
      have haccepted : hostIsAccepted host = true := by
        rw [KDown.bootstrap] at hbootstrap
        split_ifs at hbootstrap with hhost
        exact hhost
      split_ifs at hs with horigin
      · cases hs
        have hauthority := authority_of_origin (.inl horigin)
        have hpage : ∀ k, (Function.update s.pages page { s.pages page with hasToken := true } k) =
            if k = page then { s.pages page with hasToken := true } else s.pages k := by
          intro k
          rw [Function.update_apply]
        refine ⟨fun k htoken => ?_, fun p hp => ?_⟩
        · show hostIsAccepted (Function.update s.pages page _ k).authority = true
          have hk : (Function.update s.pages page { s.pages page with hasToken := true } k).hasToken
              = true := htoken
          rw [hpage] at hk ⊢
          split_ifs at hk ⊢
          · show hostIsAccepted (s.pages page).authority = true
            rw [hauthority]
            exact haccepted
          · exact h.token k hk
        · obtain ⟨htoken, hhost⟩ := h.performed p hp
          show (Function.update s.pages page _ p.1).hasToken = true ∧
            (Function.update s.pages page _ p.1).authority = p.2
          rw [hpage]
          split_ifs with hp1
          · exact ⟨rfl, hp1 ▸ hhost⟩
          · exact ⟨htoken, hhost⟩
      · cases hs
        exact h
    · cases hs
      exact h
  | mutate page host method headers =>
    obtain ⟨hhost, horigin, hcsrf⟩ := hrules
    rw [ApiSession.step] at hs
    split at hs
    · next hpassed =>
      split_ifs at hs with hsafe
      · cases hs
        exact h
      · cases hs
        obtain ⟨htoken, hmatches⟩ := mutationGuard_ok (Bool.eq_false_iff.mpr hsafe) hpassed
        refine ⟨h.token, fun p hp => ?_⟩
        rcases List.mem_append.mp hp with hold | hnew
        · exact h.performed p hold
        · rw [List.mem_singleton.mp hnew]
          refine ⟨hcsrf htoken, ?_⟩
          rw [originMatchesHost, hhost] at hmatches
          rcases horigin with hnone | hnull | hown
          · rw [hnone] at hmatches
            cases hmatches
          · rw [hnull] at hmatches
            have hnot : ∀ scheme : List Char, scheme.head? = some 'h' →
                "null".toList ≠ scheme ++ host := by
              intro scheme hscheme heq
              have hfirst := congrArg List.head? heq
              rw [List.head?_append, hscheme] at hfirst
              cases hfirst
            simp only [Bool.or_eq_true, decide_eq_true_eq] at hmatches
            exact absurd hmatches (not_or.mpr ⟨hnot _ rfl, hnot _ rfl⟩)
          · rw [hown] at hmatches
            simp only [Bool.or_eq_true, decide_eq_true_eq] at hmatches
            exact authority_of_origin hmatches
    · cases hs
      exact h

/-- **Only pages of loopback hosts act**: however the pages of a browser send
their requests, a page has the token only if its authority is an accepted host,
and a mutation is performed only for such a page, under its own authority. -/
theorem api_session_safe (h : Reach ApiSession.step BrowserRules Starts s) :
    (∀ page, (s.pages page).hasToken = true → hostIsAccepted (s.pages page).authority = true) ∧
      ∀ p ∈ s.performed, (s.pages p.1).authority = p.2 ∧ hostIsAccepted p.2 = true := by
  have hinv : s.Inv :=
    h.invariant (fun _ => .start) fun _ _ _ hinv hrules hs => hinv.step hrules hs
  refine ⟨hinv.token, fun p hp => ?_⟩
  obtain ⟨htoken, hhost⟩ := hinv.performed p hp
  exact ⟨hhost, hhost ▸ hinv.token p.1 htoken⟩

/-- Page 0 is the service's own, and page 1 has a name that resolves to loopback. -/
def twoPages : ApiSession where
  security := ⟨['t'], "http://127.0.0.1".toList⟩
  pages := fun page => ⟨false, if page = 0 then "localhost".toList else "rebound".toList, false⟩
  performed := []

/-- The headers that the server's own page sends. -/
def ownMutation : RequestHeaders :=
  ⟨none, some ['t'], some "http://localhost".toList, some "localhost".toList, none⟩

/-- Both ask for the token, and the service's own page creates something. -/
def twoPagesRun : List BrowserEvent :=
  [.bootstrap 1 "rebound".toList, .bootstrap 0 "localhost".toList,
    .mutate 0 "localhost".toList .post ownMutation]

/-- The server's own page mutates with its token, and a foreign page is turned
away. -/
theorem api_session_safe_twoPages : ∃ s,
    runEvents ApiSession.step twoPages twoPagesRun = some s ∧
      s.performed = [(0, "localhost".toList)] ∧ hostIsAccepted "localhost".toList = true := by
  obtain ⟨s, hs, hperformed⟩ : ∃ s, runEvents ApiSession.step twoPages twoPagesRun = some s ∧
      s.performed = [(0, "localhost".toList)] := ⟨_, rfl, rfl⟩
  have hok : runOk ApiSession.step BrowserRules twoPages twoPagesRun := by
    refine ⟨trivial, fun t ht => ?_⟩
    cases ht
    refine ⟨trivial, fun t ht => ?_⟩
    cases ht
    exact ⟨⟨rfl, .inr (.inr rfl), fun _ => rfl⟩, fun _ _ => trivial⟩
  have hreach : Reach ApiSession.step BrowserRules Starts s :=
    .of_run (.start ⟨fun _ => rfl, rfl⟩) hok hs
  exact ⟨s, hs, hperformed, ((api_session_safe hreach).2 (0, "localhost".toList)
    (by rw [hperformed]; exact List.mem_cons_self)).2⟩

end ApiSession

end KDown

/-
KDown/UrlRedaction.lean

What a redacted URL shows (`Redactor` of redact.rs).

A URL is split into what may be shown and its secrets, which are the userinfo
and the values of the query.  Every value is masked by the policy, whatever
characters are in it (`maskQuery_queryText`).  The userinfo is looked for in the
text before the first `/`; without a path that text goes on into the query, and
an `@` there is taken for the end of the userinfo.  `Redactable` says for which
URLs the text shown depends on no secret and keeps the host
(`redactUrl_noninterference_iff`).
-/
import KDown.RedirectTargets
import KDown.SanitizeFilename

namespace KDown

/-! ### The redactor -/

/-- What a redactor masks. -/
structure Redactor where
  /-- Names of query parameters, in lower case. -/
  sensitiveQueryParams : List (List Char)
  maskAllQueryValues : Bool

namespace Redactor

/-- The default masks every value. -/
def new : Redactor := ⟨[], true⟩

/-- The redactor, with more parameters it takes for sensitive. -/
def withSensitiveQueryParams (self : Redactor) (params : List (List Char)) : Redactor :=
  { self with
    sensitiveQueryParams := self.sensitiveQueryParams ++ params.map toAsciiLowercase }

variable (self : Redactor)

/-- The value of a parameter of this name is masked. -/
def masksQueryValue (name : List Char) : Bool :=
  self.maskAllQueryValues ||
    self.sensitiveQueryParams.any fun p => toAsciiLowercase name = toAsciiLowercase p

/-- A parameter, with its value masked; without a `=` it is left as it is. -/
def maskParam (kv : List Char) : List Char :=
  match splitOnce '=' kv with
  | some (k, _) => if self.masksQueryValue k then k ++ "=REDACTED".toList else kv
  | none => kv

/-- All parameters of a query. -/
def maskQuery (query : List Char) : List Char :=
  List.intercalate ['&'] ((query.splitOn '&').map self.maskParam)

/-- What stands behind the first question mark. -/
def redactQueryOnly (s : List Char) : List Char :=
  match splitOnce '?' s with
  | none => s
  | some (base, query) => base ++ '?' :: self.maskQuery query

/-- What follows the last `@` of an authority, unless nothing precedes it. -/
def stripUserinfo (authority : List Char) : List Char :=
  match rsplitOnce '@' authority with
  | none => authority
  | some (userinfo, host) => if userinfo = [] then authority else host

/-- `redact_url`: the user information is dropped, and the query masked. -/
def redactUrl (url : List Char) : List Char :=
  match splitOnceWord "://".toList url with
  | none => self.redactQueryOnly url
  | some (scheme, rest) =>
      let authority := rest.takeWhile (· ≠ '/')
      let pathQuery := rest.dropWhile (· ≠ '/')
      self.redactQueryOnly (scheme ++ "://".toList ++ stripUserinfo authority ++ pathQuery)

end Redactor

/-! ### URLs and their secrets -/

/-- A parameter of a query, apart from its value. -/
inductive QueryParam
  /-- With a value, which is secret. -/
  | named (name : List Char)
  /-- Without a `=`. -/
  | flag (text : List Char)

/-- The parameter has a value. -/
def QueryParam.hasValue : QueryParam → Bool
  | .named _ => true
  | .flag _ => false

/-- The part of the parameter that is no secret. -/
def QueryParam.word : QueryParam → List Char
  | .named name => name
  | .flag text => text

/-- An absolute URL without its secrets. -/
structure PublicUrl where
  scheme : List Char
  /-- With the port, if there is one. -/
  host : List Char
  path : List Char
  /-- There is no query if there is no parameter. -/
  params : List QueryParam
  fragment : Option (List Char)
  scheme_mem : ∀ c ∈ scheme, c ∉ [':', '/', '?', '#', '@']
  host_mem : ∀ c ∈ host, c ∉ ['/', '?', '#', '@']
  host_ne : host ≠ []
  path_mem : ∀ c ∈ path, c ∉ ['?', '#']
  path_head : ∀ c ∈ path.head?, c = '/'
  params_mem : ∀ p ∈ params, ∀ c ∈ p.word, c ∉ ['&', '=', '#']

/-- The secrets of a URL: its userinfo, and the value of each parameter. -/
structure UrlSecrets where
  userinfo : List Char
  value : ℕ → List Char
  userinfo_ne : userinfo ≠ []
  userinfo_mem : ∀ c ∈ userinfo, c ∉ ['/', '?', '#']
  value_mem : ∀ i, ∀ c ∈ value i, c ∉ ['&', '#']

/-- The parameter with its value. -/
def QueryParam.text (value : List Char) : QueryParam → List Char
  | .named name => name ++ '=' :: value
  | .flag text => text

/-- The parameters with their values, and what follows the query. -/
def queryText (rest : List Char) : List QueryParam → (ℕ → List Char) → List Char
  | [], _ => rest
  | [p], value => p.text (value 0) ++ rest
  | p :: q :: params, value =>
      p.text (value 0) ++ '&' :: queryText rest (q :: params) fun i => value (i + 1)

/-- The query and what follows it, as far as to the first value. -/
def leadText (rest : List Char) : List QueryParam → List Char
  | [] => rest
  | .named name :: _ => name ++ ['=']
  | [.flag text] => text ++ rest
  | .flag text :: q :: params => text ++ '&' :: leadText rest (q :: params)

namespace PublicUrl

/-- The fragment, with its sign. -/
def fragmentText (url : PublicUrl) : List Char := url.fragment.elim [] ('#' :: ·)

/-- The query and the fragment. -/
def tail (url : PublicUrl) (value : ℕ → List Char) : List Char :=
  if url.params = [] then url.fragmentText
  else '?' :: queryText url.fragmentText url.params value

/-- The text of the URL with its secrets. -/
def text (url : PublicUrl) (secrets : UrlSecrets) : List Char :=
  url.scheme ++ ("://".toList ++ (secrets.userinfo ++ '@' ::
    (url.host ++ (url.path ++ url.tail secrets.value))))

/-- A parameter has a value. -/
def hasValue (url : PublicUrl) : Bool := url.params.any (·.hasValue)

/-- What follows the host, as far as to the first value. -/
def leading (url : PublicUrl) : List Char :=
  url.path ++
    if url.params = [] then url.fragmentText else '?' :: leadText url.fragmentText url.params

end PublicUrl

/-- The end of an authority for a reader of the text. -/
def isAuthorityChar (c : Char) : Bool := c ∉ ['/', '?', '#']

/-- The authority of an absolute URL, as a reader of the text sees it. -/
def authorityOf (text : List Char) : List Char :=
  match splitOnceWord "://".toList text with
  | none => []
  | some (_, rest) => rest.takeWhile isAuthorityChar

/-- After the last `@` before the first `/` the host is written once more. -/
def PublicUrl.HostAgain (url : PublicUrl) : Prop :=
  ∃ before after, url.leading = before ++ '@' :: after ∧ '/' ∉ before ∧
    '@' ∉ after.takeWhile (· ≠ '/') ∧ after.takeWhile isAuthorityChar = url.host ∧
    (url.hasValue = true → '?' ∈ after)

/-- A `/` comes before the first value, and no `@` before that `/`. -/
structure PublicUrl.Redactable (url : PublicUrl) : Prop where
  values : url.hasValue = true → '/' ∈ url.leading
  host : '@' ∉ url.leading.takeWhile (· ≠ '/') ∨ url.HostAgain

/-! ### Masking -/

theorem intercalate_append {sep : List Char} {xs ys : List (List Char)} (hx : xs ≠ [])
    (hy : ys ≠ []) :
    List.intercalate sep (xs ++ ys) =
      List.intercalate sep xs ++ (sep ++ List.intercalate sep ys) := by
  induction xs with
  | nil => exact absurd rfl hx
  | cons x xs ih =>
    rcases xs with - | ⟨x', xs⟩
    · rw [List.singleton_append, List.intercalate_cons_of_ne_nil hy, List.intercalate_singleton,
        List.append_assoc]
    · rw [List.cons_append, List.cons_append, List.intercalate_cons_cons, ← List.cons_append,
        ih (List.cons_ne_nil _ _), List.intercalate_cons_cons]
      simp only [List.append_assoc]

namespace Redactor

variable {r : Redactor}

/-- What precedes the query is kept. -/
theorem redactQueryOnly_append {base : List Char} (hbase : '?' ∉ base) (s : List Char) :
    r.redactQueryOnly (base ++ s) = base ++ r.redactQueryOnly s := by
  unfold redactQueryOnly
  rcases hs : splitOnce '?' s with - | ⟨l, query⟩
  · have hnone : splitOnce '?' (base ++ s) = none := by
      rw [splitOnce_eq_none, List.mem_append]
      exact not_or.mpr ⟨hbase, splitOnce_eq_none.mp hs⟩
    rw [hnone]
  · obtain ⟨rfl, hl⟩ := splitOnce_eq_some.mp hs
    have hsome : splitOnce '?' (base ++ (l ++ '?' :: query)) = some (base ++ l, query) := by
      rw [← List.append_assoc]
      apply splitOnce_append
      rw [List.mem_append]
      exact not_or.mpr ⟨hbase, hl⟩
    rw [hsome]
    exact List.append_assoc base l _

theorem redactQueryOnly_query (query : List Char) :
    r.redactQueryOnly ('?' :: query) = '?' :: r.maskQuery query := by
  have hsplit : splitOnce '?' ('?' :: query) = some ([], query) :=
    splitOnce_append List.not_mem_nil query
  rw [redactQueryOnly, hsplit]
  rfl

/-- The authority is not touched by the masking. -/
theorem takeWhile_redactQueryOnly (s : List Char) :
    (r.redactQueryOnly s).takeWhile isAuthorityChar = s.takeWhile isAuthorityChar := by
  rw [redactQueryOnly]
  rcases hs : splitOnce '?' s with - | ⟨base, query⟩
  · rfl
  · obtain ⟨rfl, -⟩ := splitOnce_eq_some.mp hs
    show (base ++ '?' :: _).takeWhile _ = _
    rw [List.takeWhile_append, List.takeWhile_append]
    rfl

theorem maskQuery_append (a b : List Char) :
    r.maskQuery (a ++ '&' :: b) = r.maskQuery a ++ '&' :: r.maskQuery b := by
  have hne : ∀ cs : List Char, (cs.splitOn '&').map r.maskParam ≠ [] := by
    intro cs hnil
    exact List.splitOn_ne_nil _ _ (List.map_eq_nil_iff.mp hnil)
  rw [maskQuery, List.splitOn_append_cons_self, List.map_append, intercalate_append (hne a) (hne b)]
  rfl

theorem maskQuery_single {kv : List Char} (h : '&' ∉ kv) : r.maskQuery kv = r.maskParam kv := by
  rw [maskQuery, List.splitOn_eq_singleton h, List.map_singleton, List.intercalate_singleton]

/-- Nothing that follows the first `=` of a parameter is shown. -/
theorem maskParam_append (hmask : ∀ k, r.masksQueryValue k = true) (k v : List Char) :
    r.maskParam (k ++ '=' :: v) = r.maskParam (k ++ ['=']) := by
  rcases hk : splitOnce '=' k with - | ⟨l, rest⟩
  · have hnot := splitOnce_eq_none.mp hk
    rw [maskParam, maskParam, splitOnce_append hnot, splitOnce_append hnot]
    simp only [hmask, if_true]
  · obtain ⟨rfl, hl⟩ := splitOnce_eq_some.mp hk
    rw [List.append_assoc, List.append_assoc, List.cons_append, List.cons_append, maskParam,
      maskParam, splitOnce_append hl, splitOnce_append hl]
    simp only [hmask, if_true]

/-- A value may be left out. -/
theorem maskQuery_value (hmask : ∀ k, r.masksQueryValue k = true) (q : List Char) {v : List Char}
    (hv : '&' ∉ v) (rest : List Char) :
    r.maskQuery (q ++ '=' :: (v ++ rest)) = r.maskQuery (q ++ '=' :: rest) := by
  -- the one parameter the value is in, first and last of the query
  have hcore : ∀ k f : List Char, '&' ∉ k → '&' ∉ f →
      r.maskQuery (k ++ '=' :: (v ++ f)) = r.maskQuery (k ++ '=' :: f) := by
    intro k f hk hf
    rw [maskQuery_single (by simp [hk, hv, hf]), maskQuery_single (by simp [hk, hf]),
      maskParam_append hmask, maskParam_append hmask k f]
  have hlast : ∀ k : List Char, '&' ∉ k →
      r.maskQuery (k ++ '=' :: (v ++ rest)) = r.maskQuery (k ++ '=' :: rest) := by
    intro k hk
    rcases hrest : splitOnce '&' rest with - | ⟨f, more⟩
    · exact hcore k rest hk (splitOnce_eq_none.mp hrest)
    · obtain ⟨rfl, hf⟩ := splitOnce_eq_some.mp hrest
      have hsame := hcore k f hk hf
      have hleft : k ++ '=' :: (v ++ (f ++ '&' :: more)) = (k ++ '=' :: (v ++ f)) ++ '&' :: more := by
        simp
      have hright : k ++ '=' :: (f ++ '&' :: more) = (k ++ '=' :: f) ++ '&' :: more := by simp
      rw [hleft, hright, maskQuery_append, maskQuery_append, hsame]
  rcases hq : rsplitOnce '&' q with - | ⟨front, k⟩
  · rw [rsplitOnce, Option.map_eq_none_iff, splitOnce_eq_none, List.mem_reverse] at hq
    exact hlast q hq
  · obtain ⟨rfl, hk⟩ := rsplitOnce_eq_some.mp hq
    rw [List.append_assoc, List.append_assoc, List.cons_append, List.cons_append, maskQuery_append,
      maskQuery_append, hlast k hk]

theorem maskQuery_param (hmask : ∀ k, r.masksQueryValue k = true) (p : QueryParam)
    {v : List Char} (hv : '&' ∉ v) (q rest : List Char) :
    r.maskQuery (q ++ (p.text v ++ rest)) = r.maskQuery (q ++ (p.text [] ++ rest)) := by
  rcases p with name | text
  · have hvalue := maskQuery_value hmask (q ++ name) hv rest
    simpa [QueryParam.text] using hvalue
  · rfl

/-- **The query is shown without its values, and also if a text precedes it.** -/
theorem maskQuery_queryText (hmask : ∀ k, r.masksQueryValue k = true) (rest : List Char)
    (params : List QueryParam) {value : ℕ → List Char} (hvalue : ∀ i, '&' ∉ value i)
    (q : List Char) :
    r.maskQuery (q ++ queryText rest params value) =
      r.maskQuery (q ++ queryText rest params fun _ => []) := by
  induction params generalizing value q with
  | nil => rfl
  | cons p params ih =>
    rcases params with - | ⟨p', params⟩
    · exact maskQuery_param hmask p (hvalue 0) q rest
    · have hshift := ih (fun i => hvalue (i + 1)) (q ++ p.text [] ++ ['&'])
      rw [queryText, queryText, maskQuery_param hmask p (hvalue 0)]
      simpa using hshift

end Redactor

/-! ### The text of a URL -/

/-- The text is a part without secrets, a value, and more, in which the values
are masked whatever precedes it. -/
def ReachesValue (lead : List Char) (text : (ℕ → List Char) → List Char) : Prop :=
  ∃ (front : List Char) (k : ℕ) (more : (ℕ → List Char) → List Char), lead = front ++ ['='] ∧
    (∀ value, text value = lead ++ (value k ++ more value)) ∧
    ∀ (r : Redactor), (∀ k, r.masksQueryValue k = true) → ∀ value : ℕ → List Char,
      (∀ i, '&' ∉ value i) → ∀ q, r.maskQuery (q ++ more value) = r.maskQuery (q ++ more fun _ => [])

/-- The query is shown as it leads to its first value, and with the mask if
there is one. -/
theorem queryText_cases (rest : List Char) (params : List QueryParam) :
    (params.any (·.hasValue) = false ∧ ∀ value, queryText rest params value = leadText rest params) ∨
    params.any (·.hasValue) = true ∧ ReachesValue (leadText rest params) (queryText rest params) := by
  induction params with
  | nil => exact .inl ⟨rfl, fun _ => rfl⟩
  | cons p params ih =>
    rcases p with name | text
    · -- the first value is here
      refine .inr ⟨rfl, name, 0, ?_⟩
      rcases params with - | ⟨p', params⟩
      · refine ⟨fun _ => rest, rfl, fun value => ?_, fun r _ value _ q => rfl⟩
        show name ++ '=' :: value 0 ++ rest = name ++ ['='] ++ (value 0 ++ rest)
        simp
      · refine ⟨fun value => '&' :: queryText rest (p' :: params) fun i => value (i + 1), rfl,
          fun value => ?_, fun r hmask value hvalue q => ?_⟩
        · show name ++ '=' :: value 0 ++ _ = name ++ ['='] ++ (value 0 ++ _)
          simp
        · have hshift := r.maskQuery_queryText hmask rest (p' :: params)
            (fun i => hvalue (i + 1)) (q ++ ['&'])
          simpa using hshift
    · rcases params with - | ⟨p', params⟩
      · exact .inl ⟨rfl, fun _ => rfl⟩
      · rcases ih with ⟨hnone, htext⟩ | ⟨hsome, front, k, more, hfront, htext, hmore⟩
        · refine .inl ⟨hnone, fun value => ?_⟩
          show text ++ '&' :: queryText rest (p' :: params) _ = _
          rw [htext]
          rfl
        · refine .inr ⟨hsome, text ++ '&' :: front, k + 1, fun value => more fun i => value (i + 1),
            ?_, fun value => ?_, fun r hmask value hvalue q => ?_⟩
          · show text ++ '&' :: leadText rest (p' :: params) = _
            rw [hfront]
            simp
          · show text ++ '&' :: queryText rest (p' :: params) _ =
              text ++ '&' :: leadText rest (p' :: params) ++ _
            rw [htext]
            simp
          · exact hmore r hmask _ (fun i => hvalue (i + 1)) q

namespace PublicUrl

variable {url : PublicUrl} {r : Redactor}

/-- What follows the host. -/
def afterHost (url : PublicUrl) (value : ℕ → List Char) : List Char := url.path ++ url.tail value

/-- The text is the public part up to a value, the value and more; or there is
no value. -/
theorem afterHost_cases (url : PublicUrl) :
    (url.hasValue = false ∧ ∀ value, url.afterHost value = url.leading) ∨
    url.hasValue = true ∧ ReachesValue url.leading url.afterHost := by
  unfold afterHost tail leading hasValue
  by_cases hnil : url.params = []
  · refine .inl ⟨by rw [hnil]; rfl, fun value => ?_⟩
    rw [if_pos hnil, if_pos hnil]
  · simp only [if_neg hnil]
    rcases queryText_cases url.fragmentText url.params with
      ⟨hnone, htext⟩ | ⟨hsome, front, k, more, hfront, htext, hmore⟩
    · exact .inl ⟨hnone, fun value => by rw [htext]⟩
    · refine .inr ⟨hsome, url.path ++ '?' :: front, k, more, ?_, fun value => ?_, hmore⟩
      · rw [hfront]
        simp
      · show url.path ++ '?' :: queryText url.fragmentText url.params value = _
        rw [htext]
        simp

/-! ### The text shown -/

/-- The userinfo ends at the last `@`. -/
theorem stripUserinfo_append {userinfo host : List Char} (huser : userinfo ≠ [])
    (hhost : '@' ∉ host) : Redactor.stripUserinfo (userinfo ++ '@' :: host) = host := by
  have hsplit : rsplitOnce '@' (userinfo ++ '@' :: host) = some (userinfo, host) :=
    rsplitOnce_eq_some.mpr ⟨rfl, hhost⟩
  rw [Redactor.stripUserinfo, hsplit]
  exact if_neg huser

theorem splitOnceWord_text (url : PublicUrl) (secrets : UrlSecrets) :
    splitOnceWord "://".toList (url.text secrets) =
      some (url.scheme, (secrets.userinfo ++ '@' :: url.host) ++ url.afterHost secrets.value) := by
  have hcolon : ':' ∉ url.scheme := fun h => url.scheme_mem _ h (by decide)
  rw [List.append_assoc, List.cons_append]
  exact @splitOnceWord_append ':' "//".toList _ hcolon _

/-- The userinfo is looked for before the first `/` after the host. -/
theorem redactUrl_text (url : PublicUrl) (secrets : UrlSecrets) :
    r.redactUrl (url.text secrets) = r.redactQueryOnly (url.scheme ++ "://".toList ++
      Redactor.stripUserinfo (secrets.userinfo ++ '@' :: url.host ++
        (url.afterHost secrets.value).takeWhile (· ≠ '/')) ++
      (url.afterHost secrets.value).dropWhile (· ≠ '/')) := by
  have hslash : ∀ c ∈ secrets.userinfo ++ '@' :: url.host, decide (c ≠ '/') = true := by
    intro c hc
    rw [decide_eq_true_eq]
    rintro rfl
    rw [List.mem_append, List.mem_cons] at hc
    rcases hc with hc | hc | hc
    · exact secrets.userinfo_mem _ hc (by decide)
    · exact absurd hc (by decide)
    · exact url.host_mem _ hc (by decide)
  rw [Redactor.redactUrl, splitOnceWord_text]
  simp only [List.takeWhile_append_of_pos hslash, List.dropWhile_append_of_pos hslash]

theorem scheme_no_query (url : PublicUrl) : '?' ∉ url.scheme ++ "://".toList := by
  rw [List.mem_append, not_or]
  exact ⟨fun h => url.scheme_mem _ h (by decide), by decide⟩

/-- No `@` stands before the first `/`: the host is kept, with all after it. -/
theorem redactUrl_of_host {secrets : UrlSecrets}
    (h : '@' ∉ (url.afterHost secrets.value).takeWhile (· ≠ '/')) :
    r.redactUrl (url.text secrets) = url.scheme ++ "://".toList ++
      r.redactQueryOnly (url.host ++ url.afterHost secrets.value) := by
  have hhost : '@' ∉ url.host ++ (url.afterHost secrets.value).takeWhile (· ≠ '/') := by
    rw [List.mem_append, not_or]
    exact ⟨fun hmem => url.host_mem _ hmem (by decide), h⟩
  rw [redactUrl_text, List.append_assoc secrets.userinfo, List.cons_append,
    stripUserinfo_append secrets.userinfo_ne hhost, List.append_assoc, List.append_assoc url.host,
    List.takeWhile_append_dropWhile, Redactor.redactQueryOnly_append url.scheme_no_query]

/-- Otherwise what follows the last such `@` is shown in its place. -/
theorem redactUrl_of_at {secrets : UrlSecrets} {before after : List Char}
    (heq : url.afterHost secrets.value = before ++ '@' :: after) (hbefore : '/' ∉ before)
    (hafter : '@' ∉ after.takeWhile (· ≠ '/')) :
    r.redactUrl (url.text secrets) =
      url.scheme ++ "://".toList ++ r.redactQueryOnly after := by
  have hpos : ∀ c ∈ before ++ ['@'], decide (c ≠ '/') = true := by
    intro c hc
    rw [decide_eq_true_eq]
    rintro rfl
    rcases List.mem_append.mp hc with hc | hc
    · exact hbefore hc
    · exact absurd hc (by decide)
  have hsplit : before ++ '@' :: after = (before ++ ['@']) ++ after := by simp
  have hne : secrets.userinfo ++ '@' :: url.host ++ before ≠ [] := by
    simp
  have hassoc : secrets.userinfo ++ '@' :: url.host ++ (before ++ ['@'] ++ after.takeWhile (· ≠ '/')) =
      (secrets.userinfo ++ '@' :: url.host ++ before) ++ '@' :: after.takeWhile (· ≠ '/') := by
    simp
  rw [redactUrl_text, heq, hsplit, List.takeWhile_append_of_pos hpos,
    List.dropWhile_append_of_pos hpos, hassoc, stripUserinfo_append hne hafter, List.append_assoc,
    List.takeWhile_append_dropWhile, Redactor.redactQueryOnly_append url.scheme_no_query]

theorem authorityOf_append (url : PublicUrl) (s : List Char) :
    authorityOf (url.scheme ++ "://".toList ++ s) = s.takeWhile isAuthorityChar := by
  have hcolon : ':' ∉ url.scheme := fun h => url.scheme_mem _ h (by decide)
  have hsplit : splitOnceWord "://".toList (url.scheme ++ "://".toList ++ s) =
      some (url.scheme, s) := by
    rw [List.append_assoc]
    exact @splitOnceWord_append ':' "//".toList _ hcolon s
  rw [authorityOf, hsplit]

/-- The host is followed by the path, the query, the fragment or nothing. -/
theorem afterHost_head (url : PublicUrl) (value : ℕ → List Char) :
    ∀ c ∈ (url.afterHost value).head?, isAuthorityChar c = false := by
  unfold afterHost tail
  rcases hpath : url.path with - | ⟨d, path⟩
  · rw [List.nil_append]
    split_ifs with hnil
    · rcases hfragment : url.fragment with - | f
      · rw [fragmentText, hfragment]
        nofun
      · rw [fragmentText, hfragment]
        rintro c ⟨⟩
        decide
    · rintro c ⟨⟩
      decide
  · have hhead := url.path_head
    rw [hpath] at hhead
    rintro c ⟨⟩
    rw [hhead d rfl]
    decide

theorem takeWhile_host (url : PublicUrl) (value : ℕ → List Char) :
    (url.host ++ url.afterHost value).takeWhile isAuthorityChar = url.host := by
  have hpos : ∀ c ∈ url.host, isAuthorityChar c = true := by
    intro c hc
    have hmem := url.host_mem c hc
    simp only [List.mem_cons, List.not_mem_nil, or_false, not_or] at hmem
    simp [isAuthorityChar, hmem]
  rw [List.takeWhile_append_of_pos hpos]
  rcases hafter : url.afterHost value with - | ⟨c, cs⟩
  · rw [List.takeWhile_nil, List.append_nil]
  · have hc := url.afterHost_head value c (by rw [hafter]; rfl)
    rw [List.takeWhile_cons_of_neg (by rw [hc]; nofun), List.append_nil]

/-- With the host in place the values do not show. -/
theorem redactQueryOnly_afterHost (hmask : ∀ k, r.masksQueryValue k = true)
    {value : ℕ → List Char} (hvalue : ∀ i, '&' ∉ value i) :
    r.redactQueryOnly (url.host ++ url.afterHost value) =
      r.redactQueryOnly (url.host ++ url.afterHost fun _ => []) := by
  have hfront : '?' ∉ url.host ++ url.path := by
    rw [List.mem_append, not_or]
    exact ⟨fun h => url.host_mem _ h (by decide), fun h => url.path_mem _ h (by decide)⟩
  unfold afterHost tail
  rw [← List.append_assoc, ← List.append_assoc, Redactor.redactQueryOnly_append hfront,
    Redactor.redactQueryOnly_append hfront]
  split_ifs with hnil
  · rfl
  · rw [Redactor.redactQueryOnly_query, Redactor.redactQueryOnly_query]
    have hquery := r.maskQuery_queryText hmask url.fragmentText url.params hvalue []
    rw [List.nil_append, List.nil_append] at hquery
    rw [hquery]

/-! ### What the text depends on -/

/-- The text shown is the same whatever the secrets are, and its authority is
the host alone. -/
def Noninterfering (url : PublicUrl) (r : Redactor) : Prop :=
  ∀ s₁ s₂ : UrlSecrets, r.redactUrl (url.text s₁) = r.redactUrl (url.text s₂) ∧
    authorityOf (r.redactUrl (url.text s₁)) = url.host

/-- Some secrets, with a value for all parameters. -/
def secretsOf (v : List Char) (hv : ∀ c ∈ v, c ∉ ['&', '#']) : UrlSecrets where
  userinfo := ['u']
  value := fun _ => v
  userinfo_ne := List.cons_ne_nil _ _
  userinfo_mem := forall_mem_of_all (by decide)
  value_mem := fun _ => hv

/-- A value before the first `/` may contain the `@`. -/
theorem slash_of_noninterfering (h : url.Noninterfering r) :
    url.hasValue = true → '/' ∈ url.leading := by
  intro hvalue
  by_contra hslash
  rcases url.afterHost_cases with ⟨hnone, -⟩ | ⟨-, front, k, more, -, htext, -⟩
  · rw [hvalue] at hnone
    cases hnone
  · let secrets := secretsOf ['@', '/'] (forall_mem_of_all (by decide))
    have hafter : url.afterHost secrets.value =
        url.leading ++ '@' :: ('/' :: more secrets.value) := htext secrets.value
    have hhost := (h secrets secrets).2
    rw [redactUrl_of_at hafter hslash List.not_mem_nil, authorityOf_append,
      Redactor.takeWhile_redactQueryOnly] at hhost
    exact url.host_ne hhost.symm

/-- The first `/` is found before the first value. -/
theorem takeWhile_append_of_mem {p : Char → Bool} {d : Char} (hd : p d = false) {l : List Char}
    (hmem : d ∈ l) (rest : List Char) : (l ++ rest).takeWhile p = l.takeWhile p := by
  obtain ⟨front, back, rfl⟩ := List.append_of_mem hmem
  have hback : ∀ cs : List Char, (d :: cs).takeWhile p = [] := fun cs =>
    List.takeWhile_cons_of_neg (by rw [hd]; nofun)
  rw [List.append_assoc, List.cons_append, List.takeWhile_append, List.takeWhile_append, hback,
    hback]

theorem takeWhile_afterHost (hslash : url.hasValue = true → '/' ∈ url.leading)
    (value : ℕ → List Char) :
    (url.afterHost value).takeWhile (· ≠ '/') = url.leading.takeWhile (· ≠ '/') := by
  rcases url.afterHost_cases with ⟨-, htext⟩ | ⟨hvalue, front, k, more, -, htext, -⟩
  · rw [htext]
  · rw [htext]
    exact takeWhile_append_of_mem (by decide) (hslash hvalue) _

/-- The text after an `@` before the first `/`, with the values. -/
theorem afterHost_at (hslash : url.hasValue = true → '/' ∈ url.leading) {before after : List Char}
    (hleading : url.leading = before ++ '@' :: after) (hbefore : '/' ∉ before) :
    ∃ shown : (ℕ → List Char) → List Char,
      (∀ value, url.afterHost value = before ++ '@' :: shown value) ∧
      (∀ value, (shown value).takeWhile (· ≠ '/') = after.takeWhile (· ≠ '/')) ∧
      (∀ value, (shown value).takeWhile isAuthorityChar = after.takeWhile isAuthorityChar) ∧
      (url.hasValue = false → ∀ value, shown value = after) ∧
      (url.hasValue = true → ReachesValue after shown) := by
  rcases url.afterHost_cases with ⟨hnone, htext⟩ | ⟨hvalue, front, k, more, hfront, htext, hmore⟩
  · refine ⟨fun _ => after, fun value => ?_, fun _ => rfl, fun _ => rfl, fun _ _ => rfl,
      fun hno => ?_⟩
    · rw [htext, hleading]
    · rw [hnone] at hno
      cases hno
  · have hafter : '/' ∈ after := by
      have hmem := hslash hvalue
      rw [hleading, List.mem_append, List.mem_cons] at hmem
      exact (hmem.resolve_left hbefore).resolve_left (by decide)
    refine ⟨fun value => after ++ (value k ++ more value), fun value => ?_,
      fun value => takeWhile_append_of_mem (by decide) hafter _,
      fun value => takeWhile_append_of_mem (by decide) hafter _, fun hno => ?_, fun _ => ?_⟩
    · rw [htext, hleading]
      simp
    · rw [hvalue] at hno
      cases hno
    · -- the part before the value ends with the `=` after the `@`
      have hne : after ≠ [] := List.ne_nil_of_mem hafter
      have hlast : after.getLast hne = '=' := by
        have heq : (before ++ '@' :: after.dropLast) ++ [after.getLast hne] = front ++ ['='] := by
          rw [List.append_assoc, List.cons_append, List.dropLast_append_getLast, ← hleading, hfront]
        exact List.singleton_inj.mp (List.append_inj_right' heq rfl)
      exact ⟨after.dropLast, k, more, by rw [← hlast, List.dropLast_append_getLast],
        fun _ => rfl, hmore⟩

/-- A text with a query before the value shows no value. -/
theorem redactQueryOnly_reaches (hmask : ∀ k, r.masksQueryValue k = true) {after : List Char}
    {shown : (ℕ → List Char) → List Char} (hreach : ReachesValue after shown)
    (hquery : '?' ∈ after) {value : ℕ → List Char} (hvalue : ∀ i, '&' ∉ value i) :
    r.redactQueryOnly (shown value) = r.redactQueryOnly (shown fun _ => []) := by
  obtain ⟨front, k, more, hfront, htext, hmore⟩ := hreach
  have hmem : '?' ∈ front := by
    rw [hfront, List.mem_append] at hquery
    exact hquery.resolve_right (by decide)
  rcases hsplit : splitOnce '?' front with - | ⟨base, q⟩
  · exact absurd hmem (splitOnce_eq_none.mp hsplit)
  · obtain ⟨rfl, hbase⟩ := splitOnce_eq_some.mp hsplit
    have hshape : ∀ v : ℕ → List Char,
        shown v = base ++ '?' :: (q ++ '=' :: (v k ++ more v)) := by
      intro v
      rw [htext, hfront]
      simp
    have htail := hmore r hmask value hvalue (q ++ ['='])
    rw [List.append_assoc, List.append_assoc, List.singleton_append, List.singleton_append] at htail
    rw [hshape, hshape, Redactor.redactQueryOnly_append hbase, Redactor.redactQueryOnly_append hbase,
      Redactor.redactQueryOnly_query, Redactor.redactQueryOnly_query,
      Redactor.maskQuery_value hmask q (hvalue k), htail]
    rfl

/-- Without one it shows the first value. -/
theorem query_of_reaches {after : List Char} {shown : (ℕ → List Char) → List Char}
    (hreach : ReachesValue after shown)
    (hsame : r.redactQueryOnly (shown fun _ => ['x']) = r.redactQueryOnly (shown fun _ => ['y'])) :
    '?' ∈ after := by
  by_contra hnot
  obtain ⟨front, k, more, -, htext, -⟩ := hreach
  have hshape : ∀ c : Char, c ≠ '?' → r.redactQueryOnly (shown fun _ => [c]) =
      after ++ [c] ++ r.redactQueryOnly (more fun _ => [c]) := by
    intro c hc
    have hfront : '?' ∉ after ++ [c] := by simp [hnot, hc.symm]
    rw [htext, ← List.append_assoc, Redactor.redactQueryOnly_append hfront]
  rw [hshape 'x' (by decide), hshape 'y' (by decide), List.append_assoc, List.append_assoc,
    List.append_cancel_left_eq, List.singleton_append, List.singleton_append,
    List.cons.injEq] at hsame
  exact absurd hsame.1 (by decide)

theorem takeWhile_dropWhile_nil (p : Char → Bool) (l : List Char) :
    (l.dropWhile p).takeWhile p = [] := by
  rcases h : l.dropWhile p with - | ⟨c, cs⟩
  · rfl
  · have hc := List.head?_dropWhile_not p l
    rw [h] at hc
    exact List.takeWhile_cons_of_neg (by simpa using hc)

/-- The last `@` before the first `/`. -/
theorem exists_last_at {l : List Char} (h : '@' ∈ l.takeWhile (· ≠ '/')) :
    ∃ before after, l = before ++ '@' :: after ∧ '/' ∉ before ∧
      '@' ∉ after.takeWhile (· ≠ '/') := by
  rcases hsplit : rsplitOnce '@' (l.takeWhile (· ≠ '/')) with - | ⟨before, b⟩
  · rw [rsplitOnce, Option.map_eq_none_iff, splitOnce_eq_none, List.mem_reverse] at hsplit
    exact absurd h hsplit
  · obtain ⟨heq, hb⟩ := rsplitOnce_eq_some.mp hsplit
    have hslash : ∀ c ∈ before ++ '@' :: b, decide (c ≠ '/') = true := by
      rw [← heq]
      exact fun c hc => List.mem_takeWhile_imp (p := fun c => decide (c ≠ '/')) hc
    have hbefore : '/' ∉ before := fun hmem =>
      absurd (hslash _ (List.mem_append_left _ hmem)) (by decide)
    have hpos : ∀ c ∈ b, decide (c ≠ '/') = true := fun c hc =>
      hslash c (List.mem_append_right _ (List.mem_cons_of_mem _ hc))
    refine ⟨before, b ++ l.dropWhile (· ≠ '/'), ?_, hbefore, ?_⟩
    · rw [← List.cons_append, ← List.append_assoc, ← heq, List.takeWhile_append_dropWhile]
    · rw [List.takeWhile_append_of_pos hpos, takeWhile_dropWhile_nil, List.append_nil]
      exact hb

/-- **The text shown hides the secrets exactly if the URL is redactable.** -/
theorem noninterfering_iff (hmask : ∀ k, r.masksQueryValue k = true) :
    url.Noninterfering r ↔ url.Redactable := by
  constructor
  · intro h
    refine ⟨slash_of_noninterfering h, ?_⟩
    by_cases hat : '@' ∈ url.leading.takeWhile (· ≠ '/')
    · obtain ⟨before, after, hleading, hbefore, hafter⟩ := exists_last_at hat
      obtain ⟨shown, htext, hseg, hauthority, -, hreach⟩ :=
        afterHost_at (slash_of_noninterfering h) hleading hbefore
      have hred : ∀ secrets : UrlSecrets, r.redactUrl (url.text secrets) =
          url.scheme ++ "://".toList ++ r.redactQueryOnly (shown secrets.value) := fun secrets =>
        redactUrl_of_at (htext secrets.value) hbefore (by rw [hseg]; exact hafter)
      refine .inr ⟨before, after, hleading, hbefore, hafter, ?_, fun hvalue => ?_⟩
      · have hhost := (h (secretsOf [] nofun) (secretsOf [] nofun)).2
        rwa [hred, authorityOf_append, Redactor.takeWhile_redactQueryOnly, hauthority] at hhost
      · have hsame := (h (secretsOf ['x'] (forall_mem_of_all (by decide))) (secretsOf ['y'] (forall_mem_of_all (by decide)))).1
        rw [hred, hred, List.append_cancel_left_eq] at hsame
        exact query_of_reaches (hreach hvalue) hsame
    · exact .inl hat
  · rintro ⟨hslash, hat⟩ s₁ s₂
    have hamp : ∀ s : UrlSecrets, ∀ i, '&' ∉ s.value i := fun s i hmem =>
      s.value_mem i _ hmem (by decide)
    rcases hat with hat | ⟨before, after, hleading, hbefore, hafter, hhost, hquery⟩
    · have hred : ∀ s : UrlSecrets, r.redactUrl (url.text s) = url.scheme ++ "://".toList ++
          r.redactQueryOnly (url.host ++ url.afterHost s.value) := fun s =>
        redactUrl_of_host (by rw [takeWhile_afterHost hslash]; exact hat)
      refine ⟨?_, ?_⟩
      · rw [hred, hred, redactQueryOnly_afterHost hmask (hamp s₁),
          redactQueryOnly_afterHost hmask (hamp s₂)]
      · rw [hred, authorityOf_append, Redactor.takeWhile_redactQueryOnly, takeWhile_host]
    · obtain ⟨shown, htext, hseg, hauthority, hnone, hreach⟩ :=
        afterHost_at hslash hleading hbefore
      have hred : ∀ secrets : UrlSecrets, r.redactUrl (url.text secrets) =
          url.scheme ++ "://".toList ++ r.redactQueryOnly (shown secrets.value) := fun secrets =>
        redactUrl_of_at (htext secrets.value) hbefore (by rw [hseg]; exact hafter)
      refine ⟨?_, ?_⟩
      · rw [hred, hred]
        rcases hvalue : url.hasValue with - | -
        · rw [hnone hvalue, hnone hvalue]
        · rw [redactQueryOnly_reaches hmask (hreach hvalue) (hquery hvalue) (hamp s₁),
            redactQueryOnly_reaches hmask (hreach hvalue) (hquery hvalue) (hamp s₂)]
      · rw [hred, authorityOf_append, Redactor.takeWhile_redactQueryOnly, hauthority, hhost]

end PublicUrl

/-! ### The default policy -/

/-- The two ways of taking the user out of an authority agree. -/
theorem withoutUserinfo_eq (authority : List Char) :
    redactedUrl.withoutUserinfo authority = Redactor.stripUserinfo authority := by
  unfold redactedUrl.withoutUserinfo Redactor.stripUserinfo
  rcases hsplit : rsplitOnce '@' authority with - | ⟨userinfo, host⟩
  · rw [rsplitOnce, Option.map_eq_none_iff, splitOnce_eq_none] at hsplit
    have hall : ∀ c ∈ authority.reverse, decide (c ≠ '@') = true := by
      intro c hc
      rw [decide_eq_true_eq]
      rintro rfl
      exact hsplit hc
    have hwhole : authority.reverse.takeWhile (· ≠ '@') = authority.reverse :=
      List.takeWhile_eq_self_iff.mpr hall
    simp only [hwhole, List.reverse_reverse]
    exact if_pos (Nat.le_succ _)
  · obtain ⟨rfl, hhost⟩ := rsplitOnce_eq_some.mp hsplit
    have hall : ∀ c ∈ host.reverse, decide (c ≠ '@') = true := by
      intro c hc
      rw [decide_eq_true_eq]
      rintro rfl
      exact hhost (List.mem_reverse.mp hc)
    have hend : (userinfo ++ '@' :: host).reverse.takeWhile (· ≠ '@') = host.reverse := by
      rw [List.reverse_append, List.reverse_cons, List.append_assoc,
        List.takeWhile_append_of_pos hall, List.singleton_append,
        List.takeWhile_cons_of_neg (by decide), List.append_nil]
    simp only [hend, List.reverse_reverse]
    rcases userinfo with - | ⟨d, userinfo⟩
    · rw [if_pos (by simp), if_pos rfl]
    · rw [if_neg (by simp; omega), if_neg (List.cons_ne_nil d userinfo)]

/-- The diagnostics of the redirects are texts of the default redactor. -/
theorem redactedUrl_eq (url : List Char) : redactedUrl url = Redactor.new.redactUrl url := by
  have hparam : KDown.redactQueryOnly.maskValue = Redactor.new.maskParam := by
    funext kv
    rfl
  have hquery : ∀ s, KDown.redactQueryOnly s = Redactor.new.redactQueryOnly s := by
    intro s
    rw [KDown.redactQueryOnly, hparam]
    rfl
  unfold redactedUrl Redactor.redactUrl
  rcases splitOnceWord "://".toList url with - | ⟨scheme, rest⟩
  · exact hquery url
  · simp only [hquery, withoutUserinfo_eq]

/-- Every value is masked, and registered names add nothing. -/
theorem Redactor.masksQueryValue_new (names : List (List Char)) (k : List Char) :
    (Redactor.new.withSensitiveQueryParams names).masksQueryValue k = true := rfl

/-- **Noninterference of redacted URLs.**  Under the default policy the text
shown for a URL depends on no secret and keeps the host exactly when the URL is
`Redactable`. -/
theorem redactUrl_noninterference_iff (names : List (List Char)) (url : PublicUrl) :
    (∀ s₁ s₂ : UrlSecrets,
      let shown := fun s => (Redactor.new.withSensitiveQueryParams names).redactUrl (url.text s)
      shown s₁ = shown s₂ ∧ authorityOf (shown s₁) = url.host) ↔ url.Redactable :=
  PublicUrl.noninterfering_iff (Redactor.masksQueryValue_new names)

/-- A URL with a path is shown without its secrets. -/
theorem PublicUrl.redactable_of_path {url : PublicUrl} (h : url.path ≠ []) : url.Redactable := by
  obtain ⟨d, path, hpath⟩ := List.exists_cons_of_ne_nil h
  have hd : d = '/' := url.path_head d (by rw [hpath]; rfl)
  have hleading : ∃ rest, url.leading = '/' :: rest := by
    rw [leading, hpath, hd]
    exact ⟨_, rfl⟩
  obtain ⟨rest, hleading⟩ := hleading
  refine ⟨fun _ => ?_, .inl ?_⟩
  · rw [hleading]
    exact List.mem_cons_self
  · rw [hleading, List.takeWhile_cons_of_neg (by decide)]
    exact List.not_mem_nil

/-- `https://example.com` with a query of one parameter, and no path. -/
def hostWithQuery : PublicUrl where
  scheme := "https".toList
  host := "example.com".toList
  path := []
  params := [.named "next".toList]
  fragment := none
  scheme_mem := forall_mem_of_all (by decide)
  host_mem := forall_mem_of_all (by decide)
  host_ne := by decide
  path_mem := nofun
  path_head := nofun
  params_mem := List.forall_mem_singleton.mpr (forall_mem_of_all (by decide))

/-- The host is taken for a part of the userinfo, and the value for the host. -/
theorem host_dropped_with_userinfo :
    let shown := fun s => Redactor.new.redactUrl (hostWithQuery.text s)
    (∃ s₁ s₂, shown s₁ = "https://evil".toList ∧
      shown s₂ = "https://example.com?next=REDACTED".toList) ∧
    ¬ ∀ s₁ s₂, shown s₁ = shown s₂ ∧ authorityOf (shown s₁) = hostWithQuery.host := by
  intro shown
  let s₁ := PublicUrl.secretsOf "bob@evil".toList (forall_mem_of_all (by decide))
  let s₂ := PublicUrl.secretsOf "bob".toList (forall_mem_of_all (by decide))
  have h₁ : shown s₁ = "https://evil".toList := by decide +kernel
  have h₂ : shown s₂ = "https://example.com?next=REDACTED".toList := by decide +kernel
  refine ⟨⟨s₁, s₂, h₁, h₂⟩, fun h => ?_⟩
  have hsame := (h s₁ s₂).1
  rw [h₁, h₂] at hsame
  exact absurd hsame (by decide)

end KDown

/-
KDown/Validators.lean

Resource validators and response heads (http/validators.rs and the response
metadata of http/execution.rs).

A response head is a status and a list of header fields.  `fromHead` reads
the `Content-Range`, the entity tag, the modification date and the total size
out of it; the total is the one of `Content-Range` when that header parses and
the `Content-Length` otherwise.

Header values reach this code as visible ASCII, so trimming is about blanks
and tabs only.  Numbers are parsed as the standard library parses a `u64`: an
optional `+`, at least one digit, no overflow.
-/
import KDown.IntervalSet

namespace KDown

/-! ### Text -/

/-- `str::trim`. -/
def trimText (cs : List Char) : List Char :=
  ((cs.dropWhile Char.isWhitespace).reverse.dropWhile Char.isWhitespace).reverse

/-- Split at the first occurrence of a character. -/
def splitOnce (c : Char) : List Char → Option (List Char × List Char)
  | [] => none
  | d :: cs =>
      if d = c then some ([], cs)
      else (splitOnce c cs).map fun p => (d :: p.1, p.2)

/-- What follows `word` at the start of the text. -/
def afterWord : List Char → List Char → Option (List Char)
  | [], cs => some cs
  | _ :: _, [] => none
  | w :: word, c :: cs => if w = c then afterWord word cs else none

/-- The value of decimal digits. -/
def digitsValue (cs : List Char) : ℕ :=
  cs.foldl (fun n c => n * 10 + (c.toNat - '0'.toNat)) 0

/-- Parse a 64-bit number. -/
def parseU64 (cs : List Char) : Option ℕ :=
  -- a leading plus sign is accepted, as by the standard parser
  let digits := match cs with
    | '+' :: rest => rest
    | _ => cs
  if digits.isEmpty || !digits.all Char.isDigit then none
  else if digitsValue digits ≤ u64Max then some (digitsValue digits)
  else none

/-- `str::eq_ignore_ascii_case`. -/
def eqIgnoreAsciiCase (a b : String) : Bool :=
  a.toList.map Char.toLower = b.toList.map Char.toLower

/-! ### Validators -/

/-- The strongest available identity of the remote representation. -/
structure ResourceValidators where
  etag : Option String
  etagIsWeak : Bool
  lastModified : Option String
  totalSize : Option ℕ
  deriving DecidableEq, Repr

/-- Split an entity tag into the opaque tag and the weak flag. -/
def parseEtag (v : String) : Option String × Bool :=
  let cs := trimText v.toList
  match afterWord "W/".toList cs with
  | some rest => (some (String.ofList (trimText rest)), true)
  | none => (some (String.ofList cs), false)

namespace ResourceValidators

/-- Capture from response headers. -/
def fromHeaders (etag lastModified : Option String) (contentLength : Option ℕ) :
    ResourceValidators :=
  let tag := (etag.map parseEtag).getD (none, false)
  { etag := tag.1
    etagIsWeak := tag.2
    lastModified := lastModified
    totalSize := contentLength }

/-- Compare with a freshly probed set.  Absent fields are no evidence. -/
def sameGeneration (v other : ResourceValidators) : Except String Unit :=
  match differs v.etag other.etag with
  | some (a, b) => .error s!"ETag changed: {a} -> {b}"
  | none =>
    match differs v.lastModified other.lastModified with
    | some (a, b) => .error s!"Last-Modified changed: {a} -> {b}"
    | none =>
      match differs v.totalSize other.totalSize with
      | some (a, b) => .error s!"total size changed: {a} -> {b}"
      | none => .ok ()
where
  /-- Both present and different. -/
  differs {α : Type} [DecidableEq α] : Option α → Option α → Option (α × α)
    | some a, some b => if a ≠ b then some (a, b) else none
    | _, _ => none

/-- Whether the saved set offers comparable evidence: a pair of strong tags,
or, when the saved set has none, a pair of modification dates.  The values were
compared by `sameGeneration` before. -/
def comparableGeneration (v current : ResourceValidators) : Except String Unit :=
  if v.etag.isSome && !v.etagIsWeak then
    if current.etag.isSome && !current.etagIsWeak then .ok ()
    else .error "saved strong ETag has no comparable current ETag"
  else if v.lastModified.isSome then
    if current.lastModified.isSome then .ok ()
    else .error "saved Last-Modified has no comparable current value"
  else .error "checkpoint carries no strong ETag or Last-Modified"

/-- Two optional values do not contradict each other. -/
def Agree {α : Type} (a b : Option α) : Prop := ∀ x y, a = some x → b = some y → x = y

/-- No field present on both sides differs. -/
structure Consistent (v other : ResourceValidators) : Prop where
  etag : Agree v.etag other.etag
  lastModified : Agree v.lastModified other.lastModified
  totalSize : Agree v.totalSize other.totalSize

theorem differs_eq_none {α : Type} [DecidableEq α] {a b : Option α} :
    sameGeneration.differs a b = none ↔ Agree a b := by
  unfold sameGeneration.differs Agree
  rcases a with - | a <;> rcases b with - | b <;> simp

/-- The comparison accepts exactly the sets without a contradiction. -/
theorem sameGeneration_eq_ok {v other : ResourceValidators} :
    v.sameGeneration other = .ok () ↔ v.Consistent other := by
  unfold sameGeneration
  constructor
  · intro h
    -- the fields are compared in order, and the first difference is reported
    rcases e₁ : sameGeneration.differs v.etag other.etag with - | p <;>
      simp only [e₁] at h
    · rcases e₂ : sameGeneration.differs v.lastModified other.lastModified with - | p <;>
        simp only [e₂] at h
      · rcases e₃ : sameGeneration.differs v.totalSize other.totalSize with - | p <;>
          simp only [e₃] at h
        · exact ⟨differs_eq_none.mp e₁, differs_eq_none.mp e₂, differs_eq_none.mp e₃⟩
        · cases h
      · cases h
    · cases h
  · intro h
    simp only [differs_eq_none.mpr h.etag, differs_eq_none.mpr h.lastModified,
      differs_eq_none.mpr h.totalSize]

/-- What comparable evidence is. -/
theorem comparableGeneration_eq_ok {v current : ResourceValidators} :
    v.comparableGeneration current = .ok () ↔
      ((v.etag.isSome ∧ v.etagIsWeak = false) ∧
        current.etag.isSome ∧ current.etagIsWeak = false) ∨
      (¬ (v.etag.isSome ∧ v.etagIsWeak = false) ∧
        v.lastModified.isSome ∧ current.lastModified.isSome) := by
  unfold comparableGeneration
  simp only [Bool.and_eq_true, Bool.not_eq_true']
  split_ifs <;> simp_all

/-- The `If-Range` value of a resume request: the strong tag when available,
otherwise the modification date. -/
def ifRangeValue (v : ResourceValidators) : Option String :=
  match v.etag, v.etagIsWeak with
  | some etag, false => some etag
  | _, _ => v.lastModified

end ResourceValidators

/-! ### Response heads -/

/-- A parsed `Content-Range: bytes S-E/TOTAL`. -/
structure ContentRange where
  start : ℕ
  /-- Inclusive end. -/
  stop : ℕ
  /-- Absent when the server sends `*`. -/
  total : Option ℕ
  deriving DecidableEq, Repr

/-- Parse failures carry the offending input. -/
def parseContentRange (v : String) : Except String ContentRange :=
  match contentRangeOf (trimText v.toList) with
  | some cr => if cr.stop < cr.start then .error v else .ok cr
  | none => .error v
where
  totalOf (t : List Char) : Option (Option ℕ) :=
    if t = ['*'] then some none else (parseU64 t).map some
  contentRangeOf (cs : List Char) : Option ContentRange := do
    let rest ← afterWord "bytes ".toList cs
    let (rangePart, totalPart) ← splitOnce '/' rest
    let (startS, endS) ← splitOnce '-' rangePart
    let start ← parseU64 (trimText startS)
    let stop ← parseU64 (trimText endS)
    let total ← totalOf (trimText totalPart)
    return { start := start, stop := stop, total := total }

/-- Header fields in order of arrival. -/
abbrev Headers := List (String × String)

/-- Case-insensitive header lookup: the first field of that name. -/
def Headers.header (headers : Headers) (name : String) : Option String :=
  (headers.find? fun h => eqIgnoreAsciiCase h.1 name).map Prod.snd

/-- The metadata carrier of a response. -/
structure ResponseMetadata where
  status : ℕ
  headers : Headers
  contentRange : Option ContentRange
  validators : ResourceValidators
  totalSize : Option ℕ
  deriving DecidableEq, Repr

namespace ResponseMetadata

/-- Build from a status and a header list. -/
def fromHead (status : ℕ) (headers : Headers) : ResponseMetadata :=
  let contentRange := (headers.header "content-range").bind fun v => (parseContentRange v).toOption
  -- the total of a partial response is that of its range, even when it is `*`
  let totalSize :=
    match contentRange with
    | some cr => cr.total
    | none => (headers.header "content-length").bind fun v => parseU64 v.toList
  { status := status
    headers := headers
    contentRange := contentRange
    validators := .fromHeaders (headers.header "etag") (headers.header "last-modified") totalSize
    totalSize := totalSize }

/-- The total of a head with a `Content-Range` is the total of that range. -/
theorem fromHead_totalSize {status : ℕ} {headers : Headers} {cr : ContentRange}
    (h : (fromHead status headers).contentRange = some cr) :
    (fromHead status headers).totalSize = cr.total := by
  simp only [fromHead] at h ⊢
  rw [h]

/-- A `Content-Range` that was read is not empty. -/
theorem contentRange_le {status : ℕ} {headers : Headers} {cr : ContentRange}
    (h : (fromHead status headers).contentRange = some cr) : cr.start ≤ cr.stop := by
  obtain ⟨v, -, hv⟩ := Option.bind_eq_some_iff.mp h
  rw [parseContentRange] at hv
  split at hv
  · split_ifs at hv with hlt
    · cases hv
    · cases hv
      exact not_lt.mp hlt
  · cases hv

end ResponseMetadata

end KDown

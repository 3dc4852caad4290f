/-
KDown/CheckpointJson.lean

The serialized checkpoint and its estimated size (resume/checkpoint.rs).

`toJson` writes the fields in the order of the source; the two URLs are never
written and are not part of the model.  `checkedSerializedSize` is meant to
bound its length from above, field by field.  It counts neither the job id,
nor the digits of the format version, nor the total size inside the
validators: these have to fit in what is left of the fixed overhead, where the
keys and the punctuation take 247 of 512 bytes, and of the other fields'
allowances.

* `serialized_size_bound`: the estimate is an upper bound exactly when they
  do.
-/
import KDown.Checkpoint
import KDown.IntervalSetWords
import KDown.JsonText

namespace KDown

open JsonText

/-! ### The text -/

/-- The validators as an object. -/
def ResourceValidators.json (v : ResourceValidators) : List Char :=
  object [("etag", option text v.etag), ("etag_is_weak", bool v.etagIsWeak),
    ("last_modified", option text v.lastModified), ("total_size", option number v.totalSize)]

/-- A range is a pair, which is written as an array. -/
def rangeJson (r : ByteRange) : List Char := array [number r.1, number r.2]

/-- A digest as an object. -/
def ExpectedDigest.json (d : ExpectedDigest) : List Char :=
  object [("algorithm", text d.algorithm), ("hex", text d.hex)]

namespace Checkpoint

/-- The fields in the order of the source. -/
def json (cp : Checkpoint) : List Char :=
  object [("format_version", number cp.formatVersion), ("job_id", text cp.jobId),
    ("temp_path_identity", text cp.tempPathIdentity),
    ("owned_temp_identity", option text cp.ownedTempIdentity),
    ("covered_digest", option text cp.coveredDigest),
    ("total_size", option number cp.totalSize), ("validators", cp.validators.json),
    ("completed_ranges", array (cp.completedRanges.map rangeJson)),
    ("expected_hashes", array (cp.expectedHashes.map ExpectedDigest.json)),
    ("created_at", text cp.createdAt), ("updated_at", text cp.updatedAt)]

/-- Serialize to JSON. -/
def toJson (cp : Checkpoint) : String := String.ofList cp.json

end Checkpoint

theorem ResourceValidators.size_json (v : ResourceValidators) :
    size v.json = 56 + size (option text v.etag) + size (bool v.etagIsWeak) +
      size (option text v.lastModified) + size (option number v.totalSize) := by
  have h := size_object [("etag", option text v.etag), ("etag_is_weak", bool v.etagIsWeak),
    ("last_modified", option text v.lastModified), ("total_size", option number v.totalSize)]
  have h₁ : size (text "etag") = 6 := rfl
  have h₂ : size (text "etag_is_weak") = 14 := rfl
  have h₃ : size (text "last_modified") = 15 := rfl
  have h₄ : size (text "total_size") = 12 := rfl
  simp only [List.map_cons, List.map_nil, List.sum_cons, List.sum_nil, List.isEmpty_cons,
    Bool.false_eq_true, if_false, h₁, h₂, h₃, h₄] at h
  rw [ResourceValidators.json]
  omega

theorem size_rangeJson (r : ByteRange) :
    size (rangeJson r) = 3 + size (number r.1) + size (number r.2) := by
  have h := size_array [number r.1, number r.2]
  simp only [List.map_cons, List.map_nil, List.sum_cons, List.sum_nil, List.isEmpty_cons,
    Bool.false_eq_true, if_false] at h
  rw [rangeJson]
  omega

theorem ExpectedDigest.size_json (d : ExpectedDigest) :
    size d.json = 21 + size (text d.algorithm) + size (text d.hex) := by
  have h := size_object [("algorithm", text d.algorithm), ("hex", text d.hex)]
  have h₁ : size (text "algorithm") = 11 := rfl
  have h₂ : size (text "hex") = 5 := rfl
  simp only [List.map_cons, List.map_nil, List.sum_cons, List.sum_nil, List.isEmpty_cons,
    Bool.false_eq_true, if_false, h₁, h₂] at h
  rw [ExpectedDigest.json]
  omega

/-- **The size of the document**, field by field; 187 bytes are names and
punctuation. -/
theorem Checkpoint.size_json (cp : Checkpoint) :
    size cp.json = 187 + size (number cp.formatVersion) + size (text cp.jobId) +
      size (text cp.tempPathIdentity) + size (option text cp.ownedTempIdentity) +
      size (option text cp.coveredDigest) + size (option number cp.totalSize) +
      size cp.validators.json + size (array (cp.completedRanges.map rangeJson)) +
      size (array (cp.expectedHashes.map ExpectedDigest.json)) + size (text cp.createdAt) +
      size (text cp.updatedAt) := by
  have h := size_object [("format_version", number cp.formatVersion), ("job_id", text cp.jobId),
    ("temp_path_identity", text cp.tempPathIdentity),
    ("owned_temp_identity", option text cp.ownedTempIdentity),
    ("covered_digest", option text cp.coveredDigest),
    ("total_size", option number cp.totalSize), ("validators", cp.validators.json),
    ("completed_ranges", array (cp.completedRanges.map rangeJson)),
    ("expected_hashes", array (cp.expectedHashes.map ExpectedDigest.json)),
    ("created_at", text cp.createdAt), ("updated_at", text cp.updatedAt)]
  have h₁ : size (text "format_version") = 16 := rfl
  have h₂ : size (text "job_id") = 8 := rfl
  have h₃ : size (text "temp_path_identity") = 20 := rfl
  have h₄ : size (text "owned_temp_identity") = 21 := rfl
  have h₅ : size (text "covered_digest") = 16 := rfl
  have h₆ : size (text "total_size") = 12 := rfl
  have h₇ : size (text "validators") = 12 := rfl
  have h₈ : size (text "completed_ranges") = 18 := rfl
  have h₉ : size (text "expected_hashes") = 17 := rfl
  have h₁₀ : size (text "created_at") = 12 := rfl
  have h₁₁ : size (text "updated_at") = 12 := rfl
  simp only [List.map_cons, List.map_nil, List.sum_cons, List.sum_nil, List.isEmpty_cons,
    Bool.false_eq_true, if_false, h₁, h₂, h₃, h₄, h₅, h₆, h₇, h₈, h₉, h₁₀, h₁₁] at h
  rw [Checkpoint.json]
  omega

/-! ### Allowances -/

/-- What an optional string leaves of its worst case. -/
def spareOption : Option String → ℕ
  | some s => spareBytes s
  | none => 0

/-- What ranges of 64-bit numbers leave of 48 bytes each. -/
def spareRanges (l : List ByteRange) : ℕ :=
  (if l.isEmpty then 0 else 1) +
    (l.map fun r => 44 - (size (number r.1) + size (number r.2))).sum

/-- What digests leave of two worst-case strings and 64 bytes each. -/
def spareDigests (l : List ExpectedDigest) : ℕ :=
  (if l.isEmpty then 0 else 1) +
    (l.map fun d => 42 + spareBytes d.algorithm + spareBytes d.hex).sum

/-- Ranges are counted with 48 bytes each, of which the short ones leave some
spare. -/
theorem size_ranges {l : List ByteRange} (hl : ∀ r ∈ l, r.1 ≤ u64Max ∧ r.2 ≤ u64Max) :
    size (array (l.map rangeJson)) + spareRanges l = 2 + l.length * 48 := by
  have h := size_array (l.map rangeJson)
  have hsum : ((l.map rangeJson).map fun item => size item + 1).sum +
      (l.map fun r => 44 - (size (number r.1) + size (number r.2))).sum = l.length * 48 := by
    clear h
    induction l with
    | nil => rfl
    | cons r l ih =>
      obtain ⟨h₁, h₂⟩ := hl r (List.mem_cons_self ..)
      have hd₁ := size_number_le (Nat.lt_succ_of_le h₁)
      have hd₂ := size_number_le (Nat.lt_succ_of_le h₂)
      have ih := ih fun x hx => hl x (List.mem_cons_of_mem _ hx)
      simp only [List.map_cons, List.sum_cons, size_rangeJson, List.length_cons] at ih ⊢
      omega
  rw [List.isEmpty_map] at h
  rw [spareRanges]
  omega

/-- Digests are counted as if every character of them were escaped. -/
theorem size_digests (l : List ExpectedDigest) :
    size (array (l.map ExpectedDigest.json)) + spareDigests l =
      2 + (l.map fun d => d.algorithm.utf8ByteSize * 6 + 2 + (d.hex.utf8ByteSize * 6 + 2) + 64).sum := by
  have h := size_array (l.map ExpectedDigest.json)
  have hsum : ((l.map ExpectedDigest.json).map fun item => size item + 1).sum +
      (l.map fun d => 42 + spareBytes d.algorithm + spareBytes d.hex).sum =
        (l.map fun d =>
          d.algorithm.utf8ByteSize * 6 + 2 + (d.hex.utf8ByteSize * 6 + 2) + 64).sum := by
    clear h
    induction l with
    | nil => rfl
    | cons d l ih =>
      have ha := size_text d.algorithm
      have hh := size_text d.hex
      simp only [List.map_cons, List.sum_cons, ExpectedDigest.size_json] at ih ⊢
      omega
  rw [List.isEmpty_map] at h
  rw [spareDigests]
  omega

/-- The worst case of an optional string. -/
def optionCost : Option String → ℕ
  | some s => s.utf8ByteSize * 6 + 2
  | none => 4

theorem size_option (o : Option String) : size (option text o) + spareOption o = optionCost o := by
  rcases o with - | s
  · rfl
  · exact size_text s

/-! ### The estimate -/

namespace Checkpoint

/-- The costs that are added up, as numbers. -/
def costs (cp : Checkpoint) : List ℕ :=
  [cp.tempPathIdentity.utf8ByteSize * 6 + 2, cp.createdAt.utf8ByteSize * 6 + 2,
    cp.updatedAt.utf8ByteSize * 6 + 2, optionCost cp.ownedTempIdentity,
    optionCost cp.coveredDigest, optionCost cp.validators.etag,
    optionCost cp.validators.lastModified, if cp.validators.etagIsWeak then 4 else 5, 20,
    cp.completedRanges.length * 48] ++
  cp.expectedHashes.flatMap fun d =>
    [d.algorithm.utf8ByteSize * 6 + 2, d.hex.utf8ByteSize * 6 + 2, 64]

/-- A cost that is not an overflow has this value. -/
def Costs (cost : Except CheckpointError ℕ) (value : ℕ) : Prop := ∀ x, cost = .ok x → x = value

theorem costs_checkedSize (n : ℕ) : Costs (checkedSize n) n := by
  intro x h
  unfold checkedSize at h
  split_ifs at h
  exact (Except.ok.inj h).symm

theorem costs_ok (n : ℕ) : Costs (.ok n) n := fun _ h => (Except.ok.inj h).symm

theorem costs_option (o : Option String) : Costs (jsonOptionalString o) (optionCost o) := by
  rcases o with - | s
  · exact costs_ok 4
  · exact costs_checkedSize _

theorem serializedCosts_costs (cp : Checkpoint) : List.Forall₂ Costs cp.serializedCosts cp.costs := by
  refine List.rel_append ?_ ?_
  · refine .cons (costs_checkedSize _) (.cons (costs_checkedSize _) (.cons (costs_checkedSize _)
      (.cons (costs_option _) (.cons (costs_option _) (.cons (costs_option _)
      (.cons (costs_option _) (.cons (costs_ok _) (.cons (costs_ok _)
      (.cons (costs_checkedSize _) .nil)))))))))
  · induction cp.expectedHashes with
    | nil => exact .nil
    | cons d l ih =>
      exact .cons (costs_checkedSize _) (.cons (costs_checkedSize _) (.cons (costs_ok _) ih))

/-- A sum that did not overflow is the sum. -/
theorem sum_of_foldlM {costs : List (Except CheckpointError ℕ)} {values : List ℕ}
    (h : List.Forall₂ Costs costs values) {first n : ℕ}
    (hok : costs.foldlM (fun total cost => cost.bind fun value => checkedSize (total + value)) first
      = .ok n) : n = first + values.sum := by
  induction h generalizing first with
  | nil => exact (Except.ok.inj hok).symm
  | @cons cost value costs values hcost _ ih =>
    rw [List.foldlM_cons] at hok
    rcases cost with e | v
    · cases hok
    · rw [← hcost v rfl, List.sum_cons]
      rcases hsize : checkedSize (first + v) with e | t
      · simp only [Except.bind, hsize] at hok
        cases hok
      · have ht := costs_checkedSize (first + v) t hsize
        simp only [Except.bind, hsize] at hok
        rw [ih hok, ht, add_assoc]

theorem checkedSerializedSize_eq {cp : Checkpoint} {n : ℕ} (h : cp.checkedSerializedSize = .ok n) :
    n = 512 + cp.costs.sum :=
  sum_of_foldlM cp.serializedCosts_costs h

theorem sum_flatMap_digests (l : List ExpectedDigest) :
    (l.flatMap fun d => [d.algorithm.utf8ByteSize * 6 + 2, d.hex.utf8ByteSize * 6 + 2, 64]).sum =
      (l.map fun d => d.algorithm.utf8ByteSize * 6 + 2 + (d.hex.utf8ByteSize * 6 + 2) + 64).sum := by
  induction l with
  | nil => rfl
  | cons d l ih =>
    simp only [List.flatMap_cons, List.map_cons, List.sum_cons, List.cons_append, List.nil_append,
      ih]
    omega

/-! ### When the estimate is an upper bound -/

/-- The sizes and offsets of a checkpoint are 64-bit numbers. -/
structure MachineSized (cp : Checkpoint) : Prop where
  totalSize : ∀ n, cp.totalSize = some n → n ≤ u64Max
  ranges : ∀ r ∈ cp.completedRanges, r.1 ≤ u64Max ∧ r.2 ≤ u64Max

/-- The fields that the estimate does not count. -/
def uncounted (cp : Checkpoint) : ℕ :=
  size (text cp.jobId) + size (number cp.formatVersion) +
    size (option number cp.validators.totalSize)

/-- What the counted fields leave of their allowances. -/
def spare (cp : Checkpoint) : ℕ :=
  spareBytes cp.tempPathIdentity + spareBytes cp.createdAt + spareBytes cp.updatedAt +
    spareOption cp.ownedTempIdentity + spareOption cp.coveredDigest +
    spareOption cp.validators.etag + spareOption cp.validators.lastModified +
    (20 - size (option number cp.totalSize)) + spareRanges cp.completedRanges +
    spareDigests cp.expectedHashes

/-- The text and the estimate, both counted out. -/
theorem size_balance {cp : Checkpoint} (hcp : cp.MachineSized) {n : ℕ}
    (h : cp.checkedSerializedSize = .ok n) :
    size cp.json + cp.spare + 265 = n + cp.uncounted := by
  have hn := checkedSerializedSize_eq h
  have hranges := size_ranges hcp.ranges
  have hdigests := size_digests cp.expectedHashes
  have htotal : size (option number cp.totalSize) ≤ 20 := by
    rcases ht : cp.totalSize with - | total
    · exact (by decide : (4 : ℕ) ≤ 20)
    · exact size_number_le (Nat.lt_succ_of_le (hcp.totalSize total ht))
  have h₁ := size_text cp.tempPathIdentity
  have h₂ := size_text cp.createdAt
  have h₃ := size_text cp.updatedAt
  have h₄ := size_option cp.ownedTempIdentity
  have h₅ := size_option cp.coveredDigest
  have h₆ := size_option cp.validators.etag
  have h₇ := size_option cp.validators.lastModified
  have h₈ := size_bool cp.validators.etagIsWeak
  rw [costs, List.sum_append, sum_flatMap_digests] at hn
  simp only [List.sum_cons, List.sum_nil] at hn
  rw [size_json, cp.validators.size_json, spare, uncounted]
  omega

/-- The estimate bounds the text, and the size policy with it. -/
structure SizeBounded (cp : Checkpoint) : Prop where
  estimate : ∀ n, cp.checkedSerializedSize = .ok n → cp.toJson.utf8ByteSize ≤ n
  policy : ∀ cap n, cp.checkSerializedWithin cap = .ok n → cp.toJson.utf8ByteSize ≤ cap

theorem utf8ByteSize_toJson (cp : Checkpoint) : cp.toJson.utf8ByteSize = size cp.json :=
  String.utf8ByteSize_ofList _

theorem checkSerializedWithin_ok {cp : Checkpoint} {cap n : ℕ}
    (h : cp.checkSerializedWithin cap = .ok n) : cp.checkedSerializedSize = .ok n ∧ n ≤ cap := by
  unfold checkSerializedWithin at h
  split at h
  · cases h
  · next estimate he =>
    split_ifs at h with hcap
    cases h
    exact ⟨he, not_lt.mp hcap⟩

/-- **The size of a checkpoint.**  The estimate is an upper bound exactly when
the fields it does not count fit in the 265 bytes that the fixed overhead has
to spare and in what the counted fields leave of their allowances. -/
theorem serialized_size_bound {cp : Checkpoint} (hcp : cp.MachineSized) {n : ℕ}
    (h : cp.checkedSerializedSize = .ok n) : cp.SizeBounded ↔ cp.uncounted ≤ 265 + cp.spare := by
  have hbalance := size_balance hcp h
  have hsize := cp.utf8ByteSize_toJson
  constructor
  · intro hbound
    have := hbound.estimate n h
    omega
  · intro hfit
    have hestimate : ∀ m, cp.checkedSerializedSize = .ok m → cp.toJson.utf8ByteSize ≤ m := by
      intro m hm
      obtain rfl : n = m := Except.ok.inj (h.symm.trans hm)
      omega
    refine ⟨hestimate, fun cap m hm => ?_⟩
    obtain ⟨hok, hcap⟩ := checkSerializedWithin_ok hm
    exact (hestimate m hok).trans hcap

theorem size_text_replicate (c : Char) (length : ℕ) :
    size (text (String.ofList (List.replicate length c))) = length * size (escapeChar c) + 2 := by
  have hbody : size ((List.replicate length c).flatMap escapeChar) =
      length * size (escapeChar c) := by
    induction length with
    | zero => rw [Nat.zero_mul]; rfl
    | succ n ih => rw [List.replicate_succ, List.flatMap_cons, size_append, ih, Nat.succ_mul,
        add_comm]
  have hquote : ('"' : Char).utf8Size = 1 := rfl
  rw [text, String.toList_ofList, size_cons, size_append, size_cons, size_nil, hbody, hquote]

/-- A paused download on Windows, under a job id of quotation marks. -/
def quoted (length : ℕ) : Checkpoint where
  formatVersion := 2
  jobId := String.ofList (List.replicate length '"')
  tempPathIdentity := "C:\\dl\\movie.part"
  ownedTempIdentity := some "8:42"
  coveredDigest := some "9f86d081"
  totalSize := some 4096
  validators := ⟨some "\"v1\"", true, some "Tue, 01 Jul 2025 10:00:00 GMT", some 4096⟩
  completedRanges := [(0, 1023), (2048, 4095)]
  expectedHashes := [⟨"sha256", "9f86d081"⟩]
  createdAt := "100"
  updatedAt := "160"

theorem uncounted_quoted (length : ℕ) : (quoted length).uncounted = length * 2 + 7 := by
  have hrest : size (number 2) + size (option number (some 4096)) = 5 := rfl
  have hmark : size (escapeChar '"') = 2 := rfl
  have hid := size_text_replicate '"' length
  rw [hmark] at hid
  show size (text (String.ofList (List.replicate length '"'))) + size (number 2) +
    size (option number (some 4096)) = length * 2 + 7
  omega

/-- The overhead has no room for two hundred quotation marks; the other fields
leave it. -/
theorem serialized_size_bound_quoted :
    265 < (quoted 200).uncounted ∧ (quoted 200).SizeBounded := by
  have hsized : (quoted 200).MachineSized := ⟨fun n hn => by cases hn; decide, by decide⟩
  have hestimate : (quoted 200).checkedSerializedSize = .ok 1200 := rfl
  have hspare : (quoted 200).spare = 536 := rfl
  rw [uncounted_quoted]
  refine ⟨by decide, (serialized_size_bound hsized hestimate).mpr ?_⟩
  rw [uncounted_quoted, hspare]
  decide

/-- A checkpoint of nothing, under a job id of the letter `a`. -/
def named (length : ℕ) : Checkpoint where
  formatVersion := 2
  jobId := String.ofList (List.replicate length 'a')
  tempPathIdentity := ""
  ownedTempIdentity := none
  coveredDigest := none
  totalSize := none
  validators := ⟨none, false, none, none⟩
  completedRanges := []
  expectedHashes := []
  createdAt := ""
  updatedAt := ""

theorem named_machineSized (length : ℕ) : (named length).MachineSized where
  totalSize := fun _ h => by cases h
  ranges := fun _ h => by cases h

theorem uncounted_named (length : ℕ) : (named length).uncounted = length + 7 := by
  have hrest : size (number 2) + size (option number none) = 5 := rfl
  have hone : size (escapeChar 'a') = 1 := rfl
  have hid := size_text_replicate 'a' length
  rw [hone, Nat.mul_one] at hid
  show size (text (String.ofList (List.replicate length 'a'))) + size (number 2) +
    size (option number none) = length + 7
  omega

theorem checkedSerializedSize_named (length : ℕ) :
    (named length).checkedSerializedSize = .ok 559 := by
  have hcosts : (named length).serializedCosts = (named 0).serializedCosts := rfl
  have hempty : (named 0).checkedSerializedSize = .ok 559 := by decide +kernel
  rw [checkedSerializedSize, hcosts]
  exact hempty

theorem not_sizeBounded_named {length : ℕ} (h : 274 < length) : ¬ (named length).SizeBounded := by
  intro hbound
  have hle := hbound.estimate 559 (checkedSerializedSize_named length)
  have hbalance := size_balance (named_machineSized length) (checkedSerializedSize_named length)
  have hspare : (named length).spare = 16 := rfl
  rw [uncounted_named, hspare] at hbalance
  rw [utf8ByteSize_toJson] at hle
  omega

/-- A job id of four hundred letters makes the text longer than the estimate. -/
theorem long_job_id_exceeds_estimate : ¬ ∀ cp : Checkpoint, cp.MachineSized → cp.SizeBounded := by
  intro hall
  exact not_sizeBounded_named (by decide : 274 < 400) (hall (named 400) (named_machineSized 400))

end Checkpoint

end KDown

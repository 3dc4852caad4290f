/-
KDown/PositionalWrite.lean

Positional writes that are completed (`write_all_at` in io/positional.rs).

The writer may answer a call as it likes: with fewer bytes than it was given,
with none, with an interruption or another error.  The loop is followed turn by
turn.  After any number of turns a prefix of the bytes has been written at their
offset and nothing else (`writeAllAt_ok`); each turn that is not interrupted
ends the call or makes the prefix longer (`Reached.turn_succ`), so only an endless
row of interruptions keeps the call from returning.
-/
import Mathlib.Algebra.Order.Group.Nat
import Mathlib.Logic.Function.Iterate
import Mathlib.Order.Basic

namespace KDown

/-! ### Texts laid over a file -/

section Overlay

variable {α : Type*}

/-- The file with a text written at an offset. -/
def overlay (file : ℕ → α) (offset : ℕ) (text : List α) (i : ℕ) : α :=
  if i < offset then file i else text[i - offset]?.getD (file i)

@[simp] theorem overlay_nil (file : ℕ → α) (offset : ℕ) : overlay file offset [] = file := by
  funext i
  rw [overlay, List.getElem?_nil]
  exact ite_self _

/-- A text can be written in two pieces. -/
theorem overlay_append (file : ℕ → α) (offset : ℕ) (front back : List α) :
    overlay (overlay file offset front) (offset + front.length) back =
      overlay file offset (front ++ back) := by
  funext i
  rcases lt_or_ge i offset with hlt | hge
  · rw [overlay, if_pos (hlt.trans_le (Nat.le_add_right _ _)), overlay, if_pos hlt, overlay,
      if_pos hlt]
  · rcases lt_or_ge i (offset + front.length) with hfront | hback
    · have hidx : i - offset < front.length := by omega
      rw [overlay, if_pos hfront, overlay, if_neg hge.not_gt, overlay, if_neg hge.not_gt,
        List.getElem?_append_left hidx]
    · have hidx : front.length ≤ i - offset := by omega
      have hsub : i - offset - front.length = i - (offset + front.length) := by omega
      rw [overlay, if_neg hback.not_gt, overlay, if_neg hge.not_gt, overlay, if_neg hge.not_gt,
        List.getElem?_eq_none hidx, List.getElem?_append_right hidx, hsub]
      rfl

end Overlay

/-! ### The writer -/

/-- `std::io::ErrorKind`; the loop tells the first from the others. -/
inductive WriteErrorKind
  | interrupted
  | invalidInput
  | writeZero
  | other (code : ℕ)
  deriving DecidableEq, Repr

/-- The error of a write. -/
structure WriteError where
  kind : WriteErrorKind
  message : String
  deriving DecidableEq, Repr

/-- How many bytes an answer says are written; a call that fails has written
none. -/
def acceptedBytes : Except WriteError ℕ → ℕ
  | .ok n => n
  | .error _ => 0

/-- A call of the writer and what it answered. -/
structure WriteCall where
  offset : UInt64
  buf : List UInt8
  answer : Except WriteError ℕ

namespace WriteCall

/-- The file after the call. -/
def land (c : WriteCall) (file : ℕ → UInt8) : ℕ → UInt8 :=
  overlay file c.offset.toNat (c.buf.take (acceptedBytes c.answer))

end WriteCall

/-- The file after the calls. -/
def landed (calls : List WriteCall) (file : ℕ → UInt8) : ℕ → UInt8 :=
  calls.foldl (fun file c => c.land file) file

/-- A positional write primitive.  What it answers may depend on all calls
before. -/
structure PositionalWriter where
  posWrite : List WriteCall → UInt64 → List UInt8 → Except WriteError ℕ
  /-- It never reports more bytes than it was given. -/
  le_length : ∀ {calls offset buf n}, posWrite calls offset buf = .ok n → n ≤ buf.length

theorem PositionalWriter.accepted_le (w : PositionalWriter) (calls : List WriteCall)
    (offset : UInt64) (buf : List UInt8) :
    acceptedBytes (w.posWrite calls offset buf) ≤ buf.length := by
  rcases h : w.posWrite calls offset buf with e | n
  · exact Nat.zero_le _
  · exact w.le_length h

/-! ### The loop -/

/-- The call of `write_all_at`, between two turns of its loop or after it. -/
inductive WriteLoop
  | running (written : ℕ) (calls : List WriteCall)
  | returned (result : Except WriteError Unit) (calls : List WriteCall)

namespace WriteLoop

/-- The calls made so far. -/
def calls : WriteLoop → List WriteCall
  | .running _ calls => calls
  | .returned _ calls => calls

/-- Before the loop. -/
def start (offset : UInt64) (bytes : List UInt8) : WriteLoop :=
  if bytes = [] then .returned (.ok ()) []
  else if offset.toNat + bytes.length < 2 ^ 64 then .running 0 []
  else .returned (.error ⟨.invalidInput, "positional write offset overflow"⟩) []

/-- What one answer does. -/
def answered (bytes : List UInt8) (written : ℕ) (calls : List WriteCall) :
    Except WriteError ℕ → WriteLoop
  | .ok n =>
      if n = 0 then
        .returned (.error ⟨.writeZero, "positional write made no progress"⟩) calls
      else if written + n = bytes.length then .returned (.ok ()) calls
      else .running (written + n) calls
  | .error e => if e.kind = .interrupted then .running written calls else .returned (.error e) calls

/-- The call of the writer in a turn.  The offset is advanced with unchecked
arithmetic. -/
def nextCall (w : PositionalWriter) (offset : UInt64) (bytes : List UInt8) (written : ℕ)
    (calls : List WriteCall) : WriteCall :=
  let offset := offset + UInt64.ofNat written
  let buf := bytes.drop written
  ⟨offset, buf, w.posWrite calls offset buf⟩

/-- One turn of the loop. -/
def turn (w : PositionalWriter) (offset : UInt64) (bytes : List UInt8) : WriteLoop → WriteLoop
  | .running written calls =>
      let call := nextCall w offset bytes written calls
      answered bytes written (calls ++ [call]) call.answer
  | .returned result calls => .returned result calls

end WriteLoop

/-- `write_all_at` after `n` turns of its loop. -/
def writeAllAt (w : PositionalWriter) (offset : UInt64) (bytes : List UInt8) (n : ℕ) : WriteLoop :=
  (WriteLoop.turn w offset bytes)^[n] (WriteLoop.start offset bytes)

theorem writeAllAt_zero (w : PositionalWriter) (offset : UInt64) (bytes : List UInt8) :
    writeAllAt w offset bytes 0 = .start offset bytes := rfl

theorem writeAllAt_succ (w : PositionalWriter) (offset : UInt64) (bytes : List UInt8) (n : ℕ) :
    writeAllAt w offset bytes (n + 1) = (writeAllAt w offset bytes n).turn w offset bytes :=
  Function.iterate_succ_apply' _ n _

namespace WriteLoop

variable {w : PositionalWriter} {offset : UInt64} {bytes : List UInt8}

/-! ### What a turn keeps -/

/-- The call passes a tail of the bytes, at its own place in the file. -/
def InWindow (offset : UInt64) (bytes : List UInt8) (c : WriteCall) : Prop :=
  ∃ k < bytes.length, c.offset.toNat = offset.toNat + k ∧ c.buf = bytes.drop k

/-- The calls have written the first `k` bytes at the offset and nothing else. -/
structure Wrote (offset : UInt64) (bytes : List UInt8) (k : ℕ) (calls : List WriteCall) : Prop where
  window : ∀ c ∈ calls, InWindow offset bytes c
  landed : ∀ file, landed calls file = overlay file offset.toNat (bytes.take k)

theorem Wrote.nil (offset : UInt64) (bytes : List UInt8) : Wrote offset bytes 0 [] :=
  ⟨nofun, fun file => (overlay_nil file _).symm⟩

/-- The next call writes on where the last has stopped. -/
theorem Wrote.append {k : ℕ} {calls : List WriteCall} {c : WriteCall}
    (h : Wrote offset bytes k calls) (hk : k < bytes.length)
    (hoffset : c.offset.toNat = offset.toNat + k) (hbuf : c.buf = bytes.drop k) :
    Wrote offset bytes (k + acceptedBytes c.answer) (calls ++ [c]) := by
  refine ⟨fun d hd => ?_, fun file => ?_⟩
  · rcases List.mem_append.mp hd with hd | hd
    · exact h.window d hd
    · obtain rfl := List.mem_singleton.mp hd
      exact ⟨k, hk, hoffset, hbuf⟩
  · have hlen : (bytes.take k).length = k := List.length_take_of_le hk.le
    have happend := overlay_append file offset.toNat (bytes.take k)
      (c.buf.take (acceptedBytes c.answer))
    rw [hlen, hbuf, ← List.take_add] at happend
    rw [KDown.landed, List.foldl_append, List.foldl_cons, List.foldl_nil, ← KDown.landed,
      h.landed, WriteCall.land, hoffset, hbuf, happend]

/-- What holds between the turns and after them. -/
def Inv (offset : UInt64) (bytes : List UInt8) : WriteLoop → Prop
  | .running written calls => offset.toNat + bytes.length < 2 ^ 64 ∧ written < bytes.length ∧
      Wrote offset bytes written calls
  | .returned (.ok _) calls => Wrote offset bytes bytes.length calls
  | .returned (.error _) calls => ∃ k < bytes.length, Wrote offset bytes k calls

theorem Inv.start (offset : UInt64) (bytes : List UInt8) :
    (start offset bytes).Inv offset bytes := by
  rw [WriteLoop.start]
  split_ifs with hnil hfits
  · subst hnil
    exact Wrote.nil offset []
  · exact ⟨hfits, List.length_pos_iff.mpr hnil, .nil offset bytes⟩
  · exact ⟨0, List.length_pos_iff.mpr hnil, .nil offset bytes⟩

/-- An answer keeps the invariant if its bytes are counted and fit. -/
theorem Inv.answered {written : ℕ} {calls : List WriteCall} {answer : Except WriteError ℕ}
    (hfits : offset.toNat + bytes.length < 2 ^ 64) (hwritten : written < bytes.length)
    (hle : written + acceptedBytes answer ≤ bytes.length)
    (hcalls : Wrote offset bytes (written + acceptedBytes answer) calls) :
    (answered bytes written calls answer).Inv offset bytes := by
  cases answer with
  | error e =>
    rw [WriteLoop.answered]
    split_ifs
    · exact ⟨hfits, hwritten, hcalls⟩
    · exact ⟨written, hwritten, hcalls⟩
  | ok n =>
    rw [WriteLoop.answered]
    split_ifs with hzero hall
    · subst hzero
      exact ⟨written, hwritten, hcalls⟩
    · show Wrote offset bytes bytes.length calls
      rwa [← hall]
    · exact ⟨hfits, hle.lt_of_ne hall, hcalls⟩

/-- While the window fits the advanced offset does not wrap around. -/
theorem nextCall_offset {written : ℕ} (calls : List WriteCall)
    (hfits : offset.toNat + bytes.length < 2 ^ 64) (hwritten : written < bytes.length) :
    (nextCall w offset bytes written calls).offset.toNat = offset.toNat + written := by
  show (offset + UInt64.ofNat written).toNat = _
  rw [UInt64.toNat_add, UInt64.toNat_ofNat', Nat.mod_eq_of_lt (by omega : written < 2 ^ 64)]
  apply Nat.mod_eq_of_lt
  omega

theorem Inv.turn {s : WriteLoop} (h : s.Inv offset bytes) :
    (s.turn w offset bytes).Inv offset bytes := by
  cases s with
  | returned result calls => exact h
  | running written calls =>
    obtain ⟨hfits, hwritten, hwrote⟩ := h
    have hoffset := nextCall_offset (w := w) calls hfits hwritten
    have hle : acceptedBytes (nextCall w offset bytes written calls).answer ≤
        (bytes.drop written).length := w.accepted_le _ _ _
    rw [List.length_drop] at hle
    exact .answered hfits hwritten (by omega) (hwrote.append hwritten hoffset rfl)

theorem Inv.window {s : WriteLoop} (h : s.Inv offset bytes) :
    ∀ c ∈ s.calls, InWindow offset bytes c := by
  rcases s with ⟨written, calls⟩ | ⟨e | u, calls⟩
  · exact h.2.2.window
  · obtain ⟨k, -, hwrote⟩ := h
    exact hwrote.window
  · exact Wrote.window h

end WriteLoop

/-- What a turn keeps, all later turns keep. -/
theorem writeAllAt_keeps {w : PositionalWriter} {offset : UInt64} {bytes : List UInt8}
    {P : WriteLoop → Prop} (hturn : ∀ s, P s → P (s.turn w offset bytes)) {m n : ℕ} (hmn : m ≤ n)
    (h : P (writeAllAt w offset bytes m)) : P (writeAllAt w offset bytes n) := by
  induction n, hmn using Nat.le_induction with
  | base => exact h
  | succ n _ ih =>
    rw [writeAllAt_succ]
    exact hturn _ ih

/-- The loop keeps its place, whatever the calls return. -/
theorem writeAllAt_inv (w : PositionalWriter) (offset : UInt64) (bytes : List UInt8) (n : ℕ) :
    (writeAllAt w offset bytes n).Inv offset bytes :=
  writeAllAt_keeps (P := WriteLoop.Inv offset bytes) (fun _ => .turn) n.zero_le (.start offset bytes)

/-! ### What the call has done when it returns -/

/-- **A call that succeeds has written everything.** -/
theorem writeAllAt_ok {w : PositionalWriter} {offset : UInt64} {bytes : List UInt8} {n : ℕ}
    {calls : List WriteCall} (h : writeAllAt w offset bytes n = .returned (.ok ()) calls)
    (file : ℕ → UInt8) : landed calls file = overlay file offset.toNat bytes := by
  have hinv := writeAllAt_inv w offset bytes n
  rw [h] at hinv
  have hlanded := WriteLoop.Wrote.landed hinv file
  rwa [List.take_length] at hlanded

theorem writeAllAt_error {w : PositionalWriter} {offset : UInt64} {bytes : List UInt8} {n : ℕ}
    {e : WriteError} {calls : List WriteCall}
    (h : writeAllAt w offset bytes n = .returned (.error e) calls) :
    ∃ k < bytes.length, ∀ file, landed calls file = overlay file offset.toNat (bytes.take k) := by
  have hinv := writeAllAt_inv w offset bytes n
  rw [h] at hinv
  obtain ⟨k, hk, hwrote⟩ := hinv
  exact ⟨k, hk, hwrote.landed⟩

/-- A call that has returned makes no more turns. -/
theorem writeAllAt_returned {w : PositionalWriter} {offset : UInt64} {bytes : List UInt8} {m n : ℕ}
    {result : Except WriteError Unit} {calls : List WriteCall}
    (h : writeAllAt w offset bytes m = .returned result calls) (hmn : m ≤ n) :
    writeAllAt w offset bytes n = .returned result calls := by
  apply writeAllAt_keeps (P := (· = .returned result calls)) _ hmn h
  rintro s rfl
  rfl

theorem writeAllAt_overflow (w : PositionalWriter) {offset : UInt64} {bytes : List UInt8}
    (h : 2 ^ 64 ≤ offset.toNat + bytes.length) (n : ℕ) :
    writeAllAt w offset bytes n =
      .returned (.error ⟨.invalidInput, "positional write offset overflow"⟩) [] := by
  have hnil : bytes ≠ [] := by
    rintro rfl
    exact absurd offset.toNat_lt (not_lt.mpr h)
  apply writeAllAt_returned _ n.zero_le
  rw [writeAllAt_zero, WriteLoop.start, if_neg hnil, if_neg (not_lt.mpr h)]

/-! ### When it returns -/

namespace WriteLoop

/-- The next call is interrupted. -/
def Interrupted (w : PositionalWriter) (offset : UInt64) (bytes : List UInt8) : WriteLoop → Prop
  | .running written calls =>
      ∃ e, (nextCall w offset bytes written calls).answer = .error e ∧ e.kind = .interrupted
  | .returned _ _ => False

/-- At least `d` bytes are written, or the call has returned. -/
def Reached (d : ℕ) : WriteLoop → Prop
  | .running written _ => d ≤ written
  | .returned _ _ => True

variable {w : PositionalWriter} {offset : UInt64} {bytes : List UInt8}

/-- An answer that writes brings the call to the place behind its bytes; an
interruption leaves it where it is. -/
theorem reached_answered {d written : ℕ} {calls : List WriteCall} {answer : Except WriteError ℕ}
    (hok : ∀ n, answer = .ok n → n ≠ 0 → d ≤ written + n)
    (herror : ∀ e, answer = .error e → e.kind = .interrupted → d ≤ written) :
    (answered bytes written calls answer).Reached d := by
  cases answer with
  | error e =>
    rw [answered]
    split_ifs with hkind
    · exact herror e rfl hkind
    · exact trivial
  | ok n =>
    rw [answered]
    split_ifs with hzero
    · exact trivial
    · exact trivial
    · exact hok n rfl hzero

/-- What is written is not lost. -/
theorem Reached.turn {d : ℕ} {s : WriteLoop} (h : s.Reached d) :
    (s.turn w offset bytes).Reached d := by
  cases s with
  | returned result calls => exact h
  | running written calls =>
    exact reached_answered (fun _ _ _ => Nat.le_add_right_of_le h) fun _ _ _ => h

/-- **A turn that is not interrupted writes something, or returns.** -/
theorem Reached.turn_succ {d : ℕ} {s : WriteLoop} (h : s.Reached d)
    (hs : ¬ s.Interrupted w offset bytes) : (s.turn w offset bytes).Reached (d + 1) := by
  cases s with
  | returned result calls => exact trivial
  | running written calls =>
    apply reached_answered
    · intro n _ hn
      exact Nat.add_le_add h (Nat.one_le_iff_ne_zero.mpr hn)
    · intro e he hkind
      exact absurd ⟨e, he, hkind⟩ hs

end WriteLoop

variable {w : PositionalWriter} {offset : UInt64} {bytes : List UInt8}

/-- With no endless row of interruptions any number of bytes is reached. -/
theorem writeAllAt_reached
    (h : ∀ n, ∃ m ≥ n, ¬ (writeAllAt w offset bytes m).Interrupted w offset bytes) (d : ℕ) :
    ∃ n, (writeAllAt w offset bytes n).Reached d := by
  induction d with
  | zero =>
    refine ⟨0, ?_⟩
    rcases writeAllAt w offset bytes 0 with ⟨written, calls⟩ | ⟨result, calls⟩
    · exact Nat.zero_le _
    · exact trivial
  | succ d ih =>
    obtain ⟨n, hn⟩ := ih
    obtain ⟨m, hm, hnot⟩ := h n
    refine ⟨m + 1, ?_⟩
    rw [writeAllAt_succ]
    have hm' := writeAllAt_keeps (P := WriteLoop.Reached d) (fun _ => .turn) hm hn
    exact hm'.turn_succ hnot

/-- The call returns unless it is interrupted over and over. -/
theorem writeAllAt_returns_iff :
    (∃ n result calls, writeAllAt w offset bytes n = .returned result calls) ↔
      ∀ n, ∃ m ≥ n, ¬ (writeAllAt w offset bytes m).Interrupted w offset bytes := by
  constructor
  · rintro ⟨m, result, calls, h⟩ n
    refine ⟨max m n, le_max_right m n, ?_⟩
    rw [writeAllAt_returned h (le_max_left m n)]
    exact not_false
  · intro h
    -- as many bytes as there are
    obtain ⟨n, hn⟩ := writeAllAt_reached h bytes.length
    have hinv := writeAllAt_inv w offset bytes n
    rcases hstate : writeAllAt w offset bytes n with ⟨written, calls⟩ | ⟨result, calls⟩
    · rw [hstate] at hn hinv
      exact absurd hinv.2.1 (not_lt.mpr hn)
    · exact ⟨n, result, calls, hstate⟩

/-- **Positional writes.**  No call of the writer leaves the window; all bytes
are written at their offset, or a proper prefix of them when the call fails;
nothing is written when the window does not fit; and the call returns unless it
is interrupted over and over. -/
theorem writeAllAt_exact (w : PositionalWriter) (offset : UInt64) (bytes : List UInt8) :
    (∀ n, ∀ c ∈ (writeAllAt w offset bytes n).calls, WriteLoop.InWindow offset bytes c) ∧
      (∀ n calls, writeAllAt w offset bytes n = .returned (.ok ()) calls →
        ∀ file, landed calls file = overlay file offset.toNat bytes) ∧
      (∀ n e calls, writeAllAt w offset bytes n = .returned (.error e) calls →
        ∃ k < bytes.length,
          ∀ file, landed calls file = overlay file offset.toNat (bytes.take k)) ∧
      (2 ^ 64 ≤ offset.toNat + bytes.length →
        ∃ e, e.kind = .invalidInput ∧ ∀ n, writeAllAt w offset bytes n = .returned (.error e) []) ∧
      ((∃ n result calls, writeAllAt w offset bytes n = .returned result calls) ↔
        ∀ n, ∃ m ≥ n, ¬ (writeAllAt w offset bytes m).Interrupted w offset bytes) :=
  ⟨fun n => (writeAllAt_inv w offset bytes n).window, fun _ _ h => writeAllAt_ok h,
    fun _ _ _ h => writeAllAt_error h, fun h => ⟨_, rfl, writeAllAt_overflow w h⟩,
    writeAllAt_returns_iff⟩

/-- A writer that is interrupted at its first call and then takes two bytes at
most. -/
def twoByteWriter : PositionalWriter where
  posWrite calls _ buf :=
    if calls = [] then .error ⟨.interrupted, "scripted interrupt"⟩ else .ok (min 2 buf.length)
  le_length := by
    intro calls offset buf n h
    split_ifs at h
    cases h
    exact min_le_right 2 _

/-- Three bytes are written by two short writes. -/
theorem writeAllAt_exact_example : ∃ calls,
    writeAllAt twoByteWriter 5 [1, 2, 3] 3 = .returned (.ok ()) calls ∧
      ∀ file, landed calls file = overlay file 5 [1, 2, 3] :=
  ⟨_, rfl, (writeAllAt_exact twoByteWriter 5 [1, 2, 3]).2.1 3 _ rfl⟩

end KDown

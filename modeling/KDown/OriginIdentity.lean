/-
KDown/OriginIdentity.lean

The identity of a URL's origin (`normalized_origin` in control/origin.rs).

The text of a URL is taken apart into scheme, host and port (`originParts`); the
scheme and the host are folded and one trailing dot is dropped.  What comes out
is taken apart into the same parts again (`originParts_originText`), so the
identity is a canonical form: normalizing it changes nothing, and two URLs have
one identity exactly when scheme, host and effective port agree
(`origin_canonical`).

Lowercasing is Unicode's, of which only its values on ASCII texts are used.
-/
import KDown.RedirectTargets
import KDown.SanitizeFilename

namespace KDown

/-- `str::to_lowercase`. -/
structure Lowercase where
  lower : List Char → List Char
  /-- On ASCII texts it is `to_ascii_lowercase`. -/
  ascii : ∀ cs : List Char, (∀ c ∈ cs, c.toNat < 128) → lower cs = toAsciiLowercase cs

/-- Parse a 16-bit number. -/
def parseU16 (cs : List Char) : Option ℕ := (parseU64 cs).filter (· < 2 ^ 16)

/-- Split `host[:port]`; an IPv6 literal keeps its brackets. -/
def splitHostPort (hostPort : List Char) (defaultPort : ℕ) : Option (List Char × ℕ) :=
  if hostPort.head? = some '[' then
    match splitOnce ']' hostPort with
    | none => none
    | some (inner, ':' :: p) => (parseU16 p).map fun port => (inner ++ [']'], port)
    | some (inner, []) => some (inner ++ [']'], defaultPort)
    | some (_, _ :: _) => none
  else
    match rsplitOnce ':' hostPort with
    | some (host, p) => (parseU16 p).map fun port => (host, port)
    | none => some (hostPort, defaultPort)

/-- A character of the authority. -/
def inAuthority (c : Char) : Bool := c ∉ ['/', '?', '#']

/-- The default port of a scheme. -/
def schemePort (scheme : List Char) : ℕ := if scheme = "https".toList then 443 else 80

/-- The lowercased scheme, the host as it is written and the effective port. -/
def originParts (url : List Char) : Option (List Char × List Char × ℕ) :=
  match splitOnceWord "://".toList url with
  | none => none
  | some (scheme, rest) =>
      if scheme = [] ∨ rest = [] then none
      else
        let scheme := toAsciiLowercase scheme
        if scheme ≠ "http".toList ∧ scheme ≠ "https".toList then none
        else
          let authority := rest.takeWhile inAuthority
          let hostPort := ((rsplitOnce '@' authority).map Prod.snd).getD authority
          if hostPort = [] then none
          else
            (splitHostPort hostPort (schemePort scheme)).map fun p => (scheme, p)

/-- Strip one trailing dot. -/
def stripDot (host : List Char) : List Char :=
  if host.getLast? = some '.' then host.dropLast else host

/-- `scheme://host:port`. -/
def originText (scheme host : List Char) (port : ℕ) : List Char :=
  scheme ++ ("://".toList ++ (host ++ ':' :: Nat.toDigits 10 port))

/-- The origin of a URL, with its host lowered and the port written out. -/
def normalizedOrigin (l : Lowercase) (url : List Char) : Option (List Char) :=
  (originParts url).bind fun (scheme, host, port) =>
    let host := stripDot (l.lower host)
    if host = [] then none else some (originText scheme host port)

/-! ### ASCII characters -/

/-- What holds of all ASCII characters is computed. -/
theorem forall_ascii {P : Char → Bool} (h : ∀ n : Fin 128, P (Char.ofNat n) = true) {c : Char}
    (hc : c.toNat < 128) : P c = true := by
  have hn := h ⟨c.toNat, hc⟩
  rwa [Char.ofNat_toNat] at hn

theorem toLower_toLower {c : Char} (hc : c.toNat < 128) : c.toLower.toLower = c.toLower := by
  have h := @forall_ascii (fun c => c.toLower.toLower = c.toLower) (by decide) c hc
  exact of_decide_eq_true h

theorem toLower_ascii {c : Char} (hc : c.toNat < 128) : c.toLower.toNat < 128 := by
  have h := @forall_ascii (fun c => c.toLower.toNat < 128) (by decide) c hc
  exact of_decide_eq_true h

/-- The characters that separate the parts of a URL, and the dot. -/
def separators : List Char := ['/', '?', '#', '@', ':', '[', ']', '.']

theorem toLower_eq_separator {c d : Char} (hc : c.toNat < 128) (hd : d ∈ separators) :
    c.toLower = d ↔ c = d := by
  have h := @forall_ascii (fun c => separators.all fun d => (c.toLower = d) = (c = d))
    (by decide) c hc
  have hall := List.all_eq_true.mp h d hd
  exact Iff.of_eq (of_decide_eq_true hall)

/-- All characters are ASCII. -/
def IsAscii (cs : List Char) : Prop := ∀ c ∈ cs, c.toNat < 128

theorem mem_toAsciiLowercase {cs : List Char} (hcs : IsAscii cs) {d : Char}
    (hd : d ∈ separators) : d ∈ toAsciiLowercase cs ↔ d ∈ cs := by
  rw [toAsciiLowercase, List.mem_map]
  constructor
  · rintro ⟨c, hc, heq⟩
    rwa [← (toLower_eq_separator (hcs c hc) hd).mp heq]
  · intro hmem
    exact ⟨d, hmem, (toLower_eq_separator (hcs d hmem) hd).mpr rfl⟩

theorem head?_toAsciiLowercase {cs : List Char} (hcs : IsAscii cs) {d : Char}
    (hd : d ∈ separators) : (toAsciiLowercase cs).head? = some d ↔ cs.head? = some d := by
  rcases cs with - | ⟨c, cs⟩
  · exact Iff.rfl
  · show some c.toLower = some d ↔ some c = some d
    rw [Option.some_inj, Option.some_inj]
    exact toLower_eq_separator (hcs c List.mem_cons_self) hd

theorem getLast?_toAsciiLowercase {cs : List Char} (hcs : IsAscii cs) {d : Char}
    (hd : d ∈ separators) : (toAsciiLowercase cs).getLast? = some d ↔ cs.getLast? = some d := by
  rw [← List.head?_reverse, ← List.head?_reverse (l := cs), toAsciiLowercase, ← List.map_reverse]
  exact head?_toAsciiLowercase (fun c hc => hcs c (List.mem_reverse.mp hc)) hd

theorem toAsciiLowercase_ascii {cs : List Char} (hcs : IsAscii cs) :
    IsAscii (toAsciiLowercase cs) := by
  intro d hd
  obtain ⟨c, hc, rfl⟩ := List.mem_map.mp hd
  exact toLower_ascii (hcs c hc)

theorem toAsciiLowercase_append (cs ds : List Char) :
    toAsciiLowercase (cs ++ ds) = toAsciiLowercase cs ++ toAsciiLowercase ds := List.map_append

theorem toAsciiLowercase_eq_self {cs : List Char} (h : ∀ c ∈ cs, c.toLower = c) :
    toAsciiLowercase cs = cs := by
  rw [toAsciiLowercase]
  nth_rewrite 2 [← List.map_id cs]
  exact List.map_congr_left h

/-! ### Host and port -/

theorem parseU16_eq_some {cs : List Char} {n : ℕ} :
    parseU16 cs = some n ↔ SignedDecimal cs n ∧ n < 2 ^ 16 := by
  rw [parseU16, Option.filter_eq_some_iff, parseU64_eq_some, decide_eq_true_eq]

theorem parseU16_toDigits {n : ℕ} (h : n < 2 ^ 16) : parseU16 (Nat.toDigits 10 n) = some n := by
  have hfits : n ≤ u64Max := by
    unfold u64Max
    omega
  exact parseU16_eq_some.mpr ⟨.inl (decimal_toDigits hfits), h⟩

theorem colon_notMem_port {p : List Char} {n : ℕ} (h : parseU16 p = some n) : ':' ∉ p :=
  (parseU16_eq_some.mp h).1.not_mem (by decide) (by decide)

/-- A host in brackets ends with the first closing one. -/
def HostShape (host : List Char) : Prop :=
  host.head? = some '[' → ∃ inner, host = inner ++ [']'] ∧ ']' ∉ inner

theorem head?_append_of_bracket {inner rest : List Char} (h : (inner ++ [']']).head? = some '[') :
    (inner ++ ']' :: rest).head? = some '[' := by
  rcases inner with - | ⟨c, inner⟩
  · exact absurd h (by decide)
  · exact h

/-- A host with an explicit port. -/
theorem splitHostPort_port {host p : List Char} {n : ℕ} (hhost : HostShape host)
    (hp : parseU16 p = some n) (defaultPort : ℕ) :
    splitHostPort (host ++ ':' :: p) defaultPort = some (host, n) := by
  rw [splitHostPort]
  by_cases hbracket : host.head? = some '['
  · obtain ⟨inner, rfl, hinner⟩ := hhost hbracket
    have htext : inner ++ [']'] ++ ':' :: p = inner ++ ']' :: ':' :: p := by simp
    rw [htext, if_pos (head?_append_of_bracket hbracket), splitOnce_append hinner]
    show (parseU16 p).map _ = _
    rw [hp]
    rfl
  · have hhead : (host ++ ':' :: p).head? ≠ some '[' := by
      rcases host with - | ⟨c, host⟩
      · show some ':' ≠ some '['
        decide
      · exact hbracket
    have hsplit : rsplitOnce ':' (host ++ ':' :: p) = some (host, p) :=
      rsplitOnce_eq_some.mpr ⟨rfl, colon_notMem_port hp⟩
    rw [if_neg hhead, hsplit]
    show (parseU16 p).map _ = _
    rw [hp]
    rfl

/-- A host alone. -/
theorem splitHostPort_bare {host : List Char} (hhost : HostShape host)
    (hcolon : host.head? ≠ some '[' → ':' ∉ host) (defaultPort : ℕ) :
    splitHostPort host defaultPort = some (host, defaultPort) := by
  rw [splitHostPort]
  by_cases hbracket : host.head? = some '['
  · obtain ⟨inner, rfl, hinner⟩ := hhost hbracket
    rw [if_pos hbracket, splitOnce_append hinner]
  · have hsplit : rsplitOnce ':' host = none := by
      rw [rsplitOnce, Option.map_eq_none_iff, splitOnce_eq_none, List.mem_reverse]
      exact hcolon hbracket
    rw [if_neg hbracket, hsplit]

/-- What the split finds. -/
theorem splitHostPort_eq_some {hostPort host : List Char} {defaultPort n : ℕ}
    (h : splitHostPort hostPort defaultPort = some (host, n)) :
    HostShape host ∧ (n = defaultPort ∨ n < 2 ^ 16) ∧ ∀ c ∈ host, c ∈ hostPort := by
  rw [splitHostPort] at h
  split_ifs at h with hbracket
  · rcases hsplit : splitOnce ']' hostPort with - | ⟨inner, after⟩
    · rw [hsplit] at h
      cases h
    · obtain ⟨rfl, hinner⟩ := splitOnce_eq_some.mp hsplit
      have hhost : HostShape (inner ++ [']']) := fun _ => ⟨inner, rfl, hinner⟩
      have hsub : ∀ c ∈ inner ++ [']'], c ∈ inner ++ ']' :: after := by
        intro c hc
        rw [List.mem_append, List.mem_singleton] at hc
        rw [List.mem_append, List.mem_cons]
        exact hc.imp_right .inl
      rw [hsplit] at h
      rcases after with - | ⟨d, p⟩
      · cases h
        exact ⟨hhost, .inl rfl, hsub⟩
      · by_cases hd : d = ':'
        · subst hd
          obtain ⟨port, hport, heq⟩ := Option.map_eq_some_iff.mp h
          cases heq
          exact ⟨hhost, .inr (parseU16_eq_some.mp hport).2, hsub⟩
        · split at h
          · cases h
          · next heq => exact absurd (List.cons.inj (Prod.mk.inj (Option.some.inj heq)).2).1 hd
          · next heq => cases heq
          · cases h
  · rcases hsplit : rsplitOnce ':' hostPort with - | ⟨front, p⟩ <;> rw [hsplit] at h
    · cases h
      exact ⟨fun hhead => absurd hhead hbracket, .inl rfl, fun c hc => hc⟩
    · obtain ⟨rfl, hp⟩ := rsplitOnce_eq_some.mp hsplit
      obtain ⟨port, hport, heq⟩ := Option.map_eq_some_iff.mp h
      cases heq
      refine ⟨fun hhead => ?_, .inr (parseU16_eq_some.mp hport).2,
        fun c hc => List.mem_append_left _ hc⟩
      rcases host with - | ⟨c, host⟩
      · cases hhead
      · exact absurd hhead hbracket

/-! ### The parts of a URL -/

theorem schemePort_lt (scheme : List Char) : schemePort scheme < 2 ^ 16 := by
  unfold schemePort
  split_ifs <;> decide

/-- A scheme that has origins, in any letter case. -/
def HttpScheme (scheme : List Char) : Prop :=
  toAsciiLowercase scheme = "http".toList ∨ toAsciiLowercase scheme = "https".toList

theorem HttpScheme.colon {scheme : List Char} (h : HttpScheme scheme) : ':' ∉ scheme := by
  intro hmem
  have hlower : ':' ∈ toAsciiLowercase scheme := List.mem_map_of_mem (f := Char.toLower) hmem
  rcases h with h | h <;> rw [h] at hlower <;> exact absurd hlower (by decide)

theorem HttpScheme.ne_nil {scheme : List Char} (h : HttpScheme scheme) : scheme ≠ [] := by
  rintro rfl
  rcases h with h | h <;> cases h

/-- What may precede the host: nothing, or a text that ends with `@`. -/
def UserinfoText (u : List Char) : Prop :=
  (∀ c ∈ u, inAuthority c = true) ∧ (u = [] ∨ ∃ x, u = x ++ ['@'])

/-- The parts of a text that is put together from them. -/
theorem originParts_text {scheme u hostPort tail : List Char} (hscheme : HttpScheme scheme)
    (hu : UserinfoText u) (hhost : ∀ c ∈ hostPort, inAuthority c = true) (hat : '@' ∉ hostPort)
    (htail : ∀ c ∈ tail.head?, inAuthority c = false) :
    originParts (scheme ++ ("://".toList ++ (u ++ (hostPort ++ tail)))) =
      if hostPort = [] then none
      else (splitHostPort hostPort (schemePort (toAsciiLowercase scheme))).map
        fun p => (toAsciiLowercase scheme, p) := by
  have hsplit : splitOnceWord "://".toList (scheme ++ ("://".toList ++ (u ++ (hostPort ++ tail)))) =
      some (scheme, u ++ (hostPort ++ tail)) :=
    @splitOnceWord_append ':' "//".toList _ hscheme.colon _
  have hend : tail.takeWhile inAuthority = [] := by
    rcases tail with - | ⟨c, tail⟩
    · rfl
    · exact List.takeWhile_cons_of_neg (by rw [htail c rfl]; nofun)
  have hauthority : (u ++ (hostPort ++ tail)).takeWhile inAuthority = u ++ hostPort := by
    rw [List.takeWhile_append_of_pos hu.1, List.takeWhile_append_of_pos hhost, hend,
      List.append_nil]
  have hstrip :
      ((rsplitOnce '@' (u ++ hostPort)).map Prod.snd).getD (u ++ hostPort) = hostPort := by
    rcases hu.2 with rfl | ⟨x, rfl⟩
    · have hnone : rsplitOnce '@' hostPort = none := by
        rw [rsplitOnce, Option.map_eq_none_iff, splitOnce_eq_none, List.mem_reverse]
        exact hat
      rw [List.nil_append, hnone]
      rfl
    · have hsome : rsplitOnce '@' (x ++ ['@'] ++ hostPort) = some (x, hostPort) := by
        rw [List.append_assoc]
        exact rsplitOnce_eq_some.mpr ⟨rfl, hat⟩
      rw [hsome]
      rfl
  have hnot : ¬ (toAsciiLowercase scheme ≠ "http".toList ∧
      toAsciiLowercase scheme ≠ "https".toList) := fun h => hscheme.elim h.1 h.2
  rw [originParts, hsplit]
  simp only [hauthority, hstrip, if_neg hnot]
  by_cases hnil : u ++ (hostPort ++ tail) = []
  · have hhostPort : hostPort = [] :=
      (List.append_eq_nil_iff.mp (List.append_eq_nil_iff.mp hnil).2).1
    rw [if_pos (.inr hnil), if_pos hhostPort]
  · rw [if_neg (not_or.mpr ⟨hscheme.ne_nil, hnil⟩)]

/-- What the parts of any URL are. -/
theorem originParts_eq_some {url scheme host : List Char} {port : ℕ}
    (h : originParts url = some (scheme, host, port)) :
    (scheme = "http".toList ∨ scheme = "https".toList) ∧ HostShape host ∧ port < 2 ^ 16 ∧
      (∀ c ∈ host, inAuthority c = true) ∧ '@' ∉ host := by
  rw [originParts] at h
  rcases hsplit : splitOnceWord "://".toList url with - | ⟨s, rest⟩
  · rw [hsplit] at h
    cases h
  · rw [hsplit] at h
    simp only at h
    split_ifs at h with hempty hscheme hnil
    obtain ⟨⟨host', port'⟩, hparts, heq⟩ := Option.map_eq_some_iff.mp h
    cases heq
    obtain ⟨hshape, hport, hsub⟩ := splitHostPort_eq_some hparts
    have hlt := schemePort_lt (toAsciiLowercase s)
    have hauthority : ∀ c ∈ rest.takeWhile inAuthority, inAuthority c = true := fun c hc =>
      List.mem_takeWhile_imp hc
    generalize rest.takeWhile inAuthority = authority at hsub hauthority
    have hhost : (∀ c ∈ ((rsplitOnce '@' authority).map Prod.snd).getD authority,
        inAuthority c = true) ∧
        '@' ∉ ((rsplitOnce '@' authority).map Prod.snd).getD authority := by
      rcases hstrip : rsplitOnce '@' authority with - | ⟨x, r⟩
      · refine ⟨hauthority, ?_⟩
        rwa [rsplitOnce, Option.map_eq_none_iff, splitOnce_eq_none, List.mem_reverse] at hstrip
      · obtain ⟨rfl, hr⟩ := rsplitOnce_eq_some.mp hstrip
        exact ⟨fun c hc => hauthority c (List.mem_append_right _ (List.mem_cons_of_mem _ hc)), hr⟩
    refine ⟨?_, hshape, ?_, fun c hc => hhost.1 c (hsub c hc), fun hat => hhost.2 (hsub _ hat)⟩
    · by_contra hno
      exact hscheme (not_or.mp hno)
    · rcases hport with rfl | hport
      · exact hlt
      · exact hport

/-- **An identity is taken apart into what it was made of.** -/
theorem originParts_originText {scheme host : List Char} {port : ℕ}
    (hscheme : scheme = "http".toList ∨ scheme = "https".toList) (hshape : HostShape host)
    (hport : port < 2 ^ 16) (hhost : ∀ c ∈ host, inAuthority c = true) (hat : '@' ∉ host) :
    originParts (originText scheme host port) = some (scheme, host, port) := by
  have hlower : toAsciiLowercase scheme = scheme := by
    rcases hscheme with rfl | rfl <;> decide
  have hdigits : ∀ c ∈ Nat.toDigits 10 port, c.isDigit = true := fun c hc =>
    Nat.isDigit_of_mem_toDigits (by decide) (by decide) hc
  have hmem : ∀ c ∈ host ++ ':' :: Nat.toDigits 10 port, inAuthority c = true := by
    intro c hc
    rw [List.mem_append, List.mem_cons] at hc
    rcases hc with hc | rfl | hc
    · exact hhost c hc
    · decide
    · have hdigit := hdigits c hc
      rw [inAuthority, decide_eq_true_eq]
      intro hbad
      simp only [List.mem_cons, List.not_mem_nil, or_false] at hbad
      rcases hbad with rfl | rfl | rfl <;> exact absurd hdigit (by decide)
  have hnoAt : '@' ∉ host ++ ':' :: Nat.toDigits 10 port := by
    rw [List.mem_append, List.mem_cons]
    rintro (h | h | h)
    · exact hat h
    · exact absurd h (by decide)
    · exact absurd (hdigits _ h) (by decide)
  have hparts := @originParts_text scheme [] _ [] (by rwa [HttpScheme, hlower]) ⟨nofun, .inl rfl⟩
    hmem hnoAt nofun
  rw [List.nil_append, List.append_nil, if_neg (by simp),
    splitHostPort_port hshape (parseU16_toDigits hport), hlower] at hparts
  exact hparts

/-! ### The host -/

/-- The host as the identity has it. -/
def foldHost (host : List Char) : List Char := stripDot (toAsciiLowercase host)

theorem stripDot_of_not {host : List Char} (h : host.getLast? ≠ some '.') : stripDot host = host :=
  if_neg h

theorem stripDot_append (host : List Char) : stripDot (host ++ ['.']) = host := by
  rw [stripDot, List.getLast?_concat, if_pos rfl, List.dropLast_concat]

theorem mem_of_mem_stripDot {host : List Char} {c : Char} (h : c ∈ stripDot host) : c ∈ host := by
  rw [stripDot] at h
  split_ifs at h
  · exact List.mem_of_mem_dropLast h
  · exact h

/-- A host that does not end in two dots has none after one is stripped. -/
theorem getLast?_stripDot {host : List Char} (h : ¬ ['.', '.'] <:+ host) :
    (stripDot host).getLast? ≠ some '.' := by
  rw [stripDot]
  split_ifs with hdot
  · obtain ⟨front, rfl⟩ := List.getLast?_eq_some_iff.mp hdot
    rw [List.dropLast_concat]
    intro hlast
    obtain ⟨front', rfl⟩ := List.getLast?_eq_some_iff.mp hlast
    exact h ⟨front', by simp⟩
  · exact hdot

theorem suffix_toAsciiLowercase {host : List Char} (hascii : IsAscii host)
    (h : ['.', '.'] <:+ toAsciiLowercase host) : ['.', '.'] <:+ host := by
  obtain ⟨front, hfront⟩ := h
  obtain ⟨a, b, rfl, -, hb⟩ := List.map_eq_append_iff.mp hfront.symm
  obtain ⟨c, b', rfl, hc, hb'⟩ := List.map_eq_cons_iff.mp hb
  obtain ⟨d, b'', rfl, hd, hnil⟩ := List.map_eq_cons_iff.mp hb'
  rw [List.map_eq_nil_iff] at hnil
  have hdot : '.' ∈ separators := by decide
  rw [toLower_eq_separator (hascii c (by simp)) hdot] at hc
  rw [toLower_eq_separator (hascii d (by simp)) hdot] at hd
  rw [hc, hd, hnil]
  exact List.suffix_append a _

theorem head?_stripDot {host : List Char} (hne : stripDot host ≠ []) :
    (stripDot host).head? = host.head? := by
  rw [stripDot] at hne ⊢
  split_ifs at hne ⊢
  · rcases host with - | ⟨c, - | ⟨d, host⟩⟩
    · rfl
    · exact absurd rfl hne
    · rfl
  · rfl

/-- Folding keeps the brackets of a host. -/
theorem HostShape.foldHost {host : List Char} (h : HostShape host) (hascii : IsAscii host)
    (hne : KDown.foldHost host ≠ []) : HostShape (KDown.foldHost host) := by
  intro hhead
  have hbracket : '[' ∈ separators := by decide
  have hclose : ']' ∈ separators := by decide
  rw [KDown.foldHost, head?_stripDot hne, head?_toAsciiLowercase hascii hbracket] at hhead
  obtain ⟨inner, rfl, hinner⟩ := h hhead
  have hascii' : IsAscii inner := fun c hc => hascii c (List.mem_append_left _ hc)
  have hlower : toAsciiLowercase (inner ++ [']']) = toAsciiLowercase inner ++ [']'] :=
    toAsciiLowercase_append inner [']']
  refine ⟨toAsciiLowercase inner, ?_,
    fun hmem => hinner ((mem_toAsciiLowercase hascii' hclose).mp hmem)⟩
  rw [KDown.foldHost, hlower, stripDot_of_not]
  rw [List.getLast?_concat]
  decide

theorem mem_of_mem_foldHost {host : List Char} (hascii : IsAscii host) {d : Char}
    (hd : d ∈ separators) (hmem : d ∈ foldHost host) : d ∈ host :=
  (mem_toAsciiLowercase hascii hd).mp (mem_of_mem_stripDot hmem)

/-- Folding changes a folded host no more. -/
theorem foldHost_idem {host : List Char} (hascii : IsAscii host) (hdots : ¬ ['.', '.'] <:+ host) :
    foldHost (foldHost host) = foldHost host := by
  have hlower : toAsciiLowercase (foldHost host) = foldHost host := by
    apply toAsciiLowercase_eq_self
    intro c hc
    obtain ⟨d, hd, rfl⟩ := List.mem_map.mp (mem_of_mem_stripDot hc)
    exact toLower_toLower (hascii d hd)
  have hlast : (foldHost host).getLast? ≠ some '.' :=
    getLast?_stripDot fun h => hdots (suffix_toAsciiLowercase hascii h)
  rw [foldHost, hlower, stripDot_of_not hlast]

/-- For an ASCII host the identity is made of the folded host. -/
theorem normalizedOrigin_of_parts (l : Lowercase) {url scheme host : List Char} {port : ℕ}
    (hparts : originParts url = some (scheme, host, port)) (hascii : IsAscii host) :
    normalizedOrigin l url =
      if foldHost host = [] then none else some (originText scheme (foldHost host) port) := by
  rw [normalizedOrigin, hparts]
  show (if stripDot (l.lower host) = [] then none
    else some (originText scheme (stripDot (l.lower host)) port)) = _
  rw [l.ascii host hascii]
  rfl

/-- An identity has the scheme and the port of its URL, and the folded host. -/
theorem originParts_of_normalized (l : Lowercase) {url scheme host o : List Char} {port : ℕ}
    (hparts : originParts url = some (scheme, host, port)) (hascii : IsAscii host)
    (ho : normalizedOrigin l url = some o) :
    o = originText scheme (foldHost host) port ∧ foldHost host ≠ [] ∧
      originParts o = some (scheme, foldHost host, port) := by
  obtain ⟨hscheme, hshape, hport, hmem, hat⟩ := originParts_eq_some hparts
  rw [normalizedOrigin_of_parts l hparts hascii] at ho
  split_ifs at ho with hne
  obtain rfl := Option.some.inj ho
  have hauthority : ∀ c ∈ foldHost host, inAuthority c = true := by
    intro c hc
    rw [inAuthority, decide_eq_true_eq]
    intro hbad
    have hsep : c ∈ separators := by
      simp only [List.mem_cons, List.not_mem_nil, or_false] at hbad
      rcases hbad with rfl | rfl | rfl <;> decide
    have hc' := hmem c (mem_of_mem_foldHost hascii hsep hc)
    rw [inAuthority, decide_eq_true_eq] at hc'
    exact hc' hbad
  exact ⟨rfl, hne, originParts_originText hscheme (hshape.foldHost hascii hne) hport hauthority
    fun hc => hat (mem_of_mem_foldHost hascii (by decide) hc)⟩

/-- A URL with an ASCII host that does not end in two dots. -/
def PlainHost (url : List Char) : Prop :=
  ∀ parts ∈ originParts url, IsAscii parts.2.1 ∧ ¬ ['.', '.'] <:+ parts.2.1

/-- An identity is its own identity. -/
theorem normalizedOrigin_idem (l : Lowercase) {url o : List Char}
    (h : normalizedOrigin l url = some o) (hhost : PlainHost url) :
    normalizedOrigin l o = some o := by
  obtain ⟨⟨scheme, host, port⟩, hparts, -⟩ := Option.bind_eq_some_iff.mp h
  obtain ⟨hascii, hdots⟩ := hhost _ hparts
  obtain ⟨rfl, hne, hparts'⟩ := originParts_of_normalized l hparts hascii h
  have hfolded : IsAscii (foldHost host) := fun c hc =>
    toAsciiLowercase_ascii hascii c (mem_of_mem_stripDot hc)
  rw [normalizedOrigin_of_parts l hparts' hfolded, foldHost_idem hascii hdots, if_neg hne]

/-! ### URLs that differ in what the identity leaves out -/

/-- The host of a URL. -/
inductive UrlHost
  /-- A name, and whether a dot is written after it. -/
  | name (text : List Char) (dot : Bool)
  /-- What is in the brackets of an IP literal. -/
  | literal (inner : List Char)

namespace UrlHost

/-- The text of a host. -/
def text : UrlHost → List Char
  | .name text dot => text ++ if dot then ['.'] else []
  | .literal inner => '[' :: (inner ++ [']'])

/-- The host without the dot and in lower case. -/
def folded : UrlHost → List Char
  | .name text _ => toAsciiLowercase text
  | .literal inner => toAsciiLowercase ('[' :: (inner ++ [']']))

/-- The host has no character that ends it early. -/
def WellFormed : UrlHost → Prop
  | .name text _ => IsAscii text ∧ (∀ c ∈ text, c ∉ ['/', '?', '#', '@', ':']) ∧
      text.head? ≠ some '[' ∧ text.getLast? ≠ some '.'
  | .literal inner => IsAscii inner ∧ ∀ c ∈ inner, c ∉ ['/', '?', '#', '@', ']']

end UrlHost

/-- The text of an http(s) URL, by its parts. -/
structure OriginUrl where
  scheme : List Char
  userinfo : Option (List Char)
  host : UrlHost
  port : Option (List Char)
  /-- Path, query and fragment. -/
  tail : List Char
  scheme_ok : HttpScheme scheme
  userinfo_mem : ∀ u ∈ userinfo, ∀ c ∈ u, inAuthority c = true
  host_ok : host.WellFormed
  port_ok : ∀ p ∈ port, (parseU16 p).isSome = true
  tail_head : ∀ c ∈ tail.head?, inAuthority c = false

namespace OriginUrl

/-- The user information, with its sign. -/
def userinfoText (url : OriginUrl) : List Char := url.userinfo.elim [] (· ++ ['@'])

/-- The host, and the port behind its colon. -/
def hostPort (url : OriginUrl) : List Char := url.host.text ++ url.port.elim [] (':' :: ·)

/-- The text of the URL. -/
def text (url : OriginUrl) : List Char :=
  url.scheme ++ ("://".toList ++ (url.userinfoText ++ (url.hostPort ++ url.tail)))

/-- The explicit port, or the default of the scheme. -/
def effectivePort (url : OriginUrl) : ℕ :=
  (url.port.bind parseU16).getD (schemePort (toAsciiLowercase url.scheme))

/-- They agree in scheme, host and effective port, up to letter case and a dot
after the host. -/
structure SameOrigin (url url' : OriginUrl) : Prop where
  scheme : toAsciiLowercase url.scheme = toAsciiLowercase url'.scheme
  host : url.host.folded = url'.host.folded
  port : url.effectivePort = url'.effectivePort

end OriginUrl

/-- What the parser needs to know of a host. -/
structure HostSpec (host folded : List Char) : Prop where
  ascii : IsAscii host
  shape : HostShape host
  colon : host.head? ≠ some '[' → ':' ∉ host
  authority : ∀ c ∈ host, inAuthority c = true
  at_notMem : '@' ∉ host
  fold : foldHost host = folded

theorem inAuthority_of_notMem {c : Char} {cs : List Char} (h : c ∉ '/' :: '?' :: '#' :: cs) :
    inAuthority c = true := by
  rw [inAuthority, decide_eq_true_eq]
  intro hmem
  exact h (List.mem_append_left cs hmem)

/-- A name is folded to one spelling, from whichever spelling it has. -/
theorem hostSpec_name {text : List Char} {dot : Bool} (h : (UrlHost.name text dot).WellFormed) :
    HostSpec (UrlHost.name text dot).text (UrlHost.name text dot).folded := by
  obtain ⟨hascii, hmem, hhead, hlast⟩ := h
  have hdot : '.' ∈ separators := by decide
  have hlower : (toAsciiLowercase text).getLast? ≠ some '.' := fun h =>
    hlast ((getLast?_toAsciiLowercase hascii hdot).mp h)
  cases dot with
  | false =>
    show HostSpec (text ++ []) (toAsciiLowercase text)
    rw [List.append_nil]
    exact ⟨hascii, fun h => absurd h hhead, fun _ hc => hmem _ hc (by decide),
      fun c hc => inAuthority_of_notMem (hmem c hc), fun hc => hmem _ hc (by decide),
      stripDot_of_not hlower⟩
  | true =>
    show HostSpec (text ++ ['.']) (toAsciiLowercase text)
    have hcases : ∀ {P : Char → Prop}, (∀ c ∈ text, P c) → P '.' → ∀ c ∈ text ++ ['.'], P c :=
      fun htext hdot => List.forall_mem_append.mpr ⟨htext, List.forall_mem_singleton.mpr hdot⟩
    have hbracket : (text ++ ['.']).head? ≠ some '[' := by
      rcases text with - | ⟨c, text⟩
      · show some '.' ≠ some '['
        decide
      · exact hhead
    have hnot := hcases hmem (by decide)
    refine ⟨hcases hascii (by decide), fun h => absurd h hbracket, fun _ hc => ?_,
      fun c hc => inAuthority_of_notMem (hnot c hc), fun hc => ?_, ?_⟩
    · exact hnot _ hc (by decide)
    · exact hnot _ hc (by decide)
    · rw [foldHost, toAsciiLowercase_append]
      exact stripDot_append _

/-- So is a literal in brackets. -/
theorem hostSpec_literal {inner : List Char} (h : (UrlHost.literal inner).WellFormed) :
    HostSpec (UrlHost.literal inner).text (UrlHost.literal inner).folded := by
  obtain ⟨hascii, hmem⟩ := h
  have hcases : ∀ {P : Char → Prop}, (∀ c ∈ inner, P c) → P '[' → P ']' →
      ∀ c ∈ (UrlHost.literal inner).text, P c := by
    intro P hinner hopen hclose
    show ∀ c ∈ '[' :: (inner ++ [']']), P c
    rw [List.forall_mem_cons]
    exact ⟨hopen, List.forall_mem_append.mpr ⟨hinner, List.forall_mem_singleton.mpr hclose⟩⟩
  have hauthority : ∀ c ∈ inner, inAuthority c = true := fun c hc =>
    inAuthority_of_notMem (hmem c hc)
  have hat : ∀ c ∈ inner, c ≠ '@' := fun c hc heq => hmem c hc (by rw [heq]; decide)
  refine ⟨hcases hascii (by decide) (by decide), fun _ => ⟨'[' :: inner, rfl, ?_⟩,
    fun h => absurd rfl h, hcases hauthority (by decide) (by decide),
    fun hc => hcases hat (by decide) (by decide) _ hc rfl, ?_⟩
  · rw [List.mem_cons]
    rintro (h | h)
    · exact absurd h (by decide)
    · exact hmem _ h (by decide)
  · apply stripDot_of_not
    have hlower : toAsciiLowercase (UrlHost.literal inner).text =
        toAsciiLowercase ('[' :: inner) ++ [']'] := toAsciiLowercase_append ('[' :: inner) [']']
    rw [hlower, List.getLast?_concat]
    decide

theorem UrlHost.WellFormed.spec {host : UrlHost} (h : host.WellFormed) :
    HostSpec host.text host.folded := by
  cases host with
  | name text dot => exact hostSpec_name h
  | literal inner => exact hostSpec_literal h

namespace OriginUrl

variable {url url' : OriginUrl}

theorem userinfoText_ok (url : OriginUrl) : UserinfoText url.userinfoText := by
  have huser := url.userinfo_mem
  rw [userinfoText]
  generalize url.userinfo = userinfo at huser ⊢
  rcases userinfo with - | u
  · exact ⟨nofun, .inl rfl⟩
  · refine ⟨fun c hc => ?_, .inr ⟨u, rfl⟩⟩
    rcases List.mem_append.mp hc with hc | hc
    · exact huser u rfl c hc
    · rw [List.mem_singleton.mp hc]
      decide

/-- The port adds nothing that ends the authority. -/
theorem hostPort_mem {c : Char} (hc : c ∈ ['/', '?', '#', '@']) : c ∉ url.hostPort := by
  have hspec := url.host_ok.spec
  have hhost : c ∉ url.host.text := by
    intro hmem
    have hauthority := hspec.authority c hmem
    rw [inAuthority, decide_eq_true_eq] at hauthority
    simp only [List.mem_cons, List.not_mem_nil, or_false] at hc hauthority
    rcases hc with hc | hc | hc | rfl
    · exact hauthority (.inl hc)
    · exact hauthority (.inr (.inl hc))
    · exact hauthority (.inr (.inr hc))
    · exact hspec.at_notMem hmem
  have hport := url.port_ok
  rw [hostPort, List.mem_append, not_or]
  refine ⟨hhost, ?_⟩
  generalize url.port = port at hport
  rcases port with - | p
  · exact List.not_mem_nil
  · obtain ⟨n, hn⟩ := Option.isSome_iff_exists.mp (hport p rfl)
    have hdecimal := (parseU16_eq_some.mp hn).1
    show c ∉ ':' :: p
    rw [List.mem_cons, not_or]
    simp only [List.mem_cons, List.not_mem_nil, or_false] at hc
    rcases hc with rfl | rfl | rfl | rfl <;>
      exact ⟨by decide, hdecimal.not_mem (by decide) (by decide)⟩

/-- Host and port are told apart again. -/
theorem splitHostPort_hostPort (url : OriginUrl) :
    splitHostPort url.hostPort (schemePort (toAsciiLowercase url.scheme)) =
      some (url.host.text, url.effectivePort) := by
  have hspec := url.host_ok.spec
  have hport := url.port_ok
  rw [hostPort, effectivePort]
  generalize url.port = port at hport ⊢
  rcases port with - | p
  · show splitHostPort (url.host.text ++ []) _ = _
    rw [List.append_nil]
    exact splitHostPort_bare hspec.shape hspec.colon _
  · obtain ⟨n, hn⟩ := Option.isSome_iff_exists.mp (hport p rfl)
    show splitHostPort (url.host.text ++ ':' :: p) _ =
      some (url.host.text, (parseU16 p).getD _)
    rw [hn]
    exact splitHostPort_port hspec.shape hn _

/-- The parts of a URL are those it was put together from. -/
theorem originParts_text (url : OriginUrl) : originParts url.text =
    if url.hostPort = [] then none
    else some (toAsciiLowercase url.scheme, url.host.text, url.effectivePort) := by
  have hauthority : ∀ c ∈ url.hostPort, inAuthority c = true := by
    intro c hc
    rw [inAuthority, decide_eq_true_eq]
    intro hend
    exact hostPort_mem (List.mem_append_left ['@'] hend) hc
  have hat : '@' ∉ url.hostPort := hostPort_mem (by decide)
  rw [text, KDown.originParts_text url.scheme_ok url.userinfoText_ok hauthority hat url.tail_head,
    splitHostPort_hostPort]
  rfl

/-- The identity of a URL, by its parts. -/
theorem normalizedOrigin_text (l : Lowercase) (url : OriginUrl) : normalizedOrigin l url.text =
    if url.host.folded = [] then none
    else some (originText (toAsciiLowercase url.scheme) url.host.folded url.effectivePort) := by
  have hspec := url.host_ok.spec
  have hparts := url.originParts_text
  by_cases hnil : url.hostPort = []
  · have hhost : url.host.text = [] := (List.append_eq_nil_iff.mp hnil).1
    have hfolded : url.host.folded = [] := by
      rw [← hspec.fold, hhost]
      rfl
    rw [if_pos hnil] at hparts
    rw [if_pos hfolded, normalizedOrigin, hparts]
    rfl
  · rw [if_neg hnil] at hparts
    rw [normalizedOrigin_of_parts l hparts hspec.ascii, hspec.fold]

theorem SameOrigin.normalizedOrigin_eq (l : Lowercase) (h : SameOrigin url url') :
    normalizedOrigin l url.text = normalizedOrigin l url'.text := by
  rw [normalizedOrigin_text, normalizedOrigin_text, h.scheme, h.host, h.port]

/-- The identity has the scheme, the host and the port in it. -/
theorem sameOrigin_of_normalizedOrigin_eq {l : Lowercase} (hne : url.host.folded ≠ [])
    (h : normalizedOrigin l url.text = normalizedOrigin l url'.text) : SameOrigin url url' := by
  have hidentity : ∀ u : OriginUrl, u.host.folded ≠ [] →
      ∃ o, normalizedOrigin l u.text = some o ∧
        originParts o = some (toAsciiLowercase u.scheme, u.host.folded, u.effectivePort) := by
    intro u hu
    have ho := u.normalizedOrigin_text l
    rw [if_neg hu] at ho
    have hspec := u.host_ok.spec
    have hport : u.hostPort ≠ [] := by
      intro hnil
      apply hu
      rw [← hspec.fold, (List.append_eq_nil_iff.mp hnil).1]
      rfl
    have hparts := u.originParts_text
    rw [if_neg hport] at hparts
    obtain ⟨-, -, hback⟩ := originParts_of_normalized l hparts hspec.ascii ho
    rw [hspec.fold] at hback
    exact ⟨_, ho, hback⟩
  obtain ⟨o, ho, hparts⟩ := hidentity url hne
  have hne' : url'.host.folded ≠ [] := by
    intro hnil
    rw [normalizedOrigin_text l url', if_pos hnil, ho] at h
    cases h
  obtain ⟨o', ho', hparts'⟩ := hidentity url' hne'
  rw [ho, ho'] at h
  cases h
  rw [hparts'] at hparts
  obtain ⟨hscheme, hhost, hport⟩ : _ = _ ∧ _ = _ ∧ _ = _ := by simpa using hparts
  exact ⟨hscheme.symm, hhost.symm, hport.symm⟩

end OriginUrl

/-- **Origin normalization is a canonical form.** -/
theorem origin_canonical (l : Lowercase) :
    (∀ url o, PlainHost url → normalizedOrigin l url = some o → normalizedOrigin l o = some o) ∧
      (∀ u v : OriginUrl, u.SameOrigin v → normalizedOrigin l u.text = normalizedOrigin l v.text) ∧
      (∀ u : OriginUrl, u.host.folded ≠ [] → (normalizedOrigin l u.text).isSome = true) ∧
      ∀ u v : OriginUrl, ¬ u.SameOrigin v → u.host.folded ≠ [] →
        normalizedOrigin l u.text ≠ normalizedOrigin l v.text := by
  refine ⟨fun url o hhost h => normalizedOrigin_idem l h hhost,
    fun u v h => h.normalizedOrigin_eq l, fun u hu => ?_, fun u v hnot hu h => ?_⟩
  · rw [u.normalizedOrigin_text l, if_neg hu]
    rfl
  · exact hnot (OriginUrl.sameOrigin_of_normalizedOrigin_eq hu h)

/-- Lowercasing of ASCII texts alone. -/
def asciiLowercase : Lowercase := ⟨toAsciiLowercase, fun _ _ => rfl⟩

/-- `HTTPS://me@Host.:443/a`. -/
def upperHostUrl : OriginUrl where
  scheme := "HTTPS".toList
  userinfo := some "me".toList
  host := .name "Host".toList true
  port := some "443".toList
  tail := "/a".toList
  scheme_ok := .inr (by decide)
  userinfo_mem := by
    rintro u ⟨⟩
    exact forall_mem_of_all (by decide)
  host_ok := ⟨forall_mem_of_all (by decide), forall_mem_of_all (by decide), by decide, by decide⟩
  port_ok := by
    rintro p ⟨⟩
    decide
  tail_head := by
    rintro c ⟨⟩
    decide

/-- `https://host`. -/
def bareHostUrl : OriginUrl where
  scheme := "https".toList
  userinfo := none
  host := .name "host".toList false
  port := none
  tail := []
  scheme_ok := .inr (by decide)
  userinfo_mem := nofun
  host_ok := ⟨forall_mem_of_all (by decide), forall_mem_of_all (by decide), by decide, by decide⟩
  port_ok := nofun
  tail_head := nofun

/-- The two spellings are one origin. -/
theorem origin_canonical_example :
    normalizedOrigin asciiLowercase upperHostUrl.text =
      normalizedOrigin asciiLowercase bareHostUrl.text :=
  (origin_canonical asciiLowercase).2.1 upperHostUrl bareHostUrl ⟨by decide, by decide, by decide⟩

end KDown

import Dvpn.Fingerprint.Base32

/-!
# Fingerprints in host names (`parse_hostname_fingerprint` in `util.c`)

A host name carries the fingerprint of the host in a label of its own: `z2bq` and the 52 characters
of `print_fingerprint`, with a dot behind them. The name is searched label by label.

* A name is its characters and the terminator, with nothing behind them: a read past the terminator
  is a `Crash`.
* `dotLabels` are the labels of a name that end in a dot, in order.
* `labelFingerprint_spec`: the test at the start of a label is passed by a fingerprint and by
  nothing else, although it reads as many characters as a fingerprint has wherever the label ends.
* `hostname_fingerprint`: the search finds the leftmost label that is a fingerprint.
-/

namespace Dvpn

/-- `strlen`. -/
def strlen : Bytes → Except Crash Nat
  | [] => .error .outside
  | c :: s => if c = 0 then .ok 0 else (· + 1) <$> strlen s

/-- `strncmp`. -/
def strncmp : Bytes → Bytes → Nat → Except Crash Int
  | _, _, 0 => .ok 0
  | c :: s, d :: t, n + 1 =>
    if c ≠ d then .ok (c.toNat - d.toNat) else if c = 0 then .ok 0 else strncmp s t n
  | [], _, _ + 1 => .error .outside
  | _ :: _, [], _ + 1 => .error .outside

/-- `strchr`: the string from the first `ch` on. -/
def strchr : Bytes → UInt8 → Except Crash (Option Bytes)
  | [], _ => .error .outside
  | c :: s, ch => if c = ch then .ok (some (c :: s)) else if c = 0 then .ok none else strchr s ch

theorem strchr_length {s c : Bytes} {ch : UInt8} (h : strchr s ch = .ok (some c)) :
    (c.drop 1).length < s.length := by
  induction s with
  | nil => cases h
  | cons d s ih =>
    unfold strchr at h
    split_ifs at h
    · cases h
      exact Nat.lt_succ_self _
    · cases h
    · exact (ih h).trans (Nat.lt_succ_self _)

/-- The code of `'.'`. -/
def dot : UInt8 := 46

/-- The condition of the loop body of `parse_hostname_fingerprint`. -/
def labelFingerprint (id hostname : Bytes) : Except Crash (Bytes × Bool) := do
  let cmp ← strncmp hostname (ascii "z2bq" ++ [0]) 4
  if cmp ≠ 0 then return (id, false)
  let (id, ret) ← parseBase32Fingerprint id (hostname.drop 4)
  if ret ≠ 0 then return (id, false)
  return (id, (← byteAt hostname 56) = dot)

/-- `parse_hostname_fingerprint`: the memory at `id` and the result. -/
def parseHostnameFingerprint (id hostname : Bytes) : Except Crash (Bytes × Int) := do
  let len ← strlen hostname
  if ¬ 56 < len then return (id, -1)
  let (id, found) ← labelFingerprint id hostname
  if found then return (id, 0)
  match h : strchr hostname dot with
  | .error e => throw e
  | .ok none => return (id, -1)
  | .ok (some c) => parseHostnameFingerprint id (c.drop 1)
termination_by hostname.length
decreasing_by exact strchr_length h

/-! ## Labels -/

/-- The labels of a name that end in a dot. -/
def dotLabels (s : Bytes) : List Bytes := (s.splitOn dot).dropLast

/-- A label that carries a fingerprint. -/
def IsFingerprintLabel (l : Bytes) : Prop :=
  l.take 4 = ascii "z2bq" ∧ (l.drop 4).length = 52 ∧ ∀ c ∈ l.drop 4, lower c ∈ base32

instance : DecidablePred IsFingerprintLabel := fun l =>
  inferInstanceAs (Decidable (l.take 4 = ascii "z2bq" ∧ (l.drop 4).length = 52 ∧
    ∀ c ∈ l.drop 4, lower c ∈ base32))

section Search

variable {s l : Bytes} {c : UInt8}

theorem dotLabels_single (h : dot ∉ s) : dotLabels s = [] := by
  have hsplit : s.splitOn dot = [s] :=
    List.splitOnP_eq_singleton fun x hx => beq_false_of_ne fun hxd : x = dot => h (hxd ▸ hx)
  unfold dotLabels
  rw [hsplit]
  rfl

theorem dotLabels_append (h : dot ∉ l) : dotLabels (l ++ dot :: s) = l :: dotLabels s := by
  have hsplit : (l ++ dot :: s).splitOn dot = l :: s.splitOn dot :=
    List.splitOnP_append_cons_of_forall_mem
      (fun x hx => beq_false_of_ne fun hxd : x = dot => h (hxd ▸ hx)) dot (by simp) s
  have hne : s.splitOn dot ≠ [] := List.splitOnP_ne_nil _ s
  unfold dotLabels
  rw [hsplit, List.dropLast_cons_of_ne_nil hne]

/-- A name is one label, or a label, a dot and a name. -/
@[elab_as_elim]
theorem dots_induction {motive : Bytes → Prop} (single : ∀ s, dot ∉ s → motive s)
    (append : ∀ l s, dot ∉ l → motive s → motive (l ++ dot :: s)) (s : Bytes) : motive s := by
  induction hn : s.length using Nat.strong_induction_on generalizing s with
  | _ n ih =>
    by_cases hd : dot ∈ s
    · obtain ⟨l, s', rfl, hl⟩ := List.eq_append_cons_of_mem hd
      exact append l s' hl (ih s'.length (by simp [← hn]; omega) s' rfl)
    · exact single s hd

theorem length_lt_of_mem_dotLabels (s : Bytes) : ∀ l ∈ dotLabels s, l.length < s.length := by
  induction s using dots_induction with
  | single s hs => exact fun l hl => absurd (dotLabels_single hs ▸ hl) List.not_mem_nil
  | append l₀ s hl₀ ih =>
    intro l hl
    rw [dotLabels_append hl₀] at hl
    rw [List.length_append, List.length_cons]
    rcases List.mem_cons.mp hl with rfl | hl
    · omega
    · exact (ih l hl).trans (by omega)

theorem IsFingerprintLabel.length (h : IsFingerprintLabel l) : l.length = 56 := by
  have hlen := h.2.1
  rw [List.length_drop] at hlen
  omega

theorem IsFingerprintLabel.dot_not_mem (h : IsFingerprintLabel l) : dot ∉ l := by
  intro hd
  rw [← List.take_append_drop 4 l, h.1] at hd
  rcases List.mem_append.mp hd with hd | hd
  · exact absurd hd (by decide)
  · exact absurd (h.2.2 dot hd) (by decide)

/-! ## The string functions on a terminated string -/

theorem strlen_spec (h : 0 ∉ s) : strlen (s ++ [0]) = .ok s.length := by
  induction s with
  | nil => rfl
  | cons c s ih =>
    obtain ⟨hc, hs⟩ := List.ne_and_not_mem_of_not_mem_cons h
    rw [List.cons_append, strlen, if_neg (Ne.symm hc), ih hs]
    rfl

theorem strncmp_spec {u v : Bytes} (hlen : u.length = v.length) (hv : 0 ∉ v) (x y : Bytes) :
    ∃ r, strncmp (u ++ x) (v ++ y) v.length = .ok r ∧ (r = 0 ↔ u = v) := by
  induction u generalizing v with
  | nil =>
    obtain rfl := List.length_eq_zero_iff.mp hlen.symm
    exact ⟨0, by simp [strncmp], iff_of_true rfl rfl⟩
  | cons c u ih =>
    cases v with
    | nil => cases hlen
    | cons d v =>
      obtain ⟨hd, hv'⟩ := List.ne_and_not_mem_of_not_mem_cons hv
      rw [List.cons_append, List.cons_append, List.length_cons, strncmp]
      by_cases hcd : c = d
      · subst hcd
        obtain ⟨r, hrun, hr⟩ := ih (Nat.succ.inj hlen) hv'
        rw [if_neg (not_not.mpr rfl), if_neg (Ne.symm hd)]
        exact ⟨r, hrun, hr.trans (by simp)⟩
      · rw [if_pos hcd]
        refine ⟨_, rfl, iff_of_false (fun h => hcd ?_) fun h => hcd (List.head_eq_of_cons_eq h)⟩
        exact UInt8.toNat_inj.mp (by omega)

theorem strchr_dot (hl : dot ∉ l) (hl0 : 0 ∉ l) (x : Bytes) :
    strchr (l ++ dot :: x) dot = .ok (some (dot :: x)) := by
  induction l with
  | nil => exact if_pos rfl
  | cons c l ih =>
    obtain ⟨hc, hl⟩ := List.ne_and_not_mem_of_not_mem_cons hl
    obtain ⟨hc0, hl0⟩ := List.ne_and_not_mem_of_not_mem_cons hl0
    rw [List.cons_append, strchr, if_neg (Ne.symm hc), if_neg (Ne.symm hc0), ih hl hl0]

theorem strchr_none (hs : dot ∉ s) (hs0 : 0 ∉ s) : strchr (s ++ [0]) dot = .ok none := by
  induction s with
  | nil => rfl
  | cons c s ih =>
    obtain ⟨hc, hs⟩ := List.ne_and_not_mem_of_not_mem_cons hs
    obtain ⟨hc0, hs0⟩ := List.ne_and_not_mem_of_not_mem_cons hs0
    rw [List.cons_append, strchr, if_neg (Ne.symm hc), if_neg (Ne.symm hc0), ih hs hs0]

/-! ## The search -/

/-- **The test at the start of a label** of a name that is long enough for it. -/
theorem labelFingerprint_spec {a : Bytes} (ha : a.length = 32) (hs : 56 < s.length)
    (rest : Bytes) :
    ∃ a' found, labelFingerprint (a ++ rest) (s ++ [0]) = .ok (a' ++ rest, found) ∧
      a'.length = 32 ∧ (found = true ↔ IsFingerprintLabel (s.take 56) ∧ s.getD 56 0 = dot) ∧
      (found = true → ∀ old : NodeId,
        parseBase32Fingerprint old.1 ((s.take 56).drop 4) = .ok (a', 0)) := by
  have hlen4 : (s.take 4).length = 4 := by rw [List.length_take]; omega
  have hdrop : (s.take 56).drop 4 = (s.drop 4).take 52 := by rw [List.drop_take]
  have hlen52 : ((s.take 56).drop 4).length = 52 := by
    rw [hdrop, List.length_take, List.length_drop]
    omega
  have htake : (s.take 56).take 4 = s.take 4 := by rw [List.take_take]; rfl
  have hname : (s ++ [0]).drop 4 = (s.take 56).drop 4 ++ (s.drop 56 ++ [0]) := by
    rw [List.drop_append_of_le_length (by omega), hdrop, ← List.append_assoc]
    refine congrArg (· ++ _) ?_
    rw [show s.drop 56 = (s.drop 4).drop 52 by rw [List.drop_drop], List.take_append_drop]
  obtain ⟨cmp, hcmp, hcmp0⟩ := strncmp_spec (u := s.take 4) (v := ascii "z2bq") (by rw [hlen4]; rfl)
    (by decide) (s.drop 4 ++ [0]) [0]
  rw [← List.append_assoc, List.take_append_drop] at hcmp
  obtain ⟨a', r, hrun, ha', -, hr, hnum⟩ :=
    parseBase32Fingerprint_spec hlen52 ha rest (s.drop 56 ++ [0])
  have hat := byteAt_append hs [0]
  unfold labelFingerprint
  change ∃ a' found, (strncmp (s ++ [0]) (ascii "z2bq" ++ [0]) (ascii "z2bq").length >>= _) = _ ∧ _
  rw [hcmp, ok_bind]
  have hlabel : IsFingerprintLabel (s.take 56) ↔ cmp = 0 ∧ r = 0 := by
    unfold IsFingerprintLabel
    rw [htake, ← hcmp0, hr, and_iff_right hlen52]
  by_cases hz : cmp = 0
  · rw [if_neg (not_not.mpr hz), hname, hrun, ok_bind]
    dsimp only
    by_cases hr0 : r = 0
    · rw [if_neg (not_not.mpr hr0), hat, ok_bind, pure_eq_ok]
      refine ⟨a', _, rfl, ha', ?_, fun _ old => ?_⟩
      · rw [decide_eq_true_iff, hlabel, and_iff_right ⟨hz, hr0⟩]
      · obtain ⟨a₁, r₁, hrun₁, ha₁, -, hr₁, hnum₁⟩ :=
          parseBase32Fingerprint_spec hlen52 old.length_val [] []
        obtain rfl := hr₁.mpr (hr.mp hr0)
        obtain rfl : a₁ = a' := littleEndian_injective (ha₁.trans ha'.symm)
          ((hnum₁ rfl).trans (hnum hr0).symm)
        simpa only [List.append_nil] using hrun₁
    · rw [if_pos hr0]
      exact ⟨a', false, rfl, ha', iff_of_false (by decide) fun h => hr0 (hlabel.mp h.1).2,
        fun h => absurd h (by decide)⟩
  · rw [if_pos hz]
    exact ⟨a, false, rfl, ha, iff_of_false (by decide) fun h => hz (hlabel.mp h.1).1,
      fun h => absurd h (by decide)⟩

/-- The first 56 characters are a fingerprint with a dot behind them when the first label is one. -/
theorem first_label (hl : dot ∉ l) (s : Bytes) :
    IsFingerprintLabel ((l ++ dot :: s).take 56) ∧ (l ++ dot :: s).getD 56 0 = dot ↔
      IsFingerprintLabel l := by
  have hat : (l ++ dot :: s).getD l.length 0 = dot := by simp
  constructor
  · rintro ⟨h, hd⟩
    have hlen : l.length = 56 := by
      rcases lt_trichotomy l.length 56 with hlt | heq | hgt
      · -- the dot would be among the characters of the fingerprint
        refine absurd ?_ h.dot_not_mem
        rw [List.take_append, List.take_of_length_le hlt.le]
        refine List.mem_append_right _ ?_
        rw [show 56 - l.length = (55 - l.length) + 1 by omega, List.take_succ_cons]
        exact List.mem_cons_self
      · exact heq
      · -- the character behind the fingerprint would be in the label
        rw [List.getD_append _ _ _ _ hgt, List.getD_eq_getElem _ _ hgt] at hd
        exact absurd (hd ▸ List.getElem_mem hgt) hl
    rwa [← hlen, List.take_left] at h
  · intro h
    have hlen := h.length
    rw [← hlen, List.take_left]
    exact ⟨h, hat⟩

/-- A label is tested, and the search goes on behind its dot. -/
theorem parseHostname_step {id id' : Bytes} {found : Bool} {next : Option Bytes} (hs : 0 ∉ s)
    (h : 56 < s.length) (hrun : labelFingerprint id (s ++ [0]) = .ok (id', found))
    (hnext : strchr (s ++ [0]) dot = .ok next) : parseHostnameFingerprint id (s ++ [0]) =
      if found then .ok (id', 0)
      else next.elim (.ok (id', -1)) fun c => parseHostnameFingerprint id' (c.drop 1) := by
  rw [parseHostnameFingerprint, strlen_spec hs, ok_bind, if_neg (not_not.mpr h), hrun, ok_bind]
  dsimp only
  cases found with
  | true => rfl
  | false =>
    rw [if_neg (by decide), if_neg (by decide)]
    split
    · next e he => cases hnext.symm.trans he
    · next he =>
      cases hnext.symm.trans he
      rfl
    · next c he =>
      cases hnext.symm.trans he
      rfl

/-- A name that is too short for a fingerprint and a dot. -/
theorem parseHostname_short (hs : 0 ∉ s) (h : ¬ 56 < s.length) (id : Bytes) :
    parseHostnameFingerprint id (s ++ [0]) = .ok (id, -1) ∧
      ∀ l ∈ dotLabels s, ¬ IsFingerprintLabel l := by
  constructor
  · rw [parseHostnameFingerprint, strlen_spec hs, ok_bind, if_pos h]
    rfl
  · intro l hl hlabel
    have hlt := length_lt_of_mem_dotLabels s l hl
    rw [hlabel.length] at hlt
    exact h hlt

/-- What the result says of the labels that were searched. -/
structure Searched (labels : List Bytes) (id : Bytes) (r : Int) : Prop where
  code : r = 0 ∨ r = -1
  found : r = 0 ↔ ∃ l ∈ labels, IsFingerprintLabel l
  leftmost : ∀ l, labels.find? (fun l => IsFingerprintLabel l) = some l → ∀ old : NodeId,
    parseBase32Fingerprint old.1 (l.drop 4) = .ok (id, 0)

theorem searched_none {labels : List Bytes} (h : ∀ l ∈ labels, ¬ IsFingerprintLabel l)
    (id : Bytes) : Searched labels id (-1) where
  code := Or.inr rfl
  found := iff_of_false (by decide) fun ⟨l, hl, hlabel⟩ => h l hl hlabel
  leftmost l hl := by
    have hlabel := List.find?_some hl
    exact absurd (of_decide_eq_true hlabel) (h l (List.mem_of_find?_eq_some hl))

theorem searched_hit {id : Bytes} (h : IsFingerprintLabel l)
    (hid : ∀ old : NodeId, parseBase32Fingerprint old.1 (l.drop 4) = .ok (id, 0))
    (labels : List Bytes) : Searched (l :: labels) id 0 where
  code := Or.inl rfl
  found := iff_of_true rfl ⟨l, List.mem_cons_self, h⟩
  leftmost l' hl' := by
    rw [List.find?_cons_of_pos (by simp [h])] at hl'
    obtain rfl := Option.some.inj hl'
    exact hid

theorem Searched.cons {labels : List Bytes} {id : Bytes} {r : Int} (h : Searched labels id r)
    (hl : ¬ IsFingerprintLabel l) : Searched (l :: labels) id r where
  code := h.code
  found := h.found.trans (by simp [hl])
  leftmost l' hl' := by
    rw [List.find?_cons_of_neg (by simp [hl])] at hl'
    exact h.leftmost l' hl'

/-- **The search** from a label on. -/
theorem parseHostname_spec (s : Bytes) : 0 ∉ s → ∀ {a : Bytes}, a.length = 32 → ∀ rest : Bytes,
    ∃ (a' : Bytes) (r : Int),
      parseHostnameFingerprint (a ++ rest) (s ++ [0]) = .ok (a' ++ rest, r) ∧ a'.length = 32 ∧
      Searched (dotLabels s) a' r := by
  induction s using dots_induction with
  | single s hs =>
    intro hs0 a ha rest
    have hnone : ∀ l ∈ dotLabels s, ¬ IsFingerprintLabel l :=
      fun l hl => absurd (dotLabels_single hs ▸ hl) List.not_mem_nil
    by_cases hlong : 56 < s.length
    · obtain ⟨a', found, hrun, ha', hfound, -⟩ := labelFingerprint_spec ha hlong rest
      -- there is no dot at the place behind the fingerprint
      have hfalse : found = false := by
        rw [← Bool.not_eq_true, hfound]
        rintro ⟨-, hd⟩
        rw [List.getD_eq_getElem _ _ hlong] at hd
        exact hs (hd ▸ List.getElem_mem hlong)
      rw [parseHostname_step hs0 hlong hrun (strchr_none hs hs0), hfalse]
      exact ⟨a', -1, rfl, ha', searched_none hnone a'⟩
    · exact ⟨a, -1, (parseHostname_short hs0 hlong _).1, ha, searched_none hnone a⟩
  | append l s hl ih =>
    intro hs0 a ha rest
    have hl0 : 0 ∉ l := fun h => hs0 (List.mem_append_left _ h)
    have hs0' : 0 ∉ s := fun h => hs0 (List.mem_append_right _ (List.mem_cons_of_mem _ h))
    by_cases hlong : 56 < (l ++ dot :: s).length
    · obtain ⟨a', found, hrun, ha', hfound, hid⟩ := labelFingerprint_spec ha hlong rest
      have hchr := strchr_dot hl hl0 (s ++ [0])
      rw [← List.cons_append, ← List.append_assoc] at hchr
      rw [parseHostname_step hs0 hlong hrun hchr, dotLabels_append hl]
      rw [first_label hl s] at hfound
      cases found with
      | true =>
        have hlabel := hfound.mp rfl
        refine ⟨a', 0, rfl, ha', searched_hit hlabel (fun old => ?_) _⟩
        have h := hid rfl old
        rwa [← hlabel.length, List.take_left] at h
      | false =>
        obtain ⟨a₁, r, hrun₁, ha₁, hsearch⟩ := ih hs0' ha' rest
        exact ⟨a₁, r, hrun₁, ha₁, hsearch.cons fun h => absurd (hfound.mpr h) (by decide)⟩
    · obtain ⟨hrun, hnone⟩ := parseHostname_short hs0 hlong (a ++ rest)
      exact ⟨a, -1, hrun, ha, searched_none hnone a⟩

end Search

/-- **`parse_hostname_fingerprint`** of a name finds its leftmost label that is a fingerprint. -/
theorem hostname_fingerprint {s : Bytes} (hs : 0 ∉ s) (old : NodeId) (rest : Bytes) :
    ∃ (id : NodeId) (r : Int),
      parseHostnameFingerprint (old.1 ++ rest) (s ++ [0]) = .ok (id.1 ++ rest, r) ∧
      (r = 0 ∨ r = -1) ∧ (r = 0 ↔ ∃ l ∈ dotLabels s, IsFingerprintLabel l) ∧
      ∀ l, (dotLabels s).find? (fun l => IsFingerprintLabel l) = some l →
        parseBase32Fingerprint old.1 (l.drop 4) = .ok (id.1, 0) := by
  obtain ⟨a, r, hrun, ha, h⟩ := parseHostname_spec s hs old.length_val rest
  exact ⟨⟨a, ha⟩, r, hrun, h.code, h.found, fun l hl => h.leftmost l hl old⟩

/-- A near miss before the fingerprint. -/
def twoLabels : Bytes :=
  ascii "z2bq0.z2bq0000000000000000000000000000000000000000000000000000.net"

theorem hostname_fingerprint_twoLabels : ∃ (id : NodeId) (r : Int),
    parseHostnameFingerprint (zeroId.1 ++ []) (twoLabels ++ [0]) = .ok (id.1 ++ [], r) ∧ r = 0 := by
  obtain ⟨id, r, hrun, -, hr, -⟩ :=
    hostname_fingerprint (s := twoLabels) (by decide +kernel) zeroId []
  refine ⟨id, r, hrun, hr.mpr ?_⟩
  have h : ((dotLabels twoLabels).any fun l => IsFingerprintLabel l) = true := by decide +kernel
  obtain ⟨l, hl, hlabel⟩ := List.any_eq_true.mp h
  exact ⟨l, hl, of_decide_eq_true hlabel⟩

end Dvpn

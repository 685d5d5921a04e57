import Dvpn.Lsa.Diff
import Dvpn.Lsa.RoundTrip

/-!
# What `lsa_diff` reports (`lsa_diff.c:56-143`)

`lsaDiffCalls` is `lsa_diff` with the calls that it makes of its callbacks; a missing `attr_add` or
`attr_del` is a callback that does nothing. `Reports` says what it should report: one call for each
(type, key) pair on which the two root sets differ, in the order of the pairs.

`attr_cmp` compares two sets in their wire form, which has all that is serialised; of two plain
attributes it compares the data and leaves out the signed flag.

* `wire_inj`, `attrsWire_injects`: different attributes, and different trees, have different wire
  forms.
* `lsa_diff_iff`: `lsa_diff` reports exactly the differences iff no two plain attributes differ in
  the signed flag alone.
-/

namespace Dvpn

/-! ## The code -/

/-- `add`, `mod` and `del` (`lsa_diff.c:45-120`): what is added to `diffs`, and the calls. -/
def diffCall (hasMod : Bool) : Avl.Diff Attr → Except Crash (Nat × List (Avl.Diff Attr))
  | .add b => return (1, [.add b])
  | .mod a b => do
    if ← attrCmp a b then return (1, if hasMod then [.mod a b] else [.del a, .add b])
    else return (0, [])
  | .del a => return (1, [.del a])

/-- The callbacks of `avl_diff` one after the other. -/
def diffCalls (hasMod : Bool) :
    List (Avl.Diff Attr) → Except Crash (Nat × List (Avl.Diff Attr))
  | [] => return (0, [])
  | d :: ds => do
    let (n, calls) ← diffCall hasMod d
    let (m, calls') ← diffCalls hasMod ds
    return (n + m, calls ++ calls')

/-- The root attributes of an LSA; NULL has none. -/
def rootOf (lsa : Option Lsa) : AttrSet := (lsa.map Lsa.root).getD []

/-- `lsa_diff` (`lsa_diff.c:122-143`): the return value and the calls; `hasMod` is
`attr_mod != NULL`. -/
def lsaDiffCalls (hasMod : Bool) (a b : Option Lsa) : Except Crash (Nat × List (Avl.Diff Attr)) :=
  diffCalls hasMod (Avl.diff compareAttrKeys (rootOf a) (rootOf b))

theorem countDiffs_eq (hasMod : Bool) (ds : List (Avl.Diff Attr)) :
    countDiffs ds = (diffCalls hasMod ds).map Prod.fst := by
  induction ds with
  | nil => rfl
  | cons d ds ih =>
    cases d with
    | add b =>
      rw [countDiffs, ih, diffCalls]
      cases diffCalls hasMod ds <;> simp [diffCall, Except.map, Nat.add_comm]
    | del a =>
      rw [countDiffs, ih, diffCalls]
      cases diffCalls hasMod ds <;> simp [diffCall, Except.map, Nat.add_comm]
    | mod a b =>
      rw [countDiffs, ih, diffCalls]
      cases hc : attrCmp a b with
      | error e => simp [diffCall, hc, Except.map]
      | ok differ =>
        cases diffCalls hasMod ds <;> cases differ <;>
          simp [diffCall, hc, Except.map, Nat.add_comm]

/-- The comparison that the RIBs make counts these calls. -/
theorem lsaDiff_eq (hasMod : Bool) (a b : Option Lsa) :
    lsaDiff a b = (lsaDiffCalls hasMod a b).map Prod.fst := countDiffs_eq hasMod _

/-! ## Wire forms tell attributes apart -/

/-- The attribute's type is an `int`. -/
def Attr.IntType (a : Attr) : Prop := -2 ^ 31 ≤ a.type ∧ a.type < 2 ^ 31

instance : DecidablePred Attr.IntType := fun a =>
  inferInstanceAs (Decidable (-2 ^ 31 ≤ a.type ∧ a.type < 2 ^ 31))

section Wire

variable {a b : Attr} {l l' : AttrSet} {r r' : Bytes}

theorem intBytes_inj {v w : Nat} (hv : v < 2 ^ 64) (hw : w < 2 ^ 64)
    (h : intBytes v ++ r = intBytes w ++ r') : v = w ∧ r = r' := by
  have hread := srcReadUint64_intBytes hv r
  rw [h, srcReadUint64_intBytes hw] at hread
  obtain ⟨rfl, rfl⟩ := Prod.mk.inj (Except.ok.inj hread)
  exact ⟨rfl, rfl⟩

/-- A length and its data, followed by something. -/
theorem sized_inj {x y : Bytes} (hx : x.length < 2 ^ 64) (hy : y.length < 2 ^ 64)
    (h : intBytes x.length ++ x ++ r = intBytes y.length ++ y ++ r') : x = y ∧ r = r' := by
  rw [List.append_assoc, List.append_assoc] at h
  obtain ⟨hlen, h⟩ := intBytes_inj hx hy h
  exact List.append_inj h hlen

theorem attrFlags_inj : ∀ {k i s k' i' s' : Bool}, attrFlags k i s = attrFlags k' i' s' →
    k = k' ∧ i = i' ∧ s = s' := by
  decide

theorem headWire_inj {t t' : Int} {i s i' s' : Bool} {k k' : Bytes}
    (ht : -2 ^ 31 ≤ t ∧ t < 2 ^ 31) (ht' : -2 ^ 31 ≤ t' ∧ t' < 2 ^ 31) (hk : k.length < 2 ^ 64)
    (hk' : k'.length < 2 ^ 64) (h : headWire t i s k ++ r = headWire t' i' s' k' ++ r') :
    t = t' ∧ i = i' ∧ s = s' ∧ k = k' ∧ r = r' := by
  have hflags : ∀ k i s : Bool, attrFlags k i s < 2 ^ 64 := by decide
  unfold headWire at h
  simp only [List.append_assoc] at h
  obtain ⟨htype, h1⟩ := intBytes_inj (by omega) (by omega) h
  obtain ⟨hfl, h2⟩ := intBytes_inj (hflags _ _ _) (hflags _ _ _) h1
  obtain ⟨hkey, hi, hs⟩ := attrFlags_inj hfl
  refine ⟨by omega, hi, hs, ?_⟩
  have hzero : k.length = 0 ↔ k'.length = 0 := by
    have h := Bool.eq_iff_iff.mp hkey
    simpa only [bne_iff_ne, ne_eq, not_iff_not] using h
  by_cases h0 : k.length = 0
  · have h0' := hzero.mp h0
    rw [if_neg (not_not.mpr h0), if_neg (not_not.mpr h0')] at h2
    exact ⟨(List.eq_nil_of_length_eq_zero h0).trans (List.eq_nil_of_length_eq_zero h0').symm, h2⟩
  · have h0' := fun e => h0 (hzero.mpr e)
    rw [if_pos h0, if_pos h0'] at h2
    exact sized_inj hk hk' h2

theorem wire_pos (a : Attr) : a.wire ≠ [] := by
  cases a with
  | plain t s k d => simpa [Attr.wire] using wire_ne_nil t false s k d []
  | set t s k l => simpa [Attr.wire] using wire_ne_nil t true s k (attrsWire l) []

/-- The wire form of `a` is not the start of another attribute's. -/
def Attr.Injects (a : Attr) : Prop :=
  ∀ {b : Attr} {r r' : Bytes}, a.Everywhere Attr.IntType → b.Everywhere Attr.IntType →
    a.wire.length < 2 ^ 64 → b.wire.length < 2 ^ 64 → a.wire ++ r = b.wire ++ r' → a = b ∧ r = r'

theorem attrsWire_injects (hl : ∀ a ∈ l, a.Injects) (ht : AttrsEverywhere Attr.IntType l)
    (ht' : AttrsEverywhere Attr.IntType l') (hlen : ∀ a ∈ l, a.wire.length < 2 ^ 64)
    (hlen' : ∀ b ∈ l', b.wire.length < 2 ^ 64) (h : attrsWire l = attrsWire l') : l = l' := by
  induction l generalizing l' with
  | nil =>
    cases l' with
    | nil => rfl
    | cons b l' => exact absurd (List.append_eq_nil_iff.mp h.symm).1 (wire_pos b)
  | cons a l ih =>
    cases l' with
    | nil => exact absurd (List.append_eq_nil_iff.mp h).1 (wire_pos a)
    | cons b l' =>
      obtain ⟨hla, hrl⟩ := List.forall_mem_cons.mp hlen
      obtain ⟨hlb, hrl'⟩ := List.forall_mem_cons.mp hlen'
      obtain ⟨rfl, hrest⟩ := hl a List.mem_cons_self ht.1 ht'.1 hla hlb h
      rw [ih (fun c hc => hl c (List.mem_cons_of_mem a hc)) ht.2 ht'.2 hrl hrl' hrest]

/-- **Different attributes have different wire forms**, whatever follows them. -/
theorem wire_injects (a : Attr) : a.Injects := by
  induction a using Attr.tree_induction with
  | plain t s k d =>
    intro b r r' ha hb hla hlb h
    have hk := key_length_le_head t false s k
    simp only [Attr.wire, List.length_append] at hla
    have hd : d.length < 2 ^ 64 := by omega
    cases b with
    | plain t' s' k' d' =>
      have hk' := key_length_le_head t' false s' k'
      simp only [Attr.wire, List.length_append] at hlb
      have hd' : d'.length < 2 ^ 64 := by omega
      simp only [Attr.wire, List.append_assoc] at h
      obtain ⟨rfl, -, rfl, rfl, hdata⟩ := headWire_inj ha hb (by omega) (by omega) h
      rw [← List.append_assoc, ← List.append_assoc] at hdata
      obtain ⟨rfl, hrest⟩ := sized_inj hd hd' hdata
      exact ⟨rfl, hrest⟩
    | set t' s' k' l' =>
      have hk' := key_length_le_head t' true s' k'
      simp only [Attr.wire, List.length_append] at hlb
      simp only [Attr.wire, List.append_assoc] at h
      obtain ⟨-, hkind, -⟩ := headWire_inj ha hb.1 (by omega) (by omega) h
      exact absurd hkind (by decide)
  | set t s k l ih =>
    intro b r r' ha hb hla hlb h
    have hk := key_length_le_head t true s k
    simp only [Attr.wire, List.length_append] at hla
    have hd : (attrsWire l).length < 2 ^ 64 := by omega
    cases b with
    | plain t' s' k' d' =>
      have hk' := key_length_le_head t' false s' k'
      simp only [Attr.wire, List.length_append] at hlb
      simp only [Attr.wire, List.append_assoc] at h
      obtain ⟨-, hkind, -⟩ := headWire_inj ha.1 hb (by omega) (by omega) h
      exact absurd hkind (by decide)
    | set t' s' k' l' =>
      have hk' := key_length_le_head t' true s' k'
      simp only [Attr.wire, List.length_append] at hlb
      have hd' : (attrsWire l').length < 2 ^ 64 := by omega
      simp only [Attr.wire, List.append_assoc] at h
      obtain ⟨rfl, -, rfl, rfl, hdata⟩ := headWire_inj ha.1 hb.1 (by omega) (by omega) h
      rw [← List.append_assoc, ← List.append_assoc] at hdata
      obtain ⟨htree, hrest⟩ := sized_inj hd hd' hdata
      obtain rfl := attrsWire_injects ih ha.2 hb.2
        (fun a ha => lt_of_le_of_lt (wire_length_le_of_mem ha) hd)
        (fun b hb => lt_of_le_of_lt (wire_length_le_of_mem hb) hd') htree
      exact ⟨rfl, hrest⟩

theorem wire_inj (ha : a.Everywhere Attr.IntType) (hb : b.Everywhere Attr.IntType)
    (hla : a.wire.length < 2 ^ 64) (hlb : b.wire.length < 2 ^ 64) (h : a.wire = b.wire) : a = b :=
  (@wire_injects a b [] [] ha hb hla hlb (by rw [h])).1

end Wire

/-! ## The reports -/

section Reports

variable {a b : Attr} {A B : AttrSet} {ds : List (Avl.Diff Attr)} {hasMod : Bool}

/-- A difference is reported. -/
def reported : Avl.Diff Attr → Bool
  | .mod a b => (attrCmp a b).toOption.getD false
  | .add _ => true
  | .del _ => true

/-- The calls for a difference. -/
def callsFor (hasMod : Bool) : Avl.Diff Attr → List (Avl.Diff Attr)
  | .mod a b => if hasMod then [.mod a b] else [.del a, .add b]
  | .add b => [.add b]
  | .del a => [.del a]

theorem diffCalls_eq (h : ∀ a b, .mod a b ∈ ds → ∃ differ, attrCmp a b = .ok differ) :
    diffCalls hasMod ds =
      .ok ((ds.filter reported).length, (ds.filter reported).flatMap (callsFor hasMod)) := by
  induction ds with
  | nil => rfl
  | cons d ds ih =>
    have hds := ih fun a b hm => h a b (List.mem_cons_of_mem d hm)
    rw [diffCalls, hds]
    cases d with
    | add b =>
      rw [List.filter_cons_of_pos rfl]
      simp [diffCall, callsFor, Nat.add_comm]
    | del a =>
      rw [List.filter_cons_of_pos rfl]
      simp [diffCall, callsFor, Nat.add_comm]
    | mod a b =>
      obtain ⟨differ, hc⟩ := h a b List.mem_cons_self
      have hrep : reported (.mod a b) = differ := by simp [reported, hc, Except.toOption]
      cases differ with
      | true => simp [diffCall, hc, hrep, callsFor, Nat.add_comm]
      | false => simp [diffCall, hc, hrep]

/-- Plain attributes that differ in the signed flag alone. -/
def FlagOnly (a b : Attr) : Prop :=
  ∃ t s s' k d, a = .plain t s k d ∧ b = .plain t s' k d ∧ s ≠ s'

/-- A root set that `lsa_diff` has room for. -/
structure Diffable (A : AttrSet) : Prop where
  sorted : Avl.Sorted Attr.pair A
  short : ∀ a ∈ A, a.Comparable
  types : AttrsEverywhere Attr.IntType A

theorem Diffable.inj (hA : Diffable A) (hB : Diffable B) (ha : a ∈ A) (hb : b ∈ B) :
    a.wire = b.wire ↔ a = b := by
  have hla := hA.short a ha
  have hlb := hB.short b hb
  unfold Attr.Comparable at hla hlb
  exact ⟨wire_inj (attrsEverywhere_iff.mp hA.types a ha) (attrsEverywhere_iff.mp hB.types b hb)
    (by omega) (by omega), fun e => e ▸ rfl⟩

/-- **What `attr_cmp` sees**: every difference but that of the flag alone. -/
theorem attrCmp_spec (hA : Diffable A) (hB : Diffable B) (ha : a ∈ A) (hb : b ∈ B)
    (hpair : a.pair = b.pair) :
    ∃ differ, attrCmp a b = .ok differ ∧ (differ = true ↔ a.wire ≠ b.wire ∧ ¬ FlagOnly a b) := by
  have hinj := hA.inj hB ha hb
  have hca := hA.short a ha
  have hcb := hB.short b hb
  obtain ⟨htype, hkey⟩ := Prod.mk.inj (toLex_inj.mp hpair)
  cases a with
  | plain t s k d =>
    cases b with
    | plain t' s' k' d' =>
      obtain rfl : t = t' := htype
      obtain rfl : k = k' := hkey
      have hflag : FlagOnly (.plain t s k d) (.plain t s' k d') ↔ d = d' ∧ s ≠ s' := by
        constructor
        · rintro ⟨_, _, _, _, _, h, h', hne⟩
          obtain ⟨-, rfl, -, rfl⟩ := Attr.plain.inj h
          obtain ⟨-, rfl, -, rfl⟩ := Attr.plain.inj h'
          exact ⟨rfl, hne⟩
        · rintro ⟨rfl, hne⟩
          exact ⟨t, s, s', k, d, rfl, rfl, hne⟩
      rw [hflag, ne_eq, hinj, Attr.plain.injEq]
      simp only [attrCmp]
      by_cases hlen : d.length = d'.length
      · refine ⟨_, if_neg (not_not.mpr hlen), ?_⟩
        rw [decide_eq_true_eq, ne_eq, memcmp_all d d' hlen]
        tauto
      · have hd : d ≠ d' := fun e => hlen (congrArg List.length e)
        exact ⟨true, if_pos hlen, by simp [hd]⟩
    | set t' s' k' l' =>
      refine ⟨true, rfl, iff_of_true rfl ⟨fun h => ?_, ?_⟩⟩
      · exact Attr.noConfusion (hinj.mp h)
      · rintro ⟨_, _, _, _, _, _, h, _⟩
        exact Attr.noConfusion h
  | set t s k l =>
    have hflag : ∀ b, ¬ FlagOnly (.set t s k l) b := by
      rintro b ⟨_, _, _, _, _, h, _⟩
      exact Attr.noConfusion h
    cases b with
    | plain t' s' k' d' =>
      exact ⟨true, rfl, iff_of_true rfl ⟨fun h => Attr.noConfusion (hinj.mp h), hflag _⟩⟩
    | set t' s' k' l' =>
      simp only [attrCmp, lsaAttrSerialise_eq hca, lsaAttrSerialise_eq hcb, ok_bind]
      by_cases hlen : (Attr.set t s k l).wire.length = (Attr.set t' s' k' l').wire.length
      · rw [if_neg (not_not.mpr hlen), if_neg (not_lt.mpr hca)]
        refine ⟨_, rfl, ?_⟩
        rw [decide_eq_true_eq, ne_eq, memcmp_all _ _ hlen]
        exact (and_iff_left (hflag _)).symm
      · rw [if_pos hlen]
        exact ⟨true, rfl, iff_of_true rfl ⟨fun e => hlen (congrArg List.length e), hflag _⟩⟩

/-- What `lsa_diff` is to report: one call for each pair on which the sets differ, in the order of
the pairs. -/
structure Reports (A B : AttrSet) (calls : List (Avl.Diff Attr)) : Prop where
  order : Avl.Sorted (Avl.Diff.place Attr.pair) calls
  add : ∀ b, .add b ∈ calls ↔ b ∈ B ∧ ∀ a ∈ A, a.pair ≠ b.pair
  mod : ∀ a b, .mod a b ∈ calls ↔ (a ∈ A ∧ b ∈ B ∧ a.pair = b.pair) ∧ a.wire ≠ b.wire
  del : ∀ a, .del a ∈ calls ↔ a ∈ A ∧ ∀ b ∈ B, a.pair ≠ b.pair

/-- The differences that are reported. -/
def reports (A B : AttrSet) : List (Avl.Diff Attr) :=
  (Avl.diff compareAttrKeys A B).filter reported

theorem mem_reports_mod (hA : Diffable A) (hB : Diffable B) :
    .mod a b ∈ reports A B ↔
      (a ∈ A ∧ b ∈ B ∧ a.pair = b.pair) ∧ a.wire ≠ b.wire ∧ ¬ FlagOnly a b := by
  unfold reports
  rw [List.mem_filter, Avl.mem_diff compareAttrKeys_orders hA.sorted hB.sorted]
  refine and_congr_right fun ⟨ha, hb, hpair⟩ => ?_
  obtain ⟨differ, hc, hspec⟩ := attrCmp_spec hA hB ha hb hpair
  rw [← hspec]
  simp [reported, hc, Except.toOption]

theorem lsaDiffCalls_eq {a b : Option Lsa} (hA : Diffable (rootOf a)) (hB : Diffable (rootOf b)) :
    lsaDiffCalls hasMod a b = .ok ((reports (rootOf a) (rootOf b)).length,
      (reports (rootOf a) (rootOf b)).flatMap (callsFor hasMod)) := by
  refine diffCalls_eq fun x y hm => ?_
  obtain ⟨hx, hy⟩ := Avl.mem_diff_mod hm
  exact attrCmp_isOk (hA.short x hx) (hB.short y hy)

/-- Without attributes that differ in the flag alone the reports are as they should be. -/
theorem reports_reports (hA : Diffable A) (hB : Diffable B)
    (hn : ∀ a ∈ A, ∀ b ∈ B, ¬ FlagOnly a b) : Reports A B (reports A B) where
  order := (Avl.sorted_diff compareAttrKeys_orders hA.sorted hB.sorted).sublist
    List.filter_sublist
  add b := by
    unfold reports
    rw [List.mem_filter, Avl.mem_diff compareAttrKeys_orders hA.sorted hB.sorted]
    exact and_iff_left rfl
  mod a b := by
    rw [mem_reports_mod hA hB]
    exact and_congr_right fun ⟨ha, hb, _⟩ => and_iff_left (hn a ha b hb)
  del a := by
    unfold reports
    rw [List.mem_filter, Avl.mem_diff compareAttrKeys_orders hA.sorted hB.sorted]
    exact and_iff_left rfl

/-- Without any report the sets are one set. -/
theorem eq_of_reports (hA : Diffable A) (hB : Diffable B) (h : Reports A B []) : A = B := by
  have hsub : ∀ {A B : AttrSet}, Diffable A → Diffable B →
      (∀ a ∈ A, ∃ b ∈ B, a.pair = b.pair) → (∀ a ∈ A, ∀ b ∈ B, a.pair = b.pair → a.wire = b.wire) →
      ∀ a ∈ A, a ∈ B := by
    intro A B hA hB hpair hwire a ha
    obtain ⟨b, hb, he⟩ := hpair a ha
    rwa [(hA.inj hB ha hb).mp (hwire a ha b hb he)]
  have hwire : ∀ a ∈ A, ∀ b ∈ B, a.pair = b.pair → a.wire = b.wire := by
    intro a ha b hb he
    by_contra hne
    exact List.not_mem_nil ((h.mod a b).mpr ⟨⟨ha, hb, he⟩, hne⟩)
  have hAB : ∀ a ∈ A, a ∈ B := by
    refine hsub hA hB (fun a ha => ?_) hwire
    by_contra hn
    exact List.not_mem_nil ((h.del a).mpr ⟨ha, fun b hb e => hn ⟨b, hb, e⟩⟩)
  have hBA : ∀ b ∈ B, b ∈ A := by
    refine hsub hB hA (fun b hb => ?_) fun b hb a ha e => (hwire a ha b hb e.symm).symm
    by_contra hn
    exact List.not_mem_nil ((h.add b).mpr ⟨hb, fun a ha e => hn ⟨a, ha, e.symm⟩⟩)
  exact Avl.eq_of_perm hA.sorted hB.sorted
    ((List.perm_ext_iff_of_nodup hA.sorted.nodup hB.sorted.nodup).mpr
      fun a => ⟨hAB a, hBA a⟩)

/-- **`lsa_diff` reports exactly the differences**, each once and in order, and returns 0 exactly
for root sets with one wire form, iff no two plain attributes differ in the signed flag alone. -/
theorem lsa_diff_iff (hasMod : Bool) {a b : Option Lsa} (hA : Diffable (rootOf a))
    (hB : Diffable (rootOf b)) :
    (∃ n calls, lsaDiffCalls hasMod a b = .ok (n, calls.flatMap (callsFor hasMod)) ∧
      Reports (rootOf a) (rootOf b) calls ∧
      (n = 0 ↔ attrsWire (rootOf a) = attrsWire (rootOf b))) ↔
    ∀ x ∈ rootOf a, ∀ y ∈ rootOf b, ¬ FlagOnly x y := by
  rw [lsaDiffCalls_eq hA hB]
  generalize rootOf a = A at hA hB
  generalize rootOf b = B at hA hB
  constructor
  · rintro ⟨n, calls, hcalls, hrep, -⟩ x hx y hy hflag
    have hne : x.wire ≠ y.wire := by
      rw [ne_eq, hA.inj hB hx hy]
      obtain ⟨t, s, s', k, d, rfl, rfl, hs⟩ := hflag
      exact fun e => hs (Attr.plain.inj e).2.1
    have hpair : x.pair = y.pair := by
      obtain ⟨t, s, s', k, d, rfl, rfl, -⟩ := hflag
      rfl
    have hmod := (hrep.mod x y).mpr ⟨⟨hx, hy, hpair⟩, hne⟩
    have hout := (mem_reports_mod hA hB).not.mpr fun h => h.2.2 hflag
    obtain ⟨-, hcalls⟩ := Prod.mk.inj (Except.ok.inj hcalls)
    have hcall : ∀ c ∈ callsFor hasMod (.mod x y), ∃ d ∈ reports A B, c ∈ callsFor hasMod d := by
      intro c hc
      exact List.mem_flatMap.mp (hcalls ▸ List.mem_flatMap.mpr ⟨_, hmod, hc⟩)
    cases hasMod with
    | true =>
      obtain ⟨d, hd, hc⟩ := hcall (.mod x y) (by simp [callsFor])
      cases d with
      | add b => simp [callsFor] at hc
      | del a => simp [callsFor] at hc
      | mod a b =>
        obtain ⟨rfl, rfl⟩ : x = a ∧ y = b := by simpa [callsFor] using hc
        exact hout hd
    | false =>
      obtain ⟨d, hd, hc⟩ := hcall (.del x) (by simp [callsFor])
      cases d with
      | add b => simp [callsFor] at hc
      | del a =>
        obtain rfl : x = a := by simpa [callsFor] using hc
        have hmem := (List.mem_filter.mp hd).1
        exact ((Avl.mem_diff compareAttrKeys_orders hA.sorted hB.sorted).mp hmem).2 y hy hpair
      | mod a b =>
        obtain rfl : x = a := by simpa [callsFor] using hc
        obtain ⟨-, hb, he⟩ := ((mem_reports_mod hA hB).mp hd).1
        obtain rfl := hB.sorted.eq_of_key hy hb (hpair.symm.trans he)
        exact hout hd
  · intro hn
    have hrep := reports_reports hA hB hn
    refine ⟨_, reports A B, rfl, hrep, ?_⟩
    rw [List.length_eq_zero_iff]
    constructor
    · intro hnil
      rw [hnil] at hrep
      rw [eq_of_reports hA hB hrep]
    · intro hwire
      have hlen : ∀ {A : AttrSet}, Diffable A → ∀ a ∈ A, a.wire.length < 2 ^ 64 := by
        intro A hA a ha
        exact lt_of_le_of_lt (hA.short a ha) (by decide)
      obtain rfl := attrsWire_injects (fun a _ => wire_injects a) hA.types hB.types (hlen hA)
        (hlen hB) hwire
      refine List.eq_nil_iff_forall_not_mem.mpr fun d hd => ?_
      cases d with
      | add b => exact ((hrep.add b).mp hd).2 b ((hrep.add b).mp hd).1 rfl
      | del a => exact ((hrep.del a).mp hd).2 a ((hrep.del a).mp hd).1 rfl
      | mod a b =>
        obtain ⟨⟨ha, hb, he⟩, hne⟩ := (hrep.mod a b).mp hd
        exact hne (congrArg Attr.wire (hA.sorted.eq_of_key ha hb he))

end Reports

/-! ## Two small LSAs -/

/-- An LSA with a version attribute. -/
def versionLsa (signed : Bool) (version : UInt8) : Lsa where
  bytes := 73
  id := zeroId
  root := [.plain LSA_ATTR_TYPE_VERSION signed [] [version]]

theorem diffable_versionLsa (signed : Bool) (version : UInt8) :
    Diffable (versionLsa signed version).root where
  sorted := List.pairwise_singleton _ _
  short a ha := by
    obtain rfl := List.mem_singleton.mp ha
    have hhead := length_headWire_le [] LSA_ATTR_TYPE_VERSION false signed
    have hint := length_intBytes_le 1
    simp only [Attr.Comparable, Attr.wire, List.length_append, List.length_singleton]
    simp only [List.length_nil, ne_eq, not_true_eq_false, if_false] at hhead
    omega
  types := by
    have htype : -2 ^ 31 ≤ LSA_ATTR_TYPE_VERSION ∧ LSA_ATTR_TYPE_VERSION < 2 ^ 31 := by decide
    exact ⟨htype, trivial⟩

/-- A new version is reported. -/
theorem lsa_diff_iff_version :
    ∃ n calls, lsaDiffCalls true (some (versionLsa true 1)) (some (versionLsa true 2)) =
        .ok (n, calls.flatMap (callsFor true)) ∧
      Reports (versionLsa true 1).root (versionLsa true 2).root calls ∧
      (n = 0 ↔ attrsWire (versionLsa true 1).root = attrsWire (versionLsa true 2).root) := by
  refine (lsa_diff_iff true (a := some (versionLsa true 1)) (b := some (versionLsa true 2))
    (diffable_versionLsa _ _) (diffable_versionLsa _ _)).mpr ?_
  rintro x hx y hy ⟨t, s, s', k, d, rfl, rfl, hs⟩
  obtain ⟨-, rfl, -⟩ := Attr.plain.inj (List.mem_singleton.mp hx)
  obtain ⟨-, rfl, -⟩ := Attr.plain.inj (List.mem_singleton.mp hy)
  exact hs rfl

/-- An attribute whose signed flag is cleared is not reported. -/
theorem lsa_diff_drops_flag :
    Diffable (versionLsa true 1).root ∧ Diffable (versionLsa false 1).root ∧
    lsaDiffCalls true (some (versionLsa true 1)) (some (versionLsa false 1)) = .ok (0, []) ∧
    attrsWire (versionLsa true 1).root ≠ attrsWire (versionLsa false 1).root :=
  ⟨diffable_versionLsa _ _, diffable_versionLsa _ _, rfl, by decide +kernel⟩

end Dvpn

import Dvpn.Lsa.RoundTrip
import Dvpn.Rib.LocRibRun

/-!
# What is signed (`loc_rib.c:44-155`, `lsa_peer.c:28-55`)

Of an LSA, routing reads the attributes that are signed, and the `ADV_PATH`. `signedPart`
is what is left of a tree when every attribute without the signed flag is taken out, at every level.

* `signed_findAttr`: a lookup in it finds what a lookup in the tree finds, if that is signed.
* `SameSigned`: LSAs that agree on it; `lsaGetVersion` and `lsaGetPeerInfo` agree on them.
* `pathCost_congr`: `lsa_path_cost` agrees on RIBs whose recent LSAs do.
* `unsigned_irrelevant`: so two RIBs that differ only in what is not signed cannot be told apart,
  and neither can two RIBs whose LSAs of equal version are ordered differently, when the version
  fixes what is signed.
-/

namespace Dvpn

variable {l l' : AttrSet} {a b : Attr} {t : Int} {k : Bytes} {lsa lsa' : Lsa} {id : NodeId}
  {rib rib' : LocRib} {rid rid' : LocRibId}

/-! ## The signed part of a tree -/

/-- What is left of a signed attribute. -/
def Attr.kept : Attr → Attr
  | .plain t s k d => .plain t s k d
  | .set t s k l => .set t s k (Dvpn.signedPart l)

theorem signedPart_cons (a : Attr) (l : AttrSet) :
    signedPart (a :: l) = if a.attrSigned then a.kept :: signedPart l else signedPart l := by
  rw [signedPart]
  cases a with
  | plain t s k d => cases s <;> rfl
  | set t s k attrs => cases s <;> rfl

theorem mem_signedPart_iff : b ∈ signedPart l ↔ ∃ a ∈ l, a.attrSigned ∧ a.kept = b := by
  induction l with
  | nil => simp [signedPart]
  | cons a l ih =>
    rw [signedPart_cons]
    by_cases hs : a.attrSigned
    · rw [if_pos hs, List.mem_cons, ih]
      simp only [List.exists_mem_cons_iff, hs, true_and, eq_comm]
    · rw [if_neg hs, ih]
      simp only [List.exists_mem_cons_iff, hs, false_and, false_or, Bool.false_eq_true]

/-- **A lookup in the signed part.** -/
theorem signed_findAttr (h : Avl.Sorted Attr.pair l) :
    lsaAttrSetFindAttr (signedPart l) t k =
      ((lsaAttrSetFindAttr l t k).filter Attr.attrSigned).map Attr.kept := by
  by_cases hk : k.length ≤ 65536
  · refine Option.ext fun b => ?_
    rw [lsaAttrSetFindAttr_eq_some (sorted_signedPart h) hk, mem_signedPart_iff]
    simp only [Option.map_eq_some_iff, Option.filter_eq_some_iff,
      lsaAttrSetFindAttr_eq_some h hk]
    constructor
    · rintro ⟨⟨a, ha, hs, rfl⟩, htype, hkey⟩
      refine ⟨a, ⟨⟨ha, ?_, ?_⟩, hs⟩, rfl⟩
      · cases a <;> exact htype
      · cases a <;> exact hkey
    · rintro ⟨a, ⟨⟨ha, htype, hkey⟩, hs⟩, rfl⟩
      refine ⟨⟨a, ha, hs, rfl⟩, ?_, ?_⟩
      · cases a <;> exact htype
      · cases a <;> exact hkey
  · rw [lsaAttrSetFindAttr, lsaAttrSetFindAttr, if_pos (by omega), if_pos (by omega)]
    rfl

/-- Data of a length is read from a signed attribute only. -/
theorem signedData_signed (h : Avl.Sorted Attr.pair l) (len : Nat) :
    signedData (lsaAttrSetFindAttr (signedPart l) t k) len =
      signedData (lsaAttrSetFindAttr l t k) len := by
  rw [signed_findAttr h]
  cases lsaAttrSetFindAttr l t k with
  | none => rfl
  | some a =>
    rw [Option.filter_some]
    cases a with
    | plain t s k d => cases s <;> rfl
    | set t s k attrs => cases s <;> rfl

/-- The LSA with the signed part of its tree. -/
def Lsa.signed (lsa : Lsa) : Lsa := { lsa with root := signedPart lsa.root }

theorem version_signed (h : AttrsWf lsa.root) :
    lsaGetVersion lsa.signed = lsaGetVersion lsa := by
  unfold lsaGetVersion lsaFindAttr
  rw [show lsa.signed.root = signedPart lsa.root from rfl, signedData_signed h.1]

theorem peerInfo_signed (h : AttrsWf lsa.root) (peerid : NodeId) :
    lsaGetPeerInfo lsa.signed peerid = lsaGetPeerInfo lsa peerid := by
  unfold lsaGetPeerInfo lsaFindAttr
  rw [show lsa.signed.root = signedPart lsa.root from rfl, signed_findAttr h.1]
  cases hfind : lsaAttrSetFindAttr lsa.root LSA_ATTR_TYPE_PEER peerid.1 with
  | none => rfl
  | some a =>
    have hmem := (lsaAttrSetFindAttr_sound hfind).1
    rw [Option.filter_some]
    cases a with
    | plain t s k d => cases s <;> rfl
    | set t s k attrs =>
      cases s with
      | false => rfl
      | true =>
        have hs : Avl.Sorted Attr.pair attrs :=
          (everywhere_iff.mp (attrsEverywhere_iff.mp h.2 _ hmem)).1
        simp only [Attr.attrSigned, if_true, Option.map_some, Attr.kept,
          signedData_signed hs]

/-! ## LSAs and RIBs that agree -/

/-- LSAs of one node that agree on what is signed. -/
structure SameSigned (lsa lsa' : Lsa) : Prop where
  id : lsa.id = lsa'.id
  signed : signedPart lsa.root = signedPart lsa'.root

/-- The data of an attribute; a nested set has none. -/
def Attr.payload : Attr → Option Bytes
  | .plain _ _ _ data => some data
  | .set _ _ _ _ => none

/-- LSAs of one node that agree on what is signed and on the data of the `ADV_PATH`. -/
structure SameSignedPath (lsa lsa' : Lsa) : Prop extends SameSigned lsa lsa' where
  path : lsa.advPath.map Attr.payload = lsa'.advPath.map Attr.payload

theorem SameSigned.version (h : SameSigned lsa lsa') (hw : AttrsWf lsa.root)
    (hw' : AttrsWf lsa'.root) : lsaGetVersion lsa = lsaGetVersion lsa' := by
  rw [← version_signed hw, ← version_signed hw']
  unfold lsaGetVersion lsaFindAttr Lsa.signed
  rw [h.signed]

theorem SameSigned.peerInfo (h : SameSigned lsa lsa') (hw : AttrsWf lsa.root)
    (hw' : AttrsWf lsa'.root) (peerid : NodeId) :
    lsaGetPeerInfo lsa peerid = lsaGetPeerInfo lsa' peerid := by
  rw [← peerInfo_signed hw, ← peerInfo_signed hw']
  unfold lsaGetPeerInfo lsaFindAttr Lsa.signed
  rw [h.signed]

/-- LSAs that `lsa_path_cost` cannot tell apart as hops. -/
structure SameHop (p q : LsaPtr) : Prop where
  id : p.lsa.id = q.lsa.id
  peerInfo : ∀ peerid, lsaGetPeerInfo p.lsa peerid = lsaGetPeerInfo q.lsa peerid

theorem pathCostLoop_congr (hrecent : ∀ id, Option.Rel SameHop (findRecentLsa rib id)
      (findRecentLsa rib' id))
    (hops : List NodeId) {from₁ from₂ : Option LsaPtr} (hfrom : Option.Rel SameHop from₁ from₂)
    (tt : Bool) (cost : Nat) :
    pathCostLoop rib hops (from₁.map LsaPtr.lsa) tt cost =
      pathCostLoop rib' hops (from₂.map LsaPtr.lsa) tt cost := by
  induction hops generalizing from₁ from₂ tt cost with
  | nil => rfl
  | cons hop hops ih =>
    have hto := hrecent hop
    unfold pathCostLoop
    generalize findRecentLsa rib hop = to₁ at hto
    generalize findRecentLsa rib' hop = to₂ at hto
    cases hto with
    | none => rfl
    | @some p q hpq =>
      have hnext := fun tt cost => @ih (some p) (some q) (.some hpq) tt cost
      simp only [Option.map_some] at hnext
      cases hfrom with
      | none => exact hnext tt cost
      | @some p' q' hpq' =>
        simp only [Option.map_some, hpq.id, hpq'.id, hpq.peerInfo, hpq'.peerInfo, hnext]

theorem payload_read (h : a.payload = b.payload) :
    a.datalen = b.datalen ∧ a.pathData = b.pathData := by
  cases a with
  | plain t s k d =>
    cases b with
    | plain t' s' k' d' =>
      cases h
      exact ⟨rfl, rfl⟩
    | set => exact nomatch h
  | set =>
    cases b with
    | plain => exact nomatch h
    | set => exact ⟨rfl, rfl⟩

/-- **`lsa_path_cost` agrees** on RIBs whose recent LSAs agree as hops. -/
theorem pathCost_congr (hmyid : rib.myid = rib'.myid)
    (hrecent : ∀ id, Option.Rel SameHop (findRecentLsa rib id) (findRecentLsa rib' id))
    (hmark : rid.highestVersionSeen = rid'.highestVersionSeen)
    (hversion : lsaGetVersion lsa = lsaGetVersion lsa')
    (hpath : lsa.advPath.map Attr.payload = lsa'.advPath.map Attr.payload) :
    lsaPathCost rib rid lsa = lsaPathCost rib' rid' lsa' := by
  unfold lsaPathCost
  rw [hmark, hversion, hmyid]
  by_cases hold : lsaGetVersion lsa' < rid'.highestVersionSeen
  · rw [if_pos hold, if_pos hold]
  rw [if_neg hold, if_neg hold]
  cases ha : lsa.advPath with
  | none =>
    rw [ha] at hpath
    rw [Option.map_eq_none_iff.mp hpath.symm]
  | some attr =>
    rw [ha] at hpath
    obtain ⟨attr', ha', hpayload⟩ := Option.map_eq_some_iff.mp hpath.symm
    obtain ⟨hlen, hdata⟩ := payload_read hpayload
    rw [ha']
    dsimp only
    rw [hlen, hdata]
    cases rib'.myid with
    | none =>
      have hloop := fun path => pathCostLoop_congr hrecent path .none true 0
      simp only [Option.map_none] at hloop
      simp only [hloop]
    | some myid =>
      have hfrom := hrecent myid
      dsimp only
      generalize findRecentLsa rib myid = from₁ at hfrom
      generalize findRecentLsa rib' myid = from₂ at hfrom
      cases hfrom with
      | none => rfl
      | @some p q hpq =>
        have hloop := fun path => pathCostLoop_congr hrecent path (.some hpq) true 0
        simp only [Option.map_some] at hloop
        simp only [hloop]

/-! ## RIBs that agree -/

/-- LSAs that agree as hops and have the same version. -/
structure SameVersionHop (p q : LsaPtr) : Prop extends SameHop p q where
  version : lsaGetVersion p.lsa = lsaGetVersion q.lsa

/-- Entries with the same id and mark, whose last LSAs agree. -/
structure SameRecent (rid rid' : LocRibId) : Prop where
  id : rid.id = rid'.id
  mark : rid.highestVersionSeen = rid'.highestVersionSeen
  last : Option.Rel SameVersionHop rid.ptrs.getLast? rid'.ptrs.getLast?

theorem recent_congr (h : List.Forall₂ SameRecent rib.ids rib'.ids) (id : NodeId) :
    Option.Rel SameHop (findRecentLsa rib id) (findRecentLsa rib' id) := by
  have hfind : Option.Rel SameRecent (locRibFindId rib id) (locRibFindId rib' id) :=
    Avl.find_forall₂ h fun rid rid' hr => by rw [hr.id]
  unfold findRecentLsa
  generalize locRibFindId rib id = rid₁ at hfind
  generalize locRibFindId rib' id = rid₂ at hfind
  cases hfind with
  | none => exact .none
  | @some rid rid' hr =>
    have hlast := hr.last
    rw [LocRibId.ptrs, LocRibId.ptrs, List.getLast?_map, List.getLast?_map] at hlast
    dsimp only
    rw [hr.mark]
    cases href : rid.lsas.getLast? with
    | none =>
      cases href' : rid'.lsas.getLast? with
      | none => exact .none
      | some ref' =>
        rw [href, href'] at hlast
        cases hlast
    | some ref =>
      cases href' : rid'.lsas.getLast? with
      | none =>
        rw [href, href'] at hlast
        cases hlast
      | some ref' =>
        rw [href, href'] at hlast
        cases hlast with
        | some hlast =>
          dsimp only
          rw [hlast.version]
          split_ifs
          · exact .none
          · exact .some hlast.toSameHop

/-- The trees of attributes of an entry are ordered. -/
def LocRibId.TreesWf (rid : LocRibId) : Prop := ∀ p ∈ rid.ptrs, AttrsWf p.lsa.root

/-- The trees of attributes of a RIB are ordered. -/
def LocRib.TreesWf (rib : LocRib) : Prop := ∀ rid ∈ rib.ids, rid.TreesWf

/-- A relation of the entries of two RIBs may use that their trees are ordered. -/
theorem recent_of_entries {r : LocRibId → LocRibId → Prop} (hids : List.Forall₂ r rib.ids rib'.ids)
    (hr : ∀ rid ∈ rib.ids, ∀ rid' ∈ rib'.ids, r rid rid' → SameRecent rid rid') (id : NodeId) :
    Option.Rel SameHop (findRecentLsa rib id) (findRecentLsa rib' id) := by
  have hleft := (List.forall₂_and_left _ _).mpr ⟨fun rid hm => hm, hids⟩
  have hboth := (List.forall₂_and_left _ _).mpr ⟨fun rid' hm => hm, hleft.flip⟩
  exact recent_congr (hboth.flip.imp fun rid rid' h => hr rid h.2.1 rid' h.1 h.2.2) id

/-! ## What is not signed -/

/-- Entries with LSAs that differ only in what is not signed. -/
structure SameSignedEntry (rid rid' : LocRibId) : Prop where
  id : rid.id = rid'.id
  mark : rid.highestVersionSeen = rid'.highestVersionSeen
  lsas : List.Forall₂ (fun p q : LsaPtr => SameSignedPath p.lsa q.lsa) rid.ptrs rid'.ptrs

/-- RIBs with LSAs that differ only in what is not signed. -/
structure SameSignedRib (rib rib' : LocRib) : Prop where
  myid : rib.myid = rib'.myid
  ids : List.Forall₂ SameSignedEntry rib.ids rib'.ids

theorem getLast_forall₂ {α : Type} {r : α → α → Prop} {l l' : List α} (h : List.Forall₂ r l l') :
    Option.Rel r l.getLast? l'.getLast? := by
  rw [List.getLast?_eq_head?_reverse, List.getLast?_eq_head?_reverse]
  have hrev := List.forall₂_reverse_iff.mpr h
  generalize l.reverse = m at hrev
  generalize l'.reverse = m' at hrev
  cases hrev with
  | nil => exact .none
  | cons hr _ => exact .some hr

theorem SameSignedEntry.recent (h : SameSignedEntry rid rid') (hw : rid.TreesWf)
    (hw' : rid'.TreesWf) : SameRecent rid rid' := by
  refine ⟨h.id, h.mark, ?_⟩
  have hlast := getLast_forall₂ h.lsas
  cases hp : rid.ptrs.getLast? with
  | none =>
    rw [hp] at hlast
    generalize rid'.ptrs.getLast? = q at hlast
    cases hlast
    exact .none
  | some p =>
    rw [hp] at hlast
    cases hq : rid'.ptrs.getLast? with
    | none =>
      rw [hq] at hlast
      cases hlast
    | some q =>
      rw [hq] at hlast
      cases hlast with
      | some hpq =>
        have hwp := hw p (List.mem_of_getLast? hp)
        have hwq := hw' q (List.mem_of_getLast? hq)
        exact .some ⟨⟨hpq.id, hpq.peerInfo hwp hwq⟩, hpq.version hwp hwq⟩

/-! ## The order of LSAs of equal version -/

/-- Entries with the same LSAs, at other addresses and so in another order where versions are
equal. -/
structure SameLsasEntry (rid rid' : LocRibId) : Prop where
  id : rid.id = rid'.id
  mark : rid.highestVersionSeen = rid'.highestVersionSeen
  lsas : (rid.ptrs.map LsaPtr.lsa).Perm (rid'.ptrs.map LsaPtr.lsa)

/-- RIBs with the same LSAs, at other addresses. -/
structure Readdressed (rib rib' : LocRib) : Prop where
  myid : rib.myid = rib'.myid
  ids : List.Forall₂ SameLsasEntry rib.ids rib'.ids

/-- Any two LSAs of a RIB with the same id and version agree on what is signed. -/
def LocRib.SignedByVersion (rib : LocRib) : Prop :=
  ∀ rid ∈ rib.ids, ∀ rid' ∈ rib.ids, ∀ p ∈ rid.ptrs, ∀ q ∈ rid'.ptrs, p.lsa.id = q.lsa.id →
    lsaGetVersion p.lsa = lsaGetVersion q.lsa → signedPart p.lsa.root = signedPart q.lsa.root

theorem version_le_last {p q : LsaPtr} (hi : rid.Inv) (hlast : rid.ptrs.getLast? = some q)
    (hp : p ∈ rid.ptrs) : lsaGetVersion p.lsa ≤ lsaGetVersion q.lsa := by
  have hs : Avl.Sorted LsaPtr.key rid.ptrs := List.pairwise_map.mpr hi.sorted
  have hle := Avl.le_of_getLast hs hlast hp
  rw [LsaPtr.key, LsaPtr.key, Prod.Lex.toLex_le_toLex] at hle
  omega

theorem SameLsasEntry.recent (h : SameLsasEntry rid rid') (hi : rid.Inv) (hi' : rid'.Inv)
    (hw : rid.TreesWf) (hsigned : ∀ p ∈ rid.ptrs, ∀ q ∈ rid.ptrs, p.lsa.id = q.lsa.id →
      lsaGetVersion p.lsa = lsaGetVersion q.lsa →
      signedPart p.lsa.root = signedPart q.lsa.root) : SameRecent rid rid' := by
  refine ⟨h.id, h.mark, ?_⟩
  cases hp : rid.ptrs.getLast? with
  | none =>
    have hnil : rid'.ptrs.map LsaPtr.lsa = [] := by
      have hperm := h.lsas
      rw [List.getLast?_eq_none_iff.mp hp] at hperm
      exact hperm.symm.eq_nil
    rw [List.map_eq_nil_iff.mp hnil]
    exact .none
  | some p =>
    have hpm := List.mem_of_getLast? hp
    cases hq : rid'.ptrs.getLast? with
    | none =>
      have hmem := h.lsas.mem_iff.mp (List.mem_map_of_mem hpm)
      rw [List.getLast?_eq_none_iff.mp hq] at hmem
      exact absurd hmem List.not_mem_nil
    | some q =>
      have hqm := List.mem_of_getLast? hq
      -- the last LSA of each entry is among those of the other, at some address
      obtain ⟨p', hp', hpp⟩ := List.mem_map.mp (h.lsas.mem_iff.mp (List.mem_map_of_mem hpm))
      obtain ⟨q', hq', hqq⟩ := List.mem_map.mp (h.lsas.mem_iff.mpr (List.mem_map_of_mem hqm))
      have hversion : lsaGetVersion p.lsa = lsaGetVersion q.lsa := by
        have hle := version_le_last hi' hq hp'
        have hge := version_le_last hi hp hq'
        rw [hpp] at hle
        rw [hqq] at hge
        exact le_antisymm hle hge
      have hid : p.lsa.id = q'.lsa.id :=
        (hi.ids p (List.mem_append_left _ hpm)).trans (hi.ids q' (List.mem_append_left _ hq')).symm
      have hsame : SameSigned p.lsa q'.lsa :=
        ⟨hid, hsigned p hpm q' hq' hid (by rw [hqq, hversion])⟩
      refine .some ⟨⟨hqq ▸ hid, ?_⟩, hversion⟩
      rw [← hqq]
      exact hsame.peerInfo (hw p hpm) (hw q' hq')

/-- **What is not signed does not matter** to routing, except for the `ADV_PATH`, and neither does
the address of an LSA when the version fixes what is signed. -/
theorem unsigned_irrelevant :
    (∀ rib rib' : LocRib, SameSignedRib rib rib' → rib.TreesWf → rib'.TreesWf →
      ∀ lsa lsa' : Lsa, SameSignedPath lsa lsa' → AttrsWf lsa.root → AttrsWf lsa'.root →
        lsaGetVersion lsa = lsaGetVersion lsa' ∧
        (∀ peerid, lsaGetPeerInfo lsa peerid = lsaGetPeerInfo lsa' peerid) ∧
        ∀ rid rid', SameSignedEntry rid rid' →
          lsaPathCost rib rid lsa = lsaPathCost rib' rid' lsa') ∧
    ∀ rib rib' : LocRib, Readdressed rib rib' → rib.Inv → rib'.Inv → rib.TreesWf →
      rib.SignedByVersion → ∀ (lsa : Lsa) (rid rid' : LocRibId), SameLsasEntry rid rid' →
        lsaPathCost rib rid lsa = lsaPathCost rib' rid' lsa := by
  constructor
  · intro rib rib' h hw hw' lsa lsa' hlsa hwl hwl'
    have hrecent := recent_of_entries h.ids fun rid hm rid' hm' hr =>
      hr.recent (hw rid hm) (hw' rid' hm')
    have hversion := hlsa.version hwl hwl'
    exact ⟨hversion, hlsa.peerInfo hwl hwl', fun rid rid' hr =>
      pathCost_congr h.myid hrecent hr.mark hversion hlsa.path⟩
  · intro rib rib' h hi hi' hw hsigned lsa rid rid' hr
    have hrecent := recent_of_entries h.ids fun rid hm rid' hm' hr =>
      hr.recent (hi.entries rid hm) (hi'.entries rid' hm') (hw rid hm)
        fun p hp q hq => hsigned rid hm rid hm p hp q hq
    exact pathCost_congr h.myid hrecent hr.mark rfl rfl

/-! ## A small RIB -/

/-- The LSA `versioned`, with an attribute that is not signed. -/
def annotated (addr : Nat) (version : UInt8) : LsaPtr where
  addr := addr
  lsa := {
    bytes := 0
    id := zeroId
    root := (versioned addr version).lsa.root ++ [.plain 1000 false [] [1]] }

theorem oneEntry_inv {p q : LsaPtr} (hid : p.lsa.id = zeroId ∧ q.lsa.id = zeroId)
    (hlt : p.key < q.key) (hne : p.addr ≠ q.addr) :
    (oneEntry 1 [p, q] none RIB_COST_INELIGIBLE).Inv := by
  refine ⟨List.pairwise_singleton _ _, fun rid hm => ?_⟩
  obtain rfl := List.mem_singleton.mp hm
  refine ⟨List.pairwise_pair.mpr hlt, ?_, ?_, nofun, fun _ => rfl⟩
  · simp [LocRibId.held, LocRibId.ptrs, hid.1, hid.2]
  · simp [LocRibId.held, LocRibId.ptrs, hne, hne.symm]

/-- One LSA with and without an attribute that is not signed, and both at swapped addresses. -/
theorem unsigned_irrelevant_annotated :
    lsaPathCost (oneEntry 1 [versioned 1 1] none RIB_COST_INELIGIBLE) (LocRibId.new zeroId)
        (versioned 1 1).lsa =
      lsaPathCost (oneEntry 1 [annotated 1 1] none RIB_COST_INELIGIBLE) (LocRibId.new zeroId)
        (annotated 1 1).lsa ∧
    lsaPathCost (oneEntry 1 [versioned 1 1, annotated 2 1] none RIB_COST_INELIGIBLE)
        (LocRibId.new zeroId) (versioned 1 1).lsa =
      lsaPathCost (oneEntry 1 [annotated 1 1, versioned 2 1] none RIB_COST_INELIGIBLE)
        (LocRibId.new zeroId) (versioned 1 1).lsa := by
  have hversioned : AttrsWf (versioned 1 1).lsa.root := by decide
  have hannotated : AttrsWf (annotated 1 1).lsa.root := by decide
  have hpath : SameSignedPath (versioned 1 1).lsa (annotated 1 1).lsa := ⟨⟨rfl, rfl⟩, rfl⟩
  constructor
  · refine (unsigned_irrelevant.1 (oneEntry 1 [versioned 1 1] none RIB_COST_INELIGIBLE)
      (oneEntry 1 [annotated 1 1] none RIB_COST_INELIGIBLE)
      ⟨rfl, .cons ⟨rfl, rfl, .cons hpath .nil⟩ .nil⟩ ?_ ?_ (versioned 1 1).lsa (annotated 1 1).lsa
      hpath hversioned hannotated).2.2 _ _ ⟨rfl, rfl, .nil⟩
    · intro rid hm p hp
      obtain rfl := List.mem_singleton.mp hm
      obtain rfl := List.mem_singleton.mp hp
      exact hversioned
    · intro rid hm p hp
      obtain rfl := List.mem_singleton.mp hm
      obtain rfl := List.mem_singleton.mp hp
      exact hannotated
  · refine unsigned_irrelevant.2
      (oneEntry 1 [versioned 1 1, annotated 2 1] none RIB_COST_INELIGIBLE)
      (oneEntry 1 [annotated 1 1, versioned 2 1] none RIB_COST_INELIGIBLE)
      ⟨rfl, .cons ⟨rfl, rfl, .swap _ _ _⟩ .nil⟩ (oneEntry_inv ⟨rfl, rfl⟩ (by decide) (by decide))
      (oneEntry_inv ⟨rfl, rfl⟩ (by decide) (by decide)) ?_ ?_ _ _ _ ⟨rfl, rfl, .nil⟩
    · intro rid hm p hp
      obtain rfl := List.mem_singleton.mp hm
      rcases List.mem_pair.mp hp with rfl | rfl
      · exact hversioned
      · exact hannotated
    · intro rid hm rid' hm' p hp q hq _ _
      obtain rfl := List.mem_singleton.mp hm
      obtain rfl := List.mem_singleton.mp hm'
      rcases List.mem_pair.mp hp with rfl | rfl <;>
        rcases List.mem_pair.mp hq with rfl | rfl <;> rfl

end Dvpn

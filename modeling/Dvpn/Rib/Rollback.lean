import Dvpn.Rib.LocRibRun

/-!
# Rollback protection (`highest_version_seen` in `loc_rib.c`)

An entry's mark is to be the highest version that was ever put into it: `lsa_path_cost` and
`find_recent_lsa` refuse whatever is below it. `loc_rib_add_lsa` raises the mark
(`loc_rib.c:399-401`); `loc_rib_mod_lsa`, which puts an LSA in as well, does not
(`loc_rib.c:445-447`). `Protected` is the protection, `MarkCovers` is the case in which a
replacement does not need to raise the mark.

* `protected_iff`: the RIB is protected in every state of a run iff every replacement of the run
  has a version that its entry has already seen.
* `rollback_after_mod`: a run of which an older LSA becomes the best one.
-/

namespace Dvpn

/-- The LSAs that the operations put into the entry of `id`. -/
def putsOf (ops : List LocOp) (id : NodeId) : List LsaPtr :=
  (ops.filterMap LocOp.put).filter fun lsa => lsa.lsa.id = id

/-- The protection of a RIB after `ops`: no mark is below a version that was put into its entry,
what `find_recent_lsa` returns has the highest version put, and so has every best LSA after a
recomputation. -/
structure Protected (ops : List LocOp) (rib : LocRib) : Prop where
  mark : ∀ id, ∀ lsa ∈ putsOf ops id, ∃ rid, locRibFindId rib id = some rid ∧
    lsaGetVersion lsa.lsa ≤ rid.highestVersionSeen
  recent : ∀ id recent, findRecentLsa rib id = some recent →
    ∀ lsa ∈ putsOf ops id, lsaGetVersion lsa.lsa ≤ lsaGetVersion recent.lsa
  best : ops.getLast? = some .recompute → ∀ rid ∈ rib.ids, ∀ best, rid.best = some best →
    ∀ lsa ∈ putsOf ops rid.id, lsaGetVersion lsa.lsa ≤ lsaGetVersion best.lsa

/-- A replacement has a version that its entry has already seen. -/
def MarkCovers (rib : LocRib) : LocOp → Prop
  | .mod old new => ∀ rid, locRibFindId rib old.lsa.id = some rid →
    lsaGetVersion new.lsa ≤ rid.highestVersionSeen
  | _ => True

/-- The contract, with replacements that the marks cover. -/
def LocContractCovered (rib : LocRib) (op : LocOp) : Prop := LocContract rib op ∧ MarkCovers rib op

variable {rib rib' : LocRib} {op : LocOp} {ops : List LocOp} {es es' : List RibEvent}
  {myid : Option NodeId} {id : NodeId} {lsa : LsaPtr}

theorem putsOf_snoc (ops : List LocOp) (op : LocOp) (id : NodeId) : lsa ∈ putsOf (ops ++ [op]) id ↔
    lsa ∈ putsOf ops id ∨ op.put = some lsa ∧ lsa.lsa.id = id := by
  unfold putsOf
  rw [List.filterMap_append, List.filter_append, List.mem_append]
  cases hput : op.put <;> simp [hput, eq_comm]

/-! ## The marks -/

/-- The marks cover everything that was put. -/
def MarksCover (ops : List LocOp) (rib : LocRib) : Prop :=
  ∀ id, ∀ lsa ∈ putsOf ops id, ∃ rid, locRibFindId rib id = some rid ∧
    lsaGetVersion lsa.lsa ≤ rid.highestVersionSeen

theorem entry_of_find {rid : LocRibId} (h : locRibFindId rib id = some rid) :
    rib.entry id = rid := by
  rw [LocRib.entry, h]
  rfl

/-- An update of an entry that does not lower its mark and covers what is put. -/
theorem marksCover_update {rid : LocRibId} (h : MarksCover ops rib) (hup : Updates rib rib' rid)
    (hmark : (rib.entry rid.id).highestVersionSeen ≤ rid.highestVersionSeen)
    (hput : ∀ lsa, op.put = some lsa →
      lsa.lsa.id = rid.id ∧ lsaGetVersion lsa.lsa ≤ rid.highestVersionSeen) :
    MarksCover (ops ++ [op]) rib' := by
  intro id lsa hm
  rcases (putsOf_snoc ops op id).mp hm with hm | ⟨hp, rfl⟩
  · obtain ⟨rid', hf, hv⟩ := h id lsa hm
    rw [hup.find]
    split_ifs with hid
    · subst hid
      rw [entry_of_find hf] at hmark
      exact ⟨rid, rfl, hv.trans hmark⟩
    · exact ⟨rid', hf, hv⟩
  · obtain ⟨hid, hv⟩ := hput lsa hp
    exact ⟨rid, by rw [hup.find, if_pos hid], hv⟩

theorem find_isSome_iff (hi : rib.Inv) :
    (∃ rid, locRibFindId rib id = some rid) ↔ id ∈ rib.ids.map LocRibId.id := by
  simp only [findId_eq_some hi.sorted, List.mem_map]

/-- **A step that the marks cover keeps them covering.** -/
theorem locStep_marksCover (hi : rib.Inv) (hc : LocContractCovered rib op)
    (h : locStep rib op = .ok (rib', es)) (hm : MarksCover ops rib) :
    MarksCover (ops ++ [op]) rib' := by
  obtain ⟨hc, hcov⟩ := hc
  rcases (locStep_inv hi hc h).2 with ⟨lsa, _, rfl, _, hup, _⟩ | ⟨old, new, _, _, rfl, _, hup, _⟩ |
    ⟨lsa, _, rfl, _, hup, _⟩ | ⟨rfl, hspec⟩
  · have hid := (hi.entry lsa.lsa.id).2
    refine marksCover_update hm hup ?_ ?_
    · change (rib.entry (rib.entry lsa.lsa.id).id).highestVersionSeen ≤ _
      rw [hid]
      exact le_max_left _ _
    · rintro _ ⟨⟩
      exact ⟨hid.symm, le_max_right _ _⟩
  · have hid := (hi.entry old.lsa.id).2
    obtain ⟨rid, hmem, hrid, hp⟩ := hc.1
    have hfind := (findId_eq_some hi.sorted).mpr ⟨hmem, hrid⟩
    refine marksCover_update hm hup ?_ ?_
    · change (rib.entry (rib.entry old.lsa.id).id).highestVersionSeen ≤ _
      rw [hid]
    · rintro _ ⟨⟩
      refine ⟨hc.2.2.trans hid.symm, ?_⟩
      change _ ≤ (rib.entry old.lsa.id).highestVersionSeen
      rw [entry_of_find hfind]
      exact hcov rid hfind
  · have hid := (hi.entry lsa.lsa.id).2
    refine marksCover_update hm hup ?_ ?_
    · change (rib.entry (rib.entry lsa.lsa.id).id).highestVersionSeen ≤ _
      rw [hid]
    · rintro _ ⟨⟩
  · intro id lsa hm'
    rcases (putsOf_snoc ops .recompute id).mp hm' with hm' | ⟨hp, _⟩
    · obtain ⟨rid, hf, hv⟩ := hm id lsa hm'
      obtain ⟨rid', hf'⟩ := (find_isSome_iff hspec.inv).mpr
        (hspec.ids ▸ (find_isSome_iff hi).mp ⟨rid, hf⟩)
      refine ⟨rid', hf', ?_⟩
      have hsame := hspec.same.mark id
      rw [entry_of_find hf, entry_of_find hf'] at hsame
      omega
    · exact absurd hp (by simp [LocOp.put])

/-- Marks that cover everything protect what the readers of the marks return. -/
theorem protected_of_marksCover (h : LocRun LocContract myid ops rib es) (hm : MarksCover ops rib) :
    Protected ops rib := by
  refine ⟨hm, fun id recent hr lsa hl => ?_, fun hlast rid hmem best hb lsa hl => ?_⟩
  · obtain ⟨rid, hf, hv⟩ := hm id lsa hl
    have hle := (findRecentLsa_eq_some.mp hr).2
    rw [entry_of_find hf] at hle
    exact hv.trans hle
  · obtain ⟨ops, rfl⟩ := List.getLast?_eq_some_iff.mp hlast
    obtain ⟨rib₀, _, es₀, hr₀, _, hs₀, _⟩ := h.snoc_inv
    have hspec := recompute_spec (LocRun.inv hr₀) hs₀
    have he := entry_of_mem hspec.inv.sorted hmem
    obtain ⟨rid', hf, hv⟩ := hm rid.id lsa hl
    rw [← entry_of_find hf, he] at hv
    have hp := hspec.picked rid.id
    have hmark := hspec.same.mark rid.id
    rw [he] at hp hmark
    rcases hp with ⟨hn, _⟩ | ⟨p, _, hpb, hcost, hlt⟩
    · exact absurd (hn.symm.trans hb) (by simp)
    · obtain rfl := Option.some.inj (hpb.symm.trans hb)
      have hle := mark_le_of_cost hcost hlt
      omega

/-- **When the RIB is protected.** In a run of additions, replacements, deletions and
recomputations the RIB is protected in every state iff every replacement has a version that its
entry has already seen. -/
theorem protected_iff (h : LocRun LocContract myid ops rib es) :
    (∀ ops' rib' es', ops' <+: ops → LocRun LocContract myid ops' rib' es' → Protected ops' rib') ↔
      LocRun LocContractCovered myid ops rib es := by
  constructor
  · intro hprot
    induction h with
    | nil => exact .nil
    | @snoc ops rib rib' es es' op hr hc hs ih =>
      refine .snoc (ih fun ops' rib' es' hp hr' =>
        hprot ops' rib' es' (hp.trans (List.prefix_append _ _)) hr') ⟨hc, ?_⟩ hs
      cases op with
      | mod old new =>
        -- the mark after the replacement is the one before it
        intro rid hf
        have hi := LocRun.inv hr
        have hafter := hprot _ _ _ (List.prefix_refl _) (.snoc hr hc hs)
        obtain ⟨rid', hf', hv⟩ := hafter.mark new.lsa.id new
          ((putsOf_snoc ops _ _).mpr (Or.inr ⟨rfl, rfl⟩))
        rcases (locStep_inv hi hc hs).2 with ⟨_, _, hop, _⟩ | ⟨_, _, _, _, hop, _, hup, _⟩ |
          ⟨_, _, hop, _⟩ | ⟨hop, _⟩
        · exact absurd hop (by simp)
        · obtain ⟨rfl, rfl⟩ := LocOp.mod.inj hop
          rw [hup.find, if_pos (hc.2.2.trans (hi.entry old.lsa.id).2.symm)] at hf'
          obtain rfl := Option.some.inj hf'
          rwa [entry_of_find hf] at hv
        · exact absurd hop (by simp)
        · exact absurd hop (by simp)
      | add lsa => trivial
      | del lsa => trivial
      | recompute => trivial
  · intro hcov ops' rib' es' hp hr
    obtain ⟨rib₁, es₁, hcov'⟩ := hcov.initial hp
    obtain ⟨rfl, rfl⟩ := hr.det hcov'
    have hmarks : rib'.Inv ∧ MarksCover ops' rib' :=
      hcov'.invariant (fun ops rib _ => rib.Inv ∧ MarksCover ops rib)
        ⟨locRibInit_inv myid, fun id lsa hm => absurd hm (by simp [putsOf])⟩
        fun hi hc hs => ⟨(locStep_inv hi.1 hc.1 hs).1, locStep_marksCover hi.1 hc hs hi.2⟩
    exact protected_of_marksCover hr hmarks.2

/-! ## A rollback -/

/-- Version 1 arrives, its peer replaces it by version 2, a second peer still has version 1, and
the first peer goes away: version 1 is the best LSA, below a version that was seen. -/
theorem rollback_after_mod :
    ∃ rib es, LocRun LocContract none
        [.add (versioned 1 1), .mod (versioned 1 1) (versioned 2 2), .add (versioned 3 1),
          .del (versioned 2 2), .recompute] rib es ∧
      ¬ Protected [.add (versioned 1 1), .mod (versioned 1 1) (versioned 2 2),
          .add (versioned 3 1), .del (versioned 2 2), .recompute] rib := by
  have h1 : locStep (locRibInit none) (.add (versioned 1 1)) =
      .ok (oneEntry 1 [versioned 1 1] none RIB_COST_INELIGIBLE, []) := rfl
  have h2 : locStep (oneEntry 1 [versioned 1 1] none RIB_COST_INELIGIBLE)
      (.mod (versioned 1 1) (versioned 2 2)) =
      .ok (oneEntry 1 [versioned 2 2] none RIB_COST_INELIGIBLE, []) := rfl
  have h3 : locStep (oneEntry 1 [versioned 2 2] none RIB_COST_INELIGIBLE) (.add (versioned 3 1)) =
      .ok (oneEntry 1 [versioned 3 1, versioned 2 2] none RIB_COST_INELIGIBLE, []) := rfl
  have h4 : locStep (oneEntry 1 [versioned 3 1, versioned 2 2] none RIB_COST_INELIGIBLE)
      (.del (versioned 2 2)) =
      .ok (oneEntry 1 [versioned 3 1] none RIB_COST_INELIGIBLE, []) := rfl
  have h5 : locStep (oneEntry 1 [versioned 3 1] none RIB_COST_INELIGIBLE) .recompute =
      .ok (oneEntry 1 [versioned 3 1] (some (versioned 3 1)) 0,
        [.lsaAdd (versioned 3 1) 0]) := rfl
  refine ⟨_, _, .snoc (.snoc (.snoc (.snoc (.snoc .nil ?_ h1) ?_ h2) ?_ h3) ?_ h4) trivial h5, ?_⟩
  · exact fun rid hm => absurd hm List.not_mem_nil
  · exact ⟨⟨_, List.mem_singleton_self _, rfl, List.mem_singleton_self _⟩,
      by simp [LocRib.Fresh, oneEntry, LocRibId.held, LocRibId.ptrs, versioned], rfl⟩
  · simp [LocContract, LocRib.Fresh, oneEntry, LocRibId.held, LocRibId.ptrs, versioned]
  · exact ⟨_, List.mem_singleton_self _, rfl, List.mem_cons_of_mem _ (List.mem_singleton_self _)⟩
  · intro hprot
    have hle := hprot.best rfl _ (List.mem_singleton_self _) (versioned 3 1) rfl (versioned 2 2)
      (by simp [putsOf, LocOp.put, versioned])
    exact absurd hle (by decide)

/-- A run whose only replacement has a version that was seen. -/
theorem protected_after_same_version :
    Protected [.add (versioned 1 1), .mod (versioned 1 1) (versioned 2 1)]
      (oneEntry 1 [versioned 2 1] none RIB_COST_INELIGIBLE) := by
  have h1 : locStep (locRibInit none) (.add (versioned 1 1)) =
      .ok (oneEntry 1 [versioned 1 1] none RIB_COST_INELIGIBLE, []) := rfl
  have h2 : locStep (oneEntry 1 [versioned 1 1] none RIB_COST_INELIGIBLE)
      (.mod (versioned 1 1) (versioned 2 1)) =
      .ok (oneEntry 1 [versioned 2 1] none RIB_COST_INELIGIBLE, []) := rfl
  have hc1 : LocContract (locRibInit none) (.add (versioned 1 1)) :=
    fun rid hm => absurd hm List.not_mem_nil
  have hc2 : LocContract (oneEntry 1 [versioned 1 1] none RIB_COST_INELIGIBLE)
      (.mod (versioned 1 1) (versioned 2 1)) :=
    ⟨⟨_, List.mem_singleton_self _, rfl, List.mem_singleton_self _⟩,
      by simp [LocRib.Fresh, oneEntry, LocRibId.held, LocRibId.ptrs, versioned], rfl⟩
  have hcov : MarkCovers (oneEntry 1 [versioned 1 1] none RIB_COST_INELIGIBLE)
      (.mod (versioned 1 1) (versioned 2 1)) := by
    intro rid hf
    obtain rfl : _ = rid := Option.some.inj (Eq.trans (by rfl) hf)
    decide
  have hrun : LocRun LocContract none _ _ _ := .snoc (.snoc .nil hc1 h1) hc2 h2
  exact (protected_iff hrun).mpr (.snoc (.snoc .nil ⟨hc1, trivial⟩ h1) ⟨hc2, hcov⟩ h2) _ _ _
    (List.prefix_refl _) hrun

end Dvpn

import Dvpn.Rib.LocRib

/-!
# The operations of the local RIB

One lemma for each operation of `Dvpn.Rib.LocRib`, over the invariant `LocRib.Inv`: the entries
are ordered by id, the LSAs of an entry by (version, address), all of them have the entry's id, two
held objects with one address are one, and there is a best LSA iff its cost is below
`RIB_COST_INELIGIBLE`. An entry that is not there reads as an empty one (`LocRib.entry`).

* `Updates rib rib' rid`: `rib'` is `rib` with the entry `rid`.
* `add_spec`, `mod_spec`, `del_spec`: what the operations within their contract come to; they do
  not abort.
-/

namespace Dvpn

/-! ## Order and search -/

/-- The key that `compare_lsas` orders by. -/
def LsaPtr.key (lsa : LsaPtr) : Nat ×ₗ Nat := toLex (lsaGetVersion lsa.lsa, lsa.addr)

def LocRibLsaRef.key (ref : LocRibLsaRef) : Nat ×ₗ Nat := ref.lsa.key

theorem LsaPtr.key_inj {p q : LsaPtr} (h : p.key = q.key) : p.addr = q.addr :=
  (Prod.mk.inj (toLex_inj.mp h)).2

theorem compareLsas_locates (lsa : LsaPtr) :
    Avl.Locates (fun ref : LocRibLsaRef => compareLsas lsa ref.lsa) LocRibLsaRef.key lsa.key := by
  have h : ∀ ref : LocRibLsaRef, (compareLsas lsa ref.lsa < 0 ↔ lsa.key < ref.key) ∧
      (compareLsas lsa ref.lsa = 0 ↔ lsa.key = ref.key) := by
    intro ref
    unfold LocRibLsaRef.key LsaPtr.key compareLsas
    rw [Prod.Lex.toLex_lt_toLex, toLex_inj, Prod.mk.injEq]
    dsimp only
    split_ifs <;> constructor <;> constructor <;> intro h <;> first | omega | exact h.elim
  exact ⟨fun ref => (h ref).1, fun ref => (h ref).2⟩

theorem compareLsaRefs_orders : Avl.Orders compareLsaRefs LocRibLsaRef.key :=
  ⟨fun ref => (compareLsas_locates ref.lsa).neg, fun ref => (compareLsas_locates ref.lsa).zero⟩

theorem findId_locates (id : NodeId) :
    Avl.Locates (fun rid : LocRibId => memcmp id.1 rid.id.1 NODE_ID_LEN) LocRibId.id id :=
  ⟨fun rid => memcmp_ids_neg id rid.id, fun rid => memcmp_ids_zero id rid.id⟩

theorem compareIds_orders : Avl.Orders compareIds LocRibId.id :=
  ⟨fun rid => (findId_locates rid.id).neg, fun rid => (findId_locates rid.id).zero⟩

/-! ## The invariant -/

/-- The LSAs of an entry. -/
def LocRibId.ptrs (rid : LocRibId) : List LsaPtr := rid.lsas.map LocRibLsaRef.lsa

/-- The LSAs that an entry holds a reference to. -/
def LocRibId.held (rid : LocRibId) : List LsaPtr := rid.ptrs ++ rid.best.toList

/-- What holds of an entry. -/
structure LocRibId.Inv (rid : LocRibId) : Prop where
  sorted : Avl.Sorted LocRibLsaRef.key rid.lsas
  ids : ∀ p ∈ rid.held, p.lsa.id = rid.id
  addr : ∀ p ∈ rid.held, ∀ q ∈ rid.held, p.addr = q.addr → p = q
  some : ∀ p, rid.best = some p → rid.bestcost < RIB_COST_INELIGIBLE
  none : rid.best = none → rid.bestcost = RIB_COST_INELIGIBLE

/-- What holds of a local RIB. -/
structure LocRib.Inv (rib : LocRib) : Prop where
  sorted : Avl.Sorted LocRibId.id rib.ids
  entries : ∀ rid ∈ rib.ids, rid.Inv

/-- No object that the RIB holds has the address of `lsa`. -/
def LocRib.Fresh (rib : LocRib) (lsa : LsaPtr) : Prop :=
  ∀ rid ∈ rib.ids, ∀ p ∈ rid.held, p.addr ≠ lsa.addr

/-- `lsa` is among the LSAs of its id. -/
def LocRib.Present (rib : LocRib) (lsa : LsaPtr) : Prop :=
  ∃ rid ∈ rib.ids, rid.id = lsa.lsa.id ∧ lsa ∈ rid.ptrs

/-- The entry of an id; an empty one when there is none. -/
def LocRib.entry (rib : LocRib) (id : NodeId) : LocRibId :=
  (locRibFindId rib id).getD (LocRibId.new id)

variable {rib rib' : LocRib} {rid : LocRibId} {lsa old new : LsaPtr} {id : NodeId}

theorem findId_eq_some (hs : Avl.Sorted LocRibId.id rib.ids) :
    locRibFindId rib id = some rid ↔ rid ∈ rib.ids ∧ rid.id = id :=
  Avl.find_eq_some hs (findId_locates id)

theorem entry_of_mem (hs : Avl.Sorted LocRibId.id rib.ids) (h : rid ∈ rib.ids) :
    rib.entry rid.id = rid := by
  unfold LocRib.entry
  rw [(findId_eq_some hs).mpr ⟨h, rfl⟩]
  rfl

theorem LocRibId.inv_new (id : NodeId) : (LocRibId.new id).Inv where
  sorted := Avl.sorted_nil
  ids := by simp [LocRibId.held, LocRibId.ptrs, LocRibId.new]
  addr := by simp [LocRibId.held, LocRibId.ptrs, LocRibId.new]
  some := by simp [LocRibId.new]
  none := fun _ => rfl

/-- Either an id has an entry, or it reads as a new one. -/
theorem entry_cases (hs : Avl.Sorted LocRibId.id rib.ids) (id : NodeId) :
    (∃ rid ∈ rib.ids, rid.id = id ∧ locRibFindId rib id = some rid ∧ rib.entry id = rid) ∨
      (locRibFindId rib id = none ∧ rib.entry id = LocRibId.new id) := by
  cases h : locRibFindId rib id with
  | none => exact Or.inr ⟨rfl, by rw [LocRib.entry, h]; rfl⟩
  | some rid =>
    obtain ⟨hm, hid⟩ := (findId_eq_some hs).mp h
    exact Or.inl ⟨rid, hm, hid, rfl, by rw [LocRib.entry, h]; rfl⟩

theorem LocRib.Inv.entry (hi : rib.Inv) (id : NodeId) :
    (rib.entry id).Inv ∧ (rib.entry id).id = id := by
  rcases entry_cases hi.sorted id with ⟨rid, hm, hid, _, he⟩ | ⟨_, he⟩
  · rw [he]
    exact ⟨hi.entries rid hm, hid⟩
  · rw [he]
    exact ⟨LocRibId.inv_new id, rfl⟩

theorem LocRib.Fresh.entry (hi : rib.Inv) (hf : rib.Fresh lsa) (id : NodeId) :
    ∀ p ∈ (rib.entry id).held, p.addr ≠ lsa.addr := by
  rcases entry_cases hi.sorted id with ⟨rid, hm, _, _, he⟩ | ⟨_, he⟩
  · rw [he]
    exact hf rid hm
  · rw [he]
    simp [LocRibId.held, LocRibId.ptrs, LocRibId.new]

theorem present_iff (hi : rib.Inv) :
    rib.Present lsa ↔ lsa ∈ (rib.entry lsa.lsa.id).ptrs := by
  constructor
  · rintro ⟨rid, hm, hid, hp⟩
    rwa [← hid, entry_of_mem hi.sorted hm]
  · intro hp
    rcases entry_cases hi.sorted lsa.lsa.id with ⟨rid, hm, hid, _, he⟩ | ⟨_, he⟩
    · exact ⟨rid, hm, hid, he ▸ hp⟩
    · rw [he] at hp
      simp [LocRibId.ptrs, LocRibId.new] at hp

/-! ## Updates of one entry -/

/-- `rib'` is `rib` with the entry `rid`. -/
structure Updates (rib rib' : LocRib) (rid : LocRibId) : Prop where
  myid : rib'.myid = rib.myid
  sorted : Avl.Sorted LocRibId.id rib'.ids
  find : ∀ id, locRibFindId rib' id = if id = rid.id then some rid else locRibFindId rib id

theorem Updates.entry (h : Updates rib rib' rid) (id : NodeId) :
    rib'.entry id = if id = rid.id then rid else rib.entry id := by
  unfold LocRib.entry
  rw [h.find id]
  split_ifs <;> rfl

theorem Updates.inv (h : Updates rib rib' rid) (hi : rib.Inv) (hr : rid.Inv) : rib'.Inv := by
  refine ⟨h.sorted, fun rid' hm => ?_⟩
  have hf := (findId_eq_some h.sorted).mpr ⟨hm, rfl⟩
  rw [h.find] at hf
  split_ifs at hf with hid
  · obtain rfl := Option.some.inj hf
    exact hr
  · exact hi.entries rid' ((findId_eq_some hi.sorted).mp hf).1

/-- The mutation of an entry that is there. -/
theorem updates_setId (hs : Avl.Sorted LocRibId.id rib.ids)
    (hf : (locRibFindId rib rid.id).isSome) : Updates rib (rib.setId rid) rid := by
  have hkey : ∀ rid' : LocRibId, (if rid'.id = rid.id then rid else rid').id = rid'.id := by
    intro rid'
    split_ifs with h
    · exact h.symm
    · rfl
  refine ⟨rfl, List.pairwise_map.mpr ?_, fun id => ?_⟩
  · exact hs.imp fun {a b} hlt => by rwa [hkey, hkey]
  · unfold locRibFindId LocRib.setId
    rw [Avl.find_map]
    have hprobe : (fun rid' : LocRibId => memcmp id.1 rid'.id.1 NODE_ID_LEN) ∘
        (fun rid' => if rid'.id = rid.id then rid else rid') =
        fun rid' => memcmp id.1 rid'.id.1 NODE_ID_LEN := by
      funext rid'
      simp only [Function.comp, hkey]
    rw [hprobe]
    change Option.map _ (locRibFindId rib id) = if id = rid.id then _ else locRibFindId rib id
    cases hfind : locRibFindId rib id with
    | none =>
      rw [if_neg]
      · rfl
      · rintro rfl
        rw [hfind] at hf
        exact absurd hf (by simp)
    | some rid' =>
      have hid := ((findId_eq_some hs).mp hfind).2
      rw [Option.map_some, hid]
      split_ifs <;> rfl

theorem getId_spec (hs : Avl.Sorted LocRibId.id rib.ids) (id : NodeId) :
    (getId rib id).2 = rib.entry id ∧ Updates rib (getId rib id).1 (rib.entry id) := by
  unfold getId
  rcases entry_cases hs id with ⟨rid, hm, rfl, hf, he⟩ | ⟨hf, he⟩
  · rw [hf, he]
    refine ⟨rfl, rfl, hs, fun id' => ?_⟩
    split_ifs with h
    · rw [h, hf]
    · rfl
  · rw [hf, he]
    obtain ⟨ids, hins⟩ := Avl.exists_insert (x := LocRibId.new id) compareIds_orders hs
      ((Avl.find_eq_none hs (findId_locates id)).mp hf)
    have hs' := Avl.sorted_insert compareIds_orders hs hins
    simp only [hins, Option.getD_some]
    refine ⟨trivial, rfl, hs', fun id' => ?_⟩
    change _ = if id' = id then some (LocRibId.new id) else locRibFindId rib id'
    by_cases h : id' = id
    · subst h
      rw [if_pos rfl]
      refine (findId_eq_some hs').mpr ?_
      exact ⟨(Avl.mem_insert hins).mpr (Or.inl rfl), rfl⟩
    · rw [if_neg h]
      refine Option.ext fun rid => ?_
      rw [@findId_eq_some { rib with ids := ids } rid id' hs', findId_eq_some hs,
        Avl.mem_insert hins]
      constructor
      · rintro ⟨rfl | hm, hid⟩
        · exact absurd hid.symm h
        · exact ⟨hm, hid⟩
      · exact fun ⟨hm, hid⟩ => ⟨Or.inr hm, hid⟩

theorem Updates.trans {rib'' : LocRib} {rid' : LocRibId} (h : Updates rib rib' rid)
    (h' : Updates rib' rib'' rid') (hid : rid'.id = rid.id) : Updates rib rib'' rid' := by
  refine ⟨h'.myid.trans h.myid, h'.sorted, fun id => ?_⟩
  rw [h'.find, h.find, hid]
  split_ifs <;> rfl

/-- A change of the LSAs of an entry, with at most one fresh LSA. -/
theorem LocRibId.Inv.withLsas (hr : rid.Inv) {lsas : List LocRibLsaRef} (new : LsaPtr) (mark : Nat)
    (hs : Avl.Sorted LocRibLsaRef.key lsas)
    (hmem : ∀ p ∈ lsas.map LocRibLsaRef.lsa, p ∈ rid.ptrs ∨
      p = new ∧ new.lsa.id = rid.id ∧ ∀ q ∈ rid.held, q.addr ≠ new.addr) :
    { rid with lsas := lsas, highestVersionSeen := mark }.Inv := by
  have hheld : ∀ p ∈ lsas.map LocRibLsaRef.lsa ++ rid.best.toList, p ∈ rid.held ∨
      p = new ∧ new.lsa.id = rid.id ∧ ∀ q ∈ rid.held, q.addr ≠ new.addr := by
    intro p hp
    rcases List.mem_append.mp hp with hp | hp
    · exact (hmem p hp).imp_left (List.mem_append_left _)
    · exact Or.inl (List.mem_append_right _ hp)
  refine ⟨hs, fun p hp => ?_, fun p hp q hq e => ?_, hr.some, hr.none⟩
  · rcases hheld p hp with hp | ⟨rfl, hid, _⟩
    · exact hr.ids p hp
    · exact hid
  · rcases hheld p hp with hp | ⟨rfl, _, hp⟩
    · rcases hheld q hq with hq | ⟨rfl, _, hq⟩
      · exact hr.addr p hp q hq e
      · exact absurd e (hq p hp)
    · rcases hheld q hq with hq | ⟨rfl, _, _⟩
      · exact absurd e.symm (hp q hq)
      · rfl

/-! ## Add, replace, delete -/

theorem insertRef_spec {lsas : List LocRibLsaRef} (ref : LocRibLsaRef)
    (hs : Avl.Sorted LocRibLsaRef.key lsas) (hf : ∀ r ∈ lsas, r.lsa.addr ≠ ref.lsa.addr) :
    ∃ lsas', insertRef lsas ref = .ok lsas' ∧ Avl.Sorted LocRibLsaRef.key lsas' ∧
      lsas'.Perm (ref :: lsas) := by
  obtain ⟨lsas', hins⟩ := Avl.exists_insert (x := ref) compareLsaRefs_orders hs
    fun r hr e => hf r hr (LsaPtr.key_inj e)
  exact ⟨lsas', by rw [insertRef, hins], Avl.sorted_insert compareLsaRefs_orders hs hins,
    Avl.insert_perm hins⟩

/-- **`loc_rib_add_lsa`** adds a fresh LSA to its entry and raises the mark. -/
theorem add_spec (hi : rib.Inv) (hf : rib.Fresh lsa) :
    ∃ rib' lsas', locRibAddLsa rib lsa = .ok rib' ∧
      Updates rib rib' { rib.entry lsa.lsa.id with
        lsas := lsas'
        highestVersionSeen :=
          max (rib.entry lsa.lsa.id).highestVersionSeen (lsaGetVersion lsa.lsa) } ∧
      (lsas'.map LocRibLsaRef.lsa).Perm (lsa :: (rib.entry lsa.lsa.id).ptrs) ∧ rib'.Inv := by
  obtain ⟨hr, hid⟩ := hi.entry lsa.lsa.id
  have hheld := hf.entry hi lsa.lsa.id
  obtain ⟨hget, hup⟩ := getId_spec hi.sorted lsa.lsa.id
  obtain ⟨lsas', hins, hs', hp⟩ := insertRef_spec ⟨lsa, 0⟩ hr.sorted fun r hr' =>
    hheld r.lsa (List.mem_append_left _ (List.mem_map_of_mem hr'))
  have hperm : (lsas'.map LocRibLsaRef.lsa).Perm (lsa :: (rib.entry lsa.lsa.id).ptrs) :=
    hp.map LocRibLsaRef.lsa
  have hup' : Updates rib ((getId rib lsa.lsa.id).1.setId { rib.entry lsa.lsa.id with
      lsas := lsas'
      highestVersionSeen :=
        max (rib.entry lsa.lsa.id).highestVersionSeen (lsaGetVersion lsa.lsa) }) _ :=
    hup.trans (updates_setId hup.sorted (by
      rw [hup.find, if_pos rfl]
      rfl)) rfl
  refine ⟨_, lsas', ?_, hup', hperm, hup'.inv hi (hr.withLsas lsa _ hs' fun p hp' => ?_)⟩
  · unfold locRibAddLsa
    simp only [hget, hins, ok_bind, pure_eq_ok]
    congr 2
    split_ifs with h
    · rw [max_eq_right (le_of_lt h)]
    · rw [max_eq_left (not_lt.mp h)]
  · rcases List.mem_cons.mp (hperm.mem_iff.mp hp') with rfl | hp'
    · exact Or.inr ⟨rfl, hid.symm, hheld⟩
    · exact Or.inl hp'

/-- The search for an LSA that is there. -/
theorem findLsaRef_spec (hi : rib.Inv) (hp : rib.Present lsa) :
    ∃ rid ref, locRibFindId rib lsa.lsa.id = some rid ∧ rib.entry lsa.lsa.id = rid ∧ rid.Inv ∧
      findLsaRef rid lsa = some ref ∧ ref ∈ rid.lsas ∧ ref.lsa = lsa := by
  obtain ⟨rid, hm, hid, hmem⟩ := hp
  have hr := hi.entries rid hm
  obtain ⟨ref, href, rfl⟩ := List.mem_map.mp hmem
  have hfind : locRibFindId rib ref.lsa.lsa.id = some rid :=
    (findId_eq_some hi.sorted).mpr ⟨hm, hid⟩
  exact ⟨rid, ref, hfind, by rw [LocRib.entry, hfind]; rfl, hr,
    (Avl.find_eq_some hr.sorted (compareLsas_locates ref.lsa)).mpr ⟨href, rfl⟩, href, rfl⟩

/-- **`loc_rib_mod_lsa`** replaces an LSA by a fresh one of the same id, and leaves the mark. -/
theorem mod_spec (hi : rib.Inv) (hp : rib.Present old) (hf : rib.Fresh new)
    (hid : new.lsa.id = old.lsa.id) :
    ∃ rib' lsas', locRibModLsa rib old new = .ok rib' ∧
      Updates rib rib' { rib.entry old.lsa.id with lsas := lsas' } ∧
      (∃ rest, (rib.entry old.lsa.id).ptrs.Perm (old :: rest) ∧
        (lsas'.map LocRibLsaRef.lsa).Perm (new :: rest)) ∧ rib'.Inv := by
  obtain ⟨rid, ref, hfind, he, hr, href, hmem, rfl⟩ := findLsaRef_spec hi hp
  have hheld := hf.entry hi ref.lsa.lsa.id
  have hrid := ((findId_eq_some hi.sorted).mp hfind).2
  rw [he] at hheld ⊢
  have hdel := Avl.delete_perm compareLsaRefs_orders hr.sorted hmem
  have hsub : ∀ r ∈ Avl.delete compareLsaRefs ref rid.lsas, r.lsa ∈ rid.ptrs := fun r h =>
    List.mem_map_of_mem (Avl.delete_sublist.subset h)
  obtain ⟨lsas', hins, hs', hperm⟩ := insertRef_spec { ref with lsa := new }
    (Avl.sorted_delete hr.sorted) fun r h => hheld r.lsa (List.mem_append_left _ (hsub r h))
  have hup : Updates rib (rib.setId { rid with lsas := lsas' }) { rid with lsas := lsas' } :=
    updates_setId hi.sorted (by
      change (locRibFindId rib rid.id).isSome
      rw [hrid, hfind]
      rfl)
  refine ⟨_, lsas', ?_, hup, ⟨_, hdel.map LocRibLsaRef.lsa, hperm.map LocRibLsaRef.lsa⟩,
    hup.inv hi (hr.withLsas new _ hs' fun p hp' => ?_)⟩
  · simp only [locRibModLsa, hfind, href, hins, ok_bind, pure_eq_ok]
  · obtain ⟨r, hr', rfl⟩ := List.mem_map.mp hp'
    rcases List.mem_cons.mp (hperm.mem_iff.mp hr') with rfl | hr'
    · exact Or.inr ⟨rfl, hid.trans hrid.symm, hheld⟩
    · exact Or.inl (hsub r hr')

/-- **`loc_rib_del_lsa`** takes an LSA out of its entry. -/
theorem del_spec (hi : rib.Inv) (hp : rib.Present lsa) :
    ∃ rib' lsas', locRibDelLsa rib lsa = .ok rib' ∧
      Updates rib rib' { rib.entry lsa.lsa.id with lsas := lsas' } ∧
      (rib.entry lsa.lsa.id).ptrs.Perm (lsa :: lsas'.map LocRibLsaRef.lsa) ∧ rib'.Inv := by
  obtain ⟨rid, ref, hfind, he, hr, href, hmem, rfl⟩ := findLsaRef_spec hi hp
  have hrid := ((findId_eq_some hi.sorted).mp hfind).2
  rw [he]
  have hdel := Avl.delete_perm compareLsaRefs_orders hr.sorted hmem
  have hup : Updates rib (rib.setId { rid with lsas := Avl.delete compareLsaRefs ref rid.lsas })
      { rid with lsas := Avl.delete compareLsaRefs ref rid.lsas } :=
    updates_setId hi.sorted (by
      change (locRibFindId rib rid.id).isSome
      rw [hrid, hfind]
      rfl)
  refine ⟨_, _, ?_, hup, hdel.map LocRibLsaRef.lsa,
    hup.inv hi (hr.withLsas ref.lsa _ (Avl.sorted_delete hr.sorted) fun p hp' => ?_)⟩
  · simp only [locRibDelLsa, hfind, href, pure_eq_ok]
  · obtain ⟨r, hr', rfl⟩ := List.mem_map.mp hp'
    exact Or.inl (List.mem_map_of_mem (Avl.delete_sublist.subset hr'))

end Dvpn

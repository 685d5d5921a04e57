import Dvpn.Lsa.Admit
import Dvpn.Lsa.Mutate
import Dvpn.Run

/-!
# The byte count of an LSA (`lsa.c:66-160`, `lsa.c:226-417`)

`lsa->bytes` starts with the length and the id and counts `lsa_attr_size` of every attribute, at
every level: what an insertion adds to a set that a path leads to, and what a deletion subtracts
with a recursive release. `lsasStep` is the machine of all LSAs of the program with the operations
on them.

* `Accounted`: the count is exact, on an ordered tree of attributes that could be allocated.
* `InSetSpec`: what an insertion does to one set; `inSet_spec` is what it does to the whole tree.
* `lsaMutate_changed`: one change of an LSA.
* `bytes_accounted`: every run.
* `clone_faithful`: the copies of such an LSA.
-/

namespace Dvpn

/-! ## The machine -/

/-- An insertion into the set that `path` leads to; without that set the caller has nothing but
NULL to pass. -/
def inSet (f : AttrSet → Except Crash (Option (LsaObj × AttrSet))) :
    List (Int ×ₗ Bytes) → AttrSet → Except Crash (Option (LsaObj × AttrSet))
  | [], set => f set
  | p :: path, set =>
    match set.find? fun a => a.pair = p with
    | some (.set t s k l) => do
      match ← inSet f path l with
      | none => return none
      | some (lsa, l) => return some (lsa, set.map fun a => if a.pair = p then .set t s k l else a)
    | _ => throw .attrSetNull

/-- The changes of an LSA. With the empty path the insertions are `lsa_add_attr` and
`lsa_add_attr_set`. -/
inductive LsaChange where
  | addAttr (path : List (Int ×ₗ Bytes)) (type : Int) (sign : Bool) (key data : Bytes)
  | addAttrSet (path : List (Int ×ₗ Bytes)) (type : Int) (sign : Bool) (key : Bytes)
  | delAttr (attr : Attr)
  | delAttrBykey (type : Int) (key : Bytes)

/-- The object after a change, and `false` when an insertion returns -1 or NULL. -/
def lsaMutate (lsa : LsaObj) : LsaChange → Except Crash (LsaObj × Bool)
  | .addAttr path t s k d => do
    match ← inSet (fun set => lsaAttrSetAddAttr lsa set t s k d) path lsa.root with
    | none => return (lsa, false)
    | some (lsa, root) => return ({ lsa with root := root }, true)
  | .addAttrSet path t s k => do
    let add (set : AttrSet) : Except Crash (Option (LsaObj × AttrSet)) := do
      match ← lsaAttrSetAddAttrSet lsa set t s k with
      | none => return none
      | some (lsa, store) => return some (lsa, store [])
    match ← inSet add path lsa.root with
    | none => return (lsa, false)
    | some (lsa, root) => return ({ lsa with root := root }, true)
  | .delAttr attr => return (← lsaDelAttr lsa attr, true)
  | .delAttrBykey t k => return (← lsaDelAttrBykey lsa t k, true)

/-- What is done to the LSAs of the program; `i` is the place of one of them. -/
inductive LsasOp where
  | alloc (id : NodeId)
  | clone (i : Nat)
  | deserialise (buf : Bytes)
  | change (i : Nat) (c : LsaChange)

/-- One operation on the LSAs of the program, and what it returned. -/
def lsasStep (lsas : List LsaObj) : LsasOp → Except Crash (List LsaObj × List Bool)
  | .alloc id => return (lsas ++ [lsaAlloc id], [true])
  | .clone i =>
    match lsas[i]? with
    | none => return (lsas, [])
    | some lsa => do return (lsas ++ [← lsaClone lsa.toLsa], [true])
  | .deserialise buf => do
    match ← lsaDeserialise buf with
    | (_, none) => return (lsas, [])
    | (_, some lsa) => return (lsas ++ [lsa], [true])
  | .change i c =>
    match lsas[i]? with
    | none => return (lsas, [])
    | some lsa => do
      let (lsa, ok) ← lsaMutate lsa c
      return (lsas.set i lsa, [ok])

/-- The attribute that `lsa_del_attr` is called with is one of the LSA. -/
def LsasContract (lsas : List LsaObj) : LsasOp → Prop
  | .change i (.delAttr attr) => ∀ lsa, lsas[i]? = some lsa → attr ∈ lsa.root
  | _ => True

/-! ## The invariant -/

/-- The count is exact. -/
structure Accounted (lsa : Lsa) : Prop where
  wf : AttrsWf lsa.root
  allocated : AttrsEverywhere Attr.Allocated lsa.root
  bytes : lsa.bytes = MAX_SERIALISED_INT_LEN + NODE_ID_LEN + attrsSize lsa.root

variable {lsa lsa' obj : LsaObj} {set set' l l' : AttrSet} {a b : Attr} {t : Int} {s : Bool}
  {k d : Bytes} {n : Nat}

theorem accounted_lsaAlloc (id : NodeId) : Accounted (lsaAlloc id).toLsa :=
  ⟨attrsWf_nil, trivial, rfl⟩

/-! ## Insertions -/

/-- The tree is ordered and its attributes could be allocated. -/
def Sound (l : AttrSet) : Prop := AttrsWf l ∧ AttrsEverywhere Attr.Allocated l

/-- What an insertion does to a set: `n` more bytes in the set, and in the LSA. -/
def InSetSpec (lsa : LsaObj) (n : Nat) (f : AttrSet → Except Crash (Option (LsaObj × AttrSet))) :
    Prop :=
  ∀ set lsa' set', Sound set → f set = .ok (some (lsa', set')) →
    lsa' = { lsa with bytes := lsa.bytes + n } ∧ Sound set' ∧ attrsSize set' = attrsSize set + n

theorem sound_insert (h : Sound set) (ha : Sound a.children) (halloc : a.Allocated)
    (hi : Avl.insert compareAttrKeys a set = some set') :
    Sound set' ∧ attrsSize set' = attrsSize set + a.totalSize := by
  have hp := Avl.insert_perm hi
  refine ⟨⟨⟨Avl.sorted_insert compareAttrKeys_orders h.1.1 hi, ?_⟩, ?_⟩, ?_⟩
  · rw [attrsEverywhere_perm hp]
    exact ⟨everywhere_iff.mpr ⟨ha.1.1, ha.1.2⟩, h.1.2⟩
  · rw [attrsEverywhere_perm hp]
    exact ⟨everywhere_iff.mpr ⟨halloc, ha.2⟩, h.2⟩
  · rw [attrsSize_perm hp, attrsSize, Nat.add_comm]

theorem lsaAttrSetAddAttr_some
    (h : lsaAttrSetAddAttr lsa set t s k d = .ok (some (lsa', set'))) :
    lsa' = { lsa with bytes := lsa.bytes + (Attr.plain t s k d).size } ∧
      (Attr.plain t s k d).Allocated ∧
      Avl.insert compareAttrKeys (.plain t s k d) set = some set' := by
  unfold lsaAttrSetAddAttr at h
  by_cases hr : lsa.refcount = 1
  · cases hfind : (lsaAttrSetFindAttr set t k).isSome with
    | true => simp [hr, hfind] at h
    | false =>
      simp only [hr, hfind, ne_eq, not_true_eq_false, if_false, Bool.false_eq_true] at h
      obtain ⟨⟨⟩, halloc, h⟩ := bind_eq_ok.mp h
      cases hi : Avl.insert compareAttrKeys (.plain t s k d) set with
      | none => simp [hi] at h
      | some set₁ =>
        rw [hi] at h
        obtain ⟨size, hsize, h⟩ := bind_eq_ok.mp h
        obtain ⟨rfl, rfl⟩ := Prod.mk.inj (Option.some.inj (Except.ok.inj h))
        obtain rfl := lsaAttrSize_ok hsize
        exact ⟨by rw [hr], ⟨halloc, hsize⟩, rfl⟩
  · simp [hr] at h

theorem lsaAttrSetAddAttrSet_some {store : AttrSet → AttrSet}
    (h : lsaAttrSetAddAttrSet lsa set t s k = .ok (some (lsa', store))) :
    lsa' = { lsa with bytes := lsa.bytes + (Attr.set t s k []).size } ∧
      (Attr.set t s k []).Allocated ∧ ∃ set', Avl.insert compareAttrKeys (.set t s k []) set =
        some set' ∧ ∀ child, store child =
          (Avl.insert compareAttrKeys (.set t s k child) set).getD set' := by
  unfold lsaAttrSetAddAttrSet at h
  by_cases hr : lsa.refcount = 1
  · cases hfind : (lsaAttrSetFindAttr set t k).isSome with
    | true => simp [hr, hfind] at h
    | false =>
      simp only [hr, hfind, ne_eq, not_true_eq_false, if_false, Bool.false_eq_true] at h
      obtain ⟨⟨⟩, halloc, h⟩ := bind_eq_ok.mp h
      cases hi : Avl.insert compareAttrKeys (.set t s k []) set with
      | none => simp [hi] at h
      | some set₁ =>
        rw [hi] at h
        obtain ⟨size, hsize, h⟩ := bind_eq_ok.mp h
        obtain ⟨rfl, rfl⟩ := Prod.mk.inj (Option.some.inj (Except.ok.inj h))
        obtain rfl := lsaAttrSize_ok hsize
        exact ⟨by rw [hr], ⟨halloc, hsize⟩, set₁, rfl, fun _ => rfl⟩
  · simp [hr] at h

theorem lsaAttrSetAddAttr_spec :
    InSetSpec lsa (Attr.plain t s k d).size fun set => lsaAttrSetAddAttr lsa set t s k d := by
  intro set lsa' set' hs h
  obtain ⟨hlsa, halloc, hi⟩ := lsaAttrSetAddAttr_some h
  exact ⟨hlsa, sound_insert (a := .plain t s k d) hs ⟨attrsWf_nil, trivial⟩ halloc hi⟩

theorem lsaAttrSetAddAttrSet_spec :
    InSetSpec lsa (Attr.set t s k []).size fun set => do
      match ← lsaAttrSetAddAttrSet lsa set t s k with
      | none => return none
      | some (lsa, store) => return some (lsa, store []) := by
  intro set lsa' set' hs h
  obtain ⟨r, hadd, h⟩ := bind_eq_ok.mp h
  cases r with
  | none => cases h
  | some r =>
    obtain ⟨lsa₁, store⟩ := r
    obtain ⟨rfl, rfl⟩ := Prod.mk.inj (Option.some.inj (Except.ok.inj h))
    obtain ⟨hlsa, halloc, set₁, hi, hstore⟩ := lsaAttrSetAddAttrSet_some hadd
    rw [hstore, hi, Option.getD_some]
    exact ⟨hlsa, sound_insert (a := .set t s k []) hs ⟨attrsWf_nil, trivial⟩ halloc hi⟩

/-- One attribute of an ordered set is replaced, by one with the same pair. -/
theorem map_replace (h : Avl.Sorted Attr.pair (l ++ a :: l')) :
    (l ++ a :: l').map (fun c => if c.pair = a.pair then b else c) = l ++ b :: l' := by
  rw [Avl.sorted_append, Avl.sorted_cons] at h
  obtain ⟨-, ⟨hafter, -⟩, hbefore⟩ := h
  rw [List.map_append, List.map_cons, if_pos rfl]
  congr 1
  · refine (List.map_congr_left fun c hc => if_neg ?_).trans (List.map_id l)
    exact ne_of_lt (hbefore c hc a List.mem_cons_self)
  · congr 1
    refine (List.map_congr_left fun c hc => if_neg ?_).trans (List.map_id l')
    exact ne_of_gt (hafter c hc)

theorem sound_append : Sound (l ++ a :: l') ↔ Avl.Sorted Attr.pair (l ++ a :: l') ∧
    (AttrsEverywhere (fun a => Avl.Sorted Attr.pair a.children) l ∧
      AttrsEverywhere Attr.Allocated l) ∧
    (a.Allocated ∧ Sound a.children) ∧
    AttrsEverywhere (fun a => Avl.Sorted Attr.pair a.children) l' ∧
      AttrsEverywhere Attr.Allocated l' := by
  rw [Sound, AttrsWf, attrsEverywhere_append, attrsEverywhere_append, AttrsEverywhere,
    AttrsEverywhere, everywhere_iff, everywhere_iff, Sound, AttrsWf]
  tauto

theorem attrsSize_append : attrsSize (l ++ l') = attrsSize l + attrsSize l' := by
  rw [attrsSize_eq_sum, attrsSize_eq_sum, attrsSize_eq_sum, List.map_append, List.sum_append]

/-- **An insertion below** does to the whole tree what it does to its set. -/
theorem inSet_spec {f : AttrSet → Except Crash (Option (LsaObj × AttrSet))}
    (hf : InSetSpec lsa n f) : ∀ path, InSetSpec lsa n (inSet f path)
  | [] => hf
  | p :: path => by
    intro set lsa' set' hs h
    unfold inSet at h
    cases hfind : set.find? fun a => a.pair = p with
    | none =>
      rw [hfind] at h
      cases h
    | some a =>
      obtain rfl : a.pair = p := by simpa using List.find?_some hfind
      rw [hfind] at h
      cases a with
      | plain t s k d => cases h
      | set t s k child =>
        dsimp only at h
        obtain ⟨r, hr, h⟩ := bind_eq_ok.mp h
        cases r with
        | none => cases h
        | some r =>
          obtain ⟨lsa₁, child'⟩ := r
          obtain ⟨rfl, rfl⟩ := Prod.mk.inj (Option.some.inj (Except.ok.inj h))
          obtain ⟨l, l', rfl⟩ := List.append_of_mem (List.mem_of_find?_eq_some hfind)
          obtain ⟨hsort, hl, ⟨halloc, hchild⟩, hl'⟩ := sound_append.mp hs
          obtain ⟨rfl, hchild', hsize⟩ := inSet_spec hf path child _ child' hchild hr
          rw [map_replace hsort]
          refine ⟨rfl, sound_append.mpr ⟨?_, hl, ⟨halloc.set, hchild'⟩, hl'⟩, ?_⟩
          · -- the pair of the set is the same
            have hpairs : ((l ++ .set t s k child :: l').map Attr.pair).Pairwise (· < ·) :=
              List.pairwise_map.mpr hsort
            have hpairs' : ((l ++ .set t s k child' :: l').map Attr.pair).Pairwise (· < ·) := by
              rw [List.map_append, List.map_cons] at hpairs ⊢
              exact hpairs
            exact List.pairwise_map.mp hpairs'
          · rw [attrsSize_append, attrsSize_append, attrsSize, attrsSize, Attr.totalSize,
              Attr.totalSize, hsize]
            have hsame : (Attr.set t s k child').size = (Attr.set t s k child).size := rfl
            omega

/-! ## Deletions -/

/-- A release subtracts the size of an attribute and of everything below it. -/
def FreeSpec (a : Attr) : Prop :=
  ∀ n m, attrFree a n = .ok m → a.totalSize ≤ n → m + a.totalSize = n

theorem treeFree_of_each (h : ∀ a ∈ l, FreeSpec a) {m : Nat} (hrun : attrTreeFree l n = .ok m)
    (hle : attrsSize l ≤ n) : m + attrsSize l = n := by
  induction l generalizing n m with
  | nil =>
    obtain rfl := Except.ok.inj hrun
    rfl
  | cons a l ih =>
    unfold attrTreeFree at hrun
    obtain ⟨n', ha, hrun⟩ := bind_eq_ok.mp hrun
    rw [attrsSize] at hle ⊢
    have h1 := h a List.mem_cons_self n n' ha (by omega)
    have h2 := ih (fun b hb => h b (List.mem_cons_of_mem a hb)) hrun (by omega)
    omega

theorem attrFree_spec (a : Attr) : FreeSpec a := by
  induction a using Attr.tree_induction with
  | plain t s k d =>
    intro n m h hle
    unfold attrFree at h
    obtain ⟨size, hsize, h⟩ := bind_eq_ok.mp h
    obtain rfl := lsaAttrSize_ok hsize
    obtain rfl := Except.ok.inj h
    rw [Attr.totalSize] at hle ⊢
    omega
  | set t s k l ih =>
    intro n m h hle
    unfold attrFree at h
    obtain ⟨size, hsize, h⟩ := bind_eq_ok.mp h
    obtain rfl := lsaAttrSize_ok hsize
    have hsame : (Attr.set t s k []).size = (Attr.set t s k l).size := rfl
    dsimp only at h
    split_ifs at h
    rw [Attr.totalSize] at hle ⊢
    have hrest := treeFree_of_each ih h (by omega)
    omega

/-- **A deletion** takes out the attribute, and its bytes with everything below it. -/
theorem lsaDelAttr_spec (h : Accounted lsa.toLsa) (ha : a ∈ lsa.root)
    (hdel : lsaDelAttr lsa a = .ok lsa') :
    Accounted lsa'.toLsa ∧ lsa.root.Perm (a :: lsa'.root) ∧ lsa'.bytes + a.totalSize = lsa.bytes ∧
      lsa'.refcount = lsa.refcount := by
  have hperm := Avl.delete_perm compareAttrKeys_orders h.wf.1 ha
  have hbytes := h.bytes
  rw [attrsSize_perm hperm, attrsSize] at hbytes
  have hsound : ∀ bytes, bytes + a.totalSize = lsa.bytes →
      Accounted
        { lsa with bytes := bytes, root := Avl.delete compareAttrKeys a lsa.root }.toLsa := by
    intro bytes hb
    have hwf := (attrsEverywhere_perm hperm).mp h.wf.2
    have halloc := (attrsEverywhere_perm hperm).mp h.allocated
    refine ⟨⟨Avl.sorted_delete h.wf.1, hwf.2⟩, halloc.2, ?_⟩
    dsimp only
    omega
  unfold lsaDelAttr at hdel
  by_cases hr : lsa.refcount = 1
  · simp only [hr, ne_eq, not_true_eq_false, if_false] at hdel
    obtain ⟨size, hsize, hdel⟩ := bind_eq_ok.mp hdel
    obtain rfl := lsaAttrSize_ok hsize
    cases a with
    | plain t s k d =>
      obtain rfl := Except.ok.inj hdel
      rw [Attr.totalSize] at hbytes
      have hb : lsa.bytes - (Attr.plain t s k d).size + (Attr.plain t s k d).totalSize =
          lsa.bytes := by
        rw [Attr.totalSize]
        omega
      exact ⟨hsound _ hb, hperm, hb, hr.symm⟩
    | set t s k l =>
      dsimp only at hdel
      rw [Attr.totalSize] at hbytes
      split_ifs at hdel with hnil
      · obtain rfl := Except.ok.inj hdel
        obtain rfl := List.isEmpty_iff.mp hnil
        have hb : lsa.bytes - (Attr.set t s k []).size + (Attr.set t s k []).totalSize =
            lsa.bytes := by
          rw [Attr.totalSize, attrsSize]
          omega
        exact ⟨hsound _ hb, hperm, hb, hr.symm⟩
      · obtain ⟨m, hfree, hdel⟩ := bind_eq_ok.mp hdel
        obtain rfl := Except.ok.inj hdel
        have hm := treeFree_of_each (fun a _ => attrFree_spec a) hfree (by omega)
        have hb : m + (Attr.set t s k l).totalSize = lsa.bytes := by
          rw [Attr.totalSize]
          omega
        exact ⟨hsound _ hb, hperm, hb, hr.symm⟩
  · simp [hr] at hdel

/-- A deletion by key takes out the attribute with that key. -/
theorem lsaDelAttrBykey_ok (h : lsaDelAttrBykey lsa t k = .ok lsa') :
    ∃ a, a.pair = toLex (t, k) ∧ a ∈ lsa.root ∧ lsaDelAttr lsa a = .ok lsa' := by
  unfold lsaDelAttrBykey at h
  by_cases hr : lsa.refcount = 1
  · cases hfind : lsaFindAttr lsa.toLsa t k with
    | none => simp [hr, hfind] at h
    | some a =>
      simp only [hr, hfind, ne_eq, not_true_eq_false, if_false] at h
      obtain ⟨ha, ht, hk⟩ := lsaAttrSetFindAttr_sound hfind
      exact ⟨a, by rw [Attr.pair, ht, hk], ha, h⟩
  · simp [hr] at h

/-! ## Runs -/

/-- The change takes an attribute out. -/
def LsaChange.Deletes : LsaChange → Prop
  | .addAttr .. => False
  | .addAttrSet .. => False
  | .delAttr _ => True
  | .delAttrBykey .. => True

/-- What a change does: a failed insertion nothing, and a deletion takes one attribute out and
exactly its bytes, with those of everything below it. -/
structure Changed (lsa : LsaObj) (c : LsaChange) (lsa' : LsaObj) (ok : Bool) : Prop where
  accounted : Accounted lsa'.toLsa
  failed : ok = false → lsa' = lsa
  deleted : c.Deletes →
    ∃ a, lsa.root.Perm (a :: lsa'.root) ∧ lsa'.bytes + a.totalSize = lsa.bytes

/-- An insertion by one of the two mutators. -/
theorem insert_changed {f : AttrSet → Except Crash (Option (LsaObj × AttrSet))}
    {path : List (Int ×ₗ Bytes)} {c : LsaChange} {ok : Bool} (h : Accounted lsa.toLsa)
    (hf : InSetSpec lsa n f) (hc : ¬ c.Deletes)
    (hrun : (do
      match ← inSet f path lsa.root with
      | none => return (lsa, false)
      | some (lsa, root) => return ({ lsa with root := root }, true)) =
        (.ok (lsa', ok) : Except Crash (LsaObj × Bool))) : Changed lsa c lsa' ok := by
  obtain ⟨r, hr, hrun⟩ := bind_eq_ok.mp hrun
  cases r with
  | none =>
    obtain ⟨rfl, rfl⟩ := Prod.mk.inj (Except.ok.inj hrun)
    exact ⟨h, fun _ => rfl, fun hd => absurd hd hc⟩
  | some r =>
    obtain ⟨lsa₁, root⟩ := r
    obtain ⟨rfl, rfl⟩ := Prod.mk.inj (Except.ok.inj hrun)
    obtain ⟨rfl, hsound, hsize⟩ := inSet_spec hf path lsa.root _ root ⟨h.wf, h.allocated⟩ hr
    refine ⟨⟨hsound.1, hsound.2, ?_⟩, fun hfalse => absurd hfalse (by simp), fun hd => absurd hd hc⟩
    have hbytes := h.bytes
    dsimp only
    omega

/-- **One change of an LSA.** -/
theorem lsaMutate_changed {c : LsaChange} {ok : Bool} (h : Accounted lsa.toLsa)
    (hc : ∀ a, c = .delAttr a → a ∈ lsa.root) (hrun : lsaMutate lsa c = .ok (lsa', ok)) :
    Changed lsa c lsa' ok := by
  have hdel : ∀ a, a ∈ lsa.root → lsaDelAttr lsa a = .ok lsa' → ok = true →
      Changed lsa c lsa' ok := by
    intro a ha hdel hok
    obtain ⟨hacc, hperm, hbytes, -⟩ := lsaDelAttr_spec h ha hdel
    exact ⟨hacc, fun hfalse => absurd (hok.symm.trans hfalse) (by simp),
      fun _ => ⟨a, hperm, hbytes⟩⟩
  cases c with
  | addAttr path t s k d => exact insert_changed h lsaAttrSetAddAttr_spec id hrun
  | addAttrSet path t s k => exact insert_changed h lsaAttrSetAddAttrSet_spec id hrun
  | delAttr a =>
    obtain ⟨lsa₁, hlsa, hrun⟩ := bind_eq_ok.mp hrun
    obtain ⟨rfl, rfl⟩ := Prod.mk.inj (Except.ok.inj hrun)
    exact hdel a (hc a rfl) hlsa rfl
  | delAttrBykey t k =>
    obtain ⟨lsa₁, hlsa, hrun⟩ := bind_eq_ok.mp hrun
    obtain ⟨rfl, rfl⟩ := Prod.mk.inj (Except.ok.inj hrun)
    obtain ⟨a, -, ha, hlsa⟩ := lsaDelAttrBykey_ok hlsa
    exact hdel a ha hlsa rfl

theorem builtLsa_accounted {id : NodeId} (hu : AttrsUnique l) (hf : AttrsFit l) :
    Accounted (builtLsa id l).toLsa where
  wf := arrange_wf hu
  allocated := (attrsFit_arrange.mpr hf).allocated
  bytes := congrArg (MAX_SERIALISED_INT_LEN + NODE_ID_LEN + ·) attrsSize_arrange.symm

/-- One operation keeps every count exact. -/
theorem lsasStep_accounted {lsas lsas' : List LsaObj} {op : LsasOp} {rets : List Bool}
    (h : ∀ lsa ∈ lsas, Accounted lsa.toLsa) (hc : LsasContract lsas op)
    (hrun : lsasStep lsas op = .ok (lsas', rets)) : ∀ lsa ∈ lsas', Accounted lsa.toLsa := by
  -- a new LSA joins the others
  have hnew : ∀ new, Accounted new.toLsa → ∀ lsa ∈ lsas ++ [new], Accounted lsa.toLsa := by
    intro new hacc lsa hm
    rcases List.mem_append.mp hm with hm | hm
    · exact h lsa hm
    · exact List.mem_singleton.mp hm ▸ hacc
  cases op with
  | alloc id =>
    obtain ⟨rfl, -⟩ := Prod.mk.inj (Except.ok.inj hrun)
    exact hnew _ (accounted_lsaAlloc id)
  | clone i =>
    simp only [lsasStep] at hrun
    cases hlsa : lsas[i]? with
    | none =>
      rw [hlsa] at hrun
      obtain ⟨rfl, -⟩ := Prod.mk.inj (Except.ok.inj hrun)
      exact h
    | some lsa =>
      rw [hlsa] at hrun
      have hacc := h lsa (List.mem_of_getElem? hlsa)
      obtain ⟨obj, hobj, hrun⟩ := bind_eq_ok.mp hrun
      obtain ⟨rfl, -⟩ := Prod.mk.inj (Except.ok.inj hrun)
      rw [lsaClone_eq hacc.wf hacc.allocated] at hobj
      obtain rfl := Except.ok.inj hobj
      exact hnew _ ⟨hacc.wf, hacc.allocated, rfl⟩
  | deserialise buf =>
    obtain ⟨⟨ret, lsa⟩, hlsa, hrun⟩ := bind_eq_ok.mp hrun
    cases lsa with
    | none =>
      obtain ⟨rfl, -⟩ := Prod.mk.inj (Except.ok.inj hrun)
      exact h
    | some lsa =>
      obtain ⟨rfl, -⟩ := Prod.mk.inj (Except.ok.inj hrun)
      obtain ⟨id, l, rfl, hu, hf⟩ := lsaDeserialise_built hlsa
      exact hnew _ (builtLsa_accounted hu hf)
  | change i c =>
    simp only [lsasStep] at hrun
    cases hlsa : lsas[i]? with
    | none =>
      rw [hlsa] at hrun
      obtain ⟨rfl, -⟩ := Prod.mk.inj (Except.ok.inj hrun)
      exact h
    | some lsa =>
      rw [hlsa] at hrun
      obtain ⟨⟨lsa', ok⟩, hlsa', hrun⟩ := bind_eq_ok.mp hrun
      obtain ⟨rfl, -⟩ := Prod.mk.inj (Except.ok.inj hrun)
      have hchanged := lsaMutate_changed (h lsa (List.mem_of_getElem? hlsa))
        (fun a e => by subst e; exact hc lsa hlsa) hlsa'
      intro x hx
      rcases List.mem_or_eq_of_mem_set hx with hx | rfl
      · exact h x hx
      · exact hchanged.accounted

/-- **The byte count is exact in every run**: what `lsa_alloc` starts with, and the sizes of the
attributes at every level. A failed insertion changes nothing, and a deletion subtracts what it
takes out, so the count does not underflow. -/
theorem bytes_accounted {ops : List LsasOp} {lsas : List LsaObj} {rets : List Bool}
    (h : Run lsasStep LsasContract [] ops lsas rets) :
    (∀ lsa ∈ lsas, Accounted lsa.toLsa) ∧
      ∀ i lsa c lsa' ok, lsas[i]? = some lsa → LsasContract lsas (.change i c) →
        lsaMutate lsa c = .ok (lsa', ok) → Changed lsa c lsa' ok := by
  have hall : ∀ lsa ∈ lsas, Accounted lsa.toLsa :=
    h.invariant (fun _ lsas _ => ∀ lsa ∈ lsas, Accounted lsa.toLsa)
      (fun lsa hm => absurd hm List.not_mem_nil) lsasStep_accounted
  refine ⟨hall, fun i lsa c lsa' ok hlsa hc hrun => ?_⟩
  exact lsaMutate_changed (hall lsa (List.mem_of_getElem? hlsa))
    (fun a e => by subst e; exact hc lsa hlsa) hrun

/-- A set with an attribute is added, copied, and taken out of the copy. -/
theorem bytes_accounted_peer : ∃ lsas rets, Run lsasStep LsasContract []
    [.alloc zeroId, .change 0 (.addAttrSet [] 2 true [7]),
      .change 0 (.addAttr [toLex (2, [7])] 1 true [] [0, 1]), .clone 0,
      .change 1 (.delAttrBykey 2 [7])] lsas rets ∧
    lsas.map (fun lsa => lsa.bytes) = [115, 42] ∧ ∀ lsa ∈ lsas, Accounted lsa.toLsa := by
  have hrun : Run lsasStep LsasContract [] [.alloc zeroId,
      .change 0 (.addAttrSet [] 2 true [7]),
      .change 0 (.addAttr [toLex (2, [7])] 1 true [] [0, 1]), .clone 0,
      .change 1 (.delAttrBykey 2 [7])]
      [{ bytes := 115, id := zeroId, refcount := 1,
         root := [.set 2 true [7] [.plain 1 true [] [0, 1]]] },
        lsaAlloc zeroId] [true, true, true, true, true] :=
    run_execute (by simp [LsasContract]) rfl
  exact ⟨_, _, hrun, rfl, (bytes_accounted hrun).1⟩

/-! ## Copies -/

/-- The insertion of a set, with the contents that are stored into it. -/
theorem store_perm {store : AttrSet → AttrSet} (hs : Avl.Sorted Attr.pair set)
    (h : lsaAttrSetAddAttrSet lsa set t s k = .ok (some (lsa', store))) (child : AttrSet) :
    (store child).Perm (.set t s k child :: set) := by
  obtain ⟨-, -, set₁, hi, hstore⟩ := lsaAttrSetAddAttrSet_some h
  cases hchild : Avl.insert compareAttrKeys (.set t s k child) set with
  | none =>
    -- the contents do not count in the order
    obtain ⟨b, hb, he⟩ := (Avl.insert_eq_none compareAttrKeys_orders hs).mp hchild
    have hnone : Avl.insert compareAttrKeys (.set t s k []) set = none :=
      (Avl.insert_eq_none compareAttrKeys_orders hs).mpr ⟨b, hb, he⟩
    rw [hnone] at hi
    cases hi
  | some set₂ =>
    rw [hstore, hchild]
    exact Avl.insert_perm hchild

/-- **A clone is the original again**, in an object of its own: the same id, tree and count, and so
the same bytes on the wire. When an attribute is deleted from it and another one is added, that is
all the two differ in. -/
theorem clone_faithful {lsa : Lsa} (h : Accounted lsa) : ∃ obj, lsaClone lsa = .ok obj ∧
    obj.refcount = 1 ∧ obj.toLsa = lsa ∧
    (∀ buflen serlen signedOnly preid,
      lsaSerialiseLength obj.toLsa signedOnly preid = lsaSerialiseLength lsa signedOnly preid ∧
      lsaSerialise buflen serlen obj.toLsa signedOnly preid =
        lsaSerialise buflen serlen lsa signedOnly preid) ∧
    ∀ t k obj₁, lsaDelAttrBykey obj t k = .ok obj₁ →
      ∃ a, a.pair = toLex (t, k) ∧ lsa.root.Perm (a :: obj₁.root) ∧
        (∀ t' s' k' d' obj₂ root, lsaAttrSetAddAttr obj₁ obj₁.root t' s' k' d' =
          .ok (some (obj₂, root)) → root.Perm (.plain t' s' k' d' :: obj₁.root)) ∧
        ∀ t' s' k' obj₂ store, lsaAddAttrSet obj₁ t' s' k' = .ok (some (obj₂, store)) →
          ∀ child, (store child).Perm (.set t' s' k' child :: obj₁.root) := by
  obtain ⟨bytes, id, root⟩ := lsa
  obtain ⟨hwf, halloc, hbytes⟩ := h
  dsimp only at hwf halloc hbytes
  subst hbytes
  refine ⟨_, lsaClone_eq hwf halloc, rfl, rfl, fun _ _ _ _ => ⟨rfl, rfl⟩, ?_⟩
  intro t k obj₁ hdel
  obtain ⟨a, hpair, ha, hdel⟩ := lsaDelAttrBykey_ok hdel
  obtain ⟨hacc, hperm, -, -⟩ := lsaDelAttr_spec ⟨hwf, halloc, rfl⟩ ha hdel
  refine ⟨a, hpair, hperm, ?_, ?_⟩
  · intro t' s' k' d' obj₂ root hadd
    obtain ⟨-, -, hi⟩ := lsaAttrSetAddAttr_some hadd
    exact Avl.insert_perm hi
  · intro t' s' k' obj₂ store hadd child
    unfold lsaAddAttrSet at hadd
    by_cases hr : obj₁.refcount = 1
    · simp only [hr, ne_eq, not_true_eq_false, if_false] at hadd
      exact store_perm hacc.wf.1 hadd child
    · simp [hr] at hadd

/-- Signed and unsigned, keyed and unkeyed attributes, and a set that is empty. -/
theorem clone_faithful_mixed : ∃ obj, lsaClone
    { bytes := 175, id := zeroId,
      root := [.plain 1 true [] [], .set 2 true [7] [.plain 1 false [] [0, 1]],
        .set 3 false [] []] } = .ok obj ∧
    obj.refcount = 1 ∧ lsaDelAttrBykey obj 3 [] = .ok
      { bytes := 145, id := zeroId, refcount := 1,
        root := [.plain 1 true [] [], .set 2 true [7] [.plain 1 false [] [0, 1]]] } := by
  have h : Accounted
      { bytes := 175, id := zeroId,
        root := [.plain 1 true [] [], .set 2 true [7] [.plain 1 false [] [0, 1]],
          .set 3 false [] []] } := by
    refine ⟨⟨?_, ?_⟩, ?_, rfl⟩
    · simp [Avl.Sorted, Attr.pair, Attr.type, Attr.key, Prod.Lex.toLex_lt_toLex]
    · simp [AttrsEverywhere, Attr.Everywhere, Attr.children, Avl.Sorted]
    · exact ⟨⟨rfl, rfl⟩, ⟨⟨rfl, rfl⟩, ⟨rfl, rfl⟩, trivial⟩, ⟨⟨rfl, rfl⟩, trivial⟩, trivial⟩
  obtain ⟨obj, hobj, hr, -, -, -⟩ := clone_faithful h
  refine ⟨obj, hobj, hr, ?_⟩
  obtain rfl := Except.ok.inj hobj
  rfl

end Dvpn

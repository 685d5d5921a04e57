import Dvpn.Lsa.Deserialise

/-!
# The release of an LSA (`attr_tree_free`, `lsa_put` and `lsa_del_attr` in `lsa.c`)

`attr_tree_free` descends over two kinds of trees: the tree of an attribute set, from a node to its
left and right subtrees, and the tree of the set that an attribute holds. `AttrNode` is such a tree
node by node; `AttrNode.attrs` is what it holds in order. A subtree that is NULL is not visited,
but the root of a nested set is visited without a test, and is NULL when the set is empty.

* `node_frees`: the release from a root reaches no NULL iff no nested set is empty, and it then
  visits every attribute below the root once.
* `lsa_free_iff`: what this means for `lsa_put` and `lsa_del_attr`.
-/

namespace Dvpn

/-! ## The code -/

/-- A node of the tree of an attribute set, with its two subtrees and, where the attribute holds a
set, the root of the tree of that set. -/
inductive AttrNode where
  | null
  | plain (left right : AttrNode) (type : Int) (attrSigned : Bool) (key data : Bytes)
  | set (left right : AttrNode) (type : Int) (attrSigned : Bool) (key : Bytes) (root : AttrNode)
  deriving DecidableEq

namespace AttrNode

def isNull : AttrNode → Bool
  | null => true
  | plain .. => false
  | set .. => false

/-- The attributes of the tree, in order. -/
def attrs : AttrNode → AttrSet
  | null => []
  | plain left right t s k d => left.attrs ++ .plain t s k d :: right.attrs
  | set left right t s k root => left.attrs ++ .set t s k root.attrs :: right.attrs

/-- The nodes of the tree: an attribute with the root of the tree that it holds. -/
def nodes : AttrNode → List (Attr × AttrNode)
  | null => []
  | plain left right t s k d => left.nodes ++ (.plain t s k d, null) :: right.nodes
  | set left right t s k root => left.nodes ++ (.set t s k root.attrs, root) :: right.nodes

end AttrNode

/-- `attr_tree_free` (`lsa.c:90-110`) from a node: `lsa->bytes`, and the attributes that are
visited. -/
def attrNodeFree : AttrNode → Nat → Except Crash (Nat × List Attr)
  | .null, _ => throw .attrTreeFreeNull
  | .plain left right t s k d, bytes => do
    let bytes := bytes - (← lsaAttrSize (.plain t s k d))
    let (bytes, inLeft) ← if left.isNull then pure (bytes, []) else attrNodeFree left bytes
    let (bytes, inRight) ← if right.isNull then pure (bytes, []) else attrNodeFree right bytes
    return (bytes, .plain t s k d :: (inLeft ++ inRight))
  | .set left right t s k root, bytes => do
    let bytes := bytes - (← lsaAttrSize (.set t s k root.attrs))
    let (bytes, inLeft) ← if left.isNull then pure (bytes, []) else attrNodeFree left bytes
    let (bytes, inRight) ← if right.isNull then pure (bytes, []) else attrNodeFree right bytes
    -- no test for an empty set
    let (bytes, inSet) ← attrNodeFree root bytes
    return (bytes, .set t s k root.attrs :: (inLeft ++ inRight ++ inSet))

/-- The release in `lsa_put` of the last reference (`lsa.c:114-117`): the attributes that are
visited. -/
def lsaPutNode (root : AttrNode) (bytes : Nat) : Except Crash (List Attr) :=
  if root.isNull then return []
  else do
    let (_, visited) ← attrNodeFree root bytes
    return visited

/-- The release in `lsa_del_attr` (`lsa.c:387-398`) of an attribute with the root of the tree that
it holds, in an LSA with one reference: the attributes that are visited. -/
def lsaDelAttrNode (attr : Attr) (root : AttrNode) (bytes : Nat) : Except Crash (List Attr) := do
  let bytes := bytes - (← lsaAttrSize attr)
  if attr.dataIsAttrSet then
    if root.isNull then return [attr]
    else
      let (_, visited) ← attrNodeFree root bytes
      return attr :: visited
  else return [attr]

/-! ## What is visited -/

mutual

/-- The attribute and everything below it. -/
def Attr.all : Attr → List Attr
  | .plain t s k d => [.plain t s k d]
  | .set t s k l => .set t s k l :: attrsAll l

/-- The attributes of the tree, at every level. -/
def attrsAll : AttrSet → List Attr
  | [] => []
  | a :: l => a.all ++ attrsAll l

end

/-- `lsa_attr_size` does not abort; the mutators evaluate it on every attribute that they add. -/
def Attr.Sized (a : Attr) : Prop := ∃ n, lsaAttrSize a = .ok n

variable {l l' : AttrSet} {node : AttrNode} {bytes : Nat}

theorem attrsAll_append : attrsAll (l ++ l') = attrsAll l ++ attrsAll l' := by
  induction l with
  | nil => rfl
  | cons a l ih => simp [attrsAll, ih]

theorem isNull_iff : node.isNull = true ↔ node.attrs = [] := by
  cases node <;> simp [AttrNode.isNull, AttrNode.attrs]

variable (node) in
theorem map_fst_nodes : node.nodes.map Prod.fst = node.attrs := by
  induction node with
  | null => rfl
  | plain left right t s k d ihl ihr => simp [AttrNode.nodes, AttrNode.attrs, ihl, ihr]
  | set left right t s k root ihl ihr _ => simp [AttrNode.nodes, AttrNode.attrs, ihl, ihr]

/-- The release of a subtree, which is not visited when it is NULL. -/
def subtreeFree (node : AttrNode) (bytes : Nat) : Except Crash (Nat × List Attr) :=
  if node.isNull then pure (bytes, []) else attrNodeFree node bytes

/-- What the release of a tree comes to, whatever `lsa->bytes` is. -/
structure Frees (node : AttrNode) (run : Nat → Except Crash (Nat × List Attr)) : Prop where
  isOk : ∀ bytes, (∃ r, run bytes = .ok r) ↔ NoEmptySet node.attrs
  perm : ∀ bytes r, run bytes = .ok r → r.2.Perm (attrsAll node.attrs)

theorem subtree_frees (h : node.isNull = false → Frees node (attrNodeFree node)) :
    Frees node (subtreeFree node) := by
  cases hn : node.isNull with
  | true =>
    have hnil := isNull_iff.mp hn
    refine ⟨fun bytes => ⟨fun _ => hnil ▸ trivial, fun _ => ⟨(bytes, []), ?_⟩⟩, ?_⟩
    · rw [subtreeFree, hn]
      rfl
    · intro bytes r hr
      rw [subtreeFree, hn] at hr
      obtain rfl := Except.ok.inj hr
      rw [hnil]
      exact List.Perm.refl _
  | false =>
    have heq : subtreeFree node = attrNodeFree node := by
      funext bytes
      rw [subtreeFree, hn]
      rfl
    rw [heq]
    exact h hn

/-- A plain attribute: the two subtrees are released. -/
theorem plain_frees {left right : AttrNode} {t : Int} {s : Bool} {k d : Bytes}
    (hsize : (Attr.plain t s k d).Sized) (hl : Frees left (subtreeFree left))
    (hr : Frees right (subtreeFree right)) :
    Frees (.plain left right t s k d) (attrNodeFree (.plain left right t s k d)) := by
  obtain ⟨n, hn⟩ := hsize
  have hrun : ∀ bytes, attrNodeFree (.plain left right t s k d) bytes = (do
      let (bytes, inLeft) ← subtreeFree left (bytes - n)
      let (bytes, inRight) ← subtreeFree right bytes
      return (bytes, .plain t s k d :: (inLeft ++ inRight))) := by
    intro bytes
    rw [attrNodeFree, hn]
    unfold subtreeFree
    cases left.isNull <;> cases right.isNull <;> rfl
  have hempty : NoEmptySet (AttrNode.plain left right t s k d).attrs ↔
      NoEmptySet left.attrs ∧ NoEmptySet right.attrs := by
    rw [AttrNode.attrs, NoEmptySet, attrsEverywhere_append]
    simp [AttrsEverywhere, Attr.Everywhere, Attr.Nonempty, Attr.dataIsAttrSet, NoEmptySet]
  refine ⟨fun bytes => ?_, fun bytes r h => ?_⟩
  · rw [hempty, hrun, ← hl.isOk (bytes - n)]
    constructor
    · rintro ⟨r, h⟩
      obtain ⟨rl, hrl, h⟩ := bind_eq_ok.mp h
      obtain ⟨rr, hrr, _⟩ := bind_eq_ok.mp h
      exact ⟨⟨rl, hrl⟩, (hr.isOk _).mp ⟨rr, hrr⟩⟩
    · rintro ⟨⟨rl, hrl⟩, h⟩
      obtain ⟨rr, hrr⟩ := (hr.isOk rl.1).mpr h
      exact ⟨(rr.1, .plain t s k d :: (rl.2 ++ rr.2)), by simp [hrl, hrr]⟩
  · rw [hrun] at h
    obtain ⟨rl, hrl, h⟩ := bind_eq_ok.mp h
    obtain ⟨rr, hrr, h⟩ := bind_eq_ok.mp h
    obtain rfl := Except.ok.inj h
    rw [AttrNode.attrs, attrsAll_append]
    have hperm := (hl.perm _ _ hrl).append (hr.perm _ _ hrr)
    exact (hperm.cons _).trans List.perm_middle.symm

/-- An attribute with a set: the two subtrees and the set are released. -/
theorem set_frees {left right root : AttrNode} {t : Int} {s : Bool} {k : Bytes}
    (hsize : (Attr.set t s k root.attrs).Sized) (hl : Frees left (subtreeFree left))
    (hr : Frees right (subtreeFree right))
    (hin : root.isNull = false → Frees root (attrNodeFree root)) :
    Frees (.set left right t s k root) (attrNodeFree (.set left right t s k root)) := by
  obtain ⟨n, hn⟩ := hsize
  have hrun : ∀ bytes, attrNodeFree (.set left right t s k root) bytes = (do
      let (bytes, inLeft) ← subtreeFree left (bytes - n)
      let (bytes, inRight) ← subtreeFree right bytes
      let (bytes, inSet) ← attrNodeFree root bytes
      return (bytes, .set t s k root.attrs :: (inLeft ++ inRight ++ inSet))) := by
    intro bytes
    rw [attrNodeFree, hn]
    unfold subtreeFree
    cases left.isNull <;> cases right.isNull <;> rfl
  -- the root of the set is visited without a test
  have hset : ∀ bytes, (∃ r, attrNodeFree root bytes = .ok r) ↔
      root.attrs ≠ [] ∧ NoEmptySet root.attrs := by
    intro bytes
    cases hn : root.isNull with
    | true =>
      have hnull : root = .null := by
        cases root with
        | null => rfl
        | plain | set => exact absurd hn (by simp [AttrNode.isNull])
      subst hnull
      simp [attrNodeFree, AttrNode.attrs]
    | false =>
      rw [(hin hn).isOk bytes, ne_eq, ← isNull_iff, hn]
      simp
  have hempty : NoEmptySet (AttrNode.set left right t s k root).attrs ↔
      NoEmptySet left.attrs ∧ (root.attrs ≠ [] ∧ NoEmptySet root.attrs) ∧
        NoEmptySet right.attrs := by
    rw [AttrNode.attrs, NoEmptySet, attrsEverywhere_append]
    simp [AttrsEverywhere, Attr.Everywhere, Attr.Nonempty, Attr.dataIsAttrSet, Attr.children,
      NoEmptySet]
  refine ⟨fun bytes => ?_, fun bytes r h => ?_⟩
  · rw [hempty, hrun, ← hl.isOk (bytes - n)]
    constructor
    · rintro ⟨r, h⟩
      obtain ⟨rl, hrl, h⟩ := bind_eq_ok.mp h
      obtain ⟨rr, hrr, h⟩ := bind_eq_ok.mp h
      obtain ⟨ri, hri, _⟩ := bind_eq_ok.mp h
      exact ⟨⟨rl, hrl⟩, (hset _).mp ⟨ri, hri⟩, (hr.isOk _).mp ⟨rr, hrr⟩⟩
    · rintro ⟨⟨rl, hrl⟩, hi, h⟩
      obtain ⟨rr, hrr⟩ := (hr.isOk rl.1).mpr h
      obtain ⟨ri, hri⟩ := (hset rr.1).mpr hi
      exact ⟨(ri.1, .set t s k root.attrs :: (rl.2 ++ rr.2 ++ ri.2)), by simp [hrl, hrr, hri]⟩
  · rw [hrun] at h
    obtain ⟨rl, hrl, h⟩ := bind_eq_ok.mp h
    obtain ⟨rr, hrr, h⟩ := bind_eq_ok.mp h
    obtain ⟨ri, hri, h⟩ := bind_eq_ok.mp h
    obtain rfl := Except.ok.inj h
    have hnull : root.isNull = false := by
      cases hn : root.isNull with
      | false => rfl
      | true => exact absurd (isNull_iff.mp hn) ((hset _).mp ⟨ri, hri⟩).1
    rw [AttrNode.attrs, attrsAll_append]
    have hperm := ((hl.perm _ _ hrl).append (hr.perm _ _ hrr)).append ((hin hnull).perm _ _ hri)
    refine (hperm.cons _).trans (List.Perm.trans ?_ List.perm_middle.symm)
    refine List.Perm.cons _ ?_
    rw [List.append_assoc]
    exact List.Perm.append_left _ List.perm_append_comm

/-- **The release of a tree** reaches no NULL iff no nested set is empty, and then visits every
attribute once. -/
theorem node_frees (hs : AttrsEverywhere Attr.Sized node.attrs) (hn : node.isNull = false) :
    Frees node (attrNodeFree node) := by
  induction node with
  | null => exact absurd hn (by simp [AttrNode.isNull])
  | plain left right t s k d ihl ihr =>
    rw [AttrNode.attrs, attrsEverywhere_append] at hs
    obtain ⟨hl, ha, hr⟩ := hs
    exact plain_frees ha (subtree_frees (ihl hl)) (subtree_frees (ihr hr))
  | set left right t s k root ihl ihr ihs =>
    rw [AttrNode.attrs, attrsEverywhere_append] at hs
    obtain ⟨hl, ⟨ha, hi⟩, hr⟩ := hs
    exact set_frees ha (subtree_frees (ihl hl)) (subtree_frees (ihr hr)) (ihs hi)

/-- The children of an attribute are what the tree that it holds has in order. -/
theorem nodes_children {a : Attr} {root : AttrNode} (h : (a, root) ∈ node.nodes) :
    a.children = root.attrs ∧ (a.dataIsAttrSet = false → root = .null) := by
  induction node with
  | null => exact absurd h List.not_mem_nil
  | plain left right t s k d ihl ihr =>
    rcases List.mem_append.mp h with h | h
    · exact ihl h
    · rcases List.mem_cons.mp h with h | h
      · obtain ⟨rfl, rfl⟩ := Prod.mk.inj h
        exact ⟨rfl, fun _ => rfl⟩
      · exact ihr h
  | set left right t s k x ihl ihr _ =>
    rcases List.mem_append.mp h with h | h
    · exact ihl h
    · rcases List.mem_cons.mp h with h | h
      · obtain ⟨rfl, rfl⟩ := Prod.mk.inj h
        exact ⟨rfl, fun hf => absurd hf (by simp [Attr.dataIsAttrSet])⟩
      · exact ihr h

theorem Attr.all_eq (a : Attr) : a.all = a :: attrsAll a.children := by
  cases a <;> simp [Attr.all, Attr.children, attrsAll]

/-- `lsa_put` releases every attribute once iff no nested set is empty. -/
theorem lsaPutNode_iff (hs : AttrsEverywhere Attr.Sized node.attrs) (bytes : Nat) :
    (∃ visited, lsaPutNode node bytes = .ok visited ∧ visited.Perm (attrsAll node.attrs)) ↔
      NoEmptySet node.attrs := by
  have hfrees := subtree_frees (node_frees hs)
  have hrun : lsaPutNode node bytes = (do
      let (_, visited) ← subtreeFree node bytes
      return visited) := by
    unfold lsaPutNode subtreeFree
    split_ifs <;> rfl
  rw [← hfrees.isOk bytes, hrun]
  constructor
  · rintro ⟨visited, h, _⟩
    obtain ⟨r, hr, _⟩ := bind_eq_ok.mp h
    exact ⟨r, hr⟩
  · rintro ⟨r, hr⟩
    exact ⟨r.2, by rw [hr]; rfl, hfrees.perm _ _ hr⟩

/-- `lsa_del_attr` releases an attribute and everything below it once iff no set inside the one
that it holds is empty. -/
theorem lsaDelAttrNode_iff (hs : AttrsEverywhere Attr.Sized node.attrs) (bytes : Nat) {a : Attr}
    {root : AttrNode} (h : (a, root) ∈ node.nodes) :
    (∃ visited, lsaDelAttrNode a root bytes = .ok visited ∧ visited.Perm a.all) ↔
      NoEmptySet a.children := by
  obtain ⟨hchildren, hnull⟩ := nodes_children h
  have ha : a ∈ node.attrs := map_fst_nodes node ▸ List.mem_map_of_mem h
  obtain ⟨⟨n, hn⟩, hbelow⟩ := everywhere_iff.mp (attrsEverywhere_iff.mp hs a ha)
  rw [hchildren] at hbelow
  have hfrees := subtree_frees (node_frees hbelow)
  have hrun : lsaDelAttrNode a root bytes = (do
      let (_, visited) ← subtreeFree root (bytes - n)
      return a :: visited) := by
    unfold lsaDelAttrNode subtreeFree
    rw [hn, ok_bind]
    cases hset : a.dataIsAttrSet with
    | true =>
      cases root.isNull with
      | true => rfl
      | false =>
        simp only [Bool.false_eq_true, if_true, if_false]
    | false =>
      rw [hnull hset]
      rfl
  rw [Attr.all_eq, hchildren, ← hfrees.isOk (bytes - n), hrun]
  constructor
  · rintro ⟨visited, h, _⟩
    obtain ⟨r, hr, _⟩ := bind_eq_ok.mp h
    exact ⟨r, hr⟩
  · rintro ⟨r, hr⟩
    exact ⟨a :: r.2, by rw [hr]; rfl, (hfrees.perm _ _ hr).cons a⟩

/-- **The release of an LSA**: `lsa_put` visits every attribute once, and no NULL, iff no nested
set is empty; `lsa_del_attr` of a root attribute, iff no set inside that attribute's set is. -/
theorem lsa_free_iff (hs : AttrsEverywhere Attr.Sized node.attrs) (bytes : Nat) :
    ((∃ visited, lsaPutNode node bytes = .ok visited ∧ visited.Perm (attrsAll node.attrs)) ↔
        NoEmptySet node.attrs) ∧
      ∀ a root, (a, root) ∈ node.nodes →
        ((∃ visited, lsaDelAttrNode a root bytes = .ok visited ∧ visited.Perm a.all) ↔
          NoEmptySet a.children) :=
  ⟨lsaPutNode_iff hs bytes, fun _ _ h => lsaDelAttrNode_iff hs bytes h⟩

/-- A node with the attributes of a PEER set, and a plain attribute to its right. -/
def peerNode : AttrNode :=
  .set .null (.plain .null .null 4 true [] [0]) 2 true [7]
    (.plain .null (.plain .null .null 2 true [] [0]) 1 true [] [0, 1])

theorem lsa_free_peerNode :
    ∃ visited, lsaPutNode peerNode 0 = .ok visited ∧ visited.Perm (attrsAll peerNode.attrs) := by
  have hsized : AttrsEverywhere Attr.Sized peerNode.attrs :=
    ⟨⟨⟨_, rfl⟩, ⟨_, rfl⟩, ⟨_, rfl⟩, trivial⟩, ⟨_, rfl⟩, trivial⟩
  have hempty : NoEmptySet peerNode.attrs := by
    unfold NoEmptySet
    decide
  exact (lsa_free_iff hsized 0).1.mpr hempty

/-- **A received LSA with an empty set cannot be released.** -/
theorem lsa_free_empty_set : ∃ lsa root, lsaDeserialise (messageOf [2, 2, 0]) = .ok (36, some lsa) ∧
    lsa.root = AttrNode.attrs root ∧ lsaPut lsa = .error .attrTreeFreeNull ∧
    lsaPutNode root lsa.bytes = .error .attrTreeFreeNull := by
  have hrun : lsaDeserialise (messageOf [2, 2, 0]) =
      .ok (36, some (builtLsa ⟨List.replicate 32 0, rfl⟩ [.set 2 false [] []])) := rfl
  exact ⟨_, .set .null .null 2 false [] .null, hrun, rfl, rfl, rfl⟩

end Dvpn

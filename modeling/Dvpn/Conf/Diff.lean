import Dvpn.Conf.Config

/-!
# Differences of configurations (`confdiff.c`)

`diff_configs` takes one configuration to another and calls back for every entry and every socket
that comes or goes. The state that the callbacks work on is `σ`; a callback that starts something
also returns whether it failed.

* `avl_diff` reads the next element of each tree before it calls back, and a callback inserts only
  below the elements that are still to be read, so the differences are those of the two trees at
  the start (`Avl.walk_spec`).
* The roll-back of `cle_mod` deletes the old entry from the tree that it was deleted from before,
  which is a fault.

* `foldlM_state`: what the differences do to `σ`, whatever they do to the two
  configurations.
-/

namespace Dvpn

variable {σ : Type}

/-! ## The code -/

/-- `struct confdiff_request` without the two configurations. -/
structure ConfdiffRequest (σ : Type) where
  newConnectEntry : ConfConnectEntry → σ → Except Crash (σ × Bool)
  removedConnectEntry : ConfConnectEntry → σ → Except Crash σ
  newListeningSocket : ConfListeningSocket → σ → Except Crash (σ × Bool)
  removedListeningSocket : ConfListeningSocket → σ → Except Crash σ
  newListenEntry : ConfListeningSocket → ConfListenEntry → σ → Except Crash (σ × Bool)
  removedListenEntry : ConfListeningSocket → ConfListenEntry → σ → Except Crash σ

/-- Two trees of which one is taken to the other, and the state of the callbacks. -/
structure DiffState (τ σ : Type) where
  conf : τ
  newconf : τ
  state : σ

/-- The comparison of `cce_mod` (`confdiff.c:51-57`). -/
def sameConnectEntry (a b : ConfConnectEntry) : Bool :=
  a.hostname = b.hostname ∧ a.port = b.port ∧ a.fpType = b.fpType ∧
    (a.fpType ≠ .matching ∨ a.fingerprint = b.fingerprint) ∧ a.peerType = b.peerType ∧
    a.tunitf = b.tunitf ∧ a.cost = b.cost

/-- `cce_add`, `cce_mod` and `cce_del` (`confdiff.c:27-87`). -/
def cceDiff (req : ConfdiffRequest σ) (st : DiffState (List ConfConnectEntry) σ) :
    Avl.Diff ConfConnectEntry → Except Crash (DiffState (List ConfConnectEntry) σ)
  | .add a => do
    let newconf := Avl.delete compareConnectEntries a st.newconf
    let (state, failed) ← req.newConnectEntry a st.state
    if failed then return ⟨st.conf, treeInsert compareConnectEntries a newconf, state⟩
    else return ⟨treeInsert compareConnectEntries a st.conf, newconf, state⟩
  | .mod a b => do
    if sameConnectEntry a b then return st
    let conf := Avl.delete compareConnectEntries a st.conf
    let state ← req.removedConnectEntry a st.state
    let newconf := Avl.delete compareConnectEntries b st.newconf
    let (state, failed) ← req.newConnectEntry b state
    if failed then
      let (state, failed) ← req.newConnectEntry a state
      if failed then throw .cceMod
      return ⟨treeInsert compareConnectEntries a conf,
        treeInsert compareConnectEntries b newconf, state⟩
    else
      return ⟨treeInsert compareConnectEntries b conf,
        treeInsert compareConnectEntries a newconf, state⟩
  | .del a => do
    let conf := Avl.delete compareConnectEntries a st.conf
    let state ← req.removedConnectEntry a st.state
    return ⟨conf, treeInsert compareConnectEntries a st.newconf, state⟩

/-- The comparison of `cle_mod` (`confdiff.c:134-138`). -/
def sameListenEntry (a b : ConfListenEntry) : Bool :=
  a.fpType = b.fpType ∧ (a.fpType ≠ .matching ∨ a.fingerprint = b.fingerprint) ∧
    a.peerType = b.peerType ∧ a.tunitf = b.tunitf ∧ a.cost = b.cost ∧ a.connLimit = b.connLimit

/-- A socket with other listen entries. -/
def ConfListeningSocket.withEntries (cls : ConfListeningSocket) (l : List ConfListenEntry) :
    ConfListeningSocket := { cls with listenEntries := l }

/-- `cle_add`, `cle_mod` and `cle_del` (`confdiff.c:110-169`) for the old socket `st.conf` and the
new socket `st.newconf`. -/
def cleDiff (req : ConfdiffRequest σ) (st : DiffState ConfListeningSocket σ) :
    Avl.Diff ConfListenEntry → Except Crash (DiffState ConfListeningSocket σ)
  | .add a => do
    let newcls :=
      st.newconf.withEntries (Avl.delete compareListenEntries a st.newconf.listenEntries)
    let cls := st.conf.withEntries (treeInsert compareListenEntries a st.conf.listenEntries)
    let (state, failed) ← req.newListenEntry cls a st.state
    if failed then
      return ⟨cls.withEntries (Avl.delete compareListenEntries a cls.listenEntries),
        newcls.withEntries (treeInsert compareListenEntries a newcls.listenEntries), state⟩
    else return ⟨cls, newcls, state⟩
  | .mod a b => do
    if sameListenEntry a b then return st
    let cls := st.conf.withEntries (Avl.delete compareListenEntries a st.conf.listenEntries)
    let state ← req.removedListenEntry cls a st.state
    let newcls :=
      st.newconf.withEntries (Avl.delete compareListenEntries b st.newconf.listenEntries)
    let cls := cls.withEntries (treeInsert compareListenEntries b cls.listenEntries)
    let (state, failed) ← req.newListenEntry cls b state
    -- the old entry is not in the tree any more
    if failed then throw .ivAvlTreeDelete
    else
      return ⟨cls, newcls.withEntries (treeInsert compareListenEntries a newcls.listenEntries),
        state⟩
  | .del a => do
    let cls := st.conf.withEntries (Avl.delete compareListenEntries a st.conf.listenEntries)
    let state ← req.removedListenEntry cls a st.state
    return ⟨cls, st.newconf.withEntries
      (treeInsert compareListenEntries a st.newconf.listenEntries), state⟩

/-- `cls_mod` (`confdiff.c:171-187`): the two sockets and the state afterwards. -/
def clsMod (req : ConfdiffRequest σ) (a b : ConfListeningSocket) (state : σ) :
    Except Crash (DiffState ConfListeningSocket σ) :=
  (Avl.diff compareListenEntries a.listenEntries b.listenEntries).foldlM (cleDiff req)
    ⟨a, b, state⟩

/-- `cls_add`, `cls_mod` and `cls_del` (`confdiff.c:89-101`, `confdiff.c:171-199`). -/
def clsDiff (req : ConfdiffRequest σ) (st : DiffState (List ConfListeningSocket) σ) :
    Avl.Diff ConfListeningSocket → Except Crash (DiffState (List ConfListeningSocket) σ)
  | .add a => do
    let newconf := Avl.delete compareListeningSockets a st.newconf
    let (state, failed) ← req.newListeningSocket a st.state
    if failed then return ⟨st.conf, treeInsert compareListeningSockets a newconf, state⟩
    else return ⟨treeInsert compareListeningSockets a st.conf, newconf, state⟩
  | .mod a b => do
    let r ← clsMod req a b st.state
    return ⟨putListeningSocket r.conf st.conf, putListeningSocket r.newconf st.newconf, r.state⟩
  | .del a => do
    let conf := Avl.delete compareListeningSockets a st.conf
    let state ← req.removedListeningSocket a st.state
    return ⟨conf, treeInsert compareListeningSockets a st.newconf, state⟩

/-- `diff_configs` (`confdiff.c:201-210`). -/
def diffConfigs (req : ConfdiffRequest σ) (conf newconf : Conf) (state : σ) :
    Except Crash (DiffState Conf σ) := do
  let r ← (Avl.diff compareConnectEntries conf.connectEntries newconf.connectEntries).foldlM
    (cceDiff req) ⟨conf.connectEntries, newconf.connectEntries, state⟩
  let s ← (Avl.diff compareListeningSockets conf.listeningSockets newconf.listeningSockets).foldlM
    (clsDiff req) ⟨conf.listeningSockets, newconf.listeningSockets, r.state⟩
  return ⟨⟨r.conf, s.conf⟩, ⟨r.newconf, s.newconf⟩, s.state⟩

/-! ## What happens to the state of the callbacks -/

/-- **The state alone.** Differences that treat the state as `g` does leave it as `g` would. -/
theorem foldlM_state {τ ο : Type} {f : DiffState τ σ → ο → Except Crash (DiffState τ σ)}
    {g : σ → ο → Except Crash σ} (inv : DiffState τ σ → Prop)
    (hf : ∀ st o, inv st → (f st o).map DiffState.state = g st.state o)
    (hinv : ∀ st o st', inv st → f st o = .ok st' → inv st') (ops : List ο) (st : DiffState τ σ)
    (h0 : inv st) : (ops.foldlM f st).map DiffState.state = ops.foldlM g st.state := by
  induction ops generalizing st with
  | nil => rfl
  | cons o ops ih =>
    have ho := hf st o h0
    rw [List.foldlM_cons, List.foldlM_cons, ← ho]
    cases hst : f st o with
    | error e => rfl
    | ok st' => exact ih st' (hinv st o st' h0 hst)

end Dvpn

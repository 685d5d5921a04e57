import Dvpn.Rib.AdjRibInSpec
import Dvpn.Run

/-!
# Runs of the RIB of a peer (`adj_rib_in.c`)

The LSAs that reach an `adj_rib_in` were made by `lsa_deserialise` from at most 65536 bytes
(`AdjContract`); whether `map` accepts them is left open. `adjStep_inv` inverts one step, and the
invariant and the listeners' view follow from it for every run.

* `adjStep_isOk`: no step aborts.
* `adj_listeners_follow`: a listener from the start can replay what it is told and then holds the
  accepted LSA of every id; `size` is what these LSAs take, and within the quota.
-/

namespace Dvpn

open ChangeLog

variable {c : Crypto} {rib rib' : AdjRibIn} {op : AdjOp} {ops : List AdjOp}
  {es es' : List RibEvent} {myid remoteid : Option NodeId} {lsa : LsaPtr}

/-- What reaches the RIB of a peer; the roots of the tree come up one after the other. -/
def AdjContract (rib : AdjRibIn) : AdjOp → Prop
  | .addLsa lsa => Received lsa.lsa
  | .truncate roots => roots.Perm rib.lsas

/-- What every step of the RIB keeps. -/
structure AdjFollows (c : Crypto) (rib rib' : AdjRibIn) (es : List RibEvent) : Prop where
  myid : rib'.myid = rib.myid
  remoteid : rib'.remoteid = rib.remoteid
  inv : rib'.Inv c
  replays : Replays (rib.view c) (es.map RibEvent.change) (rib'.view c)

theorem AdjFollows.refl (hi : rib.Inv c) : AdjFollows c rib rib [] := ⟨rfl, rfl, hi, .nil⟩

theorem AdjFollows.trans {rib'' : AdjRibIn} (h : AdjFollows c rib rib' es)
    (h' : AdjFollows c rib' rib'' es') : AdjFollows c rib rib'' (es ++ es') :=
  ⟨h'.myid.trans h.myid, h'.remoteid.trans h.remoteid, h'.inv, by
    rw [List.map_append]
    exact h.replays.append h'.replays⟩

theorem AdjUpdates.follows {id : NodeId} {old new : Option LsaPtr} (hi : rib.Inv c)
    (h : AdjUpdates c rib rib' id old new es) : AdjFollows c rib rib' es :=
  ⟨h.myid, h.remoteid, h.inv, h.replays hi⟩

theorem Removals.follows (hi : rib.Inv c) (h : Removals c rib rib' es) :
    AdjFollows c rib rib' es := by
  induction h with
  | nil => exact .refl hi
  | cons hup _ ih => exact (hup.follows hi).trans (ih hup.inv)

theorem AddOutcome.follows (hi : rib.Inv c) (h : AddOutcome c rib lsa rib' es) :
    AdjFollows c rib rib' es := by
  cases h with
  | ignored | same => exact .refl hi
  | removed _ hup => exact hup.follows hi
  | stored _ _ _ hup => exact hup.follows hi

/-! ## One step -/

/-- A step within the contract, by operation. -/
theorem adjStep_inv (hi : rib.Inv c) (hc : AdjContract rib op)
    (h : adjStep c rib op = .ok (rib', es)) :
    (∃ lsa, op = .addLsa lsa ∧ AddOutcome c rib lsa rib' es) ∨
      ∃ roots, op = .truncate roots ∧ Removals c rib rib' es ∧ rib'.lsas = [] := by
  cases op with
  | addLsa lsa =>
    obtain ⟨ret, rib₁, es₁, hrun, hout⟩ := addLsa_spec hi (Received.wellformed hc)
    simp only [adjStep, hrun, ok_bind, pure_eq_ok, Except.ok.injEq, Prod.mk.injEq] at h
    obtain ⟨rfl, rfl⟩ := h
    exact Or.inl ⟨lsa, rfl, hout⟩
  | truncate roots =>
    obtain ⟨rib₁, es₁, hrun, hrem, hnil⟩ := truncate_spec hi hc
    obtain ⟨rfl, rfl⟩ := Prod.mk.inj (Except.ok.inj (hrun.symm.trans h))
    exact Or.inr ⟨roots, rfl, hrem, hnil⟩

/-- **No step aborts.** -/
theorem adjStep_isOk (hi : rib.Inv c) (hc : AdjContract rib op) :
    ∃ r, adjStep c rib op = .ok r := by
  cases op with
  | addLsa lsa =>
    obtain ⟨ret, rib₁, es₁, hrun, _⟩ := addLsa_spec hi (Received.wellformed hc)
    exact ⟨(rib₁, es₁), by simp [adjStep, hrun]⟩
  | truncate roots =>
    obtain ⟨rib₁, es₁, hrun, _⟩ := truncate_spec hi hc
    exact ⟨(rib₁, es₁), hrun⟩

theorem adjStep_follows (hi : rib.Inv c) (hc : AdjContract rib op)
    (h : adjStep c rib op = .ok (rib', es)) : AdjFollows c rib rib' es := by
  rcases adjStep_inv hi hc h with ⟨lsa, _, hout⟩ | ⟨roots, _, hrem, _⟩
  · exact hout.follows hi
  · exact hrem.follows hi

/-! ## Runs -/

/-- The runs of the RIB of a peer from the start. -/
abbrev AdjRun (c : Crypto) (contract : AdjRibIn → AdjOp → Prop) (myid remoteid : Option NodeId) :
    List AdjOp → AdjRibIn → List RibEvent → Prop :=
  Run (adjStep c) contract (adjRibInInit myid remoteid)

/-- A run follows the RIB from its start. -/
theorem AdjRun.follows (h : AdjRun c AdjContract myid remoteid ops rib es) :
    AdjFollows c (adjRibInInit myid remoteid) rib es :=
  h.invariant (fun _ rib es => AdjFollows c (adjRibInInit myid remoteid) rib es)
    (.refl (adjRibInInit_inv c myid remoteid))
    fun hf hc hs => hf.trans (adjStep_follows hf.inv hc hs)

theorem view_of_nil (h : rib.lsas = []) : rib.view c = fun _ => none := by
  funext id
  rw [AdjRibIn.view, adjRibInFindRef, h]
  rfl

/-- **The listeners' view and the accounting.** In every run a listener from the start can replay
what it is told, and then holds the accepted LSA of every id; `size` is the sum of the bytes of
these LSAs and within the quota; ids are unique; a truncation leaves nothing; and no further call
aborts. -/
theorem adj_listeners_follow (h : AdjRun c AdjContract myid remoteid ops rib es) :
    Replays (fun _ => none) (es.map RibEvent.change) (rib.view c) ∧
      (rib.size = bytesOf (rib.lsas.filter (rib.accepted c)) ∧ 0 ≤ rib.size ∧
        rib.size ≤ ADJ_RIB_IN_MAX_BYTES) ∧
      (rib.lsas.map fun p => p.lsa.id).Nodup ∧
      (∀ roots, ops.getLast? = some (.truncate roots) →
        rib.view c = (fun _ => none) ∧ rib.size = 0) ∧
      ∀ op, AdjContract rib op → ∃ r, adjStep c rib op = .ok r := by
  have hf := AdjRun.follows h
  have hi := hf.inv
  have hsize := hi.size
  refine ⟨?_, ⟨hsize, by omega, hi.quota⟩, ?_, ?_, fun op hc => adjStep_isOk hi hc⟩
  · have hrep := hf.replays
    rwa [view_of_nil rfl] at hrep
  · exact List.pairwise_map.mpr (hi.sorted.imp fun hlt => ne_of_lt hlt)
  · intro roots hlast
    obtain ⟨ops, rfl⟩ := List.getLast?_eq_some_iff.mp hlast
    obtain ⟨rib₀, es₀, es₁, hr₀, hc₀, hs₀, _⟩ := h.snoc_inv
    rcases adjStep_inv (AdjRun.follows hr₀).inv hc₀ hs₀ with ⟨lsa, hop, _⟩ | ⟨_, _, _, hnil⟩
    · exact absurd hop (by simp)
    · refine ⟨view_of_nil hnil, ?_⟩
      rw [hsize, AdjRibIn.acceptedBytes, hnil]
      rfl

/-! ## A small network

Three nodes: M, whose daemon this is, its neighbour P, and X. Each has an RSA key of 2048 bits; an
id is the SHA-256 of the DER public key. The LSAs of P and X are signed with their keys. -/

/-- The 32 bytes of a 256-bit word. -/
def wordBytes (word : Nat) : Bytes :=
  (List.range 32).map fun i => UInt8.ofNat (word / 256 ^ (31 - i))

/-- The first `n` bytes of a list of words. -/
def wordsBytes (n : Nat) (words : List Nat) : Bytes := (words.flatMap wordBytes).take n

/-- The node id of a word. -/
def wordId (word : Nat) : NodeId := ⟨wordBytes word, by simp [wordBytes, NODE_ID_LEN]⟩

def idM : NodeId := wordId 0xf208cf0b996961a820217318da20035ddf2f29db7ea63d2a838fe3659ca5bffe

def idP : NodeId := wordId 0x77dea474187dfb824d6190e9c2c9247833a8c03ade647ad4a8199f9413735126

def idX : NodeId := wordId 0x64f8f1c1bca3c1966af61bd1ee44271ce5a57ab53d98ac0fdbd7ff3b5a026dfe

def pubkeyP : Bytes :=
  wordsBytes 294 [
    0x30820122300d06092a864886f70d01010105000382010f003082010a02820101,
    0x00bd31c234d2a42c197d0ccc1d66c5c40e023c8081192de6f21cfc4276ccc06e,
    0x389e3b1e93d00ad0bb1f20214aec55a0eef56b1803eb7a6bbc96576ccdc770f1,
    0xbd00d412cebec87b7f20a227b7597a919d2ff6f367546a923a7e4a25507edcbd,
    0x749c2d2c29b7c02fc0ca0dbb052c9e5440e7266afe70abcceeab700f2d3c080c,
    0x4c22335d939a918a0432436728d53a10350946208ccd532d1c1bbff53a5d2818,
    0xb4487c12e1a8ca7bf0791f05e69e72caf10445ce3ab8e0bf3f901e21f078dffc,
    0x3c6fe354a6f0ec32907ee26c27f0cb5359d7af04a16a12c6e1301b7550000f85,
    0x7e943b2bc2a6e3eff3df9453e7bc1f91dfe7c15391fee1a5b740d9bbece477e4,
    0xa902030100010000000000000000000000000000000000000000000000000000]

def pubkeyX : Bytes :=
  wordsBytes 294 [
    0x30820122300d06092a864886f70d01010105000382010f003082010a02820101,
    0x00ae3e1fe4d82b9867da10f2a3a7017286b1f5bbe3ade6f375dc37cee67b9d45,
    0xa312b92f9c76819a5ec4571b2d69a93079600fc98cfbf5cb8f5594fde627f753,
    0xc4cb7d182510d1ab6bb396c8c0d210a37868b2132b2c85509098b578625c7d4c,
    0x86a0cee95f1cae59f591b99f885990062929f643a4bf0098d8ac1c1fea332ae7,
    0x9b9f8a2293b41985df1b54b30fe3a15421ec97d9579659e7beedc33e157f1dda,
    0xe09f8b085a352442847551ea4a31bc31de346aa2c6ceb4024334094bb1231654,
    0x4f0fe0ac9bda3faf6c6ecf0bfe1e926a8e4b92f28505141188531c425fa16209,
    0xa3625cfb7ee9d346f5aa37d2899ec7160293d6564ce5580a090ce03c2a841641,
    0x6b02030100010000000000000000000000000000000000000000000000000000]

/-- What P signs: that it has M as a peer. -/
def signedP : AttrSet :=
  [.set LSA_ATTR_TYPE_PEER true idM.1 [.plain LSA_PEER_ATTR_TYPE_METRIC true [] [0, 1]],
    .plain LSA_ATTR_TYPE_PUBKEY true [] pubkeyP]

/-- What X signs. -/
def signedX : AttrSet := [.plain LSA_ATTR_TYPE_PUBKEY true [] pubkeyX]

/-- The signature of `lsaWire idP signedP`. -/
def signatureP : Bytes :=
  wordsBytes 256 [
    0x758c7fa4f6ef27d45529b11c447d6f466aada3437ac556f87767f5e8a3919e2f,
    0xe46a8ca54424a2ccdd37d829d12d1f43bcc29495bb47bf5732d6eb8dbd90444a,
    0x29218b261583b04f6ddd568d8974a8118f65c87453f41349f4794d3b0e42ed2b,
    0xea1109bdf214ebc9aad3e3e2912d83c6724cc9c06285df51291b61ec5b22aa0f,
    0x16e3d539e53af93eab983238f57ba4396b2dafc6d0a995c92ebba92b7c587b07,
    0x489d330b7752371f39f5068f66682e12fdfc66cb7f31f198d65056ed94307350,
    0x4060c032d374413e6e26c79a505276cbdf0c8ab915ea6ba000ddbeeb90b836dc,
    0x0a73f243369706e48a6b454fa0263bafacdfc1ecc1d82b65be8f98138917d12b]

/-- The signature of `lsaWire idX signedX`. -/
def signatureX : Bytes :=
  wordsBytes 256 [
    0x25a0d4e394ec187f127efaa21b2c87880164a2b441ade375804f149c59292c42,
    0x0c97ff72aac08cff00c5d0cbe37527e417b2f500407d569564f359efd3462145,
    0xbb4786d4963e4792050980a791fc547060e44127963d67de0900c984ed2811ef,
    0x27077601ae54cc2f91c117e34fc5ce5b93d1731060004eef02a027559f8a62e7,
    0x4d100ab5b60fd403a0556da194e4e12fac51900753db3fe223e18b2e5e10a45a,
    0x10d62d3eb6490e058d42418a9732f7e56f58b2fd8aaa6445cb6f2e00be066eec,
    0x989fd89a61de8aa3a90d493fc2d118271f68431c96590bb90a75c06ffd2da372,
    0xd808630548026c01040e27c05c9509e3a32996dd3c8187fe3d529fdd6b4efa08]

/-- SHA-256 and RSA on the keys, the messages and the signatures of P and X. -/
def sampleCrypto : Crypto where
  sha256 data := if data = pubkeyP then idP else if data = pubkeyX then idX else idM
  pubkeyImport data := data = pubkeyP ∨ data = pubkeyX
  pubkeyVerify pubkey data signature :=
    pubkey = pubkeyP ∧ data = lsaWire idP signedP ∧ signature = signatureP ∨
      pubkey = pubkeyX ∧ data = lsaWire idX signedX ∧ signature = signatureX
  setBytes _ := List.replicate Attr.sizeofAttrSet 0

/-- A relayed LSA: the `ADV_PATH`, what its node signed, and the signature. -/
def relayed (addr : Nat) (id : NodeId) (hops : List NodeId) (signed : AttrSet) (signature : Bytes) :
    LsaPtr where
  addr := addr
  lsa := .ofAttrs id (.plain LSA_ATTR_TYPE_ADV_PATH false [] (hops.flatMap fun hop => hop.1) ::
    signed ++ [.plain LSA_ATTR_TYPE_SIGNATURE false [] signature])

/-- The LSA of X with P as its path. -/
def lsaX : LsaPtr := relayed 1 idX [idP] signedX signatureX

theorem received_lsaX : Received lsaX.lsa :=
  received_ofAttrs idX (by decide +kernel) (by decide +kernel) (by decide +kernel)
    (by decide +kernel)

theorem accepted_lsaX : accepted sampleCrypto (some idM) (some idP) lsaX = true := by
  decide +kernel

/-- The run that receives the LSA of X from P. -/
theorem adj_listeners_follow_lsaX : ∃ rib es,
    AdjRun sampleCrypto AdjContract (some idM) (some idP) [.addLsa lsaX] rib es ∧
      Replays (fun _ => none) (es.map RibEvent.change) (rib.view sampleCrypto) := by
  have hc : AdjContract (adjRibInInit (some idM) (some idP)) (.addLsa lsaX) := received_lsaX
  obtain ⟨⟨rib, es⟩, hrun⟩ :=
    adjStep_isOk (adjRibInInit_inv sampleCrypto (some idM) (some idP)) hc
  exact ⟨rib, _, .snoc .nil hc hrun, (adj_listeners_follow (.snoc .nil hc hrun)).1⟩

end Dvpn

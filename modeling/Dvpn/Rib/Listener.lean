import Dvpn.ChangeLog
import Dvpn.Lsa.Basic

/-!
# RIB listeners (`rib_listener.h`)

The RIBs and their listeners share LSA objects. `LsaPtr` is a pointer to one: its address, which
is what `==` and `<` on pointers see, and the contents, which nothing changes once the object is
shared. References are not counted here: an object is there as long as a RIB holds it.

`RibEvent` is a call of one of the three callbacks. `RibEvent.change` reads it as a change of a
table from ids to (LSA, cost) pairs, in the sense of `Dvpn.ChangeLog`; both RIBs tell their
listeners of a change with `changeEvents`.
-/

namespace Dvpn

/-- A pointer to an LSA object. -/
structure LsaPtr where
  addr : Nat
  lsa : Lsa

/-- `RIB_COST_UNREACHABLE` (`rib_listener.h:26`). -/
def RIB_COST_UNREACHABLE : Nat := 0xfffffffe

/-- `RIB_COST_INELIGIBLE` (`rib_listener.h:27`). -/
def RIB_COST_INELIGIBLE : Nat := 0xffffffff

/-- A call of a listener. -/
inductive RibEvent where
  | lsaAdd (lsa : LsaPtr) (cost : Nat)
  | lsaMod (old : LsaPtr) (oldcost : Nat) (new : LsaPtr) (newcost : Nat)
  | lsaDel (lsa : LsaPtr) (cost : Nat)

/-- What the listeners are told when an LSA takes the place of another one (`loc_rib.c:220-236`,
`adj_rib_in.c:193-209`). -/
def changeEvents (old : Option LsaPtr) (oldcost : Nat) (new : Option LsaPtr) (newcost : Nat) :
    List RibEvent :=
  match old, new with
  | none, some new => [.lsaAdd new newcost]
  | some old, some new => [.lsaMod old oldcost new newcost]
  | some old, none => [.lsaDel old oldcost]
  | none, none => []

namespace RibEvent

open ChangeLog

/-- The event as a change of a table from ids to pairs. -/
def change : RibEvent → Change NodeId (LsaPtr × Nat)
  | lsaAdd lsa cost => .add lsa.lsa.id (lsa, cost)
  | lsaMod old oldcost new newcost => .mod old.lsa.id (old, oldcost) (new, newcost)
  | lsaDel lsa cost => .del lsa.lsa.id (lsa, cost)

/-- The id of the change. -/
def id : RibEvent → NodeId
  | lsaAdd lsa _ => lsa.lsa.id
  | lsaMod old _ _ _ => old.lsa.id
  | lsaDel lsa _ => lsa.lsa.id

/-- The LSA that was there. -/
def old : RibEvent → Option LsaPtr
  | lsaAdd _ _ => none
  | lsaMod old _ _ _ => some old
  | lsaDel lsa _ => some lsa

/-- The LSA that is there now. -/
def new : RibEvent → Option LsaPtr
  | lsaAdd lsa _ => some lsa
  | lsaMod _ _ new _ => some new
  | lsaDel _ _ => none

/-- The costs that an event carries. -/
def costs : RibEvent → List Nat
  | lsaAdd _ cost => [cost]
  | lsaMod _ oldcost _ newcost => [oldcost, newcost]
  | lsaDel _ cost => [cost]

end RibEvent

open ChangeLog

variable {old new : Option LsaPtr} {oldcost newcost : Nat} {id : NodeId}

/-- The events are the change of the pair of the id. -/
theorem changeEvents_change (hold : ∀ p, old = some p → p.lsa.id = id)
    (hnew : ∀ p, new = some p → p.lsa.id = id) :
    (changeEvents old oldcost new newcost).map RibEvent.change =
      change id (old.map (·, oldcost)) (new.map (·, newcost)) := by
  cases old with
  | none =>
    cases new with
    | none => rfl
    | some q => simp [changeEvents, RibEvent.change, change, hnew q rfl]
  | some p =>
    cases new with
    | none => simp [changeEvents, RibEvent.change, change, hold p rfl]
    | some q => simp [changeEvents, RibEvent.change, change, hold p rfl]

/-- What the events are told of is the new LSA. -/
theorem changeEvents_news : ∀ e ∈ changeEvents old oldcost new newcost, ∀ p, e.new = some p →
    new = some p := by
  intro e he p hp
  have hone : ∀ {e' : RibEvent}, e ∈ [e'] → e'.new = some p := fun h => List.mem_singleton.mp h ▸ hp
  cases old with
  | none =>
    cases new with
    | none => exact absurd he List.not_mem_nil
    | some q => exact hone he
  | some o =>
    cases new with
    | none => exact hone he
    | some q => exact hone he

/-- A change that fits a table is one at its id, from the old LSA to the new one. -/
theorem applies_event {view view' : NodeId → Option (LsaPtr × Nat)} {e : RibEvent}
    (h : Applies view e.change view') : (view e.id).map Prod.fst = e.old ∧
      ∃ pair, view' = Function.update view e.id pair ∧ pair.map Prod.fst = e.new := by
  cases e with
  | lsaAdd lsa cost =>
    cases h with
    | add hv => exact ⟨by rw [RibEvent.id, hv]; rfl, some (lsa, cost), rfl, rfl⟩
  | lsaMod old oldcost new newcost =>
    cases h with
    | mod hv => exact ⟨by rw [RibEvent.id, hv]; rfl, some (new, newcost), rfl, rfl⟩
  | lsaDel lsa cost =>
    cases h with
    | del hv => exact ⟨by rw [RibEvent.id, hv]; rfl, none, rfl, rfl⟩

end Dvpn

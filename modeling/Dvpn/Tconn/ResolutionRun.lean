import Dvpn.ChangeLog
import Dvpn.Tconn.Resolution

/-!
# Runs of the name resolution

The events of the connections, the threads and the completions come in any order, malloc gives out
any free addresses, and `getaddrinfo` answers as `oracle` says. A connection misuses ivykis in one
case (`StepOutcome.sendFailed`), and ends the program; `ResolutionContract` lets nothing follow.

The invariant is `Resolution.Inv`: the memory is what the tasks own and the lists of addresses that
connections hold, and the tasks with a request are those of the connections that wait for a name.

* `resolutionStep_goesOn`: a step goes well and keeps the invariant.
* `resolutions_owned`: no step goes wrong, no memory is lost, and the pool is there while it is
  needed.
* `resolutions_answered`: what a connection asks is answered once or cancelled, and the answer is
  one to what it asked.
-/

namespace Dvpn

open ChangeLog Getaddrinfo Resolution

/-! ## The contract and the invariant -/

section Invariant

variable {n : Nat} {oracle : GaiQuery → GaiAnswer → Prop} {s : Resolution n}
  {jobs : Multiset (GaiJob (Fin n))} {job : GaiJob (Fin n)} {i j : Fin n} {conn : NamedConn}

/-- What malloc, `getaddrinfo`, the loop and the owners guarantee, as long as ivykis has not ended
the program. -/
def ResolutionContract (oracle : GaiQuery → GaiAnswer → Prop) (s : Resolution n)
    (op : ResolutionOp n) : Prop :=
  (∀ i conn, s.2 i = some conn → conn.tc.reg.misuses = []) ∧
    match op with
    | .start i _ _ m => s.2 i = none ∧ Fresh m s.1.heap
    | .retry i m => (∃ conn, s.2 i = some conn ∧ TconnEvent.Enabled conn.tc (.retry true)) ∧
      Fresh m s.1.heap
    | .event i e => e.Other ∧ ∃ conn, s.2 i = some conn ∧ e.Enabled conn.tc
    | .begin t => s.1.items t = some .queued
    | .work t answer => s.1.items t = some .running ∧
      (∀ query, s.1.readQuery t = .ok query → oracle query answer) ∧
      (∀ res ∈ answer.res, s.1.heap res.addr = none) ∧ (answer.ret = 0 → answer.res ≠ none)
    | .complete t _ => s.1.items t = some .done
    | .free i => ∃ conn, s.2 i = some conn ∧ conn.tc.destroyed = true

/-- A connection, as the resolution sees it. -/
structure NamedConn.Sound (conn : NamedConn) : Prop where
  inv : conn.tc.reg.misuses = [] → conn.tc.destroyed = false → conn.tc.Inv
  gone : conn.tc.destroyed = true → .addrinfo ∉ conn.tc.reg.held ∧ .res ∉ conn.tc.reg.held
  res : .res ∈ conn.tc.reg.held ↔ conn.res ≠ none

/-- What the connection waits for. -/
def NamedConn.asks (conn : NamedConn) : Option GaiQuery :=
  if .addrinfo ∈ conn.tc.reg.held then some conn.query else none

namespace Resolution

/-- What the connections wait for. -/
def pending (s : Resolution n) (i : Fin n) : Option GaiQuery := (s.2 i).bind NamedConn.asks

/-- The list of addresses that a connection holds. -/
def heldRes (conn : Option NamedConn) : Multiset (Nat × GaiBlock (Fin n)) :=
  resBlock (conn.bind NamedConn.res)

/-- The tasks with a request are those of the connections that wait. -/
structure Tracks (pending : Fin n → Option GaiQuery) (requests : Fin n → Option GaiRequest)
    (jobs : Multiset (GaiJob (Fin n))) : Prop where
  asker : ∀ job ∈ jobs, ∀ i, job.ig = some i → pending i = some job.query ∧
    ∃ request, requests i = some request ∧ request.task = some job.addr
  job : ∀ i, pending i ≠ none → ∃ job ∈ jobs, job.ig = some i

/-- The invariant. -/
structure Inv (oracle : GaiQuery → GaiAnswer → Prop) (s : Resolution n)
    (jobs : Multiset (GaiJob (Fin n))) : Prop where
  holds : s.1.Holds jobs (∑ i, heldRes (s.2 i))
  sound : ∀ i conn, s.2 i = some conn → conn.Sound
  tracks : Tracks s.pending s.1.requests jobs
  answers : ∀ job ∈ jobs, ∀ answer, job.progress = .done answer →
    oracle job.query answer ∧ (answer.ret = 0 → answer.res ≠ none)

end Resolution

/-- What an event changes in what the connections wait for. -/
def GaiEvent.change : GaiEvent n → Change (Fin n) GaiQuery
  | .submitted i query => .add i query
  | .answered i query _ => .del i query
  | .cancelled i query => .del i query

namespace Resolution

/-- What a step leaves. -/
structure GoesOn (oracle : GaiQuery → GaiAnswer → Prop) (s s' : Resolution n)
    (es : List (GaiEvent n)) : Prop where
  inv : ∃ jobs, s'.Inv oracle jobs
  log : Replays s.pending (es.map GaiEvent.change) s'.pending
  answers : ∀ i query answer, .answered i query answer ∈ es → oracle query answer

/-! ### The tasks and the requests -/

section Tracks

variable {pending : Fin n → Option GaiQuery} {requests : Fin n → Option GaiRequest}
  {request : GaiRequest}

/-- Nothing asks for a connection that does not wait. -/
theorem Tracks.ne (h : Tracks pending requests jobs) (hi : pending i = none)
    (hm : job ∈ jobs) (hig : job.ig = some j) : j ≠ i := by
  rintro rfl
  exact Option.some_ne_none _ ((h.asker job hm j hig).1.symm.trans hi)

theorem Tracks.requests_update (h : Tracks pending requests jobs) (hi : pending i = none)
    (r : Option GaiRequest) : Tracks pending (Function.update requests i r) jobs := by
  refine ⟨fun job hm j hig => ?_, h.job⟩
  rw [Function.update_of_ne (h.ne hi hm hig)]
  exact h.asker job hm j hig

/-- **A connection starts to wait.** -/
theorem Tracks.submit (h : Tracks pending requests jobs) (hi : pending i = none)
    (hig : job.ig = some i) (htask : request.task = some job.addr) :
    Tracks (Function.update pending i (some job.query))
      (Function.update requests i (some request)) (job ::ₘ jobs) := by
  refine ⟨fun job' hm j hig' => ?_, fun j hj => ?_⟩
  · rcases Multiset.mem_cons.mp hm with rfl | hm
    · obtain rfl := Option.some.inj (hig.symm.trans hig')
      rw [Function.update_self, Function.update_self]
      exact ⟨rfl, request, rfl, htask⟩
    · have hji := h.ne hi hm hig'
      rw [Function.update_of_ne hji, Function.update_of_ne hji]
      exact h.asker job' hm j hig'
  · by_cases hji : j = i
    · exact ⟨job, Multiset.mem_cons_self _ _, hji ▸ hig⟩
    · rw [Function.update_of_ne hji] at hj
      obtain ⟨job', hm, hig'⟩ := h.job j hj
      exact ⟨job', Multiset.mem_cons_of_mem hm, hig'⟩

/-- The task of a connection is the only one. -/
theorem Tracks.sole (h : Tracks pending requests (job ::ₘ jobs)) (hig : job.ig = some i)
    (hne : ∀ job' ∈ jobs, job'.addr ≠ job.addr) {job' : GaiJob (Fin n)} (hm : job' ∈ jobs) :
    job'.ig ≠ some i := by
  intro hig'
  obtain ⟨-, request, hreq, htask⟩ := h.asker job (Multiset.mem_cons_self _ _) i hig
  obtain ⟨-, request', hreq', htask'⟩ := h.asker job' (Multiset.mem_cons_of_mem hm) i hig'
  obtain rfl := Option.some.inj (hreq.symm.trans hreq')
  exact hne job' hm (Option.some.inj (htask'.symm.trans htask))

/-- **A connection does not wait any more**, and its task is without it, or gone. -/
theorem Tracks.leave (h : Tracks pending requests (job ::ₘ jobs)) (hig : job.ig = some i)
    (hne : ∀ job' ∈ jobs, job'.addr ≠ job.addr) (r : Option GaiRequest) :
    Tracks (Function.update pending i none) (Function.update requests i r) jobs := by
  refine ⟨fun job' hm j hig' => ?_, fun j hj => ?_⟩
  · have hji : j ≠ i := fun e => h.sole hig hne hm (e ▸ hig')
    rw [Function.update_of_ne hji, Function.update_of_ne hji]
    exact h.asker job' (Multiset.mem_cons_of_mem hm) j hig'
  · have hji : j ≠ i := fun e => hj (by rw [e, Function.update_self])
    rw [Function.update_of_ne hji] at hj
    obtain ⟨job', hm, hig'⟩ := h.job j hj
    rcases Multiset.mem_cons.mp hm with rfl | hm
    · exact absurd (Option.some.inj (hig'.symm.trans hig)) hji
    · exact ⟨job', hm, hig'⟩

/-- A task without a request. -/
theorem Tracks.cons_none (h : Tracks pending requests jobs) (hig : job.ig = none) :
    Tracks pending requests (job ::ₘ jobs) := by
  refine ⟨fun job' hm j hig' => ?_, fun j hj => ?_⟩
  · rcases Multiset.mem_cons.mp hm with rfl | hm
    · exact absurd (hig.symm.trans hig') (Option.some_ne_none j).symm
    · exact h.asker job' hm j hig'
  · obtain ⟨job', hm, hig'⟩ := h.job j hj
    exact ⟨job', Multiset.mem_cons_of_mem hm, hig'⟩

theorem Tracks.of_cons_none (h : Tracks pending requests (job ::ₘ jobs)) (hig : job.ig = none) :
    Tracks pending requests jobs := by
  refine ⟨fun job' hm => h.asker job' (Multiset.mem_cons_of_mem hm), fun j hj => ?_⟩
  obtain ⟨job', hm, hig'⟩ := h.job j hj
  rcases Multiset.mem_cons.mp hm with rfl | hm
  · exact absurd (hig.symm.trans hig') (Option.some_ne_none j).symm
  · exact ⟨job', hm, hig'⟩

/-- A step of a thread. -/
theorem Tracks.progress (h : Tracks pending requests (job ::ₘ jobs)) (progress : GaiProgress) :
    Tracks pending requests ({ job with progress := progress } ::ₘ jobs) := by
  refine ⟨fun job' hm j hig => ?_, fun j hj => ?_⟩
  · rcases Multiset.mem_cons.mp hm with rfl | hm
    · exact h.asker job (Multiset.mem_cons_self _ _) j hig
    · exact h.asker job' (Multiset.mem_cons_of_mem hm) j hig
  · obtain ⟨job', hm, hig⟩ := h.job j hj
    rcases Multiset.mem_cons.mp hm with rfl | hm
    · exact ⟨_, Multiset.mem_cons_self _ _, hig⟩
    · exact ⟨job', Multiset.mem_cons_of_mem hm, hig⟩

end Tracks

/-! ### The connections -/

theorem pending_update (gai : Getaddrinfo (Fin n)) (x : Option NamedConn) :
    pending (gai, Function.update s.2 i x) =
      Function.update s.pending i (x.bind NamedConn.asks) := by
  funext j
  by_cases hj : j = i
  · subst hj
    simp only [pending, Function.update_self]
  · simp only [pending, Function.update_of_ne hj]

/-- What the other connections hold. -/
def others (s : Resolution n) (i : Fin n) : Multiset (Nat × GaiBlock (Fin n)) :=
  ∑ j ∈ Finset.univ.erase i, heldRes (s.2 j)

theorem sum_heldRes (s : Resolution n) (i : Fin n) :
    ∑ j, heldRes (s.2 j) = heldRes (s.2 i) + s.others i :=
  (Finset.add_sum_erase _ _ (Finset.mem_univ i)).symm

theorem sum_heldRes_update (x : Option NamedConn) :
    ∑ j, heldRes (Function.update s.2 i x j) = heldRes x + s.others i := by
  have hsum : ∑ j, heldRes (Function.update s.2 i x j) = heldRes (Function.update s.2 i x i) +
      others (s.1, Function.update s.2 i x) i := sum_heldRes (s.1, Function.update s.2 i x) i
  rw [hsum, Function.update_self]
  refine congrArg (heldRes x + ·) (Finset.sum_congr rfl fun j hj => ?_)
  exact congrArg heldRes (Function.update_of_ne (Finset.ne_of_mem_erase hj) _ _)

theorem sound_update {x : Option NamedConn} (h : ∀ j conn, s.2 j = some conn → conn.Sound)
    (hx : ∀ conn, x = some conn → conn.Sound) :
    ∀ j conn, Function.update s.2 i x j = some conn → conn.Sound := by
  intro j conn hj
  by_cases hji : j = i
  · rw [hji, Function.update_self] at hj
    exact hx conn hj
  · rw [Function.update_of_ne hji] at hj
    exact h j conn hj

/-- A connection that is up. -/
theorem sound_of_inv (htc : conn.tc.Inv) (hres : .res ∈ conn.tc.reg.held ↔ conn.res ≠ none) :
    conn.Sound :=
  ⟨fun _ _ => htc, fun hd => absurd (hd.symm.trans htc.destroyed) (by decide), hres⟩

theorem Inv.pending_eq_none (hi : s.2 i = none) : s.pending i = none := by
  rw [pending, hi]
  rfl

theorem asks_eq_none (h : .addrinfo ∉ conn.tc.reg.held) : conn.asks = none := if_neg h

theorem asks_eq_some (h : .addrinfo ∈ conn.tc.reg.held) : conn.asks = some conn.query := if_pos h

/-- Only a connection with attempts to make has a list of addresses. -/
theorem res_eq_none (h : conn.Sound) (htc : conn.tc.Inv) (hstate : conn.tc.state ≠ .connect) :
    conn.res = none := by
  by_contra hne
  exact hstate (htc.res.mp (h.res.mpr hne))

/-- A task with a request is that of a connection that waits. -/
theorem Inv.waits (h : s.Inv oracle jobs) (hm : job ∈ jobs) (hig : job.ig = some i) :
    ∃ conn request, s.2 i = some conn ∧ .addrinfo ∈ conn.tc.reg.held ∧ conn.query = job.query ∧
      s.1.requests i = some request ∧ request.task = some job.addr := by
  obtain ⟨hpending, request, hreq, htask⟩ := h.tracks.asker job hm i hig
  obtain ⟨conn, hi, hasks⟩ := Option.bind_eq_some_iff.mp hpending
  have hwaits : .addrinfo ∈ conn.tc.reg.held := by
    by_contra hn
    exact Option.some_ne_none _ (hasks.symm.trans (asks_eq_none hn))
  exact ⟨conn, request, hi, hwaits, Option.some.inj ((asks_eq_some hwaits).symm.trans hasks), hreq,
    htask⟩

/-- A connection that waits is up. -/
theorem Inv.resolving (h : s.Inv oracle jobs) (hi : s.2 i = some conn)
    (hmisuses : conn.tc.reg.misuses = []) (hwaits : .addrinfo ∈ conn.tc.reg.held) :
    conn.tc.Inv ∧ conn.tc.state = .resolve := by
  have hconn := h.sound i conn hi
  have hup : conn.tc.destroyed = false := by
    cases hd : conn.tc.destroyed with
    | false => rfl
    | true => exact absurd hwaits (hconn.gone hd).1
  have htc := hconn.inv hmisuses hup
  exact ⟨htc, htc.addrinfo.mp hwaits⟩

/-- The tasks are at different addresses. -/
theorem Holds.addr_ne {gai : Getaddrinfo (Fin n)} {frame : Multiset (Nat × GaiBlock (Fin n))}
    (h : gai.Holds (job ::ₘ jobs) frame) {job' : GaiJob (Fin n)} (hm : job' ∈ jobs) :
    job'.addr ≠ job.addr := by
  have hnodup := h.items.nodup
  rw [Multiset.map_cons, Multiset.map_cons, Multiset.nodup_cons, Multiset.map_map] at hnodup
  exact fun e => hnodup.1 (Multiset.mem_map.mpr ⟨job', hm, e⟩)

/-! ### The steps -/

/-- **`start_resolve`** of a connection that is not known, or waits to try again. -/
theorem startResolve_goesOn (conn : NamedConn) (h : s.Inv oracle jobs) (hi : s.pending i = none)
    (hres : (s.2 i).bind NamedConn.res = none) (hconn : conn.res = none) {m : GaiMallocs}
    (hm : Fresh m s.1.heap) {resolve : Bool → TconnConnect} (hresolve : ∀ ok, (resolve ok).Inv ∧
      ((resolve ok).state = .resolve ↔ ok = true) ∧ (resolve ok).state ≠ .connect) :
    ∃ r, startResolve s i conn m resolve = .ok r ∧ GoesOn oracle s r.1 r.2 := by
  have hsound : ∀ ok, ({ conn with tc := resolve ok } : NamedConn).Sound := by
    intro ok
    obtain ⟨htc, -, hconnect⟩ := hresolve ok
    exact sound_of_inv htc (iff_of_false (fun hm => hconnect (htc.res.mp hm)) (not_not.mpr hconn))
  have hframe : ∀ ok, (∑ j, heldRes (Function.update s.2 i
      (some { conn with tc := resolve ok }) j) : Multiset (Nat × GaiBlock (Fin n))) =
        ∑ j, heldRes (s.2 j) := by
    intro ok
    rw [sum_heldRes_update, sum_heldRes s i, heldRes, heldRes, hres, Option.bind_some, hconn]
  let request : GaiRequest := ⟨conn.query, (s.1.requests i).bind GaiRequest.task⟩
  let gai := { s.1 with requests := Function.update s.1.requests i (some request) }
  have hgai : gai.Holds jobs (∑ j, heldRes (s.2 j)) :=
    ⟨h.holds.heap, h.holds.items, h.holds.numRequests, h.holds.pool⟩
  have hreq : gai.requests i = some request := Function.update_self _ _ _
  change ∃ r, (gai.ivGetaddrinfoSubmit i m >>= _) = Except.ok r ∧ _
  rcases ivGetaddrinfoSubmit_spec hgai hreq hm with
    hfail | ⟨gai', job, hok, hgai', hig, hquery, hprogress, hrequests⟩
  · rw [hfail, ok_bind]
    have hasks : ({ conn with tc := resolve false } : NamedConn).asks = none :=
      asks_eq_none fun hm => Bool.false_ne_true
        ((hresolve false).2.1.mp ((hresolve false).1.addrinfo.mp hm))
    have hpending : pending (gai, Function.update s.2 i (some { conn with tc := resolve false })) =
        s.pending := by
      rw [pending_update, Option.bind_some, hasks, ← hi, Function.update_eq_self]
    refine ⟨_, rfl, ⟨jobs, ?_, sound_update h.sound fun c hc => ?_, ?_, h.answers⟩, ?_,
      fun _ _ _ hm => absurd hm List.not_mem_nil⟩
    · exact (hframe false).symm ▸ hgai
    · obtain rfl := Option.some.inj hc
      exact hsound false
    · exact hpending.symm ▸ h.tracks.requests_update hi _
    · exact hpending.symm ▸ .nil
  · rw [hok, ok_bind]
    have hasks : ({ conn with tc := resolve true } : NamedConn).asks = some conn.query :=
      asks_eq_some ((hresolve true).1.addrinfo.mpr ((hresolve true).2.1.mpr rfl))
    have hpending : pending (gai', Function.update s.2 i (some { conn with tc := resolve true })) =
        Function.update s.pending i (some conn.query) := by
      rw [pending_update, Option.bind_some, hasks]
    refine ⟨_, rfl, ⟨job ::ₘ jobs, ?_, sound_update h.sound fun c hc => ?_, ?_, ?_⟩, ?_, ?_⟩
    · exact (hframe true).symm ▸ hgai'
    · obtain rfl := Option.some.inj hc
      exact hsound true
    · have htracks : Tracks (Function.update s.pending i (some job.query))
          (Function.update s.1.requests i (some { request with task := some job.addr }))
          (job ::ₘ jobs) := h.tracks.submit hi hig rfl
      rw [hquery] at htracks
      have hrequests' : gai'.requests = Function.update s.1.requests i
          (some { request with task := some job.addr }) := by
        rw [hrequests]
        exact Function.update_idem _ _ _
      exact hpending.symm ▸ hrequests'.symm ▸ htracks
    · intro job' hm answer hdone
      rcases Multiset.mem_cons.mp hm with rfl | hm
      · exact nomatch hprogress.symm.trans hdone
      · exact h.answers job' hm answer hdone
    · exact hpending.symm ▸ (Applies.add hi).replays
    · intro j query answer hm
      exact nomatch List.mem_singleton.mp hm

/-- **A connection after a step**: its list of addresses is there, or freed. -/
theorem putConn_eq (conn : NamedConn) {gai : Getaddrinfo (Fin n)}
    {rest : Multiset (Nat × GaiBlock (Fin n))}
    (hheap : Owns gai.heap (resBlock conn.res + (s.others i + rest))) (tc : TconnConnect) :
    ∃ heap res, putConn (gai, s.2) i conn tc = .ok ({ gai with heap := heap },
        Function.update s.2 i (some { conn with tc := tc, res := res })) ∧
      Owns heap (∑ j, heldRes (Function.update s.2 i (some { conn with tc := tc, res := res }) j) +
        rest) ∧
      res = if .res ∈ tc.reg.held then conn.res else none := by
  unfold putConn
  by_cases hheld : .res ∈ tc.reg.held
  · rw [if_pos hheld, if_pos hheld]
    refine ⟨gai.heap, conn.res, rfl, ?_, rfl⟩
    rw [sum_heldRes_update, add_assoc]
    exact hheap
  · rw [if_neg hheld, if_neg hheld]
    obtain ⟨heap, hfree, hheap'⟩ := freeaddrinfo_eq hheap
    dsimp only
    rw [hfree, ok_bind]
    refine ⟨heap, none, rfl, ?_, rfl⟩
    rw [sum_heldRes_update, heldRes, Option.bind_some, resBlock, zero_add]
    exact hheap'

theorem putConn_spec {gai : Getaddrinfo (Fin n)} {tc : TconnConnect}
    (hgai : gai.Holds jobs (∑ j, heldRes (s.2 j))) (hs : ∀ j c, s.2 j = some c → c.Sound)
    (hi : s.2 i = some conn) (hsheds : conn.tc.Sheds tc)
    (hsound : (tc.reg.misuses = [] → tc.destroyed = false → tc.Inv) ∧
      (tc.destroyed = true → .addrinfo ∉ tc.reg.held ∧ .res ∉ tc.reg.held)) :
    ∃ s', putConn (gai, s.2) i conn tc = .ok s' ∧ s'.1.Holds jobs (∑ j, heldRes (s'.2 j)) ∧
      (∀ j c, s'.2 j = some c → c.Sound) ∧ s'.1.requests = gai.requests ∧
      s'.pending = Function.update s.pending i
        (if .addrinfo ∈ tc.reg.held then some conn.query else none) := by
  have hheap := hgai.heap
  rw [sum_heldRes s i, heldRes, hi, Option.bind_some, add_comm, add_assoc] at hheap
  obtain ⟨heap, res, hput, hheap', hres⟩ := putConn_eq conn hheap tc
  refine ⟨_, hput, ⟨?_, hgai.items, hgai.numRequests, hgai.pool⟩,
    sound_update hs fun c hc => ?_, rfl, pending_update _ _⟩
  · rw [add_comm]
    exact hheap'
  · obtain rfl := Option.some.inj hc
    refine ⟨hsound.1, hsound.2, ?_⟩
    dsimp only
    rw [hres]
    split_ifs with hheld
    · exact iff_of_true hheld ((hs i conn hi).res.mp (hsheds.2 hheld))
    · exact iff_of_false hheld (not_not.mpr rfl)

/-- **What happens to a connection**, but for its name. -/
theorem connEvent_goesOn {e : TconnEvent} (h : s.Inv oracle jobs) (hi : s.2 i = some conn)
    (he : e.Other) (hen : e.Enabled conn.tc) :
    ∃ r, connEvent s i conn e = .ok r ∧ GoesOn oracle s r.1 r.2 := by
  have htc : conn.tc.Inv := (h.sound i conn hi).inv hen.1 hen.2.1
  obtain ⟨⟨tc, calls⟩, hrun⟩ := TconnConnect.run_ok htc hen
  have hsheds := TconnConnect.run_sheds he hrun
  have hsound := TconnConnect.outcome_sound htc (TconnConnect.step_outcome htc hen hrun) hsheds
  have hpi : s.pending i = conn.asks := by rw [pending, hi, Option.bind_some]
  by_cases hgive : .addrinfo ∈ conn.tc.reg.held ∧ .addrinfo ∉ tc.reg.held
  · -- the task stays, without its request
    have hwaits : s.pending i = some conn.query := hpi.trans (asks_eq_some hgive.1)
    obtain ⟨job, hm, hig⟩ := h.tracks.job i (by rw [hwaits]; exact Option.some_ne_none _)
    obtain ⟨jobs, rfl⟩ := Multiset.exists_cons_of_mem hm
    obtain ⟨-, request, hreq, htask⟩ := h.tracks.asker job hm i hig
    obtain ⟨gai, hcancel, hgai, hrequests⟩ := ivGetaddrinfoCancel_spec h.holds hreq htask
    obtain ⟨s', hput, hholds, hs', hreq', hpending⟩ :=
      putConn_spec hgai h.sound hi hsheds hsound
    rw [if_neg hgive.2] at hpending
    have hcalled : cancelIf s i conn tc = .ok ((gai, s.2), [.cancelled i conn.query]) := by
      rw [cancelIf, if_pos hgive, hcancel, ok_bind]
      rfl
    refine ⟨(s', [.cancelled i conn.query]), ?_, ⟨{ job with ig := none } ::ₘ jobs, hholds, hs', ?_,
      fun job' hm' => ?_⟩, ?_, fun j query answer hm' => ?_⟩
    · simp only [connEvent, hrun, hcalled, liftTconn, liftGai, ok_bind, hput]
      rfl
    · rw [hpending, hreq', hrequests]
      exact (h.tracks.leave hig (fun _ => Holds.addr_ne h.holds) _).cons_none rfl
    · rcases Multiset.mem_cons.mp hm' with rfl | hm'
      · exact h.answers job hm
      · exact h.answers job' (Multiset.mem_cons_of_mem hm')
    · rw [hpending]
      exact (Applies.del hwaits).replays
    · exact nomatch List.mem_singleton.mp hm'
  · obtain ⟨s', hput, hholds, hs', hreq', hpending⟩ :=
      putConn_spec h.holds h.sound hi hsheds hsound
    have hsame : s'.pending = s.pending := by
      rw [hpending, ← Function.update_eq_self i s.pending, Function.update_idem, hpi]
      refine congrArg (Function.update s.pending i) ?_
      unfold NamedConn.asks
      by_cases hheld : .addrinfo ∈ conn.tc.reg.held
      · rw [if_pos hheld, if_pos (not_not.mp fun hn => hgive ⟨hheld, hn⟩)]
      · rw [if_neg hheld, if_neg fun hm => hheld (hsheds.1 hm)]
    have hcalled : cancelIf s i conn tc = .ok (s, []) := by rw [cancelIf, if_neg hgive]
    refine ⟨(s', []), ?_, ⟨jobs, hholds, hs', ?_, h.answers⟩, ?_,
      fun _ _ _ hm => absurd hm List.not_mem_nil⟩
    · simp only [connEvent, hrun, hcalled, liftTconn, liftGai, ok_bind, hput]
      rfl
    · rw [hsame, hreq']
      exact h.tracks
    · rw [hsame]
      exact .nil

/-- A work item is that of a task. -/
theorem job_of_item {gai : Getaddrinfo (Fin n)} {frame : Multiset (Nat × GaiBlock (Fin n))}
    {t : Nat} {work : GaiWork} (h : gai.Holds jobs frame) (hitem : gai.items t = some work) :
    ∃ job rest, jobs = job ::ₘ rest ∧ job.addr = t ∧ job.progress.work = work := by
  obtain ⟨job, hm, heq⟩ := Multiset.mem_map.mp ((h.items.mem t work).mp hitem)
  obtain ⟨rest, rfl⟩ := Multiset.exists_cons_of_mem hm
  obtain ⟨haddr, hwork⟩ := Prod.mk.inj heq
  exact ⟨job, rest, rfl, haddr, hwork⟩

/-- **A thread takes a task.** -/
theorem begin_goesOn {t : Nat} (h : s.Inv oracle jobs) (hitem : s.1.items t = some .queued) :
    ∃ gai, s.1.beginWork t = .ok gai ∧ GoesOn oracle s (gai, s.2) [] := by
  obtain ⟨job, rest, rfl, rfl, hwork⟩ := job_of_item h.holds hitem
  obtain ⟨gai, hbegin, hgai, hreq⟩ := beginWork_spec h.holds (GaiProgress.of_work_queued hwork)
  refine ⟨gai, hbegin, ⟨{ job with progress := .running } ::ₘ rest, hgai, h.sound, ?_,
    fun job' hm answer hdone => ?_⟩, .nil, fun _ _ _ hm => absurd hm List.not_mem_nil⟩
  · rw [hreq]
    exact h.tracks.progress _
  · rcases Multiset.mem_cons.mp hm with rfl | hm
    · exact nomatch hdone
    · exact h.answers job' (Multiset.mem_cons_of_mem hm) answer hdone

/-- **`getaddrinfo` answers.** -/
theorem work_goesOn {t : Nat} {answer : GaiAnswer} (h : s.Inv oracle jobs)
    (hitem : s.1.items t = some .running)
    (horacle : ∀ query, s.1.readQuery t = .ok query → oracle query answer)
    (hfresh : ∀ res ∈ answer.res, s.1.heap res.addr = none)
    (hsome : answer.ret = 0 → answer.res ≠ none) :
    ∃ r, s.1.ivGetaddrinfoTaskWork t answer = .ok r ∧ GoesOn oracle s (r.1, s.2) [] := by
  obtain ⟨job, rest, rfl, rfl, hwork⟩ := job_of_item h.holds hitem
  obtain ⟨gai, hrun, hgai, hreq⟩ :=
    ivGetaddrinfoTaskWork_spec h.holds (GaiProgress.of_work_running hwork) hfresh
  refine ⟨_, hrun, ⟨{ job with progress := .done answer } ::ₘ rest, hgai, h.sound, ?_,
    fun job' hm answer' hdone => ?_⟩, .nil, fun _ _ _ hm => absurd hm List.not_mem_nil⟩
  · rw [hreq]
    exact h.tracks.progress _
  · rcases Multiset.mem_cons.mp hm with rfl | hm
    · obtain rfl := GaiProgress.done.inj hdone
      exact ⟨horacle _ (readQuery_eq h.holds), hsome⟩
    · exact h.answers job' (Multiset.mem_cons_of_mem hm) answer' hdone

/-- **An owner frees a connection.** No task refers to it. -/
theorem free_goesOn (h : s.Inv oracle jobs) (hi : s.2 i = some conn)
    (hdestroyed : conn.tc.destroyed = true) :
    GoesOn oracle s ({ s.1 with requests := Function.update s.1.requests i none },
      Function.update s.2 i none) [] := by
  obtain ⟨haddrinfo, hres⟩ := (h.sound i conn hi).gone hdestroyed
  have hnone : s.pending i = none := by
    rw [pending, hi, Option.bind_some]
    exact asks_eq_none haddrinfo
  have hnores : conn.res = none := not_not.mp fun hne =>
    hres ((h.sound i conn hi).res.mpr hne)
  have hsame : pending (({ s.1 with requests := Function.update s.1.requests i none } :
      Getaddrinfo (Fin n)), Function.update s.2 i none) = s.pending := by
    rw [pending_update, Option.bind_none, ← hnone, Function.update_eq_self]
  have hframe : (∑ j, heldRes (Function.update s.2 i none j) :
      Multiset (Nat × GaiBlock (Fin n))) = ∑ j, heldRes (s.2 j) := by
    rw [sum_heldRes_update, sum_heldRes s i, heldRes, heldRes, hi, Option.bind_some, hnores,
      Option.bind_none]
  refine ⟨⟨jobs, ⟨?_, h.holds.items, h.holds.numRequests, h.holds.pool⟩,
    sound_update h.sound (fun c hc => nomatch hc), ?_, h.answers⟩, ?_,
    fun _ _ _ hm => absurd hm List.not_mem_nil⟩
  · exact hframe.symm ▸ h.holds.heap
  · exact hsame.symm ▸ h.tracks.requests_update hnone none
  · exact hsame.symm ▸ .nil

/-- The handler of a connection that waits. -/
theorem resolveComplete_eq {gai : Getaddrinfo (Fin n)} {answer : GaiAnswer}
    {rest : Multiset (Nat × GaiBlock (Fin n))} (hi : s.2 i = some conn)
    (hsome : answer.ret = 0 → answer.res ≠ none)
    (hheap : Owns gai.heap (resBlock answer.res + rest)) (attempts : Nat → AttemptResult) :
    resolveComplete attempts i answer (gai, s.2) =
      putConn (gai, s.2) i { conn with res := answer.res }
        ({ conn.tc with reg := conn.tc.reg.expire .addrinfo }.resolveComplete
          (if answer.ret = 0 then answer.res.map GaiRes.addrs else none) attempts).1 := by
  unfold resolveComplete
  simp only [hi]
  by_cases hret : answer.ret = 0
  · obtain ⟨res, hres⟩ := Option.ne_none_iff_exists'.mp (hsome hret)
    rw [hres, resBlock] at hheap
    have hread : gai.heap res.addr = some (.res res.addrs) :=
      hheap.read (Multiset.mem_add.mpr (Or.inl (Multiset.mem_singleton_self _)))
    simp only [if_pos hret, hres, hread, Option.map_some]
  · simp only [if_neg hret]

/-- The connection that got its answer: it does not wait, and has the list iff it tries it. -/
theorem resolved_sound {answer : GaiAnswer} {tc : TconnConnect} (htc : conn.tc.Inv)
    (hstate : conn.tc.state = .resolve) (hsome : answer.ret = 0 → answer.res ≠ none)
    (attempts : Nat → AttemptResult)
    (hrun : ({ conn.tc with reg := conn.tc.reg.expire .addrinfo }.resolveComplete
      (if answer.ret = 0 then answer.res.map GaiRes.addrs else none) attempts).1 = tc) :
    let conn' : NamedConn := { conn with
      tc := tc
      res := if .res ∈ tc.reg.held then answer.res else none }
    conn'.Sound ∧ conn'.asks = none := by
  intro conn'
  obtain ⟨htc', hresolve, hconnect⟩ := TconnConnect.resolveComplete_spec htc hstate
    (if answer.ret = 0 then answer.res.map GaiRes.addrs else none) attempts
  rw [hrun] at htc' hresolve hconnect
  refine ⟨sound_of_inv htc' ⟨fun hm => ?_, fun hne => ?_⟩,
    asks_eq_none fun hm => hresolve (htc'.addrinfo.mp hm)⟩
  · have haddrs : (if answer.ret = 0 then answer.res.map GaiRes.addrs else none) ≠ none :=
      fun hn => hconnect hn (htc'.res.mp hm)
    have hret : answer.ret = 0 := by
      by_contra hn
      exact haddrs (if_neg hn)
    have hres : conn'.res = answer.res := if_pos hm
    rw [hres]
    exact hsome hret
  · by_contra hn
    exact hne (if_neg hn)

/-- **The answer** of a task goes to the connection that asked. -/
theorem answered_goesOn {answer : GaiAnswer} (h : s.Inv oracle (job ::ₘ jobs))
    (hprogress : job.progress = .done answer) (hig : job.ig = some i)
    (hunbroken : ∀ i conn, s.2 i = some conn → conn.tc.reg.misuses = [])
    (attempts : Nat → AttemptResult) :
    ∃ s', ivGetaddrinfoTaskComplete (resolveComplete attempts) s job.addr = .ok s' ∧
      GoesOn oracle s s' (answerEvents s job.addr) := by
  obtain ⟨horacle, hsome⟩ := h.answers job (Multiset.mem_cons_self _ _) answer hprogress
  obtain ⟨conn, request, hi, hwaits, hquery, hreq, -⟩ :=
    h.waits (Multiset.mem_cons_self _ _) hig
  obtain ⟨htc, hstate⟩ := h.resolving hi (hunbroken i conn hi) hwaits
  have hnores : conn.res = none :=
    res_eq_none (h.sound i conn hi) htc fun hn => nomatch hstate.symm.trans hn
  generalize htc₁ : ({ conn.tc with reg := conn.tc.reg.expire .addrinfo }.resolveComplete
    (if answer.ret = 0 then answer.res.map GaiRes.addrs else none) attempts).1 = tc
  let conn' : NamedConn := { conn with
    tc := tc
    res := if .res ∈ tc.reg.held then answer.res else none }
  obtain ⟨hsound', hnotasks⟩ : conn'.Sound ∧ conn'.asks = none :=
    resolved_sound htc hstate hsome attempts htc₁
  obtain ⟨gai, hrun, hgai, hreq'⟩ := complete_handled (resolveComplete attempts) s.2
    (Function.update s.2 i (some conn'))
    (∑ j, heldRes (Function.update s.2 i (some conn') j)) h.holds hprogress hig hreq
    fun gai blocks _ hheap => by
      rw [resolveComplete_eq hi hsome hheap attempts, htc₁]
      rw [sum_heldRes s i, heldRes, hi, Option.bind_some, hnores, resBlock, zero_add] at hheap
      obtain ⟨heap, res, hput, hheap', hres⟩ :=
        putConn_eq { conn with res := answer.res } hheap tc
      subst hres
      exact ⟨heap, hput, hheap'⟩
  have hevents : answerEvents s job.addr = [.answered i conn.query answer] := by
    have htask : job.task.ig = some i := hig
    have hret : (⟨job.task.ret, job.task.res⟩ : GaiAnswer) = answer := by
      rw [GaiJob.task, hprogress]
      rfl
    simp only [answerEvents, asker, h.holds.task, htask, Option.bind_some, hi, Option.map_some,
      hret]
  have hwaiting : s.pending i = some conn.query := by
    rw [pending, hi, Option.bind_some, asks_eq_some hwaits]
  have hpending : pending (gai, Function.update s.2 i (some conn')) =
      Function.update s.pending i none := by
    rw [pending_update, Option.bind_some, hnotasks]
  rw [hevents]
  refine ⟨_, hrun, ⟨jobs, hgai, sound_update h.sound fun c hc => ?_, ?_,
    fun job' hm => h.answers job' (Multiset.mem_cons_of_mem hm)⟩, ?_, fun j query answer' hm => ?_⟩
  · obtain rfl := Option.some.inj hc
    exact hsound'
  · have htracks := h.tracks.leave hig (fun _ => Holds.addr_ne h.holds) (s.1.requests i)
    rw [Function.update_eq_self] at htracks
    rw [hpending, hreq']
    exact htracks
  · rw [hpending]
    exact (Applies.del hwaiting).replays
  · obtain ⟨rfl, rfl, rfl⟩ := GaiEvent.answered.inj (List.mem_singleton.mp hm)
    rw [hquery]
    exact horacle

/-- **A cancelled task** ends, and nobody hears of it. -/
theorem discarded_goesOn {answer : GaiAnswer} (h : s.Inv oracle (job ::ₘ jobs))
    (hprogress : job.progress = .done answer) (hig : job.ig = none)
    (attempts : Nat → AttemptResult) :
    ∃ s', ivGetaddrinfoTaskComplete (resolveComplete attempts) s job.addr = .ok s' ∧
      GoesOn oracle s s' (answerEvents s job.addr) := by
  obtain ⟨gai, hrun, hgai, hreq⟩ :=
    complete_cancelled (resolveComplete attempts) s.2 h.holds hprogress hig
  have hevents : answerEvents s job.addr = [] := by
    have htask : job.task.ig = none := hig
    simp only [answerEvents, asker, h.holds.task, htask, Option.bind_none]
  rw [hevents]
  refine ⟨_, hrun, ⟨jobs, hgai, h.sound, ?_,
    fun job' hm => h.answers job' (Multiset.mem_cons_of_mem hm)⟩, .nil,
    fun _ _ _ hm => absurd hm List.not_mem_nil⟩
  rw [hreq]
  exact h.tracks.of_cons_none hig

/-- **A task is completed.** -/
theorem complete_goesOn {t : Nat} (h : s.Inv oracle jobs) (hitem : s.1.items t = some .done)
    (hunbroken : ∀ i conn, s.2 i = some conn → conn.tc.reg.misuses = [])
    (attempts : Nat → AttemptResult) :
    ∃ s', ivGetaddrinfoTaskComplete (resolveComplete attempts) s t = .ok s' ∧
      GoesOn oracle s s' (answerEvents s t) := by
  obtain ⟨job, rest, rfl, rfl, hwork⟩ := job_of_item h.holds hitem
  obtain ⟨answer, hprogress⟩ := GaiProgress.of_work_done hwork
  cases hig : job.ig with
  | none => exact discarded_goesOn h hprogress hig attempts
  | some i => exact answered_goesOn h hprogress hig hunbroken attempts

theorem inv_initial : Inv oracle ((Getaddrinfo.init, fun _ => none) : Resolution n) 0 := by
  have hframe : (∑ i : Fin n, heldRes ((fun _ => none : Fin n → Option NamedConn) i) :
      Multiset (Nat × GaiBlock (Fin n))) = 0 := Finset.sum_eq_zero fun _ _ => rfl
  exact ⟨hframe.symm ▸ holds_init, fun i conn hi => (nomatch hi),
    ⟨fun job hm => absurd hm (Multiset.notMem_zero _), fun i hi => absurd rfl hi⟩,
    fun job hm => absurd hm (Multiset.notMem_zero _)⟩

end Resolution

/-! ## Runs -/

/-- **One step** goes well, whatever the threads are doing. -/
theorem resolutionStep_goesOn {op : ResolutionOp n} (h : s.Inv oracle jobs)
    (hc : ResolutionContract oracle s op) :
    ∃ r, resolutionStep s op = .ok r ∧ GoesOn oracle s r.1 r.2 := by
  obtain ⟨hunbroken, hc⟩ := hc
  cases op with
  | start i hostname port m =>
    obtain ⟨hi, hm⟩ := hc
    have hres : (s.2 i).bind NamedConn.res = none := by rw [hi]; rfl
    have hresolve : ∀ ok, (TconnConnect.start ok).1.Inv ∧
        ((TconnConnect.start ok).1.state = .resolve ↔ ok = true) ∧
          (TconnConnect.start ok).1.state ≠ .connect := by
      intro ok
      refine ⟨start_inv ok, ?_⟩
      cases ok with
      | true => exact ⟨iff_of_true rfl rfl, fun hn => nomatch hn⟩
      | false =>
        exact ⟨iff_of_false (fun hn => nomatch hn) Bool.false_ne_true, fun hn => nomatch hn⟩
    obtain ⟨r, hrun, hgoes⟩ := startResolve_goesOn
      ⟨(TconnConnect.start false).1, hostname, port, none⟩ h (Inv.pending_eq_none hi)
      hres rfl hm hresolve
    exact ⟨r, by rw [resolutionStep, hrun, liftGai], hgoes⟩
  | retry i m =>
    obtain ⟨⟨conn, hi, hmisuses, hd, hretry⟩, hm⟩ := hc
    have htc := (h.sound i conn hi).inv hmisuses hd
    have hstate := htc.retryWait.mp hretry
    have hnores : conn.res = none :=
      res_eq_none (h.sound i conn hi) htc fun hn => nomatch hstate.symm.trans hn
    have hpending : s.pending i = none := by
      rw [pending, hi, Option.bind_some]
      exact asks_eq_none fun hm => nomatch hstate.symm.trans (htc.addrinfo.mp hm)
    have hres : (s.2 i).bind NamedConn.res = none := by rw [hi]; exact hnores
    obtain ⟨r, hrun, hgoes⟩ := startResolve_goesOn conn h hpending hres hnores hm
      (TconnConnect.startResolve_spec htc hstate)
    exact ⟨r, by rw [resolutionStep, onConn, hi]; dsimp only; rw [hrun, liftGai], hgoes⟩
  | event i e =>
    obtain ⟨he, conn, hi, hen⟩ := hc
    obtain ⟨r, hrun, hgoes⟩ := connEvent_goesOn h hi he hen
    exact ⟨r, by rw [resolutionStep, onConn, hi]; exact hrun, hgoes⟩
  | begin t =>
    obtain ⟨gai, hrun, hgoes⟩ := begin_goesOn h hc
    exact ⟨_, by rw [resolutionStep, hrun, liftGai, ok_bind]; rfl, hgoes⟩
  | work t answer =>
    obtain ⟨hitem, horacle, hfresh, hsome⟩ := hc
    obtain ⟨r, hrun, hgoes⟩ := work_goesOn h hitem horacle hfresh hsome
    exact ⟨_, by rw [resolutionStep, hrun, liftGai, ok_bind]; rfl, hgoes⟩
  | complete t attempts =>
    obtain ⟨s', hrun, hgoes⟩ := complete_goesOn h hc hunbroken attempts
    exact ⟨_, by rw [resolutionStep, hrun, liftGai, ok_bind]; rfl, hgoes⟩
  | free i =>
    obtain ⟨conn, hi, hd⟩ := hc
    exact ⟨_, rfl, free_goesOn h hi hd⟩

/-- The runs of the program, from its start. -/
abbrev ResolutionRun (oracle : GaiQuery → GaiAnswer → Prop) :=
  Run (resolutionStep (n := n)) (ResolutionContract oracle) (Getaddrinfo.init, fun _ => none)

variable {ops : List (ResolutionOp n)} {log : List (GaiEvent n)}

theorem ResolutionRun.goesOn (h : ResolutionRun oracle ops s log) :
    GoesOn oracle (Getaddrinfo.init, fun _ => none) s log := by
  refine Run.invariant (fun _ s log => GoesOn oracle (Getaddrinfo.init, fun _ => none) s log)
    ⟨⟨0, inv_initial⟩, .nil, fun _ _ _ hm => absurd hm List.not_mem_nil⟩ ?_ h
  rintro _ s log op s' es ⟨⟨jobs, hinv⟩, hlog, hanswers⟩ hc hstep
  obtain ⟨r, hrun, hgoes⟩ := resolutionStep_goesOn hinv hc
  obtain rfl := Except.ok.inj (hrun.symm.trans hstep)
  refine ⟨hgoes.inv, ?_, fun i query answer hm => ?_⟩
  · rw [List.map_append]
    exact hlog.append hgoes.log
  · exact (List.mem_append.mp hm).elim (hanswers i query answer) (hgoes.answers i query answer)

/-! ### A run -/

/-- A connection to a host `a`. -/
def hostA : NamedConn := ⟨(TconnConnect.start false).1, [97], [98], none⟩

/-- The connection. -/
def connA : Fin 1 := ⟨0, Nat.one_pos⟩

/-- The host has one address. -/
def oracleA (query : GaiQuery) (answer : GaiAnswer) : Prop :=
  query = hostA.query ∧ answer = ⟨0, some ⟨4, 1⟩⟩

/-- The connection asks for its name, does not get through to the address, and goes away. -/
def opsA : List (ResolutionOp 1) :=
  [.start connA hostA.hostname hostA.port ⟨some 1, some 2, some 3⟩, .begin 1,
    .work 1 ⟨0, some ⟨4, 1⟩⟩, .complete 1 fun _ => .noSocket, .event connA .destroy, .free connA]

def resolutionNext (s : Resolution 1) (op : ResolutionOp 1) :
    Option (Resolution 1 × List (GaiEvent 1)) := (resolutionStep s op).toOption

theorem ok_of_resolutionNext {s : Resolution 1} {op : ResolutionOp 1}
    {r : Resolution 1 × List (GaiEvent 1)} (h : resolutionNext s op = some r) :
    resolutionStep s op = .ok r := by
  unfold resolutionNext at h
  cases hstep : resolutionStep s op with
  | ok r' =>
    rw [hstep] at h
    exact congrArg _ (Option.some.inj h)
  | error e =>
    rw [hstep] at h
    cases h

/-- Whether ivykis was misused, and whether the connection is destroyed. -/
def condition (s : Resolution 1) : Option (List (Misuse TconnResource) × Bool) :=
  (s.2 connA).map fun conn => (conn.tc.reg.misuses, conn.tc.destroyed)

theorem unbroken_of_condition {s : Resolution 1} {destroyed : Bool}
    (h : condition s = some ([], destroyed)) :
    ∀ i conn, s.2 i = some conn → conn.tc.reg.misuses = [] := by
  intro i conn hi
  obtain ⟨conn', hi', hconn⟩ := Option.map_eq_some_iff.mp h
  obtain rfl : i = connA := Subsingleton.elim _ _
  obtain rfl := Option.some.inj (hi.symm.trans hi')
  exact (Prod.mk.inj hconn).1

theorem resolutionRun_sample : ∃ s log, ResolutionRun oracleA opsA s log ∧
    s.2 connA = none ∧ s.1.numRequests = 0 ∧
      .answered connA hostA.query ⟨0, some ⟨4, 1⟩⟩ ∈ log := by
  have hrun : ((resolutionNext (Getaddrinfo.init, fun _ => none)
      (.start connA hostA.hostname hostA.port ⟨some 1, some 2, some 3⟩)).bind fun r1 =>
      (resolutionNext r1.1 (.begin 1)).bind fun r2 =>
      (resolutionNext r2.1 (.work 1 ⟨0, some ⟨4, 1⟩⟩)).bind fun r3 =>
      (resolutionNext r3.1 (.complete 1 fun _ => .noSocket)).bind fun r4 =>
      (resolutionNext r4.1 (.event connA .destroy)).bind fun r5 =>
      (resolutionNext r5.1 (.free connA)).map fun r6 =>
        decide ((condition r1.1 = some ([], false) ∧ r1.1.1.items 1 = some .queued) ∧
          (condition r2.1 = some ([], false) ∧ r2.1.1.items 1 = some .running ∧
            (r2.1.1.readQuery 1).toOption = some hostA.query ∧
            (r2.1.1.heap 4).isNone = true) ∧
          (condition r3.1 = some ([], false) ∧ r3.1.1.items 1 = some .done) ∧
          (condition r4.1 = some ([], false) ∧
            r4.2 = [.answered connA hostA.query ⟨0, some ⟨4, 1⟩⟩]) ∧
          condition r5.1 = some ([], true) ∧
          (r6.1.2 connA).isNone = true ∧ r6.1.1.numRequests = 0)) = some true := by
    decide +kernel
  obtain ⟨r1, h1, hrun⟩ := Option.bind_eq_some_iff.mp hrun
  obtain ⟨r2, h2, hrun⟩ := Option.bind_eq_some_iff.mp hrun
  obtain ⟨r3, h3, hrun⟩ := Option.bind_eq_some_iff.mp hrun
  obtain ⟨r4, h4, hrun⟩ := Option.bind_eq_some_iff.mp hrun
  obtain ⟨r5, h5, hrun⟩ := Option.bind_eq_some_iff.mp hrun
  obtain ⟨r6, h6, hrun⟩ := Option.map_eq_some_iff.mp hrun
  rw [decide_eq_true_eq, Option.isNone_iff_eq_none, Option.isNone_iff_eq_none] at hrun
  obtain ⟨⟨hc1, hitem1⟩, ⟨hc2, hitem2, hread, hheap⟩, ⟨hc3, hitem3⟩, ⟨hc4, hlog⟩, hc5, hgone,
    hnum⟩ := hrun
  obtain ⟨conn4, hconn4, hd4⟩ := Option.map_eq_some_iff.mp hc4
  obtain ⟨conn5, hconn5, hd5⟩ := Option.map_eq_some_iff.mp hc5
  have hmalloc : Fresh (γ := Fin 1) ⟨some 1, some 2, some 3⟩ fun _ => none :=
    ⟨fun _ _ => rfl, fun a ha => ⟨rfl, by simp at ha ⊢; omega⟩,
      fun a ha => ⟨rfl, by simp at ha ⊢; omega, by simp at ha ⊢; omega⟩⟩
  have hk1 : ResolutionContract oracleA (Getaddrinfo.init, fun _ => none)
      (.start connA hostA.hostname hostA.port ⟨some 1, some 2, some 3⟩) :=
    ⟨fun _ _ hi => absurd hi (by simp), rfl, hmalloc⟩
  have hk2 : ResolutionContract oracleA r1.1 (.begin 1) := ⟨unbroken_of_condition hc1, hitem1⟩
  have hk3 : ResolutionContract oracleA r2.1 (.work 1 ⟨0, some ⟨4, 1⟩⟩) := by
    refine ⟨unbroken_of_condition hc2, hitem2, fun query hquery => ?_, fun res hres => ?_,
      fun _ => Option.some_ne_none _⟩
    · rw [hquery] at hread
      exact ⟨Option.some.inj hread, rfl⟩
    · obtain rfl := Option.some.inj hres
      exact hheap
  have hk4 : ResolutionContract oracleA r3.1 (.complete 1 fun _ => .noSocket) :=
    ⟨unbroken_of_condition hc3, hitem3⟩
  have hk5 : ResolutionContract oracleA r4.1 (.event connA .destroy) :=
    ⟨unbroken_of_condition hc4, trivial, conn4, hconn4, (Prod.mk.inj hd4).1, (Prod.mk.inj hd4).2,
      trivial⟩
  have hk6 : ResolutionContract oracleA r5.1 (.free connA) :=
    ⟨unbroken_of_condition hc5, conn5, hconn5, (Prod.mk.inj hd5).2⟩
  refine ⟨r6.1, _, .snoc (.snoc (.snoc (.snoc (.snoc (.snoc .nil hk1 (ok_of_resolutionNext h1))
    hk2 (ok_of_resolutionNext h2)) hk3 (ok_of_resolutionNext h3)) hk4
    (ok_of_resolutionNext h4)) hk5 (ok_of_resolutionNext h5)) hk6 (ok_of_resolutionNext h6),
    hgone, hnum, ?_⟩
  rw [hlog]
  simp

/-- **Every request is answered once or cancelled.** In every run, the submissions, answers and
cancellations of a connection alternate, and it waits iff the last one was a submission. An answer
is one of `getaddrinfo` to what the connection asked. A connection that waits has a task with the
threads, which asks for it. -/
theorem resolutions_answered (h : ResolutionRun oracle ops s log) :
    Replays (fun _ => none) (log.map GaiEvent.change) s.pending ∧
    (∀ i query answer, .answered i query answer ∈ log → oracle query answer) ∧
    ∀ i query, s.pending i = some query → ∃ t igt, s.1.heap t = some (.task igt) ∧
      igt.ig = some i ∧ s.1.readQuery t = .ok query ∧ s.1.items t ≠ none := by
  obtain ⟨⟨jobs, hinv⟩, hlog, hanswers⟩ := h.goesOn
  refine ⟨hlog, hanswers, fun i query hpending => ?_⟩
  obtain ⟨job, hm, hig⟩ := hinv.tracks.job i (by rw [hpending]; exact Option.some_ne_none _)
  have hquery := (hinv.tracks.asker job hm i hig).1
  obtain rfl := Option.some.inj (hpending.symm.trans hquery)
  obtain ⟨rest, rfl⟩ := Multiset.exists_cons_of_mem hm
  refine ⟨job.addr, job.task, hinv.holds.task, hig, readQuery_eq hinv.holds, ?_⟩
  rw [hinv.holds.item]
  exact Option.some_ne_none _

/-- The answer is that of the host. -/
theorem resolutions_answered_hostA : ∃ s log, ResolutionRun oracleA opsA s log ∧
    Replays (fun _ => none) (log.map GaiEvent.change) s.pending ∧
      .answered connA hostA.query ⟨0, some ⟨4, 1⟩⟩ ∈ log := by
  obtain ⟨s, log, hrun, -, -, hm⟩ := resolutionRun_sample
  exact ⟨s, log, hrun, (resolutions_answered hrun).1, hm⟩

end Invariant

end Dvpn

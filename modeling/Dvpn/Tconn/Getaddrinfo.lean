import Dvpn.Basic
import Dvpn.Blocks

/-!
# Name resolution in threads (`iv_getaddrinfo.c`)

`iv_getaddrinfo_submit` copies what a request asks to a task of its own, and gives the task to a
work pool; one of the threads calls `getaddrinfo`, and the completion in the main thread calls the
handler of the request, unless it was cancelled. A task has a pointer to its request, and the
request one to its task.

* `Getaddrinfo γ` has the memory: what is allocated (`heap`), and the requests, which belong to
  their owners `γ`. It has the counter and the pool of `struct iv_getaddrinfo_thr_info`, and how far
  the threads are with the work items of the pool.
* What is read at an address where nothing is ends in `GaiCrash.freed`, as does a second `free`, and
  what ivykis does not allow in `GaiCrash.misuse`.
* A thread reads the task when it begins and until `getaddrinfo` returns; both ends are steps, so
  that the main thread can come in between.

A `GaiJob` is a task with all that it owns. `Getaddrinfo.Holds s jobs frame` says that the memory is
what `jobs` own and `frame`, nothing else, and that the counter and the pool go with `jobs`; there
is a lemma of that form for each function.
-/

namespace Dvpn

/-! ## The data -/

/-- The members of `struct addrinfo` that the source copies. -/
structure GaiHints where
  aiFamily : Int
  aiSocktype : Int
  aiProtocol : Int
  aiFlags : Int
  deriving DecidableEq

/-- What `getaddrinfo` is asked. -/
structure GaiQuery where
  node : Option Bytes
  service : Option Bytes
  hints : Option GaiHints
  deriving DecidableEq

/-- A list of addresses that `getaddrinfo` allocated: where it is, and how long. -/
structure GaiRes where
  addr : Nat
  addrs : Nat
  deriving DecidableEq

/-- What `getaddrinfo` returns. -/
structure GaiAnswer where
  ret : Int
  res : Option GaiRes
  deriving DecidableEq

/-- `struct iv_getaddrinfo`. -/
structure GaiRequest where
  query : GaiQuery
  task : Option Nat

/-- `struct iv_getaddrinfo_task`. -/
structure GaiTask (γ : Type) where
  ig : Option γ
  node : Option Nat
  service : Option Nat
  haveHints : Bool
  hints : GaiHints
  ret : Int
  res : Option GaiRes

/-- What `calloc` gives, with its `ig`. -/
def GaiTask.calloc {γ : Type} (ig : γ) : GaiTask γ where
  ig := some ig
  node := none
  service := none
  haveHints := false
  hints := ⟨0, 0, 0, 0⟩
  ret := 0
  res := none

/-- What is in a block of memory. -/
inductive GaiBlock (γ : Type) where
  | task (igt : GaiTask γ)
  | str (s : Bytes)
  | res (addrs : Nat)

/-- How far a thread is with a work item. -/
inductive GaiWork where
  | queued
  | running
  | done
  deriving DecidableEq

inductive GaiCrash where
  | freed
  | misuse
  deriving DecidableEq

/-- What `calloc` and the calls of `strdup` return. -/
structure GaiMallocs where
  igt : Option Nat
  node : Option Nat
  service : Option Nat

/-- The memory, the requests, and `struct iv_getaddrinfo_thr_info`. -/
structure Getaddrinfo (γ : Type) where
  heap : Blocks Nat (GaiBlock γ)
  requests : γ → Option GaiRequest
  numRequests : Int
  pool : Bool
  items : Blocks Nat GaiWork

/-! ## The code -/

namespace Getaddrinfo

variable {γ : Type}

/-- `iv_getaddrinfo_tls_init_thread` (`iv_getaddrinfo.c:35-46`). -/
def init : Getaddrinfo γ where
  heap _ := none
  requests _ := none
  numRequests := 0
  pool := false
  items _ := none

def readTask (s : Getaddrinfo γ) (t : Nat) : Except GaiCrash (GaiTask γ) :=
  match s.heap t with
  | some (.task igt) => .ok igt
  | _ => .error .freed

def readStr (s : Getaddrinfo γ) : Option Nat → Except GaiCrash (Option Bytes)
  | none => .ok none
  | some p =>
    match s.heap p with
    | some (.str str) => .ok (some str)
    | _ => .error .freed

def readRequest (s : Getaddrinfo γ) (ig : γ) : Except GaiCrash GaiRequest :=
  match s.requests ig with
  | some request => .ok request
  | none => .error .freed

/-- `free`. -/
def free (s : Getaddrinfo γ) : Option Nat → Except GaiCrash (Getaddrinfo γ)
  | none => .ok s
  | some p =>
    match s.heap.free p with
    | some heap => .ok { s with heap := heap }
    | none => .error .freed

/-- `freeaddrinfo`. -/
def freeaddrinfo (s : Getaddrinfo γ) (res : Option GaiRes) : Except GaiCrash (Getaddrinfo γ) :=
  s.free (res.map GaiRes.addr)

/-- `iv_work_pool_create`. -/
def workPoolCreate (s : Getaddrinfo γ) : Except GaiCrash (Getaddrinfo γ) :=
  if s.pool then .error .misuse else .ok { s with pool := true }

/-- `iv_work_pool_put`. -/
def workPoolPut (s : Getaddrinfo γ) : Except GaiCrash (Getaddrinfo γ) :=
  if s.pool then .ok { s with pool := false } else .error .misuse

/-- `iv_work_pool_submit_work`. -/
def workPoolSubmit (s : Getaddrinfo γ) (igt : Nat) : Except GaiCrash (Getaddrinfo γ) :=
  if s.pool ∧ (s.items igt).isNone then .ok { s with items := s.items.store igt .queued }
  else .error .misuse

/-- `strdup` of a string of the request, if it has one; `none` when it fails. -/
def strdup (s : Getaddrinfo γ) (src : Option Bytes) (p : Option Nat) :
    Option (Getaddrinfo γ × Option Nat) :=
  match src, p with
  | none, _ => some (s, none)
  | some str, some p => some ({ s with heap := s.heap.store p (.str str) }, some p)
  | some _, none => none

/-- The count of the requests (`iv_getaddrinfo.c:145-149`). -/
def submitWork (s : Getaddrinfo γ) (igt : Nat) : Except GaiCrash (Getaddrinfo γ) := do
  let s' := { s with numRequests := s.numRequests + 1 }
  let s' ← if s.numRequests = 0 then s'.workPoolCreate else .ok s'
  s'.workPoolSubmit igt

section Main

variable [DecidableEq γ]

/-- `iv_getaddrinfo_submit` (`iv_getaddrinfo.c:103-154`), and what it returns. -/
def ivGetaddrinfoSubmit (s : Getaddrinfo γ) (ig : γ) (m : GaiMallocs) :
    Except GaiCrash (Getaddrinfo γ × Int) :=
  match m.igt with
  | none => .ok (s, -1)
  | some igt => do
    let request ← s.readRequest ig
    let task := GaiTask.calloc ig
    let s := { s with heap := s.heap.store igt (.task task) }
    match s.strdup request.query.node m.node with
    | none =>
      let s ← s.free (some igt)
      return (s, -1)
    | some (s, node) =>
      match s.strdup request.query.service m.service with
      | none =>
        let s ← s.free node
        let s ← s.free (some igt)
        return (s, -1)
      | some (s, service) =>
        let task := { task with
          node := node
          service := service
          haveHints := request.query.hints.isSome
          hints := request.query.hints.getD task.hints }
        let s ← { s with heap := s.heap.store igt (.task task) }.submitWork igt
        return ({ s with
          requests := Function.update s.requests ig (some { request with task := some igt }) }, 0)

/-- `iv_getaddrinfo_cancel` (`iv_getaddrinfo.c:156-162`). -/
def ivGetaddrinfoCancel (s : Getaddrinfo γ) (ig : γ) : Except GaiCrash (Getaddrinfo γ) := do
  let request ← s.readRequest ig
  match request.task with
  | none => .error .freed
  | some t =>
    let igt ← s.readTask t
    return { s with
      requests := Function.update s.requests ig (some { request with task := none })
      heap := s.heap.store t (.task { igt with ig := none }) }

end Main

/-- A thread takes a work item of the pool. -/
def beginWork (s : Getaddrinfo γ) (t : Nat) : Except GaiCrash (Getaddrinfo γ) :=
  match s.items t with
  | some .queued => .ok { s with items := s.items.store t .running }
  | _ => .error .misuse

/-- What the thread passes to `getaddrinfo`. -/
def readQuery (s : Getaddrinfo γ) (t : Nat) : Except GaiCrash GaiQuery := do
  let igt ← s.readTask t
  let node ← s.readStr igt.node
  let service ← s.readStr igt.service
  return ⟨node, service, if igt.haveHints then some igt.hints else none⟩

/-- `iv_getaddrinfo_task_work` (`iv_getaddrinfo.c:74-80`). `getaddrinfo` allocates what it answers,
and reads what it is asked until then. -/
def ivGetaddrinfoTaskWork (s : Getaddrinfo γ) (t : Nat) (answer : GaiAnswer) :
    Except GaiCrash (Getaddrinfo γ × GaiQuery) := do
  let query ← s.readQuery t
  let heap := match answer.res with
    | none => s.heap
    | some res => s.heap.store res.addr (.res res.addrs)
  let igt ← s.readTask t
  return ({ s with
    heap := heap.store t (.task { igt with ret := answer.ret, res := answer.res })
    items := s.items.store t .done }, query)

/-- The main thread takes a work item that is done. -/
def endWork (s : Getaddrinfo γ) (t : Nat) : Except GaiCrash (Getaddrinfo γ) :=
  match s.items t with
  | some .done => .ok { s with items := Function.update s.items t none }
  | _ => .error .misuse

/-- The rest of the completion, behind the handler (`iv_getaddrinfo.c:94-100`). -/
def freeTask (s : Getaddrinfo γ) (t : Nat) : Except GaiCrash (Getaddrinfo γ) := do
  let igt ← s.readTask t
  let s ← s.free igt.node
  let s ← s.free igt.service
  let s ← s.free (some t)
  let s := { s with numRequests := s.numRequests - 1 }
  if s.numRequests = 0 then s.workPoolPut else .ok s

section Complete

variable {σ : Type}
  (handler : γ → GaiAnswer → Getaddrinfo γ × σ → Except GaiCrash (Getaddrinfo γ × σ))
  (s : Getaddrinfo γ × σ)

/-- The request gets the answer, if it is still there (`iv_getaddrinfo.c:88-92`). -/
def answerTask (igt : GaiTask γ) : Except GaiCrash (Getaddrinfo γ × σ) :=
  match igt.ig with
  | some ig => do
    let _ ← s.1.readRequest ig
    handler ig ⟨igt.ret, igt.res⟩ s
  | none => do
    let gai ← s.1.freeaddrinfo igt.res
    return (gai, s.2)

/-- `iv_getaddrinfo_task_complete` (`iv_getaddrinfo.c:82-101`), with the handlers of the
requests. -/
def ivGetaddrinfoTaskComplete (t : Nat) : Except GaiCrash (Getaddrinfo γ × σ) := do
  let gai ← s.1.endWork t
  let igt ← gai.readTask t
  let s ← answerTask handler (gai, s.2) igt
  let gai ← s.1.freeTask t
  return (gai, s.2)

end Complete

end Getaddrinfo

/-! ## What a task owns -/

/-- How far the resolution is, with the answer. -/
inductive GaiProgress where
  | queued
  | running
  | done (answer : GaiAnswer)
  deriving DecidableEq

def GaiProgress.work : GaiProgress → GaiWork
  | .queued => .queued
  | .running => .running
  | .done _ => .done

theorem GaiProgress.of_work_queued {p : GaiProgress} (h : p.work = .queued) : p = .queued := by
  cases p with
  | queued => rfl
  | running => cases h
  | done answer => cases h

theorem GaiProgress.of_work_running {p : GaiProgress} (h : p.work = .running) : p = .running := by
  cases p with
  | queued => cases h
  | running => rfl
  | done answer => cases h

theorem GaiProgress.of_work_done {p : GaiProgress} (h : p.work = .done) :
    ∃ answer, p = .done answer := by
  cases p with
  | queued => cases h
  | running => cases h
  | done answer => exact ⟨answer, rfl⟩

/-- What the members `ret` and `res` of the task are. -/
def GaiProgress.answer : GaiProgress → GaiAnswer
  | .done answer => answer
  | _ => ⟨0, none⟩

/-- A task with its copies and the answer. -/
structure GaiJob (γ : Type) where
  addr : Nat
  ig : Option γ
  node : Option (Nat × Bytes)
  service : Option (Nat × Bytes)
  hints : Option GaiHints
  progress : GaiProgress

section Blocks

variable {γ : Type}

def strBlock : Option (Nat × Bytes) → Multiset (Nat × GaiBlock γ)
  | none => 0
  | some (p, s) => {(p, .str s)}

def resBlock : Option GaiRes → Multiset (Nat × GaiBlock γ)
  | none => 0
  | some res => {(res.addr, .res res.addrs)}

namespace GaiJob

variable (job : GaiJob γ)

def query : GaiQuery := ⟨job.node.map Prod.snd, job.service.map Prod.snd, job.hints⟩

def task : GaiTask γ where
  ig := job.ig
  node := job.node.map Prod.fst
  service := job.service.map Prod.fst
  haveHints := job.hints.isSome
  hints := job.hints.getD ⟨0, 0, 0, 0⟩
  ret := job.progress.answer.ret
  res := job.progress.answer.res

/-- The task and the copies. -/
def copies : Multiset (Nat × GaiBlock γ) :=
  {(job.addr, .task job.task)} + (strBlock job.node + strBlock job.service)

def blocks : Multiset (Nat × GaiBlock γ) := job.copies + resBlock job.progress.answer.res

def item : Nat × GaiWork := (job.addr, job.progress.work)

end GaiJob

end Blocks

namespace Getaddrinfo

variable {γ : Type} {s : Getaddrinfo γ} {jobs : Multiset (GaiJob γ)} {job : GaiJob γ}
  {frame blocks : Multiset (Nat × GaiBlock γ)} {t : Nat} {ig : γ} {request : GaiRequest}

/-- The memory is what the jobs own, and `frame`. -/
structure Holds (s : Getaddrinfo γ) (jobs : Multiset (GaiJob γ))
    (frame : Multiset (Nat × GaiBlock γ)) : Prop where
  heap : Owns s.heap ((jobs.map GaiJob.blocks).sum + frame)
  items : Owns s.items (jobs.map GaiJob.item)
  numRequests : s.numRequests = jobs.card
  pool : s.pool = true ↔ jobs ≠ 0

theorem holds_init : (init : Getaddrinfo γ).Holds 0 0 :=
  ⟨Owns.empty, Owns.empty, rfl, iff_of_false Bool.false_ne_true (fun h => h rfl)⟩

theorem sum_blocks_cons :
    ((job ::ₘ jobs).map GaiJob.blocks).sum + frame =
      job.blocks + ((jobs.map GaiJob.blocks).sum + frame) := by
  rw [Multiset.map_cons, Multiset.sum_cons, add_assoc]

/-! ### Reading and freeing -/

theorem readTask_eq (h : s.heap t = some (.task job.task)) : s.readTask t = .ok job.task := by
  rw [readTask, h]

theorem readStr_eq {p : Option (Nat × Bytes)} (h : Owns s.heap blocks)
    (hp : strBlock p ≤ blocks) : s.readStr (p.map Prod.fst) = .ok (p.map Prod.snd) := by
  rcases p with - | ⟨a, str⟩
  · rfl
  · have hread := h.read (Multiset.singleton_le.mp hp)
    rw [Option.map_some, readStr, hread]
    rfl

/-- `free` of a block that is there. -/
theorem free_some {a : Nat} {b : GaiBlock γ} (h : Owns s.heap ({(a, b)} + blocks)) :
    ∃ heap, s.free (some a) = .ok { s with heap := heap } ∧ Owns heap blocks := by
  rw [Multiset.singleton_add] at h
  obtain ⟨heap, hfree, h'⟩ := h.free
  exact ⟨heap, by rw [free, hfree], h'⟩

theorem free_str {p : Option (Nat × Bytes)} (h : Owns s.heap (strBlock p + blocks)) :
    ∃ heap, s.free (p.map Prod.fst) = .ok { s with heap := heap } ∧ Owns heap blocks := by
  rcases p with - | ⟨a, str⟩
  · exact ⟨s.heap, rfl, by rwa [strBlock, zero_add] at h⟩
  · exact free_some h

/-- **`freeaddrinfo`** of what is there. -/
theorem freeaddrinfo_eq {res : Option GaiRes} (h : Owns s.heap (resBlock res + blocks)) :
    ∃ heap, s.freeaddrinfo res = .ok { s with heap := heap } ∧ Owns heap blocks := by
  rcases res with - | res
  · exact ⟨s.heap, rfl, by rwa [resBlock, zero_add] at h⟩
  · exact free_some h

/-- The task of a job is at the head of what is owned. -/
theorem sum_blocks_task : ((job ::ₘ jobs).map GaiJob.blocks).sum + frame =
    (job.addr, .task job.task) ::ₘ (strBlock job.node + strBlock job.service +
      resBlock job.progress.answer.res + ((jobs.map GaiJob.blocks).sum + frame)) := by
  rw [sum_blocks_cons, GaiJob.blocks, GaiJob.copies, add_assoc, add_assoc, Multiset.singleton_add,
    ← add_assoc (_ + _)]

theorem Holds.task (h : s.Holds (job ::ₘ jobs) frame) :
    s.heap job.addr = some (.task job.task) := by
  refine h.heap.read ?_
  rw [sum_blocks_task]
  exact Multiset.mem_cons_self _ _

theorem Holds.item (h : s.Holds (job ::ₘ jobs) frame) :
    s.items job.addr = some job.progress.work := by
  refine h.items.read ?_
  rw [Multiset.map_cons]
  exact Multiset.mem_cons_self _ _

/-- A step of one job leaves the counter and the pool. -/
theorem Holds.step (h : s.Holds (job ::ₘ jobs) frame) {s' : Getaddrinfo γ} {job' : GaiJob γ}
    (hheap : Owns s'.heap (((job' ::ₘ jobs).map GaiJob.blocks).sum + frame))
    (hitems : Owns s'.items ((job'.addr, job'.progress.work) ::ₘ jobs.map GaiJob.item))
    (hnum : s'.numRequests = s.numRequests) (hpool : s'.pool = s.pool) :
    s'.Holds (job' ::ₘ jobs) frame := by
  refine ⟨hheap, by rwa [Multiset.map_cons], ?_, ?_⟩
  · rw [hnum, h.numRequests, Multiset.card_cons, Multiset.card_cons]
  · rw [hpool, h.pool]
    exact iff_of_true Multiset.cons_ne_zero Multiset.cons_ne_zero

theorem Holds.items_cons (h : s.Holds (job ::ₘ jobs) frame) :
    Owns s.items ((job.addr, job.progress.work) ::ₘ jobs.map GaiJob.item) := by
  have hitems := h.items
  rw [Multiset.map_cons] at hitems
  exact hitems

/-! ### Submitting -/

/-- The block that `strdup` made. -/
def storeStr (heap : Blocks Nat (GaiBlock γ)) : Option (Nat × Bytes) → Blocks Nat (GaiBlock γ)
  | none => heap
  | some (p, str) => heap.store p (.str str)

theorem owns_storeStr {heap : Blocks Nat (GaiBlock γ)} {p : Option (Nat × Bytes)}
    (h : Owns heap blocks) (hfree : ∀ a ∈ p.map Prod.fst, heap a = none) :
    Owns (storeStr heap p) (strBlock p + blocks) := by
  rcases p with - | ⟨a, str⟩
  · rwa [strBlock, zero_add]
  · rw [strBlock, Multiset.singleton_add]
    exact h.alloc _ (hfree a rfl)

theorem free_storeStr {p : Option (Nat × Bytes)} (hfree : ∀ a ∈ p.map Prod.fst, s.heap a = none) :
    { s with heap := storeStr s.heap p }.free (p.map Prod.fst) = .ok s := by
  rcases p with - | ⟨a, str⟩
  · rfl
  · have hback := Blocks.free_store (b := GaiBlock.str str) (hfree a rfl)
    simp only [storeStr, Option.map_some, free, hback]

/-- **`strdup`** fails, or makes a copy where malloc says. -/
theorem strdup_spec (s : Getaddrinfo γ) (src : Option Bytes) (p : Option Nat) :
    s.strdup src p = none ∨ ∃ q : Option (Nat × Bytes),
      s.strdup src p = some ({ s with heap := storeStr s.heap q }, q.map Prod.fst) ∧
        q.map Prod.snd = src ∧ ∀ a ∈ q.map Prod.fst, p = some a := by
  rcases src with - | str
  · exact Or.inr ⟨none, rfl, rfl, fun a ha => nomatch ha⟩
  · rcases p with - | p
    · exact Or.inl rfl
    · exact Or.inr ⟨some (p, str), rfl, rfl, fun a ha => ha⟩

/-- What malloc returns was free. -/
structure Fresh (m : GaiMallocs) (heap : Blocks Nat (GaiBlock γ)) : Prop where
  igt : ∀ a ∈ m.igt, heap a = none
  node : ∀ a ∈ m.node, heap a = none ∧ a ∉ m.igt
  service : ∀ a ∈ m.service, heap a = none ∧ a ∉ m.igt ∧ a ∉ m.node

/-- A task is where its work item is. -/
theorem Holds.items_fresh (h : s.Holds jobs frame) (hfree : s.heap t = none) :
    s.items t = none := by
  rw [h.items.fresh, Multiset.map_map]
  intro hm
  obtain ⟨job, hjob, rfl⟩ := Multiset.mem_map.mp hm
  refine absurd ((h.heap.read ?_).symm.trans hfree) (Option.some_ne_none (.task job.task))
  refine Multiset.mem_add.mpr (Or.inl (Multiset.mem_of_le
    (Multiset.le_sum_of_mem (Multiset.mem_map_of_mem GaiJob.blocks hjob)) ?_))
  rw [GaiJob.blocks, GaiJob.copies, add_assoc]
  exact Multiset.mem_add.mpr (Or.inl (Multiset.mem_singleton_self _))

/-- The pool is there when the work is submitted. -/
theorem submitWork_eq (h : s.Holds jobs frame) (hitem : s.items t = none)
    (heap : Blocks Nat (GaiBlock γ)) :
    { s with heap := heap }.submitWork t = .ok { s with
      heap := heap
      numRequests := s.numRequests + 1
      pool := true
      items := s.items.store t .queued } := by
  have hpool := h.pool
  unfold submitWork
  by_cases hjobs : jobs = 0
  · have hnum : s.numRequests = 0 := by rw [h.numRequests, hjobs]; rfl
    have hnopool : ¬ s.pool = true := fun hp => hpool.mp hp hjobs
    simp only [if_pos hnum, workPoolCreate, if_neg hnopool, ok_bind, workPoolSubmit, hitem,
      Option.isNone_none, and_self, if_true]
  · have hnum : s.numRequests ≠ 0 := by
      rw [h.numRequests]
      exact Int.natCast_ne_zero.mpr fun hc => hjobs (Multiset.card_eq_zero.mp hc)
    simp only [if_neg hnum, ok_bind, workPoolSubmit, hpool.mpr hjobs, hitem, Option.isNone_none,
      and_self, if_true]

section Main

variable [DecidableEq γ]

/-- **`iv_getaddrinfo_submit`** leaves everything as it was, or there is a new job that asks what
the request does. -/
theorem ivGetaddrinfoSubmit_spec (h : s.Holds jobs frame) (hreq : s.requests ig = some request)
    {m : GaiMallocs} (hm : Fresh m s.heap) :
    s.ivGetaddrinfoSubmit ig m = .ok (s, -1) ∨ ∃ s' job,
      s.ivGetaddrinfoSubmit ig m = .ok (s', 0) ∧ s'.Holds (job ::ₘ jobs) frame ∧
        job.ig = some ig ∧ job.query = request.query ∧ job.progress = .queued ∧
        s'.requests =
          Function.update s.requests ig (some { request with task := some job.addr }) := by
  rcases m with ⟨- | igt, mnode, mservice⟩
  · exact Or.inl rfl
  have hnone : s.heap igt = none := hm.igt igt rfl
  have hrequest : s.readRequest ig = .ok request := by rw [readRequest, hreq]
  have hfree₁ : { s with heap := s.heap.store igt (.task (GaiTask.calloc ig)) }.free (some igt) =
      .ok s := by
    simp only [free, Blocks.free_store hnone]
  unfold ivGetaddrinfoSubmit
  simp only [hrequest, ok_bind]
  rcases strdup_spec { s with heap := s.heap.store igt (.task (GaiTask.calloc ig)) }
    request.query.node mnode with hfail | ⟨node, hdup, hnode, hpnode⟩
  · simp only [hfail, hfree₁, ok_bind]
    exact Or.inl rfl
  have hnodeFree : ∀ a ∈ node.map Prod.fst,
      (s.heap.store igt (.task (GaiTask.calloc ig))) a = none := by
    intro a ha
    obtain ⟨hfree, hne⟩ := hm.node a (hpnode a ha)
    rw [Blocks.store, Function.update_of_ne fun e => hne (congrArg some e.symm), hfree]
  simp only [hdup]
  rcases strdup_spec { s with
      heap := storeStr (s.heap.store igt (.task (GaiTask.calloc ig))) node }
    request.query.service mservice with hfail | ⟨service, hdup', hservice, hpservice⟩
  · have hfree₂ := free_storeStr
      (s := { s with heap := s.heap.store igt (.task (GaiTask.calloc ig)) }) hnodeFree
    simp only [hfail, hfree₂, hfree₁, ok_bind]
    exact Or.inl rfl
  have hserviceFree : ∀ a ∈ service.map Prod.fst,
      storeStr (s.heap.store igt (.task (GaiTask.calloc ig))) node a = none := by
    intro a ha
    obtain ⟨hfree, hne, hne'⟩ := hm.service a (hpservice a ha)
    rcases node with - | ⟨n, str⟩
    · rw [storeStr, Blocks.store, Function.update_of_ne fun e => hne (congrArg some e.symm), hfree]
    · rw [storeStr, Blocks.store, Function.update_of_ne, Blocks.store,
        Function.update_of_ne fun e => hne (congrArg some e.symm), hfree]
      rintro rfl
      exact hne' (hpnode a rfl)
  have hheap := owns_storeStr (owns_storeStr (h.heap.alloc (.task (GaiTask.calloc ig)) hnone)
    hnodeFree) hserviceFree
  simp only [hdup']
  rw [submitWork_eq h (h.items_fresh hnone)]
  let job : GaiJob γ := ⟨igt, some ig, node, service, request.query.hints, .queued⟩
  refine Or.inr ⟨_, job, rfl, ⟨?_, ?_, ?_, ?_⟩, rfl, ?_, rfl, rfl⟩
  · rw [← Multiset.singleton_add, ← add_assoc, ← add_assoc, add_comm _ {_}, add_assoc, add_assoc,
      Multiset.singleton_add] at hheap
    have hwrite := hheap.write (.task job.task)
    rw [sum_blocks_cons, GaiJob.blocks, GaiJob.copies]
    have hres : (resBlock job.progress.answer.res : Multiset (Nat × GaiBlock γ)) = 0 := rfl
    rw [hres, add_zero, add_assoc, add_comm (strBlock job.node), add_assoc,
      Multiset.singleton_add]
    exact hwrite
  · rw [Multiset.map_cons]
    exact h.items.alloc _ (h.items_fresh hnone)
  · rw [Multiset.card_cons, Nat.cast_add, h.numRequests]
    rfl
  · exact iff_of_true rfl (Multiset.cons_ne_zero)
  · rw [GaiJob.query]
    dsimp only [job]
    rw [hnode, hservice]

/-! ### Cancelling -/

/-- **`iv_getaddrinfo_cancel`** leaves the job without a request. -/
theorem ivGetaddrinfoCancel_spec (h : s.Holds (job ::ₘ jobs) frame)
    (hreq : s.requests ig = some request) (htask : request.task = some job.addr) :
    ∃ s', s.ivGetaddrinfoCancel ig = .ok s' ∧ s'.Holds ({ job with ig := none } ::ₘ jobs) frame ∧
      s'.requests = Function.update s.requests ig (some { request with task := none }) := by
  have hrequest : s.readRequest ig = .ok request := by rw [readRequest, hreq]
  unfold ivGetaddrinfoCancel
  simp only [hrequest, ok_bind, htask, readTask_eq h.task]
  have hheap := h.heap
  rw [sum_blocks_task] at hheap
  refine ⟨_, rfl, h.step ?_ h.items_cons rfl rfl, rfl⟩
  rw [sum_blocks_task]
  exact hheap.write (.task { job.task with ig := none })

end Main

/-! ### The threads -/

/-- **A thread takes a task.** -/
theorem beginWork_spec (h : s.Holds (job ::ₘ jobs) frame) (hprogress : job.progress = .queued) :
    ∃ s', s.beginWork job.addr = .ok s' ∧
      s'.Holds ({ job with progress := .running } ::ₘ jobs) frame ∧ s'.requests = s.requests := by
  have hitem := h.item
  rw [hprogress] at hitem
  rw [beginWork, hitem]
  refine ⟨_, rfl, h.step ?_ (h.items_cons.write _) rfl rfl, rfl⟩
  have hheap := h.heap
  rw [sum_blocks_cons, GaiJob.blocks, GaiJob.copies, GaiJob.task, hprogress] at hheap
  rw [sum_blocks_cons]
  exact hheap

/-- What a thread passes to `getaddrinfo` is what the request asked. -/
theorem readQuery_eq (h : s.Holds (job ::ₘ jobs) frame) : s.readQuery job.addr = .ok job.query := by
  have hheap := h.heap
  rw [sum_blocks_task] at hheap
  have hnode : strBlock job.node ≤ (job.addr, .task job.task) ::ₘ (strBlock job.node +
      strBlock job.service + resBlock job.progress.answer.res +
        ((jobs.map GaiJob.blocks).sum + frame)) := by
    rw [add_assoc, add_assoc]
    exact (Multiset.le_add_right _ _).trans (Multiset.le_cons_self _ _)
  have hservice : strBlock job.service ≤ (job.addr, .task job.task) ::ₘ (strBlock job.node +
      strBlock job.service + resBlock job.progress.answer.res +
        ((jobs.map GaiJob.blocks).sum + frame)) := by
    rw [add_comm (strBlock job.node), add_assoc, add_assoc]
    exact (Multiset.le_add_right _ _).trans (Multiset.le_cons_self _ _)
  have hhints : (if job.task.haveHints then some job.task.hints else none) = job.hints := by
    rw [GaiJob.task]
    rcases job.hints with - | hints
    · rfl
    · rfl
  unfold readQuery
  rw [readTask_eq h.task, ok_bind, hhints]
  have hnode' : s.readStr job.task.node = .ok (job.node.map Prod.snd) := readStr_eq hheap hnode
  have hservice' : s.readStr job.task.service = .ok (job.service.map Prod.snd) :=
    readStr_eq hheap hservice
  rw [hnode', ok_bind, hservice', ok_bind]
  rfl

/-- **`iv_getaddrinfo_task_work`** asks what the request asked, and keeps the answer. -/
theorem ivGetaddrinfoTaskWork_spec (h : s.Holds (job ::ₘ jobs) frame)
    (hprogress : job.progress = .running) {answer : GaiAnswer}
    (hfresh : ∀ res ∈ answer.res, s.heap res.addr = none) :
    ∃ s', s.ivGetaddrinfoTaskWork job.addr answer = .ok (s', job.query) ∧
      s'.Holds ({ job with progress := .done answer } ::ₘ jobs) frame ∧
      s'.requests = s.requests := by
  have hheap := h.heap
  have hnores : (resBlock job.progress.answer.res : Multiset (Nat × GaiBlock γ)) = 0 := by
    rw [hprogress]
    rfl
  rw [sum_blocks_task, hnores, add_zero] at hheap
  unfold ivGetaddrinfoTaskWork
  simp only [readQuery_eq h, ok_bind, readTask_eq h.task]
  refine ⟨_, rfl, h.step ?_ (h.items_cons.write _) rfl rfl, rfl⟩
  rw [sum_blocks_task]
  have halloc : Owns (match answer.res with
      | none => s.heap
      | some res => s.heap.store res.addr (.res res.addrs))
      ((job.addr, .task job.task) ::ₘ (strBlock job.node + strBlock job.service +
        resBlock answer.res + ((jobs.map GaiJob.blocks).sum + frame))) := by
    rcases hres : answer.res with - | res
    · rwa [resBlock, add_zero]
    · have hnew := hheap.alloc (.res res.addrs) (hfresh res hres)
      rw [resBlock, add_assoc (_ + _), Multiset.singleton_add, Multiset.add_cons,
        Multiset.cons_swap]
      exact hnew
  exact halloc.write _

/-! ### The completion -/

/-- The task goes away, and the pool with the last one. -/
theorem freeTask_spec (hheap : Owns s.heap (job.copies + ((jobs.map GaiJob.blocks).sum + frame)))
    (hitems : Owns s.items (jobs.map GaiJob.item)) (hnum : s.numRequests = jobs.card + 1)
    (hpool : s.pool = true) :
    ∃ s', s.freeTask job.addr = .ok s' ∧ s'.Holds jobs frame ∧ s'.requests = s.requests := by
  rw [GaiJob.copies, add_assoc] at hheap
  have htask : s.heap job.addr = some (.task job.task) :=
    hheap.read (Multiset.mem_add.mpr (Or.inl (Multiset.mem_singleton_self _)))
  rw [← add_assoc, add_comm {_}, add_assoc, add_assoc] at hheap
  obtain ⟨heap₁, hfree₁, hheap₁⟩ := free_str hheap
  obtain ⟨heap₂, hfree₂, hheap₂⟩ := free_str (s := { s with heap := heap₁ }) hheap₁
  obtain ⟨heap₃, hfree₃, hheap₃⟩ := free_some (s := { s with heap := heap₂ }) hheap₂
  have hnode : s.free job.task.node = .ok { s with heap := heap₁ } := hfree₁
  have hservice : { s with heap := heap₁ }.free job.task.service = .ok { s with heap := heap₂ } :=
    hfree₂
  have hleft : s.numRequests - 1 = jobs.card := by rw [hnum, add_sub_cancel_right]
  unfold freeTask
  simp only [readTask_eq htask, ok_bind, hnode, hservice, hfree₃, hleft]
  by_cases hjobs : jobs = 0
  · subst hjobs
    rw [if_pos (by rw [Multiset.card_zero]; rfl), workPoolPut, if_pos hpool]
    exact ⟨_, rfl, ⟨hheap₃, hitems, rfl, iff_of_false Bool.false_ne_true fun h => h rfl⟩, rfl⟩
  · rw [if_neg fun h => hjobs (Multiset.card_eq_zero.mp (Int.natCast_eq_zero.mp h))]
    exact ⟨_, rfl, ⟨hheap₃, hitems, rfl, iff_of_true hpool hjobs⟩, rfl⟩

/-- A work item that is done leaves the pool; its job is still there. -/
theorem endWork_spec {answer : GaiAnswer} (h : s.Holds (job ::ₘ jobs) frame)
    (hprogress : job.progress = .done answer) :
    ∃ items, s.endWork job.addr = .ok { s with items := items } ∧
      Owns items (jobs.map GaiJob.item) := by
  have hitem := h.item
  rw [hprogress] at hitem
  obtain ⟨items, hfree, hitems'⟩ := h.items_cons.free
  rw [Blocks.free, hitem, Option.some.injEq] at hfree
  exact ⟨items, by rw [endWork, hitem, hfree]; rfl, hitems'⟩

/-- What a job owns at the completion. -/
theorem Holds.completed {answer : GaiAnswer} (h : s.Holds (job ::ₘ jobs) frame)
    (hprogress : job.progress = .done answer) :
    Owns s.heap (resBlock answer.res + (job.copies + ((jobs.map GaiJob.blocks).sum + frame))) ∧
      s.numRequests = jobs.card + 1 ∧ s.pool = true := by
  refine ⟨?_, ?_, h.pool.mpr Multiset.cons_ne_zero⟩
  · have hheap := h.heap
    rw [sum_blocks_cons, GaiJob.blocks, hprogress, add_comm job.copies, add_assoc] at hheap
    exact hheap
  · rw [h.numRequests, Multiset.card_cons]
    rfl

variable {σ : Type}
  (handler : γ → GaiAnswer → Getaddrinfo γ × σ → Except GaiCrash (Getaddrinfo γ × σ)) (x : σ)

/-- **The completion of a request that was cancelled.** -/
theorem complete_cancelled {answer : GaiAnswer} (h : s.Holds (job ::ₘ jobs) frame)
    (hprogress : job.progress = .done answer) (hig : job.ig = none) :
    ∃ s', ivGetaddrinfoTaskComplete handler (s, x) job.addr = .ok (s', x) ∧ s'.Holds jobs frame ∧
      s'.requests = s.requests := by
  obtain ⟨items, hend, hitems⟩ := endWork_spec h hprogress
  obtain ⟨hheap, hnum, hpool⟩ := h.completed hprogress
  obtain ⟨heap, hfree, hheap'⟩ := freeaddrinfo_eq (s := { s with items := items }) hheap
  obtain ⟨s', htask, hs', hreq⟩ := freeTask_spec (s := { s with items := items, heap := heap })
    hheap' hitems hnum hpool
  have hread : { s with items := items }.readTask job.addr = .ok job.task := readTask_eq h.task
  have hres : job.task.res = answer.res := by rw [GaiJob.task, hprogress]; rfl
  have hnone : job.task.ig = none := hig
  have hanswer : answerTask handler ({ s with items := items }, x) job.task =
      .ok ({ s with items := items, heap := heap }, x) := by
    simp only [answerTask, hnone, hres, hfree, ok_bind]
    rfl
  unfold ivGetaddrinfoTaskComplete
  simp only [hend, ok_bind, hread, hanswer, htask]
  exact ⟨s', rfl, hs', hreq⟩

/-- **The completion of a request** that is still there. The handler gets what `getaddrinfo`
answered, and owns it from then on. -/
theorem complete_handled {answer : GaiAnswer} (x' : σ) (frame' : Multiset (Nat × GaiBlock γ))
    (h : s.Holds (job ::ₘ jobs) frame) (hprogress : job.progress = .done answer)
    (hig : job.ig = some ig) (hreq : s.requests ig = some request)
    (hhandler : ∀ gai : Getaddrinfo γ, ∀ rest, gai.requests = s.requests →
      Owns gai.heap (resBlock answer.res + (frame + rest)) →
      ∃ heap, handler ig answer (gai, x) = .ok ({ gai with heap := heap }, x') ∧
        Owns heap (frame' + rest)) :
    ∃ s', ivGetaddrinfoTaskComplete handler (s, x) job.addr = .ok (s', x') ∧
      s'.Holds jobs frame' ∧ s'.requests = s.requests := by
  obtain ⟨items, hend, hitems⟩ := endWork_spec h hprogress
  obtain ⟨hheap, hnum, hpool⟩ := h.completed hprogress
  rw [← add_assoc job.copies, add_comm _ frame] at hheap
  obtain ⟨heap, hrun, hheap'⟩ := hhandler { s with items := items } _ rfl hheap
  rw [add_comm frame', add_assoc] at hheap'
  obtain ⟨s', htask, hs', hreq'⟩ := freeTask_spec (s := { s with items := items, heap := heap })
    hheap' hitems hnum hpool
  have hread : { s with items := items }.readTask job.addr = .ok job.task := readTask_eq h.task
  have hrequest : { s with items := items }.readRequest ig = .ok request := by
    simp only [readRequest, hreq]
  have hanswer : (⟨job.task.ret, job.task.res⟩ : GaiAnswer) = answer := by
    rw [GaiJob.task, hprogress]
    rfl
  have hsome : job.task.ig = some ig := hig
  have hcall : answerTask handler ({ s with items := items }, x) job.task =
      .ok ({ s with items := items, heap := heap }, x') := by
    simp only [answerTask, hsome, hrequest, ok_bind, hanswer, hrun]
  unfold ivGetaddrinfoTaskComplete
  simp only [hend, ok_bind, hread, hcall, htask]
  exact ⟨s', rfl, hs', hreq'⟩

end Getaddrinfo

end Dvpn

import Dvpn.Basic
import Dvpn.Tconn.Connect

/-!
# Losses and retries of an outgoing connection

Over whole runs of a `tconn_connect`: what its owner is told (`Paired`), and what a lost connection
leads to (`OneRetryPerLoss`). Each holds in exactly the runs without the call that goes wrong:

* `paired_iff`: `new_conn` returns NULL. `schedule_retry` finds the state `STATE_CONNECTED`, and
  tells the owner that NULL is disconnected.
* `one_retry_iff`: `tconn_record_send` fails in `tconn_connect_record_send`. The callback of the
  lower layer has handled the loss already when `tconn_connect_one_record_send` returns -1.
-/

namespace Dvpn

open TconnConnect

variable {tc tc' : TconnConnect} {calls calls' : List TconnCall} {log : List TconnEntry}
  {events : List TconnEvent} {submitted : Bool} {k : Nat}

/-- What a run has come to: the invariant, the end, or a loss that is handled twice. -/
def Tracked (tc : TconnConnect) (log : List TconnEntry) : Prop :=
  tc.Inv ∨ tc.destroyed = true ∧ tc.reg = .empty ∨
    tc.reg.misuses ≠ [] ∧ ∃ entry ∈ log, .recordSend false ∈ entry.calls

theorem start_inv (submitted : Bool) : (start submitted).1.Inv := by
  cases submitted with
  | true => exact ⟨rfl, rfl, nofun, nofun⟩
  | false => exact ⟨rfl, rfl, nofun, nofun⟩

/-- Where an event can happen, the invariant holds. -/
theorem Tracked.inv {e : TconnEvent} (h : Tracked tc log) (he : e.Enabled tc) : tc.Inv := by
  rcases h with hinv | ⟨hd, _⟩ | ⟨hmisuses, _⟩
  · exact hinv
  · exact absurd (hd.symm.trans he.2.1) (by decide)
  · exact absurd he.1 hmisuses

/-- **Runs**: a property of the log that every outcome of a step keeps. -/
theorem run_outcome (P : TconnConnect → List TconnEntry → Prop) (h0 : P (start submitted).1 [])
    (hstep : ∀ {tc tc' log calls}, tc.Inv → P tc log → StepOutcome tc tc' calls →
      P tc' (log ++ [⟨tc.state, tc'.state, calls⟩]))
    (h : Run tconnStep (fun tc e => TconnEvent.Enabled tc e) (start submitted).1 events tc log) :
    Tracked tc log ∧ P tc log := by
  refine Run.invariant (fun _ tc log => Tracked tc log ∧ P tc log)
    ⟨Or.inl (start_inv submitted), h0⟩ ?_ h
  rintro _ tc log e tc' entries ⟨htracked, hP⟩ he hentry
  have hinv := htracked.inv he
  obtain ⟨⟨tc₁, calls⟩, hrun, hentry⟩ := bind_eq_ok.mp hentry
  obtain ⟨rfl, rfl⟩ := Prod.mk.inj (Except.ok.inj hentry).symm
  have hout := step_outcome hinv he hrun
  refine ⟨?_, hstep hinv hP hout⟩
  cases hout with
  | tries _ hinv' => exact Or.inl hinv'
  | accepted _ hinv' => exact Or.inl hinv'
  | refused _ hinv' => exact Or.inl hinv'
  | stays _ hinv' => exact Or.inl hinv'
  | lost _ hinv' => exact Or.inl hinv'
  | sendFailed _ _ hmisuses =>
    exact Or.inr (Or.inr ⟨hmisuses, _, List.mem_append_right _ List.mem_cons_self, by simp⟩)
  | destroyed hd hreg => exact Or.inr (Or.inl ⟨hd, hreg⟩)

/-- A handshake over the only address is in progress. -/
theorem run_handshaking :
    Run tconnStep (fun tc e => TconnEvent.Enabled tc e) (start true).1
      ([] ++ [.resolved (some 1) fun _ => .handshaking])
      ⟨.connect, .tlsHandshake, 1, none, ⟨{.rxTimeout, .tconn, .fd, .res}, []⟩, false⟩
      ([] ++ [⟨.resolve, .connect, []⟩]) :=
  .snoc .nil ⟨rfl, rfl, by decide, by decide⟩ rfl

/-- The owner has accepted it with the cookie 7. -/
theorem run_established :
    Run tconnStep (fun tc e => TconnEvent.Enabled tc e) (start true).1
      ([] ++ [.resolved (some 1) fun _ => .handshaking] ++ [.handshakeDone (some 7)])
      (established 1 7)
      ([] ++ [⟨.resolve, .connect, []⟩] ++ [⟨.connect, .connected, [.newConn (some 7)]⟩]) :=
  .snoc run_handshaking ⟨rfl, rfl, by decide, rfl⟩ rfl

/-! ## One retry per loss -/

/-- An event with an established connection, which is lost at most once: then `schedule_retry` is
called once, and the lower connection is torn down once. -/
def TconnEntry.OneRetry (entry : TconnEntry) : Prop :=
  entry.calls.count .scheduleRetry ≤ 1 ∧ entry.calls.count .teardown ≤ 1 ∧
    (entry.before = .connected ∨ (∃ cookie, .newConn cookie ∈ entry.calls) →
      if entry.after = .connected then entry.calls.count .scheduleRetry = 0
      else entry.calls.count .scheduleRetry = 1 ∧ entry.calls.count .teardown = 1)

/-- One retry per loss, in a state and in the log that led to it. -/
structure OneRetryPerLoss (tc : TconnConnect) (log : List TconnEntry) : Prop where
  /-- no timer is initialised or registered while it is registered -/
  misuses : tc.reg.misuses = []
  retryWait : .retryWait ∈ tc.reg.held ↔ tc.state = .waitingRetry ∧ tc.destroyed = false
  /-- the lower connection is gone -/
  lower : tc.state = .waitingRetry ∨ tc.destroyed = true →
    .fd ∉ tc.reg.held ∧ .tconn ∉ tc.reg.held ∧ .rxTimeout ∉ tc.reg.held ∧
      .keepaliveTimer ∉ tc.reg.held
  loss : ∀ entry ∈ log, entry.OneRetry

theorem count_sublist {call : TconnCall} {l : List TconnCall} (h : calls.Sublist l)
    (hl : l.count call ≤ 1) : calls.count call ≤ 1 :=
  (h.count_le call).trans hl

/-- **A step** handles a loss once, unless a record cannot be sent. -/
theorem oneRetry_outcome (h : StepOutcome tc tc' calls) :
    (TconnEntry.mk tc.state tc'.state calls).OneRetry ↔ .recordSend false ∉ calls := by
  cases h with
  | tries hbefore hinv hafter hcalls =>
    refine iff_of_true ⟨count_sublist hcalls (by decide), count_sublist hcalls (by decide), ?_⟩
      fun hmem => absurd (hcalls.subset hmem) (by simp)
    rintro (hconn | ⟨cookie, hmem⟩)
    · exact absurd hconn hbefore
    · exact absurd (hcalls.subset hmem) (by simp)
  | accepted hbefore hinv hafter hk =>
    refine iff_of_true ⟨by simp, by simp, fun _ => ?_⟩ (by simp)
    rw [if_pos hafter]
    simp
  | refused hbefore hinv hafter =>
    refine iff_of_true ⟨by simp, by simp, fun _ => ?_⟩ (by simp)
    rw [if_neg (by simp [hafter])]
    simp
  | stays hbefore hinv hafter hcookie hcalls =>
    have hcount : ∀ call, call = .scheduleRetry ∨ call = .teardown → calls.count call = 0 := by
      intro call hcall
      refine List.count_eq_zero.mpr fun hmem => ?_
      rcases hcalls call hmem with rfl | rfl <;> simp at hcall
    refine iff_of_true ⟨(hcount _ (Or.inl rfl)).le.trans (by decide),
      (hcount _ (Or.inr rfl)).le.trans (by decide), fun _ => ?_⟩
      fun hmem => by simpa using hcalls _ hmem
    rw [if_pos hafter]
    exact hcount _ (Or.inl rfl)
  | lost hbefore hinv hafter =>
    refine iff_of_true ⟨by simp, by simp, fun _ => ?_⟩ (by simp)
    rw [if_neg (by simp [hafter])]
    simp
  | sendFailed hbefore hafter hmisuses =>
    refine iff_of_false (fun hone => ?_) (by simp)
    have htwo := hone.1
    simp at htwo
  | destroyed hd hreg hstate hcalls =>
    have hnone : calls.count .scheduleRetry = 0 :=
      List.count_eq_zero.mpr fun hmem => by simpa using hcalls.subset hmem
    refine iff_of_true ⟨hnone.le.trans (by decide), count_sublist hcalls (by decide), ?_⟩
      fun hmem => by simpa using hcalls.subset hmem
    rintro (hconn | ⟨cookie, hmem⟩)
    · rw [if_pos (hstate.trans hconn)]
      exact hnone
    · exact absurd (hcalls.subset hmem) (by simp)

/-- What is registered in a state of the invariant. -/
theorem inv_retryWait (h : tc.Inv) : tc.reg.misuses = [] ∧
    (.retryWait ∈ tc.reg.held ↔ tc.state = .waitingRetry ∧ tc.destroyed = false) ∧
    (tc.state = .waitingRetry ∨ tc.destroyed = true →
      .fd ∉ tc.reg.held ∧ .tconn ∉ tc.reg.held ∧ .rxTimeout ∉ tc.reg.held ∧
        .keepaliveTimer ∉ tc.reg.held) := by
  rw [h.reg, h.destroyed]
  refine ⟨rfl, ?_, ?_⟩
  · unfold resources
    cases tc.state with
    | connect => split_ifs <;> simp
    | resolve => simp
    | connected => simp
    | waitingRetry => simp
  · rintro (hstate | hd)
    · simp [resources, hstate]
    · exact absurd hd (by decide)

theorem destroyed_retryWait (hd : tc.destroyed = true) (h : tc.reg = .empty) :
    tc.reg.misuses = [] ∧
    (.retryWait ∈ tc.reg.held ↔ tc.state = .waitingRetry ∧ tc.destroyed = false) ∧
    (tc.state = .waitingRetry ∨ tc.destroyed = true →
      .fd ∉ tc.reg.held ∧ .tconn ∉ tc.reg.held ∧ .rxTimeout ∉ tc.reg.held ∧
        .keepaliveTimer ∉ tc.reg.held) := by
  rw [h, hd]
  simp [Registry.empty]

/-- **One retry per loss**, in every run if and only if no record of the owner fails to be sent. -/
theorem one_retry_iff
    (h : Run tconnStep (fun tc e => TconnEvent.Enabled tc e) (start submitted).1 events tc log) :
    OneRetryPerLoss tc log ↔ ∀ entry ∈ log, .recordSend false ∉ entry.calls := by
  obtain ⟨htracked, hlog⟩ := run_outcome
    (fun _ log => ∀ entry ∈ log, (entry.OneRetry ↔ .recordSend false ∉ entry.calls)) nofun
    (fun _ hlog hout entry hmem => by
      rcases List.mem_append.mp hmem with hmem | hmem
      · exact hlog entry hmem
      · obtain rfl := List.mem_singleton.mp hmem
        exact oneRetry_outcome hout) h
  constructor
  · intro hone entry hmem
    exact (hlog entry hmem).mp (hone.loss entry hmem)
  · intro hsent
    have hloss : ∀ entry ∈ log, entry.OneRetry := fun entry hmem =>
      (hlog entry hmem).mpr (hsent entry hmem)
    rcases htracked with hinv | ⟨hd, hreg⟩ | ⟨_, entry, hmem, hfailed⟩
    · obtain ⟨hmisuses, hretry, hlower⟩ := inv_retryWait hinv
      exact ⟨hmisuses, hretry, hlower, hloss⟩
    · obtain ⟨hmisuses, hretry, hlower⟩ := destroyed_retryWait hd hreg
      exact ⟨hmisuses, hretry, hlower, hloss⟩
    · exact absurd hfailed (hsent entry hmem)

/-- A connection that is lost. -/
theorem one_retry_iff_lost : ∃ events tc log,
    Run tconnStep (fun tc e => TconnEvent.Enabled tc e) (start true).1 events tc log ∧
    tc.state = .waitingRetry ∧ OneRetryPerLoss tc log := by
  have hrun := Run.snoc run_established
    (show TconnEvent.Enabled (established 1 7) (.connectionLost fun _ => .noSocket) from
      ⟨rfl, rfl, by decide⟩) rfl
  exact ⟨_, _, _, hrun, rfl, (one_retry_iff hrun).mpr (by decide)⟩

/-- A record of the owner that cannot be sent: the retry timer is initialised and registered while
it is registered. -/
theorem one_retry_fails_send : ¬ ∀ (submitted : Bool) (events : List TconnEvent)
    (tc : TconnConnect) (log : List TconnEntry),
    Run tconnStep (fun tc e => TconnEvent.Enabled tc e) (start submitted).1 events tc log →
      OneRetryPerLoss tc log := by
  intro h
  have hrun := Run.snoc run_established
    (show TconnEvent.Enabled (established 1 7) (.recordSend false fun _ => .noSocket) from
      ⟨rfl, rfl, trivial⟩) rfl
  exact absurd (h true _ _ _ hrun).misuses (List.cons_ne_nil _ _)

/-! ## Callbacks of the owner -/

/-- The calls of a log. -/
def callsOf (log : List TconnEntry) : List TconnCall := log.flatMap TconnEntry.calls

/-- A cookie that `new_conn` has returned, and that has not been disconnected since. -/
def Open (calls : List TconnCall) (k : Nat) : Prop :=
  ∃ pre post, calls = pre ++ .newConn (some k) :: post ∧ .disconnect (some k) ∉ post

/-- The owner is told that open cookies are disconnected, and nothing else. -/
def Closes (calls : List TconnCall) : Prop :=
  ∀ pre cookie post, calls = pre ++ .disconnect cookie :: post →
    ∃ k, cookie = some k ∧ Open pre k

/-- The callbacks of the owner are paired. -/
structure Paired (log : List TconnEntry) : Prop where
  closes : Closes (callsOf log)
  /-- a refused connection leads to another try -/
  refused : ∀ entry ∈ log, .newConn none ∈ entry.calls →
    entry.after = .waitingRetry ∧ .scheduleRetry ∈ entry.calls ∧
      ∀ cookie, .disconnect cookie ∉ entry.calls

theorem callsOf_append (log : List TconnEntry) (entry : TconnEntry) :
    callsOf (log ++ [entry]) = callsOf log ++ entry.calls := by
  simp [callsOf]

theorem Open.append (h : Open calls k) (hno : .disconnect (some k) ∉ calls') :
    Open (calls ++ calls') k := by
  obtain ⟨pre, post, rfl, hpost⟩ := h
  refine ⟨pre, post ++ calls', by simp, ?_⟩
  rw [List.mem_append]
  exact not_or.mpr ⟨hpost, hno⟩

/-- More calls close open cookies when each of them does. -/
theorem Closes.append (h : Closes calls)
    (hnew : ∀ pre cookie post, calls' = pre ++ .disconnect cookie :: post →
      ∃ k, cookie = some k ∧ Open (calls ++ pre) k) : Closes (calls ++ calls') := by
  intro pre cookie post heq
  rcases List.append_eq_append_iff.mp heq with ⟨mid, rfl, hmid⟩ | ⟨mid, hcalls, hmid⟩
  · exact hnew mid cookie post hmid
  · cases mid with
    | nil =>
      rw [List.append_nil] at hcalls
      obtain ⟨k, hk, hopen⟩ := hnew [] cookie post hmid.symm
      rw [List.append_nil, hcalls] at hopen
      exact ⟨k, hk, hopen⟩
    | cons call mid =>
      obtain ⟨rfl, -⟩ := List.cons.inj hmid
      exact h pre _ mid hcalls

theorem Closes.quiet (h : Closes calls) (hno : ∀ cookie, .disconnect cookie ∉ calls') :
    Closes (calls ++ calls') :=
  h.append fun pre cookie post heq => absurd (heq ▸ by simp) (hno cookie)

/-- A disconnect of an open cookie among other calls. -/
theorem Closes.disconnect {pre post : List TconnCall} (h : Closes calls) (hopen : Open calls k)
    (hpre : ∀ cookie, .disconnect cookie ∉ pre) (hpost : ∀ cookie, .disconnect cookie ∉ post) :
    Closes (calls ++ (pre ++ .disconnect (some k) :: post)) := by
  rw [← List.append_assoc]
  refine (h.quiet hpre).append fun mid cookie rest heq => ?_
  cases mid with
  | nil =>
    obtain ⟨heq, -⟩ := List.cons.inj heq
    cases heq
    rw [List.append_nil]
    exact ⟨k, rfl, hopen.append (hpre _)⟩
  | cons call mid =>
    obtain ⟨-, hrest⟩ := List.cons.inj heq
    exact absurd (hrest ▸ by simp) (hpost cookie)

/-- What holds in a run without a refusal. -/
structure Unrefused (tc : TconnConnect) (log : List TconnEntry) : Prop where
  closes : Closes (callsOf log)
  cookie : tc.state = .connected → tc.destroyed = false →
    ∃ k, tc.conncookie = some k ∧ Open (callsOf log) k

theorem Unrefused.step (h : Unrefused tc log) (hinv : tc.Inv) (hout : StepOutcome tc tc' calls)
    (hno : .newConn none ∉ calls) :
    Unrefused tc' (log ++ [⟨tc.state, tc'.state, calls⟩]) := by
  have hcalls := callsOf_append log ⟨tc.state, tc'.state, calls⟩
  dsimp only at hcalls
  cases hout with
  | tries hbefore hinv' hafter hsub =>
    refine ⟨?_, fun hstate => absurd hstate hafter⟩
    rw [hcalls]
    exact h.closes.quiet fun cookie hmem => by simpa using hsub.subset hmem
  | accepted hbefore hinv' hafter hk =>
    refine ⟨?_, fun _ _ => ⟨_, hk, ?_⟩⟩
    · rw [hcalls]
      exact h.closes.quiet fun cookie => by simp
    · rw [hcalls]
      exact ⟨callsOf log, [], rfl, by simp⟩
  | refused => exact absurd List.mem_cons_self hno
  | stays hbefore hinv' hafter hcookie hall =>
    obtain ⟨k, hk, hopen⟩ := h.cookie hbefore hinv.destroyed
    have hquiet : ∀ cookie, .disconnect cookie ∉ calls := fun cookie hmem => by
      simpa using hall _ hmem
    refine ⟨?_, fun _ _ => ⟨k, hcookie.trans hk, ?_⟩⟩
    · rw [hcalls]
      exact h.closes.quiet hquiet
    · rw [hcalls]
      exact hopen.append (hquiet _)
  | lost hbefore hinv' hafter =>
    obtain ⟨k, hk, hopen⟩ := h.cookie hbefore hinv.destroyed
    refine ⟨?_, fun hstate => absurd (hafter.symm.trans hstate) (by decide)⟩
    rw [hcalls, hk]
    exact @Closes.disconnect _ k [.teardown] [.scheduleRetry] h.closes hopen (by simp) (by simp)
  | sendFailed hbefore hafter hmisuses =>
    obtain ⟨k, hk, hopen⟩ := h.cookie hbefore hinv.destroyed
    refine ⟨?_, fun hstate => absurd (hafter.symm.trans hstate) (by decide)⟩
    rw [hcalls, hk]
    exact @Closes.disconnect _ k [.recordSend false, .teardown] [.scheduleRetry, .scheduleRetry]
      h.closes hopen (by simp) (by simp)
  | destroyed hd hreg hstate hsub =>
    refine ⟨?_, fun _ hnot => absurd (hd.symm.trans hnot) (by decide)⟩
    rw [hcalls]
    exact h.closes.quiet fun cookie hmem => by simpa using hsub.subset hmem

/-- A refusal is followed by a disconnect. -/
theorem refused_outcome (hout : StepOutcome tc tc' calls) (hmem : .newConn none ∈ calls) :
    .disconnect none ∈ calls := by
  cases hout with
  | tries _ _ _ hsub => exact absurd (hsub.subset hmem) (by simp)
  | accepted => exact absurd hmem (by simp)
  | refused => simp
  | stays _ _ _ _ hall => exact absurd (hall _ hmem) (by simp)
  | lost => exact absurd hmem (by simp)
  | sendFailed => exact absurd hmem (by simp)
  | destroyed _ _ _ hsub => exact absurd (hsub.subset hmem) (by simp)

/-- **Paired callbacks**, in every run if and only if `new_conn` never returns NULL. -/
theorem paired_iff
    (h : Run tconnStep (fun tc e => TconnEvent.Enabled tc e) (start submitted).1 events tc log) :
    Paired log ↔ ∀ entry ∈ log, .newConn none ∉ entry.calls := by
  have hstart : Unrefused (start submitted).1 [] := by
    refine ⟨fun pre cookie post heq => by simp [callsOf] at heq, ?_⟩
    cases submitted <;> nofun
  obtain ⟨_, hrefused, hcloses⟩ := run_outcome
    (fun tc log => (∀ entry ∈ log, .newConn none ∈ entry.calls → .disconnect none ∈ entry.calls) ∧
      ((∀ entry ∈ log, .newConn none ∉ entry.calls) → Unrefused tc log))
    ⟨nofun, fun _ => hstart⟩
    (fun hinv hlog hout => ⟨fun entry hmem hnull => by
        rcases List.mem_append.mp hmem with hmem | hmem
        · exact hlog.1 entry hmem hnull
        · obtain rfl := List.mem_singleton.mp hmem
          exact refused_outcome hout hnull,
      fun hno => (hlog.2 fun entry hmem => hno entry (List.mem_append_left _ hmem)).step hinv hout
        (hno _ (List.mem_append_right _ List.mem_cons_self))⟩) h
  constructor
  · intro hpaired entry hmem hnull
    exact (hpaired.refused entry hmem hnull).2.2 none (hrefused entry hmem hnull)
  · intro hno
    exact ⟨(hcloses hno).closes, fun entry hmem hnull => absurd hnull (hno entry hmem)⟩

/-- A connection that is accepted, and then lost. -/
theorem paired_iff_lost : ∃ events tc log,
    Run tconnStep (fun tc e => TconnEvent.Enabled tc e) (start true).1 events tc log ∧
    .disconnect (some 7) ∈ callsOf log ∧ Paired log := by
  have hrun := Run.snoc run_established
    (show TconnEvent.Enabled (established 1 7) (.connectionLost fun _ => .noSocket) from
      ⟨rfl, rfl, by decide⟩) rfl
  exact ⟨_, _, _, hrun, by decide, (paired_iff hrun).mpr (by decide)⟩

/-- A connection that is refused: the owner is told that NULL is disconnected. -/
theorem paired_fails_refused : ¬ ∀ (submitted : Bool) (events : List TconnEvent)
    (tc : TconnConnect) (log : List TconnEntry),
    Run tconnStep (fun tc e => TconnEvent.Enabled tc e) (start submitted).1 events tc log →
      Paired log := by
  intro h
  have hrun := Run.snoc run_handshaking
    (show TconnEvent.Enabled _ (.handshakeDone none) from ⟨rfl, rfl, by decide, rfl⟩) rfl
  obtain ⟨k, hk, -⟩ := (h true _ _ _ hrun).closes [.newConn none, .teardown] none [.scheduleRetry]
    rfl
  exact nomatch hk

end Dvpn

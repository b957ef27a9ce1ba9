import WarheadDiscord.Client.Holdings

/-!
# The handlers of the timer

`Update` and the connect continuation each set the timer again, so that one handler is
outstanding at a time.  But `Update` does so before it looks at the socket, and when
that is closed `ConnectToServer` sets the timer a second time.  The handler of the
first wait still runs, and from then on there are two chains.

* `update_outstanding`, `connect_outstanding`: how many handlers each step adds.
* `NoOverlap`: what a step must not be.
* `oneHandler_iff`: there is at most one handler at all times exactly when no step is.
-/

namespace WarheadDiscord

open Lib

namespace ClientSocketMgr

variable {env : Env} {e : Endian} {m t : ClientSocketMgr}

/-- The handlers that wait on the timer or are queued to run. -/
def outstanding (m : ClientSocketMgr) : Nat :=
  m.ready.length + m.updateTimer.elim 0 (·.waiting.length)

theorem outstanding_of_timer {timer : DeadlineTimer} (h : m.updateTimer = some timer) :
    m.outstanding = m.ready.length + timer.waiting.length := by
  rw [outstanding, h]
  rfl

theorem rearmed_outstanding {timer : DeadlineTimer} (h : m.updateTimer = some timer)
    (handler : TimerHandler) : (m.rearmed timer handler).outstanding = m.outstanding + 1 := by
  rw [outstanding_of_timer h, outstanding_of_timer rfl, rearmed, List.length_append]
  rfl

theorem disconnect_outstanding (h : m.disconnect = .ok t) : t.outstanding = m.outstanding := by
  obtain ⟨timer, ht, rfl⟩ := disconnect_ok h
  rw [outstanding_of_timer ht, outstanding_of_timer rfl, List.length_append]
  rfl

theorem update_outstanding {tick : Tick} (h : m.update tick = .ok t) : t.outstanding =
    m.outstanding + if m.stopped then 0 else if m.socketClosed then 2 else 1 := by
  rcases update_cases h with ⟨hs, rfl⟩ | ⟨hs, timer, ht, hcases⟩
  · rw [hs]
    rfl
  · rw [hs, socketClosed]
    rcases hcases with ⟨hn, rfl⟩ | ⟨c, hc, hclosed, rfl⟩ | ⟨c, arrived, hc, hopen, rfl⟩
    · rw [hn]
      exact rearmed_outstanding ht .update
    · rw [hc, outstanding_of_timer ht, outstanding_of_timer rfl]
      simp [hclosed]
      omega
    · rw [hc]
      refine (rearmed_outstanding ht .update).trans ?_
      simp [hopen]

theorem startSocket_outstanding (h : m.startSocket env = .ok t) :
    t.outstanding = m.outstanding + 1 := by
  obtain ⟨m₁, c, timer, hm, -, ht, rfl⟩ := startSocket_ok h
  have ho : m₁.outstanding = m.outstanding := by
    rcases hm with rfl | hd
    · rfl
    · exact disconnect_outstanding hd
  rw [← ho]
  exact rearmed_outstanding (m := { m₁.reset with clientSocket := some c }) ht .update

theorem connect_outstanding {connected : Nat → Bool} {n : UInt32}
    (h : m.connect env connected n = .ok t) : t.outstanding ≤ m.outstanding + 1 := by
  rcases connect_cases h with ⟨-, rfl⟩ | ⟨-, -, connects, hd | hs⟩
  · exact Nat.le_succ _
  · exact (disconnect_outstanding hd).le.trans (Nat.le_succ _)
  · exact (startSocket_outstanding hs).le

theorem initializeMgr_outstanding {resolve : List UInt8 → Option IpAddress}
    (h : m.initializeMgr env resolve = .ok t) : t.outstanding = m.outstanding +
      if env.config.serverEnable && (resolve env.config.serverHost).isSome then 1 else 0 := by
  have htimer : ({ m with
      updateTimer := some ⟨[]⟩
      ready := m.ready ++ m.updateTimer.elim [] (·.waiting) } : ClientSocketMgr).outstanding =
      m.outstanding := by
    rw [outstanding_of_timer rfl, List.length_append, outstanding]
    cases m.updateTimer <;> rfl
  rcases initializeMgr_cases h with ⟨he, rfl⟩ | ⟨he, m₁, rfl, ⟨hr, rfl⟩ | ⟨address, hr, rfl⟩⟩
  · rw [he]
    rfl
  · rw [he, hr]
    exact htimer
  · rw [he, hr, ← htimer]
    exact rearmed_outstanding rfl (.connect 1)

theorem timerExpires_outstanding (m : ClientSocketMgr) :
    m.timerExpires.outstanding = m.outstanding := by
  unfold timerExpires
  split
  · rfl
  · rename_i timer ht
    rw [outstanding_of_timer ht, outstanding_of_timer rfl, List.length_append]
    rfl

theorem setSocket_outstanding (c : ClientSocket) (which : Option Nat) :
    (m.setSocket c which).outstanding = m.outstanding := by
  cases which <;> rfl

theorem socketEvent_outstanding {which : Option Nat} {event : ClientSocket.Event}
    (h : m.socketEvent env e which event = .ok t) : t.outstanding = m.outstanding := by
  rcases socketEvent_cases h with ⟨-, rfl⟩ | ⟨c, d, -, -, hd | rfl⟩
  · rfl
  · exact (disconnect_outstanding hd).trans (setSocket_outstanding d which)
  · exact setSocket_outstanding d which

theorem eraseIdx_outstanding {i : Nat} {handler : TimerHandler} (h : m.ready[i]? = some handler) :
    ({ m with ready := m.ready.eraseIdx i } : ClientSocketMgr).outstanding + 1 =
      m.outstanding := by
  obtain ⟨hi, -⟩ := List.getElem?_eq_some_iff.mp h
  rw [outstanding, outstanding, List.length_eraseIdx_of_lt hi]
  dsimp only
  omega

/-- **The condition on a step.**  `Update`, called or continued, does not find a closed
socket, and nothing sets the timer from outside while a handler is outstanding. -/
def NoOverlap (env : Env) (m : ClientSocketMgr) : Act → Prop
  | .initializeMgr resolve =>
    env.config.serverEnable = true → (resolve env.config.serverHost).isSome → m.outstanding = 0
  | .connectToServer _ => m.outstanding = 0
  | .update _ => m.stopped = true ∨ m.outstanding = 0 ∧ m.socketClosed = false
  | .runHandler i _ _ _ =>
    m.ready[i]? = some .update → m.stopped = true ∨ m.socketClosed = false
  | _ => True

theorem step_outstanding {a : Act} (ho : m.outstanding ≤ 1) (h : m.step env e a = .ok t) :
    t.outstanding ≤ 1 ↔ NoOverlap env m a := by
  cases a with
  | initializeMgr resolve =>
    rw [initializeMgr_outstanding h, NoOverlap]
    cases env.config.serverEnable <;> cases (resolve env.config.serverHost).isSome <;>
      simp <;> omega
  | connectToServer n =>
    obtain ⟨timer, ht, rfl⟩ := connectToServer_ok h
    rw [rearmed_outstanding ht, NoOverlap]
    omega
  | disconnect =>
    rw [disconnect_outstanding h]
    exact ⟨fun _ => trivial, fun _ => ho⟩
  | update tick =>
    rw [update_outstanding h, NoOverlap]
    cases m.stopped <;> cases m.socketClosed <;> simp <;> omega
  | addPacketToQueue p =>
    cases h
    exact ⟨fun _ => trivial, fun _ => ho⟩
  | timerExpires =>
    cases h
    rw [timerExpires_outstanding]
    exact ⟨fun _ => trivial, fun _ => ho⟩
  | runHandler i clock tick connected =>
    rw [step] at h
    cases hi : m.ready[i]? with
    | none =>
      rw [hi] at h
      cases h
      exact ⟨fun _ hx => (by rw [hi] at hx; cases hx), fun _ => ho⟩
    | some handler =>
      have hout := eraseIdx_outstanding hi
      rw [hi] at h
      rw [NoOverlap, hi]
      cases handler with
      | update =>
        have hu := update_outstanding h
        change _ = _ + if m.stopped then 0 else if m.socketClosed then 2 else 1 at hu
        rw [Nat.eq_sub_of_add_eq hout] at hu
        rw [hu]
        cases m.stopped <;> cases m.socketClosed <;> simp <;> omega
      | connect n =>
        have hle := connect_outstanding h
        exact ⟨fun _ hx => (by cases hx), fun _ => by omega⟩
  | socketEvent which clock event =>
    rw [socketEvent_outstanding h]
    exact ⟨fun _ => trivial, fun _ => ho⟩

/-- **At most one handler.**  In all the states of a run at most one handler of the timer is
outstanding exactly when every step of the run meets `NoOverlap`. -/
theorem oneHandler_iff (env : Env) (e : Endian) (acts : List Act) :
    (∀ t, Visits (step env e) new acts t → t.outstanding ≤ 1) ↔
      Each (step env e) (NoOverlap env) new acts :=
  visits_iff_each (I := fun _ => True) (fun _ _ _ _ _ => trivial)
    (fun _ _ _ _ ho h => step_outstanding ho h) acts new trivial (Nat.zero_le _)

/-- A connection, a tick, the end of the connection, and the tick that notices it. -/
def reconnect : List Act :=
  Act.connected ++ [Act.timerExpires, .runNext, .socketEvent none Int64.ofNat .readError,
    .timerExpires, .runNext]

/-- The last tick leaves two handlers. -/
theorem reconnect_overlaps : ∃ m, run (step .sample .little) new reconnect = .ok m ∧
    m.outstanding = 2 := by
  obtain ⟨m, hm, ho⟩ := ok_of_any (p := fun m => m.outstanding == 2)
    (x := run (step .sample .little) new reconnect) (by decide +kernel)
  exact ⟨m, hm, by simpa using ho⟩

end ClientSocketMgr

end WarheadDiscord

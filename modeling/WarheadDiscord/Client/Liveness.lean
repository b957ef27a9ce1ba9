import WarheadDiscord.Client.Stopping
import WarheadDiscord.Client.Timers
import WarheadDiscord.Lib.Progress

/-!
# The client goes on

The manager lives on the handlers that it gives to its timer.  Those that wait and those
that are queued to run make up one queue, `handlers`: a handler joins it at the end, and
nothing but its own run takes it out (`step_handlers`).

* `neverIdle`: **until the stop there is always the handler that goes on**, a tick while
  the manager has a socket and a connect continuation while it has none.  So the
  `io_context` does not run out of work.
* `handlerQueue`: what is asked of a queue whose entries are to be served, for the queue of
  the handlers.
-/

namespace WarheadDiscord

open Lib

namespace ClientSocketMgr

variable {env : Env} {e : Endian} {m t u : ClientSocketMgr} {a : Act}

/-! ### The queue of the handlers -/

/-- The handlers that are queued to run and those that wait on the timer, in this order. -/
def handlers (m : ClientSocketMgr) : List TimerHandler :=
  m.ready ++ m.updateTimer.elim [] (·.waiting)

theorem handlers_of_timer {timer : DeadlineTimer} (h : m.updateTimer = some timer) :
    m.handlers = m.ready ++ timer.waiting := by
  rw [handlers, h]
  rfl

theorem outstanding_eq (m : ClientSocketMgr) : m.outstanding = m.handlers.length := by
  rw [outstanding, handlers, List.length_append]
  cases m.updateTimer <;> rfl

theorem rearmed_handlers {timer : DeadlineTimer} (h : m.updateTimer = some timer)
    (handler : TimerHandler) : (m.rearmed timer handler).handlers = m.handlers ++ [handler] := by
  rw [handlers_of_timer h]
  rfl

theorem disconnect_handlers (h : m.disconnect = .ok t) : t.handlers = m.handlers := by
  obtain ⟨timer, ht, rfl⟩ := disconnect_ok h
  rw [handlers_of_timer ht, handlers_of_timer rfl, List.append_nil]

theorem timerExpires_handlers (m : ClientSocketMgr) : m.timerExpires.handlers = m.handlers := by
  unfold timerExpires
  split
  · rfl
  · rename_i timer ht
    rw [handlers_of_timer ht, handlers_of_timer rfl, List.append_nil]

theorem setSocket_handlers (c : ClientSocket) (which : Option Nat) :
    (m.setSocket c which).handlers = m.handlers := by
  cases which <;> rfl

theorem eraseIdx_handlers {i : Nat} {handler : TimerHandler} (h : m.ready[i]? = some handler) :
    ({ m with ready := m.ready.eraseIdx i } : ClientSocketMgr).handlers =
      m.handlers.eraseIdx i := by
  obtain ⟨hi, -⟩ := List.getElem?_eq_some_iff.mp h
  rw [handlers, handlers, List.eraseIdx_append_of_lt_length hi]

theorem initializeMgr_handlers {resolve : List UInt8 → Option IpAddress}
    (h : m.initializeMgr env resolve = .ok t) :
    t.handlers = m.handlers ∨ t.handlers = m.handlers ++ [.connect 1] := by
  have htimer : ({ m with
      updateTimer := some ⟨[]⟩
      ready := m.ready ++ m.updateTimer.elim [] (·.waiting) } : ClientSocketMgr).handlers =
      m.handlers := List.append_nil _
  rcases initializeMgr_cases h with ⟨-, rfl⟩ | ⟨-, m₁, rfl, ⟨-, rfl⟩ | ⟨address, -, rfl⟩⟩
  · exact .inl rfl
  · exact .inl htimer
  · refine .inr ?_
    rw [← htimer]
    exact rearmed_handlers rfl _

/-- `Update` waits again, and it starts to connect when it finds the socket closed. -/
theorem update_handlers {tick : Tick} (h : m.update tick = .ok t) : t.handlers = m.handlers ++
    if m.stopped then [] else if m.socketClosed then [.update, .connect 3] else [.update] := by
  rcases update_cases h with ⟨hs, rfl⟩ | ⟨hs, timer, ht, hcases⟩
  · rw [hs, if_pos rfl, List.append_nil]
  · rw [hs, if_neg (by decide), socketClosed]
    rcases hcases with ⟨hn, rfl⟩ | ⟨c, hc, hclosed, rfl⟩ | ⟨c, arrived, hc, hopen, rfl⟩
    · rw [hn, rearmed_handlers ht]
      rfl
    · rw [hc, Option.any_some, hclosed, if_pos rfl, handlers_of_timer ht, handlers_of_timer rfl]
      simp
    · rw [hc, Option.any_some, hopen, if_neg (by decide)]
      exact rearmed_handlers ht _

theorem startSocket_handlers (h : m.startSocket env = .ok t) :
    t.handlers = m.handlers ++ [.update] ∧ t.clientSocket.isSome = true := by
  obtain ⟨m₁, c, timer, hm, -, ht, rfl⟩ := startSocket_ok h
  have ho : m₁.handlers = m.handlers := by
    rcases hm with rfl | hd
    · rfl
    · exact disconnect_handlers hd
  refine ⟨?_, rfl⟩
  rw [← ho]
  exact rearmed_handlers (m := { m₁.reset with clientSocket := some c }) ht .update

/-- What a connect continuation does to the queue, and the socket that goes with it. -/
theorem connect_handlers {connected : Nat → Bool} {n : UInt32}
    (h : m.connect env connected n = .ok t) :
    (m.hasOpenSocket = true ∨ m.address = none) ∧ t = m ∨
    t.stopped = true ∧ t.handlers = m.handlers ∨
    t.handlers = m.handlers ++ [.update] ∧ t.clientSocket.isSome = true := by
  rcases connect_cases h with hsame | ⟨-, -, connects, hd | hs⟩
  · exact .inl hsame
  · have hh := disconnect_handlers hd
    obtain ⟨timer, -, rfl⟩ := disconnect_ok hd
    exact .inr (.inl ⟨rfl, hh⟩)
  · exact .inr (.inr (startSocket_handlers (m := { m with connects := m.connects ++ connects }) hs))

theorem socketEvent_handlers {which : Option Nat} {event : ClientSocket.Event}
    (h : m.socketEvent env e which event = .ok t) : t.handlers = m.handlers := by
  rcases socketEvent_cases h with ⟨-, rfl⟩ | ⟨c, d, -, -, hd | rfl⟩
  · rfl
  · exact (disconnect_handlers hd).trans (setSocket_handlers d which)
  · exact setSocket_handlers d which

/-- The handler that a step runs. -/
def Act.runs (m : ClientSocketMgr) : Act → Option Nat
  | .runHandler i _ _ _ => if i < m.ready.length then some i else none
  | _ => none

theorem runs_lt {i : Nat} (h : a.runs m = some i) : i < m.ready.length := by
  cases a with
  | runHandler j clock tick connected =>
    rw [Act.runs] at h
    split at h
    · cases h
      assumption
    · cases h
  | _ => cases h

/-- A handler that runs leaves the queue, and adds to its end what it adds. -/
theorem runHandler_handlers {i : Nat} {handler : TimerHandler} {clock : Nat → Int64} {tick : Tick}
    {connected : Nat → Bool} (hi : m.ready[i]? = some handler)
    (h : m.step env e (.runHandler i clock tick connected) = .ok t) :
    ∃ new, t.handlers = m.handlers.eraseIdx i ++ new := by
  rw [step, hi] at h
  rw [← eraseIdx_handlers hi]
  cases handler with
  | update => exact ⟨_, update_handlers h⟩
  | connect n =>
    rcases connect_handlers h with ⟨-, rfl⟩ | ⟨-, hh⟩ | ⟨hh, -⟩
    · exact ⟨[], (List.append_nil _).symm⟩
    · exact ⟨[], hh.trans (List.append_nil _).symm⟩
    · exact ⟨_, hh⟩

/-- **What a step does to the queue of the handlers.**  It may add some at the end, and takes out
none but the one that it runs. -/
theorem step_handlers (hn : a.runs m = none) (h : m.step env e a = .ok t) :
    ∃ new, t.handlers = m.handlers ++ new := by
  cases a with
  | initializeMgr resolve =>
    rcases initializeMgr_handlers h with hh | hh
    · exact ⟨[], hh.trans (List.append_nil _).symm⟩
    · exact ⟨_, hh⟩
  | connectToServer n =>
    obtain ⟨timer, ht, rfl⟩ := connectToServer_ok h
    exact ⟨_, rearmed_handlers ht _⟩
  | disconnect => exact ⟨[], (disconnect_handlers h).trans (List.append_nil _).symm⟩
  | update tick => exact ⟨_, update_handlers h⟩
  | addPacketToQueue p => cases h; exact ⟨[], (List.append_nil _).symm⟩
  | timerExpires =>
    cases h
    exact ⟨[], (timerExpires_handlers m).trans (List.append_nil _).symm⟩
  | runHandler i clock tick connected =>
    have hi : m.ready[i]? = none := by
      rw [Act.runs] at hn
      split at hn
      · cases hn
      · rename_i hlt
        exact List.getElem?_eq_none (Nat.le_of_not_lt hlt)
    rw [step, hi] at h
    cases h
    exact ⟨[], (List.append_nil _).symm⟩
  | socketEvent which clock event =>
    exact ⟨[], (socketEvent_handlers h).trans (List.append_nil _).symm⟩

/-! ### What is queued to run -/

theorem rearmed_ready (m : ClientSocketMgr) (timer : DeadlineTimer) (handler : TimerHandler) :
    m.ready <+: (m.rearmed timer handler).ready := List.prefix_append _ _

theorem disconnect_ready (h : m.disconnect = .ok t) : m.ready <+: t.ready := by
  obtain ⟨timer, -, rfl⟩ := disconnect_ok h
  exact List.prefix_append _ _

theorem update_ready {tick : Tick} (h : m.update tick = .ok t) : m.ready <+: t.ready := by
  rcases update_cases h with ⟨-, rfl⟩ | ⟨-, timer, -, ⟨-, rfl⟩ | ⟨c, -, -, rfl⟩ |
    ⟨c, arrived, -, -, rfl⟩⟩
  · exact List.prefix_rfl
  · exact rearmed_ready m timer .update
  · rw [List.append_assoc]
    exact List.prefix_append _ _
  · exact rearmed_ready m timer .update

theorem startSocket_ready (h : m.startSocket env = .ok t) : m.ready <+: t.ready := by
  obtain ⟨m₁, c, timer, hm, -, -, rfl⟩ := startSocket_ok h
  have hle : m.ready <+: m₁.ready := by
    rcases hm with rfl | hd
    · exact List.prefix_rfl
    · exact disconnect_ready hd
  exact hle.trans (rearmed_ready { m₁.reset with clientSocket := some c } timer .update)

theorem connect_ready {connected : Nat → Bool} {n : UInt32}
    (h : m.connect env connected n = .ok t) : m.ready <+: t.ready := by
  rcases connect_cases h with ⟨-, rfl⟩ | ⟨-, -, connects, hd | hs⟩
  · exact List.prefix_rfl
  · exact disconnect_ready (m := { m with connects := m.connects ++ connects }) hd
  · exact startSocket_ready (m := { m with connects := m.connects ++ connects }) hs

/-- A step queues handlers at the end, and takes out the one that it runs. -/
theorem step_ready (h : m.step env e a = .ok t) :
    (a.runs m).elim m.ready m.ready.eraseIdx <+: t.ready := by
  cases a with
  | initializeMgr resolve =>
    rcases initializeMgr_cases h with ⟨-, rfl⟩ | ⟨-, m₁, rfl, ⟨-, rfl⟩ | ⟨address, -, rfl⟩⟩
    · exact List.prefix_rfl
    · exact List.prefix_append _ _
    · exact ⟨_, (List.append_assoc _ _ _).symm⟩
  | connectToServer n =>
    obtain ⟨timer, -, rfl⟩ := connectToServer_ok h
    exact rearmed_ready m timer (.connect n)
  | disconnect => exact disconnect_ready h
  | update tick => exact update_ready h
  | addPacketToQueue p => cases h; exact List.prefix_rfl
  | timerExpires =>
    cases h
    show m.ready <+: m.timerExpires.ready
    unfold timerExpires
    split
    · exact List.prefix_rfl
    · exact List.prefix_append _ _
  | runHandler i clock tick connected =>
    rw [step] at h
    rw [Act.runs]
    split
    · rename_i hi
      rw [List.getElem?_eq_getElem hi] at h
      cases hh : m.ready[i] with
      | update => rw [hh] at h; exact update_ready h
      | connect n => rw [hh] at h; exact connect_ready h
    · rename_i hi
      rw [List.getElem?_eq_none (Nat.le_of_not_lt hi)] at h
      cases h
      exact List.prefix_rfl
  | socketEvent which clock event =>
    rcases socketEvent_cases h with ⟨-, rfl⟩ | ⟨c, d, -, -, hd | rfl⟩
    · exact List.prefix_rfl
    · have hset : (m.setSocket d which).ready = m.ready := by cases which <;> rfl
      have hr := disconnect_ready hd
      rw [hset] at hr
      exact hr
    · cases which <;> exact List.prefix_rfl

/-- The handlers are a queue of work. -/
def handlerQueue (env : Env) (e : Endian) : WorkQueue (step env e) TimerHandler where
  queue := handlers
  ready m := m.ready.length
  ready_le m := by rw [handlers, List.length_append]; omega
  taken m a := a.runs m
  taken_lt h := runs_lt h
  joins h hn := by
    have hr := step_ready h
    rw [hn] at hr
    exact ⟨hr.length_le, step_handlers hn h⟩
  leaves {m a t i} h hi := by
    have hlt := runs_lt hi
    have hr := (step_ready h).length_le
    rw [hi, Option.elim_some, List.length_eraseIdx_of_lt hlt] at hr
    refine ⟨by omega, ?_⟩
    cases a with
    | runHandler j clock tick connected =>
      have hj : j = i := by
        rw [Act.runs] at hi
        split at hi <;> cases hi
        rfl
      subst hj
      exact runHandler_handlers (List.getElem?_eq_getElem hlt) h
    | _ => cases hi

/-! ### The handler that goes on -/

/-- The manager has an address to connect to and the handler that goes on: a tick while it has
a socket, and a connect continuation while it has none. -/
structure GoesOn (m : ClientSocketMgr) : Prop where
  address : m.address ≠ none
  connect : m.clientSocket = none → ∃ n, .connect n ∈ m.handlers
  update : m.clientSocket ≠ none → .update ∈ m.handlers

theorem GoesOn.mono (h : m.GoesOn) (ha : t.address ≠ none)
    (hc : t.clientSocket = none ↔ m.clientSocket = none) (hh : m.handlers ⊆ t.handlers) :
    t.GoesOn :=
  ⟨ha, fun hn => (h.connect (hc.mp hn)).imp fun _ hx => hh hx,
    fun hn => hh (h.update fun hm => hn (hc.mpr hm))⟩

theorem disconnect_goesOn (h : m.disconnect = .ok t) : t.stopped = true := by
  obtain ⟨timer, -, rfl⟩ := disconnect_ok h
  rfl

theorem update_goesOn {tick : Tick} (ha : m.address ≠ none)
    (hc : m.clientSocket = none → ∃ n, .connect n ∈ m.handlers) (h : m.update tick = .ok t) :
    t.stopped = true ∨ t.GoesOn := by
  have hh := update_handlers h
  rcases update_cases h with ⟨hs, rfl⟩ | ⟨hs, timer, -, hcases⟩
  · exact .inl hs
  · rw [hs, if_neg (by decide), socketClosed] at hh
    refine .inr ?_
    rcases hcases with ⟨hn, rfl⟩ | ⟨c, hcs, hclosed, rfl⟩ | ⟨c, arrived, hcs, hopen, rfl⟩
    · rw [hn, Option.any_none, if_neg (by decide)] at hh
      refine ⟨ha, fun _ => ?_, fun hx => absurd hn hx⟩
      obtain ⟨n, hx⟩ := hc hn
      exact ⟨n, by rw [hh]; exact List.mem_append_left _ hx⟩
    · rw [hcs, Option.any_some, hclosed, if_pos rfl] at hh
      exact ⟨ha, fun _ => ⟨3, by rw [hh]; simp⟩, fun hx => absurd rfl hx⟩
    · rw [hcs, Option.any_some, hopen, if_neg (by decide)] at hh
      exact ⟨ha, fun hx => (by cases hx), fun _ => by rw [hh]; simp⟩

theorem connect_goesOn {connected : Nat → Bool} {n : UInt32} (ha : m.address ≠ none)
    (hu : m.clientSocket ≠ none → .update ∈ m.handlers)
    (h : m.connect env connected n = .ok t) : t.stopped = true ∨ t.GoesOn := by
  have haddr : ∀ u : ClientSocketMgr, u.disconnect = .ok t → t.stopped = true :=
    fun _ hd => disconnect_goesOn hd
  rcases connect_cases h with ⟨ho | hn, rfl⟩ | ⟨-, -, connects, hd | hs⟩
  · refine .inr ⟨ha, fun hx => ?_, hu⟩
    rw [hasOpenSocket, hx] at ho
    cases ho
  · exact absurd hn ha
  · exact .inl (haddr _ hd)
  · obtain ⟨hh, hsome⟩ := startSocket_handlers
      (m := { m with connects := m.connects ++ connects }) hs
    obtain ⟨m₁, c, timer, hm, -, -, rfl⟩ := startSocket_ok hs
    refine .inr ⟨?_, fun hx => (by cases hx), fun _ => by rw [hh]; simp⟩
    rcases hm with rfl | hd
    · exact ha
    · obtain ⟨timer', -, rfl⟩ := disconnect_ok hd
      exact ha

theorem mem_eraseIdx_handlers {i : Nat} {handler x : TimerHandler} (hi : m.ready[i]? = some handler)
    (hx : x ∈ m.handlers) (hne : x ≠ handler) :
    x ∈ ({ m with ready := m.ready.eraseIdx i } : ClientSocketMgr).handlers := by
  obtain ⟨hlt, -⟩ := List.getElem?_eq_some_iff.mp hi
  obtain ⟨j, hj⟩ := List.mem_iff_getElem?.mp hx
  rw [eraseIdx_handlers hi, List.mem_eraseIdx_iff_getElem?]
  refine ⟨j, fun heq => hne ?_, hj⟩
  rw [heq, handlers, List.getElem?_append_left hlt, hi] at hj
  exact (Option.some.inj hj).symm

/-- **Every step leaves the handler that goes on**, unless the manager is stopped. -/
theorem step_goesOn (hm : m.GoesOn) (h : m.step env e a = .ok t) : t.stopped = true ∨ t.GoesOn := by
  have hsub : ∀ {u : ClientSocketMgr} {new : List TimerHandler}, u.handlers = m.handlers ++ new →
      m.handlers ⊆ u.handlers := by
    intro u new hn
    rw [hn]
    exact List.subset_append_left _ _
  cases a with
  | initializeMgr resolve =>
    obtain ⟨new, hn⟩ := step_handlers (a := .initializeMgr resolve) rfl h
    refine .inr (hm.mono ?_ ?_ (hsub hn)) <;>
    rcases initializeMgr_cases h with ⟨-, rfl⟩ | ⟨-, m₁, rfl, ⟨-, rfl⟩ | ⟨address, -, rfl⟩⟩
    · exact hm.address
    · exact hm.address
    · exact Option.some_ne_none _
    all_goals exact Iff.rfl
  | connectToServer n =>
    obtain ⟨timer, ht, rfl⟩ := connectToServer_ok h
    exact .inr (hm.mono hm.address Iff.rfl (hsub (rearmed_handlers ht _)))
  | disconnect => exact .inl (disconnect_goesOn h)
  | update tick => exact update_goesOn hm.address hm.connect h
  | addPacketToQueue p => cases h; exact .inr ⟨hm.address, hm.connect, hm.update⟩
  | timerExpires =>
    cases h
    have hh := timerExpires_handlers m
    refine .inr (hm.mono ?_ ?_ (by rw [hh]; exact List.Subset.refl _)) <;>
    · unfold timerExpires
      split
      · first | exact hm.address | exact Iff.rfl
      · first | exact hm.address | exact Iff.rfl
  | runHandler i clock tick connected =>
    rw [step] at h
    split at h
    · cases h
      exact .inr hm
    · rename_i handler hi
      cases handler with
      | update =>
        refine update_goesOn (m := { m with ready := m.ready.eraseIdx i }) hm.address ?_ h
        exact fun hn => (hm.connect hn).imp fun n hx =>
          mem_eraseIdx_handlers hi hx (by intro hx; cases hx)
      | connect n =>
        refine connect_goesOn (m := { m with ready := m.ready.eraseIdx i }) hm.address ?_ h
        exact fun hn => mem_eraseIdx_handlers hi (hm.update hn) (by intro hx; cases hx)
  | socketEvent which clock event =>
    have hh := socketEvent_handlers h
    rcases socketEvent_cases h with ⟨-, rfl⟩ | ⟨c, d, hc, -, hd | rfl⟩
    · exact .inr hm
    · exact .inl (disconnect_goesOn hd)
    · refine .inr (hm.mono ?_ ?_ (by rw [hh]; exact List.Subset.refl _))
      · cases which <;> exact hm.address
      · cases which with
        | none =>
          have hcs : m.clientSocket = some c := hc
          rw [hcs]
          exact ⟨fun hx => (by cases hx), fun hx => (by cases hx)⟩
        | some k => exact Iff.rfl

theorem run_goesOn {acts : List Act} (hm : m.stopped = true ∨ m.GoesOn)
    (h : run (step env e) m acts = .ok t) : t.stopped = true ∨ t.GoesOn :=
  run_invariant (I := fun m => m.stopped = true ∨ m.GoesOn)
    (fun _ _ _ hm hs => hm.elim (fun hst => .inl (step_stopped hs hst)) fun hg => step_goesOn hg hs)
    acts m t hm h

/-- An `Initialize` that connects. -/
theorem initializeMgr_goesOn {resolve : List UInt8 → Option IpAddress}
    (he : env.config.serverEnable = true) (hr : (resolve env.config.serverHost).isSome = true)
    (h : new.step env e (.initializeMgr resolve) = .ok t) : t.GoesOn := by
  rcases initializeMgr_cases h with ⟨hn, -⟩ | ⟨-, m₁, rfl, ⟨hn, -⟩ | ⟨address, -, rfl⟩⟩
  · rw [he] at hn
    cases hn
  · rw [hn] at hr
    cases hr
  · exact ⟨Option.some_ne_none _, fun _ => ⟨1, List.mem_cons_self⟩, fun hx => absurd rfl hx⟩

/-- **The client is never idle before it stops.**  Once `Initialize` has found the server, a
connect continuation is outstanding in every state without a socket and a tick in every state
with one, whatever happens, until `Disconnect` is called. -/
theorem neverIdle (env : Env) (e : Endian) (resolve : List UInt8 → Option IpAddress)
    (he : env.config.serverEnable = true) (hr : (resolve env.config.serverHost).isSome = true)
    (acts : List Act) (h : run (step env e) new (.initializeMgr resolve :: acts) = .ok t)
    (hs : t.stopped = false) :
    (t.clientSocket = none → ∃ n, .connect n ∈ t.handlers) ∧
      (t.clientSocket ≠ none → .update ∈ t.handlers) := by
  obtain ⟨m, hm, hrun⟩ := run_cons_ok h
  rcases run_goesOn (.inr (initializeMgr_goesOn he hr hm)) hrun with hst | hg
  · rw [hs] at hst
    cases hst
  · exact ⟨hg.connect, hg.update⟩

/-- With the first socket there is a tick. -/
theorem neverIdle_connected : ∃ t, run (step .sample .little) new Act.connected = .ok t ∧
    t.clientSocket ≠ none ∧ .update ∈ t.handlers := by
  obtain ⟨t, ht, hp⟩ := ok_of_any (p := fun t => t.hasOpenSocket && !t.stopped)
    (x := run (step .sample .little) new Act.connected) (by decide +kernel)
  simp only [Bool.and_eq_true, Bool.not_eq_true'] at hp
  have hsome : t.clientSocket ≠ none := by
    intro hn
    rw [hasOpenSocket, hn] at hp
    cases hp.1
  exact ⟨t, ht, hsome, (neverIdle .sample .little (fun _ => some 0x7F000001) (by decide)
    (by decide) [.timerExpires, .runNext] ht hp.2).2 hsome⟩

end ClientSocketMgr

end WarheadDiscord

import WarheadDiscord.Client.Liveness

/-!
# Connecting anew, and shutting down

A socket that is closed is noticed by the next tick, which lets go of it and leaves a
connect continuation behind.  Both are handlers of the timer, so that it is a matter of
their queue when they run.

* `reconnects`: **a connection that is lost is tried anew**, after the handlers that are
  outstanding when it is lost and those that are outstanding when this was noticed.
* `shutdown_runs`: **after a stop the handlers come to an end**: a tick is the last of its
  chain, and a connect continuation adds one tick at most.
-/

namespace WarheadDiscord

open Lib

namespace ClientSocketMgr

variable {env : Env} {e : Endian} {m m₀ t u : ClientSocketMgr} {a : Act}

/-! ### Without an open socket -/

/-- The manager has stopped, or it has tried a connection that `m₀` had not tried. -/
def TriedSince (m₀ t : ClientSocketMgr) : Prop :=
  t.stopped = true ∨ m₀.connects.length < t.connects.length

theorem step_connects_le (h : m.step env e a = .ok t) : m.connects.length ≤ t.connects.length := by
  have hdisconnect : ∀ {m : ClientSocketMgr}, m.disconnect = .ok t → t.connects = m.connects := by
    intro m hd
    obtain ⟨timer, -, rfl⟩ := disconnect_ok hd
    rfl
  have hupdate : ∀ {m : ClientSocketMgr} {tick : Tick}, m.update tick = .ok t →
      t.connects = m.connects := by
    intro m tick hu
    rcases update_cases hu with ⟨-, rfl⟩ | ⟨-, timer, -, ⟨-, rfl⟩ | ⟨c, -, -, rfl⟩ |
      ⟨c, arrived, -, -, rfl⟩⟩ <;> rfl
  cases a with
  | initializeMgr resolve =>
    rcases initializeMgr_cases h with ⟨-, rfl⟩ | ⟨-, m₁, rfl, ⟨-, rfl⟩ | ⟨address, -, rfl⟩⟩ <;>
      exact Nat.le_refl _
  | connectToServer n =>
    obtain ⟨timer, -, rfl⟩ := connectToServer_ok h
    exact Nat.le_refl _
  | disconnect => exact (congrArg List.length (hdisconnect h)).ge
  | update tick => exact (congrArg List.length (hupdate h)).ge
  | addPacketToQueue p => cases h; exact Nat.le_refl _
  | timerExpires =>
    cases h
    rw [timerExpires]
    split <;> exact Nat.le_refl _
  | runHandler i clock tick connected =>
    rw [step] at h
    split at h
    · cases h
      exact Nat.le_refl _
    · rename_i handler hi
      cases handler with
      | update => exact (congrArg List.length (hupdate h)).ge
      | connect n =>
        rw [runHandler, connect] at h
        split at h
        · cases h
          exact Nat.le_refl _
        · split at h
          · cases h
            exact Nat.le_refl _
          · exact (connectLoop_connects h).length_le
  | socketEvent which clock event =>
    rcases socketEvent_cases h with ⟨-, rfl⟩ | ⟨c, d, -, -, hd | rfl⟩
    · exact Nat.le_refl _
    · rw [hdisconnect hd]
      cases which <;> exact Nat.le_refl _
    · cases which <;> exact Nat.le_refl _

theorem step_triedSince (hm : TriedSince m₀ m) (h : m.step env e a = .ok t) : TriedSince m₀ t :=
  hm.imp (step_stopped h) fun hlt => hlt.trans_le (step_connects_le h)

/-- The manager goes on, and it has no open socket. -/
structure Disconnected (e : Endian) (m₀ m : ClientSocketMgr) : Prop where
  sound : Sound e m
  goesOn : m.GoesOn
  hasOpenSocket : m.hasOpenSocket = false
  connects : m₀.connects.length ≤ m.connects.length

theorem Sound.closed_of_hasOpenSocket (hm : Sound e m) (ho : m.hasOpenSocket = false)
    {c : ClientSocket} (hc : m.clientSocket = some c) : c.session.socket.closed = true := by
  rw [hasOpenSocket, hc, Option.any_some, (hm.inv c (mem_sockets hc)).session.isOpen_eq] at ho
  simpa using ho

/-- A connect continuation that runs without an open socket tries, or it stops. -/
theorem connect_triedSince {connected : Nat → Bool} {n : UInt32} (ho : m.hasOpenSocket = false)
    (ha : m.address ≠ none) (hle : m₀.connects.length ≤ m.connects.length)
    (h : m.connect env connected n = .ok t) : TriedSince m₀ t := by
  by_cases hn : n.toNat = 0
  · refine .inl ?_
    rw [connect, if_neg (by rw [ho]; decide), hn] at h
    split at h
    · rename_i hnone
      exact absurd hnone ha
    · exact disconnect_goesOn h
  · exact .inr (hle.trans_lt (connect_tries ho ha hn h))

theorem update_noSocket {tick : Tick}
    (hclosed : ∀ c, m.clientSocket = some c → c.session.socket.closed = true)
    (h : m.update tick = .ok t) : t.stopped = true ∨ t.clientSocket = none := by
  rcases update_cases h with ⟨hs, rfl⟩ | ⟨-, timer, -, ⟨hn, rfl⟩ | ⟨c, -, -, rfl⟩ |
    ⟨c, arrived, hc, hopen, -⟩⟩
  · exact .inl hs
  · exact .inr hn
  · exact .inr rfl
  · rw [hclosed c hc] at hopen
    cases hopen

theorem socketEvent_noSocket {which : Option Nat} {event : ClientSocket.Event} (hm : Sound e m)
    (ho : m.hasOpenSocket = false) (h : m.socketEvent env e which event = .ok t) :
    t.stopped = true ∨
      t.hasOpenSocket = false ∧ (m.clientSocket = none → t.clientSocket = none) := by
  rcases socketEvent_cases h with ⟨-, rfl⟩ | ⟨c, d, hc, hd, hstop | rfl⟩
  · exact .inr ⟨ho, id⟩
  · exact .inl (disconnect_goesOn hstop)
  · cases which with
    | none =>
      have hcs : m.clientSocket = some c := hc
      have hclosed := hm.closed_of_hasOpenSocket ho hcs
      have hi := hm.inv c (mem_sockets hcs)
      have hdc := (ClientSocket.handle_received hi hd).closed hclosed
      refine .inr ⟨?_, fun hn => (by rw [hcs] at hn; cases hn)⟩
      show d.session.isOpen = false
      rw [(ClientSocket.handle_inv hi hd).session.isOpen_eq, hdc]
      rfl
    | some k => exact .inr ⟨ho, id⟩

/-- **A step without an open socket** tries a connection or stops, or it leaves things as they
are.  A socket that the manager has let go of does not come back by itself. -/
theorem step_disconnected (hm : Disconnected e m₀ m) (h : m.step env e a = .ok t) :
    TriedSince m₀ t ∨
      Disconnected e m₀ t ∧ (m.clientSocket = none → t.clientSocket = none) := by
  have hconn := hm.connects.trans (step_connects_le h)
  rcases step_goesOn hm.goesOn h with hst | hg
  · exact .inl (.inl hst)
  -- only the open socket is left to be looked at
  suffices hw : TriedSince m₀ t ∨
      t.hasOpenSocket = false ∧ (m.clientSocket = none → t.clientSocket = none) from
    hw.imp_right fun hx => ⟨⟨step_sound hm.sound h, hg, hx.1, hconn⟩, hx.2⟩
  have hclosed : ∀ c, m.clientSocket = some c → c.session.socket.closed = true :=
    fun c hc => hm.sound.closed_of_hasOpenSocket hm.hasOpenSocket hc
  have hupdate : ∀ {v : ClientSocketMgr} {tick : Tick}, v.clientSocket = m.clientSocket →
      v.update tick = .ok t → TriedSince m₀ t ∨
        t.hasOpenSocket = false ∧ (m.clientSocket = none → t.clientSocket = none) := by
    intro v tick hv hu
    refine (update_noSocket (by rw [hv]; exact hclosed) hu).imp .inl fun hn => ⟨?_, fun _ => hn⟩
    rw [ClientSocketMgr.hasOpenSocket, hn]
    rfl
  cases a with
  | initializeMgr resolve =>
    rcases initializeMgr_cases h with ⟨-, rfl⟩ | ⟨-, m₁, rfl, ⟨-, rfl⟩ | ⟨address, -, rfl⟩⟩ <;>
      exact .inr ⟨hm.hasOpenSocket, id⟩
  | connectToServer n =>
    obtain ⟨timer, -, rfl⟩ := connectToServer_ok h
    exact .inr ⟨hm.hasOpenSocket, id⟩
  | disconnect => exact .inl (.inl (disconnect_goesOn h))
  | update tick => exact hupdate rfl h
  | addPacketToQueue p => cases h; exact .inr ⟨hm.hasOpenSocket, id⟩
  | timerExpires =>
    cases h
    rw [timerExpires]
    split <;> exact .inr ⟨hm.hasOpenSocket, id⟩
  | runHandler i clock tick connected =>
    rw [step] at h
    split at h
    · cases h
      exact .inr ⟨hm.hasOpenSocket, id⟩
    · rename_i handler hi
      cases handler with
      | update => exact hupdate (v := { m with ready := m.ready.eraseIdx i }) rfl h
      | connect n =>
        exact .inl (connect_triedSince (m := { m with ready := m.ready.eraseIdx i })
          hm.hasOpenSocket hm.goesOn.address hm.connects h)
  | socketEvent which clock event =>
    exact (socketEvent_noSocket hm.sound hm.hasOpenSocket h).imp_left .inl

/-! ### Turns -/

/-- The first of the queued handlers runs. -/
def Act.isRunFirst : Act → Bool
  | .runHandler 0 _ _ _ => true
  | _ => false

/-- At some moment the timer expires, and after it the first handler runs `n` times or more.
Whatever else happens, and when, is left open. -/
def Turn (n : Nat) (acts : List Act) : Prop :=
  ∃ pre post, acts = pre ++ .timerExpires :: post ∧ n ≤ post.countP Act.isRunFirst

theorem runs_of_isRunFirst (m : ClientSocketMgr) (a : Act) (ha : a.isRunFirst = true)
    (hr : 0 < m.ready.length) : a.runs m = some 0 := by
  cases a with
  | runHandler i clock tick connected =>
    cases i with
    | zero => exact if_pos hr
    | succ i => cases ha
  | _ => cases ha

theorem timerExpires_ready (h : m.step env e .timerExpires = .ok t) :
    t.ready.length = t.handlers.length := by
  cases h
  rw [handlers]
  unfold timerExpires
  split
  · rename_i hn
    rw [hn]
    simp
  · simp

theorem ready_of_handlers {i : Nat} {handler : TimerHandler} (hi : a.runs m = some i)
    (hx : m.handlers[i]? = some handler) : m.ready[i]? = some handler ∧
      ∃ clock tick connected, a = .runHandler i clock tick connected := by
  have hlt := runs_lt hi
  rw [handlers, List.getElem?_append_left hlt] at hx
  refine ⟨hx, ?_⟩
  cases a with
  | runHandler j clock tick connected =>
    rw [Act.runs] at hi
    split at hi <;> cases hi
    exact ⟨clock, tick, connected, rfl⟩
  | _ => cases hi

/-- Without a socket one turn is enough for the connect continuation, -/
theorem connects_of_turn {acts : List Act} (hm : Disconnected e m₀ m) (hn : m.clientSocket = none)
    (h : run (step env e) m acts = .ok t) (hturn : Turn m.outstanding acts) : TriedSince m₀ t := by
  obtain ⟨pre, post, rfl, hcount⟩ := hturn
  rw [outstanding_eq] at hcount
  obtain ⟨n, hmem⟩ := hm.goesOn.connect hn
  refine (handlerQueue env e).served (P := Disconnected e m₀) (p := fun x => x != .update)
    (fun s a t hs ht => (step_disconnected hs ht).imp_right And.left) ?_
    (fun s a t hs ht => step_triedSince hs ht) runs_of_isRunFirst (fun s t => timerExpires_ready)
    hm ⟨_, hmem, rfl⟩ h hcount
  intro s a t i x hs hi hx hp ht
  obtain ⟨hready, clock, tick, connected, rfl⟩ := ready_of_handlers hi hx
  cases x with
  | update => cases hp
  | connect n =>
    rw [step, hready] at ht
    exact connect_triedSince (m := { s with ready := s.ready.eraseIdx i }) hs.hasOpenSocket
      hs.goesOn.address hs.connects ht

/-- and with a closed socket one turn is enough for a tick to let go of it. -/
theorem noticed_of_turn {acts : List Act} (hm : Disconnected e m₀ m) (hn : m.clientSocket ≠ none)
    (h : run (step env e) m acts = .ok t) (hturn : Turn m.outstanding acts) :
    TriedSince m₀ t ∨ Disconnected e m₀ t ∧ t.clientSocket = none := by
  obtain ⟨pre, post, rfl, hcount⟩ := hturn
  rw [outstanding_eq] at hcount
  refine (handlerQueue env e).served (P := Disconnected e m₀) (p := fun x => x == .update)
    (Q := fun t => TriedSince m₀ t ∨ Disconnected e m₀ t ∧ t.clientSocket = none)
    (fun s a t hs ht => (step_disconnected hs ht).elim (fun h => .inl (.inl h))
      fun h => .inr h.1) ?_ ?_ runs_of_isRunFirst (fun s t => timerExpires_ready) hm
    ⟨_, hm.goesOn.update hn, by decide⟩ h hcount
  · intro s a t i x hs hi hx hp ht
    obtain ⟨hready, clock, tick, connected, rfl⟩ := ready_of_handlers hi hx
    obtain rfl := eq_of_beq hp
    have hu : ({ s with ready := s.ready.eraseIdx i } : ClientSocketMgr).update tick = .ok t := by
      rw [step, hready] at ht
      exact ht
    rcases update_noSocket (m := { s with ready := s.ready.eraseIdx i })
      (fun c hc => hs.sound.closed_of_hasOpenSocket hs.hasOpenSocket hc) hu with hst | hnone
    · exact .inl (.inl hst)
    · exact (step_disconnected hs ht).imp_right fun hd => ⟨hd.1, hnone⟩
  · rintro s a t (hs | ⟨hs, hnone⟩) ht
    · exact .inl (step_triedSince hs ht)
    · exact (step_disconnected hs ht).imp_right fun hd => ⟨hd.1, hd.2 hnone⟩

/-- **A connection that is lost is tried anew.**  Let `Initialize` have found the server, and
let a run have led to a state without an open socket.  Two turns later the manager has stopped,
or it has tried another connection: one turn for the handlers that are outstanding at first, and
one for those that are outstanding after it. -/
theorem reconnects (env : Env) (e : Endian) (resolve : List UInt8 → Option IpAddress)
    (he : env.config.serverEnable = true) (hr : (resolve env.config.serverHost).isSome = true)
    {acts acts₁ acts₂ : List Act}
    (h : run (step env e) new (.initializeMgr resolve :: acts) = .ok m)
    (ho : m.hasOpenSocket = false) (h₁ : run (step env e) m acts₁ = .ok u)
    (h₂ : run (step env e) u acts₂ = .ok t) (hturn₁ : Turn m.outstanding acts₁)
    (hturn₂ : Turn u.outstanding acts₂) :
    t.stopped = true ∨ m.connects.length < t.connects.length := by
  have hsound : Sound e m := run_sound h
  obtain ⟨m₁, hm₁, hrun⟩ := run_cons_ok h
  have hstay : TriedSince m u → TriedSince m t := fun hu =>
    run_invariant (fun s a t hs ht => step_triedSince hs ht) acts₂ u t hu h₂
  rcases run_goesOn (.inr (initializeMgr_goesOn he hr hm₁)) hrun with hst | hg
  · have hu : u.stopped = true := run_invariant (fun s a t hs ht => step_stopped ht hs) acts₁ m u
      hst h₁
    exact hstay (.inl hu)
  have hd : Disconnected e m m := ⟨hsound, hg, ho, Nat.le_refl _⟩
  by_cases hn : m.clientSocket = none
  · exact hstay (connects_of_turn hd hn h₁ hturn₁)
  · rcases noticed_of_turn hd hn h₁ hturn₁ with hu | ⟨hu, hnone⟩
    · exact hstay hu
    · exact connects_of_turn hu hnone h₂ hturn₂

/-- The connection ends, a tick notices it, and the continuation that it leaves runs behind the
tick that it leaves too. -/
theorem reconnects_afterError : ∃ m u t,
    run (step .sample .little) new (Act.connected ++ [.socketEvent none Int64.ofNat .readError]) =
      .ok m ∧
    run (step .sample .little) m [.timerExpires, .runNext] = .ok u ∧
    run (step .sample .little) u [.timerExpires, .runNext, .runNext] = .ok t ∧
    m.connects.length < t.connects.length := by
  obtain ⟨m, hm, hp⟩ := ok_of_any (p := fun m => !m.hasOpenSocket && m.outstanding == 1)
    (x := run (step .sample .little) new
      (Act.connected ++ [.socketEvent none Int64.ofNat .readError])) (by decide +kernel)
  obtain ⟨u, hu, hq⟩ := ok_of_any (p := fun u => u.outstanding == 2)
    (x := run (step .sample .little) new ((Act.connected ++
      [.socketEvent none Int64.ofNat .readError]) ++ [.timerExpires, .runNext]))
    (by decide +kernel)
  obtain ⟨t, ht, hs⟩ := ok_of_any (p := fun t => !t.stopped)
    (x := run (step .sample .little) new ((Act.connected ++
      [.socketEvent none Int64.ofNat .readError] ++ [.timerExpires, .runNext]) ++
      [.timerExpires, .runNext, .runNext])) (by decide +kernel)
  rw [run_append_of_ok hu] at ht
  rw [run_append_of_ok hm] at hu
  simp only [Bool.and_eq_true, Bool.not_eq_true', beq_iff_eq] at hp hq hs
  refine ⟨m, u, t, hm, hu, ht, ?_⟩
  have hfound := reconnects .sample .little (fun _ => some 0x7F000001) (by decide) (by decide)
    hm hp.1 hu ht ⟨[], _, rfl, by rw [hp.2]; decide⟩ ⟨[], _, rfl, by rw [hq]; decide⟩
  exact hfound.resolve_left (by rw [hs]; decide)

/-! ### After a stop -/

/-- The handlers that a handler comes to once the manager is stopped: itself, and behind a
connect continuation one tick at most. -/
def cost : TimerHandler → Nat
  | .update => 1
  | .connect _ => 2

/-- The handlers that may still run, those that others leave behind included. -/
def remaining (m : ClientSocketMgr) : Nat := (m.handlers.map cost).sum

/-- What the functions that set the timer add to them when they are called. -/
def Act.adds : Act → Nat
  | .initializeMgr _ | .connectToServer _ => 2
  | _ => 0

theorem remaining_of_append {new : List TimerHandler} (h : t.handlers = m.handlers ++ new) :
    t.remaining = m.remaining + (new.map cost).sum := by
  rw [remaining, remaining, h, List.map_append, List.sum_append]

theorem remaining_of_eq (h : t.handlers = m.handlers) : t.remaining = m.remaining := by
  rw [remaining, remaining, h]

theorem remaining_le (m : ClientSocketMgr) : m.remaining ≤ 2 * m.outstanding := by
  rw [outstanding_eq, remaining]
  induction m.handlers with
  | nil => exact Nat.le_refl _
  | cons x l ih =>
    rw [List.map_cons, List.sum_cons, List.length_cons]
    cases x <;> simp only [cost] <;> omega

theorem remaining_eraseIdx {i : Nat} {handler : TimerHandler} (hi : m.ready[i]? = some handler) :
    ({ m with ready := m.ready.eraseIdx i } : ClientSocketMgr).remaining + cost handler =
      m.remaining := by
  obtain ⟨hlt, hget⟩ := List.getElem?_eq_some_iff.mp hi
  have hlen : i < m.handlers.length := by
    rw [handlers, List.length_append]
    omega
  have hx : m.handlers[i] = handler := by
    rw [← hget]
    exact List.getElem_append_left hlt
  have hperm := (List.getElem_cons_eraseIdx_perm hlen).map cost
  rw [List.map_cons, hx] at hperm
  have hsum := hperm.sum_nat
  rw [List.sum_cons] at hsum
  rw [remaining, remaining, eraseIdx_handlers hi, ← hsum, Nat.add_comm]

/-- **A step after the stop.**  A handler that runs lowers what remains. -/
theorem step_remaining (hs : m.stopped = true) (h : m.step env e a = .ok t) :
    t.stopped = true ∧
      t.remaining + (if (a.runs m).isSome then 1 else 0) ≤ m.remaining + a.adds := by
  refine ⟨step_stopped h hs, ?_⟩
  have hupdate : ∀ {v : ClientSocketMgr} {tick : Tick}, v.stopped = true →
      v.update tick = .ok t → t = v := by
    intro v tick hv hu
    rcases update_cases hu with ⟨-, rfl⟩ | ⟨hn, -⟩
    · rfl
    · rw [hv] at hn
      cases hn
  cases a with
  | initializeMgr resolve =>
    rcases initializeMgr_handlers h with hh | hh
    · exact (remaining_of_eq hh).le.trans (Nat.le_add_right _ _)
    · exact (remaining_of_append hh).le
  | connectToServer n =>
    obtain ⟨timer, ht, rfl⟩ := connectToServer_ok h
    exact (remaining_of_append (rearmed_handlers ht _)).le
  | disconnect => exact (remaining_of_eq (disconnect_handlers h)).le
  | update tick =>
    obtain rfl := hupdate hs h
    exact Nat.le_refl _
  | addPacketToQueue p => cases h; exact Nat.le_refl _
  | timerExpires => cases h; exact (remaining_of_eq (timerExpires_handlers m)).le
  | runHandler i clock tick connected =>
    rw [step] at h
    rw [Act.runs]
    cases hi : m.ready[i]? with
    | none =>
      rw [hi] at h
      cases h
      rw [if_neg (Nat.not_lt.mpr (List.getElem?_eq_none_iff.mp hi))]
      exact Nat.le_refl _
    | some handler =>
      obtain ⟨hlt, -⟩ := List.getElem?_eq_some_iff.mp hi
      have herase := remaining_eraseIdx hi
      rw [hi] at h
      rw [if_pos hlt, Option.isSome_some, if_pos rfl, ← herase]
      cases handler with
      | update =>
        obtain rfl := hupdate (v := { m with ready := m.ready.eraseIdx i }) hs h
        exact Nat.le_refl _
      | connect n =>
        have hcost : cost (.connect n) = 2 := rfl
        have hadds : (Act.runHandler i clock tick connected).adds = 0 := rfl
        rw [hcost, hadds]
        rcases connect_handlers h with ⟨-, rfl⟩ | ⟨-, hh⟩ | ⟨hh, -⟩
        · omega
        · rw [remaining_of_eq hh]
          omega
        · have hsum : ([TimerHandler.update].map cost).sum = 1 := rfl
          rw [remaining_of_append hh, hsum]
  | socketEvent which clock event => exact (remaining_of_eq (socketEvent_handlers h)).le

/-- **After a stop the handlers come to an end.**  From a state with the stop set, however it was
reached, no more handlers run than one for each tick and two for each connect continuation that
are outstanding, and two more for each later call of `Initialize` or `ConnectToServer`. -/
theorem shutdown_runs (env : Env) (e : Endian) (acts : List Act) (hs : m.stopped = true)
    (h : run (step env e) m acts = .ok t) :
    t.remaining + tally (step env e) (fun m a => (a.runs m).isSome) m acts ≤
        m.remaining + (acts.map Act.adds).sum ∧
      m.remaining ≤ 2 * m.outstanding := by
  refine ⟨?_, remaining_le m⟩
  exact tally_le_potential (I := fun m => m.stopped = true) (C := fun _ _ => True)
    (fun s a t hs _ ht => step_remaining hs ht) acts m t hs
    (each_of_forall acts m fun _ _ _ => trivial) h

/-- A stop while the first connection is waited for: the continuation runs, and its tick. -/
theorem shutdown_runs_connecting : ∃ m t,
    run (step .sample .little) new [.initializeMgr fun _ => some 0x7F000001, .disconnect] =
      .ok m ∧
    run (step .sample .little) m [.runNext, .timerExpires, .runNext, .runNext] = .ok t ∧
    m.remaining = 2 ∧
    tally (step .sample .little) (fun m a => (a.runs m).isSome) m
      [.runNext, .timerExpires, .runNext, .runNext] ≤ 2 := by
  obtain ⟨m, hm, hp⟩ := ok_of_any (p := fun m => m.stopped && m.remaining == 2)
    (x := run (step .sample .little) new [.initializeMgr fun _ => some 0x7F000001, .disconnect])
    (by decide +kernel)
  obtain ⟨t, ht, -⟩ := ok_of_any (p := fun _ => true)
    (x := run (step .sample .little) new
      ([Act.initializeMgr fun _ => some 0x7F000001, .disconnect] ++
        [Act.runNext, .timerExpires, .runNext, .runNext])) (by decide +kernel)
  rw [run_append_of_ok hm] at ht
  simp only [Bool.and_eq_true, beq_iff_eq] at hp
  refine ⟨m, t, hm, ht, hp.2, ?_⟩
  have hle := (shutdown_runs .sample .little _ hp.1 ht).1
  rw [hp.2] at hle
  exact (Nat.le_add_left _ _).trans hle

end ClientSocketMgr

end WarheadDiscord

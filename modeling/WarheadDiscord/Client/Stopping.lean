import WarheadDiscord.Client.Delivery

/-!
# After `Disconnect`

`Disconnect` takes the socket away and sets the stop, which `Update` looks at.  The
continuation of `ConnectToServer` does not.  One that is outstanding still runs, since the
cancelled wait completes as well, and a later `ConnectToServer` or `Initialize` adds one.

* `step_quiet`, `step_connects`: what a step does after the stop, when it is a connect
  continuation that gets past its tests and when it is not.
* `disconnect_final_iff`: nothing is connected, created or sent after `Disconnect` exactly
  when no such continuation runs.
-/

namespace WarheadDiscord

open Lib

/-- A packet of `SendAuthSession`. -/
def Written.isAuthSession (w : Written) : Bool :=
  w.origin == .session && w.packet.opcode == DiscordCode.clientAuthSession.value

namespace Holdings

variable {e : Endian} {h h' : Holdings}

/-- Without a socket of its own the manager has only closed ones, and these write nothing. -/
theorem event_written_of_none (hi : ∀ c ∈ h.sockets, ClientSocket.Inv e c) (hf : h.Former)
    (hn : h.clientSocket = none) (he : Event e h h') :
    h'.clientSocket = none ∧ h'.retired.length = h.retired.length ∧ h'.written = h.written := by
  cases he with
  | none => exact ⟨hn, rfl, rfl⟩
  | current hc hd =>
    rw [hn] at hc
    cases hc
  | former hc hd =>
    have hmem := List.mem_of_getElem? hc
    have hr := ClientSocket.handle_received (hi _ (List.mem_append_left _ hmem)) hd
    refine ⟨hn, List.length_set .., ?_⟩
    rw [written_eq, written_eq, flatMap_set_of_eq hc (hr.written_of_closed (hf _ hmem))]

end Holdings

namespace ClientSocketMgr

variable {env : Env} {e : Endian} {m t u : ClientSocketMgr} {a : Act}

/-- The auth sessions that were sent. -/
def authSessions (m : ClientSocketMgr) : List Written :=
  m.holdings.written.filter Written.isAuthSession

/-- From `m` to `t` no connection was tried, no `ClientSocket` made and no auth session sent. -/
structure Final (m t : ClientSocketMgr) : Prop where
  connects : t.connects = m.connects
  clientSocket : t.clientSocket = none
  retired : t.retired.length = m.retired.length
  authSessions : t.authSessions = m.authSessions

/-- **The condition on a step.**  It is no connect continuation that finds an address and has
an attempt to make. -/
def ConnectsNothing (m : ClientSocketMgr) : Act → Prop
  | .runHandler i _ _ _ =>
    ∀ n, m.ready[i]? = some (.connect n) → m.address = none ∨ n.toNat = 0
  | _ => True

/-- The manager after a stop: it has no socket. -/
structure Stopped (e : Endian) (m : ClientSocketMgr) : Prop where
  sound : Sound e m
  stopped : m.stopped = true
  clientSocket : m.clientSocket = none

theorem Stopped.hasOpenSocket (h : Stopped e m) : m.hasOpenSocket = false := by
  rw [ClientSocketMgr.hasOpenSocket, h.clientSocket]
  rfl

/-! ### A step after the stop -/

/-- From `m` to `t` nothing was written, and no socket was made. -/
structure Quiet (m t : ClientSocketMgr) : Prop where
  connects : t.connects = m.connects
  clientSocket : t.clientSocket = none
  retired : t.retired.length = m.retired.length
  written : t.holdings.written = m.holdings.written

theorem Quiet.final (h : Quiet m t) (hf : Final u m) : Final u t :=
  ⟨h.connects.trans hf.connects, h.clientSocket, h.retired.trans hf.retired,
    (congrArg (List.filter _) h.written).trans hf.authSessions⟩

theorem Quiet.refl (h : m.clientSocket = none) : Quiet m m := ⟨rfl, h, rfl, rfl⟩

theorem Quiet.trans (h : Quiet m t) (g : Quiet t u) : Quiet m u :=
  ⟨g.connects.trans h.connects, g.clientSocket, g.retired.trans h.retired,
    g.written.trans h.written⟩

theorem disconnect_quiet (hn : m.clientSocket = none) (h : m.disconnect = .ok t) :
    Quiet m t := by
  obtain ⟨timer, -, rfl⟩ := disconnect_ok h
  refine ⟨rfl, rfl, ?_, ?_⟩
  · rw [hn]
    simp
  · rw [Holdings.written_eq, Holdings.written_eq]
    simp [holdings, hn]

theorem socketEvent_quiet {which : Option Nat} {event : ClientSocket.Event} (hm : Stopped e m)
    (h : m.socketEvent env e which event = .ok t) : Quiet m t := by
  rcases socketEvent_cases h with ⟨-, rfl⟩ | ⟨c, d, hc, hd, ht⟩
  · exact .refl hm.clientSocket
  · obtain ⟨hn, hlen, hw⟩ := Holdings.event_written_of_none hm.sound.inv hm.sound.former
      hm.clientSocket (setSocket_event hc hd)
    have hset : Quiet m (m.setSocket d which) := ⟨by cases which <;> rfl, hn, hlen, hw⟩
    rcases ht with ht | rfl
    · exact hset.trans (disconnect_quiet hn ht)
    · exact hset

theorem connect_quiet {connected : Nat → Bool} {n : UInt32} (hn : m.clientSocket = none)
    (hc : m.address = none ∨ n.toNat = 0) (h : m.connect env connected n = .ok t) :
    Quiet m t := by
  rw [connect] at h
  split at h
  · cases h
    exact .refl hn
  · split at h
    · cases h
      exact .refl hn
    · rename_i address ha
      rcases hc with hc | hc
      · rw [ha] at hc
        cases hc
      · rw [hc, connectLoop] at h
        exact disconnect_quiet hn h

/-- **A step after the stop that connects nothing.** -/
theorem step_quiet (hm : Stopped e m) (hc : ConnectsNothing m a) (h : m.step env e a = .ok t) :
    Quiet m t := by
  have hupdate : ∀ (m' : ClientSocketMgr) {tick : Tick}, m'.stopped = true →
      m'.update tick = .ok t → t = m' := by
    intro m' tick hs hu
    rcases update_cases hu with ⟨-, rfl⟩ | ⟨hn, -⟩
    · rfl
    · rw [hs] at hn
      cases hn
  cases a with
  | initializeMgr resolve =>
    rcases initializeMgr_cases h with ⟨-, rfl⟩ | ⟨-, m₁, rfl, ⟨-, rfl⟩ | ⟨address, -, rfl⟩⟩ <;>
      exact ⟨rfl, hm.clientSocket, rfl, rfl⟩
  | connectToServer n =>
    obtain ⟨timer, -, rfl⟩ := connectToServer_ok h
    exact ⟨rfl, hm.clientSocket, rfl, rfl⟩
  | disconnect => exact disconnect_quiet hm.clientSocket h
  | update tick =>
    obtain rfl := hupdate m hm.stopped h
    exact .refl hm.clientSocket
  | addPacketToQueue p =>
    cases h
    exact ⟨rfl, hm.clientSocket, rfl, rfl⟩
  | timerExpires =>
    cases h
    rw [timerExpires]
    split
    · exact .refl hm.clientSocket
    · exact ⟨rfl, hm.clientSocket, rfl, rfl⟩
  | runHandler i clock tick connected =>
    rw [step] at h
    split at h
    · cases h
      exact .refl hm.clientSocket
    · rename_i handler hi
      have herase : Quiet m { m with ready := m.ready.eraseIdx i } :=
        ⟨rfl, hm.clientSocket, rfl, rfl⟩
      cases handler with
      | update =>
        obtain rfl := hupdate { m with ready := m.ready.eraseIdx i } hm.stopped h
        exact herase
      | connect n => exact herase.trans (connect_quiet hm.clientSocket (hc n hi) h)
  | socketEvent which clock event => exact socketEvent_quiet hm h

theorem startSocket_connects (h : m.startSocket env = .ok t) : t.connects = m.connects := by
  obtain ⟨m₁, c, timer, hm, -, -, rfl⟩ := startSocket_ok h
  rcases hm with rfl | hd
  · rfl
  · obtain ⟨timer, -, rfl⟩ := disconnect_ok hd
    rfl

/-- The loop only adds to the connections that were tried, -/
theorem connectLoop_connects {address : IpAddress} {connected : Nat → Bool} {n : Nat}
    (h : connectLoop env address connected n m = .ok t) : m.connects <+: t.connects := by
  obtain ⟨connects, hd | hs⟩ := connectLoop_cases n connected m h
  · obtain ⟨timer, -, rfl⟩ := disconnect_ok hd
    exact ⟨connects, rfl⟩
  · rw [startSocket_connects hs]
    exact ⟨connects, rfl⟩

/-- and it tries at least one when it has an attempt to make. -/
theorem connectLoop_tries {address : IpAddress} {connected : Nat → Bool} {n : Nat}
    (h : connectLoop env address connected (n + 1) m = .ok t) :
    m.connects.length < t.connects.length := by
  rw [connectLoop] at h
  obtain ⟨timer, -, h⟩ := bind_ok h
  dsimp only at h
  split at h
  · rw [startSocket_connects h]
    simp
  · have hle := (connectLoop_connects h).length_le
    rw [List.length_append, List.length_singleton] at hle
    omega

theorem connect_tries {connected : Nat → Bool} {n : UInt32} (ho : m.hasOpenSocket = false)
    (ha : m.address ≠ none) (hn : n.toNat ≠ 0) (h : m.connect env connected n = .ok t) :
    m.connects.length < t.connects.length := by
  obtain ⟨k, hk⟩ := Nat.exists_eq_succ_of_ne_zero hn
  rw [connect, if_neg (by rw [ho]; decide), hk] at h
  split at h
  · rename_i hnone
    exact absurd hnone ha
  · exact connectLoop_tries h

/-- **A step after the stop that does connect.** -/
theorem step_connects (hm : Stopped e m) (hc : ¬ ConnectsNothing m a)
    (h : m.step env e a = .ok t) : m.connects.length < t.connects.length := by
  cases a with
  | runHandler i clock tick connected =>
    rw [ConnectsNothing] at hc
    push Not at hc
    obtain ⟨n, hi, ha, hn⟩ := hc
    rw [step, hi] at h
    exact connect_tries (m := { m with ready := m.ready.eraseIdx i }) hm.hasOpenSocket ha hn h
  | _ => exact absurd trivial hc

/-! ### A run after the stop -/

theorem disconnect_stopped (hm : Sound e t) (h : m.disconnect = .ok t) : Stopped e t := by
  obtain ⟨timer, -, rfl⟩ := disconnect_ok h
  exact ⟨hm, rfl, rfl⟩

/-- **When `Disconnect` is final.**  Let a call of `Disconnect` have led to `t`, from whatever
state.  No later state has another connection tried, another `ClientSocket` made or another
auth session sent, exactly when no later step is a connect continuation that finds an address
and has an attempt to make. -/
theorem disconnect_final_iff (env : Env) (e : Endian) (pre acts : List Act)
    (h : run (step env e) new pre = .ok t) (hd : ∃ m : ClientSocketMgr, m.disconnect = .ok t) :
    (∀ u, Visits (step env e) t acts u → Final t u) ↔
      Each (step env e) ConnectsNothing t acts := by
  obtain ⟨m, hm⟩ := hd
  have ht := disconnect_stopped (run_sound (e := e) h) hm
  refine visits_iff_each (I := fun u => Sound e u ∧ u.stopped = true)
    (fun _ _ _ hi hs => ⟨step_sound hi.1 hs, step_stopped hs hi.2⟩) ?_ acts t
    ⟨ht.sound, ht.stopped⟩ ⟨rfl, ht.clientSocket, rfl, rfl⟩
  intro u a v hi hf hs
  have hu : Stopped e u := ⟨hi.1, hi.2, hf.clientSocket⟩
  constructor
  · intro hv
    by_contra hc
    have hlt := step_connects hu hc hs
    rw [hv.connects, hf.connects] at hlt
    exact Nat.lt_irrefl _ hlt
  · intro hc
    exact (step_quiet hu hc hs).final hf

/-- `Disconnect` while the manager has a socket, and the tick that was outstanding. -/
theorem disconnect_final_tick : ∃ t, run (step .sample .little) new
      (Act.connected ++ [.disconnect]) = .ok t ∧
    ∀ u, Visits (step .sample .little) t [.runNext] u → Final t u := by
  obtain ⟨m, hm, -⟩ := ok_of_any (p := fun _ => true)
    (x := run (step .sample .little) new Act.connected) (by decide +kernel)
  obtain ⟨t, ht, hready⟩ := ok_of_any (p := fun t => t.ready == [.update])
    (x := run (step .sample .little) new (Act.connected ++ [Act.disconnect])) (by decide +kernel)
  have hd : ∃ m : ClientSocketMgr, m.disconnect = .ok t := by
    refine ⟨m, ?_⟩
    rw [run_append_of_ok hm] at ht
    obtain ⟨t', ht', hr⟩ := run_cons_ok ht
    cases hr
    exact ht'
  refine ⟨t, ht, (disconnect_final_iff .sample .little _ [.runNext] ht hd).mpr ?_⟩
  refine fun _ _ => ⟨fun n hi => ?_, trivial⟩
  rw [eq_of_beq hready] at hi
  cases hi

/-- `Disconnect` while the first connection is waited for, and the wait that it cancelled. -/
theorem disconnect_then_connects : ∃ t u, run (step .sample .little) new
      [.initializeMgr fun _ => some 0x7F000001, .disconnect] = .ok t ∧
    run (step .sample .little) t [.runNext] = .ok u ∧ t.connects = [] ∧ t.authSessions = [] ∧
    u.connects = [⟨0x7F000001, 1000⟩] ∧ u.clientSocket.isSome = true ∧
    u.authSessions.length = 1 := by
  obtain ⟨t, ht, hp⟩ := ok_of_any
    (p := fun t => t.connects == [] && t.authSessions == [])
    (x := run (step .sample .little) new [.initializeMgr fun _ => some 0x7F000001, .disconnect])
    (by decide)
  obtain ⟨u, hu, hq⟩ := ok_of_any
    (p := fun u => u.connects == [⟨0x7F000001, 1000⟩] && u.clientSocket.isSome &&
      u.authSessions.length == 1)
    (x := run (step .sample .little) new
      ([Act.initializeMgr fun _ => some 0x7F000001, .disconnect] ++ [Act.runNext]))
    (by decide +kernel)
  rw [run_append_of_ok ht] at hu
  simp only [Bool.and_eq_true, beq_iff_eq] at hp hq
  exact ⟨t, u, ht, hu, hp.1, hp.2, hq.1.1, hq.1.2, hq.2⟩

end ClientSocketMgr

end WarheadDiscord

import WarheadDiscord.Client.ClientSocketMgr
import WarheadDiscord.Lib.Outcome

/-!
# Null pointers

The manager dereferences `_clientSocket` only behind a test of it.  `_updateTimer` it
dereferences without a test, in `Disconnect`, `Update` and `ConnectToServer`, and there
is a timer from the first `Initialize` on that finds Discord enabled.

* `step_ends`: with a timer no step dereferences a null pointer, and the timer stays.
* `step_idle`: without one, which steps do.
* `noNullPointer_iff`: after `Initialize` a run does so exactly when Discord is disabled
  and one of the three functions is called.
-/

namespace WarheadDiscord

open Lib

/-- A failure other than the access through a null pointer. -/
def Fault.NotNull (f : Fault) : Prop := ∀ member, f ≠ .nullPointer member

theorem Fault.assertion_notNull (cond : String) : (Fault.assertion cond).NotNull := by
  intro member h
  cases h

/-! ### The socket -/

variable {env : Env} {e : Endian}

theorem reaction_notNull {authed : Bool} {f : Frame} {fault : Fault}
    (h : reaction authed f = .throws fault) : fault.NotNull := by
  intro member hf
  subst hf
  rw [reaction] at h
  split at h
  · split at h
    · cases h
    · split at h
      · cases h
      · split at h
        · cases h
        · split at h <;> cases h
  · split at h
    · cases h
    · split at h <;> cases h
  · cases h

theorem readDataHandler_ends (s : ClientSession) (f : Frame) :
    Ends Fault.NotNull (fun _ => True) (s.readDataHandler env f.packet) := by
  rw [ClientSession.readDataHandler_eq]
  split
  · rename_i fault h
    exact reaction_notNull h
  all_goals trivial

namespace ReadSide

theorem readHeaderHandler_ends (r : ReadSide) :
    Ends Fault.NotNull (fun _ => True) (r.readHeaderHandler e) := by
  unfold readHeaderHandler
  dsimp only
  split
  · exact Fault.assertion_notNull _
  · split <;> trivial

theorem receiveHeader_ends (r : ReadSide) :
    Ends Fault.NotNull (fun _ => True) (r.receiveHeader e) := by
  unfold receiveHeader
  dsimp only
  split
  · split
    · split
      · exact Fault.assertion_notNull _
      · trivial
    · split
      · rename_i f hf
        exact (readHeaderHandler_ends _).of_error hf
      · trivial
  · trivial

theorem receivePayload_ends (r : ReadSide) :
    Ends Fault.NotNull (fun _ => True) r.receivePayload := by
  unfold receivePayload
  dsimp only
  split
  · split
    · split
      · exact Fault.assertion_notNull _
      · trivial
    · trivial
  · trivial

/-- The rounds of `ReadHandler` fail as their handler does, or with an assertion. -/
theorem readHandlerLoop_ends : ∀ (fuel : Nat) (r : ReadSide) (s : ClientSession),
    Ends Fault.NotNull (fun _ => True)
      (readHandlerLoop e (ClientSession.readDataHandler env) fuel r s) := by
  intro fuel
  induction fuel with
  | zero => intro r s member h; cases h
  | succ fuel ih =>
    intro r s
    rw [readHandlerLoop]
    split
    · split
      · rename_i f hf
        exact (receiveHeader_ends r).of_error hf
      · trivial
      · trivial
      · split
        · rename_i f hf
          exact (receivePayload_ends _).of_error hf
        · trivial
        · split
          · rename_i f hf
            exact (readDataHandler_ends s (ReadSide.takePacket e _).1.frame).of_error hf
          · split
            · exact ih _ _
            · trivial
            · trivial
    · trivial

end ReadSide

namespace ClientSocket

theorem step_ends (c : ClientSocket) (a : Act) :
    Ends Fault.NotNull (fun _ => True) (c.step env e a) := by
  cases a with
  | read chunk =>
    rw [step, readInternal]
    split
    · split
      · trivial
      · rename_i f hf
        exact (ReadSide.readHandlerLoop_ends _ _ _).of_error hf
    · trivial
  | _ => trivial

theorem begin_ends (env : Env) : Ends Fault.NotNull (fun _ => True) (begin env) := by
  rw [begin, start, new]
  dsimp only
  generalize ({ ClientSession.new env with held := true } : ClientSession) = s
  apply Ends.bind (P := fun _ => True)
  · by_cases h : (s.authSessionContent env).length < 10000008
    · rw [ClientSession.sendAuthSession_of_lt h]
      trivial
    · rw [ClientSession.sendAuthSession_of_le (by omega)]
      exact Fault.assertion_notNull _
  · intro t _
    trivial

end ClientSocket

/-! ### The manager -/

namespace ClientSocketMgr

variable {m : ClientSocketMgr} {a : Act}

/-- `_updateTimer` is not null. -/
def HasTimer (m : ClientSocketMgr) : Prop := ∃ timer, m.updateTimer = some timer

/-- A computation that keeps the timer and dereferences no null pointer. -/
abbrev Safe (x : Except Fault ClientSocketMgr) : Prop := Ends Fault.NotNull HasTimer x

theorem HasTimer.timer_ends (h : m.HasTimer) : Ends Fault.NotNull (fun _ => True) m.timer := by
  obtain ⟨timer, ht⟩ := h
  rw [ClientSocketMgr.timer, ht]
  trivial

theorem HasTimer.cancel (h : m.HasTimer) : Safe m.cancel :=
  h.timer_ends.bind fun _ _ => ⟨_, rfl⟩

theorem HasTimer.asyncWait (h : m.HasTimer) (handler : TimerHandler) :
    Safe (m.asyncWait handler) :=
  h.timer_ends.bind fun _ _ => ⟨_, rfl⟩

theorem HasTimer.disconnect (h : m.HasTimer) : Safe m.disconnect := by
  apply Ends.bind (P := HasTimer)
  · exact HasTimer.cancel (m := { m with stopped := true }) h
  · intro t ht
    exact ht

theorem HasTimer.connectToServer (h : m.HasTimer) (n : UInt32) : Safe (m.connectToServer n) :=
  h.cancel.bind fun _ h₁ => h₁.cancel.bind fun _ h₂ => h₂.asyncWait _

theorem drain_updateTimer (arrivals : List (List DiscordPacket)) (m : ClientSocketMgr) :
    (m.drain arrivals).updateTimer = m.updateTimer := by
  have hsend : ∀ (ps : List DiscordPacket) (t : ClientSocketMgr),
      (ps.foldl sendPacket t).updateTimer = t.updateTimer := by
    intro ps
    induction ps with
    | nil => intro t; rfl
    | cons p ps ih =>
      intro t
      rw [List.foldl_cons, ih, sendPacket]
      split <;> rfl
  unfold drain
  dsimp only
  rw [PacketQueue.whileNextWith_eq, PacketQueue.whileNext_eq_foldl, hsend]

theorem HasTimer.update (h : m.HasTimer) (tick : Tick) : Safe (m.update tick) := by
  rw [ClientSocketMgr.update]
  split
  · exact h
  · refine h.cancel.bind fun m₁ h₁ => (h₁.asyncWait _).bind fun m₂ h₂ => ?_
    split
    · exact h₂
    · dsimp only
      split
      · refine HasTimer.connectToServer ?_ 3
        exact h₂
      · split
        · exact h₂
        · show HasTimer (drain _ _)
          rw [HasTimer, drain_updateTimer]
          exact h₂

theorem HasTimer.startSocket (h : m.HasTimer) (env : Env) : Safe (m.startSocket env) := by
  apply Ends.bind (P := HasTimer)
  · rw [constructSocket]
    split
    · exact h.disconnect
    · exact h
  · intro m₁ h₁
    refine (ClientSocket.begin_ends env).bind fun c _ => ?_
    exact (HasTimer.cancel (m := { m₁.reset with clientSocket := some c }) h₁).bind
      fun _ h₂ => h₂.asyncWait _

theorem HasTimer.connectLoop (env : Env) (address : IpAddress) : ∀ (n : Nat)
    (connected : Nat → Bool) (m : ClientSocketMgr), m.HasTimer →
    Safe (connectLoop env address connected n m) := by
  intro n
  induction n with
  | zero => intro connected m h; exact h.disconnect
  | succ n ih =>
    intro connected m h
    refine h.timer_ends.bind fun _ _ => ?_
    dsimp only
    split
    · refine HasTimer.startSocket ?_ env
      exact h
    · refine ih _ _ ?_
      exact h

theorem HasTimer.runHandler (h : m.HasTimer) (env : Env) (tick : Tick) (connected : Nat → Bool)
    (handler : TimerHandler) : Safe (m.runHandler env tick connected handler) := by
  cases handler with
  | update => exact h.update tick
  | connect n =>
    rw [ClientSocketMgr.runHandler, connect]
    split
    · exact h
    · split
      · exact h
      · exact HasTimer.connectLoop env _ _ _ m h

theorem HasTimer.initializeMgr (h : m.HasTimer ∨ env.config.serverEnable = true)
    (resolve : List UInt8 → Option IpAddress) : Safe (m.initializeMgr env resolve) := by
  rw [ClientSocketMgr.initializeMgr]
  split
  · rename_i he
    rcases h with h | h
    · exact h
    · rw [h] at he
      cases he
  · dsimp only
    split
    · exact ⟨_, rfl⟩
    · rename_i address _
      exact HasTimer.connectToServer (m := { m with
        updateTimer := some ⟨[]⟩, ready := _, address := some address }) ⟨_, rfl⟩ 1

theorem HasTimer.socketEvent (h : m.HasTimer) (which : Option Nat) (event : ClientSocket.Event) :
    Safe (m.socketEvent env e which event) := by
  have hset : ∀ c, (m.setSocket c which).HasTimer := by
    intro c
    cases which <;> exact h
  rw [ClientSocketMgr.socketEvent]
  split
  · exact h
  · refine (ClientSocket.step_ends _ _).bind fun c _ => ?_
    split
    · exact (hset c).disconnect
    · exact hset c

/-- **With a timer no step dereferences a null pointer**, and the timer stays. -/
theorem HasTimer.step (h : m.HasTimer) (env : Env) (e : Endian) (a : Act) :
    Safe (m.step env e a) := by
  cases a with
  | initializeMgr resolve => exact HasTimer.initializeMgr (.inl h) resolve
  | connectToServer n => exact h.connectToServer n
  | disconnect => exact h.disconnect
  | update tick => exact h.update tick
  | addPacketToQueue p => exact h
  | timerExpires =>
    show HasTimer m.timerExpires
    rw [ClientSocketMgr.timerExpires]
    split
    · exact h
    · exact ⟨_, rfl⟩
  | runHandler i clock tick connected =>
    rw [ClientSocketMgr.step]
    split
    · exact h
    · refine HasTimer.runHandler ?_ _ tick connected _
      exact h
  | socketEvent which clock event => exact h.socketEvent which event

/-! ### Without a timer -/

/-- The functions that dereference `_updateTimer` without a test. -/
def Act.usesTimer : Act → Bool
  | .connectToServer _ | .disconnect | .update _ => true
  | _ => false

/-- Nothing was set up: there is no timer, and no socket and no handler either. -/
structure Idle (m : ClientSocketMgr) : Prop where
  stopped : m.stopped = false
  updateTimer : m.updateTimer = none
  clientSocket : m.clientSocket = none
  ready : m.ready = []
  retired : m.retired = []

theorem new_idle : Idle new := ⟨rfl, rfl, rfl, rfl, rfl⟩

theorem cancel_of_none (h : m.updateTimer = none) :
    m.cancel = .error (.nullPointer "_updateTimer") := by
  rw [ClientSocketMgr.cancel, timer, h]
  rfl

theorem step_initializeMgr_disabled (he : env.config.serverEnable = false)
    (resolve : List UInt8 → Option IpAddress) (m : ClientSocketMgr) :
    m.step env e (.initializeMgr resolve) = .ok m := by
  rw [ClientSocketMgr.step, initializeMgr, he]
  rfl

/-- **Without a timer these functions fail**, -/
theorem Idle.step_of_usesTimer (h : m.Idle) (ha : a.usesTimer = true) :
    m.step env e a = .error (.nullPointer "_updateTimer") := by
  cases a with
  | connectToServer n =>
    rw [ClientSocketMgr.step, connectToServer, cancel_of_none h.updateTimer]
    rfl
  | disconnect =>
    have hs : ({ m with stopped := true } : ClientSocketMgr).cancel =
        .error (.nullPointer "_updateTimer") := cancel_of_none h.updateTimer
    rw [ClientSocketMgr.step, disconnect, hs]
    rfl
  | update tick =>
    rw [ClientSocketMgr.step, update, if_neg (by rw [h.stopped]; decide), expiresFromNow,
      cancel_of_none h.updateTimer]
    rfl
  | _ => cases ha

/-- **and the others do nothing that needs it**, while Discord is disabled. -/
theorem Idle.step (h : m.Idle) (he : env.config.serverEnable = false) (ha : a.usesTimer = false) :
    ∃ t, m.step env e a = .ok t ∧ t.Idle := by
  cases a with
  | initializeMgr resolve => exact ⟨m, step_initializeMgr_disabled he resolve m, h⟩
  | addPacketToQueue p => exact ⟨_, rfl, h.1, h.2, h.3, h.4, h.5⟩
  | timerExpires => exact ⟨m, by rw [ClientSocketMgr.step, timerExpires, h.updateTimer], h⟩
  | runHandler i clock tick connected =>
    exact ⟨m, by rw [ClientSocketMgr.step, h.ready]; rfl, h⟩
  | socketEvent which clock event =>
    have hs : m.socket? which = none := by
      cases which with
      | none => exact h.clientSocket
      | some k => rw [socket?, h.retired]; rfl
    exact ⟨m, by rw [ClientSocketMgr.step, socketEvent, hs], h⟩
  | _ => cases ha

/-- What a run without a timer comes to. -/
theorem Idle.run_result (he : env.config.serverEnable = false) : ∀ (acts : List Act)
    (m : ClientSocketMgr), m.Idle →
    ((∀ a ∈ acts, a.usesTimer = false) →
      ∃ t, run (ClientSocketMgr.step env e) m acts = .ok t ∧ t.Idle) ∧
    ((¬ ∀ a ∈ acts, a.usesTimer = false) →
      run (ClientSocketMgr.step env e) m acts = .error (.nullPointer "_updateTimer")) := by
  intro acts
  induction acts with
  | nil =>
    intro m h
    exact ⟨fun _ => ⟨m, rfl, h⟩, fun hn => absurd (List.forall_mem_nil _) hn⟩
  | cons a acts ih =>
    intro m h
    rw [List.forall_mem_cons]
    cases ha : a.usesTimer with
    | true =>
      refine ⟨fun hall => absurd hall.1 (by decide), fun _ => ?_⟩
      rw [run, h.step_of_usesTimer ha]
    | false =>
      obtain ⟨t, ht, hi⟩ := h.step (e := e) he ha
      rw [run_cons_of_ok ht, and_iff_right rfl]
      exact ih t hi

/-- **When no null pointer is dereferenced.**  After `Initialize`, whatever it came to, no
later function or handler dereferences a null pointer exactly when Discord is enabled or none
of `ConnectToServer`, `Disconnect` and `Update` is called. -/
theorem noNullPointer_iff (env : Env) (e : Endian) (resolve : List UInt8 → Option IpAddress)
    (acts : List Act) :
    (∀ member, run (step env e) new (.initializeMgr resolve :: acts) ≠
        .error (.nullPointer member)) ↔
      env.config.serverEnable = true ∨ ∀ a ∈ acts, a.usesTimer = false := by
  cases he : env.config.serverEnable with
  | true =>
    refine ⟨fun _ => .inl rfl, fun _ member h => ?_⟩
    have hinit : Safe (new.step env e (.initializeMgr resolve)) :=
      HasTimer.initializeMgr (.inr he) resolve
    rw [run] at h
    cases ht : new.step env e (.initializeMgr resolve) with
    | ok t =>
      rw [ht] at h
      exact (ends_run (fun s a hs => hs.step env e a) acts t (hinit.of_ok ht)).of_error h member rfl
    | error f =>
      rw [ht] at h
      cases h
      exact hinit.of_error ht member rfl
  | false =>
    have hresult := Idle.run_result (e := e) he acts new new_idle
    rw [run_cons_of_ok (step_initializeMgr_disabled he resolve new),
      or_iff_right Bool.false_ne_true]
    by_cases hall : ∀ a ∈ acts, a.usesTimer = false
    · obtain ⟨t, ht, -⟩ := hresult.1 hall
      exact iff_of_true (fun member h => by rw [ht] at h; cases h) hall
    · exact iff_of_false (fun h => h _ (hresult.2 hall)) hall

/-- The order of `main`, with Discord disabled: `Initialize`, and at the end `Disconnect`. -/
theorem shutdown_dereferences_null :
    run (step { Env.sample with config := { Env.sample.config with serverEnable := false } }
      .little) new [.initializeMgr fun _ => some 0x7F000001, .disconnect] =
      .error (.nullPointer "_updateTimer") := by
  decide

end ClientSocketMgr

end WarheadDiscord

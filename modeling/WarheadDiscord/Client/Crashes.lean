import WarheadDiscord.Client.Delivery
import WarheadDiscord.Client.NullPointers
import WarheadDiscord.Client.ReadFaults

/-!
# What ends the program

An exception or an assertion in one of the handlers leaves `io_context::run`, and nothing
in the client catches it there.  Two things can go wrong once there is a timer: a frame
that its handler cannot read, and a login that is too long to be built.

* `connectLoop_returns_iff`, `socketEvent_returns_iff`, `step_returns_iff`: when one step
  returns.
* `client_returns_iff`: **when the client survives a run**.
-/

namespace WarheadDiscord

open Lib

/-- The login is short enough to be built. -/
def LoginFits (env : Env) : Prop :=
  ((ClientSession.new env).authSessionContent env).length < 10000008

theorem ClientSocket.begin_returns_iff (env : Env) :
    (∃ c, ClientSocket.begin env = .ok c) ↔ LoginFits env := by
  refine ⟨?_, ClientSocket.begin_ok env⟩
  rintro ⟨c, h⟩
  by_contra hle
  have hlong : 10000008 ≤ (({ ClientSession.new env with held := true } :
      ClientSession).authSessionContent env).length := Nat.le_of_not_lt hle
  have herr := ClientSession.sendAuthSession_of_le hlong
  rw [ClientSocket.begin, ClientSocket.start] at h
  dsimp only [ClientSocket.new] at h
  rw [herr] at h
  cases h

namespace ClientSocketMgr

variable {env : Env} {e : Endian} {m : ClientSocketMgr} {a : Act}

/-! ### With a timer -/

theorem HasTimer.cancel_returns (h : m.HasTimer) : Returns HasTimer m.cancel := by
  obtain ⟨timer, ht⟩ := h
  rw [ClientSocketMgr.cancel, ClientSocketMgr.timer, ht]
  exact ⟨_, rfl⟩

theorem HasTimer.asyncWait_returns (h : m.HasTimer) (handler : TimerHandler) :
    Returns HasTimer (m.asyncWait handler) := by
  obtain ⟨timer, ht⟩ := h
  rw [ClientSocketMgr.asyncWait, ClientSocketMgr.timer, ht]
  exact ⟨_, rfl⟩

theorem HasTimer.disconnect_returns (h : m.HasTimer) : Returns HasTimer m.disconnect := by
  apply Ends.bind (P := HasTimer)
  · exact HasTimer.cancel_returns (m := { m with stopped := true }) h
  · intro t ht
    exact ht

theorem HasTimer.rearm_returns (h : m.HasTimer) (handler : TimerHandler) :
    Returns HasTimer (m.expiresFromNow >>= ClientSocketMgr.asyncWait handler) :=
  h.cancel_returns.bind fun _ h₁ => h₁.asyncWait_returns handler

theorem HasTimer.connectToServer_returns (h : m.HasTimer) (n : UInt32) :
    Returns HasTimer (m.connectToServer n) :=
  h.cancel_returns.bind fun _ h₁ => h₁.rearm_returns (.connect n)

theorem HasTimer.update_returns (h : m.HasTimer) (tick : Tick) :
    Returns (fun _ => True) (m.update tick) := by
  rw [ClientSocketMgr.update]
  split
  · trivial
  · refine h.cancel_returns.bind fun m₁ h₁ => (h₁.asyncWait_returns .update).bind fun m₂ h₂ => ?_
    split
    · trivial
    · dsimp only
      split
      · refine (HasTimer.connectToServer_returns ?_ 3).mono fun _ _ => trivial
        exact h₂
      · split <;> trivial

theorem initializeMgr_returns (he : env.config.serverEnable = true)
    (resolve : List UInt8 → Option IpAddress) (m : ClientSocketMgr) :
    Returns HasTimer (m.initializeMgr env resolve) := by
  rw [initializeMgr, if_neg (by rw [he]; decide)]
  dsimp only
  split
  · exact ⟨_, rfl⟩
  · rename_i address _
    exact HasTimer.connectToServer_returns (m := { m with
      updateTimer := some ⟨[]⟩, ready := _, address := some address }) ⟨_, rfl⟩ 1

theorem HasTimer.startSocket_returns_iff (h : m.HasTimer) (env : Env) :
    (∃ t, m.startSocket env = .ok t) ↔ LoginFits env := by
  rw [← ClientSocket.begin_returns_iff]
  constructor
  · rintro ⟨t, ht⟩
    obtain ⟨m₁, -, ht⟩ := bind_ok ht
    obtain ⟨c, hc, -⟩ := bind_ok ht
    exact ⟨c, hc⟩
  · rintro ⟨c, hc⟩
    have hret : Returns HasTimer (m.startSocket env) := by
      apply Ends.bind (P := HasTimer)
      · rw [constructSocket]
        split
        · exact h.disconnect_returns
        · exact h
      · intro m₁ h₁
        rw [hc]
        exact HasTimer.rearm_returns (m := { m₁.reset with clientSocket := some c }) h₁ .update
    obtain ⟨t, ht, -⟩ := hret.exists_ok
    exact ⟨t, ht⟩

/-- **The loop of the connect continuation** returns, unless it connects with a login that is too
long. -/
theorem connectLoop_returns_iff (env : Env) (address : IpAddress) : ∀ (n : Nat)
    (connected : Nat → Bool) (m : ClientSocketMgr), m.HasTimer →
    ((∃ t, connectLoop env address connected n m = .ok t) ↔
      ((∃ i < n, connected i = true) → LoginFits env)) := by
  intro n
  induction n with
  | zero =>
    intro connected m h
    obtain ⟨t, ht, -⟩ := h.disconnect_returns.exists_ok
    refine ⟨fun _ hx => ?_, fun _ => ⟨t, ht⟩⟩
    obtain ⟨i, hi, -⟩ := hx
    exact absurd hi (Nat.not_lt_zero i)
  | succ n ih =>
    intro connected m h
    obtain ⟨timer, ht⟩ := id h
    have htimer : m.timer = .ok timer := by rw [ClientSocketMgr.timer, ht]
    have hnext : ({ m with connects := m.connects ++ [⟨address, env.config.serverPort⟩] } :
        ClientSocketMgr).HasTimer := h
    rw [connectLoop, htimer, ok_bind]
    dsimp only
    cases hc : connected 0 with
    | true =>
      rw [if_pos rfl, hnext.startSocket_returns_iff]
      exact ⟨fun hf _ => hf, fun hf => hf ⟨0, Nat.succ_pos n, hc⟩⟩
    | false =>
      rw [if_neg (by decide), ih _ _ hnext]
      refine imp_congr_left ⟨?_, ?_⟩
      · rintro ⟨i, hi, hx⟩
        exact ⟨i + 1, Nat.succ_lt_succ hi, hx⟩
      · rintro ⟨i, hi, hx⟩
        cases i with
        | zero => rw [hc] at hx; cases hx
        | succ i => exact ⟨i, Nat.lt_of_succ_lt_succ hi, hx⟩

/-! ### One step -/

/-- **The condition on a step.**  A socket that reads can read the frames that it completes, and
a connect continuation does not connect with a login that is too long. -/
def Bears (env : Env) (e : Endian) (m : ClientSocketMgr) : Act → Prop
  | .socketEvent which _ (.read chunk) =>
    ∀ c, m.socket? which = some c → c.read.readPending = true → ClientSocket.TameRead e c chunk
  | .runHandler i _ _ connected =>
    ∀ n, m.ready[i]? = some (.connect n) → m.hasOpenSocket = false → m.address ≠ none →
      (∃ k < n.toNat, connected k = true) → LoginFits env
  | _ => True

theorem connect_returns_iff (h : m.HasTimer) (env : Env) (connected : Nat → Bool) (n : UInt32) :
    (∃ t, m.connect env connected n = .ok t) ↔ (m.hasOpenSocket = false → m.address ≠ none →
      (∃ k < n.toNat, connected k = true) → LoginFits env) := by
  rw [connect]
  cases ho : m.hasOpenSocket with
  | true => exact ⟨fun _ hx => (by cases hx), fun _ => ⟨m, rfl⟩⟩
  | false =>
    rw [if_neg (by decide)]
    cases ha : m.address with
    | none => exact ⟨fun _ _ hx => absurd rfl hx, fun _ => ⟨m, rfl⟩⟩
    | some address =>
      dsimp only
      rw [connectLoop_returns_iff env address _ _ m h]
      exact ⟨fun hf _ _ => hf, fun hf => hf rfl (Option.some_ne_none _)⟩

theorem socketEvent_returns_iff (h : m.HasTimer)
    (hi : ∀ c ∈ m.holdings.sockets, ClientSocket.Inv e c) (env : Env) (which : Option Nat)
    (event : ClientSocket.Event) : (∃ t, m.socketEvent env e which event = .ok t) ↔
      ∀ chunk, event = .read chunk → ∀ c, m.socket? which = some c → c.read.readPending = true →
        ClientSocket.TameRead e c chunk := by
  have hset : ∀ c, (m.setSocket c which).HasTimer := fun c => by cases which <;> exact h
  rw [socketEvent]
  cases hs : m.socket? which with
  | none =>
    exact ⟨fun _ _ _ c hx => (by cases hx), fun _ => ⟨m, rfl⟩⟩
  | some c =>
    have hc : ClientSocket.Inv e c := by
      cases which with
      | none => exact hi c (mem_sockets hs)
      | some k => exact hi c (List.mem_append_left _ (List.mem_of_getElem? hs))
    -- what is left of the step returns whenever the socket does
    have hrest : (∃ t, (c.handle env e event >>= fun d => if d.session.disconnectCalled then
        (m.setSocket d which).disconnect else .ok (m.setSocket d which)) = .ok t) ↔
        ∃ d, c.handle env e event = .ok d := by
      constructor
      · rintro ⟨t, ht⟩
        obtain ⟨d, hd, -⟩ := bind_ok ht
        exact ⟨d, hd⟩
      · rintro ⟨d, hd⟩
        rw [hd, ok_bind]
        split
        · obtain ⟨t, ht, -⟩ := (hset d).disconnect_returns.exists_ok
          exact ⟨t, ht⟩
        · exact ⟨_, rfl⟩
    refine hrest.trans ?_
    rw [ClientSocket.handle]
    constructor
    · rintro ⟨d, hd⟩ chunk rfl c' hc' hp
      obtain rfl := Option.some.inj hc'
      have hu := hc.unflag
      exact (ClientSocket.readReturns_iff env chunk hu hp).mp
        ⟨d, hd, (ClientSocket.step_inv hu hd).ends⟩
    · intro ht
      cases event with
      | read chunk =>
        exact ClientSocket.step_of_tame (a := .read chunk) hc.unflag fun hp => ht chunk rfl c rfl hp
      | _ => exact ⟨_, rfl⟩

/-- **When a step returns.** -/
theorem step_returns_iff (hm : Sound e m) (h : m.HasTimer) :
    (∃ t, m.step env e a = .ok t) ↔ Bears env e m a := by
  have hok : ∀ {x : Except Fault ClientSocketMgr} {P : ClientSocketMgr → Prop}, Returns P x →
      ((∃ t, x = .ok t) ↔ True) := by
    intro x P hx
    obtain ⟨t, ht, -⟩ := hx.exists_ok
    exact iff_true_intro ⟨t, ht⟩
  cases a with
  | initializeMgr resolve =>
    cases he : env.config.serverEnable with
    | true => exact hok (initializeMgr_returns he resolve m)
    | false => exact iff_true_intro ⟨m, step_initializeMgr_disabled he resolve m⟩
  | connectToServer n => exact hok (h.connectToServer_returns n)
  | disconnect => exact hok h.disconnect_returns
  | update tick => exact hok (h.update_returns tick)
  | addPacketToQueue p => exact iff_true_intro ⟨_, rfl⟩
  | timerExpires => exact iff_true_intro ⟨_, rfl⟩
  | runHandler i clock tick connected =>
    rw [step, Bears]
    cases hr : m.ready[i]? with
    | none => exact ⟨fun _ n hx => (by cases hx), fun _ => ⟨m, rfl⟩⟩
    | some handler =>
      have herase : ({ m with ready := m.ready.eraseIdx i } : ClientSocketMgr).HasTimer := h
      cases handler with
      | update =>
        refine (hok (herase.update_returns tick)).trans ?_
        exact ⟨fun _ n hx => (by cases hx), fun _ => trivial⟩
      | connect n =>
        refine (connect_returns_iff herase { env with clock := clock } connected n).trans ?_
        refine ⟨fun hf n' hn => ?_, fun hf => hf n rfl⟩
        cases hn
        exact hf
  | socketEvent which clock event =>
    rw [step]
    refine (socketEvent_returns_iff h hm.inv { env with clock := clock } which event).trans ?_
    cases event with
    | read chunk =>
      refine ⟨fun hf => hf chunk rfl, fun hf chunk' hx => ?_⟩
      cases hx
      exact hf
    | _ => exact ⟨fun _ => trivial, fun _ chunk hx => by cases hx⟩

/-! ### Runs -/

/-- **When the client survives a run.**  After `Initialize`, every function and every handler
returns exactly when each frame that is read can be read by its handler and no connection is
made with a login that is too long.  Where Discord is disabled, it is when none of
`ConnectToServer`, `Disconnect` and `Update` is called. -/
theorem client_returns_iff (env : Env) (e : Endian) (resolve : List UInt8 → Option IpAddress)
    (acts : List Act) :
    (∃ t, run (step env e) new (.initializeMgr resolve :: acts) = .ok t) ↔
      if env.config.serverEnable then
        Meets (step env e) (Bears env e) new (.initializeMgr resolve :: acts)
      else ∀ a ∈ acts, a.usesTimer = false := by
  cases he : env.config.serverEnable with
  | true =>
    rw [if_pos rfl]
    obtain ⟨t, ht, htimer⟩ := (initializeMgr_returns he resolve new).exists_ok
    have hstep : new.step env e (.initializeMgr resolve) = .ok t := ht
    have hfirst : Bears env e new (.initializeMgr resolve) := trivial
    rw [run_cons_of_ok hstep, meets_cons_ok hstep, and_iff_right hfirst]
    exact run_ok_iff_meets (I := fun m => Sound e m ∧ m.HasTimer)
      (fun s a u hs hu => ⟨step_sound hs.1 hu, (hs.2.step env e a).of_ok hu⟩)
      (fun s a hs => step_returns_iff hs.1 hs.2) acts t ⟨step_sound (new_sound e) hstep, htimer⟩
  | false =>
    have hresult := Idle.run_result (e := e) he acts new new_idle
    rw [if_neg (by decide), run_cons_of_ok (step_initializeMgr_disabled he resolve new)]
    by_cases hall : ∀ a ∈ acts, a.usesTimer = false
    · obtain ⟨t, ht, -⟩ := hresult.1 hall
      exact iff_of_true ⟨t, ht⟩ hall
    · rw [hresult.2 hall]
      exact iff_of_false (no_ok _) hall

end ClientSocketMgr

end WarheadDiscord

import WarheadDiscord.Client.ClientSocket

/-!
# What leaves `ReadHandler`

The header check bounds the size and the opcode of a frame, and the handlers rely on
more: a response code that has a name, and eight bytes of time in a pong.  A frame
without them makes the handler throw, and nothing on the way out of `ReadHandler`
catches that.

* `tame`: no frame of a list does this, of those that get to a handler.
* `readHandler_returns_iff`: in every state that a run reaches, a read returns, and
  asks for more or has closed the socket, exactly when the frames that it completes
  are tame; a run all of whose reads are tame ends in no exception.
-/

namespace WarheadDiscord

open Lib

/-- Of the frames that get to a handler, every one has a payload that the handler can
read.  The others end the session, and what is behind them is not looked at. -/
def tame : Bool → List Frame → Bool
  | _, [] => true
  | authed, f :: fs => !f.handled authed || f.wellFormed && tame (authed || f.isAcceptance) fs

theorem tame_of_wellFormed : ∀ (fs : List Frame) (authed : Bool),
    (∀ f ∈ fs, f.wellFormed = true) → tame authed fs = true := by
  intro fs
  induction fs with
  | nil => intro _ _; rfl
  | cons f fs ih =>
    intro authed h
    rw [tame, h f (by simp), ih _ fun g hg => h g (by simp [hg]), Bool.and_true, Bool.or_true]

variable {env : Env} {e : Endian} {c : ClientSocket} {chunk : Chunk} {pending : List UInt8}

/-- **The frames of a read throw exactly when they are not tame.** -/
theorem handleFrames_ok_iff (env : Env) : ∀ (fs : List Frame) (s : ClientSession),
    (∃ r, handleFrames (ClientSession.readDataHandler env) fs s = .ok r) ↔
      tame s.authed fs = true := by
  intro fs
  induction fs with
  | nil => intro s; exact ⟨fun _ => rfl, fun _ => ⟨_, rfl⟩⟩
  | cons f fs ih =>
    intro s
    rw [handleFrames, tame]
    cases hh : f.handled s.authed with
    | false =>
      obtain ⟨t, ht, -, -⟩ := ClientSession.readDataHandler_of_not_handled env hh
      rw [ht]
      exact ⟨fun _ => rfl, fun _ => ⟨_, rfl⟩⟩
    | true =>
      cases hw : f.wellFormed with
      | false =>
        obtain ⟨fault, ht⟩ := ClientSession.readDataHandler_of_not_wellFormed env hh hw
        rw [ht]
        exact ⟨fun h => absurd h (no_ok fault), fun h => by cases h⟩
      | true =>
        obtain ⟨t, ht, hauthed⟩ := ClientSession.readDataHandler_of_wellFormed env hh hw
        rw [ht, ← hauthed]
        dsimp only
        simp only [Bool.not_true, Bool.true_and, Bool.false_or]
        rw [← ih t]
        rcases handleFrames (ClientSession.readDataHandler env) fs t with fault | r
        · exact iff_of_false (no_ok fault) (no_ok fault)
        · exact ⟨fun _ => ⟨r, rfl⟩, fun _ => ⟨_, rfl⟩⟩

namespace ClientSocket

/-- The frames that the chunk completes are tame. -/
def TameRead (e : Endian) (c : ClientSocket) (chunk : Chunk) : Prop :=
  ∀ pending, c.read.Waits e pending →
    tame c.session.authed (discordFormat.parse (pending ++ chunk.1)).1 = true

/-- `ReadHandler` returns, and asks for more or has closed the socket. -/
def ReadReturns (env : Env) (e : Endian) (c : ClientSocket) (chunk : Chunk) : Prop :=
  ∃ d, c.step env e (.read chunk) = .ok d ∧
    (d.read.readPending = true ∨ d.session.socket.closed = true)

theorem readInternal_ok_iff (env : Env) (chunk : Chunk) (hw : c.read.Waits e pending) :
    (∃ d, c.readInternal env e chunk = .ok d) ↔
      tame c.session.authed (discordFormat.parse (pending ++ chunk.1)).1 = true := by
  have href := read_step env chunk hw
  rw [← handleFrames_ok_iff env, readInternal, if_pos hw.readPending]
  rw [receive] at href
  rcases hf : handleFrames (ClientSession.readDataHandler env)
      (discordFormat.parse (pending ++ chunk.1)).1 c.session with fault | r
  · rw [hf] at href
    have herr : _ = Except.error fault := href
    rw [herr]
    exact iff_of_false (no_ok fault) (no_ok fault)
  · rw [hf] at href
    obtain ⟨r', hr', -⟩ := href
    rw [hr']
    exact ⟨fun _ => ⟨_, rfl⟩, fun _ => ⟨_, rfl⟩⟩

/-- An invariant state in which nothing is outstanding is one of a closed socket. -/
theorem Inv.ends (h : Inv e c) :
    c.read.readPending = true ∨ c.session.socket.closed = true := by
  cases hc : c.session.socket.closed with
  | true => exact .inr rfl
  | false => exact .inl (h.asks hc)

theorem readReturns_iff (env : Env) (chunk : Chunk) (h : Inv e c) (hp : c.read.readPending = true) :
    ReadReturns env e c chunk ↔ TameRead e c chunk := by
  constructor
  · rintro ⟨d, hd, -⟩ pending hw
    exact (readInternal_ok_iff env chunk hw).mp ⟨d, hd⟩
  · intro ht
    obtain ⟨pending, hw⟩ := h.waits hp
    obtain ⟨d, hd⟩ := (readInternal_ok_iff env chunk hw).mpr (ht pending hw)
    exact ⟨d, hd, (step_inv h (a := .read chunk) hd).ends⟩

/-- The reads of an action are tame. -/
def TameAct (e : Endian) (c : ClientSocket) : Act → Prop
  | .read chunk => c.read.readPending = true → TameRead e c chunk
  | _ => True

theorem step_of_tame {a : Act} (h : Inv e c) (ha : TameAct e c a) :
    ∃ d, c.step env e a = .ok d := by
  cases a with
  | read chunk =>
    cases hp : c.read.readPending with
    | true =>
      obtain ⟨d, hd, -⟩ := (readReturns_iff env _ h hp).mpr (ha hp)
      exact ⟨d, hd⟩
    | false => exact ⟨c, by rw [step, readInternal, hp]; rfl⟩
  | _ => exact ⟨_, rfl⟩

/-- **When `ReadHandler` returns.**  In every state that a run reaches, a read returns and
asks for more, or has closed the socket, exactly when the frames that it completes are tame.
A run with tame reads never ends in an exception. -/
theorem readHandler_returns_iff (env : Env) (e : Endian) (start : ClientSocket)
    (hs : begin env = .ok start) :
    (∀ acts c, run (step env e) start acts = .ok c → c.read.readPending = true →
      ∀ chunk, ReadReturns env e c chunk ↔ TameRead e c chunk) ∧
    (∀ acts, Meets (step env e) (TameAct e) start acts →
      ∃ c, run (step env e) start acts = .ok c) := by
  refine ⟨fun acts c hc hp chunk => readReturns_iff env chunk (run_inv hs hc) hp, fun acts ha => ?_⟩
  obtain ⟨c, hc, -⟩ := run_of_meets (I := Inv e) (fun _ _ _ hi _ hd => step_inv hi hd)
    (fun _ _ hi hc => step_of_tame hi hc) acts start (begin_inv hs) ha
  exact ⟨c, hc⟩

/-- The condition, for the first read of a session. -/
theorem readHandler_returns_first : ∃ start, begin .sample = .ok start ∧
    ∀ chunk, ReadReturns .sample .little start chunk ↔ TameRead .little start chunk := by
  obtain ⟨start, hs, -, -, hw⟩ := begin_sample
  exact ⟨start, hs, (readHandler_returns_iff .sample .little start hs).1 [] start rfl
    (hw .little).readPending⟩

/-- A `SERVER_SEND_AUTH_RESPONSE` without a payload, and one with a code that has no name. -/
theorem readHandler_throws : ∃ start, begin .sample = .ok start ∧
    start.read.readPending = true ∧
    ¬ ReadReturns .sample .little start ⟨[0, 0, 0, 2, 6, 0], by decide⟩ ∧
    ¬ ReadReturns .sample .little start ⟨[0, 0, 0, 3, 6, 0, 9], by decide⟩ := by
  obtain ⟨start, hs, -, ha, hw⟩ := begin_sample
  have hp := (hw .little).readPending
  refine ⟨start, hs, hp, ?_, ?_⟩
  · rw [readReturns_iff _ _ (begin_inv hs) hp]
    intro ht
    have := ht [] (hw .little)
    rw [ha] at this
    revert this
    decide
  · rw [readReturns_iff _ _ (begin_inv hs) hp]
    intro ht
    have := ht [] (hw .little)
    rw [ha] at this
    revert this
    decide

end ClientSocket

end WarheadDiscord

import WarheadDiscord.Shared.DelayedClose

/-!
# What a failed write leaves behind

When a write fails `HandleQueue` pops the message and leaves the socket open.  If part of the
message was accepted before, the next message that is offered lands in the middle of it, as the
peer sees it.  `Traced` writes down every `write_some` of a run, with the number of the message
and the bytes of it that were accepted earlier; its socket is the socket of the run
(`step_socket`).

* `handleQueue_inv`: one write that does not leave a truncated message on an open socket.
* `offered_later`: on an open socket a message that is queued is also offered.
* `failedWrite_iff`: **no byte follows a truncated message** exactly if every write that
  truncates one finds the socket closed, or closes it.
-/

namespace WarheadDiscord

open Lib

/-- Whether the front message is popped after this answer to `offered` bytes. -/
def WriteResult.pops (offered : Nat) : WriteResult → Bool
  | .accepted bytesSent => bytesSent = 0 || offered ≤ bytesSent
  | .wouldBlock => false
  | .failed => true

def WriteResult.bytesSent : WriteResult → Nat
  | .accepted bytesSent => bytesSent
  | _ => 0

/-- One `write_some`: which message, how many of its bytes were accepted before, how many are
offered, and the answer. -/
structure Attempt where
  message : Nat
  before : Nat
  offered : Nat
  result : WriteResult
  deriving DecidableEq, Repr

/-- The write fails after part of the message was accepted. -/
def Attempt.Truncates (a : Attempt) : Prop := a.result = .failed ∧ 0 < a.before

instance : DecidablePred Attempt.Truncates := fun _ => inferInstanceAs (Decidable (_ ∧ _))

/-- No byte of a later message is offered after a message was truncated. -/
def Intact (log : List Attempt) : Prop :=
  log.Pairwise fun a b => a.Truncates → a.message < b.message → b.offered = 0

instance (log : List Attempt) : Decidable (Intact log) :=
  inferInstanceAs (Decidable (List.Pairwise _ _))

/-- A socket, the number of messages it has popped, the bytes of the front message that were
accepted, and its writes. -/
structure Traced where
  socket : Socket
  message : Nat
  before : Nat
  log : List Attempt

namespace Traced

def new : Traced := ⟨.new, 0, 0, []⟩

def record (offered : Nat) (result : WriteResult) (t : Traced) : Traced :=
  { t with
    message := if result.pops offered then t.message + 1 else t.message
    before := if result.pops offered then 0 else t.before + result.bytesSent
    log := t.log ++ [⟨t.message, t.before, offered, result⟩] }

def handleQueue (writeSome : Nat → WriteResult) (t : Traced) : Traced × Bool :=
  let r := t.socket.handleQueue writeSome
  let t :=
    match t.socket.writeQueue with
    | [] => t
    | front :: _ => t.record front.getActiveSize (writeSome front.getActiveSize)
  ({ t with socket := r.1 }, r.2)

def handleQueueLoop : Nat → (Nat → Nat → WriteResult) → Traced → Traced
  | 0, _, t => t
  | fuel + 1, writeSome, t =>
    let r := t.handleQueue (writeSome 0)
    if r.2 then handleQueueLoop fuel (fun i => writeSome (i + 1)) r.1 else r.1

def update (writeSome : Nat → Nat → WriteResult) (t : Traced) : Traced :=
  if t.socket.closed then t
  else if t.socket.isWritingAsync || (t.socket.writeQueue.isEmpty && !t.socket.closing) then t
  else handleQueueLoop (t.socket.writeQueue.length + 1) writeSome t

def writeHandlerWrapper (writeSome : Nat → WriteResult) (t : Traced) : Traced :=
  ({ t with socket := { t.socket with isWritingAsync := false } }.handleQueue writeSome).1

def step (t : Traced) : Socket.CloseEvent → Except Fault Traced
  | .queuePacket buffer => .ok { t with socket := t.socket.queuePacket buffer }
  | .delayedCloseSocket => .ok { t with socket := t.socket.delayedCloseSocket }
  | .closeSocket => .ok { t with socket := t.socket.closeSocket }
  | .update w => .ok (t.update w)
  | .writeReady w => .ok (if t.socket.isWritingAsync then t.writeHandlerWrapper w else t)

variable {t u : Traced} {front : MessageBuffer} {rest : List MessageBuffer}

/-! ### The socket of a trace -/

theorem handleQueueLoop_socket : ∀ (fuel : Nat) (w : Nat → Nat → WriteResult) (t : Traced),
    (handleQueueLoop fuel w t).socket = Socket.handleQueueLoop fuel w t.socket := by
  intro fuel
  induction fuel with
  | zero => intro _ t; rfl
  | succ fuel ih =>
    intro w t
    rw [handleQueueLoop, Socket.handleQueueLoop]
    show (if (t.socket.handleQueue (w 0)).2 then _ else _ : Traced).socket = _
    split
    · exact ih _ _
    · rfl

/-- **A trace only watches**: its socket goes the way of the socket. -/
theorem step_socket (t : Traced) (e : Socket.CloseEvent) :
    (t.step e).map Traced.socket = t.socket.closeStep e := by
  cases e with
  | update w =>
    show Except.ok (t.update w).socket = Except.ok (t.socket.update w).1
    rw [update, Socket.update]
    split
    · rfl
    · split
      · rfl
      · exact congrArg _ (handleQueueLoop_socket _ _ _)
  | writeReady w =>
    show Except.ok (if t.socket.isWritingAsync then _ else _ : Traced).socket = Except.ok _
    split
    · rfl
    · rfl
  | _ => rfl

/-! ### One write -/

theorem handleQueue_nil (hq : t.socket.writeQueue = []) (w : Nat → WriteResult) :
    t.handleQueue w = (t, false) := by
  simp [handleQueue, Socket.handleQueue, hq]

theorem handleQueue_cons (hq : t.socket.writeQueue = front :: rest) (w : Nat → WriteResult) :
    t.handleQueue w =
      ({ t.record front.getActiveSize (w front.getActiveSize) with
          socket := (t.socket.handleQueue w).1 }, (t.socket.handleQueue w).2) := by
  simp [handleQueue, hq]

theorem intact_of_forall {log : List Attempt} (h : ∀ a ∈ log, ¬ a.Truncates) : Intact log := by
  induction log with
  | nil => exact .nil
  | cons a log ih =>
    rw [Intact, List.pairwise_cons]
    refine ⟨fun b _ ht => absurd ht (h a (by simp)), ih fun b hb => h b (by simp [hb])⟩

theorem intact_concat {log : List Attempt} (h : ∀ a ∈ log, ¬ a.Truncates) (b : Attempt) :
    Intact (log ++ [b]) := by
  rw [Intact, List.pairwise_append]
  exact ⟨intact_of_forall h, by simp, fun a ha _ _ ht => absurd ht (h a ha)⟩

/-- Part of a message is accepted only while there is a wait for the rest, and behind a
truncated message the socket is closed and does not write. -/
structure Inv (t : Traced) : Prop where
  part : 0 < t.before → t.socket.isWritingAsync = true ∧ t.socket.writeQueue ≠ []
  intact : Intact t.log
  stopped : ∀ a ∈ t.log, a.Truncates → t.socket.closed = true ∧ t.socket.isWritingAsync = false

theorem inv_new : new.Inv := ⟨by simp [new], .nil, by simp [new]⟩

theorem inv_of_forall (h : ∀ a ∈ t.log, ¬ a.Truncates)
    (hpart : 0 < t.before → t.socket.isWritingAsync = true ∧ t.socket.writeQueue ≠ []) : t.Inv :=
  ⟨hpart, intact_of_forall h, fun a ha ht => absurd ht (h a ha)⟩

/-- A write that fails with part of the message accepted finds the socket closed, or closes
it with the last message. -/
def ClosesOnFailure (t : Traced) (w : Nat → WriteResult) : Prop :=
  0 < t.before → ∀ front rest, t.socket.writeQueue = front :: rest →
    w front.getActiveSize = .failed →
      t.socket.closed = true ∨ (t.socket.closing = true ∧ rest = [])

/-- **One write**, with nothing truncated before it. -/
theorem handleQueue_inv {w : Nat → WriteResult} (ha : t.socket.isWritingAsync = false)
    (hpart : 0 < t.before → t.socket.writeQueue ≠ []) (hlog : ∀ a ∈ t.log, ¬ a.Truncates)
    (hw : t.ClosesOnFailure w) : (t.handleQueue w).1.Inv ∧
      ((t.handleQueue w).2 = true → (t.handleQueue w).1.socket.isWritingAsync = false ∧
        (t.handleQueue w).1.before = 0 ∧ ∀ a ∈ (t.handleQueue w).1.log, ¬ a.Truncates) := by
  by_cases hq : t.socket.writeQueue = []
  · rw [handleQueue_nil hq]
    exact ⟨inv_of_forall hlog fun h0 => absurd hq (hpart h0), by simp⟩
  · obtain ⟨front, rest, hq⟩ := List.exists_cons_of_ne_nil hq
    rw [handleQueue_cons hq]
    -- unless the write truncates, nothing is truncated in the longer log either
    have hlog' (h : ¬ (w front.getActiveSize = .failed ∧ 0 < t.before)) :
        ∀ a ∈ (t.record front.getActiveSize (w front.getActiveSize)).log, ¬ a.Truncates := by
      intro a hmem
      rcases List.mem_append.mp hmem with hmem | hmem
      · exact hlog a hmem
      · obtain rfl := List.mem_singleton.mp hmem
        exact h
    have hcase := Socket.handleQueue_handled w t.socket
    generalize t.socket.handleQueue w = r at hcase ⊢
    cases hcase with
    | empty hq' => simp [hq] at hq'
    | wait hq' hw' =>
      obtain ⟨rfl, rfl⟩ := List.cons.inj (hq.symm.trans hq')
      refine ⟨inv_of_forall (hlog' (by simp [hw'])) fun _ => ⟨rfl, by simp [hq]⟩, by simp⟩
    | part hq' hw' h0 hn =>
      obtain ⟨rfl, rfl⟩ := List.cons.inj (hq.symm.trans hq')
      refine ⟨inv_of_forall (hlog' (by simp [hw'])) fun _ => ⟨rfl, by simp⟩, by simp⟩
    | nothing hq' hw' =>
      obtain ⟨rfl, rfl⟩ := List.cons.inj (hq.symm.trans hq')
      refine ⟨inv_of_forall (hlog' (by simp [hw'])) fun h0 => ?_, by simp⟩
      simp [record, hw', WriteResult.pops] at h0
    | whole hq' hw' h0 hn =>
      obtain ⟨rfl, rfl⟩ := List.cons.inj (hq.symm.trans hq')
      have hbefore : (t.record front.getActiveSize (w front.getActiveSize)).before = 0 := by
        simp [record, hw', WriteResult.pops, hn]
      refine ⟨inv_of_forall (hlog' (by simp [hw'])) fun h0 => ?_, fun _ => ?_⟩
      · exact absurd hbefore (Nat.ne_of_gt h0)
      · exact ⟨by simp [ha], hbefore, hlog' (by simp [hw'])⟩
    | fail hq' hw' =>
      obtain ⟨rfl, rfl⟩ := List.cons.inj (hq.symm.trans hq')
      refine ⟨⟨fun h0 => ?_, intact_concat hlog _, fun a hmem ht => ?_⟩, by simp⟩
      · simp [record, hw', WriteResult.pops] at h0
      · have h0 : 0 < t.before := by
          by_contra h0
          exact hlog' (fun h => h0 h.2) a hmem ht
        refine ⟨?_, by simp [ha]⟩
        show t.socket.popPacket.closed = true
        rcases hw h0 front rest hq hw' with hclosed | ⟨hclosing, rfl⟩
        · simp [Socket.popPacket_closed, hclosed]
        · simp [Socket.popPacket_closed, hclosing, hq]

theorem handleQueueLoop_inv : ∀ (fuel : Nat) (w : Nat → Nat → WriteResult) (t : Traced),
    t.socket.isWritingAsync = false → t.before = 0 → (∀ a ∈ t.log, ¬ a.Truncates) →
    (handleQueueLoop fuel w t).Inv := by
  intro fuel
  induction fuel with
  | zero =>
    intro _ t _ h0 hlog
    exact inv_of_forall hlog fun hpos => absurd h0 (Nat.ne_of_gt hpos)
  | succ fuel ih =>
    intro w t ha h0 hlog
    obtain ⟨hinv, hagain⟩ := handleQueue_inv (w := w 0) ha (by omega) hlog (by intro hpos; omega)
    rw [handleQueueLoop]
    split
    · rename_i hr
      obtain ⟨ha', h0', hlog'⟩ := hagain hr
      exact ih _ _ ha' h0' hlog'
    · exact hinv

/-! ### The steps -/

/-- Only a completion can truncate a message: an `Update` starts with a whole one. -/
def Careful (t : Traced) : Socket.CloseEvent → Prop
  | .writeReady w => t.socket.isWritingAsync = true → t.ClosesOnFailure w
  | _ => True

theorem Inv.not_truncates (h : t.Inv)
    (hopen : ¬ (t.socket.closed = true ∧ t.socket.isWritingAsync = false)) :
    ∀ a ∈ t.log, ¬ a.Truncates := by
  intro a ha ht
  exact hopen (h.stopped a ha ht)

theorem Inv.step {e : Socket.CloseEvent} (h : t.Inv) (he : t.Careful e) (hstep : t.step e = .ok u) :
    u.Inv := by
  cases e with
  | queuePacket b =>
    cases hstep
    exact ⟨fun h0 => ⟨(h.part h0).1, by simp [Socket.queuePacket]⟩, h.intact, h.stopped⟩
  | delayedCloseSocket => cases hstep; exact ⟨h.part, h.intact, h.stopped⟩
  | closeSocket =>
    cases hstep
    refine ⟨fun h0 => by simpa using h.part h0, h.intact, fun a ha ht => ?_⟩
    simpa using (h.stopped a ha ht).2
  | update w =>
    cases hstep
    unfold update
    split
    · exact h
    · rename_i hclosed
      split
      · exact h
      · rename_i hguard
        simp at hguard
        apply handleQueueLoop_inv _ _ _ hguard.1
        · by_contra h0
          have hasync := (h.part (Nat.pos_of_ne_zero h0)).1
          simp [hguard.1] at hasync
        · exact h.not_truncates fun hstop => hclosed hstop.1
  | writeReady w =>
    cases hstep
    split
    · rename_i ha
      exact (handleQueue_inv (t := { t with socket := { t.socket with isWritingAsync := false } })
        rfl (fun h0 => (h.part h0).2) (h.not_truncates fun hstop => by simp [ha] at hstop)
        (he ha)).1
    · exact h

/-! ### What a truncated message lets through -/

theorem handleQueue_failed {w : Nat → WriteResult} (hq : t.socket.writeQueue = front :: rest)
    (hw : w front.getActiveSize = .failed) :
    t.handleQueue w =
      ({ t.record front.getActiveSize .failed with socket := t.socket.popPacket }, false) := by
  have hone : t.socket.handleQueue w = (t.socket.popPacket, false) := by
    simp [Socket.handleQueue, hq, hw]
  rw [handleQueue_cons hq, hone, hw]

theorem update_failed (hclosed : t.socket.closed = false) (ha : t.socket.isWritingAsync = false)
    (hq : t.socket.writeQueue = front :: rest) :
    t.update (fun _ _ => .failed) =
      { t.record front.getActiveSize .failed with socket := t.socket.popPacket } := by
  simp [update, hclosed, ha, hq, handleQueueLoop, handleQueue_failed hq]

/-- **On an open socket a message that is queued is also offered**, when the messages in front
of it have been popped. -/
theorem offered_later (b : MessageBuffer) (hb : 0 < b.getActiveSize) :
    ∀ (queue : List MessageBuffer) (t : Traced), t.socket.closed = false →
      t.socket.isWritingAsync = false → t.socket.writeQueue = queue ++ [b] →
      ∃ u a, run step t (List.replicate (queue.length + 1) (.update fun _ _ => .failed)) = .ok u ∧
        (∃ added, u.log = t.log ++ added ∧ a ∈ added) ∧ t.message ≤ a.message ∧ 0 < a.offered := by
  intro queue
  induction queue with
  | nil =>
    intro t hclosed ha hq
    have hupdate := update_failed hclosed ha hq
    refine ⟨t.update fun _ _ => .failed, ⟨t.message, t.before, b.getActiveSize, .failed⟩, rfl, ?_,
      Nat.le_refl _, hb⟩
    rw [hupdate]
    exact ⟨_, rfl, by simp⟩
  | cons front rest ih =>
    intro t hclosed ha hq
    have hupdate := update_failed hclosed ha hq
    obtain ⟨u, a, hrun, ⟨added, hlog, hmem⟩, hle, hpos⟩ :=
      ih (t.update fun _ _ => .failed)
        (by rw [hupdate]; simp [Socket.popPacket_closed, hclosed, hq])
        (by rw [hupdate]; simpa using ha) (by rw [hupdate]; simp [hq])
    rw [hupdate] at hlog hle
    refine ⟨u, a, ?_, ⟨⟨t.message, t.before, front.getActiveSize, .failed⟩ :: added,
      by rw [hlog]; simp [record], by simp [hmem]⟩, ?_, hpos⟩
    · rw [List.length_cons, List.replicate_succ]
      exact (run_cons_of_ok rfl).trans hrun
    · simp [record, WriteResult.pops] at hle
      omega

/-- The messages that are queued and the writes of `Update`. -/
def Sends : Socket.CloseEvent → Prop
  | .queuePacket _ => True
  | .update _ => True
  | _ => False

/-- However many messages are queued and written next, none follows a truncated one. -/
def Contained (t : Traced) : Prop :=
  ∀ more : List Socket.CloseEvent, (∀ e ∈ more, Sends e) →
    ∀ u, run step t more = .ok u → Intact u.log

theorem Inv.contained (h : t.Inv) : t.Contained := by
  intro more hmore u hu
  have hcareful (e : Socket.CloseEvent) (he : Sends e) (s : Traced) : s.Careful e := by
    cases e <;> first | exact trivial | exact he.elim
  exact (visits_invariant (fun _ _ _ hs he hstep => hs.step he hstep) more t h
    (each_of_forall more t fun e he s => hcareful e (hmore e he) s) u (visits_of_run hu)).intact

/-- **A write that truncates a message on a socket that stays open** lets the next message
through. -/
theorem not_contained {e : Socket.CloseEvent} (he : ¬ t.Careful e) (hstep : t.step e = .ok u) :
    ¬ u.Contained := by
  cases e with
  | writeReady w =>
    simp only [Careful, ClosesOnFailure, Classical.not_imp, not_forall, not_or] at he
    obtain ⟨ha, h0, front, rest, hq, hw, hclosed, hclosing⟩ := he
    -- what is left after the failed write, with one more byte queued behind the queue
    let s := ({ t.socket with isWritingAsync := false } : Socket).popPacket
    let u := { t.record front.getActiveSize .failed with socket := s }
    have hfailed : t.writeHandlerWrapper w = u :=
      congrArg Prod.fst (handleQueue_failed
        (t := { t with socket := { t.socket with isWritingAsync := false } }) hq hw)
    have hopen : s.closed = false := by
      rw [Socket.popPacket_closed, Bool.or_eq_false_iff]
      exact ⟨by simpa using hclosed, by simpa [hq] using hclosing⟩
    have hqueue : (s.queuePacket ⟨1, 0, [0]⟩).writeQueue = rest ++ [⟨1, 0, [0]⟩] := by
      show s.writeQueue ++ [_] = _
      rw [Socket.popPacket_writeQueue, hq]
      rfl
    obtain ⟨v, a, hrun, ⟨added, hlog, hmem⟩, hle, hpos⟩ :=
      offered_later ⟨1, 0, [0]⟩ (by decide) rest { u with socket := s.queuePacket ⟨1, 0, [0]⟩ }
        hopen (Socket.popPacket_isWritingAsync _) hqueue
    cases hstep
    rw [if_pos ha, hfailed]
    intro hcontained
    have hintact := hcontained (.queuePacket ⟨1, 0, [0]⟩ ::
      List.replicate (rest.length + 1) (.update fun _ _ => .failed)) (by
        intro e he
        rcases List.mem_cons.mp he with rfl | he
        · exact trivial
        · obtain rfl := List.eq_of_mem_replicate he
          exact trivial) v ((run_cons_of_ok rfl).trans hrun)
    rw [Intact, hlog, List.pairwise_append] at hintact
    have hzero := hintact.2.2 ⟨t.message, t.before, front.getActiveSize, .failed⟩
      (by simp [u, record]) a hmem ⟨rfl, h0⟩ hle
    omega
  | _ => exact absurd trivial he

/-- **When a failed write does not corrupt the stream.**  In no state of a run, and however many
messages are queued and written next, a byte is offered behind a truncated message, exactly if
every write of a completion that fails with part of its message accepted finds the socket
closed, or finds it marked for closing with no other message in the queue. -/
theorem failedWrite_iff (events : List Socket.CloseEvent) :
    (∀ t, Visits step new events t → t.Contained) ↔ Each step Careful new events :=
  visits_iff_each_kept (fun _ _ _ h he hstep => h.step he hstep) (fun _ h => h.contained)
    (fun _ _ _ _ he hstep => not_contained he hstep) events new inv_new

/-- One of two bytes is accepted, then a write fails, and the byte of the next message is
offered. -/
theorem failedWrite_followed : ¬ ∀ t, Visits step new
    [.queuePacket ⟨2, 0, [1, 2]⟩, .queuePacket ⟨1, 0, [3]⟩, .update fun _ n => .accepted (min n 1),
      .writeReady fun _ => .failed, .update fun _ n => .accepted n] t → Intact t.log := by
  intro h
  obtain ⟨t, hrun, ht⟩ := ok_of_any (p := fun t => !decide (Intact t.log)) (x := run step new
    [.queuePacket ⟨2, 0, [1, 2]⟩, .queuePacket ⟨1, 0, [3]⟩, .update fun _ n => .accepted (min n 1),
      .writeReady fun _ => .failed, .update fun _ n => .accepted n]) (by decide)
  simp [h t (visits_of_run hrun)] at ht

end Traced

end WarheadDiscord

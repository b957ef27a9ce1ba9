import WarheadDiscord.Common.MessageBuffer

/-!
# `Socket`: the write side

Buffers wait in `writeQueue` until the kernel takes their bytes.  Without IOCP a
tick, `update`, and the completion of a wait for writability,
`writeHandlerWrapper`, call `write_some` on the front buffer; with IOCP every
queued buffer is written by an asynchronous operation that ends in
`writeHandler`.  The answers of the kernel are an argument of these functions,
given for the number of bytes that are offered.

`queued` and `sent` are history that the code does not keep: the bytes of the
buffers that `queuePacket` was given, and the bytes that the kernel accepted.

* `handleQueue_handled`: what one call of `HandleQueue` does, by the answer to its write.
* `handleQueueLoop_stable`: the loop of `Update` ends.

The read side is in `Client/ReadSide.lean`.
-/

namespace WarheadDiscord

/-- The answer to one `write_some`. -/
inductive WriteResult where
  | accepted (bytesSent : Nat)
  /-- `would_block` or `try_again`. -/
  | wouldBlock
  /-- Any other error. -/
  | failed
  deriving DecidableEq, Repr

structure Socket where
  writeQueue : List MessageBuffer
  closed : Bool
  closing : Bool
  isWritingAsync : Bool
  queued : List UInt8
  sent : List UInt8
  deriving DecidableEq, Repr

namespace Socket

/-- A connected socket. -/
def new : Socket := ⟨[], false, false, false, [], []⟩

def isOpen (s : Socket) : Bool := !s.closed && !s.closing

/-- `OnClose` only logs. -/
def closeSocket (s : Socket) : Socket := if s.closed then s else { s with closed := true }

def delayedCloseSocket (s : Socket) : Socket := { s with closing := true }

/-- The buffer is moved into the queue. -/
def queuePacket (s : Socket) (buffer : MessageBuffer) : Socket :=
  { s with
    writeQueue := s.writeQueue ++ [buffer.moveFrom.1]
    queued := s.queued ++ buffer.active }

/-- A wait for writability is started, unless there is one. -/
def asyncProcessQueue (s : Socket) : Socket × Bool :=
  if s.isWritingAsync then (s, false) else ({ s with isWritingAsync := true }, false)

/-- `_writeQueue.pop()`, and what `HandleQueue` does behind it. -/
def popPacket (s : Socket) : Socket :=
  let s := { s with writeQueue := s.writeQueue.tail }
  if s.closing && s.writeQueue.isEmpty then s.closeSocket else s

/-- One `write_some` of the front buffer.  True asks to be called again. -/
def handleQueue (writeSome : Nat → WriteResult) (s : Socket) : Socket × Bool :=
  match s.writeQueue with
  | [] => (s, false)
  | queuedMessage :: rest =>
    let bytesToSend := queuedMessage.getActiveSize
    match writeSome bytesToSend with
    | .wouldBlock => s.asyncProcessQueue
    | .failed => (s.popPacket, false)
    | .accepted bytesSent =>
      let s := { s with sent := s.sent ++ queuedMessage.fromReadPointer bytesSent }
      if bytesSent = 0 then (s.popPacket, false)
      else if bytesSent < bytesToSend then
        { s with writeQueue := queuedMessage.readCompleted bytesSent :: rest }.asyncProcessQueue
      else (s.popPacket, !s.popPacket.writeQueue.isEmpty)

/-- `for (; HandleQueue();)`.  The answers are numbered by the calls. -/
def handleQueueLoop : Nat → (Nat → Nat → WriteResult) → Socket → Socket
  | 0, _, s => s
  | fuel + 1, writeSome, s =>
    let r := s.handleQueue (writeSome 0)
    if r.2 then handleQueueLoop fuel (fun i => writeSome (i + 1)) r.1 else r.1

def update (writeSome : Nat → Nat → WriteResult) (s : Socket) : Socket × Bool :=
  if s.closed then (s, false)
  else if s.isWritingAsync || (s.writeQueue.isEmpty && !s.closing) then (s, true)
  else (handleQueueLoop (s.writeQueue.length + 1) writeSome s, true)

/-- The wait for writability is over.  The error code is not looked at. -/
def writeHandlerWrapper (writeSome : Nat → WriteResult) (s : Socket) : Socket :=
  ({ s with isWritingAsync := false }.handleQueue writeSome).1

/-! ### What the operations leave alone -/

variable {s : Socket} {writeSome : Nat → WriteResult}

@[simp] theorem closeSocket_closed (s : Socket) : s.closeSocket.closed = true := by
  unfold closeSocket
  split
  · assumption
  · rfl

@[simp] theorem closeSocket_closing (s : Socket) : s.closeSocket.closing = s.closing := by
  rw [closeSocket]
  split <;> rfl

@[simp] theorem closeSocket_writeQueue (s : Socket) :
    s.closeSocket.writeQueue = s.writeQueue := by
  rw [closeSocket]
  split <;> rfl

@[simp] theorem closeSocket_isWritingAsync (s : Socket) :
    s.closeSocket.isWritingAsync = s.isWritingAsync := by
  rw [closeSocket]
  split <;> rfl

@[simp] theorem closeSocket_queued (s : Socket) : s.closeSocket.queued = s.queued := by
  rw [closeSocket]
  split <;> rfl

@[simp] theorem closeSocket_sent (s : Socket) : s.closeSocket.sent = s.sent := by
  rw [closeSocket]
  split <;> rfl

@[simp] theorem asyncProcessQueue_snd (s : Socket) : s.asyncProcessQueue.2 = false := by
  rw [asyncProcessQueue]
  split <;> rfl

theorem asyncProcessQueue_fst (s : Socket) :
    s.asyncProcessQueue.1 = { s with isWritingAsync := true } := by
  unfold asyncProcessQueue
  split
  · rename_i h
    exact (congrArg (fun b => { s with isWritingAsync := b }) h : _)
  · rfl

@[simp] theorem popPacket_writeQueue (s : Socket) :
    s.popPacket.writeQueue = s.writeQueue.tail := by
  unfold popPacket
  dsimp only
  split
  · rw [closeSocket_writeQueue]
  · rfl

@[simp] theorem popPacket_closing (s : Socket) : s.popPacket.closing = s.closing := by
  unfold popPacket
  dsimp only
  split
  · rw [closeSocket_closing]
  · rfl

@[simp] theorem popPacket_isWritingAsync (s : Socket) :
    s.popPacket.isWritingAsync = s.isWritingAsync := by
  unfold popPacket
  dsimp only
  split
  · rw [closeSocket_isWritingAsync]
  · rfl

/-- The pop that empties the queue of a socket marked for closing closes it. -/
theorem popPacket_closed (s : Socket) :
    s.popPacket.closed = (s.closed || s.closing && s.writeQueue.tail.isEmpty) := by
  unfold popPacket
  dsimp only
  split
  · rename_i h
    rw [closeSocket_closed, h, Bool.or_true]
  · rename_i h
    rw [Bool.eq_false_iff.mpr h, Bool.or_false]

/-! ### One write -/

/-- **What one call of `HandleQueue` does**, by the answer to its write. -/
inductive Handled (writeSome : Nat → WriteResult) (s : Socket) : Socket × Bool → Prop where
  | empty (hq : s.writeQueue = []) : Handled writeSome s (s, false)
  | wait {front : MessageBuffer} {rest : List MessageBuffer} (hq : s.writeQueue = front :: rest)
      (hw : writeSome front.getActiveSize = .wouldBlock) :
      Handled writeSome s ({ s with isWritingAsync := true }, false)
  | fail {front : MessageBuffer} {rest : List MessageBuffer} (hq : s.writeQueue = front :: rest)
      (hw : writeSome front.getActiveSize = .failed) : Handled writeSome s (s.popPacket, false)
  | nothing {front : MessageBuffer} {rest : List MessageBuffer}
      (hq : s.writeQueue = front :: rest) (hw : writeSome front.getActiveSize = .accepted 0) :
      Handled writeSome s
        ({ s with sent := s.sent ++ front.fromReadPointer 0 }.popPacket, false)
  | part {front : MessageBuffer} {rest : List MessageBuffer} {bytesSent : Nat}
      (hq : s.writeQueue = front :: rest)
      (hw : writeSome front.getActiveSize = .accepted bytesSent) (h0 : 0 < bytesSent)
      (hn : bytesSent < front.getActiveSize) :
      Handled writeSome s
        ({ s with
            sent := s.sent ++ front.fromReadPointer bytesSent
            writeQueue := front.readCompleted bytesSent :: rest
            isWritingAsync := true }, false)
  | whole {front : MessageBuffer} {rest : List MessageBuffer} {bytesSent : Nat}
      (hq : s.writeQueue = front :: rest)
      (hw : writeSome front.getActiveSize = .accepted bytesSent) (h0 : 0 < bytesSent)
      (hn : front.getActiveSize ≤ bytesSent) :
      Handled writeSome s
        ({ s with sent := s.sent ++ front.fromReadPointer bytesSent }.popPacket, !rest.isEmpty)

theorem handleQueue_handled (writeSome : Nat → WriteResult) (s : Socket) :
    Handled writeSome s (s.handleQueue writeSome) := by
  unfold handleQueue
  split
  · rename_i hq
    exact .empty hq
  · rename_i front rest hq
    dsimp only
    split
    · rename_i hw
      rw [← Prod.eta s.asyncProcessQueue, asyncProcessQueue_fst, asyncProcessQueue_snd]
      exact .wait hq hw
    · rename_i hw
      exact .fail hq hw
    · rename_i bytesSent hw
      split
      · rename_i h0
        subst h0
        exact .nothing hq hw
      · rename_i h0
        split
        · rename_i hn
          rw [← Prod.eta (asyncProcessQueue _), asyncProcessQueue_fst, asyncProcessQueue_snd]
          exact .part hq hw (Nat.pos_of_ne_zero h0) hn
        · rename_i hn
          have hrest : s.writeQueue.tail = rest := by rw [hq, List.tail_cons]
          rw [popPacket_writeQueue]
          dsimp only
          rw [hrest]
          exact .whole hq hw (Nat.pos_of_ne_zero h0) (Nat.le_of_not_lt hn)

/-! ### While no close is pending -/

/-- The fields that say whether the socket is closed, and the bytes it was given,
are not changed by a write while no close is pending. -/
structure SameEnds (s t : Socket) : Prop where
  closed : t.closed = s.closed
  closing : t.closing = s.closing
  queued : t.queued = s.queued

theorem SameEnds.refl (s : Socket) : SameEnds s s := ⟨rfl, rfl, rfl⟩

theorem SameEnds.trans {s t u : Socket} (h : SameEnds s t) (g : SameEnds t u) : SameEnds s u :=
  ⟨g.closed.trans h.closed, g.closing.trans h.closing, g.queued.trans h.queued⟩

theorem popPacket_eq (h : s.closing = false) :
    s.popPacket = { s with writeQueue := s.writeQueue.tail } := by
  rw [popPacket]
  simp only [h, Bool.false_and, Bool.false_eq_true, if_false]

theorem handleQueue_sameEnds (writeSome : Nat → WriteResult) (h : s.closing = false) :
    SameEnds s (s.handleQueue writeSome).1 := by
  have hpop (sent : List UInt8) : SameEnds s ({ s with sent := sent } : Socket).popPacket := by
    rw [popPacket_eq (s := { s with sent := sent }) h]
    exact ⟨rfl, rfl, rfl⟩
  have hcase := handleQueue_handled writeSome s
  generalize s.handleQueue writeSome = r at hcase ⊢
  cases hcase with
  | empty => exact .refl s
  | wait => exact ⟨rfl, rfl, rfl⟩
  | fail => exact hpop s.sent
  | nothing => exact hpop _
  | part => exact ⟨rfl, rfl, rfl⟩
  | whole => exact hpop _

theorem handleQueueLoop_sameEnds : ∀ (fuel : Nat) (writeSome : Nat → Nat → WriteResult)
    (s : Socket), s.closing = false → SameEnds s (handleQueueLoop fuel writeSome s) := by
  intro fuel
  induction fuel with
  | zero => intro _ s _; exact .refl s
  | succ fuel ih =>
    intro w s h
    have h1 := handleQueue_sameEnds (w 0) h
    rw [handleQueueLoop]
    split
    · exact h1.trans (ih _ _ (h1.closing.trans h))
    · exact h1

theorem update_sameEnds (writeSome : Nat → Nat → WriteResult) (h : s.closing = false) :
    SameEnds s (s.update writeSome).1 := by
  unfold update
  split
  · exact .refl s
  · split
    · exact .refl s
    · exact handleQueueLoop_sameEnds _ _ _ h

@[simp] theorem update_snd (s : Socket) (w : Nat → Nat → WriteResult) :
    (s.update w).2 = !s.closed := by
  rw [update]
  cases s.closed with
  | true => rfl
  | false =>
    simp only [Bool.false_eq_true, if_false]
    split <;> rfl

/-! ### The loop of `Update` ends -/

/-- A call that asks for another one has taken a buffer off the queue. -/
theorem handleQueue_again (h : (s.handleQueue writeSome).2 = true) :
    (s.handleQueue writeSome).1.writeQueue.length < s.writeQueue.length := by
  have hcase := handleQueue_handled writeSome s
  generalize s.handleQueue writeSome = r at h hcase ⊢
  cases hcase with
  | whole hq => simp [hq]
  | _ => simp at h

/-- **The loop of `Update` ends**: with more fuel than buffers, more fuel changes
nothing. -/
theorem handleQueueLoop_stable : ∀ (fuel extra : Nat) (writeSome : Nat → Nat → WriteResult)
    (s : Socket), s.writeQueue.length < fuel →
    handleQueueLoop (fuel + extra) writeSome s = handleQueueLoop fuel writeSome s := by
  intro fuel
  induction fuel with
  | zero => intro _ _ s h; exact absurd h (Nat.not_lt_zero _)
  | succ fuel ih =>
    intro extra w s h
    rw [Nat.succ_add, handleQueueLoop, handleQueueLoop]
    split
    · rename_i hr
      have := handleQueue_again hr
      rw [ih extra _ _ (by omega)]
    · rfl

end Socket

/-! ### The variant with IOCP -/

/-- `Socket` under `WH_SOCKET_USE_IOCP`.  `pendingWrite` is the buffer of the
outstanding `async_write_some`, which the completion handler ends. -/
structure IocpSocket where
  base : Socket
  pendingWrite : Option (List UInt8)
  deriving DecidableEq, Repr

namespace IocpSocket

def new : IocpSocket := ⟨.new, none⟩

/-- The front buffer is written.  `front()` is only called on a queue that is not empty. -/
def asyncProcessQueue (s : IocpSocket) : IocpSocket :=
  if s.base.isWritingAsync then s
  else
    { base := { s.base with isWritingAsync := true }
      pendingWrite := s.base.writeQueue.head?.map MessageBuffer.active }

def queuePacket (s : IocpSocket) (buffer : MessageBuffer) : IocpSocket :=
  { s with base := s.base.queuePacket buffer }.asyncProcessQueue

/-- `Socket::Update`. -/
def update (s : IocpSocket) : IocpSocket × Bool := (s, !s.base.closed)

/-- `ReadCompleted` on the front buffer, which is popped when nothing is left of it. -/
def readCompletedFront (transferedBytes : Nat) : List MessageBuffer → List MessageBuffer
  | [] => []
  | front :: rest =>
    let front := front.readCompleted transferedBytes
    if front.getActiveSize = 0 then rest else front :: rest

/-- `WriteHandler`, the end of the outstanding operation. -/
def writeHandler (result : Nat → WriteResult) (s : IocpSocket) : IocpSocket :=
  match s.pendingWrite with
  | none => s
  | some offered =>
    match result offered.length with
    | .accepted transferedBytes =>
      let base :=
        { s.base with
          isWritingAsync := false
          sent := s.base.sent ++ offered.take transferedBytes
          writeQueue := readCompletedFront transferedBytes s.base.writeQueue }
      if base.writeQueue ≠ [] then asyncProcessQueue ⟨base, none⟩
      else if base.closing then ⟨base.closeSocket, none⟩
      else ⟨base, none⟩
    | _ => ⟨s.base.closeSocket, none⟩

end IocpSocket

end WarheadDiscord

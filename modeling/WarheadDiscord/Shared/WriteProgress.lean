import Mathlib.Algebra.Order.Ring.Nat
import WarheadDiscord.Shared.WriteQueue

/-!
# The write queue gets shorter

`WriteQueue.lean` says that no byte is lost between `QueuePacket` and the kernel.  Here it
is said that the bytes get there: what waits has a load, its bytes and its buffers, and a
write that the kernel does not put off lowers it.

* `handleQueue_load`, `update_load`: one write, and one tick.
-/

namespace WarheadDiscord

open Lib

namespace MessageBuffer

/-- The bytes of a buffer, and one for the buffer. -/
def load (b : MessageBuffer) : Nat := b.getActiveSize + 1

theorem readCompleted_load (b : MessageBuffer) (n : Nat) :
    (b.readCompleted n).load = b.getActiveSize - n + 1 := by
  have hsub : (b.readCompleted n).getActiveSize = b.getActiveSize - n := (Nat.sub_sub _ _ _).symm
  rw [load, hsub]

end MessageBuffer

namespace Socket

/-- The bytes and the buffers that wait in the queue. -/
def load (s : Socket) : Nat := (s.writeQueue.map MessageBuffer.load).sum

/-- The kernel does not put the write of the first buffer off. -/
def takes (w : Nat → WriteResult) (s : Socket) : Bool :=
  match s.writeQueue with
  | [] => false
  | front :: _ => w front.getActiveSize != .wouldBlock

variable {s : Socket} {front : MessageBuffer} {rest : List MessageBuffer}

theorem load_of_cons (h : s.writeQueue = front :: rest) :
    s.load = front.getActiveSize + 1 + (rest.map MessageBuffer.load).sum := by
  rw [load, h, List.map_cons, List.sum_cons, MessageBuffer.load]

theorem load_eq_zero_iff (s : Socket) : s.load = 0 ↔ s.writeQueue = [] := by
  constructor
  · intro h
    cases hq : s.writeQueue with
    | nil => rfl
    | cons front rest =>
      rw [load_of_cons hq] at h
      omega
  · intro h
    rw [load, h]
    rfl

theorem popPacket_load (s : Socket) :
    s.popPacket.load = (s.writeQueue.tail.map MessageBuffer.load).sum := by
  rw [load, popPacket_writeQueue]

/-- **One write** lowers the load, unless it is put off or there is nothing to write. -/
theorem handleQueue_load (w : Nat → WriteResult) (s : Socket) :
    (s.handleQueue w).1.load + (if s.takes w then 1 else 0) ≤ s.load := by
  have hone : (if s.takes w then 1 else 0) ≤ 1 := by split <;> decide
  have hcase := handleQueue_handled w s
  generalize s.handleQueue w = r at hcase ⊢
  cases hcase with
  | empty hq =>
    have ht : s.takes w = false := by rw [takes, hq]
    rw [ht]
    exact Nat.le_refl _
  | wait hq hw =>
    have ht : s.takes w = false := by
      rw [takes, hq]
      dsimp only
      rw [hw]
      rfl
    rw [ht]
    exact Nat.le_refl _
  | fail hq hw =>
    rw [popPacket_load, load_of_cons hq, hq, List.tail_cons]
    omega
  | nothing hq hw =>
    rw [popPacket_load, load_of_cons hq, hq, List.tail_cons]
    omega
  | part hq hw h0 hn =>
    rw [load_of_cons hq, load]
    dsimp only
    rw [List.map_cons, List.sum_cons, MessageBuffer.readCompleted_load]
    omega
  | whole hq hw h0 hn =>
    rw [popPacket_load, load_of_cons hq, hq, List.tail_cons]
    omega

theorem handleQueueLoop_load : ∀ (fuel : Nat) (w : Nat → Nat → WriteResult) (s : Socket),
    (handleQueueLoop fuel w s).load ≤ s.load := by
  intro fuel
  induction fuel with
  | zero => intro w s; exact Nat.le_refl _
  | succ fuel ih =>
    intro w s
    have hone := (Nat.le_add_right _ _).trans (handleQueue_load (w 0) s)
    rw [handleQueueLoop]
    split
    · exact (ih _ _).trans hone
    · exact hone

/-- **One tick** lowers the load when the socket is open for writing and the kernel takes the
first write. -/
theorem update_load (w : Nat → Nat → WriteResult) (s : Socket) :
    (s.update w).1.load +
      (if !s.closed && !s.isWritingAsync && s.takes (w 0) then 1 else 0) ≤ s.load := by
  rw [update]
  cases hc : s.closed with
  | true => exact Nat.le_refl _
  | false =>
    cases ha : s.isWritingAsync with
    | true => exact Nat.le_refl _
    | false =>
      rw [if_neg (by decide), Bool.false_or]
      split
      · rename_i h
        rw [Bool.and_eq_true, List.isEmpty_iff] at h
        have ht : s.takes (w 0) = false := by rw [takes, h.1]
        rw [ht]
        exact Nat.le_refl _
      · have hone := handleQueue_load (w 0) s
        rw [handleQueueLoop, Bool.not_false, Bool.true_and, Bool.true_and]
        split
        · have hrest := handleQueueLoop_load s.writeQueue.length (fun i => w (i + 1))
            (s.handleQueue (w 0)).1
          exact (Nat.add_le_add_right hrest _).trans hone
        · exact hone

theorem queuePacket_load (s : Socket) (b : MessageBuffer) :
    (s.queuePacket b).load = s.load + b.load := by
  rw [load, queuePacket, List.map_append, List.sum_append, load]
  rfl

theorem foldl_queuePacket_load : ∀ (buffers : List MessageBuffer) (s : Socket),
    (buffers.foldl queuePacket s).load = s.load + (buffers.map MessageBuffer.load).sum := by
  intro buffers
  induction buffers with
  | nil => intro s; rfl
  | cons b rest ih =>
    intro s
    rw [List.foldl_cons, ih, queuePacket_load, List.map_cons, List.sum_cons, Nat.add_assoc]

end Socket

end WarheadDiscord

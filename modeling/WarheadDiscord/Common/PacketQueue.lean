import Mathlib.Data.List.Basic
import Mathlib.Tactic.Common

/-!
# `PacketQueue`

`DefaultPacketQueue` is a deque behind a mutex; each operation is one atomic
step.  `whileNext` is the loop `while (queue.GetNextPacket(packet)) body(packet)`
on a queue to which nobody else adds, and `whileNextWith` the same loop while
other threads add.  `whileNextWith_eq`: the latter does what the former does when
everything was added before the loop began.
-/

namespace WarheadDiscord

abbrev PacketQueue (α : Type*) := List α

namespace PacketQueue

variable {α β : Type*}

def addPacket (q : PacketQueue α) (packet : α) : PacketQueue α := q ++ [packet]

def isEmpty (q : PacketQueue α) : Bool := List.isEmpty q

/-- The loop that empties the queue: `GetNextPacket` gives the front packet until
there is none. -/
def whileNext (body : β → α → β) : PacketQueue α → β → β
  | [], b => b
  | packet :: rest, b => whileNext body rest (body b packet)

/-- The loop while other threads add packets, `arrivals` before its successive calls
of `GetNextPacket`.  The second component is what they added before it ended. -/
def whileNextWith (body : β → α → β) : List (List α) → PacketQueue α → β → β × List α
  | [], q, b => (whileNext body q b, [])
  | new :: arrivals, q, b =>
    match q ++ new with
    | [] => (b, [])
    | packet :: rest =>
      ((whileNextWith body arrivals rest (body b packet)).1,
        new ++ (whileNextWith body arrivals rest (body b packet)).2)

theorem whileNext_eq_foldl (body : β → α → β) (q : PacketQueue α) (b : β) :
    whileNext body q b = q.foldl body b := by
  induction q generalizing b with
  | nil => rfl
  | cons packet rest ih => rw [whileNext, ih, List.foldl_cons]

/-- **Packets that arrive during the loop are treated like those already there.** -/
theorem whileNextWith_eq (body : β → α → β) : ∀ (arrivals : List (List α))
    (q : PacketQueue α) (b : β),
    (whileNextWith body arrivals q b).1 =
      whileNext body (q ++ (whileNextWith body arrivals q b).2) b := by
  intro arrivals
  induction arrivals with
  | nil => intro q b; rw [whileNextWith, List.append_nil]
  | cons new arrivals ih =>
    intro q b
    unfold whileNextWith
    split
    · rename_i h
      rw [List.append_nil, (List.append_eq_nil_iff.mp h).1, whileNext]
    · rename_i packet rest h
      dsimp only
      rw [ih rest (body b packet), ← List.append_assoc, h, List.cons_append, whileNext]

end PacketQueue

end WarheadDiscord

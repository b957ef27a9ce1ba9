import Mathlib.Data.List.Perm.Subperm
import Mathlib.Tactic.Common

/-!
# Channels

A channel takes items in at one end and gives them out at the other, in order.
Between the two ends the items are in flight, in queues, buffers or hands whose
arrangement does not matter here.  A channel is described by the history of both
ends and by what is in flight.

* `Channel.Moves`: what a faithful channel does, taking items in and giving the
  oldest ones out.  `Moves.lossless`: everything taken in is given out or still
  in flight, in order.
* `Channel.Leaks`: a channel that may also lose items in flight.
  `Leaks.ordered`: what comes out is still a subsequence of what went in.
* `Lossless.drop_iff`: a loss is missed, unless nothing was there to be lost.
* `Ordered.lossless_iff_subperm`: among the ordered channels, the lossless ones are told
  without looking at the order.
-/

namespace WarheadDiscord.Lib

/-- Both ends of a channel, and what is between them. -/
structure Channel (α : Type*) where
  accepted : List α
  delivered : List α
  inFlight : List α

namespace Channel

variable {α : Type*} {c d e : Channel α}

/-- Everything taken in is given out or in flight, in order. -/
def Lossless (c : Channel α) : Prop := c.accepted = c.delivered ++ c.inFlight

/-- What is given out or in flight was taken in, in this order. -/
def Ordered (c : Channel α) : Prop := (c.delivered ++ c.inFlight).Sublist c.accepted

/-- Items are taken in behind those in flight, and the oldest in flight are given
out.  The items in flight may pass through in the same move. -/
def Moves (c d : Channel α) : Prop :=
  ∃ new out, d.accepted = c.accepted ++ new ∧ d.delivered = c.delivered ++ out ∧
    c.inFlight ++ new = out ++ d.inFlight

/-- A move that may lose some of the items in flight. -/
def Leaks (c d : Channel α) : Prop :=
  ∃ new out, d.accepted = c.accepted ++ new ∧ d.delivered = c.delivered ++ out ∧
    (out ++ d.inFlight).Sublist (c.inFlight ++ new)

theorem Moves.refl (c : Channel α) : Moves c c := ⟨[], [], by simp, by simp, by simp⟩

theorem Moves.trans (h : Moves c d) (g : Moves d e) : Moves c e := by
  obtain ⟨n₁, o₁, ha, hd, hf⟩ := h
  obtain ⟨n₂, o₂, ga, gd, gf⟩ := g
  refine ⟨n₁ ++ n₂, o₁ ++ o₂, by rw [ga, ha, List.append_assoc],
    by rw [gd, hd, List.append_assoc], ?_⟩
  rw [← List.append_assoc, hf, List.append_assoc, gf, List.append_assoc]

theorem Moves.leaks (h : Moves c d) : Leaks c d := by
  obtain ⟨n, o, ha, hd, hf⟩ := h
  exact ⟨n, o, ha, hd, by rw [hf]⟩

/-- **A faithful channel loses nothing.** -/
theorem Moves.lossless (h : Moves c d) (hc : Lossless c) : Lossless d := by
  obtain ⟨n, o, ha, hd, hf⟩ := h
  rw [Lossless] at hc ⊢
  rw [ha, hd, hc, List.append_assoc, hf, List.append_assoc]

theorem Lossless.drop_iff {taken lost rest : List α} {delivered : List α}
    (h : Lossless ⟨taken, delivered, lost ++ rest⟩) :
    Lossless ⟨taken, delivered, rest⟩ ↔ lost = [] := by
  rw [Lossless] at h ⊢
  dsimp only at h ⊢
  rw [h]
  constructor
  · intro heq
    have hlen := congrArg List.length (List.append_cancel_left heq)
    rw [List.length_append] at hlen
    exact List.eq_nil_of_length_eq_zero (by omega)
  · rintro rfl
    rfl

/-- **A leaking channel keeps the order.** -/
theorem Leaks.ordered (h : Leaks c d) (hc : Ordered c) : Ordered d := by
  obtain ⟨n, o, ha, hd, hf⟩ := h
  rw [Ordered] at hc ⊢
  rw [ha, hd, List.append_assoc]
  refine (List.Sublist.append_left hf c.delivered).trans ?_
  rw [← List.append_assoc]
  exact List.Sublist.append_right hc n

/-- What comes out of an ordered channel is a subsequence of what went in. -/
theorem Ordered.delivered_sublist (h : Ordered c) : c.delivered.Sublist c.accepted :=
  (List.sublist_append_left _ _).trans h

theorem Lossless.sent_first (h : Lossless c) : c.delivered <+: c.accepted :=
  ⟨c.inFlight, h.symm⟩

/-- It is enough that everything taken in is somewhere. -/
theorem Ordered.lossless_iff_subperm (h : Ordered c) :
    Lossless c ↔ c.accepted.Subperm (c.delivered ++ c.inFlight) := by
  constructor
  · intro hl
    rw [← hl]
  · intro hp
    exact (h.eq_of_length_le hp.length_le).symm

end Channel

end WarheadDiscord.Lib

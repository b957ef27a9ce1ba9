import WarheadDiscord.Common.MessageBuffer
import WarheadDiscord.Lib.Objects

/-!
# A `MessageBuffer` is a queue of bytes

`buffers` is the class as the code has it, and `queues` a class of lists of bytes with
the same functions: writing adds behind, reading takes away in front, and the functions
that only rearrange the storage do nothing.

* `refines_queues`: on valid buffers each function does to `active` what the queue does.
* `buffers_are_queues`: so do all runs, with any number of buffers that are copied and
  moved to each other.
-/

namespace WarheadDiscord

open Lib

namespace MessageBuffer

variable {b : MessageBuffer} {n : Nat}

theorem Valid.active_resize (h : b.Valid) (hn : b.wpos ≤ n) : (b.resize n).active = b.active := by
  rw [active_eq_drop, active_eq_drop]
  show ((resizeStorage b.storage n).take b.wpos).drop b.rpos = _
  rw [resizeStorage_take hn h.wpos_le]

theorem Valid.resize (h : b.Valid) (hn : b.wpos ≤ n) : (b.resize n).Valid := by
  refine ⟨h.rpos_le, ?_⟩
  show b.wpos ≤ (resizeStorage b.storage n).length
  rw [resizeStorage_length]
  exact hn

/-- What `EnsureFreeSpace` does: nothing, or it makes the storage longer. -/
theorem Valid.ensureFreeSpace_cases (h : b.Valid) :
    b.ensureFreeSpace = b ∨ ∃ n, b.wpos ≤ n ∧ b.ensureFreeSpace = b.resize n := by
  have hw := h.wpos_le
  rw [ensureFreeSpace]
  by_cases h0 : b.getRemainingSpace = 0
  · rw [if_pos h0]
    exact .inr ⟨_, by omega, rfl⟩
  · rw [if_neg h0]
    exact .inl rfl

theorem Valid.active_ensureFreeSpace (h : b.Valid) : b.ensureFreeSpace.active = b.active := by
  rcases h.ensureFreeSpace_cases with he | ⟨n, hn, he⟩
  · rw [he]
  · rw [he, h.active_resize hn]

theorem Valid.ensureFreeSpace (h : b.Valid) : b.ensureFreeSpace.Valid := by
  rcases h.ensureFreeSpace_cases with he | ⟨n, hn, he⟩
  · rw [he]
    exact h
  · rw [he]
    exact h.resize hn

/-! ### The two classes -/

inductive Construct where
  /-- `MessageBuffer()`. -/
  | new
  /-- `MessageBuffer(std::size_t initialSize)`. -/
  | ofSize (initialSize : Nat)

inductive Call where
  | write (data : List UInt8)
  | readCompleted (bytes : Nat)
  | normalize
  | ensureFreeSpace
  | resize (bytes : Nat)
  | reset
  /-- `Move()`, with the storage taken; if it is not taken, this is `Reset()`. -/
  | move

/-- The class of the code.  Nothing in it fails. -/
def buffers : Class Empty MessageBuffer Construct Call Empty where
  construct
    | .new => .new
    | .ofSize initialSize => .ofSize initialSize
  copyConstruct right := ⟨right.wpos, right.rpos, right.storage⟩
  moveConstruct := moveFrom
  copyAssign _ right := ⟨right.wpos, right.rpos, right.storage⟩
  moveAssign _ right := moveFrom right
  call
    | .write data, b => .ok (b.write data)
    | .readCompleted bytes, b => .ok (b.readCompleted bytes)
    | .normalize, b => .ok b.normalize
    | .ensureFreeSpace, b => .ok b.ensureFreeSpace
    | .resize bytes, b => .ok (b.resize bytes)
    | .reset, b => .ok b.reset
    | .move, b => .ok b.move.2
  callWith o := nomatch o
  callSelf o := nomatch o

/-- What it is for: queues of bytes.  A queue that was moved out of is empty. -/
def queues : Class Empty (List UInt8) Construct Call Empty where
  construct _ := []
  copyConstruct right := right
  moveConstruct right := (right, [])
  copyAssign _ right := right
  moveAssign _ right := (right, [])
  call
    | .write data, q => .ok (q ++ data)
    | .readCompleted bytes, q => .ok (q.drop bytes)
    | .normalize, q => .ok q
    | .ensureFreeSpace, q => .ok q
    | .resize _, q => .ok q
    | .reset, _ => .ok []
    | .move, _ => .ok []
  callWith o := nomatch o
  callSelf o := nomatch o

/-- The callers' side: no more is written than there is space for, no more is read than there
is, and a resize does not cut into what was written. -/
def Allowed : Call → MessageBuffer → Prop
  | .write data, b => data.length ≤ b.getRemainingSpace
  | .readCompleted bytes, b => bytes ≤ b.getActiveSize
  | .resize bytes, b => b.wpos ≤ bytes
  | _, _ => True

/-- All calls of a step are allowed. -/
def AllowedStep (pool : List MessageBuffer) : Class.Act Construct Call Empty → Prop
  | .call i o => ∀ b, pool[i]? = some b → Allowed o b
  | _ => True

/-! ### Refinement -/

theorem empty_valid : (⟨0, 0, []⟩ : MessageBuffer).Valid := ⟨Nat.le_refl _, Nat.le_refl _⟩

/-- **Each function is that of the queue.** -/
theorem refines_queues : Class.Refines buffers queues active Valid Allowed where
  copyConstruct _ h := ⟨h, rfl⟩
  moveConstruct _ h := ⟨h, empty_valid, rfl⟩
  copyAssign _ _ _ h := ⟨h, rfl⟩
  moveAssign _ _ _ h := ⟨h, empty_valid, rfl⟩
  call o b b' h ha hc := by
    cases o with
    | write data =>
      cases hc
      refine ⟨h.write ha, ?_⟩
      rw [h.active_write]
      rfl
    | readCompleted bytes =>
      cases hc
      refine ⟨h.readCompleted ha, ?_⟩
      rw [active_readCompleted]
      rfl
    | normalize =>
      cases hc
      refine ⟨h.normalize, ?_⟩
      rw [h.active_normalize]
      rfl
    | ensureFreeSpace =>
      cases hc
      refine ⟨h.ensureFreeSpace, ?_⟩
      rw [h.active_ensureFreeSpace]
      rfl
    | resize bytes =>
      cases hc
      refine ⟨h.resize ha, ?_⟩
      rw [h.active_resize ha]
      rfl
    | reset =>
      cases hc
      refine ⟨⟨Nat.le_refl _, Nat.zero_le _⟩, ?_⟩
      rw [active_of_getActiveSize (b := b.reset) rfl]
      rfl
    | move =>
      cases hc
      exact ⟨empty_valid, rfl⟩
  callWith o := nomatch o
  callSelf o := nomatch o

theorem allowedStep_fits {pool : List MessageBuffer} {a : Class.Act Construct Call Empty}
    (h : AllowedStep pool a) : Class.Fits buffers queues active Valid Allowed pool a := by
  cases a with
  | construct k =>
    cases k with
    | new => exact ⟨⟨Nat.le_refl _, Nat.zero_le _⟩, new_active.symm⟩
    | ofSize n => exact ⟨ofSize_valid n, (ofSize_active n).symm⟩
  | call i o => exact h
  | _ => trivial

/-- **Buffers are queues of bytes.**  In every run whose calls are allowed, the buffers hold what
the queues do of the same run, and the positions of each are in order and inside its storage. -/
theorem buffers_are_queues (acts : List (Class.Act Construct Call Empty))
    (h : Each buffers.step AllowedStep [] acts) :
    ∃ pool, run buffers.step [] acts = .ok pool ∧
      run queues.step [] acts = .ok (pool.map active) ∧ ∀ b ∈ pool, b.Valid := by
  cases hr : run buffers.step [] acts with
  | error e => exact e.elim
  | ok pool =>
    have hfits := each_mono (fun _ _ ha => allowedStep_fits ha) acts [] h
    obtain ⟨hv, hq⟩ := refines_queues.run acts [] pool (by simp) hfits hr
    exact ⟨pool, rfl, hq, hv⟩

/-- Three bytes are written, one is read, and the rest is moved to a second buffer. -/
theorem buffers_are_queues_move : ∃ pool, run buffers.step [] [.construct (.ofSize 4),
      .call 0 (.write [1, 2, 3]), .call 0 (.readCompleted 1), .call 0 .normalize,
      .moveConstruct 0] = .ok pool ∧ pool.map active = [[], [2, 3]] ∧ ∀ b ∈ pool, b.Valid := by
  have h : Each buffers.step AllowedStep [] [.construct (.ofSize 4), .call 0 (.write [1, 2, 3]),
      .call 0 (.readCompleted 1), .call 0 .normalize, .moveConstruct 0] := by
    intro _ h₁
    cases h₁
    refine ⟨trivial, fun _ h₂ => ?_⟩
    cases h₂
    refine ⟨fun b hb => ?_, fun _ h₃ => ?_⟩
    · cases hb
      show 3 ≤ 4
      decide
    cases h₃
    refine ⟨fun b hb => ?_, fun _ h₄ => ?_⟩
    · cases hb
      show 1 ≤ 3
      decide
    cases h₄
    refine ⟨fun _ _ => trivial, fun _ h₅ => ?_⟩
    cases h₅
    exact ⟨trivial, trivial⟩
  obtain ⟨pool, hr, hq, hv⟩ := buffers_are_queues _ h
  refine ⟨pool, hr, ?_, hv⟩
  exact (Except.ok.inj hq).symm

end MessageBuffer

end WarheadDiscord

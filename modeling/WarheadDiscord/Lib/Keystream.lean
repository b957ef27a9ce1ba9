import Mathlib.Data.List.Basic

/-!
# Texts under a keystream

Each byte is combined with the byte of the keystream at its place.

* `xorFrom_append`: a text in pieces.
* `xorFrom_xorFrom`: the same keystream twice.
-/

namespace WarheadDiscord.Lib

/-- The text whose first byte is at the place `pos` of the keystream. -/
def xorFrom (keystream : Nat → UInt8) : Nat → List UInt8 → List UInt8
  | _, [] => []
  | pos, b :: text => (b ^^^ keystream pos) :: xorFrom keystream (pos + 1) text

variable {keystream : Nat → UInt8}

@[simp] theorem xorFrom_length (pos : Nat) (text : List UInt8) :
    (xorFrom keystream pos text).length = text.length := by
  induction text generalizing pos with
  | nil => rfl
  | cons b text ih => rw [xorFrom, List.length_cons, ih, List.length_cons]

/-- **A text in pieces.** -/
theorem xorFrom_append (pos : Nat) (text rest : List UInt8) :
    xorFrom keystream pos (text ++ rest) =
      xorFrom keystream pos text ++ xorFrom keystream (pos + text.length) rest := by
  induction text generalizing pos with
  | nil => rfl
  | cons b text ih =>
    rw [List.cons_append, xorFrom, xorFrom, ih, List.length_cons, List.cons_append,
      Nat.add_right_comm, Nat.add_assoc]

/-- **The same keystream twice** gives the text back. -/
theorem xorFrom_xorFrom (pos : Nat) (text : List UInt8) :
    xorFrom keystream pos (xorFrom keystream pos text) = text := by
  induction text generalizing pos with
  | nil => rfl
  | cons b text ih => rw [xorFrom, xorFrom, ih, UInt8.xor_assoc, UInt8.xor_self, UInt8.xor_zero]

end WarheadDiscord.Lib

import Mathlib.Algebra.Order.Ring.Int
import WarheadDiscord.Common.Config

/-!
# `StringConvert`

`StringConvert.h` for the integer types and `bool`.  `std::from_chars` and `std::to_chars` are
told by the decimal digits of a number.

* `IntType.fromChars`, `boolFromString`: a text that is read whole.
* `fromChars_intText`: the digits of a number are read back.
-/

namespace WarheadDiscord.OptionCache

open Config

/-! ### Integer types -/

inductive Width where
  | w8
  | w16
  | w32
  | w64
  deriving DecidableEq, Repr

def Width.bits : Width → Nat
  | .w8 => 8
  | .w16 => 16
  | .w32 => 32
  | .w64 => 64

/-- `int8` to `uint64`. -/
structure IntType where
  signed : Bool
  width : Width
  deriving DecidableEq, Repr

def IntType.min (t : IntType) : Int := if t.signed then -2 ^ (t.width.bits - 1) else 0

def IntType.max (t : IntType) : Int :=
  if t.signed then 2 ^ (t.width.bits - 1) - 1 else 2 ^ t.width.bits - 1

abbrev IntType.Val (t : IntType) := { n : Int // t.min ≤ n ∧ n ≤ t.max }

theorem IntType.zero_mem (t : IntType) : t.min ≤ 0 ∧ 0 ≤ t.max := by
  obtain ⟨signed, width⟩ := t
  cases signed <;> cases width <;> decide

/-! ### Texts of values -/

/-- The decimal digits of a number. -/
def natText (n : Nat) : Str := (Nat.toDigits 10 n).map Char.toUInt8

def intText (n : Int) : Str := if n < 0 then 45 :: natText n.natAbs else natText n.natAbs

def isDigit (c : UInt8) : Bool := 48 ≤ c && c ≤ 57

/-- A whole text of decimal digits. -/
def natOfText (s : Str) : Option Nat :=
  if s ≠ [] ∧ s.all isDigit then some (Nat.ofDigitChars 10 (s.map Char.ofUInt8) 0) else none

/-- A whole text of decimal digits, behind a minus sign where there are such numbers. -/
def intOfText (signed : Bool) (s : Str) : Option Int :=
  match s with
  | 45 :: ds => if signed then (natOfText ds).map (fun n : Nat => -(n : Int)) else none
  | ds => (natOfText ds).map (fun n : Nat => (n : Int))

/-- `std::from_chars` in base ten, for the whole text. -/
def IntType.fromChars (t : IntType) (s : Str) : Option t.Val :=
  match intOfText t.signed s with
  | none => none
  | some n => if h : t.min ≤ n ∧ n ≤ t.max then some ⟨n, h⟩ else none

/-- `std::tolower`. -/
def tolower (c : UInt8) : UInt8 := if 65 ≤ c ∧ c ≤ 90 then c + 32 else c

def stringEqualI (a b : Str) : Bool := a.map tolower == b.map tolower

/-- `StringTo<bool>`. -/
def boolFromString (s : Str) : Option Bool :=
  if s = ofString "1" ∨ stringEqualI s (ofString "y") ∨ stringEqualI s (ofString "on") ∨
      stringEqualI s (ofString "yes") ∨ stringEqualI s (ofString "true") then
    some true
  else if s = ofString "0" ∨ stringEqualI s (ofString "n") ∨ stringEqualI s (ofString "off") ∨
      stringEqualI s (ofString "no") ∨ stringEqualI s (ofString "false") then
    some false
  else none

/-! ### Digits are read back -/

theorem digit_toUInt8 {c : Char} (h : c.isDigit = true) :
    isDigit c.toUInt8 = true ∧ Char.ofUInt8 c.toUInt8 = c := by
  have hall : ∀ d < 10, isDigit (Char.ofNat (48 + d)).toUInt8 = true ∧
      Char.ofUInt8 (Char.ofNat (48 + d)).toUInt8 = Char.ofNat (48 + d) := by decide
  obtain ⟨hlo, hhi⟩ := Char.isDigit_iff_toNat.mp h
  have hlo' : 48 ≤ c.toNat := hlo
  have hhi' : c.toNat ≤ 57 := hhi
  have hc : Char.ofNat (48 + (c.toNat - 48)) = c := by
    rw [Nat.add_sub_cancel' hlo', Char.ofNat_toNat]
  have hd := hall (c.toNat - 48) (by omega)
  rw [hc] at hd
  exact hd

theorem natText_digit {n : Nat} {c : UInt8} (h : c ∈ natText n) : isDigit c = true := by
  rw [natText, List.mem_map] at h
  obtain ⟨d, hd, rfl⟩ := h
  exact (digit_toUInt8 (Nat.isDigit_of_mem_toDigits (by decide) (by decide) hd)).1

theorem natText_ne_nil (n : Nat) : natText n ≠ [] := by
  rw [natText, Ne, List.map_eq_nil_iff]
  exact Nat.toDigits_ne_nil

theorem natOfText_natText (n : Nat) : natOfText (natText n) = some n := by
  have hback : (natText n).map Char.ofUInt8 = Nat.toDigits 10 n := by
    rw [natText, List.map_map]
    conv_rhs => rw [← List.map_id (Nat.toDigits 10 n)]
    apply List.map_congr_left
    intro c hc
    exact (digit_toUInt8 (Nat.isDigit_of_mem_toDigits (by decide) (by decide) hc)).2
  have hall : (natText n).all isDigit = true := List.all_eq_true.mpr fun c hc => natText_digit hc
  rw [natOfText, if_pos ⟨natText_ne_nil n, hall⟩, hback,
    Nat.ofDigitChars_toDigits (by decide) (by decide)]

theorem intOfText_intText {signed : Bool} {n : Int} (h : n < 0 → signed = true) :
    intOfText signed (intText n) = some n := by
  by_cases hneg : n < 0
  · have habs : -(n.natAbs : Int) = n := by omega
    rw [intText, if_pos hneg, intOfText, if_pos (h hneg), natOfText_natText, Option.map_some, habs]
  · have habs : (n.natAbs : Int) = n := by omega
    have hnat := natOfText_natText n.natAbs
    rw [intText, if_neg hneg]
    cases hd : natText n.natAbs with
    | nil => exact absurd hd (natText_ne_nil _)
    | cons c ds =>
      have hc : isDigit c = true := natText_digit (n := n.natAbs) (by rw [hd]; simp)
      rw [hd] at hnat
      -- The text does not start with a minus sign.
      rw [intOfText, hnat, Option.map_some, habs]
      rintro ds' heq
      cases heq
      revert hc
      decide

theorem fromChars_intText (t : IntType) (n : t.Val) : t.fromChars (intText n.val) = some n := by
  have hsigned : n.val < 0 → t.signed = true := by
    intro hneg
    by_contra hs
    have hmin : t.min = 0 := if_neg hs
    have hle := n.property.1
    omega
  rw [IntType.fromChars, intOfText_intText hsigned]
  exact dif_pos n.property

end WarheadDiscord.OptionCache

import WarheadDiscord.Lib.Endian

/-!
# `ByteConverter`

A host reads the bytes of an integer in its own order.  `EndianConvert` turns a
little-endian field into the order of the host, and `EndianConvertReverse` a
big-endian one: each swaps the bytes on one kind of host and does nothing on the
other.  After the right one of the two the host reads the same number whatever
its order (`hostLoad_endianConvert`, `hostLoad_endianConvertReverse`).
-/

namespace WarheadDiscord

open Lib

/-- The byte order of the host, `WARHEAD_ENDIAN`. -/
inductive Endian where
  | little
  | big
  deriving DecidableEq, Repr

/-- The integer that the host finds in a field. -/
def hostLoad : Endian → List UInt8 → Nat
  | .little, bs => ofLE bs
  | .big, bs => ofBE bs

/-- The field of `w` bytes in which the host stores an integer. -/
def hostStore : Endian → Nat → Nat → List UInt8
  | .little, w, n => toLE w n
  | .big, w, n => toBE w n

namespace ByteConverter

/-- `convert<T>`: swap the outer bytes and go on with the inner ones. -/
def convert : Nat → List UInt8 → List UInt8
  | 0, val => val
  | 1, val => val
  | _ + 2, [] => []
  | n + 2, a :: val => (val.getLast?.toList ++ convert n val.dropLast) ++ [a]

/-- `apply<T>`, for a field of all the bytes given. -/
def apply (val : List UInt8) : List UInt8 := convert val.length val

theorem convert_eq_reverse : ∀ (n : Nat) (val : List UInt8), val.length = n →
    convert n val = val.reverse
  | 0, val, h => by rw [List.length_eq_zero_iff.mp h]; rfl
  | 1, val, h => by
    obtain ⟨a, rfl⟩ := List.length_eq_one_iff.mp h
    rfl
  | n + 2, [], h => by cases h
  | n + 2, a :: val, h => by
    have hne : val ≠ [] := by rintro rfl; simp at h
    have hl : val.dropLast.length = n := by
      rw [List.length_dropLast]
      simp only [List.length_cons] at h
      omega
    have hv : val.dropLast ++ [val.getLast hne] = val := List.dropLast_append_getLast hne
    rw [convert, convert_eq_reverse n _ hl, List.getLast?_eq_some_getLast hne, List.reverse_cons]
    congr 1
    conv_rhs => rw [← hv]
    rw [List.reverse_append]
    rfl

theorem apply_eq_reverse (val : List UInt8) : apply val = val.reverse :=
  convert_eq_reverse _ _ rfl

end ByteConverter

/-- `EndianConvert` on the bytes of a field. -/
def endianConvert : Endian → List UInt8 → List UInt8
  | .little, val => val
  | .big, val => ByteConverter.apply val

/-- `EndianConvertReverse` on the bytes of a field. -/
def endianConvertReverse : Endian → List UInt8 → List UInt8
  | .little, val => ByteConverter.apply val
  | .big, val => val

@[simp] theorem endianConvert_length (e : Endian) (val : List UInt8) :
    (endianConvert e val).length = val.length := by
  cases e
  · rfl
  · rw [endianConvert, ByteConverter.apply_eq_reverse, List.length_reverse]

@[simp] theorem endianConvertReverse_length (e : Endian) (val : List UInt8) :
    (endianConvertReverse e val).length = val.length := by
  cases e
  · rw [endianConvertReverse, ByteConverter.apply_eq_reverse, List.length_reverse]
  · rfl

@[simp] theorem hostStore_length (e : Endian) (w n : Nat) : (hostStore e w n).length = w := by
  cases e <;> simp [hostStore]

/-- **A little-endian field reads as itself on every host.** -/
theorem hostLoad_endianConvert (e : Endian) (val : List UInt8) :
    hostLoad e (endianConvert e val) = ofLE val := by
  cases e
  · rfl
  · rw [endianConvert, ByteConverter.apply_eq_reverse, hostLoad, ofBE, List.reverse_reverse]

/-- **A big-endian field reads as itself on every host.** -/
theorem hostLoad_endianConvertReverse (e : Endian) (val : List UInt8) :
    hostLoad e (endianConvertReverse e val) = ofBE val := by
  cases e
  · rw [endianConvertReverse, ByteConverter.apply_eq_reverse, hostLoad, ofBE]
  · rfl

end WarheadDiscord

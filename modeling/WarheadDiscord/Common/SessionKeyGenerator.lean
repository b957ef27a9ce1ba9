import WarheadDiscord.Common.SRP6
import WarheadDiscord.Lib.Blocks
import WarheadDiscord.Lib.Machine

/-!
# `SessionKeyGenerator`

`Hash` is an arbitrary function to `n` bytes.

* `nextByte`, `generate`: a turn of the loop, and the loop.
* `Shows`: the position of the generator in the stream of all digests.
* `generate_stream`: the bytes of any requests are the first ones of that stream.
-/

namespace WarheadDiscord.Crypto

open Lib

variable {n : Nat}

/-- The members.  The iterator is the index in `o0`. -/
structure SessionKeyGenerator (n : Nat) where
  o0 : Bytes n
  o1 : Bytes n
  o2 : Bytes n
  o0it : Nat

namespace SessionKeyGenerator

/-- `Hash::Digest o0 = { }`. -/
def zeros (n : Nat) : Bytes n := ⟨List.replicate n 0, List.length_replicate⟩

section Functions

variable (hash : List UInt8 → Bytes n)

/-- The constructor. -/
def new (buf : List UInt8) : SessionKeyGenerator n :=
  let len := buf.length
  let halflen := len / 2
  let o1 := hash (buf.take halflen)
  let o2 := hash ((buf.drop halflen).take (len - halflen))
  { o0 := hash (o1.val ++ (zeros n).val ++ o2.val), o1 := o1, o2 := o2, o0it := 0 }

/-- A turn of the loop of `Generate`. -/
def nextByte (g : SessionKeyGenerator n) : Except Fault (UInt8 × SessionKeyGenerator n) :=
  let g := if g.o0it = n then
      { g with o0 := hash (g.o1.val ++ g.o0.val ++ g.o2.val), o0it := 0 }
    else g
  match g.o0.val[g.o0it]? with
  | some byte => .ok (byte, { g with o0it := g.o0it + 1 })
  | none => .error (.undefinedBehaviour "*(o0it++)")

/-- The turns of the loop that are left. -/
def generateLoop (g : SessionKeyGenerator n) :
    Nat → Except Fault (List UInt8 × SessionKeyGenerator n)
  | 0 => .ok ([], g)
  | left + 1 => do
    let (byte, g) ← nextByte hash g
    let (buf, g) ← generateLoop g left
    return (byte :: buf, g)

/-- `SessionKeyGenerator::Generate`.  `i` counts up to `sz`, so that it does not wrap. -/
def generate (g : SessionKeyGenerator n) (sz : UInt32) :
    Except Fault (List UInt8 × SessionKeyGenerator n) :=
  generateLoop hash g sz.toNat

/-- One request after the other. -/
def generateAll (g : SessionKeyGenerator n) :
    List UInt32 → Except Fault (List (List UInt8) × SessionKeyGenerator n)
  | [] => .ok ([], g)
  | sz :: sizes => do
    let (buf, g) ← generate hash g sz
    let (bufs, g) ← generateAll g sizes
    return (buf :: bufs, g)

/-! ### The stream -/

/-- The digests, of which the zeros are the first. -/
def digest (buf : List UInt8) : Nat → Bytes n
  | 0 => zeros n
  | i + 1 => hash ((hash (buf.take (buf.length / 2))).val ++ (digest buf i).val ++
      (hash (buf.drop (buf.length / 2))).val)

/-- The first `m` digests behind the zeros. -/
def stream (buf : List UInt8) (m : Nat) : List UInt8 :=
  (List.range m).flatMap fun i => (digest hash buf (i + 1)).val

theorem getElem?_stream (buf : List UInt8) {i j m : Nat} (hi : i < m) (hj : j < n) :
    (stream hash buf m)[i * n + j]? = (digest hash buf (i + 1)).val[j]? := by
  rw [stream, getElem?_flatMap_of_length (fun i => (digest hash buf (i + 1)).property) _ _ hj,
    List.getElem?_range hi, Option.bind_some]

end Functions

variable {hash : List UInt8 → Bytes n} {buf : List UInt8} {g : SessionKeyGenerator n} {t : Nat}

/-- The generator has given `t` bytes. -/
structure Shows (hash : List UInt8 → Bytes n) (buf : List UInt8) (t : Nat)
    (g : SessionKeyGenerator n) : Prop where
  first : g.o1 = hash (buf.take (buf.length / 2))
  second : g.o2 = hash (buf.drop (buf.length / 2))
  position : ∃ i, g.o0 = digest hash buf (i + 1) ∧ t = i * n + g.o0it ∧ g.o0it ≤ n

theorem shows_new (hash : List UInt8 → Bytes n) (buf : List UInt8) :
    Shows hash buf 0 (new hash buf) := by
  have hrest : (buf.drop (buf.length / 2)).take (buf.length - buf.length / 2) =
      buf.drop (buf.length / 2) := List.take_of_length_le (by rw [List.length_drop])
  refine ⟨rfl, congrArg hash hrest, 0, ?_, by simp [new], Nat.zero_le n⟩
  rw [digest, digest, new]
  simp only [hrest]

theorem nextByte_spec (hn : 0 < n) (hg : Shows hash buf t g) :
    ∃ byte g', nextByte hash g = .ok (byte, g') ∧ Shows hash buf (t + 1) g' ∧
      ∀ m, t < m * n → (stream hash buf m)[t]? = some byte := by
  obtain ⟨hfirst, hsecond, i, ho0, ht, hit⟩ := hg
  -- The position before the read, in the block of the byte.
  obtain ⟨i, it, hrefill, ht, hit⟩ : ∃ i it,
      (if g.o0it = n then
        { g with o0 := hash (g.o1.val ++ g.o0.val ++ g.o2.val), o0it := 0 }
      else g) = { g with o0 := digest hash buf (i + 1), o0it := it } ∧
        t = i * n + it ∧ it < n := by
    by_cases hend : g.o0it = n
    · refine ⟨i + 1, 0, ?_, ?_, hn⟩
      · rw [if_pos hend, digest, hfirst, hsecond, ho0]
      · rw [ht, hend, Nat.succ_mul, Nat.add_zero]
    · refine ⟨i, g.o0it, ?_, ht, Nat.lt_of_le_of_ne hit hend⟩
      rw [if_neg hend, ← ho0]
  have hlt : it < (digest hash buf (i + 1)).val.length := by
    rw [(digest hash buf (i + 1)).property]
    exact hit
  refine ⟨(digest hash buf (i + 1)).val[it],
    { g with o0 := digest hash buf (i + 1), o0it := it + 1 }, ?_,
    ⟨hfirst, hsecond, i, rfl, ?_, hit⟩, ?_⟩
  · rw [nextByte, hrefill, List.getElem?_eq_getElem hlt]
  · rw [ht, Nat.add_assoc]
  · intro m hm
    have hi : i < m := by
      refine Nat.lt_of_mul_lt_mul_right (a := n) ?_
      omega
    rw [ht, getElem?_stream hash buf hi hit, List.getElem?_eq_getElem hlt]

theorem generateLoop_spec (hn : 0 < n) (left : Nat) (hg : Shows hash buf t g) :
    ∃ out g', generateLoop hash g left = .ok (out, g') ∧ Shows hash buf (t + left) g' ∧
      out.length = left ∧
      ∀ m, t + left ≤ m * n → out = ((stream hash buf m).drop t).take left := by
  induction left generalizing g t with
  | zero => exact ⟨[], g, rfl, hg, rfl, fun m _ => List.take_zero.symm⟩
  | succ left ih =>
    obtain ⟨byte, g₁, hbyte, hg₁, hfirst⟩ := nextByte_spec hn hg
    obtain ⟨out, g₂, hout, hg₂, hlength, hrest⟩ := ih hg₁
    refine ⟨byte :: out, g₂, ?_, ?_, by rw [List.length_cons, hlength], fun m hm => ?_⟩
    · rw [generateLoop, hbyte, ok_bind]
      dsimp only
      rw [hout, ok_bind]
      rfl
    · rw [Nat.add_comm left, ← Nat.add_assoc]
      exact hg₂
    · rw [take_drop_succ (hfirst m (by omega)), ← hrest m (by omega)]

theorem generateAll_spec (hn : 0 < n) (sizes : List UInt32) (hg : Shows hash buf t g) :
    ∃ outs g', generateAll hash g sizes = .ok (outs, g') ∧
      outs.map List.length = sizes.map UInt32.toNat ∧
      ∀ m, t + (sizes.map UInt32.toNat).sum ≤ m * n →
        outs.flatten = ((stream hash buf m).drop t).take (sizes.map UInt32.toNat).sum := by
  induction sizes generalizing g t with
  | nil => exact ⟨[], g, rfl, rfl, fun m _ => List.take_zero.symm⟩
  | cons sz sizes ih =>
    obtain ⟨out, g₁, hout, hg₁, hlength, hfirst⟩ := generateLoop_spec hn sz.toNat hg
    obtain ⟨outs, g₂, houts, hlengths, hrest⟩ := ih hg₁
    refine ⟨out :: outs, g₂, ?_, ?_, fun m hm => ?_⟩
    · rw [generateAll, generate, hout, ok_bind]
      dsimp only
      rw [houts, ok_bind]
      rfl
    · rw [List.map_cons, List.map_cons, hlength, hlengths]
    · rw [List.map_cons, List.sum_cons] at hm ⊢
      rw [List.flatten_cons, hfirst m (by omega), hrest m (by omega), List.take_add,
        List.drop_drop]

/-- **The bytes of any requests are the first ones of the stream**, however they are cut. -/
theorem generate_stream (hn : 0 < n) (hash : List UInt8 → Bytes n) (buf : List UInt8)
    (sizes : List UInt32) :
    ∃ outs g, generateAll hash (new hash buf) sizes = .ok (outs, g) ∧
      outs.map List.length = sizes.map UInt32.toNat ∧
      ∀ m, (sizes.map UInt32.toNat).sum ≤ m * n →
        outs.flatten = (stream hash buf m).take (sizes.map UInt32.toNat).sum := by
  obtain ⟨outs, g, houts, hlengths, hstream⟩ := generateAll_spec hn sizes (shows_new hash buf)
  refine ⟨outs, g, houts, hlengths, fun m hm => ?_⟩
  rw [hstream m (by omega), List.drop_zero]

/-- A checksum of two bytes. -/
def checksum (data : List UInt8) : Bytes 2 := ⟨[data.foldl (· + ·) 1, data.length.toUInt8], rfl⟩

theorem generate_stream_checksum :
    ∃ outs g, generateAll checksum (new checksum [1, 2, 3]) [1, 4] = .ok (outs, g) ∧
      outs.map List.length = List.map UInt32.toNat [1, 4] ∧
      ∀ m, (List.map UInt32.toNat [1, 4]).sum ≤ m * 2 →
        outs.flatten =
          (stream checksum [1, 2, 3] m).take (List.map UInt32.toNat [1, 4]).sum :=
  generate_stream (by decide) checksum [1, 2, 3] [1, 4]

end SessionKeyGenerator

end WarheadDiscord.Crypto

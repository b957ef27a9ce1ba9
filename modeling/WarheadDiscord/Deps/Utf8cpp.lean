import Mathlib.Algebra.Order.Ring.Nat
import WarheadDiscord.Lib.Machine

/-!
# `utf8::is_valid`

The decoder of the vendored `utf8cpp`.  An iterator is the list of the octets from
it on, and the end of the text is the empty list.

* `validateNext_encode`, `validateNext_ok`: one step of the decoder succeeds exactly on
  the encoding of a character.
* `isValid_iff`: the texts that it accepts are the encodings of lists of characters.
-/

namespace WarheadDiscord

namespace Utf8

inductive UtfError where
  | notEnoughRoom
  | invalidLead
  | incompleteSequence
  | overlongSequence
  | invalidCodePoint
  deriving DecidableEq, Repr

def isTrail (oc : UInt8) : Bool := oc >>> 6 == 0x2

def isSurrogate (cp : UInt32) : Bool := 0xd800 ≤ cp && cp ≤ 0xdfff

def isCodePointValid (cp : UInt32) : Bool := cp ≤ 0x0010ffff && !isSurrogate cp

def sequenceLength (lead : UInt8) : Nat :=
  if lead < 0x80 then 1
  else if lead >>> 5 == 0x6 then 2
  else if lead >>> 4 == 0xe then 3
  else if lead >>> 3 == 0x1e then 4
  else 0

def isOverlongSequence (cp : UInt32) (length : Nat) : Bool :=
  if cp < 0x80 then length != 1
  else if cp < 0x800 then length != 2
  else if cp < 0x10000 then length != 3
  else false

/-- `increase_safely`: the octet that the iterator is moved to, and what is behind it. -/
def increaseSafely : List UInt8 → Except UtfError (UInt8 × List UInt8)
  | [] => .error .notEnoughRoom
  | oc :: rest => if isTrail oc then .ok (oc, rest) else .error .incompleteSequence

/-- `get_sequence_1` on the octet `lead` with `it` behind it. -/
def getSequence1 (lead : UInt8) (it : List UInt8) : Except UtfError (UInt32 × List UInt8) :=
  .ok (lead.toUInt32, it)

def getSequence2 (lead : UInt8) (it : List UInt8) : Except UtfError (UInt32 × List UInt8) := do
  let codePoint : UInt32 := lead.toUInt32
  let (oc, it) ← increaseSafely it
  let codePoint : UInt32 := ((codePoint <<< 6) &&& 0x7ff) + (oc.toUInt32 &&& 0x3f)
  return (codePoint, it)

def getSequence3 (lead : UInt8) (it : List UInt8) : Except UtfError (UInt32 × List UInt8) := do
  let codePoint : UInt32 := lead.toUInt32
  let (oc, it) ← increaseSafely it
  let codePoint : UInt32 := ((codePoint <<< 12) &&& (0xffff : UInt32)) +
    ((oc.toUInt32 <<< 6) &&& (0xfff : UInt32))
  let (oc, it) ← increaseSafely it
  let codePoint : UInt32 := codePoint + (oc.toUInt32 &&& 0x3f)
  return (codePoint, it)

def getSequence4 (lead : UInt8) (it : List UInt8) : Except UtfError (UInt32 × List UInt8) := do
  let codePoint : UInt32 := lead.toUInt32
  let (oc, it) ← increaseSafely it
  let codePoint : UInt32 := ((codePoint <<< 18) &&& (0x1fffff : UInt32)) +
    ((oc.toUInt32 <<< 12) &&& (0x3ffff : UInt32))
  let (oc, it) ← increaseSafely it
  let codePoint : UInt32 := codePoint + ((oc.toUInt32 <<< 6) &&& 0xfff)
  let (oc, it) ← increaseSafely it
  let codePoint : UInt32 := codePoint + (oc.toUInt32 &&& 0x3f)
  return (codePoint, it)

def getSequence (length : Nat) (lead : UInt8) (it : List UInt8) :
    Except UtfError (UInt32 × List UInt8) :=
  match length with
  | 1 => getSequence1 lead it
  | 2 => getSequence2 lead it
  | 3 => getSequence3 lead it
  | 4 => getSequence4 lead it
  | _ => .error .invalidLead

/-- `validate_next` at the octet `lead`: the code point, and the iterator behind its octets. -/
def validateNext (lead : UInt8) (it : List UInt8) : Except UtfError (UInt32 × List UInt8) := do
  let length := sequenceLength lead
  let (cp, it) ← getSequence length lead it
  if isCodePointValid cp then
    if !isOverlongSequence cp length then return (cp, it)
    else throw .overlongSequence
  else throw .invalidCodePoint

/-- `find_invalid`, with one unit of fuel for every octet: a step goes over at least one. -/
def findInvalidFrom : Nat → List UInt8 → List UInt8
  | 0, result => result
  | _ + 1, [] => []
  | fuel + 1, lead :: it =>
    match validateNext lead it with
    | .ok (_, result) => findInvalidFrom fuel result
    | .error _ => lead :: it

def findInvalid (start : List UInt8) : List UInt8 := findInvalidFrom start.length start

def isValid (start : List UInt8) : Bool := (findInvalid start).isEmpty

/-- The encodings of the lists of characters. -/
def ValidUtf8 (s : List UInt8) : Prop := ∃ cs : List Char, s = cs.flatMap String.utf8EncodeChar

/-! ### The sequences -/

variable {a b c d oc lead : UInt8} {rest it it' : List UInt8} {cp : UInt32}

theorem isTrail_iff : isTrail oc = true ↔ 0x80 ≤ oc.toNat ∧ oc.toNat < 0xc0 := by
  rw [isTrail, beq_iff_eq, ← UInt8.toNat_inj]
  simp [Nat.shiftRight_eq_div_pow]
  omega

theorem isCodePointValid_iff : isCodePointValid cp = true ↔ cp.toNat.isValidChar := by
  rw [isCodePointValid, isSurrogate, Nat.isValidChar]
  simp [UInt32.le_iff_toNat_le]
  omega

theorem increaseSafely_ok {oc : UInt8} :
    increaseSafely it = .ok (oc, rest) ↔ it = oc :: rest ∧ isTrail oc = true := by
  cases it with
  | nil => simp [increaseSafely]
  | cons x it =>
    rw [increaseSafely]
    by_cases hx : isTrail x = true
    · rw [if_pos hx]
      simp only [Except.ok.injEq, Prod.mk.injEq, List.cons.injEq]
      constructor
      · rintro ⟨rfl, rfl⟩
        exact ⟨⟨rfl, rfl⟩, hx⟩
      · rintro ⟨h, -⟩
        exact h
    · rw [if_neg hx]
      simp only [reduceCtorEq, List.cons.injEq, false_iff]
      rintro ⟨⟨rfl, rfl⟩, h⟩
      exact hx h

theorem low6 (oc : UInt8) : (oc.toUInt32 &&& 0x3f).toNat = oc.toNat % 64 := by
  rw [UInt32.toNat_and]
  exact Nat.and_two_pow_sub_one_eq_mod _ 6

theorem shift_mask (oc : UInt8) (k n : Nat) (m s : UInt32) (hm : m.toNat = 2 ^ n - 1)
    (hs : s.toNat = k) (hk : k ≤ 18) (hn : n ≤ 32) :
    ((oc.toUInt32 <<< s) &&& m).toNat = oc.toNat * 2 ^ k % 2 ^ n := by
  have hlt := oc.toNat_lt
  have hd : 2 ^ n ∣ 2 ^ 32 := Nat.pow_dvd_pow 2 hn
  rw [UInt32.toNat_and, hm, Nat.and_two_pow_sub_one_eq_mod, UInt32.toNat_shiftLeft, hs,
    Nat.mod_eq_of_lt (a := k) (by omega), Nat.shiftLeft_eq, Nat.mod_mod_of_dvd _ hd,
    UInt8.toNat_toUInt32]

theorem getSequence2_ok : getSequence2 a it = .ok (cp, rest) ↔ ∃ b, it = b :: rest ∧
    isTrail b = true ∧ cp.toNat = a.toNat * 2 ^ 6 % 2 ^ 11 + b.toNat % 64 := by
  have hcp (b : UInt8) : (((a.toUInt32 <<< 6) &&& 0x7ff) + (b.toUInt32 &&& 0x3f)).toNat =
      a.toNat * 2 ^ 6 % 2 ^ 11 + b.toNat % 64 := by
    rw [UInt32.toNat_add, shift_mask a 6 11 _ _ rfl rfl (by decide) (by decide), low6]
    omega
  rw [getSequence2]
  constructor
  · intro h
    obtain ⟨⟨b, it₁⟩, h₁, h₂⟩ := Lib.bind_ok h
    obtain ⟨rfl, hb⟩ := increaseSafely_ok.mp h₁
    cases h₂
    exact ⟨b, rfl, hb, hcp b⟩
  · rintro ⟨b, rfl, hb, h⟩
    rw [← hcp, UInt32.toNat_inj] at h
    simp only [increaseSafely_ok.mpr ⟨rfl, hb⟩, bind, Except.bind, pure, Except.pure, h]

theorem getSequence3_ok : getSequence3 a it = .ok (cp, rest) ↔ ∃ b c, it = b :: c :: rest ∧
    isTrail b = true ∧ isTrail c = true ∧
    cp.toNat = a.toNat * 2 ^ 12 % 2 ^ 16 + b.toNat * 2 ^ 6 % 2 ^ 12 + c.toNat % 64 := by
  have hcp (b c : UInt8) : (((a.toUInt32 <<< 12) &&& (0xffff : UInt32)) +
      ((b.toUInt32 <<< 6) &&& (0xfff : UInt32)) + (c.toUInt32 &&& 0x3f)).toNat =
      a.toNat * 2 ^ 12 % 2 ^ 16 + b.toNat * 2 ^ 6 % 2 ^ 12 + c.toNat % 64 := by
    rw [UInt32.toNat_add, UInt32.toNat_add,
      shift_mask a 12 16 _ _ rfl rfl (by decide) (by decide),
      shift_mask b 6 12 _ _ rfl rfl (by decide) (by decide), low6]
    omega
  rw [getSequence3]
  constructor
  · intro h
    obtain ⟨⟨b, it₁⟩, h₁, h₂⟩ := Lib.bind_ok h
    obtain ⟨⟨c, it₂⟩, h₃, h₄⟩ := Lib.bind_ok h₂
    obtain ⟨rfl, hb⟩ := increaseSafely_ok.mp h₁
    obtain ⟨rfl, hc⟩ := increaseSafely_ok.mp h₃
    cases h₄
    exact ⟨b, c, rfl, hb, hc, hcp b c⟩
  · rintro ⟨b, c, rfl, hb, hc, h⟩
    rw [← hcp, UInt32.toNat_inj] at h
    simp only [increaseSafely_ok.mpr ⟨rfl, hb⟩, increaseSafely_ok.mpr ⟨rfl, hc⟩, bind, Except.bind,
      pure, Except.pure, h]

theorem getSequence4_ok : getSequence4 a it = .ok (cp, rest) ↔ ∃ b c d, it = b :: c :: d :: rest ∧
    isTrail b = true ∧ isTrail c = true ∧ isTrail d = true ∧
    cp.toNat = a.toNat * 2 ^ 18 % 2 ^ 21 + b.toNat * 2 ^ 12 % 2 ^ 18 + c.toNat * 2 ^ 6 % 2 ^ 12 +
      d.toNat % 64 := by
  have hcp (b c d : UInt8) : (((a.toUInt32 <<< 18) &&& (0x1fffff : UInt32)) +
      ((b.toUInt32 <<< 12) &&& (0x3ffff : UInt32)) + ((c.toUInt32 <<< 6) &&& (0xfff : UInt32)) +
      (d.toUInt32 &&& 0x3f)).toNat =
      a.toNat * 2 ^ 18 % 2 ^ 21 + b.toNat * 2 ^ 12 % 2 ^ 18 + c.toNat * 2 ^ 6 % 2 ^ 12 +
        d.toNat % 64 := by
    rw [UInt32.toNat_add, UInt32.toNat_add, UInt32.toNat_add,
      shift_mask a 18 21 _ _ rfl rfl (by decide) (by decide),
      shift_mask b 12 18 _ _ rfl rfl (by decide) (by decide),
      shift_mask c 6 12 _ _ rfl rfl (by decide) (by decide), low6]
    omega
  rw [getSequence4]
  constructor
  · intro h
    obtain ⟨⟨b, it₁⟩, h₁, h₂⟩ := Lib.bind_ok h
    obtain ⟨⟨c, it₂⟩, h₃, h₄⟩ := Lib.bind_ok h₂
    obtain ⟨⟨d, it₃⟩, h₅, h₆⟩ := Lib.bind_ok h₄
    obtain ⟨rfl, hb⟩ := increaseSafely_ok.mp h₁
    obtain ⟨rfl, hc⟩ := increaseSafely_ok.mp h₃
    obtain ⟨rfl, hd⟩ := increaseSafely_ok.mp h₅
    cases h₆
    exact ⟨b, c, d, rfl, hb, hc, hd, hcp b c d⟩
  · rintro ⟨b, c, d, rfl, hb, hc, hd, h⟩
    rw [← hcp, UInt32.toNat_inj] at h
    simp only [increaseSafely_ok.mpr ⟨rfl, hb⟩, increaseSafely_ok.mpr ⟨rfl, hc⟩,
      increaseSafely_ok.mpr ⟨rfl, hd⟩, bind, Except.bind, pure, Except.pure, h]

/-! ### The length of a sequence -/

theorem sequenceLength_cases (lead : UInt8) :
    (sequenceLength lead = 1 ∧ lead.toNat < 0x80) ∨
    (sequenceLength lead = 2 ∧ 0xc0 ≤ lead.toNat ∧ lead.toNat < 0xe0) ∨
    (sequenceLength lead = 3 ∧ 0xe0 ≤ lead.toNat ∧ lead.toNat < 0xf0) ∨
    (sequenceLength lead = 4 ∧ 0xf0 ≤ lead.toNat ∧ lead.toNat < 0xf8) ∨
    (sequenceLength lead = 0 ∧ ((0x80 ≤ lead.toNat ∧ lead.toNat < 0xc0) ∨ 0xf8 ≤ lead.toNat)) := by
  have h₅ : lead >>> 5 = 0x6 ↔ lead.toNat / 32 = 6 := by
    rw [← UInt8.toNat_inj]
    simp [Nat.shiftRight_eq_div_pow]
  have h₄ : lead >>> 4 = 0xe ↔ lead.toNat / 16 = 14 := by
    rw [← UInt8.toNat_inj]
    simp [Nat.shiftRight_eq_div_pow]
  have h₃ : lead >>> 3 = 0x1e ↔ lead.toNat / 8 = 30 := by
    rw [← UInt8.toNat_inj]
    simp [Nat.shiftRight_eq_div_pow]
  have hlt := lead.toNat_lt
  simp only [sequenceLength, UInt8.lt_iff_toNat_lt, beq_iff_eq, h₅, h₄, h₃]
  have h₁ : (0x80 : UInt8).toNat = 128 := rfl
  rw [h₁]
  split_ifs <;> omega

theorem isOverlongSequence_eq_false {cp : UInt32} {length : Nat} :
    isOverlongSequence cp length = false ↔
      (cp.toNat < 0x80 → length = 1) ∧ (0x80 ≤ cp.toNat → cp.toNat < 0x800 → length = 2) ∧
        (0x800 ≤ cp.toNat → cp.toNat < 0x10000 → length = 3) := by
  have h₁ : (0x80 : UInt32).toNat = 0x80 := rfl
  have h₂ : (0x800 : UInt32).toNat = 0x800 := rfl
  have h₃ : (0x10000 : UInt32).toNat = 0x10000 := rfl
  simp only [isOverlongSequence, UInt32.lt_iff_toNat_lt, h₁, h₂, h₃]
  split_ifs <;> simp <;> omega

/-! ### One character -/

theorem utf8EncodeChar_cases (c : Char) :
    (c.val.toNat < 0x80 ∧ String.utf8EncodeChar c = [UInt8.ofNat c.val.toNat]) ∨
    (0x80 ≤ c.val.toNat ∧ c.val.toNat < 0x800 ∧ String.utf8EncodeChar c =
      [UInt8.ofNat (c.val.toNat / 64 % 32 + 0xc0), UInt8.ofNat (c.val.toNat % 64 + 0x80)]) ∨
    (0x800 ≤ c.val.toNat ∧ c.val.toNat < 0x10000 ∧ String.utf8EncodeChar c =
      [UInt8.ofNat (c.val.toNat / 4096 % 16 + 0xe0), UInt8.ofNat (c.val.toNat / 64 % 64 + 0x80),
        UInt8.ofNat (c.val.toNat % 64 + 0x80)]) ∨
    (0x10000 ≤ c.val.toNat ∧ String.utf8EncodeChar c =
      [UInt8.ofNat (c.val.toNat / 262144 % 8 + 0xf0),
        UInt8.ofNat (c.val.toNat / 4096 % 64 + 0x80), UInt8.ofNat (c.val.toNat / 64 % 64 + 0x80),
        UInt8.ofNat (c.val.toNat % 64 + 0x80)]) := by
  rw [String.utf8EncodeChar]
  split_ifs with h₁ h₂ h₃
  · exact .inl ⟨by omega, rfl⟩
  · exact .inr (.inl ⟨by omega, by omega, rfl⟩)
  · exact .inr (.inr (.inl ⟨by omega, by omega, rfl⟩))
  · exact .inr (.inr (.inr ⟨by omega, rfl⟩))

theorem validateNext_ok : validateNext lead it = .ok (cp, rest) ↔
    getSequence (sequenceLength lead) lead it = .ok (cp, rest) ∧ cp.toNat.isValidChar ∧
      isOverlongSequence cp (sequenceLength lead) = false := by
  rw [validateNext, ← isCodePointValid_iff]
  constructor
  · intro h
    obtain ⟨⟨cp', it'⟩, h₁, h₂⟩ := Lib.bind_ok h
    dsimp only at h₂
    split_ifs at h₂ with hv ho
    cases h₂
    simp only [Bool.not_eq_eq_eq_not, Bool.not_true] at ho
    exact ⟨h₁, hv, ho⟩
  · rintro ⟨h, hv, ho⟩
    simp only [h, bind, Except.bind, hv, ho, if_true, Bool.not_false]
    rfl

theorem eq_ofNat (oc : UInt8) {n : Nat} (h : oc.toNat = n) : oc = UInt8.ofNat n := by
  rw [← h, UInt8.ofNat_toNat]

/-- **A step of the decoder reads a character**, -/
theorem encode_of_validateNext (h : validateNext lead it = .ok (cp, rest)) :
    ∃ c : Char, c.val = cp ∧ lead :: it = String.utf8EncodeChar c ++ rest := by
  obtain ⟨hseq, hvalid, hover⟩ := validateNext_ok.mp h
  obtain ⟨ch, rfl⟩ : ∃ ch : Char, ch.val = cp := ⟨⟨cp, hvalid⟩, rfl⟩
  refine ⟨ch, rfl, ?_⟩
  have hover := isOverlongSequence_eq_false.mp hover
  have hmax : ch.val.toNat < 0x110000 := by
    rcases hvalid with hv | hv <;> omega
  have hchar := utf8EncodeChar_cases ch
  rcases sequenceLength_cases lead with ⟨hl, hr⟩ | ⟨hl, hr⟩ | ⟨hl, hr⟩ | ⟨hl, hr⟩ | ⟨hl, hr⟩ <;>
    rw [hl] at hseq hover
  · rw [getSequence, getSequence1, Except.ok.injEq, Prod.mk.injEq] at hseq
    obtain ⟨hcp, rfl⟩ := hseq
    have hn : ch.val.toNat = lead.toNat := by rw [← hcp, UInt8.toNat_toUInt32]
    rcases hchar with ⟨-, hc⟩ | ⟨hc, -⟩ | ⟨hc, -⟩ | ⟨hc, -⟩
    · rw [hc, hn, UInt8.ofNat_toNat]
      rfl
    all_goals omega
  · obtain ⟨b, rfl, hb, hcp⟩ := getSequence2_ok.mp hseq
    rw [isTrail_iff] at hb
    rcases hchar with ⟨hc, -⟩ | ⟨-, -, hc⟩ | ⟨hc, -⟩ | ⟨hc, -⟩
    · omega
    · rw [hc, ← eq_ofNat lead (by omega), ← eq_ofNat b (by omega)]
      rfl
    all_goals omega
  · obtain ⟨b, c, rfl, hb, hc, hcp⟩ := getSequence3_ok.mp hseq
    rw [isTrail_iff] at hb hc
    rcases hchar with ⟨hv, -⟩ | ⟨hv, hw, -⟩ | ⟨-, -, hv⟩ | ⟨hv, -⟩
    · omega
    · omega
    · rw [hv, ← eq_ofNat lead (by omega), ← eq_ofNat b (by omega),
        ← eq_ofNat c (by omega)]
      rfl
    · omega
  · obtain ⟨b, c, d, rfl, hb, hc, hd, hcp⟩ := getSequence4_ok.mp hseq
    rw [isTrail_iff] at hb hc hd
    rcases hchar with ⟨hv, -⟩ | ⟨hv, hw, -⟩ | ⟨hv, hw, -⟩ | ⟨-, hv⟩
    · omega
    · omega
    · omega
    · rw [hv, ← eq_ofNat lead (by omega), ← eq_ofNat b (by omega),
        ← eq_ofNat c (by omega), ← eq_ofNat d (by omega)]
      rfl
  · cases hseq

theorem sequenceLength_eq {n : Nat} (h : (n = 1 ∧ lead.toNat < 0x80) ∨
    (n = 2 ∧ 0xc0 ≤ lead.toNat ∧ lead.toNat < 0xe0) ∨
    (n = 3 ∧ 0xe0 ≤ lead.toNat ∧ lead.toNat < 0xf0) ∨
    (n = 4 ∧ 0xf0 ≤ lead.toNat ∧ lead.toNat < 0xf8)) : sequenceLength lead = n := by
  have hc := sequenceLength_cases lead
  omega

/-- **and it reads every character.** -/
theorem validateNext_encode (c : Char) (rest : List UInt8) : ∃ lead it,
    String.utf8EncodeChar c ++ rest = lead :: it ∧ validateNext lead it = .ok (c.val, rest) := by
  have hmax : c.val.toNat < 0x110000 := by
    rcases c.valid with hv | hv <;> omega
  have hval : c.val.toNat.isValidChar := c.valid
  have htoNat (n : Nat) : (UInt8.ofNat n).toNat = n % 256 := UInt8.toNat_ofNat'
  rcases utf8EncodeChar_cases c with ⟨hv, he⟩ | ⟨hv, hw, he⟩ | ⟨hv, hw, he⟩ | ⟨hv, he⟩ <;>
    refine ⟨_, _, by rw [he]; rfl, validateNext_ok.mpr ?_⟩
  · rw [sequenceLength_eq (n := 1) (by rw [htoNat]; omega)]
    refine ⟨?_, hval, isOverlongSequence_eq_false.mpr (by omega)⟩
    have hc : (UInt8.ofNat c.val.toNat).toUInt32 = c.val := by
      rw [← UInt32.toNat_inj, UInt8.toNat_toUInt32, htoNat]
      omega
    rw [getSequence, getSequence1, hc]
    rfl
  · rw [sequenceLength_eq (n := 2) (by rw [htoNat]; omega)]
    refine ⟨getSequence2_ok.mpr ⟨_, rfl, ?_, ?_⟩, hval, isOverlongSequence_eq_false.mpr (by omega)⟩
    · rw [isTrail_iff, htoNat]
      omega
    · rw [htoNat, htoNat]
      omega
  · rw [sequenceLength_eq (n := 3) (by rw [htoNat]; omega)]
    refine ⟨getSequence3_ok.mpr ⟨_, _, rfl, ?_, ?_, ?_⟩, hval,
      isOverlongSequence_eq_false.mpr (by omega)⟩
    · rw [isTrail_iff, htoNat]
      omega
    · rw [isTrail_iff, htoNat]
      omega
    · rw [htoNat, htoNat, htoNat]
      omega
  · rw [sequenceLength_eq (n := 4) (by rw [htoNat]; omega)]
    refine ⟨getSequence4_ok.mpr ⟨_, _, _, rfl, ?_, ?_, ?_, ?_⟩, hval,
      isOverlongSequence_eq_false.mpr (by omega)⟩
    · rw [isTrail_iff, htoNat]
      omega
    · rw [isTrail_iff, htoNat]
      omega
    · rw [isTrail_iff, htoNat]
      omega
    · rw [htoNat, htoNat, htoNat, htoNat]
      omega

/-! ### The whole text -/

theorem validateNext_length (h : validateNext lead it = .ok (cp, rest)) :
    rest.length ≤ it.length := by
  obtain ⟨c, -, hc⟩ := encode_of_validateNext h
  have hl := congrArg List.length hc
  have hpos := c.utf8Size_pos
  rw [List.length_append, List.length_cons, String.length_utf8EncodeChar] at hl
  omega

/-- A text is valid if a step succeeds on it and what is behind this is valid. -/
theorem validUtf8_cons_iff : ValidUtf8 (lead :: it) ↔
    ∃ cp rest, validateNext lead it = .ok (cp, rest) ∧ ValidUtf8 rest := by
  constructor
  · rintro ⟨cs, hcs⟩
    cases cs with
    | nil => cases hcs
    | cons d cs =>
      obtain ⟨lead', it', hd, hv⟩ := validateNext_encode d (cs.flatMap String.utf8EncodeChar)
      rw [List.flatMap_cons, hd] at hcs
      cases hcs
      exact ⟨_, _, hv, cs, rfl⟩
  · rintro ⟨cp, rest, h, cs, rfl⟩
    obtain ⟨c, -, hc⟩ := encode_of_validateNext h
    exact ⟨c :: cs, hc⟩

theorem findInvalidFrom_eq_nil (fuel : Nat) (s : List UInt8) (hf : s.length ≤ fuel) :
    findInvalidFrom fuel s = [] ↔ ValidUtf8 s := by
  induction fuel generalizing s with
  | zero =>
    obtain rfl := List.length_eq_zero_iff.mp (Nat.le_zero.mp hf)
    exact ⟨fun _ => ⟨[], rfl⟩, fun _ => rfl⟩
  | succ fuel ih =>
    cases s with
    | nil => exact ⟨fun _ => ⟨[], rfl⟩, fun _ => rfl⟩
    | cons lead it =>
      rw [List.length_cons] at hf
      rw [findInvalidFrom, validUtf8_cons_iff]
      cases h : validateNext lead it with
      | ok r =>
        obtain ⟨cp, rest⟩ := r
        have hl := validateNext_length h
        dsimp only
        rw [ih rest (by omega)]
        constructor
        · exact fun hv => ⟨cp, rest, rfl, hv⟩
        · rintro ⟨_, _, heq, hv⟩
          cases heq
          exact hv
      | error e =>
        simp only [reduceCtorEq, false_iff]
        rintro ⟨_, _, heq, -⟩
        cases heq

/-- **`is_valid` accepts exactly the valid texts.** -/
theorem isValid_iff (s : List UInt8) : isValid s = true ↔ ValidUtf8 s := by
  rw [isValid, List.isEmpty_iff, findInvalid]
  exact findInvalidFrom_eq_nil _ s (Nat.le_refl _)

example : isValid [0x41, 0xe2, 0x82, 0xac] = true := by decide

example : isValid [0xed, 0xa0, 0x80] = false := by decide

end Utf8

end WarheadDiscord

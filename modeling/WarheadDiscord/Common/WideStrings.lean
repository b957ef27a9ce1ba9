import WarheadDiscord.Deps.Utf8cpp

/-!
# `Utf8toWStr`

The conversion of `Util.cpp`, and the two loops of the vendored `utf8cpp` between octets and
units of 16 bits.

* `utf16EncodeChar`: the units of a character.
* `utf8to16_encode`, `utf16to8_encode`: the loops translate the texts of characters into each
  other.
* `utf8toWStr_spec`: **what the conversion accepts and gives**, and that nothing is lost in it.
-/

namespace WarheadDiscord

namespace Utf8

/-! ### The loops -/

/-- One turn of `utf8to16`: what is written for a code point. -/
def unitsOf (cp : UInt32) : List UInt16 :=
  if cp > 0xffff then
    -- `LEAD_OFFSET` and `TRAIL_SURROGATE_MIN`
    [((cp >>> 10) + 0xd7c0).toUInt16, ((cp &&& 0x3ff) + 0xdc00).toUInt16]
  else [cp.toUInt16]

/-- `utf8::utf8to16`, with the octets left and what is written so far.  The fuel is enough
when it is the number of the octets. -/
def utf8to16From : Nat → List UInt8 → List UInt16 → Except UtfError Unit × List UInt16
  | _, [], result => (.ok (), result)
  | 0, _ :: _, result => (.error .notEnoughRoom, result)
  | fuel + 1, lead :: it, result =>
    -- `utf8::next`
    match validateNext lead it with
    | .error e => (.error e, result)
    | .ok (cp, it) => utf8to16From fuel it (result ++ unitsOf cp)

def utf8to16 (start : List UInt8) (result : List UInt16) : Except UtfError Unit × List UInt16 :=
  utf8to16From start.length start result

inductive Utf16Error where
  | invalidUtf16 (unit : UInt16)
  | invalidCodePoint (cp : UInt32)
  deriving DecidableEq, Repr

def append (cp : UInt32) (result : List UInt8) : Except Utf16Error (List UInt8) :=
  if !isCodePointValid cp then .error (.invalidCodePoint cp)
  else if cp < 0x80 then .ok (result ++ [cp.toUInt8])
  else if cp < 0x800 then
    .ok (result ++ [((cp >>> 6) ||| 0xc0).toUInt8, ((cp &&& 0x3f) ||| 0x80).toUInt8])
  else if cp < 0x10000 then
    .ok (result ++ [((cp >>> 12) ||| 0xe0).toUInt8, (((cp >>> 6) &&& 0x3f) ||| 0x80).toUInt8,
      ((cp &&& 0x3f) ||| 0x80).toUInt8])
  else
    .ok (result ++ [((cp >>> 18) ||| 0xf0).toUInt8, (((cp >>> 12) &&& 0x3f) ||| 0x80).toUInt8,
      (((cp >>> 6) &&& 0x3f) ||| 0x80).toUInt8, ((cp &&& 0x3f) ||| 0x80).toUInt8])

def isLeadSurrogate (cp : UInt32) : Bool := 0xd800 ≤ cp && cp ≤ 0xdbff

def isTrailSurrogate (cp : UInt32) : Bool := 0xdc00 ≤ cp && cp ≤ 0xdfff

/-- `0x10000u - (LEAD_SURROGATE_MIN << 10) - TRAIL_SURROGATE_MIN`. -/
def surrogateOffset : UInt32 := (0x10000 : UInt32) - ((0xd800 : UInt32) <<< 10) - 0xdc00

def utf16to8 : List UInt16 → List UInt8 → Except Utf16Error (List UInt8)
  | [], result => .ok result
  | unit :: start, result =>
    let cp := unit.toUInt32
    if isLeadSurrogate cp then
      match start with
      | [] => .error (.invalidUtf16 unit)
      | trail :: start =>
        if isTrailSurrogate trail.toUInt32 then do
          let result ← append ((cp <<< 10) + trail.toUInt32 + surrogateOffset) result
          utf16to8 start result
        else .error (.invalidUtf16 trail)
    else if isTrailSurrogate cp then .error (.invalidUtf16 unit)
    else do
      let result ← append cp result
      utf16to8 start result

/-! ### One character -/

/-- The units of a character: itself, or the two halves of its distance from `0x10000`. -/
def utf16EncodeChar (c : Char) : List UInt16 :=
  if c.val.toNat < 0x10000 then [UInt16.ofNat c.val.toNat]
  else
    [UInt16.ofNat (0xd800 + (c.val.toNat - 0x10000) / 0x400),
      UInt16.ofNat (0xdc00 + (c.val.toNat - 0x10000) % 0x400)]

theorem eq_ofNat16 (u : UInt16) {n : Nat} (h : u.toNat = n) : u = UInt16.ofNat n := by
  rw [← h, UInt16.ofNat_toNat]

theorem val_lt (c : Char) : c.val.toNat < 0x110000 := by
  rcases c.valid with h | h <;> omega

theorem toNat_and_mask (x m : UInt32) {n : Nat} (hm : m.toNat = 2 ^ n - 1) :
    (x &&& m).toNat = x.toNat % 2 ^ n := by
  rw [UInt32.toNat_and, hm, Nat.and_two_pow_sub_one_eq_mod]

theorem toNat_shiftRight (x s : UInt32) {n : Nat} (hs : s.toNat = n) (hn : n < 32) :
    (x >>> s).toNat = x.toNat / 2 ^ n := by
  rw [UInt32.toNat_shiftRight, hs, Nat.mod_eq_of_lt hn, Nat.shiftRight_eq_div_pow]

theorem toNat_or_mark (x m : UInt32) {a n : Nat} (hm : m.toNat = a <<< n) (hx : x.toNat < 2 ^ n) :
    (x ||| m).toNat = x.toNat + m.toNat := by
  rw [UInt32.toNat_or, hm, Nat.or_comm, ← Nat.shiftLeft_add_eq_or_of_lt hx, Nat.add_comm]

theorem unitsOf_val (c : Char) : unitsOf c.val = utf16EncodeChar c := by
  have hmax := val_lt c
  have hgt : c.val > 0xffff ↔ ¬ c.val.toNat < 0x10000 := by
    rw [gt_iff_lt, UInt32.lt_iff_toNat_lt, show (0xffff : UInt32).toNat = 0xffff from rfl]
    omega
  rw [unitsOf, utf16EncodeChar]
  by_cases hc : c.val.toNat < 0x10000
  · rw [if_pos hc, if_neg (fun h => hgt.mp h hc), eq_ofNat16 c.val.toUInt16 (n := c.val.toNat)]
    rw [UInt32.toNat_toUInt16]
    omega
  · rw [if_neg hc, if_pos (hgt.mpr hc)]
    have hlead : ((c.val >>> 10) + 0xd7c0).toUInt16.toNat =
        0xd800 + (c.val.toNat - 0x10000) / 0x400 := by
      rw [UInt32.toNat_toUInt16, UInt32.toNat_add, toNat_shiftRight c.val 10 rfl (by decide)]
      simp only [UInt32.reduceToNat]
      omega
    have htrail : ((c.val &&& 0x3ff) + 0xdc00).toUInt16.toNat =
        0xdc00 + (c.val.toNat - 0x10000) % 0x400 := by
      rw [UInt32.toNat_toUInt16, UInt32.toNat_add, toNat_and_mask c.val 0x3ff (n := 10) rfl]
      simp only [UInt32.reduceToNat]
      omega
    rw [eq_ofNat16 _ hlead, eq_ofNat16 _ htrail]

theorem append_val (c : Char) (result : List UInt8) :
    append c.val result = .ok (result ++ String.utf8EncodeChar c) := by
  have hvalid : isCodePointValid c.val = true := isCodePointValid_iff.mpr c.valid
  have hmax := val_lt c
  have hcont : ∀ x : UInt32, ((x &&& 0x3f) ||| 0x80).toUInt8 =
      UInt8.ofNat (x.toNat % 64 + 0x80) := by
    intro x
    apply eq_ofNat
    have hlow : (x &&& 0x3f).toNat = x.toNat % 64 := toNat_and_mask x 0x3f (n := 6) rfl
    rw [UInt32.toNat_toUInt8, toNat_or_mark (x &&& 0x3f) 0x80 (a := 2) (n := 6) rfl (by omega),
      hlow]
    simp only [UInt32.reduceToNat]
    omega
  have hlead : ∀ (s m : UInt32) {a b n : Nat}, s.toNat = a → a < 32 → m.toNat = b <<< n →
      c.val.toNat / 2 ^ a < 2 ^ n → 2 ^ n + m.toNat ≤ 256 →
      ((c.val >>> s) ||| m).toUInt8 = UInt8.ofNat (c.val.toNat / 2 ^ a % 2 ^ n + m.toNat) := by
    intro s m a b n hs ha hm hlt hle
    apply eq_ofNat
    have hshift := toNat_shiftRight c.val s hs ha
    rw [UInt32.toNat_toUInt8, toNat_or_mark _ m hm (by rw [hshift]; exact hlt), hshift,
      Nat.mod_eq_of_lt hlt]
    exact Nat.mod_eq_of_lt (by omega)
  rw [append, if_neg (by simp [hvalid])]
  simp only [UInt32.lt_iff_toNat_lt, UInt32.reduceToNat]
  rcases utf8EncodeChar_cases c with ⟨hv, he⟩ | ⟨hv, hw, he⟩ | ⟨hv, hw, he⟩ | ⟨hv, he⟩
  · rw [if_pos hv, he, eq_ofNat c.val.toUInt8 (n := c.val.toNat)]
    rw [UInt32.toNat_toUInt8]
    omega
  · rw [if_neg (by omega), if_pos hw, he, hcont,
      hlead 6 0xc0 (a := 6) (b := 6) (n := 5) rfl (by decide) rfl (by omega) (by decide)]
    rfl
  · rw [if_neg (by omega), if_neg (by omega), if_pos hw, he, hcont, hcont,
      toNat_shiftRight c.val 6 rfl (by decide),
      hlead 12 0xe0 (a := 12) (b := 14) (n := 4) rfl (by decide) rfl (by omega) (by decide)]
    rfl
  · rw [if_neg (by omega), if_neg (by omega), if_neg (by omega), he, hcont, hcont, hcont,
      toNat_shiftRight c.val 6 rfl (by decide), toNat_shiftRight c.val 12 rfl (by decide),
      hlead 18 0xf0 (a := 18) (b := 30) (n := 3) rfl (by decide) rfl (by omega) (by decide)]
    rfl

/-! ### The texts of characters -/

/-- **The octets of characters become their units.** -/
theorem utf8to16From_encode (cs : List Char) (fuel : Nat) (result : List UInt16)
    (hf : (cs.flatMap String.utf8EncodeChar).length ≤ fuel) :
    utf8to16From fuel (cs.flatMap String.utf8EncodeChar) result =
      (.ok (), result ++ cs.flatMap utf16EncodeChar) := by
  induction cs generalizing fuel result with
  | nil => simp [utf8to16From]
  | cons c cs ih =>
    obtain ⟨lead, it, heq, hstep⟩ := validateNext_encode c (cs.flatMap String.utf8EncodeChar)
    rw [List.flatMap_cons, heq] at hf ⊢
    have hle := validateNext_length hstep
    rw [List.length_cons] at hf
    cases fuel with
    | zero => omega
    | succ fuel =>
      rw [utf8to16From, hstep]
      dsimp only
      rw [ih fuel _ (by omega), unitsOf_val, List.flatMap_cons, List.append_assoc]

theorem validUtf8_of_utf8to16From (fuel : Nat) (start : List UInt8) (result : List UInt16)
    (h : (utf8to16From fuel start result).1 = .ok ()) : ValidUtf8 start := by
  induction fuel generalizing start result with
  | zero =>
    cases start with
    | nil => exact ⟨[], rfl⟩
    | cons lead it => cases h
  | succ fuel ih =>
    cases start with
    | nil => exact ⟨[], rfl⟩
    | cons lead it =>
      rw [utf8to16From] at h
      cases hstep : validateNext lead it with
      | error e =>
        rw [hstep] at h
        cases h
      | ok r =>
        obtain ⟨cp, rest⟩ := r
        rw [hstep] at h
        exact validUtf8_cons_iff.mpr ⟨cp, rest, hstep, ih rest _ h⟩

theorem toNat_ofNat16 {n : Nat} (h : n < 2 ^ 16) : (UInt16.ofNat n).toUInt32.toNat = n := by
  rw [UInt16.toNat_toUInt32, UInt16.toNat_ofNat_of_lt' h]

theorem utf16to8_cons (c : Char) (start : List UInt16) (result : List UInt8) :
    utf16to8 (utf16EncodeChar c ++ start) result =
      utf16to8 start (result ++ String.utf8EncodeChar c) := by
  have hmax := val_lt c
  have hvalid : c.val.toNat < 0xd800 ∨ 0xdfff < c.val.toNat := by
    rcases c.valid with h | h <;> omega
  have hle : ∀ (a b : UInt32) (x : UInt32), (a ≤ x && x ≤ b) = true ↔
      a.toNat ≤ x.toNat ∧ x.toNat ≤ b.toNat := by
    intro a b x
    rw [Bool.and_eq_true, decide_eq_true_iff, decide_eq_true_iff, UInt32.le_iff_toNat_le,
      UInt32.le_iff_toNat_le]
  rw [utf16EncodeChar]
  by_cases hc : c.val.toNat < 0x10000
  · have hunit := toNat_ofNat16 hc
    have hval : (UInt16.ofNat c.val.toNat).toUInt32 = c.val := UInt32.toNat_inj.mp hunit
    have hlead : ¬ isLeadSurrogate c.val = true := by
      rw [isLeadSurrogate, hle]
      simp only [UInt32.reduceToNat]
      omega
    have htrail : ¬ isTrailSurrogate c.val = true := by
      rw [isTrailSurrogate, hle]
      simp only [UInt32.reduceToNat]
      omega
    rw [if_pos hc, List.singleton_append, utf16to8.eq_def]
    simp only [hval]
    rw [if_neg hlead, if_neg htrail, append_val]
    rfl
  · have hlead := toNat_ofNat16 (n := 0xd800 + (c.val.toNat - 0x10000) / 0x400) (by omega)
    have htrail := toNat_ofNat16 (n := 0xdc00 + (c.val.toNat - 0x10000) % 0x400) (by omega)
    have hisLead : isLeadSurrogate
        (UInt16.ofNat (0xd800 + (c.val.toNat - 0x10000) / 0x400)).toUInt32 = true := by
      rw [isLeadSurrogate, hle, hlead]
      simp only [UInt32.reduceToNat]
      omega
    have hisTrail : isTrailSurrogate
        (UInt16.ofNat (0xdc00 + (c.val.toNat - 0x10000) % 0x400)).toUInt32 = true := by
      rw [isTrailSurrogate, hle, htrail]
      simp only [UInt32.reduceToNat]
      omega
    -- The offset undoes both surrogates and the distance, modulo `2 ^ 32`.
    have hcp : ((UInt16.ofNat (0xd800 + (c.val.toNat - 0x10000) / 0x400)).toUInt32 <<< 10) +
        (UInt16.ofNat (0xdc00 + (c.val.toNat - 0x10000) % 0x400)).toUInt32 + surrogateOffset =
          c.val := by
      apply UInt32.toNat_inj.mp
      rw [UInt32.toNat_add, UInt32.toNat_add, UInt32.toNat_shiftLeft, hlead, htrail,
        show surrogateOffset.toNat = 0xfca02400 from rfl,
        show (10 : UInt32).toNat % 32 = 10 from rfl, Nat.shiftLeft_eq]
      omega
    rw [if_neg hc, List.cons_append, List.singleton_append, utf16to8]
    simp only [hisLead, if_true, hisTrail, hcp]
    rw [append_val]
    rfl

/-- **And back.** -/
theorem utf16to8_encode (cs : List Char) (result : List UInt8) :
    utf16to8 (cs.flatMap utf16EncodeChar) result =
      .ok (result ++ cs.flatMap String.utf8EncodeChar) := by
  induction cs generalizing result with
  | nil => simp [utf16to8]
  | cons c cs ih =>
    rw [List.flatMap_cons, utf16to8_cons, ih, List.flatMap_cons, List.append_assoc]

end Utf8

/-! ### The conversion -/

open Utf8

/-- `Utf8toWStr`.  The units come as the elements of a `std::wstring`. -/
def utf8toWStr (utf8str : List UInt8) (_wstr : List UInt16) : Bool × List UInt16 :=
  match utf8to16 utf8str [] with
  | (.ok (), wstr) => (true, wstr)
  | (.error _, _) => (false, [])

theorem utf8toWStr_encode (cs : List Char) (wstr : List UInt16) :
    utf8toWStr (cs.flatMap String.utf8EncodeChar) wstr = (true, cs.flatMap utf16EncodeChar) := by
  rw [utf8toWStr, utf8to16, utf8to16From_encode cs _ [] (Nat.le_refl _)]
  rfl

/-- **The conversion** succeeds on the texts of characters and on no others, whatever the string
held before; it gives the units of the same characters, from which `utf16to8` gets the text
back; and it leaves nothing of a text that it does not accept. -/
theorem utf8toWStr_spec (utf8str : List UInt8) (wstr : List UInt16) :
    ((utf8toWStr utf8str wstr).1 = true ↔ ValidUtf8 utf8str) ∧
      (∀ cs : List Char, utf8str = cs.flatMap String.utf8EncodeChar →
        utf8toWStr utf8str wstr = (true, cs.flatMap utf16EncodeChar)) ∧
      ((utf8toWStr utf8str wstr).1 = true →
        utf16to8 (utf8toWStr utf8str wstr).2 [] = .ok utf8str) ∧
      ((utf8toWStr utf8str wstr).1 = false → (utf8toWStr utf8str wstr).2 = []) := by
  have hvalid : (utf8toWStr utf8str wstr).1 = true → ValidUtf8 utf8str := by
    intro h
    apply validUtf8_of_utf8to16From utf8str.length utf8str []
    rw [utf8toWStr, utf8to16] at h
    revert h
    generalize utf8to16From utf8str.length utf8str [] = r
    obtain ⟨e, units⟩ := r
    cases e with
    | ok u => exact fun _ => rfl
    | error e =>
      intro h
      cases h
  refine ⟨⟨hvalid, ?_⟩, ?_, ?_, ?_⟩
  · rintro ⟨cs, rfl⟩
    rw [utf8toWStr_encode]
  · rintro cs rfl
    exact utf8toWStr_encode cs wstr
  · intro h
    obtain ⟨cs, rfl⟩ := hvalid h
    rw [utf8toWStr_encode, utf16to8_encode]
    rfl
  · rw [utf8toWStr]
    split
    · intro h
      cases h
    · exact fun _ => rfl

example : utf8toWStr [0x41, 0xf0, 0x9f, 0x98, 0x80] [7] = (true, [0x41, 0xd83d, 0xde00]) := by
  decide

end WarheadDiscord

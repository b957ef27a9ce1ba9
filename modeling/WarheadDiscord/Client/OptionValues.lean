import WarheadDiscord.Client.DiscordConfig
import WarheadDiscord.Common.Fault

/-!
# Values of options

What `GetOption` gives for the text that is stored under a name, and for a value that `SetOption`
has written there.  `ToString` writes a number into twenty characters and asserts that it fits.

* `intText_length_le`: it does, for every integer type.
* `getOption_iff`: when a call gives the value of the text, or else the caller's default.
* `setOption_spec`: a value that is set is given back, and no other option changes.
-/

namespace WarheadDiscord.OptionCache

open Config

variable {φ : Type} (F : Floats φ)

/-! ### `ToString` -/

/-- `std::to_chars` into `size` characters, in base ten. -/
def toChars (size : Nat) (n : Int) : Option Str :=
  if (intText n).length ≤ size then some (intText n) else none

/-- `Warhead::ToString`, and for `std::string` the text itself.  For `float` it is
`std::to_string`. -/
def toText (floatText : φ → Str) : (t : OptionType) → t.Val φ → Except Fault Str
  | .bool, (b : Bool) => .ok (if b then ofString "1" else ofString "0")
  | .int _, n =>
    match toChars 20 n.val with
    | some s => .ok s
    | none => .error (.assertion "res.ec == std::errc()")
  | .float, x => .ok (floatText x)
  | .string, s => .ok s

/-- `DiscordConfig::SetOption<T>`: the cache after the call. -/
def setOption (floatText : φ → Str) (cache : Options) (optionName : Str) (t : OptionType)
    (value : t.Val φ) : Except Fault Options :=
  if optionName ∉ cache then .ok cache
  else
    match toText floatText t value with
    | .ok valueStr => .ok (emplace (cache.erase optionName) optionName valueStr)
    | .error e => .error e

theorem natText_length_le {n k : Nat} (hk : 0 < k) (h : n < 10 ^ k) : (natText n).length ≤ k := by
  rw [natText, List.length_map]
  exact (Nat.length_toDigits_le_iff (by decide) hk).mpr h

theorem IntType.bounds (t : IntType) : -2 ^ 63 ≤ t.min ∧ t.max ≤ 2 ^ 64 - 1 := by
  obtain ⟨signed, width⟩ := t
  cases signed <;> cases width <;> decide

/-- **Twenty characters are enough** for a number of any integer type. -/
theorem intText_length_le (t : IntType) (n : t.Val) : (intText n.val).length ≤ 20 := by
  obtain ⟨hmin, hmax⟩ := t.bounds
  obtain ⟨hlo, hhi⟩ := n.property
  rw [intText]
  by_cases hneg : n.val < 0
  · have hdigits : (natText n.val.natAbs).length ≤ 19 := natText_length_le (by decide) (by omega)
    rw [if_pos hneg, List.length_cons]
    omega
  · rw [if_neg hneg]
    exact natText_length_le (by decide) (by omega)

theorem boolFromString_digit (b : Bool) :
    boolFromString (if b then ofString "1" else ofString "0") = some b := by
  cases b
  · simp only [boolFromString, ofString_eq]
    decide
  · simp only [boolFromString, ofString_eq]
    decide

/-- **A value that `ToString` writes is read back.**  Its `ASSERT` holds. -/
theorem stringTo_toText (floatText : φ → Str) {t : OptionType} (ht : t ≠ .float)
    (value : t.Val φ) :
    ∃ s, toText floatText t value = .ok s ∧ stringTo F t s = some value := by
  cases t with
  | bool => exact ⟨_, rfl, boolFromString_digit value⟩
  | int t =>
    refine ⟨intText value.val, ?_, fromChars_intText t value⟩
    rw [toText, toChars, if_pos (intText_length_le t value)]
  | float => exact absurd rfl ht
  | string => exact ⟨value, rfl, rfl⟩

/-! ### The value of a stored text -/

/-- The text that a call finds under a name, in the cache or in the configuration files. -/
def stored (configOptions cache : Options) (name : Str) : Option Str :=
  (cache.lookup name).or (configOptions.lookup name)

/-- The default that the caller gives, or else that of the type. -/
def Call.default (c : Call φ) : c.type.Val φ := c.dflt.getD (getDefaultValue F c.type)

/-- What a call is for: the value of the text, if it is one of the type, and else the default. -/
def Call.wanted (configOptions cache : Options) (c : Call φ) : c.type.Val φ :=
  ((stored configOptions cache c.name).bind (stringTo F c.type)).getD (c.default F)

section Values

variable (configOptions cache : Options)

/-- **When a call gives the value of the text, or else the default.**  A text that is no value of
the type gives the default of the type, also to a caller with a default of its own. -/
theorem getOption_iff {c : Call φ} (ht : c.type ≠ .float) :
    c.result F configOptions cache = c.wanted F configOptions cache ↔
      ∀ text, stored configOptions cache c.name = some text →
        (stringTo F c.type text).isSome ∨ c.default F = getDefaultValue F c.type := by
  rw [Call.result_eq, Call.wanted, ← stored]
  cases htext : stored configOptions cache c.name with
  | none =>
    have hread : c.read F (c.defaultText F) = c.default F := by
      rw [Call.read, Call.defaultText, stringTo_getDefaultValueString F ht]
      rfl
    simp [hread]
  | some text =>
    rw [Option.getD_some, Option.bind_some, Call.read]
    cases hvalue : stringTo F c.type text with
    | none =>
      rw [Option.getD_none, Option.getD_none]
      constructor
      · rintro h text' -
        exact Or.inr h.symm
      · intro h
        rcases h text rfl with hsome | hdefault
        · rw [hvalue] at hsome
          cases hsome
        · exact hdefault.symm
    | some value => simp [hvalue]

end Values

/-- A text that is no number, for a caller with the default 7: the message names the 7, and the
call gives 0. -/
theorem getOption_bad_text :
    ((callX seven).result noFloats ∅ (AList.singleton (ofString "X") (ofString "abc")) :
        int32.Val).val = 0 ∧
      (callX seven).defaultText noFloats = ofString "7" ∧
      ((callX seven).wanted noFloats ∅ (AList.singleton (ofString "X") (ofString "abc")) :
        int32.Val).val = 7 := by
  decide +kernel

theorem getOption_iff_number :
    (callX seven).result noFloats ∅ (AList.singleton (ofString "X") (ofString "5")) =
      (callX seven).wanted noFloats ∅ (AList.singleton (ofString "X") (ofString "5")) := by
  refine (getOption_iff noFloats ∅ _ (c := callX seven) (by decide)).mpr fun text htext => ?_
  have hstored : stored ∅ (AList.singleton (ofString "X") (ofString "5")) (callX seven).name =
      some (ofString "5") := by
    simp only [callX, ofString_eq]
    decide
  rw [hstored, Option.some.injEq] at htext
  rw [← htext, ofString_eq]
  exact Or.inl (by decide)

/-! ### `SetOption` -/

section Setting

variable (configOptions : Options) (floatText : φ → Str)

/-- **A value that is set is given back.**  `SetOption` for a name that the cache holds returns,
`GetOption` then gives the value, and neither call changes another option. -/
theorem setOption_spec {cache : Options} {name : Str} {t : OptionType} (ht : t ≠ .float)
    (hname : name ∈ cache) (value : t.Val φ) :
    ∃ cache', setOption floatText cache name t value = .ok cache' ∧
      getOption F configOptions cache' name t none = (value, cache') ∧
      ∀ other, other ≠ name → cache'.lookup other = cache.lookup other := by
  obtain ⟨text, htext, hread⟩ := stringTo_toText F floatText ht value
  refine ⟨(cache.erase name).insert name text, ?_, ?_, fun other hother => ?_⟩
  · rw [setOption, if_neg (not_not.mpr hname), htext]
    dsimp only
    rw [emplace_of_notMem (by simp)]
  · rw [getOption_of_some F configOptions (c := ⟨name, t, none⟩) (AList.lookup_insert _),
      Call.read, hread, Option.getD_some]
  · rw [AList.lookup_insert_ne hother, AList.lookup_erase_ne hother]

end Setting

def int64 : IntType := ⟨true, .w64⟩

/-- The least `int64`, with its twenty characters. -/
def least : int64.Val := ⟨-2 ^ 63, by decide⟩

theorem setOption_spec_least :
    ∃ cache', setOption (fun _ : Unit => []) (AList.singleton (ofString "X") (ofString "5"))
        (ofString "X") (.int int64) least = .ok cache' ∧
      getOption noFloats ∅ cache' (ofString "X") (.int int64) none = (least, cache') ∧
      ∀ other, other ≠ ofString "X" → cache'.lookup other =
        (AList.singleton (ofString "X") (ofString "5") : Options).lookup other :=
  setOption_spec noFloats ∅ _ (t := .int int64) (by decide)
    (by rw [ofString_eq]; decide) least

end WarheadDiscord.OptionCache

import WarheadDiscord.Common.StringConvert

/-!
# `DiscordConfig`

The client reads its options through a cache of texts.  `GetOption` adds a name that the
cache does not hold, with the value of the configuration files or else with the text of the
caller's default, and then reads the text of the cache in the caller's type.

* `stringTo_format`: a default that is written out is read back, in the same type.
* `getOption_own_default`: a first call for a name that no file has gives its own default.
* `getOption_after`: what a call gives after any others.  The text it reads may be the
  default of an earlier call with the same name.
* `getOption_dependent`: so calls do influence each other.
-/

namespace WarheadDiscord.OptionCache

open Config

/-! ### Types of options -/

/-- The type `float`, with its texts. -/
structure Floats (φ : Type) where
  /-- `CONF_DEFAULT_FLOAT`. -/
  one : φ
  format : φ → Str
  parse : Str → Option φ

inductive OptionType where
  | bool
  | int (t : IntType)
  | float
  | string
  deriving DecidableEq, Repr

/-- The values of a type. -/
def OptionType.Val (φ : Type) : OptionType → Type
  | .bool => Bool
  | .int t => t.Val
  | .float => φ
  | .string => Str

/-! ### Texts of values -/

variable {φ : Type} (F : Floats φ)

/-- `StringTo<T>`, and for `std::string` the text itself. -/
def stringTo : (t : OptionType) → Str → Option (t.Val φ)
  | .bool, s => boolFromString s
  | .int t, s => t.fromChars s
  | .float, s => F.parse s
  | .string, s => some s

/-- `StringFormat("{}", value)`. -/
def format : (t : OptionType) → t.Val φ → Str
  | .bool, (b : Bool) => if b then ofString "true" else ofString "false"
  | .int _, n => intText n.val
  | .float, x => F.format x
  | .string, s => s

/-- `GetDefaultValue<T>`. -/
def getDefaultValue : (t : OptionType) → t.Val φ
  | .bool => false
  | .int t => ⟨0, t.zero_mem⟩
  | .float => F.one
  | .string => []

/-- `GetDefaultValueString<T>`. -/
def getDefaultValueString (t : OptionType) (dflt : Option (t.Val φ)) : Str :=
  match dflt with
  | none => format F t (getDefaultValue F t)
  | some value => format F t value

/-! ### The cache -/

/-- `DiscordConfig::AddOption<T>`. -/
def addOption (configOptions cache : Options) (optionName : Str) (t : OptionType)
    (dflt : Option (t.Val φ)) : Options :=
  emplace (if optionName ∈ cache then cache.erase optionName else cache) optionName
    (Config.getOption configOptions optionName (getDefaultValueString F t dflt))

/-- `DiscordConfig::GetOption<T>`: the value and the cache after the call. -/
def getOption (configOptions cache : Options) (optionName : Str) (t : OptionType)
    (dflt : Option (t.Val φ)) : t.Val φ × Options :=
  let cache :=
    if optionName ∉ cache then addOption F configOptions cache optionName t dflt else cache
  match cache.lookup optionName with
  | none => (getDefaultValue F t, cache)
  | some text =>
    match stringTo F t text with
    | none => (getDefaultValue F t, cache)
    | some value => (value, cache)

/-! ### Defaults are read back -/

/-- **A value that is written out is read back**, in every type but `float`. -/
theorem stringTo_format {t : OptionType} (ht : t ≠ .float) (value : t.Val φ) :
    stringTo F t (format F t value) = some value := by
  cases t with
  | bool =>
    cases value
    · show boolFromString (ofString "false") = some false
      simp only [boolFromString, ofString_eq]
      decide
    · show boolFromString (ofString "true") = some true
      simp only [boolFromString, ofString_eq]
      decide
  | int t => exact fromChars_intText t value
  | float => exact absurd rfl ht
  | string => rfl

/-! ### Calls in sequence -/

/-- The arguments of one `GetOption<T>`. -/
structure Call (φ : Type) where
  name : Str
  type : OptionType
  dflt : Option (type.Val φ) := none

/-- The caller's default, as the cache keeps it. -/
def Call.defaultText (c : Call φ) : Str := getDefaultValueString F c.type c.dflt

/-- A text, read in the caller's type. -/
def Call.read (c : Call φ) (text : Str) : c.type.Val φ :=
  (stringTo F c.type text).getD (getDefaultValue F c.type)

/-- What a call gives. -/
def Call.result (configOptions cache : Options) (c : Call φ) : c.type.Val φ :=
  (getOption F configOptions cache c.name c.type c.dflt).1

/-- The cache after a call. -/
def Call.cache (configOptions cache : Options) (c : Call φ) : Options :=
  (getOption F configOptions cache c.name c.type c.dflt).2

/-- The cache after some calls. -/
def cacheAfter (configOptions cache : Options) (calls : List (Call φ)) : Options :=
  calls.foldl (Call.cache F configOptions) cache

/-- The text of the first default that some calls give for a name. -/
def firstDefault (calls : List (Call φ)) (name : Str) : Option Str :=
  (calls.find? fun c => c.name = name).map (Call.defaultText F)

section Sequences

variable (configOptions cache : Options)

theorem config_getOption (name dflt : Str) :
    Config.getOption configOptions name dflt = (configOptions.lookup name).getD dflt := by
  rw [Config.getOption]
  cases configOptions.lookup name <;> rfl

theorem addOption_of_notMem {cache : Options} {name : Str} (h : name ∉ cache) (t : OptionType)
    (dflt : Option (t.Val φ)) :
    addOption F configOptions cache name t dflt = cache.insert name
      ((configOptions.lookup name).getD (getDefaultValueString F t dflt)) := by
  rw [addOption, if_neg h, emplace_of_notMem h, config_getOption]

theorem getOption_of_some {cache : Options} {c : Call φ} {text : Str}
    (h : cache.lookup c.name = some text) :
    getOption F configOptions cache c.name c.type c.dflt = (c.read F text, cache) := by
  have hmem : c.name ∈ cache := AList.lookup_isSome.mp (by rw [h]; rfl)
  rw [getOption, if_neg (not_not.mpr hmem), h, Call.read]
  dsimp only
  cases stringTo F c.type text <;> rfl

theorem getOption_of_none {cache : Options} {c : Call φ} (h : cache.lookup c.name = none) :
    getOption F configOptions cache c.name c.type c.dflt =
      (c.read F ((configOptions.lookup c.name).getD (c.defaultText F)),
        cache.insert c.name ((configOptions.lookup c.name).getD (c.defaultText F))) := by
  have hmem : c.name ∉ cache := AList.lookup_eq_none.mp h
  rw [getOption, if_pos hmem, addOption_of_notMem F configOptions hmem, AList.lookup_insert,
    Call.read, Call.defaultText]
  dsimp only
  cases stringTo F c.type ((configOptions.lookup c.name).getD
    (getDefaultValueString F c.type c.dflt)) <;> rfl

/-- A call reads what the cache holds, what the files say, or its own default. -/
theorem Call.result_eq (c : Call φ) :
    c.result F configOptions cache = c.read F (((cache.lookup c.name).or
      (configOptions.lookup c.name)).getD (c.defaultText F)) := by
  rw [Call.result]
  cases h : cache.lookup c.name with
  | some text => rw [getOption_of_some F configOptions h, Option.some_or, Option.getD_some]
  | none => rw [getOption_of_none F configOptions h, Option.none_or]

theorem Call.cache_lookup (c : Call φ) (name : Str) :
    (c.cache F configOptions cache).lookup name =
      (cache.lookup name).or (if c.name = name then
        some ((configOptions.lookup name).getD (c.defaultText F)) else none) := by
  rw [Call.cache]
  cases h : cache.lookup c.name with
  | some text =>
    rw [getOption_of_some F configOptions h]
    by_cases hn : c.name = name
    · subst hn
      rw [h, Option.some_or]
    · rw [if_neg hn, Option.or_none]
  | none =>
    rw [getOption_of_none F configOptions h]
    by_cases hn : c.name = name
    · subst hn
      rw [h, if_pos rfl, AList.lookup_insert, Option.none_or]
    · rw [if_neg hn, Option.or_none, AList.lookup_insert_ne (Ne.symm hn)]

/-- **The first call for a name decides what the cache holds.** -/
theorem cacheAfter_lookup (calls : List (Call φ)) (name : Str) :
    (cacheAfter F configOptions cache calls).lookup name =
      (cache.lookup name).or ((firstDefault F calls name).map fun text =>
        (configOptions.lookup name).getD text) := by
  induction calls generalizing cache with
  | nil => simp [cacheAfter, firstDefault]
  | cons c calls ih =>
    rw [cacheAfter, List.foldl_cons, ← cacheAfter, ih, Call.cache_lookup, Option.or_assoc]
    by_cases hn : c.name = name
    · simp [firstDefault, hn]
    · simp [firstDefault, hn]

/-- **What a call gives after any others.**  It reads, in its own type, what the cache held at
first, else what the files say, else the default of the first call with its name.  So it is
as if it were the first, if the name is known or no earlier call has used it. -/
theorem getOption_after (calls : List (Call φ)) (c : Call φ) :
    c.result F configOptions (cacheAfter F configOptions cache calls) =
        c.read F (((cache.lookup c.name).or (configOptions.lookup c.name)).getD
          ((firstDefault F calls c.name).getD (c.defaultText F))) ∧
      (c.name ∈ cache ∨ c.name ∈ configOptions ∨ (∀ d ∈ calls, d.name ≠ c.name) →
        c.result F configOptions (cacheAfter F configOptions cache calls) =
          c.result F configOptions cache) := by
  have htext : c.result F configOptions (cacheAfter F configOptions cache calls) =
      c.read F (((cache.lookup c.name).or (configOptions.lookup c.name)).getD
        ((firstDefault F calls c.name).getD (c.defaultText F))) := by
    rw [Call.result_eq, cacheAfter_lookup]
    cases cache.lookup c.name <;> cases configOptions.lookup c.name <;>
      cases firstDefault F calls c.name <;> rfl
  refine ⟨htext, fun h => ?_⟩
  rw [htext, Call.result_eq]
  congr 1
  rcases h with h | h | h
  · obtain ⟨v, hv⟩ := Option.isSome_iff_exists.mp (AList.lookup_isSome.mpr h)
    rw [hv, Option.some_or, Option.getD_some, Option.getD_some]
  · obtain ⟨v, hv⟩ := Option.isSome_iff_exists.mp (AList.lookup_isSome.mpr h)
    cases cache.lookup c.name <;> simp [hv]
  · have hnone : firstDefault F calls c.name = none := by
      rw [firstDefault, Option.map_eq_none_iff, List.find?_eq_none]
      simpa using h
    rw [hnone, Option.getD_none]

theorem stringTo_getDefaultValueString {t : OptionType} (ht : t ≠ .float)
    (dflt : Option (t.Val φ)) :
    stringTo F t (getDefaultValueString F t dflt) = some (dflt.getD (getDefaultValue F t)) := by
  cases dflt with
  | none => exact stringTo_format F ht _
  | some value => exact stringTo_format F ht value

theorem getOption_own_default {c : Call φ} (ht : c.type ≠ .float) (hcache : c.name ∉ cache)
    (hfiles : c.name ∉ configOptions) :
    c.result F configOptions cache = c.dflt.getD (getDefaultValue F c.type) := by
  rw [Call.result_eq, AList.lookup_eq_none.mpr hcache, AList.lookup_eq_none.mpr hfiles,
    Option.or_none, Option.getD_none, Call.read, Call.defaultText,
    stringTo_getDefaultValueString F ht, Option.getD_some]

end Sequences

/-! ### A default that is seen by others -/

/-- A program without options of the type `float`. -/
def noFloats : Floats Unit := ⟨(), fun _ => [], fun _ => none⟩

def int32 : IntType := ⟨true, .w32⟩

/-- `GetOption<int32>("X", n)`. -/
def callX (n : int32.Val) : Call Unit := ⟨ofString "X", .int int32, some n⟩

def five : int32.Val := ⟨5, by decide⟩

def seven : int32.Val := ⟨7, by decide⟩

theorem getOption_after_other :
    (callX seven).result noFloats ∅ (cacheAfter noFloats ∅ ∅ [⟨ofString "Y", .string, none⟩]) =
      (callX seven).result noFloats ∅ ∅ :=
  (getOption_after noFloats ∅ ∅ [⟨ofString "Y", .string, none⟩] (callX seven)).2
    (Or.inr (Or.inr (by decide +kernel)))

/-- The second call gives the default of the first. -/
theorem getOption_dependent :
    (callX seven).result noFloats ∅ (cacheAfter noFloats ∅ ∅ [callX five]) = five ∧
      (callX seven).result noFloats ∅ ∅ = seven := by
  refine ⟨Subtype.ext ?_, Subtype.ext ?_⟩
  · decide +kernel
  · decide +kernel

end WarheadDiscord.OptionCache

import WarheadDiscord.Common.Config

/-!
# Quoted values

A line of a configuration file goes through four passes that know nothing of each other: the
blanks around it are removed, a comment is cut off at the first `#`, the line is split at the
first `=`, and the quotation marks are removed from the trimmed value.

* `parseLine_quotedLine`: what is left of the value of `name = "value"`.
* `unquoted_eq_iff`: it is the value unless there is a `#` in it.
* `quotedValue_iff`: the same for the whole way from a file to `GetOption`.
-/

namespace WarheadDiscord.Config

open Lib

/-- A name that can stand at the start of a line: no blanks around it, no comment and no section
starts with it, and it ends at the `=` of the line. -/
structure OptionName (name : Str) : Prop where
  ne_nil : name ≠ []
  head_not_space : ∀ h, ¬ isspace (name.head h)
  last_not_space : ∀ h, ¬ isspace (name.getLast h)
  no_equals : (61 : UInt8) ∉ name
  no_hash : (35 : UInt8) ∉ name
  no_newline : (10 : UInt8) ∉ name
  no_section : name.head? ≠ some 91

/-- The line `name = "value"`. -/
def quotedLine (name value : Str) : Str := name ++ ([32, 61, 32, 34] ++ value ++ [34])

/-- What the parser leaves of a quoted value. -/
def unquoted (value : Str) : Str :=
  (trim ([32, 34] ++ (value ++ [34]).takeWhile (· != 35))).filter (· != 34)

variable {name value s : Str} {c : UInt8}

/-! ### The passes -/

theorem dropWhile_space (hs : ∀ h, ¬ isspace (s.head h)) : s.dropWhile isspace = s := by
  cases s with
  | nil => rfl
  | cons c s => exact List.dropWhile_cons_of_neg (hs (List.cons_ne_nil c s))

theorem trim_of_ends (hhead : ∀ h, ¬ isspace (s.head h)) (hlast : ∀ h, ¬ isspace (s.getLast h)) :
    trim s = s := by
  rw [trim, dropWhile_space hhead]
  exact List.rdropWhile_eq_self_iff.mpr hlast

theorem OptionName.trim_append (h : OptionName name) : trim (name ++ [32]) = name := by
  have hhead : ∀ hne, ¬ isspace ((name ++ [32]).head hne) := by
    intro hne
    rw [List.head_append_of_ne_nil h.ne_nil]
    exact h.head_not_space _
  rw [trim, dropWhile_space hhead, List.rdropWhile_concat_pos _ _ _ rfl]
  exact List.rdropWhile_eq_self_iff.mpr h.last_not_space

theorem OptionName.trim_quotedLine (h : OptionName name) (value : Str) :
    trim (quotedLine name value) = quotedLine name value := by
  apply trim_of_ends
  · intro hne
    have hhead : (quotedLine name value).head hne = name.head h.ne_nil :=
      List.head_append_of_ne_nil h.ne_nil
    rw [hhead]
    exact h.head_not_space _
  · intro hne
    have hlast : (quotedLine name value).getLast hne = 34 := by
      simp [quotedLine]
    rw [hlast]
    decide

theorem takeWhile_ne_of_notMem (h : c ∉ s) : s.takeWhile (· != c) = s := by
  rw [List.takeWhile_eq_self_iff]
  intro x hx
  simp only [bne_iff_ne]
  exact fun he => h (he ▸ hx)

theorem ne_of_notMem (h : c ∉ s) : ∀ x ∈ s, (x != c) = true := by
  intro x hx
  simp only [bne_iff_ne]
  exact fun he => h (he ▸ hx)

/-- **What is read from a line `name = "value"`.** -/
theorem parseLine_quotedLine (h : OptionName name) (value : Str) :
    parseLine (quotedLine name value) = some (name, unquoted value) := by
  -- The comment is looked for behind the name.
  have hcut : (quotedLine name value).takeWhile (· != 35) =
      (name ++ [32]) ++ 61 :: ([32, 34] ++ (value ++ [34]).takeWhile (· != 35)) := by
    rw [quotedLine, List.takeWhile_append_of_pos (ne_of_notMem h.no_hash)]
    simp [List.append_assoc]
  have hbefore : ∀ x ∈ name ++ [32], (x != 61) = true := by
    apply ne_of_notMem
    simp [h.no_equals]
  obtain ⟨first, rest, hname⟩ := List.exists_cons_of_ne_nil h.ne_nil
  have hstart : ¬ (first = 35 ∨ first = 91) := by
    rintro (hc | hc)
    · exact h.no_hash (by simp [hname, hc])
    · exact h.no_section (by simp [hname, hc])
  have hline : quotedLine name value = first :: (rest ++ ([32, 61, 32, 34] ++ value ++ [34])) := by
    rw [quotedLine, hname]
    rfl
  rw [parseLine, h.trim_quotedLine, hline]
  dsimp only
  rw [if_neg hstart, ← hline, hcut, if_neg (by simp), List.takeWhile_append_of_pos hbefore,
    List.dropWhile_append_of_pos hbefore]
  simp [h.trim_append, unquoted]

/-! ### What is left of a value -/

theorem filter_ne_of_notMem (h : c ∉ s) : s.filter (· != c) = s :=
  List.filter_eq_self.mpr (ne_of_notMem h)

/-- A quoted value without a comment sign is trimmed in front of its quotation mark only. -/
theorem unquoted_of_notMem (hq : (34 : UInt8) ∉ value) (hh : (35 : UInt8) ∉ value) :
    unquoted value = value := by
  have htake : (value ++ [34]).takeWhile (· != 35) = value ++ [34] :=
    takeWhile_ne_of_notMem (by simp [hh])
  have htrim : trim ([32, 34] ++ (value ++ [34])) = 34 :: (value ++ [34]) := by
    rw [trim]
    have hdrop : ([32, 34] ++ (value ++ [34])).dropWhile isspace = 34 :: (value ++ [34]) := rfl
    rw [hdrop, List.rdropWhile_eq_self_iff]
    intro hne
    simp only [
      List.getLast_cons (List.append_ne_nil_of_right_ne_nil value (List.cons_ne_nil 34 [])),
      List.getLast_append_singleton]
    decide
  rw [unquoted, htake, htrim]
  simp [filter_ne_of_notMem hq]

theorem unquoted_length_lt (hh : (35 : UInt8) ∈ value) :
    (unquoted value).length < value.length := by
  obtain ⟨before, after, rfl, hbefore⟩ := List.eq_append_cons_of_mem hh
  have htake : (before ++ 35 :: after ++ [34]).takeWhile (· != 35) = before := by
    rw [List.append_assoc, List.takeWhile_append_of_pos (ne_of_notMem hbefore)]
    simp
  have hdrop : ([32, 34] ++ before).dropWhile isspace = 34 :: before := rfl
  have hkept : (trim ([32, 34] ++ before)).Sublist (34 :: before) := by
    rw [trim, hdrop]
    exact (List.rdropWhile_prefix _ _).sublist
  have hle := (hkept.filter (· != 34)).length_le
  have hfilter : ((34 :: before).filter (· != 34)).length ≤ before.length :=
    List.length_filter_le (· != 34) before
  rw [unquoted, htake, List.length_append, List.length_cons]
  omega

/-- **A quoted value is read back unless there is a comment sign in it.** -/
theorem unquoted_eq_iff (hq : (34 : UInt8) ∉ value) :
    unquoted value = value ↔ (35 : UInt8) ∉ value := by
  constructor
  · intro heq hh
    have := unquoted_length_lt hh
    rw [heq] at this
    omega
  · exact unquoted_of_notMem hq

/-! ### A file of one line -/

section File

variable (p : Platform) {file : Str}

theorem readLines_one (file : Str) {line eol : Str} {option : Str × Str}
    (hline : (10 : UInt8) ∉ line) (heol : eol = [] ∨ eol = [10])
    (hoption : parseLine line = some option) :
    ∃ r, readLines p file (line ++ eol) false = .ok r ∧ r.count = 1 ∧
      r.fileConfigs = (∅ : Options).insert option.1 option.2 := by
  obtain ⟨name, value⟩ := option
  have hempty : parseLine [] = none := rfl
  have hfirst : readLine p file {} line = .ok ⟨1, 1, (∅ : Options).insert name value⟩ := by
    rw [readLine, hoption]
    dsimp only
    rw [if_neg (AList.notMem_empty name), emplace_of_notMem (AList.notMem_empty name)]
    rfl
  rw [readLines, if_neg (by decide)]
  rcases heol with rfl | rfl
  · rw [List.append_nil, List.splitOn_eq_singleton hline, run_cons_of_ok hfirst]
    exact ⟨_, rfl, rfl, rfl⟩
  · have hsplit : (line ++ [10]).splitOn 10 = [line, []] := by
      rw [List.splitOn_append_cons_self, List.splitOn_eq_singleton hline, List.splitOn_nil]
      rfl
    have hsecond : readLine p file ⟨1, 1, (∅ : Options).insert name value⟩ [] =
        .ok ⟨2, 1, (∅ : Options).insert name value⟩ := by
      rw [readLine, hempty]
      rfl
    rw [hsplit, run_cons_of_ok hfirst, run_cons_of_ok hsecond]
    exact ⟨_, rfl, rfl, rfl⟩

theorem loadInitial_one (c : ConfigMgr) {line eol : Str} {name value : Str} (isReload : Bool)
    (hfile : p.files file = .content (line ++ eol) false) (hline : (10 : UInt8) ∉ line)
    (heol : eol = [] ∨ eol = [10]) (hoption : parseLine line = some (name, value)) :
    (loadInitial p c file isReload).1 = true ∧
      (loadInitial p c file isReload).2.configOptions.lookup name = some value := by
  obtain ⟨r, hread, hcount, hconfigs⟩ := readLines_one p file hline heol hoption
  have hentries : r.fileConfigs.entries = [⟨name, value⟩] := by
    rw [hconfigs, AList.entries_insert_of_notMem (AList.notMem_empty name)]
    rfl
  have hiterate : p.iterate file [⟨name, value⟩] = [⟨name, value⟩] :=
    List.perm_singleton.mp (p.iterate_perm file [⟨name, value⟩])
  have hparse : parseFile p ∅ file false isReload =
      (.ok true, addKeys ∅ [⟨name, value⟩] false isReload) := by
    rw [parseFile, hfile]
    dsimp only
    rw [hread]
    dsimp only
    rw [if_neg (by omega), hentries, hiterate]
  have haccepted : Accepted ∅ false isReload name := fun h => absurd h (by decide)
  rw [loadInitial, loadFile, hparse]
  refine ⟨rfl, ?_⟩
  change (addKey ∅ name value false isReload).lookup name = some value
  rw [addKey_lookup_self, if_pos haccepted]

end File

/-! ### From the file to the option -/

theorem OptionName.no_newline_quotedLine (h : OptionName name) (hv : (10 : UInt8) ∉ value) :
    (10 : UInt8) ∉ quotedLine name value := by
  simp [quotedLine, h.no_newline, hv]

/-- **When a quoted value is read back.**  For every name that can stand at the start of a line and
every value without quotation marks and line feeds, with or without a line feed at the end of the
file, and whatever the store held before: the initial load of the line `name = "value"` succeeds,
and `GetOption` then gives the value exactly when it holds no `#`. -/
theorem quotedValue_iff (p : Platform) (c : ConfigMgr) (file eol dflt : Str) (isReload : Bool)
    (h : OptionName name) (hq : (34 : UInt8) ∉ value) (hn : (10 : UInt8) ∉ value)
    (heol : eol = [] ∨ eol = [10])
    (hfile : p.files file = .content (quotedLine name value ++ eol) false) :
    (loadInitial p c file isReload).1 = true ∧
    (getOption (loadInitial p c file isReload).2.configOptions name dflt = value ↔
      (35 : UInt8) ∉ value) := by
  obtain ⟨hloaded, hlookup⟩ := loadInitial_one p c isReload hfile (h.no_newline_quotedLine hn) heol
    (parseLine_quotedLine h value)
  refine ⟨hloaded, ?_⟩
  rw [getOption, hlookup]
  exact unquoted_eq_iff hq

/-- A machine on which every path leads to the same text. -/
def oneFile (content : Str) : Platform where
  files _ := .content content false
  formatThrows _ _ := false
  formatThrows_of_plain _ _ _ := rfl
  iterate _ entries := entries
  iterate_perm _ entries := List.Perm.refl entries

/-- The names and values of the option line that comes with the program, with blanks and an `=`
in the value. -/
theorem quotedValue_iff_logsDir :
    getOption
      (loadInitial (oneFile (ofString "LogsDir = \" my logs =\"\n")) {} [] false).2.configOptions
      (ofString "LogsDir") [] = ofString " my logs =" := by
  have hname : OptionName (ofString "LogsDir") := by
    rw [ofString_eq]
    constructor <;> decide
  have hfile : (oneFile (ofString "LogsDir = \" my logs =\"\n")).files [] =
      .content (quotedLine (ofString "LogsDir") (ofString " my logs =") ++ [10]) false := by
    decide +kernel
  exact ((quotedValue_iff _ {} [] [10] [] false hname (by decide +kernel) (by decide +kernel)
    (.inr rfl) hfile).2).mpr (by decide +kernel)

/-- **A value with a `#` in it is cut there.** -/
theorem quotedValue_cut :
    getOption (loadInitial (oneFile (ofString "Key = \"a #b\"")) {} [] false).2.configOptions
      (ofString "Key") [] = ofString "a" := by
  decide +kernel

end WarheadDiscord.Config

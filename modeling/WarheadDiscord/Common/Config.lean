import Mathlib.Algebra.Order.Ring.Nat
import Mathlib.Data.List.AList
import Mathlib.Data.List.Dedup
import Mathlib.Data.List.DropRight
import WarheadDiscord.Lib.Machine

/-!
# The configuration manager

`Config.cpp`.  A file is read line by line into a hash map of its own, and when it has
been read without an error its options are added to the store one by one, in the order of
that map.  The console output is left out, apart from the one print that can throw: the
path of the file is the format of the message about a duplicate option.

* `parseLine`: the option on a line.
* `parseFile`, `loadFile`: one file, with the store before and after.
* `loadInitial`, `loadAdditionalFile`, `loadAppConfigs`: the entry points.
* `addKeys_lookup`: what a file does to the store, in whatever order its options come.
* `readLines_spec`: what the loop over the lines finds.
-/

namespace WarheadDiscord.Config

open Lib

/-- The bytes of a `std::string`. -/
abbrev Str := List UInt8

/-- A literal. -/
def ofString (s : String) : Str := s.toUTF8.toList

theorem toList_loop_eq (a : ByteArray) (i : Nat) (r : List UInt8) :
    ByteArray.toList.loop a i r = r.reverse ++ a.data.toList.drop i := by
  fun_induction ByteArray.toList.loop a i r with
  | case1 i r h ih =>
    have hlt : i < a.data.toList.length := h
    have hget : a.get! i = a.data.toList[i] := getElem!_pos a.data i h
    rw [ih, List.drop_eq_getElem_cons hlt, List.reverse_cons, hget, List.append_assoc]
    rfl
  | case2 i r h =>
    have hle : a.data.toList.length ≤ i := Nat.not_lt.mp h
    rw [List.drop_eq_nil_of_le hle, List.append_nil]

/-- `toList` of a `ByteArray` is by well-founded recursion, where `decide` stops. -/
theorem ofString_eq (s : String) : ofString s = s.toUTF8.data.toList := toList_loop_eq _ 0 []

/-! ### Options by name -/

/-- `std::unordered_map<std::string, std::string>`, without its iteration order. -/
abbrev Options := AList fun _ : Str => Str

/-- `emplace`: an element that is there is kept. -/
def emplace (m : Options) (name value : Str) : Options :=
  if name ∈ m then m else m.insert name value

def isLoggingSystemOptions (optionName : Str) : Bool :=
  decide (ofString "LogChannel." <:+: optionName) || decide (ofString "Logger." <:+: optionName)

def addKey (m : Options) (optionName optionKey : Str) (isOptional isReload : Bool) : Options :=
  if isOptional ∧ optionName ∉ m ∧ ¬ isLoggingSystemOptions optionName ∧ ¬ isReload then m
  else emplace (if optionName ∈ m then m.erase optionName else m) optionName optionKey

/-! ### Files and lines -/

/-- What `std::ifstream` finds under a path.  The bytes end with the file, or with an error
of the read that follows them. -/
inductive File where
  | missing
  | content (bytes : Str) (readError : Bool)
  deriving DecidableEq, Repr

/-- `'{'` and `'}'` do not occur. -/
def Plain (path : Str) : Prop := 123 ∉ path ∧ 125 ∉ path

instance (path : Str) : Decidable (Plain path) := inferInstanceAs (Decidable (_ ∧ _))

/-- What the file system, the format library and the hash map decide. -/
structure Platform where
  files : Str → File
  /-- The path is no format that `fmt::print` can apply to the name of an option. -/
  formatThrows : Str → Str → Bool
  formatThrows_of_plain : ∀ path name, Plain path → formatThrows path name = false
  /-- The order in which the map that is made for a file gives its elements. -/
  iterate : Str → List ((_ : Str) × Str) → List ((_ : Str) × Str)
  iterate_perm : ∀ path entries, (iterate path entries).Perm entries

/-- What `ParseFile` throws. -/
inductive Exception where
  /-- `Config::LoadFile: Failed open file '{}'`. -/
  | failedOpen (file : Str)
  /-- `> Config::LoadFile: Failure to read line number {} in file '{}'`. -/
  | failedRead (lineNumber : Nat) (file : Str)
  /-- `Config::LoadFile: Empty file '{}'`. -/
  | emptyFile (file : Str)
  /-- `fmt::format_error`. -/
  | formatError
  deriving DecidableEq, Repr

/-- `std::isspace` in the classic locale. -/
def isspace (c : UInt8) : Bool := c == 32 || (9 ≤ c && c ≤ 13)

/-- `Warhead::String::Trim`. -/
def trim (s : Str) : Str := (s.dropWhile isspace).rdropWhile isspace

/-- The option on a line, if there is one. -/
def parseLine (line : Str) : Option (Str × Str) :=
  match trim line with
  | [] => none
  | c :: rest =>
    -- '#' and '[' start a comment.
    if c = 35 ∨ c = 91 then none
    else
      let line := (c :: rest).takeWhile (· != 35)
      if 61 ∉ line then none
      else
        let entry := trim (line.takeWhile (· != 61))
        let value := trim ((line.dropWhile (· != 61)).drop 1)
        some (entry, value.filter (· != 34))

/-- The local variables of `ParseFile`. -/
structure Reading where
  lineNumber : Nat := 0
  /-- A `uint32`. -/
  count : Nat := 0
  fileConfigs : Options := ∅

/-- One turn of the loop over the lines, for a line that was read. -/
def readLine (p : Platform) (file : Str) (r : Reading) (line : Str) :
    Except Exception Reading :=
  let lineNumber := (r.lineNumber + 1) % 2 ^ 32
  match parseLine line with
  | none => .ok { r with lineNumber := lineNumber }
  | some (entry, value) =>
    if entry ∈ r.fileConfigs then
      -- `PrintError(file, ...)`
      if p.formatThrows file entry then .error .formatError
      else .ok { r with lineNumber := lineNumber }
    else
      .ok {
        lineNumber := lineNumber
        count := (r.count + 1) % 2 ^ 32
        fileConfigs := emplace r.fileConfigs entry value }

/-- The loop over the lines.  `getline` gives the bytes between two line feeds, and at last
those after the last one. -/
def readLines (p : Platform) (file bytes : Str) (readError : Bool) : Except Exception Reading :=
  if readError then do
    let r ← run (readLine p file) {} (bytes.splitOn 10).dropLast
    .error (.failedRead ((r.lineNumber + 1) % 2 ^ 32) file)
  else
    run (readLine p file) {} (bytes.splitOn 10)

/-- `AddKey` for the elements of the map of a file. -/
def addKeys (m : Options) (entries : List ((_ : Str) × Str)) (isOptional isReload : Bool) :
    Options :=
  entries.foldl (fun m e => addKey m e.1 e.2 isOptional isReload) m

/-- `ParseFile`, with the store before and after. -/
def parseFile (p : Platform) (m : Options) (file : Str) (isOptional isReload : Bool) :
    Except Exception Bool × Options :=
  match p.files file with
  | .missing => if isOptional then (.ok false, m) else (.error (.failedOpen file), m)
  | .content bytes readError =>
    match readLines p file bytes readError with
    | .error e => (.error e, m)
    | .ok r =>
      if r.count = 0 then
        if isOptional then (.ok false, m) else (.error (.emptyFile file), m)
      else
        (.ok true, addKeys m (p.iterate file r.fileConfigs.entries) isOptional isReload)

def loadFile (p : Platform) (m : Options) (file : Str) (isOptional isReload : Bool) :
    Bool × Options :=
  match parseFile p m file isOptional isReload with
  | (.ok loaded, m) => (loaded, m)
  | (.error _, m) => (false, m)

/-- The static variables of `Config.cpp`. -/
structure ConfigMgr where
  filename : Str := []
  configOptions : Options := ∅
  usingDistConfig : Bool := false

/-- `ConfigMgr::LoadInitial`. -/
def loadInitial (p : Platform) (c : ConfigMgr) (file : Str) (isReload : Bool) :
    Bool × ConfigMgr :=
  let (loaded, m) := loadFile p ∅ file false isReload
  (loaded, { c with configOptions := m })

/-- `ConfigMgr::LoadAdditionalFile`. -/
def loadAdditionalFile (p : Platform) (c : ConfigMgr) (file : Str) (isOptional isReload : Bool) :
    Bool × ConfigMgr :=
  let (loaded, m) := loadFile p c.configOptions file isOptional isReload
  (loaded, { c with configOptions := m })

/-- The path of the file with the defaults. -/
def distFile (filename : Str) : Str := filename ++ ofString ".dist"

/-- `ConfigMgr::LoadAppConfigs`. -/
def loadAppConfigs (p : Platform) (c : ConfigMgr) (initFileName : Str) : Bool × ConfigMgr :=
  let (loaded, c) := loadInitial p { c with filename := initFileName } (distFile initFileName) false
  if loaded then
    let (overridden, c) := loadAdditionalFile p c initFileName true false
    (true, if overridden then c else { c with usingDistConfig := true })
  else
    (false, c)

/-- `ConfigMgr::GetOption<std::string>`. -/
def getOption (configOptions : Options) (name dflt : Str) : Str :=
  match configOptions.lookup name with
  | none => dflt
  | some value => value

/-! ### The store while a file is added -/

/-- An option that `AddKey` does not skip. -/
def Accepted (m : Options) (isOptional isReload : Bool) (name : Str) : Prop :=
  isOptional = true → name ∈ m ∨ isLoggingSystemOptions name = true ∨ isReload = true

instance (m : Options) (isOptional isReload : Bool) (name : Str) :
    Decidable (Accepted m isOptional isReload name) :=
  inferInstanceAs (Decidable (_ → _))

section Store

variable (m : Options) (isOptional isReload : Bool)

theorem emplace_of_notMem {m : Options} {name value : Str} (h : name ∉ m) :
    emplace m name value = m.insert name value := by
  rw [emplace, if_neg h]

theorem addKey_of_accepted {m : Options} {isOptional isReload : Bool} {name : Str} (value : Str)
    (h : Accepted m isOptional isReload name) :
    addKey m name value isOptional isReload = (m.erase name).insert name value := by
  have hskip : ¬ (isOptional = true ∧ name ∉ m ∧ ¬ isLoggingSystemOptions name = true ∧
      ¬ isReload = true) := by
    rintro ⟨ho, hm, hl, hr⟩
    rcases h ho with h | h | h
    · exact hm h
    · exact hl h
    · exact hr h
  rw [addKey, if_neg hskip]
  by_cases hm : name ∈ m
  · rw [if_pos hm, emplace_of_notMem (by simp)]
  · have herase : m.erase name = m := by
      apply AList.ext
      exact List.kerase_of_notMem_keys hm
    rw [if_neg hm, herase, emplace_of_notMem hm]

theorem addKey_of_skipped {m : Options} {isOptional isReload : Bool} {name : Str} (value : Str)
    (h : ¬ Accepted m isOptional isReload name) :
    addKey m name value isOptional isReload = m := by
  rw [addKey, if_pos]
  simpa [Accepted] using h

theorem addKey_lookup_self (name value : Str) :
    (addKey m name value isOptional isReload).lookup name =
      if Accepted m isOptional isReload name then some value else m.lookup name := by
  by_cases h : Accepted m isOptional isReload name
  · rw [addKey_of_accepted value h, if_pos h, AList.lookup_insert]
  · rw [addKey_of_skipped value h, if_neg h]

theorem addKey_lookup_ne {k name : Str} (value : Str) (hk : k ≠ name) :
    (addKey m name value isOptional isReload).lookup k = m.lookup k := by
  by_cases h : Accepted m isOptional isReload name
  · rw [addKey_of_accepted value h, AList.lookup_insert_ne hk, AList.lookup_erase_ne hk]
  · rw [addKey_of_skipped value h]

theorem accepted_addKey {k name : Str} (value : Str) (hk : k ≠ name) :
    Accepted (addKey m name value isOptional isReload) isOptional isReload k ↔
      Accepted m isOptional isReload k := by
  rw [Accepted, Accepted, ← AList.lookup_isSome, addKey_lookup_ne m _ _ value hk,
    AList.lookup_isSome]

/-- **Each option of a file acts on its own name alone.** -/
theorem addKeys_lookup {entries : List ((_ : Str) × Str)} (h : entries.NodupKeys) (k : Str) :
    (addKeys m entries isOptional isReload).lookup k =
      if Accepted m isOptional isReload k then (entries.dlookup k).or (m.lookup k)
      else m.lookup k := by
  induction entries generalizing m with
  | nil => simp [addKeys]
  | cons e entries ih =>
    obtain ⟨name, value⟩ := e
    obtain ⟨hfresh, hrest⟩ := List.nodupKeys_cons.mp h
    rw [addKeys, List.foldl_cons, ← addKeys, ih _ hrest]
    by_cases hk : k = name
    · subst hk
      have hnone : entries.dlookup k = none := List.dlookup_eq_none.mpr hfresh
      rw [hnone, List.dlookup_cons_eq, addKey_lookup_self]
      simp only [Option.none_or, Option.some_or, ite_self]
    · rw [List.dlookup_cons_ne _ _ hk, addKey_lookup_ne _ _ _ _ hk]
      simp only [accepted_addKey m isOptional isReload value hk]

end Store

/-! ### The loop over the lines -/

/-- The option lines of a text, in order. -/
def optionLines (bytes : Str) : List (Str × Str) := (bytes.splitOn 10).filterMap parseLine

/-- The number of different names. -/
def nameCount (options : List (Str × Str)) : Nat := (options.map Prod.fst).dedup.length

/-- The counter counts the elements of the map. -/
def Reading.Counted (r : Reading) : Prop := r.count = r.fileConfigs.keys.length % 2 ^ 32

section Lines

variable {p : Platform} {file : Str}

/-- `name` comes in `names` behind another of the same name, in `names` or in `m`. -/
def Again (m : Options) (names : List Str) (name : Str) : Prop :=
  name ∈ names ∧ (name ∈ m ∨ 2 ≤ names.count name)

/-- The path is printed as a format for the name of an option that comes again, and `fmt` does
not take it for one. -/
def Rejected (p : Platform) (file : Str) (m : Options) (names : List Str) : Prop :=
  ∃ name, Again m names name ∧ p.formatThrows file name = true

theorem not_rejected_of_plain (p : Platform) (hfile : Plain file) (m : Options)
    (names : List Str) : ¬ Rejected p file m names := by
  rintro ⟨name, -, h⟩
  rw [p.formatThrows_of_plain file name hfile] at h
  cases h

theorem again_cons {m m' : Options} {entry name : Str} {names : List Str}
    (h : ∀ k, k ∈ m' ↔ k ∈ m ∨ k = entry) :
    Again m (entry :: names) name ↔ (name = entry ∧ entry ∈ m) ∨ Again m' names name := by
  rw [Again, Again, h, List.mem_cons]
  by_cases hn : name = entry
  · subst hn
    have hcount : 2 ≤ (name :: names).count name ↔ name ∈ names := by
      rw [List.count_cons_self, ← List.count_pos_iff]
      omega
    rw [hcount]
    constructor
    · rintro ⟨-, hm | hm⟩
      · exact Or.inl ⟨rfl, hm⟩
      · exact Or.inr ⟨hm, Or.inl (Or.inr rfl)⟩
    · rintro (⟨-, hm⟩ | ⟨hm, -⟩)
      · exact ⟨Or.inl rfl, Or.inl hm⟩
      · exact ⟨Or.inl rfl, Or.inr hm⟩
  · rw [List.count_cons_of_ne (Ne.symm hn)]
    simp [hn]

theorem rejected_cons {m m' : Options} {entry : Str} {names : List Str}
    (h : ∀ k, k ∈ m' ↔ k ∈ m ∨ k = entry) :
    Rejected p file m (entry :: names) ↔
      (entry ∈ m ∧ p.formatThrows file entry = true) ∨ Rejected p file m' names := by
  constructor
  · rintro ⟨name, hagain, hthrows⟩
    rcases (again_cons h).mp hagain with ⟨rfl, hm⟩ | hagain
    · exact Or.inl ⟨hm, hthrows⟩
    · exact Or.inr ⟨name, hagain, hthrows⟩
  · rintro (⟨hm, hthrows⟩ | ⟨name, hagain, hthrows⟩)
    · exact ⟨entry, (again_cons h).mpr (Or.inl ⟨rfl, hm⟩), hthrows⟩
    · exact ⟨name, (again_cons h).mpr (Or.inr hagain), hthrows⟩

/-- A line adds its option, unless an earlier line of the file gave it a value. -/
theorem readLine_spec {r : Reading} (hr : r.Counted) {line : Str}
    (hquiet : ∀ entry value, parseLine line = some (entry, value) → entry ∈ r.fileConfigs →
      p.formatThrows file entry = false) :
    ∃ r', readLine p file r line = .ok r' ∧ r'.Counted ∧ ∀ k, r'.fileConfigs.lookup k =
      (r.fileConfigs.lookup k).or ((parseLine line).toList.lookup k) := by
  rw [readLine]
  cases hline : parseLine line with
  | none => exact ⟨_, rfl, hr, fun k => by simp⟩
  | some option =>
    obtain ⟨entry, value⟩ := option
    dsimp only
    by_cases hmem : entry ∈ r.fileConfigs
    · rw [if_pos hmem, hquiet entry value hline hmem, if_neg (by simp)]
      refine ⟨_, rfl, hr, fun k => ?_⟩
      by_cases hk : k = entry
      · subst hk
        obtain ⟨v, hv⟩ := Option.isSome_iff_exists.mp (AList.lookup_isSome.mpr hmem)
        simp [hv]
      · simp [List.lookup_cons, beq_eq_false_iff_ne.mpr hk]
    · rw [if_neg hmem]
      refine ⟨_, rfl, ?_, fun k => ?_⟩
      · rw [Reading.Counted] at hr ⊢
        dsimp only
        rw [emplace_of_notMem hmem, AList.keys, AList.entries_insert_of_notMem hmem,
          List.keys_cons, List.length_cons, hr, Nat.mod_add_mod, AList.keys]
      · dsimp only
        rw [emplace_of_notMem hmem]
        by_cases hk : k = entry
        · subst hk
          rw [AList.lookup_insert, AList.lookup_eq_none.mpr hmem]
          simp
        · rw [AList.lookup_insert_ne hk]
          simp [List.lookup_cons, beq_eq_false_iff_ne.mpr hk]

theorem readLine_rejected {r : Reading} {line entry value : Str}
    (hline : parseLine line = some (entry, value)) (hmem : entry ∈ r.fileConfigs)
    (hthrows : p.formatThrows file entry = true) :
    readLine p file r line = .error .formatError := by
  rw [readLine, hline]
  dsimp only
  rw [if_pos hmem, if_pos hthrows]

/-- The names of the options on some lines. -/
def lineNames (lines : List Str) : List Str := (lines.filterMap parseLine).map Prod.fst

theorem rejected_step {r r' : Reading} {line : Str} (lines : List Str)
    (hlook : ∀ k, r'.fileConfigs.lookup k =
      (r.fileConfigs.lookup k).or ((parseLine line).toList.lookup k))
    (hquiet : ∀ entry value, parseLine line = some (entry, value) → entry ∈ r.fileConfigs →
      p.formatThrows file entry = false) :
    Rejected p file r.fileConfigs (lineNames (line :: lines)) ↔
      Rejected p file r'.fileConfigs (lineNames lines) := by
  cases hline : parseLine line with
  | none =>
    have hmem : ∀ k, k ∈ r'.fileConfigs ↔ k ∈ r.fileConfigs := by
      intro k
      rw [← AList.lookup_isSome, hlook, hline, ← AList.lookup_isSome]
      simp
    simp [Rejected, Again, lineNames, hline, hmem]
  | some option =>
    obtain ⟨entry, value⟩ := option
    have hmem : ∀ k, k ∈ r'.fileConfigs ↔ k ∈ r.fileConfigs ∨ k = entry := by
      intro k
      rw [← AList.lookup_isSome, hlook, hline, ← AList.lookup_isSome]
      by_cases hk : k = entry
      · simp [hk]
      · simp [hk, List.lookup_cons, beq_eq_false_iff_ne.mpr hk]
    have hnames : lineNames (line :: lines) = entry :: lineNames lines := by
      simp [lineNames, hline]
    rw [hnames, rejected_cons hmem, or_iff_right]
    rintro ⟨hm, hthrows⟩
    rw [hquiet entry value hline hm] at hthrows
    cases hthrows

/-- **The loop over the lines** is left with an exception, or it finds the first value of each
name. -/
theorem run_readLine (p : Platform) (file : Str) (lines : List Str) {r : Reading}
    (hr : r.Counted) :
    (Rejected p file r.fileConfigs (lineNames lines) →
      run (readLine p file) r lines = .error .formatError) ∧
    (¬ Rejected p file r.fileConfigs (lineNames lines) →
      ∃ r', run (readLine p file) r lines = .ok r' ∧ r'.Counted ∧ ∀ k,
        r'.fileConfigs.lookup k =
          (r.fileConfigs.lookup k).or ((lines.filterMap parseLine).lookup k)) := by
  induction lines generalizing r with
  | nil =>
    refine ⟨?_, fun _ => ⟨r, rfl, hr, fun k => by simp⟩⟩
    rintro ⟨name, ⟨hname, -⟩, -⟩
    cases hname
  | cons line lines ih =>
    by_cases hreject : ∃ entry value, parseLine line = some (entry, value) ∧
        entry ∈ r.fileConfigs ∧ p.formatThrows file entry = true
    · obtain ⟨entry, value, hline, hmem, hthrows⟩ := hreject
      have herror := readLine_rejected hline hmem hthrows
      have hrejected : Rejected p file r.fileConfigs (lineNames (line :: lines)) := by
        refine ⟨entry, ⟨?_, Or.inl hmem⟩, hthrows⟩
        simp [lineNames, hline]
      exact ⟨fun _ => by rw [run, herror], fun hn => absurd hrejected hn⟩
    · have hquiet : ∀ entry value, parseLine line = some (entry, value) →
          entry ∈ r.fileConfigs → p.formatThrows file entry = false := by
        intro entry value hline hmem
        by_contra hthrows
        exact hreject ⟨entry, value, hline, hmem, Bool.eq_true_of_not_eq_false hthrows⟩
      obtain ⟨r₁, hstep, hr₁, hlook₁⟩ := readLine_spec hr hquiet
      have htail := rejected_step lines hlook₁ hquiet
      rw [htail, run_cons_of_ok hstep]
      refine ⟨(ih hr₁).1, fun hn => ?_⟩
      obtain ⟨r₂, hrun, hr₂, hlook₂⟩ := (ih hr₁).2 hn
      refine ⟨r₂, hrun, hr₂, fun k => ?_⟩
      rw [hlook₂, hlook₁, Option.or_assoc, ← List.lookup_append]
      cases hline : parseLine line <;> simp [hline]

end Lines

theorem keys_length {m : Options} {options : List (Str × Str)}
    (h : ∀ k, m.lookup k = options.lookup k) : m.keys.length = nameCount options := by
  apply List.Perm.length_eq
  rw [List.perm_ext_iff_of_nodup m.keys_nodup (List.nodup_dedup _)]
  intro k
  rw [← AList.mem_keys, ← AList.lookup_isSome, h, List.mem_dedup, List.mem_map]
  constructor
  · intro hk
    obtain ⟨v, hv⟩ := Option.isSome_iff_exists.mp hk
    obtain ⟨l, r, hl, -⟩ := List.lookup_eq_some_iff.mp hv
    exact ⟨(k, v), by simp [hl], rfl⟩
  · rintro ⟨⟨k', v⟩, hmem, rfl⟩
    by_contra hn
    have hnone := Option.not_isSome_iff_eq_none.mp hn
    rw [List.lookup_eq_none_iff] at hnone
    simpa using hnone _ hmem

/-- **A file that is read finds the first value of each name, and counts the names.** -/
theorem readLines_spec {p : Platform} {file bytes : Str}
    (hfile : ¬ Rejected p file ∅ (lineNames (bytes.splitOn 10))) :
    ∃ r, readLines p file bytes false = .ok r ∧
      r.count = nameCount (optionLines bytes) % 2 ^ 32 ∧
      ∀ k, r.fileConfigs.lookup k = (optionLines bytes).lookup k := by
  obtain ⟨r, hrun, hcount, hlook⟩ :=
    (run_readLine p file (bytes.splitOn 10) (r := {}) rfl).2 hfile
  have hlook' : ∀ k, r.fileConfigs.lookup k = (optionLines bytes).lookup k := by
    intro k
    rw [hlook, AList.lookup_empty, Option.none_or, optionLines]
  exact ⟨r, hrun, by rw [hcount, keys_length hlook'], hlook'⟩

theorem readLines_rejected {p : Platform} {file bytes : Str}
    (hfile : Rejected p file ∅ (lineNames (bytes.splitOn 10))) :
    readLines p file bytes false = .error .formatError :=
  (run_readLine p file (bytes.splitOn 10) (r := {}) rfl).1 hfile

theorem readLines_readError (p : Platform) (file bytes : Str) :
    ∃ e, readLines p file bytes true = .error e := by
  rw [readLines, if_pos rfl]
  cases run (readLine p file) {} (bytes.splitOn 10).dropLast with
  | ok r => exact ⟨_, rfl⟩
  | error e => exact ⟨e, rfl⟩

end WarheadDiscord.Config

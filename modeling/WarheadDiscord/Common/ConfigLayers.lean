import WarheadDiscord.Common.Config

/-!
# What a load leaves in the store

`LoadAppConfigs` reads the `.dist` file into an empty store and then the `.conf` file over
it.  `layered` says what this is for: a name has the first value that the `.conf` file gives
it, if it is a name of the `.dist` file or of the logging system, and else the first value
that the `.dist` file gives it.

* `loadFile_loaded`: what one file does, from the options on its lines.
* `loadAppConfigs_layered_iff`: **the store is layered**, unless the 32-bit counter of the
  options of the `.conf` file is back at zero at its end.  `conf_ignored`: then the file is
  taken for an empty one.
* `load_failed`: what is in the store after a load that fails.  `loadInitial_clears`: a
  failed `LoadInitial` does change it.
-/

namespace WarheadDiscord.Config

open Lib

/-- The options of a file that can be read to its end. -/
def File.options : File → List (Str × Str)
  | .content bytes false => optionLines bytes
  | _ => []

/-- What two files in layers say about a name. -/
def layered (dist conf : List (Str × Str)) (k : Str) : Option Str :=
  match conf.lookup k with
  | some v =>
    if (dist.lookup k).isSome ∨ isLoggingSystemOptions k then some v else dist.lookup k
  | none => dist.lookup k

/-! ### One file -/

section OneFile

variable {p : Platform} {m : Options} {file : Str} {isOptional isReload : Bool}

theorem loadFile_failed (h : (loadFile p m file isOptional isReload).1 = false) :
    (loadFile p m file isOptional isReload).2 = m := by
  rw [loadFile] at h ⊢
  rw [parseFile] at h ⊢
  cases hf : p.files file with
  | missing => cases isOptional <;> simp
  | content bytes readError =>
    rw [hf] at h
    cases hr : readLines p file bytes readError with
    | error e => simp [hr]
    | ok r =>
      simp only [hr] at h ⊢
      by_cases hc : r.count = 0
      · rw [if_pos hc]
        cases isOptional <;> simp
      · rw [if_neg hc] at h
        simp at h

theorem loadFile_rejected (m : Options) (isOptional isReload : Bool)
    (h : Rejected p file ∅ ((p.files file).options.map Prod.fst)) :
    loadFile p m file isOptional isReload = (false, m) := by
  rw [loadFile, parseFile]
  cases hf : p.files file with
  | missing => cases isOptional <;> simp
  | content bytes readError =>
    rw [hf] at h
    dsimp only
    cases readError with
    | true =>
      obtain ⟨e, he⟩ := readLines_readError p file bytes
      rw [he]
    | false => rw [readLines_rejected h]

theorem loadFile_uncounted (m : Options) (isOptional isReload : Bool)
    (h : nameCount (p.files file).options % 2 ^ 32 = 0) :
    loadFile p m file isOptional isReload = (false, m) := by
  by_cases hfile : Rejected p file ∅ ((p.files file).options.map Prod.fst)
  · exact loadFile_rejected m isOptional isReload hfile
  · rw [loadFile, parseFile]
    cases hf : p.files file with
    | missing => cases isOptional <;> simp
    | content bytes readError =>
      rw [hf] at h hfile
      dsimp only
      cases readError with
      | true =>
        obtain ⟨e, he⟩ := readLines_readError p file bytes
        rw [he]
      | false =>
        obtain ⟨r, hr, hcount, -⟩ := readLines_spec hfile
        rw [hr]
        dsimp only
        rw [if_pos (by rw [hcount]; exact h)]
        cases isOptional <;> simp

/-- **What a file does to the store.** -/
theorem loadFile_loaded (m : Options) (isOptional isReload : Bool)
    (hfile : ¬ Rejected p file ∅ ((p.files file).options.map Prod.fst))
    (h : nameCount (p.files file).options % 2 ^ 32 ≠ 0) :
    (loadFile p m file isOptional isReload).1 = true ∧
      ∀ k, (loadFile p m file isOptional isReload).2.lookup k =
        if Accepted m isOptional isReload k then ((p.files file).options.lookup k).or (m.lookup k)
        else m.lookup k := by
  rw [loadFile, parseFile]
  cases hf : p.files file with
  | missing => simp [hf, File.options, nameCount] at h
  | content bytes readError =>
    rw [hf] at h hfile
    cases readError with
    | true => simp [File.options, nameCount] at h
    | false =>
      obtain ⟨r, hr, hcount, hlook⟩ := readLines_spec hfile
      have hne : r.count ≠ 0 := by
        rw [hcount]
        exact h
      dsimp only
      rw [hr]
      dsimp only
      rw [if_neg hne]
      refine ⟨rfl, fun k => ?_⟩
      have hperm := p.iterate_perm file r.fileConfigs.entries
      have hnodup : (p.iterate file r.fileConfigs.entries).NodupKeys :=
        (List.perm_nodupKeys hperm).mpr r.fileConfigs.nodupKeys
      have hdl : (p.iterate file r.fileConfigs.entries).dlookup k =
          (optionLines bytes).lookup k := by
        rw [List.perm_dlookup k hnodup hperm, ← hlook k]
        rfl
      rw [addKeys_lookup m isOptional isReload hnodup, hdl]
      rfl

end OneFile

/-! ### Both files -/

section BothFiles

variable {p : Platform} {c : ConfigMgr} {filename : Str}

theorem plain_distFile (h : Plain filename) : Plain (distFile filename) := by
  have hdist : Plain (ofString ".dist") := by
    rw [ofString_eq]
    decide
  simp only [Plain, distFile, List.mem_append, not_or]
  exact ⟨⟨h.1, hdist.1⟩, h.2, hdist.2⟩

/-- The options of the `.dist` file. -/
def distOptions (p : Platform) (filename : Str) : List (Str × Str) :=
  (p.files (distFile filename)).options

/-- The options of the `.conf` file. -/
def confOptions (p : Platform) (filename : Str) : List (Str × Str) := (p.files filename).options

theorem loadInitial_lookup (h : Plain filename)
    (hdist : nameCount (distOptions p filename) % 2 ^ 32 ≠ 0) :
    (loadInitial p c (distFile filename) false).1 = true ∧
      ∀ k, (loadInitial p c (distFile filename) false).2.configOptions.lookup k =
        (distOptions p filename).lookup k := by
  obtain ⟨hloaded, hlook⟩ := loadFile_loaded ∅ false false
    (not_rejected_of_plain p (plain_distFile h) _ _) hdist
  refine ⟨hloaded, fun k => ?_⟩
  rw [loadInitial]
  dsimp only
  rw [hlook, if_pos (by intro hf; cases hf), AList.lookup_empty, Option.or_none]
  rfl

theorem loadAppConfigs_loaded (h : Plain filename) :
    (loadAppConfigs p c filename).1 = true ↔
      nameCount (distOptions p filename) % 2 ^ 32 ≠ 0 := by
  constructor
  · intro ht hcount
    have hfail := loadFile_uncounted ∅ false false hcount
    rw [loadAppConfigs, loadInitial] at ht
    simp [hfail] at ht
  · intro hcount
    have hloaded := (loadInitial_lookup (c := { c with filename := filename }) h hcount).1
    rw [loadAppConfigs]
    simp [hloaded]

/-- **The store after both files**, for any count of the options of the second one. -/
theorem loadAppConfigs_lookup (h : Plain filename)
    (hdist : nameCount (distOptions p filename) % 2 ^ 32 ≠ 0) (k : Str) :
    (loadAppConfigs p c filename).2.configOptions.lookup k =
      if nameCount (confOptions p filename) % 2 ^ 32 = 0 then (distOptions p filename).lookup k
      else layered (distOptions p filename) (confOptions p filename) k := by
  obtain ⟨hloaded, hlook⟩ :=
    loadInitial_lookup (c := { c with filename := filename }) h hdist
  rw [loadAppConfigs]
  generalize loadInitial p { c with filename := filename } (distFile filename) false = init
    at hloaded hlook ⊢
  obtain ⟨loaded, d⟩ := init
  dsimp only at hloaded hlook ⊢
  rw [if_pos hloaded, loadAdditionalFile]
  by_cases hconf : nameCount (confOptions p filename) % 2 ^ 32 = 0
  · rw [if_pos hconf, loadFile_uncounted _ _ _ hconf]
    exact hlook k
  · obtain ⟨hover, hadd⟩ := loadFile_loaded d.configOptions true false
      (not_rejected_of_plain p h _ _) hconf
    rw [if_neg hconf]
    dsimp only
    rw [if_pos hover, hadd k, layered, ← confOptions, hlook k]
    have hacc : Accepted d.configOptions true false k ↔
        ((distOptions p filename).lookup k).isSome ∨ isLoggingSystemOptions k := by
      rw [Accepted, ← AList.lookup_isSome, hlook]
      simp
    cases hc : (confOptions p filename).lookup k with
    | none => simp
    | some v =>
      dsimp only
      by_cases ha : Accepted d.configOptions true false k
      · rw [if_pos ha, if_pos (hacc.mp ha), Option.some_or]
      · rw [if_neg ha, if_neg (fun hx => ha (hacc.mpr hx))]

/-- The second file says nothing that the first one does not say, as far as it is heard. -/
def AddsNothing (dist conf : List (Str × Str)) : Prop :=
  ∀ k v, conf.lookup k = some v → ((dist.lookup k).isSome ∨ isLoggingSystemOptions k) →
    dist.lookup k = some v

theorem layered_eq_dist_iff {dist conf : List (Str × Str)} :
    (∀ k, dist.lookup k = layered dist conf k) ↔ AddsNothing dist conf := by
  constructor
  · intro h k v hv hheard
    rw [h k, layered, hv]
    exact if_pos hheard
  · intro h k
    rw [layered]
    cases hv : conf.lookup k with
    | none => rfl
    | some v =>
      dsimp only
      split
      · rename_i hheard
        exact h k v hv hheard
      · rfl

/-- **The store is layered**, whatever the order of the hash maps, exactly if the `.conf`
file has something to say only when the counter of its names is not zero. -/
theorem loadAppConfigs_layered_iff (p : Platform) (c : ConfigMgr) (filename : Str)
    (h : Plain filename) (ht : (loadAppConfigs p c filename).1 = true) :
    (∀ k, (loadAppConfigs p c filename).2.configOptions.lookup k =
        layered (distOptions p filename) (confOptions p filename) k) ↔
      (nameCount (confOptions p filename) % 2 ^ 32 = 0 →
        AddsNothing (distOptions p filename) (confOptions p filename)) := by
  have hdist := (loadAppConfigs_loaded h).mp ht
  simp only [loadAppConfigs_lookup h hdist]
  by_cases hconf : nameCount (confOptions p filename) % 2 ^ 32 = 0
  · simp only [if_pos hconf]
    rw [layered_eq_dist_iff]
    exact ⟨fun ha _ => ha, fun ha => ha hconf⟩
  · simp only [if_neg hconf]
    exact ⟨fun _ h0 => absurd h0 hconf, fun _ _ => True.intro⟩

end BothFiles

/-- A platform with the two files of an application. -/
def twoFiles (filename dist conf : Str) : Platform where
  files path :=
    if path = filename then .content conf false
    else if path = distFile filename then .content dist false
    else .missing
  formatThrows _ _ := false
  formatThrows_of_plain _ _ _ := rfl
  iterate _ entries := entries.reverse
  iterate_perm _ entries := entries.reverse_perm

theorem twoFiles_dist (filename dist conf : Str) :
    distOptions (twoFiles filename dist conf) filename = optionLines dist := by
  have hne : distFile filename ≠ filename := by
    intro h
    have hlen := congrArg List.length h
    have hdist : (ofString ".dist").length = 5 := by
      rw [ofString_eq]
      decide
    rw [distFile, List.length_append] at hlen
    omega
  simp [distOptions, twoFiles, hne, File.options]

theorem twoFiles_conf (filename dist conf : Str) :
    confOptions (twoFiles filename dist conf) filename = optionLines conf := by
  simp [confOptions, twoFiles, File.options]

/-- Two small files, `w.dist` and `w`. -/
def smallFiles : Platform :=
  twoFiles [119] (ofString "a = 1\n# b\n[c]\n b = 2") (ofString "d = 4\na = \"3\"\na = 5\n")

theorem smallFiles_layered :
    (loadAppConfigs smallFiles {} [119]).1 = true ∧
      ∀ k, (loadAppConfigs smallFiles {} [119]).2.configOptions.lookup k =
        layered (distOptions smallFiles [119]) (confOptions smallFiles [119]) k := by
  have hloaded : (loadAppConfigs smallFiles {} [119]).1 = true := by decide +kernel
  refine ⟨hloaded, ?_⟩
  rw [loadAppConfigs_layered_iff smallFiles {} [119] (by decide) hloaded]
  exact fun h => absurd h (by decide +kernel)

/-! ### A load that fails -/

/-- **A failed load adds nothing.**  The store keeps what the entry point left in it: all of
it for an additional file, nothing for the initial one, which clears it first. -/
theorem load_failed (p : Platform) (c : ConfigMgr) (file : Str) (isOptional isReload : Bool) :
    ((loadAdditionalFile p c file isOptional isReload).1 = false →
        (loadAdditionalFile p c file isOptional isReload).2.configOptions = c.configOptions) ∧
      ((loadInitial p c file isReload).1 = false →
        (loadInitial p c file isReload).2.configOptions = ∅) := by
  constructor
  · intro h
    exact loadFile_failed h
  · intro h
    exact loadFile_failed h

/-- A manager that knows one option. -/
def oneOption : ConfigMgr := { configOptions := AList.singleton [97] [49] }

theorem load_failed_missing :
    (loadAdditionalFile smallFiles oneOption [120] false true).2.configOptions =
        oneOption.configOptions ∧
      (loadInitial smallFiles oneOption [120] true).2.configOptions = ∅ := by
  obtain ⟨hadditional, hinitial⟩ := load_failed smallFiles oneOption [120] false true
  exact ⟨hadditional (by decide), hinitial (by decide)⟩

/-- A missing file takes the option away. -/
theorem loadInitial_clears :
    (loadInitial smallFiles oneOption [120] false).1 = false ∧
      (loadInitial smallFiles oneOption [120] false).2.configOptions ≠
        oneOption.configOptions := by
  refine ⟨by decide, fun h => ?_⟩
  have hlook := congrArg (AList.lookup [97]) h
  revert hlook
  decide

/-! ### A counter that returns to zero -/

/-- A name of 32 letters, the bits of a number. -/
def bitName (i : Nat) : Str := (List.range 32).map fun j => if i.testBit j then 98 else 97

/-- A file that gives the empty value to the first names. -/
def bitLines (n : Nat) : Str := [10].intercalate ((List.range n).map fun i => bitName i ++ [61])

theorem bitName_letter {i : Nat} {c : UInt8} (h : c ∈ bitName i) : c = 97 ∨ c = 98 := by
  rw [bitName, List.mem_map] at h
  obtain ⟨j, -, rfl⟩ := h
  split
  · exact Or.inr rfl
  · exact Or.inl rfl

theorem bitName_inj {i j : Nat} (hi : i < 2 ^ 32) (hj : j < 2 ^ 32) (h : bitName i = bitName j) :
    i = j := by
  apply Nat.eq_of_testBit_eq
  intro b
  by_cases hb : b < 32
  · have hbit := List.map_inj_left.mp h b (List.mem_range.mpr hb)
    cases hx : i.testBit b <;> cases hy : j.testBit b <;> simp [hx, hy] at hbit ⊢
  · have hpow : 2 ^ 32 ≤ 2 ^ b := Nat.pow_le_pow_right (by decide) (by omega)
    rw [Nat.testBit_lt_two_pow (by omega), Nat.testBit_lt_two_pow (by omega)]

theorem trim_of_forall {s : Str} (h : ∀ c ∈ s, isspace c = false) : trim s = s := by
  have hdrop : s.dropWhile isspace = s := by
    rw [List.dropWhile_eq_self_iff]
    intro hl
    rw [h _ (List.getElem_mem hl)]
    decide
  rw [trim, hdrop, List.rdropWhile_eq_self_iff]
  intro hl
  rw [h _ (List.getLast_mem hl)]
  decide

theorem parseLine_bitName (i : Nat) : parseLine (bitName i ++ [61]) = some (bitName i, []) := by
  have hspace : ∀ c ∈ bitName i ++ [61], isspace c = false := by
    intro c hc
    rcases List.mem_append.mp hc with hc | hc
    · rcases bitName_letter hc with rfl | rfl <;> decide
    · obtain rfl := List.mem_singleton.mp hc
      decide
  obtain ⟨c, rest, hcons⟩ : ∃ c rest, bitName i = c :: rest :=
    ⟨_, _, by rw [bitName, List.range_succ_eq_map, List.map_cons]⟩
  have hc : c = 97 ∨ c = 98 := bitName_letter (by rw [hcons]; simp)
  have hentry : (bitName i ++ [61]).takeWhile (· != 35) = bitName i ++ [61] := by
    rw [List.takeWhile_eq_self_iff]
    intro c hc
    rcases List.mem_append.mp hc with hc | hc
    · rcases bitName_letter hc with rfl | rfl <;> decide
    · obtain rfl := List.mem_singleton.mp hc
      decide
  have hname : ∀ c ∈ bitName i, (c != 61) = true := by
    intro c hc
    rcases bitName_letter hc with rfl | rfl <;> decide
  have hmem : ¬ 61 ∉ bitName i ++ [61] := by simp
  rw [parseLine, trim_of_forall hspace]
  rw [hcons, List.cons_append] at hentry hmem ⊢
  dsimp only
  rw [if_neg (by rcases hc with rfl | rfl <;> decide), hentry, if_neg hmem, ← List.cons_append,
    ← hcons, List.takeWhile_append_of_pos hname, List.dropWhile_append_of_pos hname]
  have htrim : trim (bitName i) = bitName i :=
    trim_of_forall fun c hc => hspace c (List.mem_append_left _ hc)
  have hnil : trim [] = [] := rfl
  simp [htrim, hnil]

theorem bitLines_options {n : Nat} (hn : 0 < n) :
    optionLines (bitLines n) = (List.range n).map fun i => (bitName i, []) := by
  have hfeed : ∀ l ∈ (List.range n).map (fun i => bitName i ++ [61]), (10 : UInt8) ∉ l := by
    intro l hl
    obtain ⟨i, -, rfl⟩ := List.mem_map.mp hl
    intro h
    rcases List.mem_append.mp h with h | h
    · rcases bitName_letter h with h | h <;> cases h
    · cases List.mem_singleton.mp h
  have hne : (List.range n).map (fun i => bitName i ++ [61]) ≠ [] := by
    rw [Ne, List.map_eq_nil_iff, List.range_eq_nil]
    omega
  rw [optionLines, bitLines, List.splitOn_intercalate _ hfeed hne, List.filterMap_map]
  rw [← List.filterMap_eq_map]
  congr 1
  funext i
  exact parseLine_bitName i

theorem bitLines_nameCount {n : Nat} (hn : 0 < n) (hle : n ≤ 2 ^ 32) :
    nameCount (optionLines (bitLines n)) = n := by
  rw [bitLines_options hn, nameCount, List.map_map, List.Nodup.dedup, List.length_map,
    List.length_range]
  apply List.Nodup.map_on _ List.nodup_range
  intro i hi j hj h
  have hi' := List.mem_range.mp hi
  have hj' := List.mem_range.mp hj
  exact bitName_inj (by omega) (by omega) h

/-- A `.dist` file with the option `name 0 = 1`, under a `.conf` file with `n` options. -/
def bitFiles (n : Nat) : Platform :=
  twoFiles [119] (bitName 0 ++ ofString "=1") (bitLines n)

theorem bitFiles_dist (n : Nat) :
    distOptions (bitFiles n) [119] = [(bitName 0, ofString "1")] := by
  rw [bitFiles, twoFiles_dist]
  decide +kernel

theorem bitFiles_loaded (n : Nat) : nameCount (distOptions (bitFiles n) [119]) % 2 ^ 32 ≠ 0 := by
  rw [bitFiles_dist]
  decide

theorem bitFiles_lookup {n : Nat} (hn : 0 < n) (hle : n ≤ 2 ^ 32) (hzero : n % 2 ^ 32 = 0) :
    (loadAppConfigs (bitFiles n) {} [119]).2.configOptions.lookup (bitName 0) =
        some (ofString "1") ∧
      layered (distOptions (bitFiles n) [119]) (confOptions (bitFiles n) [119]) (bitName 0) =
        some [] := by
  have hdist := bitFiles_dist n
  have hconf : confOptions (bitFiles n) [119] = optionLines (bitLines n) := twoFiles_conf _ _ _
  have hcount : nameCount (confOptions (bitFiles n) [119]) % 2 ^ 32 = 0 := by
    rw [hconf, bitLines_nameCount hn hle, hzero]
  have hfirst : (optionLines (bitLines n)).lookup (bitName 0) = some [] := by
    obtain ⟨m, rfl⟩ := Nat.exists_eq_succ_of_ne_zero (by omega : n ≠ 0)
    rw [bitLines_options hn, List.range_succ_eq_map, List.map_cons, List.lookup_cons_self]
  constructor
  · rw [loadAppConfigs_lookup (by decide) (bitFiles_loaded n), if_pos hcount, hdist,
      List.lookup_cons_self]
  · rw [layered, hconf, hfirst, hdist, List.lookup_cons_self]
    simp

/-- **A `.conf` file of 2^32 options is taken for an empty one.** -/
theorem conf_ignored :
    Plain [119] ∧ (loadAppConfigs (bitFiles (2 ^ 32)) {} [119]).1 = true ∧
      (loadAppConfigs (bitFiles (2 ^ 32)) {} [119]).2.configOptions.lookup (bitName 0) ≠
        layered (distOptions (bitFiles (2 ^ 32)) [119]) (confOptions (bitFiles (2 ^ 32)) [119])
          (bitName 0) := by
  obtain ⟨hstore, hlayered⟩ := bitFiles_lookup (n := 2 ^ 32) (by decide) (by decide) (by decide)
  refine ⟨by decide, (loadAppConfigs_loaded (by decide)).mpr (bitFiles_loaded _), ?_⟩
  rw [hstore, hlayered]
  decide +kernel

end WarheadDiscord.Config

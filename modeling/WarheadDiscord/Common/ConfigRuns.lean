import WarheadDiscord.Common.ConfigLayers
import WarheadDiscord.Lib.Layers

/-!
# Load after load

The loads of a configuration over a whole run, while the files change between them.

* `Load`, `ConfigMgr.loads`: the calls, one after another.
* `layersOf`: what has been read since the store was cleared last.
* `loadFile_shows`: what one file does to a store that shows layers.
* `loads_spec`: **the store after any calls**, name by name, and the file that the manager takes
  itself to be reading.
-/

namespace WarheadDiscord.Config

open Lib Layers

/-! ### The calls -/

/-- The calls that load. -/
inductive Load where
  | initial (file : Str) (isReload : Bool)
  | additional (file : Str) (isOptional isReload : Bool)
  | app (initFileName : Str)
  deriving DecidableEq, Repr

/-- One call, with what the platform is when it is made. -/
def ConfigMgr.load (c : ConfigMgr) (p : Platform) : Load → Bool × ConfigMgr
  | .initial file isReload => loadInitial p c file isReload
  | .additional file isOptional isReload => loadAdditionalFile p c file isOptional isReload
  | .app initFileName => loadAppConfigs p c initFileName

def ConfigMgr.loads (c : ConfigMgr) (calls : List (Platform × Load)) : ConfigMgr :=
  calls.foldl (fun c call => (c.load call.1 call.2).2) c

def ConfigMgr.getFilename (c : ConfigMgr) : Str :=
  if c.usingDistConfig then distFile c.filename else c.filename

/-! ### What the calls have read -/

section Read

variable (p : Platform)

/-- The file can be read to its end, no message throws, and the counter of its names does not
end at zero. -/
def IsRead (file : Str) : Prop :=
  ¬ Rejected p file ∅ ((p.files file).options.map Prod.fst) ∧
    nameCount (p.files file).options % 2 ^ 32 ≠ 0

instance (file : Str) : Decidable (IsRead p file) :=
  haveI : Decidable (Rejected p file ∅ ((p.files file).options.map Prod.fst)) :=
    decidable_of_iff (∃ name ∈ (p.files file).options.map Prod.fst,
        (name ∈ (∅ : Options) ∨ 2 ≤ ((p.files file).options.map Prod.fst).count name) ∧
          p.formatThrows file name = true)
      (by simp only [Rejected, Again, and_assoc])
  inferInstanceAs (Decidable (_ ∧ _))

/-- The options of a file.  Those of an optional file may override others, and are not heard
alone, except on a reload or when they are of the logging system. -/
def layer (file : Str) (isOptional isReload : Bool) : Layer Str Str where
  gives k := (p.files file).options.lookup k
  introduces k := !isOptional || isLoggingSystemOptions k || isReload

/-- A file on top of what has been read. -/
def addLayer (file : Str) (isOptional isReload : Bool) (layers : List (Layer Str Str)) :
    List (Layer Str Str) :=
  if IsRead p file then layer p file isOptional isReload :: layers else layers

/-- What has been read after a call, the newest file first. -/
def layersAfter (layers : List (Layer Str Str)) : Load → List (Layer Str Str)
  | .initial file isReload => addLayer p file false isReload []
  | .additional file isOptional isReload => addLayer p file isOptional isReload layers
  | .app name =>
    if IsRead p (distFile name) then
      addLayer p name true false (addLayer p (distFile name) false false [])
    else []

end Read

def layersOf (calls : List (Platform × Load)) : List (Layer Str Str) :=
  calls.foldl (fun layers call => layersAfter call.1 layers call.2) []

/-- An application that found its `.dist` file and no `.conf` file. -/
def LacksConf (call : Platform × Load) : Prop :=
  ∃ name, call.2 = .app name ∧ IsRead call.1 (distFile name) ∧ ¬ IsRead call.1 name

/-- The name that the last application gave, if there was one. -/
def lastName (calls : List (Platform × Load)) : Str :=
  (calls.reverse.findSome? fun call => match call.2 with
    | .app name => some name
    | _ => none).getD []

/-! ### One file -/

/-- The store has the values of the layers. -/
def Shows (m : Options) (layers : List (Layer Str Str)) : Prop :=
  ∀ k, m.lookup k = value k layers

theorem shows_nil : Shows ∅ [] := fun _ => rfl

section OneFile

variable {p : Platform} {m : Options} {layers : List (Layer Str Str)}

theorem loadFile_isRead_iff (m : Options) (file : Str) (isOptional isReload : Bool) :
    (loadFile p m file isOptional isReload).1 = true ↔ IsRead p file := by
  constructor
  · intro h
    constructor
    · intro hr
      rw [loadFile_rejected m isOptional isReload hr] at h
      cases h
    · intro hc
      rw [loadFile_uncounted m isOptional isReload hc] at h
      cases h
  · rintro ⟨hr, hc⟩
    exact (loadFile_loaded m isOptional isReload hr hc).1

theorem Shows.accepted_iff (h : Shows m layers) (file : Str) (isOptional isReload : Bool)
    (k : Str) : Accepted m isOptional isReload k ↔
      (layer p file isOptional isReload).introduces k = true ∨ (value k layers).isSome := by
  rw [Accepted, layer, ← h k, AList.lookup_isSome]
  cases isOptional <;> simp [or_comm, or_assoc]

/-- **What a file does to a store that shows layers.** -/
theorem loadFile_shows (h : Shows m layers) (file : Str) (isOptional isReload : Bool) :
    Shows (loadFile p m file isOptional isReload).2
      (addLayer p file isOptional isReload layers) := by
  rw [addLayer]
  by_cases hread : IsRead p file
  · obtain ⟨-, hlook⟩ := loadFile_loaded m isOptional isReload hread.1 hread.2
    intro k
    rw [if_pos hread, hlook k, value, h k]
    by_cases hacc : Accepted m isOptional isReload k
    · rw [if_pos hacc, if_pos ((h.accepted_iff file isOptional isReload k).mp hacc)]
      rfl
    · rw [if_neg hacc, if_neg fun hi => hacc ((h.accepted_iff file isOptional isReload k).mpr hi)]
  · have hfail : (loadFile p m file isOptional isReload).1 = false := by
      rw [← Bool.not_eq_true, loadFile_isRead_iff]
      exact hread
    rw [if_neg hread, loadFile_failed hfail]
    exact h

end OneFile

/-! ### One call -/

section OneCall

variable {c : ConfigMgr} {layers : List (Layer Str Str)}

/-- The `.dist` file, and the `.conf` file only when the first one was read. -/
theorem loadAppConfigs_parts (p : Platform) (c : ConfigMgr) (name : Str) :
    (loadAppConfigs p c name).2 =
      if IsRead p (distFile name) then
        { c with
          filename := name
          configOptions :=
            (loadFile p (loadFile p ∅ (distFile name) false false).2 name true false).2
          usingDistConfig := c.usingDistConfig || !decide (IsRead p name) }
      else
        { c with
          filename := name
          configOptions := (loadFile p ∅ (distFile name) false false).2 } := by
  rw [loadAppConfigs, loadInitial]
  dsimp only
  by_cases hdist : IsRead p (distFile name)
  · rw [if_pos hdist, if_pos ((loadFile_isRead_iff ∅ (distFile name) false false).mpr hdist),
      loadAdditionalFile]
    dsimp only
    by_cases hconf : IsRead p name
    · rw [if_pos ((loadFile_isRead_iff _ name true false).mpr hconf)]
      simp [hconf]
    · rw [if_neg fun h => hconf ((loadFile_isRead_iff _ name true false).mp h)]
      simp [hconf]
  · rw [if_neg hdist,
      if_neg fun h => hdist ((loadFile_isRead_iff ∅ (distFile name) false false).mp h)]

/-- **A call keeps the store and the layers together.** -/
theorem load_shows (h : Shows c.configOptions layers) (p : Platform) (call : Load) :
    Shows (c.load p call).2.configOptions (layersAfter p layers call) := by
  cases call with
  | initial file isReload => exact loadFile_shows shows_nil file false isReload
  | additional file isOptional isReload => exact loadFile_shows h file isOptional isReload
  | app name =>
    rw [ConfigMgr.load, loadAppConfigs_parts, layersAfter]
    have hdist := loadFile_shows (p := p) shows_nil (distFile name) false false
    by_cases hread : IsRead p (distFile name)
    · rw [if_pos hread, if_pos hread]
      exact loadFile_shows hdist name true false
    · rw [if_neg hread, if_neg hread]
      rw [addLayer, if_neg hread] at hdist
      exact hdist

theorem load_usingDistConfig (c : ConfigMgr) (call : Platform × Load) :
    (c.load call.1 call.2).2.usingDistConfig = true ↔
      c.usingDistConfig = true ∨ LacksConf call := by
  obtain ⟨p, l⟩ := call
  rw [LacksConf]
  cases l with
  | initial file isReload => simp [ConfigMgr.load, loadInitial]
  | additional file isOptional isReload => simp [ConfigMgr.load, loadAdditionalFile]
  | app name =>
    rw [ConfigMgr.load, loadAppConfigs_parts]
    by_cases hdist : IsRead p (distFile name)
    · simp [hdist]
    · simp [hdist]

theorem load_filename (c : ConfigMgr) (call : Platform × Load) :
    (c.load call.1 call.2).2.filename = match call.2 with
      | .app name => name
      | _ => c.filename := by
  obtain ⟨p, l⟩ := call
  cases l with
  | initial file isReload => rfl
  | additional file isOptional isReload => rfl
  | app name =>
    rw [ConfigMgr.load, loadAppConfigs_parts]
    split <;> rfl

end OneCall

/-! ### A run -/

theorem loads_concat (c : ConfigMgr) (calls : List (Platform × Load)) (call : Platform × Load) :
    c.loads (calls ++ [call]) = ((c.loads calls).load call.1 call.2).2 := by
  rw [ConfigMgr.loads, List.foldl_append]
  rfl

theorem lastName_concat (calls : List (Platform × Load)) (call : Platform × Load) :
    lastName (calls ++ [call]) = match call.2 with
      | .app name => name
      | _ => lastName calls := by
  rw [lastName, List.reverse_append, List.reverse_singleton, List.singleton_append,
    List.findSome?_cons]
  cases call.2 <;> rfl

theorem loads_shows (calls : List (Platform × Load)) :
    Shows (ConfigMgr.loads {} calls).configOptions (layersOf calls) ∧
      ((ConfigMgr.loads {} calls).usingDistConfig = true ↔ ∃ call ∈ calls, LacksConf call) ∧
      (ConfigMgr.loads {} calls).filename = lastName calls := by
  induction calls using List.reverseRecOn with
  | nil => exact ⟨shows_nil, by simp [ConfigMgr.loads], rfl⟩
  | append_singleton calls call ih =>
    obtain ⟨hshows, hdist, hname⟩ := ih
    rw [loads_concat]
    refine ⟨?_, ?_, ?_⟩
    · rw [layersOf, List.foldl_append]
      exact load_shows hshows call.1 call.2
    · rw [load_usingDistConfig, hdist]
      simp only [List.mem_append, List.mem_singleton, or_and_right, exists_or, exists_eq_left]
    · rw [load_filename, lastName_concat, hname]

/-- **The store after any calls.**  An option has the value of the newest file that gives it, of
those that were read since the store was cleared last; and it has one only if that file or one
before it may introduce it.  The manager says that it uses a `.dist` file from the first time on
that an application finds no `.conf` file beside it. -/
theorem loads_spec (calls : List (Platform × Load)) :
    (∀ k v, (ConfigMgr.loads {} calls).configOptions.lookup k = some v ↔
        Decides (layersOf calls) k v) ∧
      (∀ k v dflt, Decides (layersOf calls) k v →
        getOption (ConfigMgr.loads {} calls).configOptions k dflt = v) ∧
      (∀ k dflt, (∀ v, ¬ Decides (layersOf calls) k v) →
        getOption (ConfigMgr.loads {} calls).configOptions k dflt = dflt) ∧
      ((∃ call ∈ calls, LacksConf call) →
        (ConfigMgr.loads {} calls).getFilename = distFile (lastName calls)) ∧
      ((∀ call ∈ calls, ¬ LacksConf call) →
        (ConfigMgr.loads {} calls).getFilename = lastName calls) := by
  obtain ⟨hshows, hdist, hname⟩ := loads_shows calls
  have hlook : ∀ k v, (ConfigMgr.loads {} calls).configOptions.lookup k = some v ↔
      Decides (layersOf calls) k v := by
    intro k v
    rw [hshows k, value_eq_some_iff]
  refine ⟨hlook, fun k v dflt h => ?_, fun k dflt h => ?_, fun h => ?_, fun h => ?_⟩
  · rw [getOption, (hlook k v).mpr h]
  · rw [getOption]
    cases hk : (ConfigMgr.loads {} calls).configOptions.lookup k with
    | none => rfl
    | some v => exact absurd ((hlook k v).mp hk) (h v)
  · rw [ConfigMgr.getFilename, if_pos (hdist.mpr h), hname]
  · rw [ConfigMgr.getFilename, if_neg, hname]
    intro hd
    obtain ⟨call, hmem, hlacks⟩ := hdist.mp hd
    exact h call hmem hlacks

end WarheadDiscord.Config

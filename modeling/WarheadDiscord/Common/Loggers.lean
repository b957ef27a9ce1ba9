import WarheadDiscord.Common.Config
import WarheadDiscord.Lib.Split

/-!
# Loggers by type

`Log::GetLoggerByType`.  The loggers have names like `commands.gm`.  A message of a type goes to
the logger of that name, or else to the one of the type in front of the last dot, and at last to
the logger `root`.

* `depth_parentLogger`: why it ends, although `root` may be longer than the type before it.
* `getLoggerByType_spec`: the logger that is found.
-/

namespace WarheadDiscord.Log

open Config Lib

/-- A `FormattingChannel`, with the path of its file. -/
inductive FormattingChannel where
  | console
  | file (path : Str)
  deriving DecidableEq, Repr

/-- `Poco::Logger`, with the channels of its `SplitterChannel`. -/
structure Logger where
  channels : List FormattingChannel
  level : Int
  deriving DecidableEq, Repr

/-- The loggers that Poco knows, by name. -/
abbrev Loggers := AList fun _ : Str => Logger

def loggerRoot : Str := ofString "root"

/-- The `std::string` that is made of `data()`: it ends at the first NUL. -/
def cString (s : Str) : Str := s.takeWhile (· ≠ 0)

/-- `find_last_of`, with `none` for `npos`. -/
def findLastOf (s : Str) (c : UInt8) : Option Nat :=
  (s.reverse.idxOf? c).map (s.length - 1 - ·)

/-- The type that `GetLoggerByType` tries next. -/
def parentLogger (type : Str) : Str :=
  match findLastOf type 46 with
  | none => loggerRoot
  | some found => type.take found

theorem findLastOf_none {s : Str} {c : UInt8} (h : findLastOf s c = none) : c ∉ s := by
  rw [findLastOf, Option.map_eq_none_iff, List.idxOf?_eq_none_iff, List.mem_reverse] at h
  exact h

theorem findLastOf_some {s : Str} {c : UInt8} {found : Nat} (h : findLastOf s c = some found) :
    Cut c s (s.take found) := by
  rw [findLastOf, Option.map_eq_some_iff] at h
  obtain ⟨i, hi, rfl⟩ := h
  obtain ⟨hlt, hc, hlast⟩ := List.idxOf?_eq_some_iff.mp hi
  rw [List.length_reverse] at hlt
  have hpos : s.length - 1 - i < s.length := by omega
  have hget : s[s.length - 1 - i] = c := by rwa [List.getElem_reverse] at hc
  refine ⟨s.drop (s.length - 1 - i + 1), ?_, ?_⟩
  · rw [List.mem_drop_iff_getElem]
    rintro ⟨j, hj, hcj⟩
    -- It would lie before the one that was found, seen from the end.
    have hrev : s.length - 1 - (s.length - 1 - i + 1 + j) < i := by omega
    apply hlast _ hrev
    rw [List.getElem_reverse, ← hcj]
    congr 1
    omega
  · rw [← hget, ← List.drop_eq_getElem_cons hpos, List.take_append_drop]

/-- `GetLoggerByType` calls itself with a shorter type, or with `root` for the last time. -/
def depth (type : Str) : Nat := if type = loggerRoot then 0 else type.length + 1

theorem depth_parentLogger {type : Str} (h : type ≠ loggerRoot) :
    depth (parentLogger type) < depth type := by
  rw [depth, depth, if_neg h, parentLogger]
  cases hfound : findLastOf type 46 with
  | none =>
    dsimp only
    rw [if_pos rfl]
    omega
  | some found =>
    have hlt := (findLastOf_some hfound).length_lt
    dsimp only
    by_cases hroot : type.take found = loggerRoot
    · rw [if_pos hroot]
      omega
    · rw [if_neg hroot]
      omega

def getLoggerByType (loggers : Loggers) (type : Str) : Option Logger :=
  match loggers.lookup (cString type) with
  | some logger => some logger
  | none =>
    if type = loggerRoot then none
    else getLoggerByType loggers (parentLogger type)
termination_by depth type
decreasing_by exact depth_parentLogger (by assumption)

variable {loggers : Loggers} {type : Str}

/-- What is found is a logger that Poco knows. -/
theorem getLoggerByType_registered {logger : Logger}
    (h : getLoggerByType loggers type = some logger) :
    ∃ name, loggers.lookup name = some logger := by
  fun_induction getLoggerByType loggers type with
  | case1 type logger' hlookup =>
    cases h
    exact ⟨_, hlookup⟩
  | case2 => cases h
  | case3 type hlookup hroot ih => exact ih h

/-! ### The longest name -/

theorem cString_eq (h : 0 ∉ type) : cString type = type := by
  rw [cString, List.takeWhile_eq_self_iff]
  intro c hc
  have hne : c ≠ 0 := fun heq => h (heq ▸ hc)
  simpa using hne

theorem getLoggerByType_of_some {logger : Logger} (h0 : 0 ∉ type)
    (h : loggers.lookup type = some logger) : getLoggerByType loggers type = some logger := by
  rw [getLoggerByType, cString_eq h0, h]

theorem getLoggerByType_of_none (h0 : 0 ∉ type) (h : loggers.lookup type = none) :
    getLoggerByType loggers type =
      if type = loggerRoot then none else getLoggerByType loggers (parentLogger type) := by
  rw [getLoggerByType, cString_eq h0, h]

theorem zero_notMem_root : (0 : UInt8) ∉ loggerRoot := by
  rw [loggerRoot, ofString_eq]
  decide

/-- `root` has no parent but itself. -/
theorem getLoggerByType_root (loggers : Loggers) :
    getLoggerByType loggers loggerRoot = loggers.lookup loggerRoot := by
  cases h : loggers.lookup loggerRoot with
  | some logger => exact getLoggerByType_of_some zero_notMem_root h
  | none => rw [getLoggerByType_of_none zero_notMem_root h, if_pos rfl]

theorem dot_notMem_root : (46 : UInt8) ∉ loggerRoot := by
  rw [loggerRoot, ofString_eq]
  decide

/-- The names that cutting a type at its last dot gives, again and again. -/
abbrev Names (type : Str) : Str → Prop := Cuts (46 : UInt8) type

/-- The logger of the longest of these names that has one. -/
def Longest (loggers : Loggers) (type : Str) (logger : Logger) : Prop :=
  ∃ name, Names type name ∧ loggers.lookup name = some logger ∧
    ∀ other, Names type other → other ∈ loggers → other.length ≤ name.length

theorem longest_self {logger : Logger} (h : loggers.lookup type = some logger) :
    Longest loggers type logger :=
  ⟨type, Relation.ReflTransGen.refl, h, fun _ hother _ => hother.length_le⟩

/-- A type without a logger of its own leaves it to what is in front of its last dot. -/
theorem longest_of_cut {parent : Str} {logger : Logger} (hcut : Cut 46 type parent)
    (h : loggers.lookup type = none) (hlongest : Longest loggers parent logger) :
    Longest loggers type logger := by
  obtain ⟨name, hname, hlookup, hmax⟩ := hlongest
  refine ⟨name, (cuts_of_cut hcut).mpr (Or.inr hname), hlookup, fun other hother hmem => ?_⟩
  rcases (cuts_of_cut hcut).mp hother with rfl | hother
  · exact absurd hmem (AList.lookup_eq_none.mp h)
  · exact hmax other hother hmem

/-- **The logger of a type** is that of the longest name with a logger, and if no name has one
it is `root`, if there is a logger of this name. -/
theorem getLoggerByType_spec (loggers : Loggers) (type : Str) (h0 : 0 ∉ type) :
    (∃ logger, Longest loggers type logger ∧ getLoggerByType loggers type = some logger) ∨
      ((∀ name, Names type name → name ∉ loggers) ∧
        getLoggerByType loggers type = loggers.lookup loggerRoot) := by
  induction hd : depth type using Nat.strongRecOn generalizing type with
  | ind d ih =>
    cases hlookup : loggers.lookup type with
    | some logger =>
      exact Or.inl ⟨logger, longest_self hlookup, getLoggerByType_of_some h0 hlookup⟩
    | none =>
      have hself : type ∉ loggers := AList.lookup_eq_none.mp hlookup
      by_cases hroot : type = loggerRoot
      · subst hroot
        refine Or.inr ⟨fun name hname => ?_, getLoggerByType_root loggers⟩
        rw [(cuts_of_notMem dot_notMem_root).mp hname]
        exact hself
      · rw [getLoggerByType_of_none h0 hlookup, if_neg hroot]
        cases hfound : findLastOf type 46 with
        | none =>
          have hparent : parentLogger type = loggerRoot := by rw [parentLogger, hfound]
          rw [hparent]
          refine Or.inr ⟨fun name hname => ?_, getLoggerByType_root loggers⟩
          rw [(cuts_of_notMem (findLastOf_none hfound)).mp hname]
          exact hself
        | some found =>
          have hcut := findLastOf_some hfound
          have hparent : parentLogger type = type.take found := by rw [parentLogger, hfound]
          have hlt := depth_parentLogger hroot
          rw [hparent] at hlt ⊢
          rcases ih _ (hd ▸ hlt) _ (fun hmem => h0 (hcut.subset hmem)) rfl with
            ⟨logger, hlongest, hget⟩ | ⟨hnone, hget⟩
          · exact Or.inl ⟨logger, longest_of_cut hcut hlookup hlongest, hget⟩
          · refine Or.inr ⟨fun name hname => ?_, hget⟩
            rcases (cuts_of_cut hcut).mp hname with rfl | hname
            · exact hself
            · exact hnone name hname

/-- The loggers `root` and `server`. -/
def twoLoggers : Loggers :=
  AList.insert (ofString "server") ⟨[], 3⟩ (AList.singleton loggerRoot ⟨[], 6⟩)

theorem getLoggerByType_spec_two :
    (∃ logger, Longest twoLoggers (ofString "server.loading") logger ∧
        getLoggerByType twoLoggers (ofString "server.loading") = some logger) ∨
      ((∀ name, Names (ofString "server.loading") name → name ∉ twoLoggers) ∧
        getLoggerByType twoLoggers (ofString "server.loading") =
          twoLoggers.lookup loggerRoot) := by
  apply getLoggerByType_spec
  rw [ofString_eq]
  decide

end WarheadDiscord.Log

import WarheadDiscord.Common.LogConfig
import WarheadDiscord.Deps.Fmt

/-!
# What a log call writes

A `LOG_*` call asks `ShouldLog`, formats its arguments, and gives the text to `outMessage`.  There
the text is a format once more, without arguments.  So the braces of an argument, as in the name
of an account, are read as those of a format.

* `priorityOf_level`: each level has the priority of its number.
* `write_of_wanted`: the check of Poco lets through what `ShouldLog` wants.
* `logMessage_spec`: **where the text of a call goes**, and what becomes of its braces.
-/

namespace WarheadDiscord.Log

open Config Lib OptionCache

/-! ### Poco -/

/-- `Poco::Message::Priority`. -/
inductive Priority where
  | fatal | critical | error | warning | notice | information | debug | trace
  deriving DecidableEq, Repr

def Priority.value : Priority → Int
  | .fatal => 1
  | .critical => 2
  | .error => 3
  | .warning => 4
  | .notice => 5
  | .information => 6
  | .debug => 7
  | .trace => 8

/-- A message that a `FormattingChannel` is given. -/
structure Delivery where
  channel : FormattingChannel
  priority : Priority
  text : Str
  deriving DecidableEq, Repr

/-- `Poco::Logger::log`, and the loop of its `SplitterChannel`. -/
def Logger.log (logger : Logger) (text : Str) (prio : Priority) : List Delivery :=
  if prio.value ≤ logger.level then logger.channels.map (⟨·, prio, text⟩) else []

/-! ### `Log` -/

def LogLevel.error : LogLevel := 3

/-- The `switch` of `Log::Write`. -/
def priorityOf : LogLevel → Option Priority
  | 1 => some .fatal
  | 2 => some .critical
  | 3 => some .error
  | 4 => some .warning
  | 5 => some .notice
  | 6 => some .information
  | 7 => some .debug
  | 8 => some .trace
  | _ => none

def State.write (s : State) (filter : Str) (level : LogLevel) (message : Str) : List Delivery :=
  match getLoggerByType s.loggers filter with
  | none => []
  | some logger =>
    match priorityOf level with
    | none => []
    | some prio => logger.log message prio

/-- `Log::outMessage` without arguments for its format. -/
def State.outMessage (s : State) (filter : Str) (level : LogLevel) (fmt : Str) :
    Except Fmt.FormatError (List Delivery) := do
  let message ← Fmt.format fmt
  return s.write filter level message

/-- `Wrong format occurred ({}) at '{}:{}'`. -/
def wrongFormat (what file : Str) (line : Nat) : Str :=
  ofString "Wrong format occurred (" ++ what ++ ofString ") at '" ++ file ++ ofString ":" ++
    natText line ++ ofString "'"

/-- `LOG_MSG_BODY`.  `message` is what the format of the call and its arguments come to, or what
the exception of the inner `fmt::format` says. -/
def State.logMessage (s : State) (filterType : Str) (level : LogLevel) (message : Except Str Str)
    (file : Str) (line : Nat) : List Delivery :=
  let report (what : Str) := s.write (ofString "server") LogLevel.error (wrongFormat what file line)
  if s.shouldLog filterType level then
    match message with
    | .error what => report what
    | .ok fmt =>
      match s.outMessage filterType level fmt with
      | .error e => report (ofString e.what)
      | .ok deliveries => deliveries
  else []

/-! ### Where a text goes -/

/-- **Each level has the priority of its number.** -/
theorem priorityOf_level {level : LogLevel} (h₀ : level ≠ LogLevel.disabled)
    (h₉ : level < LogLevel.max) :
    ∃ prio : Priority, priorityOf level = some prio ∧ prio.value = (level.toNat : Int) := by
  have hpos : level.toNat ≠ 0 := fun h => h₀ (UInt8.toNat_inj.mp h)
  have hlt : level.toNat < 9 := UInt8.lt_iff_toNat_lt.mp h₉
  have hcases : level = 1 ∨ level = 2 ∨ level = 3 ∨ level = 4 ∨ level = 5 ∨ level = 6 ∨
      level = 7 ∨ level = 8 := by
    simp only [← UInt8.toNat_inj]
    change level.toNat = 1 ∨ level.toNat = 2 ∨ level.toNat = 3 ∨ level.toNat = 4 ∨
      level.toNat = 5 ∨ level.toNat = 6 ∨ level.toNat = 7 ∨ level.toNat = 8
    omega
  rcases hcases with rfl | rfl | rfl | rfl | rfl | rfl | rfl | rfl <;> exact ⟨_, rfl, rfl⟩

section Calls

variable {s : State} {options : Options} {type : Str} {level : LogLevel}

/-- The level of a logger that a configuration made is below `LOG_LEVEL_MAX`. -/
theorem Means.level_lt (h : Means options s) {name : Str} {logger : Logger}
    (hl : s.loggers.lookup name = some logger) :
    ∃ l : LogLevel, l < LogLevel.max ∧ logger.level = (l.toNat : Int) := by
  rw [h.loggers name, loggerOf, Option.bind_eq_some_iff] at hl
  obtain ⟨named, hnamed, hl⟩ := hl
  rw [namedBy, parseLogger] at hnamed
  split at hnamed
  · cases hnamed
  split at hnamed
  · cases hnamed
  rename_i hlevel
  cases hnamed
  obtain ⟨channels, -, rfl⟩ := Option.map_eq_some_iff.mp hl
  exact ⟨_, UInt8.not_le.mp (not_or.mp hlevel).2, rfl⟩

/-- What `ShouldLog` wants is not held back by the check of Poco. -/
theorem write_of_wanted (h : Means options s) (h₀ : level ≠ LogLevel.disabled)
    (hw : s.Wanted type level) : ∃ (logger : Logger) (prio : Priority),
      getLoggerByType s.loggers type = some logger ∧ prio.value = (level.toNat : Int) ∧
      ∀ text, s.write type level text = logger.channels.map (⟨·, prio, text⟩) := by
  obtain ⟨logger, hlogger, -, hle⟩ := hw
  obtain ⟨name, hname⟩ := getLoggerByType_registered hlogger
  obtain ⟨l, hl, hlevel⟩ := h.level_lt hname
  have hlt : level < LogLevel.max := by
    rw [hlevel] at hle
    exact UInt8.lt_of_le_of_lt (UInt8.le_iff_toNat_le.mpr (by exact_mod_cast hle)) hl
  obtain ⟨prio, hprio, hvalue⟩ := priorityOf_level h₀ hlt
  refine ⟨logger, prio, hlogger, hvalue, fun text => ?_⟩
  rw [State.write, hlogger, hprio]
  dsimp only
  rw [Logger.log, if_pos (by rw [hvalue]; exact hle)]

end Calls

/-- **What a log call writes.**  After any configurations, one after the other, nothing is
written that the logger of the type does not want.  Else a text without braces gets to each
channel of the logger as it is.  One with braces is read as a format: if it has each brace
twice, it gets there with each of them once, and if not, it does not get there, and the logger
`server` is told what is wrong with the format. -/
theorem logMessage_spec (s₀ : State) (loads : List Store) (config : Store) {s : State}
    (h : run State.loadFromConfig s₀ (loads ++ [config]) = .ok s) (type : Str) (level : LogLevel)
    (h₀ : level ≠ LogLevel.disabled) (text file : Str) (line : Nat) :
    (¬ s.Wanted type level → s.logMessage type level (.ok text) file line = []) ∧
    (s.Wanted type level → ∃ (logger : Logger) (prio : Priority),
      getLoggerByType s.loggers type = some logger ∧ prio.value = (level.toNat : Int) ∧
      (Plain text → s.logMessage type level (.ok text) file line =
        logger.channels.map (⟨·, prio, text⟩)) ∧
      (∀ shown, text = Fmt.escape shown → Fmt.format text = .ok shown ∧
        s.logMessage type level (.ok text) file line =
          logger.channels.map (⟨·, prio, shown⟩)) ∧
      ((∀ shown, text ≠ Fmt.escape shown) → ∃ e, Fmt.format text = .error e ∧
        s.logMessage type level (.ok text) file line =
          s.write (ofString "server") LogLevel.error
            (wrongFormat (ofString e.what) file line))) := by
  have hshould := (shouldLog_spec s₀ loads config h type level).1
  obtain ⟨t, -, hlast⟩ := run_append_ok h
  obtain ⟨u, hload, hend⟩ := run_cons_ok hlast
  cases hend
  have hmeans := (loadFromConfig_means t config).2 s hload
  refine ⟨fun hw => ?_, fun hw => ?_⟩
  · rw [State.logMessage, if_neg fun hx => hw (hshould.mp hx)]
  · obtain ⟨logger, prio, hlogger, hvalue, hwrite⟩ := write_of_wanted hmeans h₀ hw
    have hcall : s.logMessage type level (.ok text) file line =
        match s.outMessage type level text with
        | .error e => s.write (ofString "server") LogLevel.error
            (wrongFormat (ofString e.what) file line)
        | .ok deliveries => deliveries := by
      rw [State.logMessage, if_pos (hshould.mpr hw)]
    have hshown : ∀ shown, Fmt.format text = .ok shown →
        s.logMessage type level (.ok text) file line =
          logger.channels.map (⟨·, prio, shown⟩) := by
      intro shown hf
      rw [hcall, State.outMessage, hf]
      exact hwrite shown
    refine ⟨logger, prio, hlogger, hvalue, fun hplain => ?_, fun shown htext => ?_, fun hno => ?_⟩
    · exact hshown text ((Fmt.format_eq_self_iff text).mpr hplain)
    · have hf := Fmt.format_ok_iff.mpr htext
      exact ⟨hf, hshown shown hf⟩
    · cases hf : Fmt.format text with
      | error e =>
        refine ⟨e, rfl, ?_⟩
        rw [hcall, State.outMessage, hf]
        rfl
      | ok shown => exact absurd (Fmt.format_ok_iff.mp hf) (hno shown)

/-- A console, and the logger `root` for it. -/
def consoleStore : Store where
  options := AList.insert (ofString "LogChannel.Console") (ofString "1,%t,%p,")
    (AList.singleton (ofString "Logger.root") (ofString "6,Console"))
  order := [ofString "Logger.root", ofString "LogChannel.Console"]
  order_perm := by
    simp only [ofString_eq]
    decide

theorem consoleStore_root : loggerOf consoleStore.options loggerRoot =
    some ⟨[.console], 6⟩ := by
  simp only [loggerOf, namedBy, loggerOption, prefixLogger, loggerRoot, consoleStore, ofString_eq]
  decide +kernel

/-- The text `H{{`, and the one that has only one of the braces. -/
theorem logMessage_spec_console :
    ∃ s, run State.loadFromConfig ⟨[], 0, ∅, ∅⟩ ([] ++ [consoleStore]) = .ok s ∧
      s.logMessage loggerRoot 6 (.ok [72, 123, 123]) [] 1 = [⟨.console, .information, [72, 123]⟩] ∧
      ∃ e, s.logMessage loggerRoot 6 (.ok [72, 123]) [] 1 =
        s.write (ofString "server") LogLevel.error (wrongFormat e [] 1) := by
  have hkeys : ∀ name ∈ consoleStore.getKeysByString (ofString "LogChannel."),
      ((Config.getOption consoleStore.options name []).splitOn 44).length ≠ 3 := by
    simp only [Store.getKeysByString, consoleStore, ofString_eq]
    decide +kernel
  obtain ⟨s, hs⟩ := loadFromConfig_returns consoleStore ⟨[], 0, ∅, ∅⟩ hkeys
  have hrun : run State.loadFromConfig ⟨[], 0, ∅, ∅⟩ ([] ++ [consoleStore]) = .ok s := by
    rw [List.nil_append, run_cons_of_ok hs, run]
  have hroot : getLoggerByType s.loggers loggerRoot = some ⟨[.console], 6⟩ := by
    rw [getLoggerByType_root, ((loadFromConfig_means _ _).2 s hs).loggers, consoleStore_root]
  have hwanted : s.Wanted loggerRoot 6 := ⟨_, hroot, by decide, by decide⟩
  have hspec := fun text => (logMessage_spec ⟨[], 0, ∅, ∅⟩ [] consoleStore hrun loggerRoot 6
    (by decide) text [] 1).2 hwanted
  obtain ⟨logger, prio, hlogger, hprio, -, hshown, -⟩ := hspec [72, 123, 123]
  obtain ⟨-, -, -, -, -, -, hwrong⟩ := hspec [72, 123]
  rw [hroot] at hlogger
  cases hlogger
  have hinfo : prio = .information := by
    revert hprio
    cases prio <;> decide
  refine ⟨s, hrun, ?_, ?_⟩
  · rw [(hshown [72, 123] rfl).2, hinfo]
    rfl
  · obtain ⟨e, -, he⟩ := hwrong fun shown htext => by
      have hf := Fmt.format_ok_iff.mpr htext
      rw [Fmt.format_eq] at hf
      cases hf
    exact ⟨_, he⟩

end WarheadDiscord.Log

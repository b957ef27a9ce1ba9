import WarheadDiscord.Common.Log
import WarheadDiscord.Lib.Filling

/-!
# What the log options mean

`LoadFromConfig` goes through the options in the order of a hash map.  Here it is said what each
option means by itself: `channelOf` and `loggerOf` read one option each, and look at nothing else
but the options of the channels that a logger names.

* `readChannel_eq`, `createChannelsFromConfig_eq`, `createLoggerFromConfig_eq`: one option.
* `loadFromConfig_means`: **the log after a load** is what the options mean, whatever the
  order of the hash map and whatever was loaded before.
-/

namespace WarheadDiscord.Log

open Config Lib OptionCache

/-! ### One option -/

/-- The token that `GetPositionOptions` finds.  The number of tokens is cut to eight bits. -/
def token (options : Str) (i : Nat) : Str :=
  if (options.splitOn 44).length % 256 < i + 1 then [] else ((options.splitOn 44)[i]?).getD []

theorem getPositionOptions_token (options : Str) (position : UInt8) :
    getPositionOptions options position [] = .ok (token options position.toNat) :=
  getPositionOptions_eq options position []

/-- The options of a channel for which `ABORT` is called: a file that has no name. -/
def Aborts (options : Str) : Prop :=
  (options.splitOn 44).length = 3 ∧ stringToUInt8 (token options 0) = some 2 ∧
    token options 1 ≠ [] ∧ token options 2 ≠ []

instance (options : Str) : Decidable (Aborts options) := inferInstanceAs (Decidable (_ ∧ _))

/-- The channel that an option describes. -/
def parseChannel (logsDir options : Str) : Option FormattingChannel :=
  if (options.splitOn 44).length < 3 ∨ 9 < (options.splitOn 44).length then none
  else
    match stringToUInt8 (token options 0) with
    | none => none
    | some channelType =>
      if token options 1 = [] ∨ token options 2 = [] then none
      else if channelType = 1 then some .console
      else if channelType = 2 then some (.file (logsDir ++ token options 3))
      else none

/-- The level and the channels that an option describes. -/
def parseLogger (options : Str) : Option (LogLevel × List Str) :=
  let level := (stringToUInt8 (token options 0)).getD LogLevel.max
  if (options.splitOn 44).length < 2 ∨ LogLevel.max ≤ level then none
  else some (level, parts (token options 1) 32 false)

section Texts

variable {options : Str}

theorem splitOn_nil : ([] : Str).splitOn 44 = [[]] := by decide

theorem readChannel_eq (logsDir options : Str) : readChannel logsDir options =
    if Aborts options then .error (.assertion "ABORT()") else .ok (parseChannel logsDir options) := by
  have hparts : parts options 44 true = options.splitOn 44 := rfl
  simp only [readChannel, tokenize_eq, getPositionOptions_token, bind, Except.bind, hparts]
  by_cases hempty : options = []
  · subst hempty
    rw [if_pos rfl, if_neg (by rw [Aborts, splitOn_nil]; simp), parseChannel, splitOn_nil,
      if_pos (by simp)]
  · rw [if_neg hempty]
    by_cases hcount : (options.splitOn 44).length < 3 ∨ 9 < (options.splitOn 44).length
    · rw [if_pos hcount, if_neg (by rintro ⟨h, -⟩; omega), parseChannel, if_pos hcount]
    · have hthree : (options.splitOn 44).length = 3 ↔ (options.splitOn 44).length < 4 := by omega
      have habort : Aborts options ↔ (options.splitOn 44).length < 4 ∧
          stringToUInt8 (token options 0) = some 2 ∧ token options 1 ≠ [] ∧ token options 2 ≠ [] := by
        rw [Aborts, hthree]
      have hnum : (UInt8.toNat 0 = 0 ∧ UInt8.toNat 1 = 1) ∧ UInt8.toNat 2 = 2 ∧ UInt8.toNat 3 = 3 :=
        ⟨⟨rfl, rfl⟩, rfl, rfl⟩
      rw [if_neg hcount, parseChannel, if_neg hcount]
      simp only [hnum, habort]
      cases htype : stringToUInt8 (token options 0) with
      | none => simp
      | some channelType =>
        by_cases hfile : channelType = 2
        · subst hfile
          by_cases htext : token options 1 = [] ∨ token options 2 = []
          · simp [htext]
            grind
          · obtain ⟨h₁, h₂⟩ := not_or.mp htext
            simp [h₁, h₂]
        · by_cases hconsole : channelType = 1
          · subst hconsole
            by_cases htext : token options 1 = [] ∨ token options 2 = []
            · simp [htext]
            · obtain ⟨h₁, h₂⟩ := not_or.mp htext
              simp [h₁, h₂]
          · simp [hfile, hconsole]

end Texts

/-! ### The options of a configuration -/

/-- `PREFIX_CHANNEL` and `PREFIX_LOGGER`. -/
def prefixChannel : Str := ofString "LogChannel."

def prefixLogger : Str := ofString "Logger."

theorem prefixChannel_length : prefixChannel.length = 11 := by
  rw [prefixChannel, ofString_eq]
  decide

theorem prefixLogger_length : prefixLogger.length = 7 := by
  rw [prefixLogger, ofString_eq]
  decide

section Options

variable (options : Options)

/-- The directory of the files, with a separator at its end. -/
def logsDirOf : Str :=
  let logsDir := Config.getOption options (ofString "LogsDir") []
  match logsDir.getLast? with
  | none => logsDir
  | some last => if last ≠ 47 ∧ last ≠ 92 then logsDir ++ [47] else logsDir

/-- The option of a channel, empty if there is none. -/
def channelOption (name : Str) : Str := Config.getOption options (prefixChannel ++ name) []

/-- The option of a logger. -/
def loggerOption (name : Str) : Str := Config.getOption options (prefixLogger ++ name) []

/-- The channel with a name. -/
def channelOf (name : Str) : Option FormattingChannel :=
  parseChannel (logsDirOf options) (channelOption options name)

/-- The level and the channels that the option of a logger names.  There is no logger `system`. -/
def namedBy (name : Str) : Option (LogLevel × List Str) :=
  if name = ofString "system" then none else parseLogger (loggerOption options name)

/-- The logger with a name, if all the channels that it names are there. -/
def loggerOf (name : Str) : Option Logger :=
  (namedBy options name).bind fun named =>
    (named.2.mapM (channelOf options)).map (⟨·, named.1.toNat⟩)

/-- **What a log is, by its options.**  The highest level is also that of a logger that is not
made because a channel is missing. -/
structure Means (s : State) : Prop where
  logsDir : s.logsDir = logsDirOf options
  channelStore : s.channelStore = ∅
  loggers : ∀ name, s.loggers.lookup name = loggerOf options name
  highest : ∀ l, s.highestLogLevel ≤ l ↔
    LogLevel.fatal ≤ l ∧ ∀ name named, namedBy options name = some named → named.1 ≤ l

end Options

theorem parseChannel_nil (logsDir : Str) : parseChannel logsDir [] = none := by
  rw [parseChannel, splitOn_nil, if_pos (by simp)]

theorem parseLogger_nil : parseLogger [] = none := by
  rw [parseLogger, splitOn_nil, if_pos (by simp)]

theorem not_aborts_nil : ¬ Aborts [] := by
  rw [Aborts, splitOn_nil]
  simp

/-! ### Channels -/

section Channels

variable {config : Store} {s t : State} {name : Str}

theorem createChannelsFromConfig_eq (hname : prefixChannel <+: name) :
    s.createChannelsFromConfig config name =
      if Aborts (Config.getOption config.options name []) then .error (.assertion "ABORT()")
      else .ok (match parseChannel s.logsDir (Config.getOption config.options name []) with
        | none => s
        | some channel => s.addFormattingChannel (name.drop prefixChannel.length) channel) := by
  have hlen : 11 ≤ name.length := prefixChannel_length ▸ hname.length_le
  have hne : name ≠ [] := by
    rintro rfl
    cases hlen
  rw [State.createChannelsFromConfig, if_neg hne, (StringView.substr_of_le hlen 0).2, ok_bind,
    readChannel_eq, prefixChannel_length]
  by_cases h : Aborts (Config.getOption config.options name [])
  · rw [if_pos h, if_pos h]
    rfl
  · rw [if_neg h, if_neg h, ok_bind]
    cases parseChannel s.logsDir (Config.getOption config.options name []) <;> rfl

/-- A channel option changes the store of the channels only. -/
structure SameButChannels (s t : State) : Prop where
  logsDir : t.logsDir = s.logsDir
  highest : t.highestLogLevel = s.highestLogLevel
  loggers : t.loggers = s.loggers

theorem createChannelsFromConfig_fills (hname : prefixChannel <+: name)
    (h : s.createChannelsFromConfig config name = .ok t) : SameButChannels s t ∧
      ∀ k, t.channelStore.lookup k = (s.channelStore.lookup k).or
        (if name.drop prefixChannel.length = k then
          parseChannel s.logsDir (Config.getOption config.options name []) else none) := by
  rw [createChannelsFromConfig_eq hname] at h
  split at h
  · cases h
  · cases h
    cases hc : parseChannel s.logsDir (Config.getOption config.options name []) with
    | none => exact ⟨⟨rfl, rfl, rfl⟩, fun k => by simp⟩
    | some channel =>
      exact ⟨⟨rfl, rfl, rfl⟩, fun k => lookup_insertNew s.channelStore _ k channel⟩

end Channels

/-! ### Loggers -/

section Loggers

variable {config : Store} {s t : State} {name : Str}

/-- What a logger option does: it may raise the highest level, and make a logger. -/
theorem createLoggerFromConfig_eq (hname : prefixLogger <+: name) :
    s.createLoggerFromConfig config name = .ok
      (match (if name.drop prefixLogger.length = ofString "system" then none
          else parseLogger (Config.getOption config.options name [])) with
      | none => s
      | some named =>
        match named.2.mapM s.getFormattingChannel with
        | some channels => (s.raise named.1).create (name.drop prefixLogger.length) channels named.1
        | none => s.raise named.1) := by
  have hlen : 7 ≤ name.length := prefixLogger_length ▸ hname.length_le
  have hne : name ≠ [] := by
    rintro rfl
    cases hlen
  have hstore : ∀ level, (s.raise level).getFormattingChannel = s.getFormattingChannel := by
    intro level
    rw [State.raise]
    split <;> rfl
  rw [State.createLoggerFromConfig, if_neg hne, (StringView.substr_of_le hlen 0).2, ok_bind,
    prefixLogger_length]
  by_cases hsystem : name.drop 7 = ofString "system"
  · rw [if_pos (Or.inl hsystem), if_pos hsystem]
  by_cases hempty : Config.getOption config.options name [] = []
  · rw [if_pos (Or.inr hempty), if_neg hsystem, hempty, parseLogger_nil]
  rw [if_neg (not_or.mpr ⟨hsystem, hempty⟩), if_neg hsystem, tokenize_eq, ok_bind]
  generalize Config.getOption config.options name [] = options
  have hparts : parts options 44 true = options.splitOn 44 := rfl
  rw [hparts, parseLogger]
  by_cases htokens : (options.splitOn 44).length < 2
  · rw [if_pos htokens, if_pos (Or.inl htokens)]
  rw [if_neg htokens, getPositionOptions_token, ok_bind, getPositionOptions_token]
  dsimp only
  change (if LogLevel.max ≤ (stringToUInt8 (token options 0)).getD LogLevel.max then _ else _) = _
  by_cases hlevel : LogLevel.max ≤ (stringToUInt8 (token options 0)).getD LogLevel.max
  · rw [if_pos hlevel, if_pos (Or.inr hlevel)]
  rw [if_neg hlevel, if_neg (not_or.mpr ⟨htokens, hlevel⟩), ok_bind, tokenize_eq, ok_bind, hstore]
  rw [show UInt8.toNat 0 = 0 from rfl, show UInt8.toNat 1 = 1 from rfl]
  dsimp only
  cases (parts (token options 1) 32 false).mapM s.getFormattingChannel <;> rfl

theorem raise_le_iff (s : State) (level l : LogLevel) :
    (s.raise level).highestLogLevel ≤ l ↔ s.highestLogLevel ≤ l ∧ level ≤ l := by
  rw [State.raise]
  by_cases hlt : s.highestLogLevel < level
  · rw [if_pos hlt]
    exact ⟨fun h => ⟨UInt8.le_trans (UInt8.le_of_lt hlt) h, h⟩, fun h => h.2⟩
  · rw [if_neg hlt]
    exact ⟨fun h => ⟨h, UInt8.le_trans (UInt8.not_lt.mp hlt) h⟩, fun h => h.1⟩

/-- A logger option leaves the directory and the channels as they are. -/
structure SameButLoggers (s t : State) : Prop where
  logsDir : t.logsDir = s.logsDir
  channelStore : t.channelStore = s.channelStore

theorem raise_same (s : State) (level : LogLevel) : SameButLoggers s (s.raise level) := by
  rw [State.raise]
  split <;> exact ⟨rfl, rfl⟩

/-- The logger that an option makes beside the channels of a state. -/
def made (s : State) (named : Option (LogLevel × List Str)) : Option Logger :=
  named.bind fun named =>
    (named.2.mapM s.getFormattingChannel).map (⟨·, named.1.toNat⟩)

theorem createLoggerFromConfig_fills (hname : prefixLogger <+: name)
    (h : s.createLoggerFromConfig config name = .ok t) :
    let loggerName := name.drop prefixLogger.length
    let named := if loggerName = ofString "system" then none
      else parseLogger (Config.getOption config.options name [])
    SameButLoggers s t ∧
      (∀ k, t.loggers.lookup k =
        (s.loggers.lookup k).or (if loggerName = k then made s named else none)) ∧
      ∀ l, t.highestLogLevel ≤ l ↔
        s.highestLogLevel ≤ l ∧ ∀ v, named.map Prod.fst = some v → v ≤ l := by
  intro loggerName named
  rw [createLoggerFromConfig_eq hname] at h
  change Except.ok (match named with | none => s | some named => _) = _ at h
  cases hn : named with
  | none =>
    rw [hn] at h
    cases h
    exact ⟨⟨rfl, rfl⟩, fun k => by simp [made], fun l => by simp⟩
  | some named =>
    rw [hn] at h
    dsimp only at h
    have hsame := raise_same s named.1
    have hlevel : ∀ l, (s.raise named.1).highestLogLevel ≤ l ↔ s.highestLogLevel ≤ l ∧
        ∀ v, (some named).map Prod.fst = some v → v ≤ l := by
      intro l
      rw [raise_le_iff]
      simp
    split at h
    · rename_i channels hfound
      cases h
      refine ⟨⟨hsame.logsDir, hsame.channelStore⟩, fun k => ?_, hlevel⟩
      rw [State.create, lookup_insertNew, State.raise_loggers, made, Option.bind_some, hfound,
        Option.map_some]
    · rename_i hfound
      cases h
      refine ⟨hsame, fun k => ?_, hlevel⟩
      rw [State.raise_loggers, made, Option.bind_some, hfound, Option.map_none, ite_self,
        Option.or_none]

end Loggers

/-! ### A load -/

section Loading

variable {s t : State} {config : Store}

theorem initLogsDir_eq (s : State) (config : Store) :
    s.initLogsDir config = { s with logsDir := logsDirOf config.options } := by
  rw [State.initLogsDir, logsDirOf]
  cases (Config.getOption config.options (ofString "LogsDir") []).getLast? with
  | none => rfl
  | some last =>
    dsimp only
    split <;> rfl

theorem mem_getKeysByString {pre key : Str} :
    key ∈ config.getKeysByString pre ↔ key ∈ config.options ∧ pre <+: key := by
  rw [Store.getKeysByString, List.mem_filter, config.order_perm.mem_iff, AList.mem_keys,
    List.isPrefixOf_iff_prefix]

/-- What the items for a name come to: its option, wherever it stands in the hash map. -/
theorem findSome_getKeysByString {β : Type} (pre name : Str) (value : Str → Option β)
    (hvalue : value [] = none) :
    ((config.getKeysByString pre).findSome? fun key =>
      if key.drop pre.length = name then value (Config.getOption config.options key []) else none) =
      value (Config.getOption config.options (pre ++ name) []) := by
  rw [findSome_prefixed (fun key hk => (mem_getKeysByString.mp hk).2)
    (fun key => value (Config.getOption config.options key []))]
  by_cases hmem : pre ++ name ∈ config.options
  · rw [if_pos (mem_getKeysByString.mpr ⟨hmem, List.prefix_append pre name⟩)]
  · have hnone : Config.getOption config.options (pre ++ name) [] = [] := by
      rw [Config.getOption, AList.lookup_eq_none.mpr hmem]
    rw [if_neg fun h => hmem (mem_getKeysByString.mp h).1, hnone, hvalue]

theorem readChannelsFromConfig_fills (hstore : s.channelStore = ∅)
    (h : s.readChannelsFromConfig config = .ok t) : SameButChannels s t ∧
      ∀ name, t.channelStore.lookup name =
        parseChannel s.logsDir (channelOption config.options name) := by
  obtain ⟨hsame, hfill⟩ := run_fill (I := fun u => SameButChannels s u)
    (fun u => u.channelStore.lookup) (fun name => name.drop prefixChannel.length)
    (fun name => parseChannel s.logsDir (Config.getOption config.options name []))
    (config.getKeysByString prefixChannel) s t
    (fun name hname u v hu hv => by
      obtain ⟨hsame, hfill⟩ := createChannelsFromConfig_fills (mem_getKeysByString.mp hname).2 hv
      rw [hu.logsDir] at hfill
      exact ⟨⟨hsame.logsDir.trans hu.logsDir, hsame.highest.trans hu.highest,
        hsame.loggers.trans hu.loggers⟩, hfill⟩) ⟨rfl, rfl, rfl⟩ h
  refine ⟨hsame, fun name => ?_⟩
  rw [hfill name, hstore, AList.lookup_empty, Option.none_or,
    findSome_getKeysByString prefixChannel name _ (parseChannel_nil s.logsDir)]
  rfl

/-- The loggers are read as the options mean them, beside the channels that are there. -/
theorem readLoggersFromConfig_fills (hloggers : s.loggers = ∅)
    (hhighest : s.highestLogLevel = LogLevel.fatal)
    (h : s.readLoggersFromConfig config = .ok t) : t.logsDir = s.logsDir ∧
      (∀ name, t.loggers.lookup name = made s (namedBy config.options name)) ∧
      ∀ l, t.highestLogLevel ≤ l ↔
        LogLevel.fatal ≤ l ∧ ∀ name named, namedBy config.options name = some named → named.1 ≤ l := by
  -- what one option names, wherever it stands
  let named : Str → Option (LogLevel × List Str) := fun key =>
    if key.drop prefixLogger.length = ofString "system" then none
    else parseLogger (Config.getOption config.options key [])
  have hnamed : ∀ name, named (prefixLogger ++ name) = namedBy config.options name := by
    intro name
    change (if (prefixLogger ++ name).drop prefixLogger.length = _ then _ else _) = _
    rw [List.drop_left]
    rfl
  have hmissing : ∀ name, prefixLogger ++ name ∉ config.options →
      namedBy config.options name = none := by
    intro name hmem
    have hnone : loggerOption config.options name = [] := by
      rw [loggerOption, Config.getOption, AList.lookup_eq_none.mpr hmem]
    rw [namedBy, hnone, parseLogger_nil, ite_self]
  obtain ⟨hsame, hfill⟩ := run_fill (I := fun u => SameButLoggers s u)
    (fun u => u.loggers.lookup) (fun key => key.drop prefixLogger.length)
    (fun key => made s (named key)) (config.getKeysByString prefixLogger) s t
    (fun key hkey u v hu hv => by
      obtain ⟨hsame, hfill, -⟩ :=
        createLoggerFromConfig_fills (mem_getKeysByString.mp hkey).2 hv
      refine ⟨⟨hsame.logsDir.trans hu.logsDir, hsame.channelStore.trans hu.channelStore⟩,
        fun k => ?_⟩
      have hfound : u.getFormattingChannel = s.getFormattingChannel := by
        funext c
        rw [State.getFormattingChannel, State.getFormattingChannel, hu.channelStore]
      rw [hfill k, made, hfound]
      rfl) ⟨rfl, rfl⟩ h
  have hbound := run_bound State.highestLogLevel (fun key => (named key).map Prod.fst)
    (config.getKeysByString prefixLogger) s t
    (fun key hkey u v hv => (createLoggerFromConfig_fills (mem_getKeysByString.mp hkey).2 hv).2.2) h
  refine ⟨hsame.logsDir, fun name => ?_, fun l => ?_⟩
  · rw [hfill name, hloggers, AList.lookup_empty, Option.none_or,
      findSome_prefixed (fun key hk => (mem_getKeysByString.mp hk).2), hnamed]
    by_cases hmem : prefixLogger ++ name ∈ config.options
    · rw [if_pos (mem_getKeysByString.mpr ⟨hmem, List.prefix_append prefixLogger name⟩)]
    · rw [if_neg fun h => hmem (mem_getKeysByString.mp h).1, hmissing name hmem]
      rfl
  · rw [hbound l, hhighest]
    refine and_congr_right fun _ => ⟨fun hall name v hv => ?_, fun hall key hkey v hv => ?_⟩
    · have hmem : prefixLogger ++ name ∈ config.options := by
        by_contra hmem
        rw [hmissing name hmem] at hv
        cases hv
      refine hall _ (mem_getKeysByString.mpr ⟨hmem, List.prefix_append prefixLogger name⟩) _ ?_
      rw [hnamed, hv]
      rfl
    · obtain ⟨name, rfl⟩ := (mem_getKeysByString.mp hkey).2
      rw [hnamed] at hv
      obtain ⟨v', hv', rfl⟩ := Option.map_eq_some_iff.mp hv
      exact hall name v' hv'

theorem readChannelsFromConfig_returns_iff (s : State) (config : Store) :
    (∃ t, s.readChannelsFromConfig config = .ok t) ↔
      ∀ name, ¬ Aborts (channelOption config.options name) := by
  have hiff : (∃ t, s.readChannelsFromConfig config = .ok t) ↔
      ∀ key ∈ config.getKeysByString prefixChannel,
        ¬ Aborts (Config.getOption config.options key []) := by
    refine run_ok_iff_forall _ s fun key hkey u => ?_
    rw [createChannelsFromConfig_eq (mem_getKeysByString.mp hkey).2]
    by_cases h : Aborts (Config.getOption config.options key [])
    · rw [if_pos h]
      exact iff_of_false (no_ok _) (not_not_intro h)
    · rw [if_neg h]
      exact iff_of_true ⟨_, rfl⟩ h
  rw [hiff]
  constructor
  · intro hall name h
    by_cases hmem : prefixChannel ++ name ∈ config.options
    · exact hall _ (mem_getKeysByString.mpr ⟨hmem, List.prefix_append prefixChannel name⟩) h
    · rw [channelOption, Config.getOption, AList.lookup_eq_none.mpr hmem] at h
      exact not_aborts_nil h
  · intro hall key hkey
    obtain ⟨name, rfl⟩ := (mem_getKeysByString.mp hkey).2
    exact hall name

theorem readLoggersFromConfig_returns (s : State) (config : Store) :
    ∃ t, s.readLoggersFromConfig config = .ok t := by
  refine (run_ok_iff_forall (C := fun _ => True) _ s fun key hkey u => ?_).mpr
    fun _ _ => trivial
  rw [createLoggerFromConfig_eq (mem_getKeysByString.mp hkey).2]
  exact iff_true_intro ⟨_, rfl⟩

/-- **What a load comes to.**  It ends, unless there is a channel for a file without a name, and
then the log is what the options mean: in any order of the hash map, and whatever was loaded
before.  Each logger has the channels that its option names, each with its kind and the path of
its file. -/
theorem loadFromConfig_means (s : State) (config : Store) :
    ((∃ t, s.loadFromConfig config = .ok t) ↔
      ∀ name, ¬ Aborts (channelOption config.options name)) ∧
    ∀ t, s.loadFromConfig config = .ok t → Means config.options t := by
  have hstart : ({ s with highestLogLevel := LogLevel.fatal } : State).clear.initLogsDir config =
      ⟨logsDirOf config.options, LogLevel.fatal, ∅, ∅⟩ := initLogsDir_eq _ config
  constructor
  · rw [← readChannelsFromConfig_returns_iff ⟨logsDirOf config.options, LogLevel.fatal, ∅, ∅⟩]
    rw [State.loadFromConfig, hstart]
    constructor
    · rintro ⟨t, h⟩
      obtain ⟨u, hu, -⟩ := bind_ok h
      exact ⟨u, hu⟩
    · rintro ⟨u, hu⟩
      obtain ⟨v, hv⟩ := readLoggersFromConfig_returns u config
      rw [hu, ok_bind, hv]
      exact ⟨_, rfl⟩
  · intro t h
    rw [State.loadFromConfig, hstart] at h
    obtain ⟨u, hu, h⟩ := bind_ok h
    obtain ⟨v, hv, h⟩ := bind_ok h
    cases h
    obtain ⟨hsame, hchannels⟩ := readChannelsFromConfig_fills rfl hu
    obtain ⟨hlogsDir, hloggers, hhighest⟩ :=
      readLoggersFromConfig_fills hsame.loggers hsame.highest hv
    refine ⟨hlogsDir.trans hsame.logsDir, rfl, fun name => ?_, hhighest⟩
    have hfound : u.getFormattingChannel = channelOf config.options := funext hchannels
    rw [hloggers name, loggerOf, made, hfound]

theorem getLoggerByType_congr {loggers loggers' : Loggers}
    (h : ∀ name, loggers.lookup name = loggers'.lookup name) (type : Str) :
    getLoggerByType loggers type = getLoggerByType loggers' type := by
  fun_induction getLoggerByType loggers type with
  | case1 type logger hlookup =>
    rw [h] at hlookup
    rw [getLoggerByType, hlookup]
  | case2 hlookup =>
    rw [h] at hlookup
    rw [getLoggerByType, hlookup]
    simp
  | case3 type hlookup hroot ih =>
    rw [h] at hlookup
    rw [ih, getLoggerByType.eq_def loggers' type, hlookup]
    exact (if_neg hroot).symm

theorem Means.unique {options : Options} (h : Means options s) (g : Means options t) :
    s.logsDir = t.logsDir ∧ s.highestLogLevel = t.highestLogLevel ∧
      (∀ name, s.loggers.lookup name = t.loggers.lookup name) ∧
      ∀ type level, s.shouldLog type level = t.shouldLog type level := by
  have hlookup : ∀ name, s.loggers.lookup name = t.loggers.lookup name := fun name => by
    rw [h.loggers name, g.loggers name]
  have hhighest : s.highestLogLevel = t.highestLogLevel :=
    UInt8.le_antisymm ((h.highest _).mpr ((g.highest _).mp (UInt8.le_refl _)))
      ((g.highest _).mpr ((h.highest _).mp (UInt8.le_refl _)))
  refine ⟨h.logsDir.trans g.logsDir.symm, hhighest, hlookup, fun type level => ?_⟩
  rw [State.shouldLog, State.shouldLog, hhighest, getLoggerByType_congr hlookup]

end Loading

end WarheadDiscord.Log

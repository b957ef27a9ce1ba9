import WarheadDiscord.Common.Loggers
import WarheadDiscord.Common.StringConvert
import WarheadDiscord.Common.Tokenize
import WarheadDiscord.Lib.Filling

/-!
# The log

`Log.cpp`, from the options of the configuration files to the question whether a message is
logged.  `LoadFromConfig` forgets all loggers, reads the channels and then the loggers, and keeps
the highest level that it has read.  `ShouldLog` asks for this level first.

* `getPositionOptions_eq`: the number of tokens is compared as a `uint8`.
* `getPositionOptions_iff`: when the token of a position is found.
* `createLoggerFromConfig_cases`: what one logger option does.
* `Bounded.load`: no logger has a higher level than the highest.
* `shouldLog_spec`: so the first question of `ShouldLog` changes nothing.
* `loadFromConfig_returns`: a configuration is read to its end, unless a channel has no option
  behind its pattern.
-/

namespace WarheadDiscord.Log

open Config Lib OptionCache

/-! ### Levels -/

/-- `enum class LogLevel : uint8`.  A level that is made by a cast may be any number. -/
abbrev LogLevel := UInt8

def LogLevel.disabled : LogLevel := 0

def LogLevel.fatal : LogLevel := 1

/-- `LOG_LEVEL_MAX`. -/
def LogLevel.max : LogLevel := 9

def uint8 : IntType := ⟨false, .w8⟩

/-- `StringTo<uint8>`. -/
def stringToUInt8 (s : Str) : Option UInt8 :=
  (uint8.fromChars s).map fun n => UInt8.ofNat n.val.toNat

/-! ### The configuration -/

/-- The options of `sConfigMgr`, in the order of its hash map. -/
structure Store where
  options : Options
  order : List Str
  order_perm : order.Perm options.keys

/-- `ConfigMgr::GetKeysByString`. -/
def Store.getKeysByString (config : Store) (name : Str) : List Str :=
  config.order.filter (name.isPrefixOf ·)

def getPositionOptions (options : Str) (position : UInt8) (dflt : Str) : Except Fault Str := do
  let tokens ← tokenize options 44 true
  -- `static_cast<uint8>(tokens.size()) < position + 1u`
  if (UInt8.ofNat tokens.length).toNat < position.toNat + 1 then .ok dflt
  else
    match tokens[position.toNat]? with
    | some token => .ok token
    | none => .error (.outOfRange "vector::at")

/-! ### Channels and loggers -/

/-- The members of `Log`, and the loggers of Poco. -/
structure State where
  logsDir : Str := []
  highestLogLevel : LogLevel
  channelStore : AList fun _ : Str => FormattingChannel
  loggers : Loggers

def State.clear (s : State) : State := { s with channelStore := ∅, loggers := ∅ }

def State.initLogsDir (s : State) (config : Store) : State :=
  let logsDir := getOption config.options (ofString "LogsDir") []
  match logsDir.getLast? with
  | none => { s with logsDir := logsDir }
  | some last =>
    -- `'/'` and `'\\'`
    if last ≠ 47 ∧ last ≠ 92 then { s with logsDir := logsDir ++ [47] }
    else { s with logsDir := logsDir }

/-- The channel that the options of `CreateChannelsFromConfig` describe, if they do.  `ABORT`
ends the program as a failed `ASSERT` does. -/
def readChannel (logsDir options : Str) : Except Fault (Option FormattingChannel) :=
  if options = [] then .ok none
  else do
    let tokens ← tokenize options 44 true
    if tokens.length < 3 ∨ 9 < tokens.length then .ok none
    else
      let channelType ← getPositionOptions options 0 []
      match stringToUInt8 channelType with
      | none => .ok none
      | some channelType =>
        let times ← getPositionOptions options 1 []
        let pattern ← getPositionOptions options 2 []
        if 2 < channelType ∨ times = [] ∨ pattern = [] then .ok none
        else if channelType = 1 then .ok (some .console)
        else if channelType = 2 then
          if tokens.length < 4 then .error (.assertion "ABORT()")
          else
            let fileName ← getPositionOptions options 3 []
            .ok (some (.file (logsDir ++ fileName)))
        else .ok none

def State.getFormattingChannel (s : State) (channelName : Str) : Option FormattingChannel :=
  s.channelStore.lookup channelName

/-- `Log::AddFormattingChannel`, which refuses a name that is there already. -/
def State.addFormattingChannel (s : State) (channelName : Str) (channel : FormattingChannel) :
    State :=
  { s with channelStore := insertNew s.channelStore channelName channel }

def State.createChannelsFromConfig (config : Store) (s : State) (logChannelName : Str) :
    Except Fault State :=
  if logChannelName = [] then .ok s
  else do
    let channelName ← StringView.substr logChannelName 11 none
    let channel ← readChannel s.logsDir (getOption config.options logChannelName [])
    match channel with
    | none => .ok s
    | some channel => .ok (s.addFormattingChannel channelName channel)

/-- `if (level > highestLogLevel) highestLogLevel = level`. -/
def State.raise (s : State) (level : LogLevel) : State :=
  if s.highestLogLevel < level then { s with highestLogLevel := level } else s

/-- `Logger::create`, with the exception for a name that exists caught. -/
def State.create (s : State) (name : Str) (channels : List FormattingChannel) (level : LogLevel) :
    State :=
  { s with loggers := insertNew s.loggers name ⟨channels, level.toNat⟩ }

def State.createLoggerFromConfig (config : Store) (s : State) (configLoggerName : Str) :
    Except Fault State :=
  if configLoggerName = [] then .ok s
  else do
    let options := getOption config.options configLoggerName []
    let loggerName ← StringView.substr configLoggerName 7 none
    if loggerName = ofString "system" ∨ options = [] then .ok s
    else
      let tokens ← tokenize options 44 true
      if tokens.length < 2 then .ok s
      else
        let level ← getPositionOptions options 0 []
        let level := (stringToUInt8 level).getD LogLevel.max
        if LogLevel.max ≤ level then .ok s
        else
          let s := s.raise level
          let channelsName ← getPositionOptions options 1 []
          let channels ← tokenize channelsName 32 false
          match channels.mapM s.getFormattingChannel with
          | some channels => .ok (s.create loggerName channels level)
          | none => .ok s

def State.readChannelsFromConfig (config : Store) (s : State) : Except Fault State :=
  run (State.createChannelsFromConfig config) s (config.getKeysByString (ofString "LogChannel."))

def State.readLoggersFromConfig (config : Store) (s : State) : Except Fault State :=
  run (State.createLoggerFromConfig config) s (config.getKeysByString (ofString "Logger."))

def State.loadFromConfig (s : State) (config : Store) : Except Fault State := do
  let s := { s with highestLogLevel := LogLevel.fatal }
  let s := s.clear.initLogsDir config
  let s ← s.readChannelsFromConfig config
  let s ← s.readLoggersFromConfig config
  .ok { s with channelStore := ∅ }

def State.shouldLog (s : State) (type : Str) (level : LogLevel) : Bool :=
  if s.highestLogLevel < level then false
  else
    match getLoggerByType s.loggers type with
    | none => false
    | some logger =>
      let logLevel := UInt8.ofInt logger.level
      logLevel ≠ LogLevel.disabled ∧ level ≤ logLevel

/-! ### The tokens of an option -/

section Options

variable (options : Str) (position : UInt8) (dflt : Str)

/-- The number of tokens is compared modulo 256. -/
theorem getPositionOptions_eq :
    getPositionOptions options position dflt =
      .ok (if (options.splitOn 44).length % 256 < position.toNat + 1 then dflt
        else ((options.splitOn 44)[position.toNat]?).getD dflt) := by
  have hcount : (UInt8.ofNat (options.splitOn 44).length).toNat =
      (options.splitOn 44).length % 256 := UInt8.toNat_ofNat'
  rw [getPositionOptions, tokenize_eq]
  change (if (UInt8.ofNat (options.splitOn 44).length).toNat < position.toNat + 1 then _ else _) = _
  rw [hcount]
  by_cases hlt : (options.splitOn 44).length % 256 < position.toNat + 1
  · rw [if_pos hlt, if_pos hlt]
  · have hpos : position.toNat < (options.splitOn 44).length := by omega
    rw [if_neg hlt, if_neg hlt]
    change (match (options.splitOn 44)[position.toNat]? with | some _ => _ | none => _) = _
    rw [List.getElem?_eq_getElem hpos]
    rfl

/-- **When the token of a position is found.**  The number of tokens must not be reduced below
the position when it is cut to eight bits. -/
theorem getPositionOptions_iff :
    getPositionOptions options position dflt =
        .ok (((options.splitOn 44)[position.toNat]?).getD dflt) ↔
      (options.splitOn 44).length ≤ position.toNat ∨
        position.toNat < (options.splitOn 44).length % 256 ∨
        (options.splitOn 44)[position.toNat]? = some dflt := by
  rw [getPositionOptions_eq, Except.ok.injEq]
  by_cases hle : (options.splitOn 44).length ≤ position.toNat
  · rw [List.getElem?_eq_none hle, Option.getD_none, ite_self]
    exact iff_of_true rfl (Or.inl hle)
  · by_cases hlt : position.toNat < (options.splitOn 44).length % 256
    · rw [if_neg (by omega)]
      exact iff_of_true rfl (Or.inr (Or.inl hlt))
    · rw [if_pos (by omega), List.getElem?_eq_getElem (by omega), Option.getD_some,
        Option.some.injEq]
      constructor
      · exact fun h => Or.inr (Or.inr h.symm)
      · rintro (h | h | h)
        · exact absurd h hle
        · exact absurd h hlt
        · exact h.symm

end Options

/-- The level 6 in front of 255 commas is not found: 256 tokens are taken for none. -/
theorem getPositionOptions_none :
    ((54 :: List.replicate 255 44 : Str).splitOn 44)[(0 : UInt8).toNat]? = some [54] ∧
      getPositionOptions (54 :: List.replicate 255 44) 0 [] = .ok [] := by
  have hfirst : (54 :: List.replicate 255 44 : Str).splitOn 44 =
      [54] :: (List.replicate 254 44 : Str).splitOn 44 :=
    List.splitOn_append_cons_self_of_not_mem (by decide : (44 : UInt8) ∉ ([54] : Str)) _
  have hlength : ((54 :: List.replicate 255 44 : Str).splitOn 44).length = 256 := by
    rw [hfirst, List.length_cons, length_splitOn, List.count_replicate_self]
  refine ⟨by rw [hfirst]; rfl, ?_⟩
  rw [getPositionOptions_eq, hlength, if_pos (by decide)]

/-! ### What is read -/

section Reading

variable {config : Store} {s s' : State} {name : Str}

theorem State.initLogsDir_loggers (s : State) (config : Store) :
    (s.initLogsDir config).loggers = s.loggers := by
  rw [State.initLogsDir]
  split
  · rfl
  · split <;> rfl

theorem createChannelsFromConfig_spec (h : s.createChannelsFromConfig config name = .ok s') :
    s'.highestLogLevel = s.highestLogLevel ∧ s'.loggers = s.loggers := by
  rw [State.createChannelsFromConfig] at h
  by_cases hname : name = []
  · rw [if_pos hname] at h
    cases h
    exact ⟨rfl, rfl⟩
  · rw [if_neg hname] at h
    obtain ⟨channelName, -, h⟩ := bind_ok h
    obtain ⟨channel, -, h⟩ := bind_ok h
    cases channel with
    | none =>
      cases h
      exact ⟨rfl, rfl⟩
    | some channel =>
      cases h
      exact ⟨rfl, rfl⟩

/-- **What a logger option does.**  It is skipped, or it raises the highest level to its own, and
then it may make a logger of this level. -/
theorem createLoggerFromConfig_cases (h : s.createLoggerFromConfig config name = .ok s') :
    s' = s ∨ ∃ level, level < LogLevel.max ∧ (s' = s.raise level ∨
      ∃ logger channels, s' = (s.raise level).create logger channels level) := by
  rw [State.createLoggerFromConfig] at h
  by_cases hname : name = []
  · rw [if_pos hname] at h
    exact Or.inl (Except.ok.inj h).symm
  · rw [if_neg hname] at h
    obtain ⟨loggerName, -, h⟩ := bind_ok h
    by_cases hskip : loggerName = ofString "system" ∨ getOption config.options name [] = []
    · rw [if_pos hskip] at h
      exact Or.inl (Except.ok.inj h).symm
    · rw [if_neg hskip] at h
      obtain ⟨tokens, -, h⟩ := bind_ok h
      by_cases htokens : tokens.length < 2
      · rw [if_pos htokens] at h
        exact Or.inl (Except.ok.inj h).symm
      · rw [if_neg htokens] at h
        obtain ⟨text, -, h⟩ := bind_ok h
        by_cases hlevel : LogLevel.max ≤ (stringToUInt8 text).getD LogLevel.max
        · rw [if_pos hlevel] at h
          exact Or.inl (Except.ok.inj h).symm
        · rw [if_neg hlevel] at h
          obtain ⟨channelsName, -, h⟩ := bind_ok h
          obtain ⟨channels, -, h⟩ := bind_ok h
          refine Or.inr ⟨(stringToUInt8 text).getD LogLevel.max, UInt8.not_le.mp hlevel, ?_⟩
          cases hfound : channels.mapM
              (s.raise ((stringToUInt8 text).getD LogLevel.max)).getFormattingChannel with
          | some found =>
            rw [hfound] at h
            exact Or.inr ⟨loggerName, found, (Except.ok.inj h).symm⟩
          | none =>
            rw [hfound] at h
            exact Or.inl (Except.ok.inj h).symm

end Reading

/-! ### The highest level -/

/-- The level of every logger is a `LogLevel`, and not above the highest. -/
def State.Bounded (s : State) : Prop :=
  ∀ name logger, s.loggers.lookup name = some logger →
    ∃ level : LogLevel, logger.level = level.toNat ∧ level ≤ s.highestLogLevel

section Bounds

variable {config : Store} {s s' : State} {name : Str}

theorem bounded_of_empty (h : s.loggers = ∅) : s.Bounded := by
  intro name logger hlookup
  rw [h, AList.lookup_empty] at hlookup
  cases hlookup

theorem State.le_raise (s : State) (level : LogLevel) :
    s.highestLogLevel ≤ (s.raise level).highestLogLevel ∧
      level ≤ (s.raise level).highestLogLevel := by
  rw [State.raise]
  by_cases hlt : s.highestLogLevel < level
  · rw [if_pos hlt]
    exact ⟨UInt8.le_of_lt hlt, UInt8.le_refl _⟩
  · rw [if_neg hlt]
    exact ⟨UInt8.le_refl _, UInt8.not_lt.mp hlt⟩

theorem State.raise_loggers (s : State) (level : LogLevel) :
    (s.raise level).loggers = s.loggers := by
  rw [State.raise]
  by_cases hlt : s.highestLogLevel < level
  · rw [if_pos hlt]
  · rw [if_neg hlt]

theorem State.Bounded.raise (h : s.Bounded) (level : LogLevel) : (s.raise level).Bounded := by
  intro name logger hlookup
  rw [State.raise_loggers] at hlookup
  obtain ⟨level', hlevel, hle⟩ := h name logger hlookup
  exact ⟨level', hlevel, UInt8.le_trans hle (s.le_raise level).1⟩

theorem State.Bounded.create (h : s.Bounded) {level : LogLevel} (hle : level ≤ s.highestLogLevel)
    (name : Str) (channels : List FormattingChannel) :
    (s.create name channels level).Bounded := by
  intro other logger hlookup
  rw [State.create, lookup_insertNew, Option.or_eq_some_iff] at hlookup
  rcases hlookup with hold | ⟨-, hnew⟩
  · exact h other logger hold
  · split at hnew
    · cases hnew
      exact ⟨level, rfl, hle⟩
    · cases hnew

theorem State.Bounded.createLoggerFromConfig (h : s.Bounded)
    (hstep : s.createLoggerFromConfig config name = .ok s') : s'.Bounded := by
  rcases createLoggerFromConfig_cases hstep with
    rfl | ⟨level, -, rfl | ⟨logger, channels, rfl⟩⟩
  · exact h
  · exact h.raise level
  · exact (h.raise level).create (s.le_raise level).2 logger channels

/-- **After every configuration** no logger has a level above the highest, whatever was there
before. -/
theorem State.bounded_load (h : s.loadFromConfig config = .ok s') : s'.Bounded := by
  rw [State.loadFromConfig] at h
  obtain ⟨s₁, hchannels, h⟩ := bind_ok h
  obtain ⟨s₂, hloggers, h⟩ := bind_ok h
  have hempty : s₁.loggers = ∅ := by
    refine run_invariant (I := fun s : State => s.loggers = ∅) (fun s name t hs hstep => ?_) _ _ _
      ?_ hchannels
    · rw [(createChannelsFromConfig_spec hstep).2]
      exact hs
    · rw [State.initLogsDir_loggers]
      rfl
  have hbounded : s₂.Bounded :=
    run_invariant (fun _ _ _ hs hstep => hs.createLoggerFromConfig hstep) _ _ _
      (bounded_of_empty hempty) hloggers
  cases h
  exact hbounded

end Bounds

/-! ### The end of a configuration -/

section Returning

variable (config : Store) {s : State} {name : Str}

/-- Only three options, the last of them the pattern, can make `ABORT` end the program. -/
theorem readChannel_returns (logsDir : Str) {options : Str}
    (h : (options.splitOn 44).length ≠ 3) :
    ∃ channel, readChannel logsDir options = .ok channel := by
  have hlength : ¬ ((options.splitOn 44).length < 3 ∨ 9 < (options.splitOn 44).length) →
      ¬ (options.splitOn 44).length < 4 := by omega
  simp only [readChannel, tokenize_eq, getPositionOptions_eq, bind, Except.bind, parts, if_true]
  by_cases hempty : options = []
  · exact ⟨_, if_pos hempty⟩
  · by_cases hcount : (options.splitOn 44).length < 3 ∨ 9 < (options.splitOn 44).length
    · exact ⟨_, by rw [if_neg hempty, if_pos hcount]⟩
    · rw [if_neg hempty, if_neg hcount, if_neg (hlength hcount)]
      split
      · exact ⟨_, rfl⟩
      · split_ifs <;> exact ⟨_, rfl⟩

theorem createChannelsFromConfig_returns (hname : 11 ≤ name.length)
    (h : ((getOption config.options name []).splitOn 44).length ≠ 3) :
    ∃ s', s.createChannelsFromConfig config name = .ok s' := by
  obtain ⟨channel, hchannel⟩ := readChannel_returns s.logsDir h
  have hne : name ≠ [] := by
    rintro rfl
    cases hname
  rw [State.createChannelsFromConfig, if_neg hne, (StringView.substr_of_le hname 0).2, hchannel]
  cases channel with
  | none => exact ⟨_, rfl⟩
  | some channel => exact ⟨_, rfl⟩

theorem createLoggerFromConfig_returns (hname : 7 ≤ name.length) :
    ∃ s', s.createLoggerFromConfig config name = .ok s' := by
  have hne : name ≠ [] := by
    rintro rfl
    cases hname
  simp only [State.createLoggerFromConfig, if_neg hne, (StringView.substr_of_le hname 0).2,
    tokenize_eq, getPositionOptions_eq, bind, Except.bind]
  -- what is left are the channels that a logger names
  split_ifs <;> first | exact ⟨_, rfl⟩ | (split <;> exact ⟨_, rfl⟩)

theorem length_le_of_mem_keys {key : Str} (h : key ∈ config.getKeysByString name) :
    name.length ≤ key.length := by
  rw [Store.getKeysByString, List.mem_filter, List.isPrefixOf_iff_prefix] at h
  exact h.2.length_le

/-- **A configuration is read to its end**, whatever its loggers, unless `ABORT` is called for a
channel. -/
theorem loadFromConfig_returns (s : State)
    (h : ∀ name ∈ config.getKeysByString (ofString "LogChannel."),
      ((getOption config.options name []).splitOn 44).length ≠ 3) :
    ∃ s', s.loadFromConfig config = .ok s' := by
  have hchannel : (ofString "LogChannel.").length = 11 := by
    rw [ofString_eq]
    decide
  have hlogger : (ofString "Logger.").length = 7 := by
    rw [ofString_eq]
    decide
  obtain ⟨s₁, h₁⟩ := run_returns (config.getKeysByString (ofString "LogChannel."))
    (({ s with highestLogLevel := LogLevel.fatal } : State).clear.initLogsDir config)
    fun name hname _ => createChannelsFromConfig_returns config
      (hchannel ▸ length_le_of_mem_keys config hname) (h name hname)
  obtain ⟨s₂, h₂⟩ := run_returns (config.getKeysByString (ofString "Logger.")) s₁
    fun name hname _ => createLoggerFromConfig_returns config
      (hlogger ▸ length_le_of_mem_keys config hname)
  refine ⟨{ s₂ with channelStore := ∅ }, ?_⟩
  rw [State.loadFromConfig, State.readChannelsFromConfig, h₁]
  change (s₁.readLoggersFromConfig config >>= _) = _
  rw [State.readLoggersFromConfig, h₂]
  rfl

end Returning

/-! ### `ShouldLog` -/

/-- What `ShouldLog` is for: the logger of the type is there, it is not disabled, and its level is
at least that of the message. -/
def State.Wanted (s : State) (type : Str) (level : LogLevel) : Prop :=
  ∃ logger, getLoggerByType s.loggers type = some logger ∧ logger.level ≠ 0 ∧
    (level.toNat : Int) ≤ logger.level

/-- The level of a logger, as `ShouldLog` casts it back. -/
theorem ofInt_toNat (level : LogLevel) : UInt8.ofInt (level.toNat : Int) = level := by
  have hlt : level.toNat < 256 := level.toNat_lt
  apply UInt8.toNat_inj.mp
  rw [UInt8.ofInt, UInt8.toNat_ofNat']
  omega

theorem State.Bounded.shouldLog_iff {s : State} (h : s.Bounded) (type : Str) (level : LogLevel) :
    (s.shouldLog type level = true ↔ s.Wanted type level) ∧
      (s.highestLogLevel < level → ¬ s.Wanted type level) := by
  have hearly : s.highestLogLevel < level → ¬ s.Wanted type level := by
    rintro hlt ⟨logger, hlogger, -, hle⟩
    obtain ⟨name, hname⟩ := getLoggerByType_registered hlogger
    obtain ⟨level', hlevel, hhighest⟩ := h name logger hname
    rw [hlevel] at hle
    have hle' : level.toNat ≤ level'.toNat := by exact_mod_cast hle
    exact absurd (UInt8.le_trans (UInt8.le_iff_toNat_le.mpr hle') hhighest) (UInt8.not_le.mpr hlt)
  refine ⟨?_, hearly⟩
  rw [State.shouldLog]
  by_cases hlt : s.highestLogLevel < level
  · rw [if_pos hlt]
    exact iff_of_false Bool.false_ne_true (hearly hlt)
  · rw [if_neg hlt, State.Wanted]
    cases hlogger : getLoggerByType s.loggers type with
    | none =>
      refine iff_of_false Bool.false_ne_true ?_
      rintro ⟨logger, hsome, -⟩
      cases hsome
    | some logger =>
      obtain ⟨name, hname⟩ := getLoggerByType_registered hlogger
      obtain ⟨level', hlevel, -⟩ := h name logger hname
      have hzero : level' = LogLevel.disabled ↔ level'.toNat = 0 := by
        rw [← UInt8.toNat_inj]
        rfl
      simp [hlevel, ofInt_toNat, UInt8.le_iff_toNat_le, hzero]

/-- **The highest level hides no message.**  After any configurations, one after the other, a
message is logged if and only if its logger wants it. -/
theorem shouldLog_spec (s₀ : State) (loads : List Store) (config : Store) {s : State}
    (h : run State.loadFromConfig s₀ (loads ++ [config]) = .ok s) (type : Str)
    (level : LogLevel) :
    (s.shouldLog type level = true ↔ s.Wanted type level) ∧
      (s.highestLogLevel < level → ¬ s.Wanted type level) := by
  obtain ⟨t, -, hlast⟩ := run_append_ok h
  obtain ⟨u, hload, hend⟩ := run_cons_ok hlast
  cases hend
  exact (State.bounded_load hload).shouldLog_iff type level

/-- `Logger.root = 6,`. -/
def rootStore : Store where
  options := AList.singleton (ofString "Logger.root") (ofString "6,")
  order := [ofString "Logger.root"]
  order_perm := List.Perm.refl _

theorem shouldLog_spec_root :
    ∃ s, run State.loadFromConfig ⟨[], 0, ∅, ∅⟩ ([] ++ [rootStore]) = .ok s ∧
      ((s.shouldLog (ofString "server") 6 = true ↔ s.Wanted (ofString "server") 6) ∧
        (s.highestLogLevel < 6 → ¬ s.Wanted (ofString "server") 6)) := by
  have hnone : rootStore.getKeysByString (ofString "LogChannel.") = [] := by
    simp only [Store.getKeysByString, rootStore, ofString_eq]
    decide
  obtain ⟨s, hs⟩ := loadFromConfig_returns rootStore ⟨[], 0, ∅, ∅⟩ (by simp [hnone])
  have hrun : run State.loadFromConfig ⟨[], 0, ∅, ∅⟩ ([] ++ [rootStore]) = .ok s := by
    rw [List.nil_append, run_cons_of_ok hs, run]
  exact ⟨s, hrun, shouldLog_spec ⟨[], 0, ∅, ∅⟩ [] rootStore hrun _ _⟩

end WarheadDiscord.Log

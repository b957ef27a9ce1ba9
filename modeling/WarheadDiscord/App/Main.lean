import WarheadDiscord.Client.DiscordConfig
import WarheadDiscord.Client.EndToEnd
import WarheadDiscord.Common.ConfigLayers
import WarheadDiscord.Common.LogConfig

/-!
# `main`

From the command line and the two files to the first bytes on the wire.

* `parseArguments`: the path of the configuration.
* `readConfig_after`: the client's options, in whatever order and however often they are read.
* `main_spec`: **what the program does with a configuration**: when it gives up at once, when it
  fails at its end, to which endpoint it connects, and what it says first there.
-/

namespace WarheadDiscord.App

open Lib

open Config (Str Options ConfigMgr Platform ofString distOptions confOptions nameCount layered)

open OptionCache (Floats Call cacheAfter boolFromString)

/-! ### The options of the client -/

section Options

variable {φ : Type}

/-- `uint16` and `int64`. -/
abbrev portType : OptionCache.IntType := ⟨false, .w16⟩

abbrev idType : OptionCache.IntType := ⟨true, .w64⟩

/-- The calls of `GetOption` in `Initialize`, in the connect continuation and in the constructor
of `ClientSocket`. -/
def enableCall : Call φ := ⟨ofString "Discord.Server.Enable", .bool, none⟩

def hostCall : Call φ := ⟨ofString "Discord.Server.Host", .string, none⟩

def portCall : Call φ := ⟨ofString "Discord.Server.Port", .int portType, none⟩

def nameCall : Call φ := ⟨ofString "Discord.Server.Account.Name", .string, none⟩

def keyCall : Call φ := ⟨ofString "Discord.Server.Account.Key", .string, none⟩

def idCall : Call φ := ⟨ofString "Discord.Server.ID", .int idType, none⟩

def clientCalls : List (Call φ) := [enableCall, hostCall, portCall, nameCall, keyCall, idCall]

/-- What the calls give. -/
def readConfig (F : Floats φ) (configOptions cache : Options) : DiscordConfig where
  serverEnable := (enableCall (φ := φ)).result F configOptions cache
  serverHost := (hostCall (φ := φ)).result F configOptions cache
  serverPort := UInt16.ofNat ((portCall (φ := φ)).result F configOptions cache).val.toNat
  accountName := (nameCall (φ := φ)).result F configOptions cache
  accountKey := (keyCall (φ := φ)).result F configOptions cache
  serverID := Int64.ofInt ((idCall (φ := φ)).result F configOptions cache).val

/-- What the texts of the options mean. -/
def configOf (text : Str → Option Str) : DiscordConfig where
  serverEnable := ((text (ofString "Discord.Server.Enable")).bind boolFromString).getD false
  serverHost := (text (ofString "Discord.Server.Host")).getD []
  serverPort := UInt16.ofNat
    (((text (ofString "Discord.Server.Port")).bind portType.fromChars).elim 0 (·.val)).toNat
  accountName := (text (ofString "Discord.Server.Account.Name")).getD []
  accountKey := (text (ofString "Discord.Server.Account.Key")).getD []
  serverID := Int64.ofInt
    (((text (ofString "Discord.Server.ID")).bind idType.fromChars).elim 0 (·.val))

variable (F : Floats φ) (configOptions : Options)

/-- A call without a default gives the same after any calls that are itself or have another
name. -/
theorem result_after {c : Call φ} (hc : c.dflt = none) (ht : c.type ≠ .float)
    {calls : List (Call φ)} (hcalls : ∀ d ∈ calls, d.name = c.name → d = c) :
    c.result F configOptions (cacheAfter F configOptions ∅ calls) =
      ((configOptions.lookup c.name).bind (OptionCache.stringTo F c.type)).getD
        (OptionCache.getDefaultValue F c.type) := by
  have hown : OptionCache.stringTo F c.type (c.defaultText F) =
      some (OptionCache.getDefaultValue F c.type) := by
    rw [Call.defaultText, hc]
    exact OptionCache.stringTo_format F ht _
  have hfirst : (OptionCache.firstDefault F calls c.name).getD (c.defaultText F) =
      c.defaultText F := by
    rw [OptionCache.firstDefault]
    cases hfind : calls.find? fun d => d.name = c.name with
    | none => rfl
    | some d =>
      have hname : d.name = c.name := by simpa using List.find?_some hfind
      rw [hcalls d (List.mem_of_find?_eq_some hfind) hname]
      rfl
  rw [(OptionCache.getOption_after F configOptions ∅ calls c).1, hfirst, AList.lookup_empty,
    Option.none_or, Call.read]
  cases configOptions.lookup c.name with
  | none => rw [Option.getD_none, hown]; rfl
  | some text => rfl

theorem clientCalls_name : ((clientCalls (φ := φ)).map Call.name).Nodup := by
  simp only [clientCalls, enableCall, hostCall, portCall, nameCall, keyCall, idCall,
    Config.ofString_eq, List.map_cons, List.map_nil]
  decide

/-- **The options of the client do not depend on when they are read**: however often and in
whatever order the client has read them, they are what the texts mean. -/
theorem readConfig_after {calls : List (Call φ)} (h : ∀ d ∈ calls, d ∈ clientCalls) :
    readConfig F configOptions (cacheAfter F configOptions ∅ calls) =
      configOf configOptions.lookup := by
  have hresult : ∀ c ∈ clientCalls (φ := φ), c.dflt = none → c.type ≠ .float →
      c.result F configOptions (cacheAfter F configOptions ∅ calls) =
        ((configOptions.lookup c.name).bind (OptionCache.stringTo F c.type)).getD
          (OptionCache.getDefaultValue F c.type) := fun c hc hd ht =>
    result_after F configOptions hd ht fun d hd hname =>
      List.inj_on_of_nodup_map clientCalls_name (h d hd) hc hname
  have hint : ∀ (t : OptionCache.IntType) (v : Option t.Val),
      (v.getD ⟨0, t.zero_mem⟩).val = v.elim 0 (·.val) := by
    intro t v
    cases v <;> rfl
  rw [readConfig, configOf, hresult enableCall (by simp [clientCalls]) rfl (by simp [enableCall]),
    hresult hostCall (by simp [clientCalls]) rfl (by simp [hostCall]),
    hresult portCall (by simp [clientCalls]) rfl (by simp [portCall]),
    hresult nameCall (by simp [clientCalls]) rfl (by simp [nameCall]),
    hresult keyCall (by simp [clientCalls]) rfl (by simp [keyCall]),
    hresult idCall (by simp [clientCalls]) rfl (by simp [idCall])]
  have htext : ∀ v : Option Str, ((v.bind some).getD [] : Str) = v.getD [] := by
    intro v
    cases v <;> rfl
  congr 1
  · exact htext _
  · exact congrArg (fun n : Int => UInt16.ofNat n.toNat) (hint portType _)
  · exact htext _
  · exact htext _
  · exact congrArg Int64.ofInt (hint idType _)

end Options

/-! ### The program -/

/-- The loop over the arguments.  `none` is the `-c` that has none. -/
def parseArguments (configFile : Str) : List Str → Option Str
  | [] => some configFile
  | arg :: rest =>
    if arg = ofString "-c" then
      match rest with
      | [] => none
      | file :: rest => parseArguments file rest
    else parseArguments configFile rest

/-- What the build fixes. -/
structure Build where
  /-- `_CONF_DIR`. -/
  confDir : Str
  revision : GitRevision

/-- `ConfigMgr::GetConfigPath`, but on Windows. -/
def Build.getConfigPath (b : Build) : Str := b.confDir ++ ofString "/"

/-- The path that the arguments behind the name of the program give. -/
def configFile (b : Build) (argv : List Str) : Option Str :=
  parseArguments (b.getConfigPath ++ ofString "WarheadDiscordClient.conf") (argv.drop 1)

/-- What the process finds around it. -/
structure World where
  platform : Platform
  /-- The order in which the hash map of the options is gone through. -/
  order : Options → List Str
  order_perm : ∀ options, (order options).Perm options.keys
  clock : Nat → Int64
  resolve : List UInt8 → Option IpAddress

def World.store (w : World) (options : Options) : Log.Store where
  options := options
  order := w.order options
  order_perm := w.order_perm options

/-- What may happen while `ioContext->run()` runs: the handlers of the timer and of the sockets,
and other threads that give packets. -/
def IsWork : ClientSocketMgr.Act → Prop
  | .timerExpires | .runHandler .. | .socketEvent .. | .addPacketToQueue _ => True
  | _ => False

/-- `main`: what it returns, and the manager at the end.  `work` is what happens in
`ioContext->run()`, and `Disconnect` is called as the handle is destroyed. -/
def main {φ : Type} (F : Floats φ) (b : Build) (w : World) (e : Endian) (argv : List Str)
    (work : List ClientSocketMgr.Act) : Except Fault (Nat × ClientSocketMgr) :=
  match configFile b argv with
  | none => .ok (1, .new)
  | some file =>
    let (loaded, config) := Config.loadAppConfigs w.platform {} file
    if !loaded then .ok (1, .new)
    else do
      let _ ← (⟨[], 0, ∅, ∅⟩ : Log.State).loadFromConfig (w.store config.configOptions)
      let env : Env := ⟨readConfig F config.configOptions ∅, b.revision, w.clock⟩
      let mgr ← ClientSocketMgr.new.initializeMgr env w.resolve
      let mgr ← run (ClientSocketMgr.step env e) mgr work
      let mgr ← mgr.disconnect
      return (0, mgr)

end WarheadDiscord.App

/-! ### What the manager does in `run()` -/

namespace WarheadDiscord.ClientSocketMgr

open Lib

variable {env : Env} {e : Endian} {m t : ClientSocketMgr} {address : Option IpAddress}

/-- Nothing is outstanding. -/
structure Bare (m : ClientSocketMgr) : Prop where
  clientSocket : m.clientSocket = none
  ready : m.ready = []
  retired : m.retired = []
  connects : m.connects = []
  waiting : ∀ timer ∈ m.updateTimer, timer.waiting = []

theorem Bare.step (env : Env) (e : Endian) (hm : m.Bare) {a : Act} (ha : App.IsWork a) :
    ∃ t, m.step env e a = .ok t ∧ t.Bare ∧ t.updateTimer = m.updateTimer := by
  cases a with
  | timerExpires =>
    refine ⟨_, rfl, ?_⟩
    rw [timerExpires]
    split
    · exact ⟨hm, rfl⟩
    · rename_i timer ht
      have hnil := hm.waiting timer ht
      refine ⟨⟨hm.clientSocket, by rw [hm.ready, hnil]; rfl, hm.retired, hm.connects, ?_⟩, ?_⟩
      · intro other hother
        cases hother
        rfl
      · obtain ⟨waiting⟩ := timer
        cases hnil
        exact ht.symm
  | runHandler i clock tick connected =>
    refine ⟨m, ?_, hm, rfl⟩
    rw [ClientSocketMgr.step, hm.ready]
    rfl
  | socketEvent which clock event =>
    refine ⟨m, ?_, hm, rfl⟩
    rw [ClientSocketMgr.step, socketEvent]
    have hnone : m.socket? which = none := by
      cases which with
      | none => exact hm.clientSocket
      | some k => rw [socket?, hm.retired]; rfl
    rw [hnone]
  | addPacketToQueue p =>
    exact ⟨_, rfl, ⟨hm.clientSocket, hm.ready, hm.retired, hm.connects, hm.waiting⟩, rfl⟩
  | _ => cases ha

theorem Bare.run (env : Env) (e : Endian) : ∀ (work : List Act) (m : ClientSocketMgr), m.Bare →
    (∀ a ∈ work, App.IsWork a) →
    ∃ t, Lib.run (ClientSocketMgr.step env e) m work = .ok t ∧ t.Bare ∧
      t.updateTimer = m.updateTimer := by
  intro work
  induction work with
  | nil => exact fun m hm _ => ⟨m, rfl, hm, rfl⟩
  | cons a work ih =>
    intro m hm h
    obtain ⟨t, ht, hbare, htimer⟩ := hm.step env e (h a List.mem_cons_self)
    obtain ⟨u, hu, hubare, hutimer⟩ := ih t hbare fun a ha => h a (List.mem_cons_of_mem _ ha)
    exact ⟨u, by rw [run_cons_of_ok ht]; exact hu, hubare, hutimer.trans htimer⟩

/-- Every connection that was tried goes to the one endpoint. -/
def Aims (address : IpAddress) (port : UInt16) (m : ClientSocketMgr) : Prop :=
  m.address = some address ∧ ∀ endpoint ∈ m.connects, endpoint = ⟨address, port⟩

theorem Aims.of_eq {a : IpAddress} {port : UInt16} (hm : Aims a port m)
    (haddress : t.address = m.address) (hconnects : t.connects = m.connects) : Aims a port t :=
  ⟨haddress.trans hm.1, by rw [hconnects]; exact hm.2⟩

theorem Aims.disconnect {a : IpAddress} {port : UInt16} (hm : Aims a port m)
    (h : m.disconnect = .ok t) : Aims a port t := by
  obtain ⟨timer, -, rfl⟩ := disconnect_ok h
  exact hm.of_eq rfl rfl

theorem Aims.startSocket {a : IpAddress} {port : UInt16} (hm : Aims a port m)
    (h : m.startSocket env = .ok t) : Aims a port t := by
  obtain ⟨m₁, c, timer, h₁, -, -, rfl⟩ := startSocket_ok h
  rcases h₁ with rfl | hd
  · exact hm.of_eq rfl rfl
  · exact (hm.disconnect hd).of_eq rfl rfl

theorem Aims.connectLoop {a : IpAddress} : ∀ (n : Nat) (connected : Nat → Bool)
    (m : ClientSocketMgr), Aims a env.config.serverPort m →
      connectLoop env a connected n m = .ok t → Aims a env.config.serverPort t := by
  intro n
  induction n with
  | zero => exact fun _ m hm h => hm.disconnect h
  | succ n ih =>
    intro connected m hm h
    obtain ⟨timer, -, h⟩ := bind_ok h
    have hnext : Aims a env.config.serverPort
        { m with connects := m.connects ++ [⟨a, env.config.serverPort⟩] } := by
      refine ⟨hm.1, fun endpoint hmem => ?_⟩
      rcases List.mem_append.mp hmem with hmem | hmem
      · exact hm.2 endpoint hmem
      · exact List.mem_singleton.mp hmem
    dsimp only at h
    split at h
    · exact hnext.startSocket h
    · exact ih _ _ hnext h

theorem Aims.connect {a : IpAddress} {port : UInt16} (hport : env.config.serverPort = port)
    (hm : Aims a port m) {connected : Nat → Bool} {n : UInt32}
    (h : m.connect env connected n = .ok t) : Aims a port t := by
  subst hport
  rw [ClientSocketMgr.connect] at h
  split at h
  · cases h
    exact hm
  · split at h
    · cases h
      exact hm
    · rename_i address haddress
      cases Option.some.inj (hm.1.symm.trans haddress)
      exact hm.connectLoop _ _ _ h

theorem Aims.update {a : IpAddress} {port : UInt16} (hm : Aims a port m) {tick : Tick}
    (h : m.update tick = .ok t) : Aims a port t := by
  rcases update_cases h with ⟨-, rfl⟩ | ⟨-, timer, -, ⟨-, rfl⟩ | ⟨c, -, -, rfl⟩ |
    ⟨c, arrived, -, -, rfl⟩⟩
  · exact hm
  all_goals exact hm.of_eq rfl rfl

/-- **A step of the work connects to no other endpoint.** -/
theorem Aims.step {a : IpAddress} (hm : Aims a env.config.serverPort m) {act : Act}
    (ha : App.IsWork act) (h : m.step env e act = .ok t) : Aims a env.config.serverPort t := by
  cases act with
  | timerExpires =>
    cases h
    rw [timerExpires]
    split
    · exact hm
    · exact hm.of_eq rfl rfl
  | runHandler i clock tick connected =>
    rw [ClientSocketMgr.step] at h
    split at h
    · cases h
      exact hm
    · rename_i handler hi
      have herase : Aims a env.config.serverPort { m with ready := m.ready.eraseIdx i } :=
        hm.of_eq rfl rfl
      cases handler with
      | update => exact herase.update h
      | connect n =>
        refine Aims.connect ?_ herase h
        rfl
  | socketEvent which clock event =>
    rcases socketEvent_cases h with ⟨-, rfl⟩ | ⟨c, d, -, -, hd | rfl⟩
    · exact hm
    · refine Aims.disconnect ?_ hd
      cases which <;> exact hm.of_eq rfl rfl
    · cases which <;> exact hm.of_eq rfl rfl
  | addPacketToQueue p =>
    cases h
    exact hm.of_eq rfl rfl
  | _ => cases ha

theorem Aims.run {a : IpAddress} {work : List Act} (hm : Aims a env.config.serverPort m)
    (ha : ∀ act ∈ work, App.IsWork act) (h : Lib.run (ClientSocketMgr.step env e) m work = .ok t) :
    Aims a env.config.serverPort t := by
  induction work generalizing m with
  | nil => cases h; exact hm
  | cons act work ih =>
    obtain ⟨u, hu, hr⟩ := run_cons_ok h
    exact ih (hm.step (ha act List.mem_cons_self) hu)
      (fun x hx => ha x (List.mem_cons_of_mem _ hx)) hr

end WarheadDiscord.ClientSocketMgr

/-! ### What a socket says first -/

namespace WarheadDiscord

open Lib

/-- The configuration with which a session starts. -/
def DiscordConfig.Complete (config : DiscordConfig) : Prop :=
  config.serverID ≠ 0 ∧ config.accountName ≠ [] ∧ config.accountKey ≠ []

instance (config : DiscordConfig) : Decidable config.Complete :=
  inferInstanceAs (Decidable (_ ∧ _))

/-- The frame of the login that a configuration stands for. -/
def DiscordConfig.login (config : DiscordConfig) (revision : GitRevision) : Frame :=
  ⟨DiscordCode.clientAuthSession.value,
    config.accountName ++ [0] ++ (config.accountKey ++ [0]) ++ (revision.companyNameStr ++ [0]) ++
      (revision.fileVersionStr ++ [0]) ++ toLE 4 warheadDiscordVersion.toNat ++
      toLE 8 config.serverID.toUInt64.toNat⟩

namespace ClientSocket

variable {env : Env} {e : Endian}

theorem new_login (env : Env) : ((ClientSession.new env).authPacket env).frame =
    env.config.login env.revision := by
  have hnew : (ClientSession.new env).accountName = env.config.accountName ∧
      (ClientSession.new env).accountKey = env.config.accountKey ∧
      (ClientSession.new env).serverID = env.config.serverID := by
    rw [ClientSession.new]
    dsimp only
    split_ifs <;> exact ⟨rfl, rfl, rfl⟩
  change (⟨_, ClientSession.authSessionContent env (ClientSession.new env)⟩ : Frame) = _
  rw [ClientSession.authSessionContent, hnew.1, hnew.2.1, hnew.2.2]
  rfl

/-- **With an incomplete configuration the sockets are silent.** -/
theorem silence_kept (env : Env) (e : Endian) (hconfig : ¬ env.config.Complete) :
    ClientSocketMgr.KeptBy env e fun c =>
      Inv e c ∧ c.session.written = [] ∧ c.session.socket.closed = true where
  inv h := h.1
  start clock c h := by
    obtain ⟨hopen, -, hclosing, -, -, -, -, hw⟩ := begin_spec h
    have ho : c.session.isOpen = false := by
      rw [hopen, ← Bool.not_eq_true, new_isOpen_iff]
      exact hconfig
    rw [ho, if_neg (by decide)] at hw
    rw [ClientSession.isOpen, Socket.isOpen, hclosing] at ho
    exact ⟨begin_inv h, hw, by simpa using ho⟩
  step clock c d a hc _ hd := by
    obtain ⟨sent, hw, -, hnil⟩ := (step_adds hc.1 hd).written
    refine ⟨step_inv hc.1 hd, ?_, (step_adds hc.1 hd).closed hc.2.2⟩
    rw [hw, hc.2.1, hnil hc.2.2]
    rfl
  unflag h := ⟨h.1.unflag, h.2⟩

end ClientSocket

end WarheadDiscord

/-! ### What the program does -/

namespace WarheadDiscord.App

open Lib

open Config (Str Options ConfigMgr Platform ofString distOptions confOptions nameCount layered)

open OptionCache (Floats Call cacheAfter boolFromString)

/-- The text of an option, as the two files say it. -/
def optionText (p : Platform) (file : Str) (name : Str) : Option Str :=
  if nameCount (confOptions p file) % 2 ^ 32 = 0 then (distOptions p file).lookup name
  else layered (distOptions p file) (confOptions p file) name

/-- What a manager has done with a configuration and an address. -/
structure Talked (config : DiscordConfig) (revision : GitRevision) (address : IpAddress)
    (m : ClientSocketMgr) : Prop where
  endpoint : ∀ endpoint ∈ m.connects, endpoint = ⟨address, config.serverPort⟩
  /-- What a peer was sent are the first bytes of frames that begin with the login. -/
  login : ∀ c ∈ m.holdings.sockets, c.session.socket.sent ≠ [] →
    c.frames.head? = some (config.login revision) ∧
      c.session.socket.sent <+: c.frames.flatMap Frame.wire
  /-- Without an account or an identifier nothing is sent. -/
  silent : ¬ config.Complete → ∀ c ∈ m.holdings.sockets, c.session.socket.sent = []

section Main

variable {φ : Type} (F : Floats φ) (b : Build) (w : World) (e : Endian)

/-- The part of `main` behind the configuration. -/
def runClient (config : DiscordConfig) (work : List ClientSocketMgr.Act) :
    Except Fault (Nat × ClientSocketMgr) := do
  let env : Env := ⟨config, b.revision, w.clock⟩
  let mgr ← ClientSocketMgr.new.initializeMgr env w.resolve
  let mgr ← run (ClientSocketMgr.step env e) mgr work
  let mgr ← mgr.disconnect
  return (0, mgr)

theorem bare_new : ClientSocketMgr.new.Bare := ⟨rfl, rfl, rfl, rfl, fun _ h => by cases h⟩

/-- **A client that is switched off** fails at its end: `Disconnect` has no timer to cancel. -/
theorem runClient_disabled {config : DiscordConfig} {work : List ClientSocketMgr.Act}
    (hwork : ∀ a ∈ work, IsWork a) (hoff : config.serverEnable = false) :
    runClient b w e config work = .error (.nullPointer "_updateTimer") := by
  obtain ⟨m, hm, -, htimer⟩ := ClientSocketMgr.Bare.run ⟨config, b.revision, w.clock⟩ e work _
    bare_new hwork
  have hinit : ClientSocketMgr.new.initializeMgr ⟨config, b.revision, w.clock⟩ w.resolve =
      .ok .new := by
    rw [ClientSocketMgr.initializeMgr, hoff]
    rfl
  rw [runClient, hinit, ok_bind, hm, ok_bind, ClientSocketMgr.disconnect, ClientSocketMgr.cancel,
    ClientSocketMgr.timer]
  dsimp only
  rw [htimer]
  rfl

/-- **A host that is not found** ends the program without a connection. -/
theorem runClient_unresolved {config : DiscordConfig} {work : List ClientSocketMgr.Act}
    (hwork : ∀ a ∈ work, IsWork a) (hon : config.serverEnable = true)
    (hhost : w.resolve config.serverHost = none) : ∃ m, runClient b w e config work = .ok (0, m) ∧
      m.connects = [] ∧ m.holdings.sockets = [] := by
  have hinit : ClientSocketMgr.new.initializeMgr ⟨config, b.revision, w.clock⟩ w.resolve =
      .ok { ClientSocketMgr.new with updateTimer := some ⟨[]⟩ } := by
    rw [ClientSocketMgr.initializeMgr, hon]
    dsimp only
    rw [hhost]
    rfl
  have hbare : ({ ClientSocketMgr.new with updateTimer := some ⟨[]⟩ } : ClientSocketMgr).Bare :=
    ⟨rfl, rfl, rfl, rfl, fun timer h => by cases h; rfl⟩
  obtain ⟨m, hm, hmbare, htimer⟩ := ClientSocketMgr.Bare.run ⟨config, b.revision, w.clock⟩ e work _
    hbare hwork
  have hdisconnect : ∃ t, m.disconnect = .ok t := by
    rw [ClientSocketMgr.disconnect, ClientSocketMgr.cancel, ClientSocketMgr.timer]
    dsimp only
    rw [htimer]
    exact ⟨_, rfl⟩
  obtain ⟨t, ht⟩ := hdisconnect
  refine ⟨t, by rw [runClient, hinit, ok_bind, hm, ok_bind, ht]; rfl, ?_⟩
  obtain ⟨timer, -, rfl⟩ := ClientSocketMgr.disconnect_ok ht
  rw [hmbare.clientSocket, hmbare.retired]
  exact ⟨hmbare.connects, rfl⟩

theorem runClient_ok {config : DiscordConfig} {work : List ClientSocketMgr.Act} {r : Nat}
    {m : ClientSocketMgr} (h : runClient b w e config work = .ok (r, m)) : r = 0 ∧
      ∃ m₁ m₂, ClientSocketMgr.new.initializeMgr ⟨config, b.revision, w.clock⟩ w.resolve = .ok m₁ ∧
        run (ClientSocketMgr.step ⟨config, b.revision, w.clock⟩ e) m₁ work = .ok m₂ ∧
        m₂.disconnect = .ok m ∧
        run (ClientSocketMgr.step ⟨config, b.revision, w.clock⟩ e) .new
          (.initializeMgr w.resolve :: (work ++ [.disconnect])) = .ok m := by
  obtain ⟨m₁, h₁, h⟩ := bind_ok h
  obtain ⟨m₂, h₂, h⟩ := bind_ok h
  obtain ⟨m₃, h₃, h⟩ := bind_ok h
  cases h
  refine ⟨rfl, m₁, m₂, h₁, h₂, h₃, ?_⟩
  rw [run_cons_of_ok (a := ClientSocketMgr.Act.initializeMgr w.resolve) h₁, run_append_of_ok h₂,
    run_cons_of_ok (a := ClientSocketMgr.Act.disconnect) h₃]
  rfl

theorem runClient_talks {config : DiscordConfig} {work : List ClientSocketMgr.Act} {r : Nat}
    {m : ClientSocketMgr} (hwork : ∀ a ∈ work, IsWork a ∧ a.Admissible)
    (hon : config.serverEnable = true) {address : IpAddress}
    (hhost : w.resolve config.serverHost = some address)
    (h : runClient b w e config work = .ok (r, m)) : r = 0 ∧ Talked config b.revision address m := by
  obtain ⟨hr, m₁, m₂, h₁, h₂, h₃, hrun⟩ := runClient_ok b w e h
  have haims : ClientSocketMgr.Aims address config.serverPort m₁ := by
    rcases ClientSocketMgr.initializeMgr_cases h₁ with ⟨hoff, -⟩ | ⟨-, m', rfl, ⟨hnone, -⟩ |
      ⟨address', haddress, rfl⟩⟩
    · exact absurd (hoff.symm.trans hon) Bool.false_ne_true
    · cases hnone.symm.trans hhost
    · cases haddress.symm.trans hhost
      exact ⟨rfl, fun _ h => absurd h List.not_mem_nil⟩
  have hadmissible : ∀ a ∈ ClientSocketMgr.Act.initializeMgr w.resolve ::
      (work ++ [ClientSocketMgr.Act.disconnect]), a.Admissible := by
    intro a ha
    rcases List.mem_cons.mp ha with rfl | ha
    · trivial
    · rcases List.mem_append.mp ha with ha | ha
      · exact (hwork a ha).2
      · rw [List.mem_singleton.mp ha]
        trivial
  have hsent : ∀ c ∈ m.holdings.sockets,
      c.session.socket.sent <+: c.frames.flatMap Frame.wire := fun c hc =>
    ClientSocketMgr.sent_prefix_frames hrun hadmissible hc
  refine ⟨hr, (((haims.run (fun a ha => (hwork a ha).1) h₂).disconnect h₃)).2, ?_, ?_⟩
  · intro c hc hne
    refine ⟨?_, hsent c hc⟩
    obtain ⟨-, hs⟩ := (ClientSocket.session_kept _ e).run_all _ .new m
      (fun _ hx => absurd hx List.not_mem_nil) hadmissible hrun c hc
    rcases hs with ⟨hnil, -⟩ | ⟨rest, hrest, -⟩
    · have hpre := hsent c hc
      rw [ClientSocket.frames, hnil] at hpre
      exact absurd (List.prefix_nil.mp hpre) hne
    · rw [ClientSocket.frames, hrest]
      exact congrArg some (ClientSocket.new_login _)
  · intro hconfig c hc
    obtain ⟨-, hnil, -⟩ := (ClientSocket.silence_kept ⟨config, b.revision, w.clock⟩ e
      hconfig).run_all _ .new m (fun _ hx => absurd hx List.not_mem_nil) hadmissible hrun c hc
    have hpre := hsent c hc
    rw [ClientSocket.frames, hnil] at hpre
    exact List.prefix_nil.mp hpre

theorem main_of_path {argv : List Str} (work : List ClientSocketMgr.Act) {file : Str}
    (hfile : configFile b argv = some file) (hplain : Config.Plain file) :
    main F b w e argv work =
      if nameCount (distOptions w.platform file) % 2 ^ 32 = 0 then .ok (1, .new)
      else (⟨[], 0, ∅, ∅⟩ : Log.State).loadFromConfig
          (w.store (Config.loadAppConfigs w.platform {} file).2.configOptions) >>= fun _ =>
        runClient b w e (configOf (optionText w.platform file)) work := by
  have hloaded := Config.loadAppConfigs_loaded (p := w.platform) (c := {}) hplain
  rw [main, hfile]
  dsimp only
  by_cases hdist : nameCount (distOptions w.platform file) % 2 ^ 32 = 0
  · have hfalse : (Config.loadAppConfigs w.platform {} file).1 = false := by
      rw [← Bool.not_eq_true, hloaded]
      exact fun h => h hdist
    rw [if_pos hdist, hfalse]
    rfl
  · have hlookup : (Config.loadAppConfigs w.platform {} file).2.configOptions.lookup =
        optionText w.platform file :=
      funext fun k => Config.loadAppConfigs_lookup hplain hdist k
    have hfirst : ∀ c ∈ ([] : List (Call φ)), c ∈ clientCalls := fun _ h => absurd h List.not_mem_nil
    have hconfig := readConfig_after F (Config.loadAppConfigs w.platform {} file).2.configOptions
      hfirst
    rw [if_neg hdist, hloaded.mpr hdist, ← hlookup, ← hconfig]
    rfl

/-- **What the program does.**  Without the argument of a `-c` and without an option in the
`.dist` file it gives up.  A channel of the log for a file without a name ends it.  A client that
is switched off fails at its end.  Else, whatever happens while it runs, if only no write fails,
all its connections go to the host and the port of the options, and on each of them the login with
the account of the options is what is sent first; without an account nothing is sent. -/
theorem main_spec (argv : List Str) (work : List ClientSocketMgr.Act)
    (hwork : ∀ a ∈ work, IsWork a ∧ a.Admissible) :
    (configFile b argv = none → main F b w e argv work = .ok (1, .new)) ∧
    ∀ file, configFile b argv = some file → Config.Plain file →
      (nameCount (distOptions w.platform file) % 2 ^ 32 = 0 →
        main F b w e argv work = .ok (1, .new)) ∧
      (nameCount (distOptions w.platform file) % 2 ^ 32 ≠ 0 →
        ((∃ name, Log.Aborts ((optionText w.platform file (Log.prefixChannel ++ name)).getD [])) →
          ∀ r, main F b w e argv work ≠ .ok r) ∧
        ((∀ name, ¬ Log.Aborts
            ((optionText w.platform file (Log.prefixChannel ++ name)).getD [])) →
          ((configOf (optionText w.platform file)).serverEnable = false →
            main F b w e argv work = .error (.nullPointer "_updateTimer")) ∧
          ((configOf (optionText w.platform file)).serverEnable = true →
            (w.resolve (configOf (optionText w.platform file)).serverHost = none →
              ∃ m, main F b w e argv work = .ok (0, m) ∧ m.connects = [] ∧
                m.holdings.sockets = []) ∧
            ∀ address, w.resolve (configOf (optionText w.platform file)).serverHost =
                some address →
              ∀ r m, main F b w e argv work = .ok (r, m) → r = 0 ∧
                Talked (configOf (optionText w.platform file)) b.revision address m))) := by
  constructor
  · intro hnone
    rw [main, hnone]
  intro file hfile hplain
  have hmain := main_of_path F b w e work hfile hplain
  constructor
  · intro hzero
    rw [hmain, if_pos hzero]
  intro hdist
  rw [if_neg hdist] at hmain
  have hoption : ∀ name, Log.channelOption
      (w.store (Config.loadAppConfigs w.platform {} file).2.configOptions).options name =
        (optionText w.platform file (Log.prefixChannel ++ name)).getD [] := by
    intro name
    rw [Log.channelOption, OptionCache.config_getOption]
    exact congrArg (Option.getD · []) (Config.loadAppConfigs_lookup hplain hdist _)
  have hlog := (Log.loadFromConfig_means ⟨[], 0, ∅, ∅⟩
    (w.store (Config.loadAppConfigs w.platform {} file).2.configOptions)).1
  simp only [hoption] at hlog
  constructor
  · rintro ⟨name, hname⟩ r hr
    rw [hmain] at hr
    obtain ⟨s, hs, -⟩ := bind_ok hr
    exact hlog.mp ⟨s, hs⟩ name hname
  · intro hnot
    obtain ⟨s, hs⟩ := hlog.mpr hnot
    rw [hs, ok_bind] at hmain
    rw [hmain]
    exact ⟨runClient_disabled b w e fun a ha => (hwork a ha).1, fun hon =>
      ⟨runClient_unresolved b w e (fun a ha => (hwork a ha).1) hon, fun address haddress r m h =>
        runClient_talks b w e hwork hon haddress h⟩⟩

/-- A server that is found under any name, and an account. -/
def smallWorld : World where
  platform := Config.twoFiles [119]
    (ofString "Discord.Server.Enable = 1\nDiscord.Server.Host = h\nDiscord.Server.Port = 70000\n" ++
      ofString "Discord.Server.Account.Name = \"a\"\nDiscord.Server.Account.Key = k\n" ++
      ofString "Discord.Server.ID = 7")
    (ofString "Discord.Server.Port = 3724\n")
  order options := options.keys
  order_perm _ := .refl _
  clock := Int64.ofNat
  resolve _ := some 0x7F000001

def smallBuild : Build := ⟨ofString "/etc", Env.sample.revision⟩

/-- The first connection, and one tick. -/
def firstTick : List ClientSocketMgr.Act := [.timerExpires, .runNext, .timerExpires, .runNext]

/-- One connection to the port of the second file, and the login that is sent there. -/
theorem main_spec_login : ∃ m, main OptionCache.noFloats smallBuild smallWorld .little
      [ofString "client", ofString "-c", [119]] firstTick = .ok (0, m) ∧
    m.connects = [⟨0x7F000001, 3724⟩] ∧
    ∃ c ∈ m.holdings.sockets, 0 < c.session.socket.sent.length ∧
      c.frames.head? = some ((configOf (optionText smallWorld.platform [119])).login
        smallBuild.revision) := by
  obtain ⟨⟨r, m⟩, hm, hp⟩ := ok_of_any (p := fun r : Nat × ClientSocketMgr =>
      decide (r.2.connects = [⟨0x7F000001, 3724⟩]) && r.2.retired.any fun c : ClientSocket =>
        decide (0 < c.session.socket.sent.length))
    (x := main OptionCache.noFloats smallBuild smallWorld .little
      [ofString "client", ofString "-c", [119]] firstTick) (by decide +kernel)
  rw [Bool.and_eq_true, decide_eq_true_iff, List.any_eq_true] at hp
  obtain ⟨hconnects, c, hc, hsent⟩ := hp
  have hsent := of_decide_eq_true hsent
  have hmem : c ∈ m.holdings.sockets := List.mem_append_left _ hc
  obtain ⟨-, hspec⟩ := main_spec OptionCache.noFloats smallBuild smallWorld .little
    [ofString "client", ofString "-c", [119]] firstTick (by
      intro a ha
      simp only [firstTick, ClientSocketMgr.Act.runNext, List.mem_cons, List.not_mem_nil,
        or_false] at ha
      rcases ha with rfl | rfl | rfl | rfl
      all_goals first
        | exact ⟨trivial, trivial⟩
        | exact ⟨trivial, fun _ n => ⟨Nat.le_refl n, id⟩⟩)
  obtain ⟨-, hruns⟩ := hspec [119] (by decide +kernel) (by decide)
  obtain ⟨habort, hstarts⟩ := hruns (by decide +kernel)
  obtain ⟨-, henabled⟩ := hstarts fun name hname => habort ⟨name, hname⟩ _ hm
  obtain ⟨hr, htalked⟩ := (henabled (by decide +kernel)).2 0x7F000001 rfl r m hm
  subst hr
  exact ⟨m, hm, hconnects, c, hmem, hsent,
    (htalked.login c hmem (List.ne_nil_of_length_pos hsent)).1⟩

end Main

end WarheadDiscord.App

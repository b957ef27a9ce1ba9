import WarheadDiscord.Common.Fault

/-!
# Opcodes and response codes

The two enumerations that go over the wire, and the generated tables of their
names.  A value off the table makes `ToString` throw.
-/

namespace WarheadDiscord

inductive DiscordCode where
  | clientSendHello
  | clientAuthSession
  | clientSendMessage
  | clientSendMessageEmbed
  | clientSendPing
  | serverSendAuthResponse
  | serverSendPong
  | numMsgTypes
  deriving DecidableEq, Repr

namespace DiscordCode

def value : DiscordCode → UInt16
  | clientSendHello => 1
  | clientAuthSession => 2
  | clientSendMessage => 3
  | clientSendMessageEmbed => 4
  | clientSendPing => 5
  | serverSendAuthResponse => 6
  | serverSendPong => 7
  | numMsgTypes => 8

/-- The enumerator of a `static_cast<DiscordCode>`, if the value has one. -/
def ofValue (v : UInt16) : Option DiscordCode :=
  match v.toNat with
  | 1 => some clientSendHello
  | 2 => some clientAuthSession
  | 3 => some clientSendMessage
  | 4 => some clientSendMessageEmbed
  | 5 => some clientSendPing
  | 6 => some serverSendAuthResponse
  | 7 => some serverSendPong
  | 8 => some numMsgTypes
  | _ => none

end DiscordCode

def numOpcodeHandlers : UInt16 := DiscordCode.numMsgTypes.value

inductive DiscordAuthResponseCodes where
  | ok
  | failed
  | incorrectKey
  | unknownAccount
  | bannedAccount
  | bannedIP
  | bannedPermanentlyAccount
  | bannedPermanentlyIP
  | serverOffline
  deriving DecidableEq, Repr

namespace DiscordAuthResponseCodes

/-- The enumerator of a `static_cast<DiscordAuthResponseCodes>`, if the value has one. -/
def ofValue (v : UInt8) : Option DiscordAuthResponseCodes :=
  match v.toNat with
  | 0 => some ok
  | 1 => some failed
  | 2 => some incorrectKey
  | 3 => some unknownAccount
  | 4 => some bannedAccount
  | 5 => some bannedIP
  | 6 => some bannedPermanentlyAccount
  | 7 => some bannedPermanentlyIP
  | 8 => some serverOffline
  | _ => none

theorem ofValue_isSome_iff (v : UInt8) : (ofValue v).isSome ↔ v.toNat ≤ 8 := by
  rw [ofValue]
  split <;> simp only [Option.isSome_some, Option.isSome_none, true_iff, false_iff,
    Bool.false_eq_true] <;> grind

theorem ofValue_eq_ok_iff (v : UInt8) : ofValue v = some ok ↔ v = 0 := by
  constructor
  · intro h
    rw [ofValue] at h
    split at h <;> first | (cases h; done) | skip
    rename_i h0
    exact UInt8.toNat_inj.mp h0
  · rintro rfl; rfl

end DiscordAuthResponseCodes

/-! ### The generated tables -/

structure EnumText where
  constant : String
  title : String
  description : String
  deriving DecidableEq, Repr

/-- A row of the tables here: the title is the constant, the description is empty. -/
def EnumText.ofConstant (constant : String) : EnumText := ⟨constant, constant, ""⟩

namespace EnumUtils

/-- `EnumUtils<DiscordCode>::ToString`. -/
def discordCodeToString (value : UInt16) : Except Fault EnumText :=
  match DiscordCode.ofValue value with
  | some .clientSendHello => .ok (.ofConstant "CLIENT_SEND_HELLO")
  | some .clientAuthSession => .ok (.ofConstant "CLIENT_AUTH_SESSION")
  | some .clientSendMessage => .ok (.ofConstant "CLIENT_SEND_MESSAGE")
  | some .clientSendMessageEmbed => .ok (.ofConstant "CLIENT_SEND_MESSAGE_EMBED")
  | some .clientSendPing => .ok (.ofConstant "CLIENT_SEND_PING")
  | some .serverSendAuthResponse => .ok (.ofConstant "SERVER_SEND_AUTH_RESPONSE")
  | some .serverSendPong => .ok (.ofConstant "SERVER_SEND_PONG")
  | some .numMsgTypes => .ok (.ofConstant "NUM_MSG_TYPES")
  | none => .error (.outOfRange "value")

/-- `EnumUtils<DiscordAuthResponseCodes>::ToString`. -/
def authResponseToString (value : UInt8) : Except Fault EnumText :=
  match DiscordAuthResponseCodes.ofValue value with
  | some .ok => .ok (.ofConstant "Ok")
  | some .failed => .ok (.ofConstant "Failed")
  | some .incorrectKey => .ok (.ofConstant "IncorrectKey")
  | some .unknownAccount => .ok (.ofConstant "UnknownAccount")
  | some .bannedAccount => .ok (.ofConstant "BannedAccount")
  | some .bannedIP => .ok (.ofConstant "BannedIP")
  | some .bannedPermanentlyAccount => .ok (.ofConstant "BannedPermanentlyAccount")
  | some .bannedPermanentlyIP => .ok (.ofConstant "BannedPermanentlyIP")
  | some .serverOffline => .ok (.ofConstant "ServerOffline")
  | none => .error (.outOfRange "value")

/-- **`ToTitle` of a response code throws exactly for the codes that have no name.** -/
theorem authResponseToString_ok_iff (value : UInt8) :
    (∃ t, authResponseToString value = .ok t) ↔ value.toNat ≤ 8 := by
  rw [← DiscordAuthResponseCodes.ofValue_isSome_iff, authResponseToString]
  cases DiscordAuthResponseCodes.ofValue value with
  | none => simp
  | some c => cases c <;> simp

theorem authResponseToString_error {value : UInt8} (h : 8 < value.toNat) :
    authResponseToString value = .error (.outOfRange "value") := by
  have hn : DiscordAuthResponseCodes.ofValue value = none := by
    rw [← Option.not_isSome_iff_eq_none, DiscordAuthResponseCodes.ofValue_isSome_iff]
    omega
  rw [authResponseToString, hn]

end EnumUtils

end WarheadDiscord

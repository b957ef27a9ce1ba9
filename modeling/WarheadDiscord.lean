import WarheadDiscord.App.Main
import WarheadDiscord.Client.AverageUpdateTime
import WarheadDiscord.Client.BufferSafety
import WarheadDiscord.Client.CheckedReader
import WarheadDiscord.Client.ClientSession
import WarheadDiscord.Client.ClientSocket
import WarheadDiscord.Client.ClientSocketMgr
import WarheadDiscord.Client.ClosedSocket
import WarheadDiscord.Client.Contents
import WarheadDiscord.Client.Conversation
import WarheadDiscord.Client.Crashes
import WarheadDiscord.Client.Delivery
import WarheadDiscord.Client.DiscordConfig
import WarheadDiscord.Client.DiscordPacket
import WarheadDiscord.Client.Drain
import WarheadDiscord.Client.EndToEnd
import WarheadDiscord.Client.Holdings
import WarheadDiscord.Client.Latency
import WarheadDiscord.Client.Liveness
import WarheadDiscord.Client.NullPointers
import WarheadDiscord.Client.OptionValues
import WarheadDiscord.Client.Outgoing
import WarheadDiscord.Client.PeerCost
import WarheadDiscord.Client.ReadDataHandler
import WarheadDiscord.Client.ReadFaults
import WarheadDiscord.Client.ReadHandler
import WarheadDiscord.Client.ReadSide
import WarheadDiscord.Client.Reconnect
import WarheadDiscord.Client.SendPacket
import WarheadDiscord.Client.SessionProtocol
import WarheadDiscord.Client.SocketLives
import WarheadDiscord.Client.Stopping
import WarheadDiscord.Client.Stream
import WarheadDiscord.Client.Throughput
import WarheadDiscord.Client.Timers
import WarheadDiscord.Client.UpdateTime
import WarheadDiscord.Client.WireFormat
import WarheadDiscord.Common.AsyncCallbackProcessor
import WarheadDiscord.Common.Asyncs
import WarheadDiscord.Common.AuthCrypt
import WarheadDiscord.Common.BigNumber
import WarheadDiscord.Common.ByteConverter
import WarheadDiscord.Common.CatchUp
import WarheadDiscord.Common.Config
import WarheadDiscord.Common.ConfigLayers
import WarheadDiscord.Common.ConfigRuns
import WarheadDiscord.Common.CryptoGenerics
import WarheadDiscord.Common.Fault
import WarheadDiscord.Common.FreeSpace
import WarheadDiscord.Common.HexStr
import WarheadDiscord.Common.IPLocation
import WarheadDiscord.Common.IntervalTimer
import WarheadDiscord.Common.Log
import WarheadDiscord.Common.LogConfig
import WarheadDiscord.Common.LogMessages
import WarheadDiscord.Common.LogSink
import WarheadDiscord.Common.Loggers
import WarheadDiscord.Common.MPSCQueueIntrusive
import WarheadDiscord.Common.MPSCQueueNonIntrusive
import WarheadDiscord.Common.MSTime
import WarheadDiscord.Common.MessageBuffer
import WarheadDiscord.Common.MessageQueue
import WarheadDiscord.Common.ModifyIf
import WarheadDiscord.Common.NextTick
import WarheadDiscord.Common.PCQueue
import WarheadDiscord.Common.PacketQueue
import WarheadDiscord.Common.PathFormats
import WarheadDiscord.Common.PeriodicTimer
import WarheadDiscord.Common.QuotedValues
import WarheadDiscord.Common.RepeatingTasks
import WarheadDiscord.Common.SRP6
import WarheadDiscord.Common.SessionKeyGenerator
import WarheadDiscord.Common.StringConvert
import WarheadDiscord.Common.TOTP
import WarheadDiscord.Common.TaskConservation
import WarheadDiscord.Common.TaskQueue
import WarheadDiscord.Common.TaskScheduler
import WarheadDiscord.Common.TimeString
import WarheadDiscord.Common.Timer
import WarheadDiscord.Common.Tokenize
import WarheadDiscord.Common.UpdateReturns
import WarheadDiscord.Common.WideStrings
import WarheadDiscord.Deps.Fmt
import WarheadDiscord.Deps.Utf8cpp
import WarheadDiscord.Lib.BinarySearch
import WarheadDiscord.Lib.Bits
import WarheadDiscord.Lib.Blocks
import WarheadDiscord.Lib.Calendar
import WarheadDiscord.Lib.Channel
import WarheadDiscord.Lib.Endian
import WarheadDiscord.Lib.Filling
import WarheadDiscord.Lib.ForLoop
import WarheadDiscord.Lib.Framing
import WarheadDiscord.Lib.Keystream
import WarheadDiscord.Lib.Layers
import WarheadDiscord.Lib.Lines
import WarheadDiscord.Lib.LinkEntry
import WarheadDiscord.Lib.LinkQueue
import WarheadDiscord.Lib.Machine
import WarheadDiscord.Lib.Means
import WarheadDiscord.Lib.Monitor
import WarheadDiscord.Lib.Objects
import WarheadDiscord.Lib.Outcome
import WarheadDiscord.Lib.Progress
import WarheadDiscord.Lib.RingBuffer
import WarheadDiscord.Lib.SizeT
import WarheadDiscord.Lib.SortedInsert
import WarheadDiscord.Lib.Split
import WarheadDiscord.Lib.Units
import WarheadDiscord.Shared.ByteBuffer
import WarheadDiscord.Shared.ByteBufferBounds
import WarheadDiscord.Shared.DelayedClose
import WarheadDiscord.Shared.DiscordPacketHeader
import WarheadDiscord.Shared.DiscordSharedDefines
import WarheadDiscord.Shared.FailedReads
import WarheadDiscord.Shared.PackGUID
import WarheadDiscord.Shared.PackedTime
import WarheadDiscord.Shared.Serialisation
import WarheadDiscord.Shared.Socket
import WarheadDiscord.Shared.TypedStream
import WarheadDiscord.Shared.WriteFailures
import WarheadDiscord.Shared.WriteProgress
import WarheadDiscord.Shared.WriteQueue

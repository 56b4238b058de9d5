import HermesHey.Library.Text
import HermesHey.Library.Decimal
import HermesHey.Library.Json
import HermesHey.Library.JsonRoundTrip
import HermesHey.Library.JsonTotal
import HermesHey.Core
import HermesHey.DurableQueue
import HermesHey.Adapter
import HermesHey.CursorAdvance
import HermesHey.CursorRuns
import HermesHey.CursorUsable
import HermesHey.Dispatch
import HermesHey.DispatchClaims
import HermesHey.DispatchConfirmation
import HermesHey.DispatchOrder
import HermesHey.DispatchRemoval
import HermesHey.UndatedEntries
import HermesHey.QueueAtomicity
import HermesHey.QueueClosure
import HermesHey.QueueWindow
import HermesHey.SendRetry
import HermesHey.WatchDelivery
import HermesHey.WatchOrder
import HermesHey.Interference
import HermesHey.AccessTokens
import HermesHey.Library.JsonHooks
import HermesHey.DuplicateKeys
import HermesHey.Library.Strconv
import HermesHey.Accounts
import HermesHey.TokenExpiry
import HermesHey.QueueCapacity
import HermesHey.Library.Binary64
import HermesHey.Library.Duration
import HermesHey.PollInterval
import HermesHey.Library.BufferedReader
import HermesHey.Library.GoJson
import HermesHey.Library.GoJsonGrammar
import HermesHey.AckLines
import HermesHey.Library.RawMessages
import HermesHey.CredentialEntries
import HermesHey.Library.JsonDocument
import HermesHey.Library.Utf8
import HermesHey.Library.GoJsonDocument
import HermesHey.Library.JsonTruncated
import HermesHey.Library.StreamReader
import HermesHey.Library.JsonBytes
import HermesHey.Wire
import HermesHey.WatchProcess
import HermesHey.AckDelivery
import HermesHey.Library.Flags
import HermesHey.CommandLine
import HermesHey.Errand
import HermesHey.Handshake
import HermesHey.Library.AtomicFile
import HermesHey.Library.GoMap
import HermesHey.CursorFile
import HermesHey.Library.Handles
import HermesHey.WindowsState
import HermesHey.WindowsQueue

import FightingCard.Lib.Bytes
import FightingCard.Lib.Machine
import FightingCard.Lib.History
import FightingCard.Lib.SendQueue
import FightingCard.Lib.TimerQueue
import FightingCard.Lib.Decimal
import FightingCard.Lib.Calendar
import FightingCard.Lib.OrderedMap
import FightingCard.Lib.Clockwise
import FightingCard.Lib.Words
import FightingCard.Lib.Horner
import FightingCard.Lib.Channel
import FightingCard.Common.Buffer
import FightingCard.Common.UserBuffer
import FightingCard.Common.PipeBuffer
import FightingCard.Common.Relay
import FightingCard.Common.PipeLayout
import FightingCard.Common.UserProcessor
import FightingCard.Common.PipeProcessor
import FightingCard.Common.Session
import FightingCard.Common.Lifetime
import FightingCard.Common.AsioTimer
import FightingCard.Common.Rearming
import FightingCard.Common.HourlyFileSink
import FightingCard.Common.ConsistentMap
import FightingCard.Common.Utility
import FightingCard.Common.WriteQueue
import FightingCard.Common.Reading
import FightingCard.Common.Healthy
import FightingCard.Common.Link
import FightingCard.Common.IoServicePool
import FightingCard.Server.Logic
import FightingCard.Server.SessionIds
import FightingCard.Server.Presence
import FightingCard.Server.Login
import FightingCard.Server.GameServer
import FightingCard.Server.Replies
import FightingCard.Server.Closing
import FightingCard.Server.Orphans
import FightingCard.Server.Deletions
import FightingCard.Server.Payloads
import FightingCard.Server.Framing
import FightingCard.Server.ReadLoop
import FightingCard.Server.Startup
import FightingCard.Server.Pool
import FightingCard.Server.Progress
import FightingCard.Server.Registry
import FightingCard.Server.Distinct
import FightingCard.Server.Silence
import FightingCard.Client.KeepAlive
import FightingCard.Client.User
import FightingCard.Client.EndToEnd
import FightingCard.Client.LoggedIn
import FightingCard.Client.Completion
import FightingCard.Client.TimedSystem
import FightingCard.Client.PooledSystem

import Libmc.Support.Loop
import Libmc.Support.Incremental
import Libmc.Support.BlockHash
import Libmc.Support.Sines
import Libmc.Support.Rfc1321
import Libmc.Support.Decimal
import Libmc.Common
import Libmc.BufferReader
import Libmc.ByteQueue
import Libmc.BufferQueue
import Libmc.BufferWrite
import Libmc.Parser
import Libmc.ParserView
import Libmc.ParserFeed
import Libmc.ParserSteps
import Libmc.ParserCounting
import Libmc.ParserTermination
import Libmc.Result
import Libmc.ParserRetrieval
import Libmc.Support.HashRing
import Libmc.Ketama
import Libmc.Support.Attempts
import Libmc.Failover
import Libmc.Support.Crc
import Libmc.Hashkit
import Libmc.Md5
import Libmc.Support.Session
import Libmc.PyClient
import Libmc.PyRoundTrip
import Libmc.PyTearing
import Libmc.Itoa
import Libmc.BufferWriter
import Libmc.Support.Framing
import Libmc.TextProtocol
import Libmc.Connection
import Libmc.ConnectSockets
import Libmc.ConnectionPool
import Libmc.WaitPoll
import Libmc.PollInvariant
import Libmc.PollParts
import Libmc.Client
import Libmc.Dispatch
import Libmc.ItemBytes
import Libmc.ServerReads
import Libmc.Support.Run
import Libmc.WriterRuns
import Libmc.BufferRuns
import Libmc.Loading
import Libmc.PollSockets
import Libmc.PollSent
import Libmc.PollFailed
import Libmc.Routing
import Libmc.PollCounted
import Libmc.ParserReplies
import Libmc.Replies
import Libmc.ParserKeys
import Libmc.ResultRounds
import Libmc.ResultSizes
import Libmc.ResultLengths
import Libmc.PollConsumed
import Libmc.Consumed
import Libmc.Rewind
import Libmc.PollDone
import Libmc.PollTaken
import Libmc.Timeouts
import Libmc.MessageKeys
import Libmc.ClientSet
import Libmc.Retrieved
import Libmc.Replied
import Libmc.Numbers
import Libmc.Broadcasts
import Libmc.ReplyCodes
import Libmc.PollSteady
import Libmc.PollEnds
import Libmc.PollCodes
import Libmc.Support.Shards
import Libmc.KeyServers
import Libmc.OneMemory
import Libmc.PyServers
import Libmc.Addresses
import Libmc.RingMemory
import Libmc.LockPool
import Libmc.ClientServers
import Libmc.ServerString
import Libmc.ClientPool
import Libmc.ClientPoolSize
import Libmc.UpdateServers
import Libmc.Support.Locking
import Libmc.ClientPoolLocks
import Libmc.Support.Processes
import Libmc.GoPool
import Libmc.GoPoolAccounts
import Libmc.GoPoolServed
import Libmc.PySetMulti
import Libmc.PyStoreMulti
import Libmc.PyReads
import Libmc.Support.Table
import Libmc.GoClient
import Libmc.KeyPrefix
import Libmc.GoMulti
import Libmc.GoBroadcast
import Libmc.GoRecycle
import Libmc.BufferFull
import Libmc.BufferRefs
import Libmc.ReplacedServers
import Libmc.Resends

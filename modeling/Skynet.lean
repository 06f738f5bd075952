import Skynet.Analysis.RwLockExclusion
import Skynet.Analysis.NameTables
import Skynet.Analysis.HandleSequential
import Skynet.Analysis.TimerRuns
import Skynet.Analysis.SchedulerRuns
import Skynet.Analysis.SocketClosing
import Skynet.Analysis.SocketCodes
import Skynet.Analysis.SocketStream
import Skynet.Analysis.WriteAccounting
import Skynet.Analysis.SocketDatagrams
import Skynet.Analysis.LuaSeriRoundTrip
import Skynet.Analysis.SprotoPackBound
import Skynet.Analysis.ClusterRequests
import Skynet.Analysis.ClusterResponses
import Skynet.Analysis.SprotoSafety
import Skynet.Analysis.SprotoMaps
import Skynet.Analysis.ServiceNet
import Skynet.Analysis.Base64Texts
import Skynet.Analysis.BsonStrings
import Skynet.Analysis.StmRuns
import Skynet.Analysis.GlobalNames
import Skynet.Analysis.MulticastPackages
import Skynet.Analysis.DatacenterWaits
import Skynet.Analysis.ShareData
import Skynet.Analysis.BsonRoundTrip
import Skynet.Analysis.SnluaSignals
import Skynet.Analysis.SocketReads
import Skynet.Analysis.GateOversize
import Skynet.Analysis.HarborStreams
import Skynet.Analysis.DnsQueries
import Skynet.Analysis.MsgRequests
import Skynet.Analysis.WebSocketMessages
import Skynet.Analysis.HttpRequests
import Skynet.Analysis.GateClients
import Skynet.Analysis.KeyExchange
import Skynet.Analysis.ShareObjectRuns
import Skynet.Analysis.ShareUpdates
import Skynet.Analysis.ShareProxyRuns
import Skynet.Analysis.ShareTables
import Skynet.Analysis.DatasheetVersions
import Skynet.Analysis.ClusterNames
import Skynet.Analysis.ClusterCalls
import Skynet.Analysis.ServiceBoots
import Skynet.Analysis.RedisLinks
import Skynet.Analysis.RedisReplies
import Skynet.Analysis.ClusterOpenings
import Skynet.Analysis.Launches
import Skynet.Analysis.Requires
import Skynet.Analysis.Selects
import Skynet.Analysis.Wakeups
import Skynet.Analysis.DesImage
import Skynet.Analysis.MongoReplies
import Skynet.Analysis.DnsNames
import Skynet.Analysis.MysqlExecute
import Skynet.Analysis.QueueFairness

import Mowang.Base.Block
import Mowang.Base.Ring
import Mowang.Base.LittleEndian
import Mowang.Base.CString
import Mowang.Base.SqlText
import Mowang.Base.Framing
import Mowang.Base.Markers
import Mowang.Base.Lists
import Mowang.Base.PropertyTree
import Mowang.Base.Run
import Mowang.Base.LinkedList
import Mowang.Base.Memory
import Mowang.Share.BaseUtil
import Mowang.Share.SocketHandler
import Mowang.Share.SocketOutputStream
import Mowang.Share.SocketInputStream
import Mowang.Share.TcpManager
import Mowang.Share.DynamicArray
import Mowang.Share.DynamicObjects
import Mowang.Share.OwnedObjects
import Mowang.Share.MemoryPool
import Mowang.Share.RpcParam
import Mowang.Share.EtcdStruct
import Mowang.Share.RpcProxy
import Mowang.Share.BinaryString
import Mowang.Share.ListBlobs
import Mowang.Share.BlobDecoding
import Mowang.Share.FlatBlobs
import Mowang.Share.StringCommon
import Mowang.Share.StringParse
import Mowang.Share.IniFile
import Mowang.Share.IniWrite
import Mowang.Share.BasePacket
import Mowang.Share.PacketHandler
import Mowang.Share.RpcClient
import Mowang.Share.RpcWrapper
import Mowang.Share.EntityAddresses
import Mowang.Share.MailboxManager
import Mowang.Share.RpcRegistry
import Mowang.Share.SocketManager
import Mowang.Share.TcpLifeCycle
import Mowang.Share.KickSocket
import Mowang.Share.WsLifeCycle
import Mowang.Share.Timer
import Mowang.Share.TimerWheel
import Mowang.Share.TimerCascade
import Mowang.Share.TimerTick
import Mowang.Share.TimerRuns
import Mowang.Share.TimerSchedule
import Mowang.Db.MysqlConn
import Mowang.Db.ExecutorManager
import Mowang.Db.ResultSet
import Mowang.Game.GamePacketHandler
import Mowang.Game.RoleData
import Mowang.Game.ConfigTables
import Mowang.Game.LoadRole
import Mowang.Game.SaveRole
import Mowang.Game.LoginKey
import Mowang.Game.ReloadRole
import Mowang.Game.EntityDestruction
import Mowang.Game.EntityIds
import Mowang.Game.Sequence
import Mowang.Game.DbOperations
import Mowang.Game.DbStatus
import Mowang.Game.DbOrder
import Mowang.Game.Login
import Mowang.Game.BuildingRows
import Mowang.Game.Resources
import Mowang.Game.Costs
import Mowang.Game.LoginSteps
import Mowang.Game.NormalRole
import Mowang.Game.EntitySteps
import Mowang.Game.Bindings
import Mowang.Game.Destroyed
import Mowang.Game.OneRole
import Mowang.Game.LoginOnce
import Mowang.Game.Registry
import Mowang.Game.SingleWriter
import Mowang.Share.EtcdListener
import Mowang.Share.EtcdPublication
import Mowang.Share.EtcdRegistry
import Mowang.HttpClient.EtcdResponses
import Mowang.HttpClient.WatchChain
import Mowang.HttpClient.HttpBodies
import Mowang.HttpClient.UrlCodec
import Mowang.Gate.GateServer
import Mowang.Gate.Routing
import Mowang.Gate.ClientHandler
import Mowang.Gate.ClientCommands
import Mowang.Base.Json
import Mowang.Base.Search
import Mowang.Base.Escapes
import Mowang.Base.HttpMessage
import Mowang.Game.ClientReplies
import Mowang.Gate.WsManager
import Mowang.Base.Recognizer
import Mowang.HttpServer.RequestParser
import Mowang.HttpServer.RequestGrammar
import Mowang.Base.Path
import Mowang.HttpServer.Replies
import Mowang.HttpServer.RequestHandler
import Mowang.HttpServer.Connections
import Mowang.HttpClient.RequestText
import Mowang.HttpServer.Fetch
import Mowang.Base.Tausworthe
import Mowang.Base.OrderedMap
import Mowang.Share.GameRandom
import Mowang.Share.ProcessClients
import Mowang.Gate.GateRegistry
import Mowang.Base.PrefixFree
import Mowang.Share.RpcImage
import Mowang.Gate.ServerCalls
import Mowang.Base.Trail
import Mowang.Gate.WsCommands
import Mowang.Share.TcpLink
import Mowang.Share.RpcChannel
import Mowang.Base.DelayQueue
import Mowang.Gate.DelayedKicks
import Mowang.Share.TimerClock
import Mowang.HttpClient.HttpCallbacks
import Mowang.HttpClient.Registrations
import Mowang.Share.Log

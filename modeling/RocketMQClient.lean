import RocketMQClient.Library.OrderedMap
import RocketMQClient.Library.EventSystem
import RocketMQClient.Library.ByteString
import RocketMQClient.Library.MachineInt
import RocketMQClient.Library.BalancedBlocks
import RocketMQClient.Library.FrameStream
import RocketMQClient.Library.TokenCustody
import RocketMQClient.Library.Session
import RocketMQClient.Messages.MessageQueue
import RocketMQClient.Messages.Message
import RocketMQClient.Transport.TcpTransport
import RocketMQClient.Transport.FrameLoop
import RocketMQClient.Transport.FrameReassembly
import RocketMQClient.Producer.SendRetry
import RocketMQClient.Consumer.ProcessQueue
import RocketMQClient.Consumer.OffsetStore
import RocketMQClient.Consumer.CommitOffset
import RocketMQClient.Consumer.DroppedQueue
import RocketMQClient.Consumer.OrderlyQueue
import RocketMQClient.Consumer.OrderlyConsume
import RocketMQClient.Consumer.Allocation
import RocketMQClient.Consumer.Rebalance
import RocketMQClient.Consumer.PullRequest
import RocketMQClient.Factory.TopicRoute
import RocketMQClient.Factory.ClientFactory
import RocketMQClient.Consumer.StartOffset
import RocketMQClient.Consumer.ConsumerTableLock
import RocketMQClient.Consumer.MessageCount
import RocketMQClient.Library.ByteOrder
import RocketMQClient.Library.Hexadecimal
import RocketMQClient.Messages.MessageId
import RocketMQClient.Messages.Decompression
import RocketMQClient.Messages.MessageDecoder
import RocketMQClient.Messages.StoredMessages
import RocketMQClient.Messages.DecodeSafety
import RocketMQClient.Consumer.OffsetSerialization
import RocketMQClient.Library.Registry
import RocketMQClient.Transport.ResponseFuture
import RocketMQClient.Transport.InvokeAsync
import RocketMQClient.Transport.FutureOwnership
import RocketMQClient.Consumer.OrderlyRequest
import RocketMQClient.Consumer.OrderlyToken
import RocketMQClient.Consumer.OrderlyHandOver
import RocketMQClient.Consumer.ConcurrentRequest
import RocketMQClient.Consumer.QueueRelease
import RocketMQClient.Consumer.ProcessQueueTable
import RocketMQClient.Consumer.RebalanceStability
import RocketMQClient.Consumer.OffsetCorrection
import RocketMQClient.Consumer.PullKernel
import RocketMQClient.Factory.RouteUpdate
import RocketMQClient.Transport.TransportLifetime
import RocketMQClient.Transport.TimerThrottle
import RocketMQClient.Library.BinaryFloat
import RocketMQClient.Library.Decimal
import RocketMQClient.Protocol.JsonValue
import RocketMQClient.Protocol.JsonReader
import RocketMQClient.Protocol.JsonText
import RocketMQClient.Protocol.CommandCustomHeader
import RocketMQClient.Protocol.RemotingCommand
import RocketMQClient.Protocol.CommandText
import RocketMQClient.Transport.OnewayFlag
import RocketMQClient.Library.Fallible
import RocketMQClient.Protocol.CommandDecode
import RocketMQClient.Transport.ReceivePath
import RocketMQClient.Protocol.CommandCodec
import RocketMQClient.Consumer.ConsumeResult
import RocketMQClient.Consumer.FailedAllocation
import RocketMQClient.Transport.CommandFrame
import RocketMQClient.Transport.SendStream
import RocketMQClient.Transport.BufferShrinking
import RocketMQClient.Producer.QueueSelection
import RocketMQClient.Kpr.StrandedWork
import RocketMQClient.Kpr.ThreadPool
import RocketMQClient.Kpr.WorkerFlags
import RocketMQClient.Producer.AsyncSend
import RocketMQClient.Producer.AsyncOutcome
import RocketMQClient.Consumer.DroppedDrain
import RocketMQClient.Library.SearchTree
import RocketMQClient.Messages.MessageQueueOrder
import RocketMQClient.Factory.OfflineBrokers
import RocketMQClient.Consumer.AdminAddress
import RocketMQClient.Library.KeySort
import RocketMQClient.Factory.RouteChange
import RocketMQClient.Factory.RouteQueues
import RocketMQClient.Factory.OrderedTopic
import RocketMQClient.Factory.RouteDecode
import RocketMQClient.Transport.ProjectGroup
import RocketMQClient.Producer.SendTruth
import RocketMQClient.Producer.SendOneway
import RocketMQClient.Kpr.TimerThread
import RocketMQClient.Library.Splitting
import RocketMQClient.Library.OrderedSet
import RocketMQClient.Common.UtilAll
import RocketMQClient.Common.SplitJoin
import RocketMQClient.Common.FilterAPI
import RocketMQClient.Consumer.PullSubscriptions
import RocketMQClient.Consumer.TagFilter
import RocketMQClient.Library.Unicode
import RocketMQClient.Common.TagCodes
import RocketMQClient.Messages.MessageProperties
import RocketMQClient.Library.TreeAssignment
import RocketMQClient.Consumer.OffsetAgreement
import RocketMQClient.Consumer.OffsetLoading
import RocketMQClient.Transport.StoredAddress
import RocketMQClient.Library.JsonGrammar
import RocketMQClient.Protocol.RequestBodies
import RocketMQClient.Library.StoredCoder
import RocketMQClient.Library.StreamCoder
import RocketMQClient.Common.Compression
import RocketMQClient.Library.Holding
import RocketMQClient.Kpr.Monitor
import RocketMQClient.Kpr.MonitorExclusion
import RocketMQClient.Kpr.MonitorNotification
import RocketMQClient.Library.RaisedCell
import RocketMQClient.Common.MixAll
import RocketMQClient.Kpr.ToMutex
import RocketMQClient.Kpr.ToMutexExclusion
import RocketMQClient.Kpr.ToMutexWaiting
import RocketMQClient.Common.ServiceThread
import RocketMQClient.Consumer.PullMessageService
import RocketMQClient.Library.RetryQueue
import RocketMQClient.Consumer.PullServiceWaiting
import RocketMQClient.Consumer.RebalanceService
import RocketMQClient.Consumer.AtLeastOnce
import RocketMQClient.Library.FileSystem
import RocketMQClient.Common.MQFileUtil
import RocketMQClient.Consumer.OffsetFile
import RocketMQClient.Library.Lease
import RocketMQClient.Consumer.LockLease
import RocketMQClient.Consumer.QueueLocks
import RocketMQClient.Factory.ClientLifecycle
import RocketMQClient.Factory.MemberFactories
import RocketMQClient.Factory.LifecycleRuns
import RocketMQClient.Library.Carriage
import RocketMQClient.Kpr.TimerTaskManager
import RocketMQClient.Kpr.ScheduledTasks
import RocketMQClient.Consumer.MessageDelivery

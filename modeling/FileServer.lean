import FileServer.Metadata.Authorizations
import FileServer.Metadata.Capacity
import FileServer.Metadata.Charging
import FileServer.Metadata.Cleanup
import FileServer.Metadata.Copies
import FileServer.Metadata.Targets
import FileServer.Metadata.Leases
import FileServer.Metadata.Objects
import FileServer.Metadata.Verification
import FileServer.Metadata.Readiness
import FileServer.Metadata.Replay
import FileServer.Gateway.Condemnations
import FileServer.Gateway.Isolation
import FileServer.Cluster.Presence
import FileServer.Cluster.Promises
import FileServer.Protocol.Wire
import FileServer.Service.Retention
import FileServer.Service.Sequential
import FileServer.Client.Delivery
import FileServer.Database.MysqlPool
import FileServer.Protocol.Connections
import FileServer.Rpc.Clients
import FileServer.Service.Paths
import FileServer.Service.Resume
import FileServer.Routing.Answers
import FileServer.Routing.Chunks
import FileServer.Routing.Isolation
import FileServer.Routing.Readers
import FileServer.Routing.Replies
import FileServer.Service.Agreement
import FileServer.Protocol.Corruption
import FileServer.Service.SafeNames
import FileServer.Service.ByteArrays
import FileServer.Client.Downloads
import FileServer.Client.Completion
import FileServer.Service.Concurrency
import FileServer.Service.ChunkSteps
import FileServer.Storage.Immutability
import FileServer.Storage.Inventory
import FileServer.Threadpool.Execution
import FileServer.Cluster.DeadEnds
import FileServer.Cluster.Removal
import FileServer.Users.Gateway
import FileServer.Users.Registrations
import FileServer.Routing.RemoteCalls
import FileServer.Protocol.Service
import FileServer.Database.Upgrades
import FileServer.Network.Sessions

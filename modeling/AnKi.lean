import AnKi.Library.Runs
import AnKi.Library.HashMap
import AnKi.Library.Files
import AnKi.Library.TextCodec
import AnKi.Library.Json
import AnKi.Library.Base64
import AnKi.Library.Locks
import AnKi.Library.Atomic
import AnKi.Library.Greedy
import AnKi.Library.Ballots
import AnKi.Library.Streaks
import AnKi.Library.Regex
import AnKi.Library.Senders
import AnKi.Library.Channels
import AnKi.Library.Broadcast
import AnKi.Library.Broker
import AnKi.Library.Exchange
import AnKi.Library.Deliveries
import AnKi.Wire
import AnKi.TaskRecovery
import AnKi.TaskApi
import AnKi.TaskLocks
import AnKi.TaskUpdates
import AnKi.Backup
import AnKi.TaskKeys
import AnKi.BackupLocks
import AnKi.Consensus
import AnKi.Voting
import AnKi.Decisions
import AnKi.ConsensusLocks
import AnKi.LoadBalancer
import AnKi.LoadReports
import AnKi.Assignment
import AnKi.LoadMonitor
import AnKi.BalancerLocks
import AnKi.Scheduler
import AnKi.Scheduling
import AnKi.Election
import AnKi.ElectionLocks
import AnKi.Health
import AnKi.Dht
import AnKi.DhtStores
import AnKi.DhtReplicas
import AnKi.Nodes
import AnKi.Authentication
import AnKi.Security
import AnKi.Validation
import AnKi.Monitors
import AnKi.Elections
import AnKi.VoteChannel
import AnKi.Topology
import AnKi.NodeRegistry
import AnKi.Network

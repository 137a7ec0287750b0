import Afkak.Lib.Machine
import Afkak.Lib.BigEndian
import Afkak.Common
import Afkak.Lib.Dict
import Afkak.Lib.Reader
import Afkak.Util
import Afkak.BrokerClient
import Afkak.BrokerClient.Outcomes
import Afkak.Consumer
import Afkak.Consumer.Blocks
import Afkak.Consumer.CommitSafety
import Afkak.Consumer.Order
import Afkak.Consumer.Stall
import Afkak.ConsumerProtocol
import Afkak.Coordinator
import Afkak.Coordinator.Membership
import Afkak.MessageSet
import Afkak.Producer
import Afkak.Producer.Acks
import Afkak.Producer.Resend
import Afkak.BrokerClient.Connection
import Afkak.BrokerClient.Flush
import Afkak.BrokerClient.Writes
import Afkak.Client
import Afkak.Client.Accounting
import Afkak.Client.Metadata
import Afkak.Compression
import Afkak.ConsumerGroup
import Afkak.ConsumerGroup.Exclusive
import Afkak.ConsumerGroup.Stop
import Afkak.Producer.Order
import Afkak.Producer.Stop
import Afkak.Client.Produce
import Afkak.Lib.Logged
import Afkak.MessageSet.Entries
import Afkak.Responses
import Afkak.Responses.Forward
import Afkak.BrokerClient.Close
import Afkak.Client.Removed
import Afkak.Consumer.Reports
import Afkak.Consumer.Stops
import Afkak.Consumer.Restart
import Afkak.ConsumerProtocol.Exchange
import Afkak.Responses.Grammar
import Afkak.Requests.Grammar
import Afkak.ConsumerProtocol.Balance
import Afkak.ConsumerProtocol.Order
import Afkak.Client.Handle
import Afkak.Client.Load
import Afkak.Client.SingleFlight
import Afkak.Consumer.Budget
import Afkak.Consumer.Buffer
import Afkak.Compression.Xerial
import Afkak.Compression.Progress
import Afkak.Lib.Murmur
import Afkak.Partitioner
import Afkak.Partitioner.Hashing
import Afkak.Partitioner.RoundRobin
import Afkak.Producer.Queue
import Afkak.Producer.Cancel
import Afkak.Producer.Bounds
import Afkak.Producer.Lookups
import Afkak.Consumer.Resume
import Afkak.Client.InFlight
import Afkak.Requests.Group
import Afkak.ConsumerProtocol.Rebalance
import Afkak.Client.Sweeps
import Afkak.Client.Bootstrap
import Afkak.Client.Exchange
import Afkak.Consumer.Wire
import Afkak.Producer.Wire
import Afkak.AtLeastOnce

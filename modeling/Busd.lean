import Busd.Protocol.Frames
import Busd.Broker.Acks
import Busd.Broker.Atomicity
import Busd.Broker.Ownership
import Busd.Daemon.Forwarding
import Busd.Daemon.Authenticity
import Busd.Daemon.Cleanup
import Busd.Broker.Authorization
import Busd.Daemon.Isolation
import Busd.Daemon.Handshake
import Busd.Broker.Pending
import Busd.Broker.Retries
import Busd.Broker.Quotas
import Busd.Lib.Related
import Busd.Broker.Opacity
import Busd.Client.Bus
import Busd.Client.Replies
import Busd.Client.Server
import Busd.Broker.Registrations
import Busd.Client.Exchange
import Busd.Client.Restore
import Busd.Broker.Ticks
import Busd.Broker.Aggregation
import Busd.Broker.Retention
import Busd.Broker.Reconstruction
import Busd.Dbus.Name
import Busd.Lib.Text
import Busd.Policy.Config
import Busd.Policy.Compose
import Busd.Broker.Identity
import Busd.Client.Deduplication
import Busd.Broker.Filters
import Busd.Broker.AckOrder
import Busd.Broker.Routing
import Busd.Broker.Confirmation
import Busd.Broker.Counters
import Busd.Policy.Selectors
import Busd.Unix.Receive
import Busd.Broker.Monitor
import Busd.Daemon.Sessions
import Busd.Daemon.Packets
import Busd.Broker.Boundaries
import Busd.Broker.Clock
import Busd.Broker.Discovery
import Busd.Broker.Gates
import Busd.Daemon.Answers
import Busd.Daemon.Command
import Busd.Daemon.Liveness

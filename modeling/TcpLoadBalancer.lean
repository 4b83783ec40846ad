import TcpLoadBalancer.Lib.Ledger
import TcpLoadBalancer.Lib.Visits
import TcpLoadBalancer.Model.Config
import TcpLoadBalancer.Relay.Echo
import TcpLoadBalancer.Balancer.Distribution
import TcpLoadBalancer.Balancer.Accounting
import TcpLoadBalancer.Balancer.Routing
import TcpLoadBalancer.Balancer.RateLimit
import TcpLoadBalancer.Balancer.Handshakes
import TcpLoadBalancer.Balancer.Servicing
import TcpLoadBalancer.Balancer.Cleanup
import TcpLoadBalancer.Balancer.Limiter
import TcpLoadBalancer.Balancer.Bookkeeping
import TcpLoadBalancer.Balancer.Sessions
import TcpLoadBalancer.Balancer.Choice
import TcpLoadBalancer.Balancer.Clients
import TcpLoadBalancer.Balancer.Checkers
import TcpLoadBalancer.Balancer.Availability
import TcpLoadBalancer.Balancer.Streams
import TcpLoadBalancer.Upstream.Streams
import TcpLoadBalancer.Health.Coupling
import TcpLoadBalancer.Health.Exchange
import TcpLoadBalancer.Health.Spacing
import TcpLoadBalancer.Health.Probe

import P2PCrawler.Address
import P2PCrawler.Lib.Tally
import P2PCrawler.Lib.Histogram
import P2PCrawler.Output
import P2PCrawler.Lib.ThreadPool
import P2PCrawler.Lib.Reader
import P2PCrawler.Lib.Bytes
import P2PCrawler.Lib.Framing
import P2PCrawler.Frame
import P2PCrawler.Wire
import P2PCrawler.HostText
import P2PCrawler.Hosts
import P2PCrawler.AddrMessage
import P2PCrawler.Protocol
import P2PCrawler.Store
import P2PCrawler.AddrLog
import P2PCrawler.Lib.Csv
import P2PCrawler.Lib.Interrupted
import P2PCrawler.Lib.FileSystem
import P2PCrawler.Publish
import P2PCrawler.Watermark
import P2PCrawler.LogRows
import P2PCrawler.Crawler.Peer
import P2PCrawler.Connection
import P2PCrawler.Crawler.State
import P2PCrawler.Crawler.Steps
import P2PCrawler.Crawler.Effect
import P2PCrawler.Crawler.Ledger
import P2PCrawler.Crawler.Control
import P2PCrawler.Crawler.Termination
import P2PCrawler.Crawler.Routing
import P2PCrawler.Crawler.Ending
import P2PCrawler.Crawler.Completion
import P2PCrawler.Crawler.Owner
import P2PCrawler.Crawler.Barrier
import P2PCrawler.Crawler.Labels
import P2PCrawler.Crawler.Logging
import P2PCrawler.Crawler.Frontier
import P2PCrawler.Crawler.Queues
import P2PCrawler.Crawler.Closing
import P2PCrawler.Crawler.History
import P2PCrawler.Crawler.Annals
import P2PCrawler.Crawler.Snapshots
import P2PCrawler.Crawler.Dialling
import P2PCrawler.Version
import P2PCrawler.Dial
import P2PCrawler.Probe
import P2PCrawler.Crawler.Endpoints
import P2PCrawler.Lib.SharedCell
import P2PCrawler.Sam
import P2PCrawler.Collection
import P2PCrawler.Crawler.Holding
import P2PCrawler.Crawler.Calm
import P2PCrawler.Crawler.Stats
import P2PCrawler.Crawler.Cap
import P2PCrawler.Crawler.Counters
import P2PCrawler.Crawler.Failures
import P2PCrawler.Duration
import P2PCrawler.Lib.Exchange
import P2PCrawler.Tunnel
import P2PCrawler.Handshake
import P2PCrawler.Crawler.Greetings
import P2PCrawler.Crawler.Records
import P2PCrawler.Crawler.Meters
import P2PCrawler.Crawler.Provenance
import P2PCrawler.Crawler.Sweep
import P2PCrawler.Crawler.Replay
import P2PCrawler.Crawler.Sweeping
import P2PCrawler.Lib.Potential
import P2PCrawler.Crawler.Progress
import P2PCrawler.Crawler.Effort
import P2PCrawler.Crawler.Work
import P2PCrawler.Crawler.Verdicts
import P2PCrawler.Crawler.Manifests
import P2PCrawler.Lib.Register
import P2PCrawler.Crawler.Sightings
import P2PCrawler.Crawler.Trail
import P2PCrawler.Crawler.Draining
import P2PCrawler.Visit
import P2PCrawler.Welcome
import P2PCrawler.Lib.Outside
import P2PCrawler.Crawler.Directory

import SafeCast.Receiver.NonInterference
import SafeCast.Receiver.Placement
import SafeCast.Tesla.Authenticity
import SafeCast.Tesla.IndexAgreement
import SafeCast.Tesla.Messages
import SafeCast.Tesla.Rejection
import SafeCast.Simulation.Sender
import SafeCast.Simulation.EndToEnd
import SafeCast.Tesla.Genuine
import SafeCast.Library.Ledger
import SafeCast.Receiver.WorkLedger
import SafeCast.Library.Buckets
import SafeCast.Tesla.Ledger
import SafeCast.Keying.FrameAgreement
import SafeCast.Tesla.Outage
import SafeCast.Simulation.Pacing
import SafeCast.Library.Binary64
import SafeCast.Library.SortByKey
import SafeCast.Simulation.Displacement
import SafeCast.Simulation.Network
import SafeCast.Simulation.Arrivals
import SafeCast.Benchmark.Run
import SafeCast.Benchmark.Checks
import SafeCast.Benchmark.Sizing
import SafeCast.Library.AntiReplay
import SafeCast.Srtp.ReplayWindow
import SafeCast.Keying.Nonces
import SafeCast.Keying.Lockstep
import SafeCast.Receiver.Plain
import SafeCast.Tesla.Replays
import SafeCast.Simulation.InOrder
import SafeCast.Library.Multiplex
import SafeCast.Srtp.Template
import SafeCast.Transport.Rtp
import SafeCast.Keying.Mls
import SafeCast.Library.FirstCopies
import SafeCast.Demo.Multicast
import SafeCast.Library.Service
import SafeCast.Demo.AuthService
import SafeCast.Demo.DeliveryService
import SafeCast.Demo.Mailboxes
import SafeCast.Tesla.Verdicts

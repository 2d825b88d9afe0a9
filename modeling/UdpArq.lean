import UdpArq.Lib.Dict
import UdpArq.Lib.Run
import UdpArq.TimerHeap
import UdpArq.Checksum
import UdpArq.Wire
import UdpArq.Channel.Corruption
import UdpArq.Transport.Link
import UdpArq.GoBackN.Safety
import UdpArq.GoBackN.Timer
import UdpArq.SelectiveRepeat.Safety
import UdpArq.SelectiveRepeat.Window
import UdpArq.Windowed.Deadlock
import UdpArq.Windowed.Failures
import UdpArq.Windowed.Flush
import UdpArq.Windowed.Stranding
import UdpArq.Transport.Loop
import UdpArq.Lib.AlternatingBit
import UdpArq.StopAndWait.Transport
import UdpArq.StopAndWait.Link
import UdpArq.StopAndWait.Refinement
import UdpArq.StopAndWait.Safety
import UdpArq.StopAndWait.Ordered
import UdpArq.Transport.Tracking
import UdpArq.Windowed.Encoding
import UdpArq.Handover
import UdpArq.Windowed.Interleaving
import UdpArq.Windowed.Budget
import UdpArq.GoBackN.FixedTimeout
import UdpArq.FixedTimeout
import UdpArq.Transport.Frontier
import UdpArq.GoBackN.Agreement
import UdpArq.StopAndWait.Recovery
import UdpArq.GoBackN.Overshoot
import UdpArq.GoBackN.Metered
import UdpArq.SelectiveRepeat.Metered
import UdpArq.Karn
import UdpArq.Lib.Deadlines
import UdpArq.TimerHeap.Refinement
import UdpArq.SelectiveRepeat.Watched
import UdpArq.SelectiveRepeat.Armed
import UdpArq.SelectiveRepeat.Completeness
import UdpArq.Windowed.Commutation
import UdpArq.Transport.Peer
import UdpArq.GoBackN.Peers
import UdpArq.SelectiveRepeat.Peers
import UdpArq.Isolation
import UdpArq.Tolerance
import UdpArq.Channel.Emulator
import UdpArq.Channel.Conservation
import UdpArq.Channel.Fate
import UdpArq.Channel.Alignment
import UdpArq.Channel.Fifo
import UdpArq.Channel.Reach
import UdpArq.FileLayer
import UdpArq.Rto.Bounds
import UdpArq.Lib.Blocks
import UdpArq.Lib.Recurrence
import UdpArq.Transport.Calm
import UdpArq.Transport.Liveness
import UdpArq.GoBackN.Liveness
import UdpArq.SelectiveRepeat.Liveness
import UdpArq.Windowed.Delivery
import UdpArq.Windowed.Emulated
import UdpArq.Transport.SenderLoop
import UdpArq.Windowed.SenderLoop
import UdpArq.Windowed.Shutdown
import UdpArq.Lib.StableSort
import UdpArq.Channel.Schedule
import UdpArq.Channel.Overflow
import UdpArq.Channel.Socket
import UdpArq.Channel.Line
import UdpArq.Channel.Liveness
import UdpArq.Channel.FairLossy
import UdpArq.Windowed.OverChannels
import UdpArq.StopAndWait.Emulated
import UdpArq.NullTransport
import UdpArq.Demo
import UdpArq.DemoPasses

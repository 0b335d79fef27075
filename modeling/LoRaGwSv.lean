import LoRaGwSv.Gateway.Airtime
import LoRaGwSv.Gateway.Heard
import LoRaGwSv.Gateway.JitAdmission
import LoRaGwSv.Gateway.JitLedger
import LoRaGwSv.Gateway.JitOrder
import LoRaGwSv.Gateway.JitPeek
import LoRaGwSv.Gateway.Jitqueue
import LoRaGwSv.Gateway.OnAir
import LoRaGwSv.Gateway.RoundTrip
import LoRaGwSv.Gateway.Segments
import LoRaGwSv.Gateway.ThreadJit
import LoRaGwSv.Gateway.ThreadUp
import LoRaGwSv.Gateway.TimeOnAir
import LoRaGwSv.Gateway.Timesync
import LoRaGwSv.Machinery.Batches
import LoRaGwSv.Machinery.Binary64
import LoRaGwSv.Machinery.BinaryField
import LoRaGwSv.Machinery.Chain
import LoRaGwSv.Machinery.Cmac
import LoRaGwSv.Machinery.Descending
import LoRaGwSv.Machinery.Greedy
import LoRaGwSv.Machinery.Heap
import LoRaGwSv.Machinery.Keyed
import LoRaGwSv.Machinery.Lifetime
import LoRaGwSv.Machinery.Relink
import LoRaGwSv.Machinery.Rijndael
import LoRaGwSv.Machinery.Runs
import LoRaGwSv.Machinery.SlotLine
import LoRaGwSv.Machinery.Sorting
import LoRaGwSv.Machinery.Table
import LoRaGwSv.Machinery.Wire
import LoRaGwSv.Server.Aes
import LoRaGwSv.Server.AesCmac
import LoRaGwSv.Server.Announced
import LoRaGwSv.Server.Believed
import LoRaGwSv.Server.Booking
import LoRaGwSv.Server.Calls
import LoRaGwSv.Server.ChildRefs
import LoRaGwSv.Server.Cm
import LoRaGwSv.Server.Connections
import LoRaGwSv.Server.Counters
import LoRaGwSv.Server.Crypto
import LoRaGwSv.Server.Decode
import LoRaGwSv.Server.Demand
import LoRaGwSv.Server.DeviceManagement
import LoRaGwSv.Server.DeviceMngt
import LoRaGwSv.Server.Distribute
import LoRaGwSv.Server.Downlink
import LoRaGwSv.Server.FirstFit
import LoRaGwSv.Server.Forest
import LoRaGwSv.Server.Frames
import LoRaGwSv.Server.HandOff
import LoRaGwSv.Server.InputMsgHandler
import LoRaGwSv.Server.Inserted
import LoRaGwSv.Server.Loads
import LoRaGwSv.Server.LoraMac
import LoRaGwSv.Server.NodeLinks
import LoRaGwSv.Server.NodeRuns
import LoRaGwSv.Server.PacketQueue
import LoRaGwSv.Server.PhaseLoops
import LoRaGwSv.Server.PhaseRuns
import LoRaGwSv.Server.Rebuilt
import LoRaGwSv.Server.Received
import LoRaGwSv.Server.Refused
import LoRaGwSv.Server.Registrations
import LoRaGwSv.Server.Registry
import LoRaGwSv.Server.Repeated
import LoRaGwSv.Server.Rnl
import LoRaGwSv.Server.Routes
import LoRaGwSv.Server.RtloraMac
import LoRaGwSv.Server.RxpkTree
import LoRaGwSv.Server.Sch2
import LoRaGwSv.Server.ScheduleLinks
import LoRaGwSv.Server.ScheduleMngt
import LoRaGwSv.Server.ScheduleRefines
import LoRaGwSv.Server.ScheduleRuns
import LoRaGwSv.Server.Settled
import LoRaGwSv.Server.Sm
import LoRaGwSv.Server.Sorted
import LoRaGwSv.Server.Statistics
import LoRaGwSv.Server.Told
import LoRaGwSv.Server.Tunnel
import LoRaGwSv.Server.Updates
import LoRaGwSv.Server.UplinkHop
import LoRaGwSv.Server.Uplinks
import LoRaGwSv.Server.Usi
import LoRaGwSv.Server.Waits
import LoRaGwSv.Server.WeatherDevice
import LoRaGwSv.Server.WeatherRange

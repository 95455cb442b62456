import TapProject.Lib.Insertion
import TapProject.Lib.Digits
import TapProject.Lib.Codes
import TapProject.Lib.Slices
import TapProject.Lib.Cursor
import TapProject.Lib.Runs
import TapProject.Lib.Calls
import TapProject.Lib.Strtoul
import TapProject.Lib.Loops
import TapProject.Lib.Chains
import TapProject.Lib.Cells
import TapProject.Lib.Hub
import TapProject.Lib.Traces
import TapProject.Basic.System
import TapProject.Basic.Memory
import TapProject.MacList.Table
import TapProject.MacList.Invariant
import TapProject.MacList.Lifecycle
import TapProject.MacList.MapLaws
import TapProject.MacList.NameBuffers
import TapProject.MacList.Standalone
import TapProject.MacList.StandaloneMemory
import TapProject.MacList.StandaloneRuns
import TapProject.MacList.Agreement
import TapProject.MacList.Pointers
import TapProject.MacList.Shape
import TapProject.MacList.Refinement
import TapProject.MacList.PointerRuns
import TapProject.Packet.Message
import TapProject.Packet.Classify
import TapProject.Packet.Prefixes
import TapProject.Packet.Arrays
import TapProject.Packet.MacFilter
import TapProject.Dispatch.Distribute
import TapProject.Dispatch.Step
import TapProject.Dispatch.TableLaw
import TapProject.Dispatch.Delivery
import TapProject.Dispatch.OwnBytes
import TapProject.Dispatch.WholeFrames
import TapProject.Dispatch.HubRefinement
import TapProject.Dispatch.HubLaws
import TapProject.Dispatch.Views
import TapProject.Dispatch.Discipline
import TapProject.Dispatch.Pointers
import TapProject.Netlink.Header
import TapProject.Netlink.UlogGetPacket
import TapProject.Netlink.InOrder
import TapProject.Netlink.Encode
import TapProject.Netlink.Malformed
import TapProject.Netlink.GroupArgument
import TapProject.Netlink.Startup
import TapProject.Main.Loop
import TapProject.Main.Output
import TapProject.Main.Stream
import TapProject.Main.Memory
import TapProject.Main.Wire
import TapProject.Main.Startup
import TapProject.Main.Capture
import TapProject.Main.CaptureLog
import TapProject.Hyper.Batches
import TapProject.Hyper.Dump
import TapProject.Hyper.Program
import TapProject.LinkInfo.Parse
import TapProject.LinkInfo.Reads
import TapProject.LinkInfo.Walk
import TapProject.LinkInfo.Values
import TapProject.LinkInfo.RoundTrip
import TapProject.LinkInfo.Program

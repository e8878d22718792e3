import CfgMgmt.Firmware.Channels
import CfgMgmt.Firmware.Circulation
import CfgMgmt.Firmware.ConfigVars
import CfgMgmt.Firmware.Delivery
import CfgMgmt.Firmware.Endpoint
import CfgMgmt.Firmware.Interrupts
import CfgMgmt.Firmware.Mirror
import CfgMgmt.Firmware.Peers
import CfgMgmt.Firmware.Polling
import CfgMgmt.Firmware.Recycled
import CfgMgmt.Firmware.Replies
import CfgMgmt.Firmware.Served
import CfgMgmt.Firmware.Server
import CfgMgmt.Firmware.SetInd
import CfgMgmt.Firmware.Steps
import CfgMgmt.Firmware.Trace
import CfgMgmt.Firmware.VringInit
import CfgMgmt.Kernel.BmStdio
import CfgMgmt.Kernel.Completion
import CfgMgmt.Kernel.Counting
import CfgMgmt.Kernel.Failures
import CfgMgmt.Kernel.Files
import CfgMgmt.Kernel.Kstrtol
import CfgMgmt.Kernel.Leaks
import CfgMgmt.Kernel.Listing
import CfgMgmt.Kernel.Lists
import CfgMgmt.Kernel.LoadList
import CfgMgmt.Kernel.Loading
import CfgMgmt.Kernel.Locks
import CfgMgmt.Kernel.Matching
import CfgMgmt.Kernel.Opening
import CfgMgmt.Kernel.Race
import CfgMgmt.Kernel.Readiness
import CfgMgmt.Kernel.Removal
import CfgMgmt.Kernel.Terminated
import CfgMgmt.Lib.Columns
import CfgMgmt.Lib.Fifo
import CfgMgmt.Lib.Process
import CfgMgmt.Lib.Variant
import CfgMgmt.System.Bringup
import CfgMgmt.System.Clist
import CfgMgmt.System.Consistency
import CfgMgmt.System.Display
import CfgMgmt.System.Draining
import CfgMgmt.System.Isolation
import CfgMgmt.System.Output
import CfgMgmt.System.RoundTrip
import CfgMgmt.System.Texts
import CfgMgmt.System.Transport
import CfgMgmt.System.Writing
import CfgMgmt.Tools.Descriptors
import CfgMgmt.Tools.Numbers
import CfgMgmt.Tools.Show

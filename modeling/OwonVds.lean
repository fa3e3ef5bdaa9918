import OwonVds.Lib.Trans
import OwonVds.Lib.Session
import OwonVds.Lib.Parts
import OwonVds.Socket.Server
import OwonVds.Socket.Steps
import OwonVds.Socket.Pending
import OwonVds.Socket.Isolation
import OwonVds.Socket.Survival
import OwonVds.Socket.Batch
import OwonVds.Socket.Framing
import OwonVds.Scpi.Connection
import OwonVds.Scpi.RoundTrip
import OwonVds.Scpi.Frames
import OwonVds.Scpi.Builders
import OwonVds.Wf.Channel
import OwonVds.Wf.Change
import OwonVds.Wf.Mirror
import OwonVds.Wf.Range
import OwonVds.Wf.Persist
import OwonVds.Wf.Snapshot
import OwonVds.Scpi.Link
import OwonVds.Socket.Short
import OwonVds.Scpi.Ldm
import OwonVds.Control.Listener
import OwonVds.Control.Terminate
import OwonVds.Usb.Configuration
import OwonVds.Control.Lifecycle
import OwonVds.Control.Rebind
import OwonVds.Wf.Threshold
import OwonVds.Ui.Notice
import OwonVds.Scpi.Links
import OwonVds.Scpi.Trigger
import OwonVds.Socket.Senders
import OwonVds.Remote.Progress
import OwonVds.Usb.Open
import OwonVds.Remote.Calls
import OwonVds.Wf.Scope
import OwonVds.Ui.NoticeDialog
import OwonVds.Ui.Bulletin
import OwonVds.Scpi.Lag
import OwonVds.Usb.Transfer
import OwonVds.Control.Ending

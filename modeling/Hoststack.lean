import Hoststack.Commands
import Hoststack.LostUpdates
import Hoststack.CrashSafety
import Hoststack.References
import Hoststack.Queries
import Hoststack.Supervisor
import Hoststack.Updates
import Hoststack.Dereferences
import Hoststack.Unmounting
import Hoststack.Mounting
import Hoststack.Logger
import Hoststack.StringBuffers
import Hoststack.Trim
import Hoststack.PropertiesConfig
import Hoststack.Mkdir
import Hoststack.Directories
import Hoststack.Volumes
import Hoststack.Relay
import Hoststack.RelayCalls
import Hoststack.Sessions
import Hoststack.Rio
import Hoststack.Descriptors
import Hoststack.ClientPool
import Hoststack.StaleErrno
import Hoststack.SemUtil
import Hoststack.Handshake
import Hoststack.Restarts
import Hoststack.LiveInstance
import Hoststack.StopSignals
import Hoststack.StaysStopped
import Hoststack.Removal
import Hoststack.Sole
import Hoststack.Cli

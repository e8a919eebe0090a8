import Autossh.Args.Basic
import Autossh.Args.Buffer
import Autossh.Args.Copied
import Autossh.Args.Forwards
import Autossh.Args.Grow
import Autossh.Args.Invoke
import Autossh.Args.Loop
import Autossh.Args.Monitor
import Autossh.Args.Order
import Autossh.Args.Passed
import Autossh.Args.Ports
import Autossh.Args.Recognise
import Autossh.Args.SshScan
import Autossh.Args.Strip
import Autossh.Config.Basic
import Autossh.Config.Command
import Autossh.Config.Forward
import Autossh.Config.Inherited
import Autossh.Config.Tuning
import Autossh.Conn.Basic
import Autossh.Conn.Bounds
import Autossh.Conn.Echo
import Autossh.Conn.Exchange
import Autossh.Conn.Interrupt
import Autossh.Conn.Patience
import Autossh.Conn.Polling
import Autossh.Conn.Resume
import Autossh.Conn.Retry
import Autossh.Conn.Script
import Autossh.Conn.Sockets
import Autossh.Conn.Timeout
import Autossh.Custody.Basic
import Autossh.Custody.Handover
import Autossh.Detector.Basic
import Autossh.Detector.Hooks
import Autossh.Detector.InFlight
import Autossh.Detector.Interpose
import Autossh.Detector.Monitor
import Autossh.Detector.Staging
import Autossh.Detector.Truth
import Autossh.Detector.Warning
import Autossh.Environ.Basic
import Autossh.Environ.Exact
import Autossh.Interact.Basic
import Autossh.Interact.Protocol
import Autossh.Interact.Relate
import Autossh.Interact.Total
import Autossh.Machine.Account
import Autossh.Machine.Basic
import Autossh.Machine.Potential
import Autossh.Machine.Since
import Autossh.Main.Basic
import Autossh.Main.Lifecycle
import Autossh.Posix.Arrange
import Autossh.Posix.Basic
import Autossh.Posix.CString
import Autossh.Posix.Decimal
import Autossh.Posix.Double
import Autossh.Posix.Getopt
import Autossh.Posix.Memory
import Autossh.Posix.Permute
import Autossh.Posix.Process
import Autossh.Posix.Signal
import Autossh.Session.Alone
import Autossh.Session.Basic
import Autossh.Session.Custody
import Autossh.Session.Ports
import Autossh.Session.Sequential
import Autossh.Session.Signals
import Autossh.Session.Step
import Autossh.Session.Stop
import Autossh.Session.Teardown
import Autossh.Session.Waits
import Autossh.Supervisor.Alarm
import Autossh.Supervisor.Async
import Autossh.Supervisor.Backoff
import Autossh.Supervisor.Basic
import Autossh.Supervisor.Causes
import Autossh.Supervisor.Children
import Autossh.Supervisor.Descriptors
import Autossh.Supervisor.Drain
import Autossh.Supervisor.Kill
import Autossh.Supervisor.Ledger
import Autossh.Supervisor.Lifetime
import Autossh.Supervisor.Longjmp
import Autossh.Supervisor.Outcomes
import Autossh.Supervisor.Policy
import Autossh.Supervisor.PortFailure
import Autossh.Supervisor.Prod
import Autossh.Supervisor.Rearm
import Autossh.Supervisor.Restarts
import Autossh.Supervisor.Run
import Autossh.Supervisor.Schedule
import Autossh.Supervisor.Settings
import Autossh.Supervisor.Shutdown
import Autossh.Supervisor.SigInv
import Autossh.Supervisor.Signals
import Autossh.Supervisor.Silence
import Autossh.Supervisor.Starts
import Autossh.Supervisor.Timing
import Autossh.Supervisor.Wait
import Autossh.Supervisor.Wakeup
import Autossh.Supervisor.Watch

import Vnctlsd.ACLResolver
import Vnctlsd.Bridge.AcceptLoop
import Vnctlsd.Bridge.Aliases
import Vnctlsd.Bridge.Attempts
import Vnctlsd.Bridge.BruteForce
import Vnctlsd.Bridge.Lockout
import Vnctlsd.Bridge.LoginDeadline
import Vnctlsd.Bridge.Pam
import Vnctlsd.Bridge.RateLimiter
import Vnctlsd.Bridge.SshCheck
import Vnctlsd.Bridge.SshRelay
import Vnctlsd.Bridge.Verification
import Vnctlsd.Client.Proxy
import Vnctlsd.ConfigPush
import Vnctlsd.ConfigQueries
import Vnctlsd.ConfigReads
import Vnctlsd.ConsoleConfigStore
import Vnctlsd.ConsoleNames
import Vnctlsd.Daemon.Lifecycle
import Vnctlsd.Daemon.StartUp
import Vnctlsd.ExplicitGrants
import Vnctlsd.GlobInstances
import Vnctlsd.GlobPatterns
import Vnctlsd.GlobPrefilter
import Vnctlsd.Go.Strings
import Vnctlsd.Helper.Accounts
import Vnctlsd.Helper.DaemonCheck
import Vnctlsd.Helper.FailsClosed
import Vnctlsd.Helper.NameGate
import Vnctlsd.Helper.Relay
import Vnctlsd.Helper.StartUp
import Vnctlsd.Hub.Abandoned
import Vnctlsd.Hub.ConsoleHub
import Vnctlsd.Hub.Descriptors
import Vnctlsd.Hub.FanOut
import Vnctlsd.Hub.Grace
import Vnctlsd.Hub.HubRegistry
import Vnctlsd.Hub.Isolation
import Vnctlsd.Hub.LiveHubs
import Vnctlsd.Hub.Members
import Vnctlsd.Hub.SocketConsole
import Vnctlsd.Hub.World
import Vnctlsd.Identity
import Vnctlsd.Ipc.Framing
import Vnctlsd.Ipc.Interleaving
import Vnctlsd.Ipc.Ownership
import Vnctlsd.Ipc.Requests
import Vnctlsd.Ipc.ShortSends
import Vnctlsd.Library.ByteStream
import Vnctlsd.Library.Dialogue
import Vnctlsd.Library.Dict
import Vnctlsd.Library.Endpoints
import Vnctlsd.Library.Erasure
import Vnctlsd.Library.Escapes
import Vnctlsd.Library.FailStop
import Vnctlsd.Library.Handles
import Vnctlsd.Library.Json
import Vnctlsd.Library.LockOrder
import Vnctlsd.Library.NestedWrites
import Vnctlsd.Library.Quiescence
import Vnctlsd.Library.ReadLoop
import Vnctlsd.Library.Reads
import Vnctlsd.Library.Records
import Vnctlsd.Library.Replica
import Vnctlsd.Library.Scan
import Vnctlsd.Library.Subscription
import Vnctlsd.Library.Tally
import Vnctlsd.Library.Template
import Vnctlsd.Library.Terminal
import Vnctlsd.Library.Threads
import Vnctlsd.Library.Transducer
import Vnctlsd.Library.Transfer
import Vnctlsd.Library.Transition
import Vnctlsd.Library.Wildcard
import Vnctlsd.Library.Words
import Vnctlsd.LogFile
import Vnctlsd.Logger
import Vnctlsd.Membership
import Vnctlsd.Monitor.Answering
import Vnctlsd.Monitor.CommandTemplate
import Vnctlsd.Monitor.Commands
import Vnctlsd.Monitor.DescriptorTable
import Vnctlsd.Monitor.EscapeSequences
import Vnctlsd.Monitor.Recheck
import Vnctlsd.Monitor.Replication
import Vnctlsd.Monitor.Spawn
import Vnctlsd.Output
import Vnctlsd.PushedConfig
import Vnctlsd.PushedSearches
import Vnctlsd.Python.Decoding
import Vnctlsd.Python.Fnmatch
import Vnctlsd.Python.Format
import Vnctlsd.Python.Json
import Vnctlsd.Python.Shlex
import Vnctlsd.Python.Text
import Vnctlsd.Python.Utf8
import Vnctlsd.Python.Value
import Vnctlsd.Python.Words
import Vnctlsd.Session.AttachRace
import Vnctlsd.Session.Enforcement
import Vnctlsd.Session.Partition
import Vnctlsd.Session.Registry
import Vnctlsd.Session.Revocation
import Vnctlsd.ShortWrites
import Vnctlsd.TrustedUid
import Vnctlsd.UserMapStore
import Vnctlsd.Validation
import Vnctlsd.Watcher.Announce
import Vnctlsd.Watcher.Inotify
import Vnctlsd.Watcher.Reload
import Vnctlsd.Worker.CommandLoop
import Vnctlsd.Worker.Connections
import Vnctlsd.Worker.ConsoleCommand
import Vnctlsd.Worker.ConsoleReads
import Vnctlsd.Worker.ConsoleSession
import Vnctlsd.Worker.Detach
import Vnctlsd.Worker.Disappearance
import Vnctlsd.Worker.LineEditing
import Vnctlsd.Worker.LineInput
import Vnctlsd.Worker.ListCommand
import Vnctlsd.Worker.Locks
import Vnctlsd.Worker.ManagementCommand
import Vnctlsd.Worker.MonitorProxy
import Vnctlsd.Worker.PromptWords
import Vnctlsd.Worker.PushFrames
import Vnctlsd.Worker.PushListener
import Vnctlsd.Worker.PushLoop
import Vnctlsd.Worker.SockReadline
import Vnctlsd.Worker.TornReads

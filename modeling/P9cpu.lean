import P9cpu.Core.Run
import P9cpu.Core.Prog
import P9cpu.Core.Wire
import P9cpu.Core.Framed
import P9cpu.Core.Tree
import P9cpu.Core.Incoming
import P9cpu.Core.Settle
import P9cpu.Core.FramedRead
import P9cpu.Core.Members
import P9cpu.Core.Script
import P9cpu.Core.Mounts
import P9cpu.Core.Text
import P9cpu.Ninep.Error
import P9cpu.Ninep.Fcall
import P9cpu.Ninep.Serialize
import P9cpu.Ninep.RoundTrip
import P9cpu.Ninep.Lengths
import P9cpu.Ninep.Sizes
import P9cpu.Ninep.Canonical
import P9cpu.Ninep.Path
import P9cpu.Ninep.Lexical
import P9cpu.Ninep.Srv
import P9cpu.Ninep.Conn
import P9cpu.Ninep.Unpfs
import P9cpu.Ninep.Footprint
import P9cpu.Ninep.Stages
import P9cpu.Ninep.Host
import P9cpu.Ninep.Locks
import P9cpu.Ninep.Walk
import P9cpu.Ninep.Lookup
import P9cpu.Ninep.Frame
import P9cpu.Ninep.Rename
import P9cpu.Ninep.Replies
import P9cpu.Ninep.OneReply
import P9cpu.Ninep.Binding
import P9cpu.Ninep.Objects
import P9cpu.Ninep.Protocol
import P9cpu.Ninep.Confine
import P9cpu.Ninep.Qids
import P9cpu.Ninep.Files
import P9cpu.Ninep.WriteBack
import P9cpu.Ninep.Held
import P9cpu.Ninep.Turns
import P9cpu.Ninep.Visible
import P9cpu.Ninep.Positioned
import P9cpu.Ninep.Interleaved
import P9cpu.Ninep.Coherence
import P9cpu.Ninep.Clobber
import P9cpu.Ninep.Readdir
import P9cpu.Ninep.Listing
import P9cpu.Ninep.Cookies
import P9cpu.Ninep.Browse
import P9cpu.Ninep.Setattr
import P9cpu.Ninep.Writer
import P9cpu.Ninep.Guards
import P9cpu.Ninep.Answered
import P9cpu.Ninep.Intake
import P9cpu.Ninep.Listener
import P9cpu.Ninep.InTurn
import P9cpu.Ninep.Asked
import P9cpu.Cpu.Error
import P9cpu.Cpu.Forward
import P9cpu.Cpu.Cmd
import P9cpu.Cpu.Server
import P9cpu.Cpu.Calls
import P9cpu.Cpu.Launch
import P9cpu.Cpu.Sessions
import P9cpu.Cpu.Failures
import P9cpu.Cpu.Pending
import P9cpu.Cpu.Joins
import P9cpu.Cpu.Client
import P9cpu.Cpu.Stdin
import P9cpu.Cpu.Streams
import P9cpu.Cpu.Waits
import P9cpu.Cpu.Rest
import P9cpu.Cpu.Lossless
import P9cpu.Cpu.Stdout
import P9cpu.Cpu.Clients
import P9cpu.Cpu.ExitCode
import P9cpu.Cpu.Feed
import P9cpu.Cpu.Delivery
import P9cpu.Cpu.Namespace
import P9cpu.Cpu.Bindings
import P9cpu.Cpu.FsTab
import P9cpu.Cpu.Launcher
import P9cpu.Cpu.Launched
import P9cpu.Cpu.Seen
import P9cpu.Cpu.StreamReader
import P9cpu.Cpu.SenderWriter
import P9cpu.Cpu.Enqueued
import P9cpu.Cpu.Tunnel

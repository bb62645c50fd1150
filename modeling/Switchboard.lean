import Switchboard.Buffer.Value
import Switchboard.Record.Mapper
import Switchboard.Record.Catalogue
import Switchboard.Query.Waiters
import Switchboard.Rpc.Handlers
import Switchboard.Rpc.Stock
import Switchboard.Listener.Detached
import Switchboard.Channel.Session
import Switchboard.Channel.Describe
import Switchboard.Address
import Switchboard.Server.Error
import Switchboard.Server.Lifecycle
import Switchboard.Server.Events
import Switchboard.NetworkSettings
import Switchboard.Server.Basic
import Switchboard.Server.Host
import Switchboard.Toml.Node
import Switchboard.Toml.Text
import Switchboard.Toml.Document
import Switchboard.Settings.Basic
import Switchboard.Settings.Format
import Switchboard.FileTree
import Switchboard.Settings.File
import Switchboard.Buffer.Any
import Switchboard.Cli.Command
import Switchboard.Cli.Help
import Switchboard.Cli.Program
import Switchboard.Main
import Switchboard.Proofs.Octet.VarInt
import Switchboard.Proofs.Octet.Spelling
import Switchboard.Proofs.Octet.Exactness
import Switchboard.Proofs.Buffer.Source
import Switchboard.Proofs.Buffer.Languages
import Switchboard.Proofs.Buffer.Faults
import Switchboard.Proofs.Buffer.RoundTrip
import Switchboard.Proofs.Buffer.Locality
import Switchboard.Proofs.Buffer.Listing
import Switchboard.Proofs.Buffer.Counts
import Switchboard.Proofs.Buffer.Uses
import Switchboard.Proofs.Buffer.Rollback
import Switchboard.Proofs.Buffer.Bounds
import Switchboard.Proofs.Buffer.Unread
import Switchboard.Proofs.Buffer.Nesting
import Switchboard.Proofs.Buffer.Alignment
import Switchboard.Proofs.Buffer.Careful
import Switchboard.Proofs.Buffer.Positions
import Switchboard.Proofs.Frame.RoundTrip
import Switchboard.Proofs.Frame.Chunks
import Switchboard.Proofs.Frame.Grammar
import Switchboard.Proofs.Frame.Recovery
import Switchboard.Proofs.Frame.Headers
import Switchboard.Proofs.Frame.Limits
import Switchboard.Proofs.Frame.Forwarding
import Switchboard.Proofs.Frame.Buffered
import Switchboard.Proofs.Listener.Dispatch
import Switchboard.Proofs.Listener.Quiet
import Switchboard.Proofs.Listener.Roster
import Switchboard.Proofs.Listener.Refinement
import Switchboard.Proofs.Query.Table
import Switchboard.Proofs.Query.Traffic
import Switchboard.Proofs.Query.Books
import Switchboard.Proofs.Query.Settlement
import Switchboard.Proofs.Query.Alarms
import Switchboard.Proofs.Query.Debts
import Switchboard.Proofs.Query.Answers
import Switchboard.Proofs.Query.Watch
import Switchboard.Proofs.Channel.Line
import Switchboard.Proofs.Channel.Uninterrupted
import Switchboard.Proofs.Channel.Standing
import Switchboard.Proofs.Channel.Closing
import Switchboard.Proofs.Channel.Stream
import Switchboard.Proofs.Channel.Circuit
import Switchboard.Proofs.Channel.Correlation
import Switchboard.Proofs.Channel.Responses
import Switchboard.Proofs.Channel.Dispatcher
import Switchboard.Proofs.Channel.Station
import Switchboard.Proofs.Channel.Delivery
import Switchboard.Proofs.Channel.Sending
import Switchboard.Proofs.Channel.Backlog
import Switchboard.Proofs.Rpc.Service
import Switchboard.Proofs.Rpc.Wire
import Switchboard.Proofs.Rpc.Listening
import Switchboard.Proofs.Rpc.Repertoire
import Switchboard.Proofs.Rpc.Arguments
import Switchboard.Proofs.Rpc.RemoteCall
import Switchboard.Proofs.Server.Course
import Switchboard.Proofs.Toml.Quotes
import Switchboard.Proofs.Toml.Values
import Switchboard.Proofs.Toml.Sheets
import Switchboard.Proofs.Settings.Defaults
import Switchboard.Proofs.Settings.Saving

import Externs.Command
import Externs.Main
import Externs.Proofs.Walk.Containers
import Externs.Proofs.Walk.Hidden
import Externs.Proofs.Walk.Recursive
import Externs.Proofs.Walk.Routes
import Externs.Proofs.Walk.Groups
import Externs.Proofs.Walk.Recorded
import Externs.Proofs.Walk.Prototypes
import Externs.Proofs.Resolve.Once
import Externs.Proofs.Resolve.Circular
import Externs.Proofs.Resolve.Ends
import Externs.Proofs.Resolve.Parameters
import Externs.Proofs.Resolve.Quoted
import Externs.Proofs.Inherit.Overrides
import Externs.Proofs.Inherit.Channels
import Externs.Proofs.Bind.Forest
import Externs.Proofs.Bind.Split
import Externs.Proofs.Bind.Clauses
import Externs.Proofs.Bind.Order
import Externs.Proofs.Bind.Members
import Externs.Proofs.Syntax.Faults
import Externs.Proofs.Run.Layout
import Externs.Proofs.Run.Lines
import Externs.Proofs.File.Dirs
import Externs.Proofs.Run.Logged
import Externs.Proofs.Run.Whole
import Externs.Proofs.Run.Spared
import Externs.Proofs.Command.LogFile
import Externs.Proofs.Command.Courses
import Externs.Proofs.Command.Settings
import Externs.Proofs.Command.Records
import Externs.Proofs.Command.Echo

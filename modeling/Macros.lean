import Macros.Main
import Macros.Proofs.Scheduler.Outside
import Macros.Rehearsal.Stage
import Macros.Proofs.Tree.Record
import Macros.Proofs.Scheduler.Driver
import Macros.Proofs.Scheduler.Planned
import Macros.Proofs.Scheduler.Film
import Macros.Proofs.Scheduler.Trace
import Macros.Proofs.Scheduler.Stop
import Macros.Proofs.Scheduler.Request
import Macros.Proofs.Execution.Command
import Macros.Proofs.Scheduler.Steady
import Macros.Proofs.Scheduler.Sequence
import Macros.Proofs.Tree.Walk
import Macros.Tree.Operation
import Macros.Proofs.Tree.Graft
import Macros.Proofs.Tree.Alike
import Macros.Proofs.Tree.Edits
import Macros.Proofs.Tree.Edited
import Macros.Proofs.Tree.Single
import Macros.Proofs.Tree.FreeName
import Macros.Proofs.Tree.Names
import Macros.Proofs.Scheduler.Talk
import Macros.Proofs.Scheduler.Exchange
import Macros.Proofs.Scheduler.Protocol
import Macros.Proofs.Scheduler.Schedule
import Macros.Proofs.Scheduler.Flight
import Macros.Proofs.Scheduler.StopEvent
import Macros.Proofs.Scheduler.Agreement
import Macros.Proofs.Scheduler.Late
import Macros.Proofs.Scheduler.Onward
import Macros.Proofs.Scheduler.AtLoop
import Macros.Proofs.Scheduler.Toll
import Macros.Proofs.Scheduler.Alone
import Macros.Proofs.Scheduler.Bounded
import Macros.Proofs.Text.Lower
import Macros.Proofs.Text.Words
import Macros.Proofs.Grammar.Tags
import Macros.Proofs.Grammar.Values
import Macros.Proofs.Grammar.RoundTrip
import Macros.Proofs.Scheduler.Refused
import Macros.Proofs.Scheduler.Contained
import Macros.Proofs.Scheduler.Isolated
import Macros.Proofs.Scheduler.Course
import Macros.Proofs.Scheduler.Ledger
import Macros.Proofs.Scheduler.Suspended
import Macros.Proofs.Scheduler.TakenOff
import Macros.Proofs.Scheduler.Finished
import Macros.Proofs.Scheduler.Outage
import Macros.Proofs.Ini.Entry
import Macros.Proofs.Ini.Reader
import Macros.Proofs.Ini.Written
import Macros.Proofs.Grammar.Arrangement
import Macros.Proofs.Number.Decimals
import Macros.Proofs.Number.SixDigits
import Macros.Proofs.Number.Layout
import Macros.Proofs.Number.Brief
import Macros.Proofs.Grammar.Times
import Macros.Proofs.Grammar.Rewritten
import Macros.Proofs.Grammar.Recounted
import Macros.Proofs.Tree.Conserved
import Macros.Proofs.Tree.Dropped
import Macros.Proofs.Text.Lines
import Macros.Proofs.Grammar.Successive
import Macros.Proofs.CraftLoop.Template
import Macros.Proofs.CraftLoop.Override
import Macros.Proofs.Tree.Variants
import Macros.Proofs.Tree.Loaded
import Macros.Proofs.Execution.Echo
import Macros.Proofs.Execution.Retry
import Macros.Proofs.Scheduler.Observed
import Macros.Proofs.Ini.RequirePaths
import Macros.Proofs.Grammar.Leftover
import Macros.Proofs.Input.Held
import Macros.Proofs.Grammar.Aliases
import Macros.Proofs.Execution.Budget
import Macros.Proofs.CommandLine.RunByName

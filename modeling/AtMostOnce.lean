import AtMostOnce.Table
import AtMostOnce.Sweep
import AtMostOnce.Text.Blank
import AtMostOnce.Text.Cut
import AtMostOnce.Text.Numeral
import AtMostOnce.Text.Utf8
import AtMostOnce.Text.Hidden
import AtMostOnce.Text.Quoted
import AtMostOnce.Text.TaskNumber
import AtMostOnce.Decimal
import AtMostOnce.Json.Document
import AtMostOnce.Json.Written
import AtMostOnce.Json.Scan
import AtMostOnce.Json.Skip
import AtMostOnce.Json.Record
import AtMostOnce.RequestId
import AtMostOnce.Failure.Io
import AtMostOnce.Failure
import AtMostOnce.Fault
import AtMostOnce.Outcome
import AtMostOnce.Usage
import AtMostOnce.OrderedTable
import AtMostOnce.WriteOrder
import AtMostOnce.Memo
import AtMostOnce.Memo.Idle
import AtMostOnce.Coordinator
import AtMostOnce.Coordinator.Idle
import AtMostOnce.Session.Call
import AtMostOnce.Session.State
import AtMostOnce.Session
import AtMostOnce.ConfigError
import AtMostOnce.Bounds
import AtMostOnce.Access
import AtMostOnce.Settings
import AtMostOnce.Timestamp
import AtMostOnce.Catalog
import AtMostOnce.Http.Target
import AtMostOnce.Http.MediaType
import AtMostOnce.Http.Message
import AtMostOnce.Http.Command
import AtMostOnce.Http.Refusal
import AtMostOnce.Http.Route
import AtMostOnce.Http.Server
import AtMostOnce.Http.Conversation
import AtMostOnce.Proofs.Except
import AtMostOnce.Proofs.Table
import AtMostOnce.Proofs.OrderedTable
import AtMostOnce.Proofs.Sweep
import AtMostOnce.Proofs.WriteOrder
import AtMostOnce.Proofs.Catalog
import AtMostOnce.Proofs.Catalog.Changes
import AtMostOnce.Proofs.Edited
import AtMostOnce.Proofs.Memo.Ledger
import AtMostOnce.Proofs.Memo.Sound
import AtMostOnce.Proofs.Memo.Refinement
import AtMostOnce.Proofs.Memo.Keeper
import AtMostOnce.Proofs.Memo.Ownership
import AtMostOnce.Proofs.Memo.Room
import AtMostOnce.Proofs.Memo.Chronology
import AtMostOnce.Proofs.Session.Activity
import AtMostOnce.Proofs.Session.Effect
import AtMostOnce.Proofs.Session.History
import AtMostOnce.Proofs.Session.SingleFlight
import AtMostOnce.Proofs.Session.Verdict
import AtMostOnce.Proofs.Session.Agreement
import AtMostOnce.Proofs.Session.Tally
import AtMostOnce.Proofs.Session.Progress
import AtMostOnce.Proofs.Http.Mirror
import AtMostOnce.Proofs.Http.Figures
import AtMostOnce.Proofs.Http.Retry
import AtMostOnce.Proofs.Memo.Swept
import AtMostOnce.Proofs.Session.Rounds
import AtMostOnce.Proofs.Session.Twin
import AtMostOnce.Proofs.Session.Purge
import AtMostOnce.Proofs.Session.Sweep
import AtMostOnce.Proofs.Http.Refused
import AtMostOnce.Proofs.Http.Deeds
import AtMostOnce.Proofs.Session.Lockstep
import AtMostOnce.Proofs.Session.Departure
import AtMostOnce.Proofs.Session.Unnoticed
import AtMostOnce.Proofs.Catalog.Register
import AtMostOnce.Proofs.Memo.Live
import AtMostOnce.Proofs.Session.Aspect
import AtMostOnce.Proofs.Session.Apart
import AtMostOnce.Proofs.Session.Replaced
import AtMostOnce.Proofs.Session.Gathered
import AtMostOnce.Proofs.Session.Cascade
import AtMostOnce.Proofs.Session.Effort
import AtMostOnce.Proofs.Memo.Balance
import AtMostOnce.Proofs.Memo.Expiry
import AtMostOnce.Proofs.Settings.Gate
import AtMostOnce.Proofs.Settings.Users
import AtMostOnce.Proofs.Http.Login
import AtMostOnce.Proofs.Settings.Entries
import AtMostOnce.Proofs.Text.Numeral
import AtMostOnce.Proofs.Settings.Quantities
import AtMostOnce.Proofs.Catalog.Records
import AtMostOnce.Proofs.Http.Failures
import AtMostOnce.Proofs.Session.Upkeep
import AtMostOnce.Proofs.Http.Upkeep
import AtMostOnce.Proofs.Json.Literal
import AtMostOnce.Proofs.Json.Record
import AtMostOnce.Proofs.Fault

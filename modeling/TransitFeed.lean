import TransitFeed.Text.Blank
import TransitFeed.Calendar.Date
import TransitFeed.Text.Similarity
import TransitFeed.Cli.Arguments
import TransitFeed.Store.Inflate
import TransitFeed.Store.Zip
import TransitFeed.Store.Bzip2
import TransitFeed.Text.Utf8
import TransitFeed.Store.Csv
import TransitFeed.Copy.IdMap
import TransitFeed.Copy.Options
import TransitFeed.Feed.Kind
import TransitFeed.Text.Decimal
import TransitFeed.Text.Number
import TransitFeed.Feed.Issue
import TransitFeed.Copy.Report
import TransitFeed.Text.Integer
import TransitFeed.Value.Clock
import TransitFeed.Value.Sql
import TransitFeed.Json.Basic
import TransitFeed.Value.Basic
import TransitFeed.Feed.Column
import TransitFeed.Feed.Record
import TransitFeed.Feed.Check
import TransitFeed.Feed.Keys
import TransitFeed.Feed.TripSequence
import TransitFeed.Feed.Error
import TransitFeed.Stage.Redate
import TransitFeed.Stage.Rename
import TransitFeed.Stage.Agency
import TransitFeed.Stage.Create
import TransitFeed.Stage.Distance
import TransitFeed.Stage.Pipeline
import TransitFeed.Copy.Engine
import TransitFeed.Feed.Load
import TransitFeed.Store.TextFeed
import TransitFeed.Text.Sha256
import TransitFeed.Store.Archive
import TransitFeed.Store.TextWrite
import TransitFeed.Sql.Convert
import TransitFeed.Sql.Database
import TransitFeed.Sql.Statement
import TransitFeed.Sql.Execute
import TransitFeed.Json.Scan
import TransitFeed.Json.Field
import TransitFeed.Store.Relational
import TransitFeed.Sql.Record
import TransitFeed.Sql.Page
import TransitFeed.Sql.StoreFile
import TransitFeed.Store.WrittenStore
import TransitFeed.Cli.Workspace
import TransitFeed.Config.Stage
import TransitFeed.Config.Basic
import TransitFeed.Config.Read
import TransitFeed.Store.Location
import TransitFeed.Store.Memory
import TransitFeed.Cli.Run
import TransitFeed.Feed.Decode
import TransitFeed.Sql.StoreFile.Read
import TransitFeed.Sql.Dump
import TransitFeed.Sql.StoreFile.Layout
import TransitFeed.Main
import TransitFeed.Proofs.Copy.Exec
import TransitFeed.Proofs.Copy.Reports
import TransitFeed.Proofs.Copy.IdMapLaws
import TransitFeed.Proofs.Copy.ShapeLines
import TransitFeed.Proofs.Copy.Steps
import TransitFeed.Proofs.Stage.Laws
import TransitFeed.Proofs.Copy.Collection
import TransitFeed.Proofs.Store.Memory
import TransitFeed.Proofs.Feed.TripSequence
import TransitFeed.Proofs.Copy.StopTimes
import TransitFeed.Proofs.Copy.Ledger
import TransitFeed.Proofs.Copy.WriteLog
import TransitFeed.Proofs.Copy.TripOrder
import TransitFeed.Proofs.Feed.Remap
import TransitFeed.Proofs.Copy.Keeps
import TransitFeed.Proofs.Copy.Integrity
import TransitFeed.Proofs.Copy.Runs
import TransitFeed.Proofs.Feed.Closed
import TransitFeed.Proofs.Copy.Clean
import TransitFeed.Proofs.Copy.Progress
import TransitFeed.Proofs.Copy.Completeness
import TransitFeed.Proofs.Copy.Provenance
import TransitFeed.Proofs.Copy.EarlyExit
import TransitFeed.Proofs.Value.ClockText
import TransitFeed.Proofs.Store.StopTimeScans
import TransitFeed.Proofs.Copy.TargetWindow
import TransitFeed.Proofs.Copy.Expansions
import TransitFeed.Proofs.Store.ReadBack
import TransitFeed.Proofs.Feed.KeyUpdate
import TransitFeed.Proofs.Copy.StopSettling
import TransitFeed.Proofs.Copy.Deferral
import TransitFeed.Proofs.Text.Decimal
import TransitFeed.Proofs.Calendar.Civil
import TransitFeed.Proofs.Calendar.DateText
import TransitFeed.Proofs.Json.Reading
import TransitFeed.Proofs.Value.Forms
import TransitFeed.Proofs.Stage.Redating
import TransitFeed.Proofs.Feed.SequenceRules
import TransitFeed.Proofs.Feed.RequiredValues
import TransitFeed.Proofs.Feed.Settled
import TransitFeed.Proofs.Store.CopyForm
import TransitFeed.Proofs.Copy.Finishes
import TransitFeed.Proofs.Copy.Replay
import TransitFeed.Proofs.Value.Stored
import TransitFeed.Proofs.Store.ByteOrderMark
import TransitFeed.Proofs.Copy.StageInput
import TransitFeed.Proofs.Stage.DateRange
import TransitFeed.Proofs.Copy.Naturality
import TransitFeed.Proofs.Copy.KeptIds
import TransitFeed.Proofs.Copy.Idempotence
import TransitFeed.Proofs.Copy.Leniency

import ViewHolder.Command.Arguments
import ViewHolder.Command.Failure
import ViewHolder.Command.Flag
import ViewHolder.Command.Session
import ViewHolder.Compile.Affected
import ViewHolder.Compile.Error
import ViewHolder.Compile.Event
import ViewHolder.Compile.Options
import ViewHolder.Compile.Run
import ViewHolder.Decimal.Binary64
import ViewHolder.Decimal.Shortest
import ViewHolder.Holder.Name
import ViewHolder.Holder.Source
import ViewHolder.Json.Line
import ViewHolder.Layout.File
import ViewHolder.Layout.Reader
import ViewHolder.Layout.View
import ViewHolder.Main
import ViewHolder.Markup.Attribute
import ViewHolder.Markup.Document
import ViewHolder.Markup.Fault
import ViewHolder.Markup.Reference
import ViewHolder.Markup.Scope
import ViewHolder.Markup.Token
import ViewHolder.Path.Basic
import ViewHolder.Path.Set
import ViewHolder.Proofs.AccessorNames
import ViewHolder.Proofs.AffectedSet
import ViewHolder.Proofs.AffectedSpellings
import ViewHolder.Proofs.BatchParts
import ViewHolder.Proofs.Bindings
import ViewHolder.Proofs.CapturedNames
import ViewHolder.Proofs.Catalog
import ViewHolder.Proofs.ClassNames
import ViewHolder.Proofs.CompileFrame
import ViewHolder.Proofs.DocumentKeys
import ViewHolder.Proofs.EditDistance
import ViewHolder.Proofs.Edits
import ViewHolder.Proofs.ElementTree
import ViewHolder.Proofs.ElementViews
import ViewHolder.Proofs.Escape
import ViewHolder.Proofs.EventStream
import ViewHolder.Proofs.FailedRuns
import ViewHolder.Proofs.ForcedWrites
import ViewHolder.Proofs.FurtherVariants
import ViewHolder.Proofs.HiddenFiles
import ViewHolder.Proofs.HolderClauses
import ViewHolder.Proofs.HolderFile
import ViewHolder.Proofs.HolderStages
import ViewHolder.Proofs.HolderSteps
import ViewHolder.Proofs.IdForms
import ViewHolder.Proofs.Incremental
import ViewHolder.Proofs.IndependentBatches
import ViewHolder.Proofs.JsonText
import ViewHolder.Proofs.LayoutFile
import ViewHolder.Proofs.ListedFiles
import ViewHolder.Proofs.ListedReport
import ViewHolder.Proofs.Listing
import ViewHolder.Proofs.LiveHolders
import ViewHolder.Proofs.MergedViews
import ViewHolder.Proofs.OpenElements
import ViewHolder.Proofs.OtherOptions
import ViewHolder.Proofs.Path
import ViewHolder.Proofs.PathSet
import ViewHolder.Proofs.PendingChanges
import ViewHolder.Proofs.Progress
import ViewHolder.Proofs.PrunedRuns
import ViewHolder.Proofs.ReadElements
import ViewHolder.Proofs.RepeatedCompile
import ViewHolder.Proofs.RootsAgain
import ViewHolder.Proofs.Run
import ViewHolder.Proofs.RunParts
import ViewHolder.Proofs.RunRecords
import ViewHolder.Proofs.RunSuccess
import ViewHolder.Proofs.SameListing
import ViewHolder.Proofs.SetCalls
import ViewHolder.Proofs.SettingsLayers
import ViewHolder.Proofs.SharedClass
import ViewHolder.Proofs.SharedStem
import ViewHolder.Proofs.SourceText
import ViewHolder.Proofs.Sources
import ViewHolder.Proofs.SpelledReports
import ViewHolder.Proofs.StrayKeys
import ViewHolder.Proofs.SummaryEvents
import ViewHolder.Proofs.TagSpelling
import ViewHolder.Proofs.TextBytes
import ViewHolder.Proofs.Tree
import ViewHolder.Proofs.TreeCalls
import ViewHolder.Proofs.TreeListing
import ViewHolder.Proofs.TreeShape
import ViewHolder.Proofs.TreeViews
import ViewHolder.Proofs.VariantMoves
import ViewHolder.Proofs.WarningLines
import ViewHolder.Proofs.WatchRounds
import ViewHolder.Proofs.WrittenKeys
import ViewHolder.Settings.Basic
import ViewHolder.Settings.Document
import ViewHolder.Settings.Environment
import ViewHolder.Settings.Lookup
import ViewHolder.Settings.Verbosity
import ViewHolder.Settings.Warning
import ViewHolder.Store.Basic
import ViewHolder.Store.Disk
import ViewHolder.Store.Tree
import ViewHolder.Text.Basic
import ViewHolder.Text.Blank
import ViewHolder.Text.Digits
import ViewHolder.Text.Distance
import ViewHolder.Text.Quoted
import ViewHolder.Text.Upper
import ViewHolder.Text.Utf8
import ViewHolder.Toml.Document
import ViewHolder.Toml.Moment
import ViewHolder.Toml.Number
import ViewHolder.Toml.Quoted
import ViewHolder.Toml.Report
import ViewHolder.Toml.Statement
import ViewHolder.Toml.Table
import ViewHolder.Toml.Value
import ViewHolder.Watch.Event
import ViewHolder.Watch.Pending
import ViewHolder.Watch.Session

import TransferCost.Analysis
import TransferCost.Analysis.Document
import TransferCost.Binary64
import TransferCost.Calendar.Date
import TransferCost.Calendar.Timestamp
import TransferCost.CommandLine.Command
import TransferCost.CommandLine.Run
import TransferCost.Cost
import TransferCost.Decimal.Basic
import TransferCost.Decimal.Fixed
import TransferCost.Decimal.Layout
import TransferCost.Decimal.Shortest
import TransferCost.Event
import TransferCost.Exchange
import TransferCost.Failure
import TransferCost.Figure
import TransferCost.Files.Basic
import TransferCost.Files.Tree
import TransferCost.Host
import TransferCost.Improvement
import TransferCost.Intake
import TransferCost.Json.Basic
import TransferCost.Json.Decode
import TransferCost.Json.Reading
import TransferCost.Json.Record
import TransferCost.Json.Token
import TransferCost.Main
import TransferCost.Markdown
import TransferCost.Means
import TransferCost.Partition
import TransferCost.Proofs.Amounts
import TransferCost.Proofs.Averages
import TransferCost.Proofs.Binary64.Absorption
import TransferCost.Proofs.Binary64.Arithmetic
import TransferCost.Proofs.Binary64.Comparison
import TransferCost.Proofs.Binary64.Constants
import TransferCost.Proofs.Binary64.Finite
import TransferCost.Proofs.Binary64.Nearest
import TransferCost.Proofs.Binary64.NotANumber
import TransferCost.Proofs.Binary64.Order
import TransferCost.Proofs.Binary64.Packing
import TransferCost.Proofs.Binary64.Residual
import TransferCost.Proofs.Binary64.Rounding
import TransferCost.Proofs.Binary64.Scientific
import TransferCost.Proofs.Binary64.Signs
import TransferCost.Proofs.Binary64.Steps
import TransferCost.Proofs.Binary64.TotalOrder
import TransferCost.Proofs.Binary64.Whole
import TransferCost.Proofs.Completion
import TransferCost.Proofs.Created
import TransferCost.Proofs.Decimal
import TransferCost.Proofs.DerivedReceived
import TransferCost.Proofs.Exports
import TransferCost.Proofs.Figures
import TransferCost.Proofs.Files
import TransferCost.Proofs.FiniteAnalysis
import TransferCost.Proofs.Forward
import TransferCost.Proofs.Grid
import TransferCost.Proofs.GroupedIntegers
import TransferCost.Proofs.InPlace
import TransferCost.Proofs.Intake
import TransferCost.Proofs.Journal
import TransferCost.Proofs.Json.Decode
import TransferCost.Proofs.Json.Members
import TransferCost.Proofs.Json.Number
import TransferCost.Proofs.Json.Partial
import TransferCost.Proofs.Json.Spacing
import TransferCost.Proofs.Json.Whole
import TransferCost.Proofs.Json.Written
import TransferCost.Proofs.Json.Yields
import TransferCost.Proofs.Lines
import TransferCost.Proofs.Logged
import TransferCost.Proofs.Markdown
import TransferCost.Proofs.Means
import TransferCost.Proofs.Omissions
import TransferCost.Proofs.OneSample
import TransferCost.Proofs.Optimum
import TransferCost.Proofs.OverheadReduction
import TransferCost.Proofs.PartialSettings
import TransferCost.Proofs.Paths
import TransferCost.Proofs.Populate
import TransferCost.Proofs.Quantities
import TransferCost.Proofs.Readable
import TransferCost.Proofs.Reload
import TransferCost.Proofs.ResultDocument
import TransferCost.Proofs.Run
import TransferCost.Proofs.Sample
import TransferCost.Proofs.Scaling
import TransferCost.Proofs.Sections
import TransferCost.Proofs.Session
import TransferCost.Proofs.SharedSizes
import TransferCost.Proofs.SignLaw
import TransferCost.Proofs.Simulation
import TransferCost.Proofs.SizeCosts
import TransferCost.Proofs.Spelling
import TransferCost.Proofs.StandardResidual
import TransferCost.Proofs.Tables
import TransferCost.Proofs.WellFormed
import TransferCost.Proofs.Wording
import TransferCost.Record
import TransferCost.Report
import TransferCost.ResultDocument
import TransferCost.RunId
import TransferCost.Sample
import TransferCost.Scaling
import TransferCost.Settings
import TransferCost.Simulation
import TransferCost.Spelling
import TransferCost.Store
import TransferCost.Study
import TransferCost.Summary
import TransferCost.Table
import TransferCost.Text

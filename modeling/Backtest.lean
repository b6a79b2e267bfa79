import Backtest.Account.Ledger
import Backtest.Account.Position
import Backtest.Account.Trade
import Backtest.CommandLine.Arguments
import Backtest.CommandLine.Assembly
import Backtest.CommandLine.Command
import Backtest.CommandLine.Failure
import Backtest.CommandLine.FileTree
import Backtest.CommandLine.Program
import Backtest.CommandLine.Run
import Backtest.Csv.Printer
import Backtest.Csv.Reader
import Backtest.Decimal.Binary
import Backtest.Decimal.Fixed
import Backtest.Decimal.Layout
import Backtest.Decimal.Reading
import Backtest.Decimal.Shortest
import Backtest.Digest.Blake3
import Backtest.Digest.Block
import Backtest.Digest.Bytes
import Backtest.Document.Basic
import Backtest.Document.JsonPrinter
import Backtest.Document.JsonReader
import Backtest.Document.TomlNumber
import Backtest.Document.TomlReader
import Backtest.Document.TomlString
import Backtest.Document.TomlTree
import Backtest.Experiment.Basic
import Backtest.Indicator.Average
import Backtest.Indicator.Basic
import Backtest.Indicator.Change
import Backtest.Indicator.Strength
import Backtest.Main
import Backtest.Market.Bar
import Backtest.Market.Feed
import Backtest.Market.History
import Backtest.Metrics.Basic
import Backtest.Metrics.Target
import Backtest.NameMap
import Backtest.Parameter.Assignment
import Backtest.Parameter.Declaration
import Backtest.Parameter.Fingerprint
import Backtest.Parameter.Schema
import Backtest.Parameter.Value
import Backtest.Proofs.Account.Agreement
import Backtest.Proofs.Account.Exact
import Backtest.Proofs.Account.Log
import Backtest.Proofs.Account.Reconciliation
import Backtest.Proofs.Account.Split
import Backtest.Proofs.Indicator.Causality
import Backtest.Proofs.Market.Order
import Backtest.Proofs.NameMap
import Backtest.Proofs.Outcome
import Backtest.Proofs.Scalar.Double
import Backtest.Proofs.Scalar.Packing
import Backtest.Proofs.Scalar.Place
import Backtest.Proofs.Scalar.Rational
import Backtest.Proofs.Scalar.Reading
import Backtest.Proofs.Scalar.Rounding
import Backtest.Proofs.Search.Inversion
import Backtest.Proofs.Simulation.Foresight
import Backtest.Proofs.Simulation.Inversion
import Backtest.Proofs.Simulation.Log
import Backtest.Proofs.Simulation.Timing
import Backtest.Proofs.WalkForward.Inversion
import Backtest.Proofs.WalkForward.Leakage
import Backtest.Random.Generator
import Backtest.Random.Uniform
import Backtest.Rejection
import Backtest.Report.Markdown
import Backtest.Report.Run
import Backtest.Report.Search
import Backtest.Report.Table
import Backtest.Report.WalkForward
import Backtest.Scalar
import Backtest.Scalar.Double
import Backtest.Scalar.Extended
import Backtest.Search.Candidates
import Backtest.Search.Config
import Backtest.Search.Outcome
import Backtest.Search.Space
import Backtest.Simulation.Costs
import Backtest.Simulation.Evaluation
import Backtest.Simulation.Order
import Backtest.Simulation.Run
import Backtest.Storage.Bundle
import Backtest.Storage.Experiment
import Backtest.Storage.Parameter
import Backtest.Storage.Record
import Backtest.Storage.Run
import Backtest.Storage.Search
import Backtest.Storage.WalkForward
import Backtest.Strategy.Basic
import Backtest.Strategy.BuyAndHold
import Backtest.Strategy.Crossover
import Backtest.Strategy.Momentum
import Backtest.Strategy.Registry
import Backtest.Strategy.Threshold
import Backtest.Text.Blank
import Backtest.Text.Quoted
import Backtest.Text.Unseen
import Backtest.Time.Date
import Backtest.Time.Printer
import Backtest.Time.Reader
import Backtest.Time.Timestamp
import Backtest.WalkForward.Plan
import Backtest.WalkForward.Run
import Backtest.WalkForward.Summary
import Backtest.Proofs.Search.Accounting
import Backtest.Proofs.Parameter.Resolution
import Backtest.Proofs.Search.Ranking
import Backtest.Proofs.Simulation.Exact
import Backtest.Proofs.Simulation.Sizing
import Backtest.Proofs.Simulation.Solvency
import Backtest.Proofs.Strategy.Window
import Backtest.Proofs.Account.Flatness
import Backtest.Proofs.Simulation.Liquidation
import Backtest.Proofs.Simulation.Compounding
import Backtest.Proofs.Simulation.Leverage
import Backtest.Proofs.Simulation.LeadIn
import Backtest.Proofs.Simulation.Finiteness
import Backtest.Proofs.Simulation.Neutrality
import Backtest.Proofs.Storage.Search
import Backtest.Proofs.WalkForward.Tiling
import Backtest.Proofs.Search.Restriction
import Backtest.Proofs.Parameter.Domain
import Backtest.Proofs.Search.Reach
import Backtest.Proofs.Search.Grid
import Backtest.Proofs.Search.Drawn
import Backtest.Proofs.Search.Distinct
import Backtest.Proofs.Scalar.Quotient
import Backtest.Proofs.Metrics.Range
import Backtest.Proofs.Storage.Run
import Backtest.Proofs.Experiment.Resolved
import Backtest.Proofs.Search.Sparse
import Backtest.Proofs.WalkForward.Accounting
import Backtest.Proofs.Search.GridOrder
import Backtest.Proofs.Search.Stride
import Backtest.Proofs.Indicator.Exact
import Backtest.Proofs.Indicator.Voids
import Backtest.Proofs.Scalar.Total
import Backtest.Proofs.Indicator.Window
import Backtest.Proofs.Indicator.Smoothing
import Backtest.Proofs.Indicator.Range
import Backtest.Proofs.Scalar.Scaling
import Backtest.Proofs.Indicator.Scaling
import Backtest.Proofs.Strategy.Scaling
import Backtest.Proofs.Indicator.Trend
import Backtest.Proofs.Simulation.Entry
import Backtest.Proofs.Strategy.Trend
import Backtest.Proofs.Account.Division
import Backtest.Proofs.Account.Reversal
import Backtest.Proofs.Account.Journal
import Backtest.Proofs.Account.RoundTrips
import Backtest.Proofs.Account.Averages
import Backtest.Proofs.Simulation.Fills
import Backtest.Proofs.Simulation.GrossProfit
import Backtest.Proofs.Simulation.Targets
import Backtest.Proofs.Simulation.Purchase
import Backtest.Proofs.Metrics.Scaling
import Backtest.Proofs.Metrics.Drawdown
import Backtest.Proofs.Metrics.Fallbacks
import Backtest.Proofs.Digest.Bytes
import Backtest.Proofs.Parameter.Fingerprint
import Backtest.Proofs.Parameter.Idempotence
import Backtest.Proofs.Parameter.Ladder
import Backtest.Proofs.Scalar.Division
import Backtest.Proofs.WalkForward.Degradation
import Backtest.Proofs.Indicator.Recovery
import Backtest.Proofs.Time.Valid
import Backtest.Proofs.Time.Shown
import Backtest.Proofs.Csv.Records
import Backtest.Proofs.Report.Table

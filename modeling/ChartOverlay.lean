import ChartOverlay.Arith.Basic
import ChartOverlay.Arith.Double
import ChartOverlay.Arith.Fault
import ChartOverlay.Arith.Sum
import ChartOverlay.Candle
import ChartOverlay.CommandLine.Arguments
import ChartOverlay.CommandLine.Files
import ChartOverlay.CommandLine.Run
import ChartOverlay.Decimal.Shortest
import ChartOverlay.Engine.Basic
import ChartOverlay.Engine.BullBear
import ChartOverlay.Engine.Logistic
import ChartOverlay.Engine.Outcome
import ChartOverlay.Engine.Position
import ChartOverlay.Engine.Registry
import ChartOverlay.Engine.Regression
import ChartOverlay.Engine.Training
import ChartOverlay.Feed.Loading
import ChartOverlay.Feed.Payload
import ChartOverlay.Feed.Placeholder
import ChartOverlay.Feed.Provider
import ChartOverlay.History
import ChartOverlay.Indicator.Average
import ChartOverlay.Indicator.Calculator
import ChartOverlay.Indicator.Descriptor
import ChartOverlay.Indicator.Extreme
import ChartOverlay.Indicator.Gaussian
import ChartOverlay.Indicator.Oscillator
import ChartOverlay.Indicator.Window
import ChartOverlay.Json.Basic
import ChartOverlay.Json.Printer
import ChartOverlay.Json.Reader
import ChartOverlay.Main
import ChartOverlay.Overlay
import ChartOverlay.Proofs.Accounting
import ChartOverlay.Proofs.Alignment
import ChartOverlay.Proofs.Assignments
import ChartOverlay.Proofs.Averages
import ChartOverlay.Proofs.Bands
import ChartOverlay.Proofs.Batch
import ChartOverlay.Proofs.Bell
import ChartOverlay.Proofs.BullBearFaults
import ChartOverlay.Proofs.Calendar
import ChartOverlay.Proofs.Causal
import ChartOverlay.Proofs.Chronology
import ChartOverlay.Proofs.Constants
import ChartOverlay.Proofs.Delivery
import ChartOverlay.Proofs.Descriptors
import ChartOverlay.Proofs.Double
import ChartOverlay.Proofs.DoubleBounds
import ChartOverlay.Proofs.DoubleLaws
import ChartOverlay.Proofs.DoubleNearest
import ChartOverlay.Proofs.DoubleOrder
import ChartOverlay.Proofs.DoubleRange
import ChartOverlay.Proofs.DoubleSpecial
import ChartOverlay.Proofs.Embedded
import ChartOverlay.Proofs.Exact
import ChartOverlay.Proofs.Extremes
import ChartOverlay.Proofs.Grammar
import ChartOverlay.Proofs.Growth
import ChartOverlay.Proofs.InputLines
import ChartOverlay.Proofs.InstantSpelling
import ChartOverlay.Proofs.JsonReading
import ChartOverlay.Proofs.Kernel
import ChartOverlay.Proofs.Layout
import ChartOverlay.Proofs.LeastSquares
import ChartOverlay.Proofs.Legibility
import ChartOverlay.Proofs.LogisticFaults
import ChartOverlay.Proofs.Mirror
import ChartOverlay.Proofs.Moderate
import ChartOverlay.Proofs.Names
import ChartOverlay.Proofs.Occurrences
import ChartOverlay.Proofs.Packing
import ChartOverlay.Proofs.Parameters
import ChartOverlay.Proofs.Partial
import ChartOverlay.Proofs.PayloadErrors
import ChartOverlay.Proofs.Phrases
import ChartOverlay.Proofs.Placement
import ChartOverlay.Proofs.Plan
import ChartOverlay.Proofs.Powers
import ChartOverlay.Proofs.PriceRange
import ChartOverlay.Proofs.RandomWalk
import ChartOverlay.Proofs.Recovery
import ChartOverlay.Proofs.Registration
import ChartOverlay.Proofs.RegressionFaults
import ChartOverlay.Proofs.Relabeling
import ChartOverlay.Proofs.Repainting
import ChartOverlay.Proofs.Rescaling
import ChartOverlay.Proofs.Runs
import ChartOverlay.Proofs.Seeds
import ChartOverlay.Proofs.Sendable
import ChartOverlay.Proofs.SignalLine
import ChartOverlay.Proofs.Sketch
import ChartOverlay.Proofs.Smoothing
import ChartOverlay.Proofs.Spelling
import ChartOverlay.Proofs.Strength
import ChartOverlay.Proofs.Sums
import ChartOverlay.Proofs.Surfaces
import ChartOverlay.Proofs.TimeOrder
import ChartOverlay.Proofs.Timeline
import ChartOverlay.Proofs.Tokens
import ChartOverlay.Proofs.Traces
import ChartOverlay.Proofs.Training
import ChartOverlay.Proofs.Undefined
import ChartOverlay.Report
import ChartOverlay.Script.Classification
import ChartOverlay.Script.Color
import ChartOverlay.Script.Error
import ChartOverlay.Script.Line
import ChartOverlay.Script.Parameter
import ChartOverlay.Script.Template
import ChartOverlay.Series
import ChartOverlay.Service
import ChartOverlay.Service.Host
import ChartOverlay.Service.Reference
import ChartOverlay.Service.Route
import ChartOverlay.Service.Target
import ChartOverlay.Text.Basic
import ChartOverlay.Text.Blank
import ChartOverlay.Text.Capital
import ChartOverlay.Text.Digit
import ChartOverlay.Text.Encoding
import ChartOverlay.Text.Number
import ChartOverlay.Text.Quoted
import ChartOverlay.Text.Range
import ChartOverlay.Text.Scan
import ChartOverlay.Text.Unit
import ChartOverlay.Text.Utf8
import ChartOverlay.Text.Word
import ChartOverlay.Time.Calendar
import ChartOverlay.Time.Instant
import ChartOverlay.Validation.Field
import ChartOverlay.Validation.Problem
import ChartOverlay.Validation.Record

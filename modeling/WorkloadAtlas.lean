import WorkloadAtlas.Bounds
import WorkloadAtlas.CommandLine
import WorkloadAtlas.CommandLine.Reader
import WorkloadAtlas.CommandLine.Setting
import WorkloadAtlas.Delta
import WorkloadAtlas.Failure
import WorkloadAtlas.Figure
import WorkloadAtlas.Files.Document
import WorkloadAtlas.Files.Error
import WorkloadAtlas.Files.Tree
import WorkloadAtlas.Histogram
import WorkloadAtlas.Host
import WorkloadAtlas.Log
import WorkloadAtlas.Main
import WorkloadAtlas.Number.Binary
import WorkloadAtlas.Number.Decimal
import WorkloadAtlas.Number.Numeral
import WorkloadAtlas.Number.Order
import WorkloadAtlas.Number.Width
import WorkloadAtlas.Path
import WorkloadAtlas.Pattern
import WorkloadAtlas.Plot.Axis
import WorkloadAtlas.Plot.Boxplot
import WorkloadAtlas.Plot.Canvas
import WorkloadAtlas.Plot.Chart
import WorkloadAtlas.Plot.Drawing
import WorkloadAtlas.Plot.Gallery
import WorkloadAtlas.Plot.Interval
import WorkloadAtlas.Plot.Svg
import WorkloadAtlas.Program
import WorkloadAtlas.Program.Abort
import WorkloadAtlas.Progress
import WorkloadAtlas.Proofs.Acceptance
import WorkloadAtlas.Proofs.Addresses
import WorkloadAtlas.Proofs.Advance
import WorkloadAtlas.Proofs.Arithmetic
import WorkloadAtlas.Proofs.Arrangement
import WorkloadAtlas.Proofs.Axes
import WorkloadAtlas.Proofs.Balancing
import WorkloadAtlas.Proofs.Bars
import WorkloadAtlas.Proofs.Binning
import WorkloadAtlas.Proofs.Calculations
import WorkloadAtlas.Proofs.Canonical
import WorkloadAtlas.Proofs.Cells
import WorkloadAtlas.Proofs.Changes
import WorkloadAtlas.Proofs.Columns
import WorkloadAtlas.Proofs.Conduct
import WorkloadAtlas.Proofs.Course
import WorkloadAtlas.Proofs.Cutting
import WorkloadAtlas.Proofs.Detour
import WorkloadAtlas.Proofs.Directories
import WorkloadAtlas.Proofs.Doubles
import WorkloadAtlas.Proofs.Encoding
import WorkloadAtlas.Proofs.Endpoints
import WorkloadAtlas.Proofs.Exhibition
import WorkloadAtlas.Proofs.Extents
import WorkloadAtlas.Proofs.Failures
import WorkloadAtlas.Proofs.Faithful
import WorkloadAtlas.Proofs.Finiteness
import WorkloadAtlas.Proofs.Indices
import WorkloadAtlas.Proofs.Infinities
import WorkloadAtlas.Proofs.Interpolation
import WorkloadAtlas.Proofs.Itinerary
import WorkloadAtlas.Proofs.Joining
import WorkloadAtlas.Proofs.Journey
import WorkloadAtlas.Proofs.Keys
import WorkloadAtlas.Proofs.Levels
import WorkloadAtlas.Proofs.Literals
import WorkloadAtlas.Proofs.Loading
import WorkloadAtlas.Proofs.Margins
import WorkloadAtlas.Proofs.Monotony
import WorkloadAtlas.Proofs.Narrowing
import WorkloadAtlas.Proofs.Nearest
import WorkloadAtlas.Proofs.Numerals
import WorkloadAtlas.Proofs.Outcome
import WorkloadAtlas.Proofs.Outline
import WorkloadAtlas.Proofs.Pairs
import WorkloadAtlas.Proofs.Passage
import WorkloadAtlas.Proofs.Patterns
import WorkloadAtlas.Proofs.Permutations
import WorkloadAtlas.Proofs.Places
import WorkloadAtlas.Proofs.Precedence
import WorkloadAtlas.Proofs.Ranges
import WorkloadAtlas.Proofs.Ranks
import WorkloadAtlas.Proofs.Refusals
import WorkloadAtlas.Proofs.Resolution
import WorkloadAtlas.Proofs.Rounding
import WorkloadAtlas.Proofs.Rows
import WorkloadAtlas.Proofs.Scalars
import WorkloadAtlas.Proofs.Session
import WorkloadAtlas.Proofs.Sheets
import WorkloadAtlas.Proofs.Shortest
import WorkloadAtlas.Proofs.Singles
import WorkloadAtlas.Proofs.Slots
import WorkloadAtlas.Proofs.Spelling
import WorkloadAtlas.Proofs.Surroundings
import WorkloadAtlas.Proofs.Survey
import WorkloadAtlas.Proofs.Tallies
import WorkloadAtlas.Proofs.Tightness
import WorkloadAtlas.Proofs.Trace
import WorkloadAtlas.Proofs.Writing
import WorkloadAtlas.Quantile
import WorkloadAtlas.Report
import WorkloadAtlas.Run
import WorkloadAtlas.Sample
import WorkloadAtlas.Simulation
import WorkloadAtlas.Simulation.Config
import WorkloadAtlas.Stats
import WorkloadAtlas.Table
import WorkloadAtlas.Table.Column
import WorkloadAtlas.Table.Field
import WorkloadAtlas.Table.Kind
import WorkloadAtlas.Text.CombiningMark
import WorkloadAtlas.Text.DecimalDigit
import WorkloadAtlas.Text.Quoted
import WorkloadAtlas.Text.Range
import WorkloadAtlas.Text.Unprintable
import WorkloadAtlas.Text.Utf8
import WorkloadAtlas.Workloads.Error
import WorkloadAtlas.Workloads.Layout
import WorkloadAtlas.Workloads.Load
import WorkloadAtlas.Workspace
import WorkloadAtlas.Yaml
import WorkloadAtlas.Yaml.BlockScalar
import WorkloadAtlas.Yaml.Character
import WorkloadAtlas.Yaml.Cursor
import WorkloadAtlas.Yaml.FlowScalar
import WorkloadAtlas.Yaml.Lexer
import WorkloadAtlas.Yaml.Node
import WorkloadAtlas.Yaml.Tag
import WorkloadAtlas.Yaml.Token

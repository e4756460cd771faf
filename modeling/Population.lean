import Population.Allowance
import Population.Analysis.Pipeline
import Population.Analysis.Service
import Population.Analysis.Verdict
import Population.Bus
import Population.Clock
import Population.CommandLine.Command
import Population.CommandLine.Flag
import Population.CommandLine.Jobs
import Population.CommandLine.Machine
import Population.CommandLine.Run
import Population.CommandLine.Systems
import Population.Composition.Basic
import Population.Composition.Expansion
import Population.CounterSystem.Basic
import Population.CounterSystem.Draft
import Population.CounterSystem.Printer
import Population.CounterSystem.Reader
import Population.Description.Audit
import Population.Description.Basic
import Population.Description.Key
import Population.Description.Reader
import Population.Duration
import Population.Encoding.Basic
import Population.Guard
import Population.Job.Address
import Population.Job.Basic
import Population.Job.Durable
import Population.Job.Memory
import Population.Job.Registry
import Population.Job.Storage
import Population.Job.Store
import Population.Log.Basic
import Population.Main
import Population.Marking
import Population.Metrics
import Population.Oracle.Basic
import Population.Oracle.Consultation
import Population.Oracle.External
import Population.Oracle.Retry
import Population.Oracle.Script
import Population.Proofs.Analysis.ManualCompletion
import Population.Proofs.Analysis.Outcome
import Population.Proofs.Analysis.PushOrder
import Population.Proofs.Analysis.Record
import Population.Proofs.Analysis.Verdict
import Population.Proofs.Bus.Exactness
import Population.Proofs.Clock.Punctuality
import Population.Proofs.Composition.Enumeration
import Population.Proofs.Composition.Groups
import Population.Proofs.Composition.Sides
import Population.Proofs.Configuration.Basic
import Population.Proofs.Configuration.Exchange
import Population.Proofs.CounterSystem.Agreement
import Population.Proofs.CounterSystem.Comments
import Population.Proofs.CounterSystem.Drafting
import Population.Proofs.CounterSystem.Naming
import Population.Proofs.CounterSystem.Reachability
import Population.Proofs.CounterSystem.ReadingBack
import Population.Proofs.CounterSystem.Staleness
import Population.Proofs.CounterSystem.Updates
import Population.Proofs.Description.Audit
import Population.Proofs.Description.Insertion
import Population.Proofs.Description.ReadingBack
import Population.Proofs.Description.Spacing
import Population.Proofs.Description.Summary
import Population.Proofs.Description.WellFormed
import Population.Proofs.Encoding.Abstraction
import Population.Proofs.Encoding.Covering
import Population.Proofs.Encoding.Deduplication
import Population.Proofs.Encoding.Extraction
import Population.Proofs.Encoding.Finiteness
import Population.Proofs.Encoding.Hazards
import Population.Proofs.Encoding.Monotonicity
import Population.Proofs.Encoding.ReadingBack
import Population.Proofs.Encoding.Replacement
import Population.Proofs.Encoding.Safety
import Population.Proofs.Encoding.Sealed
import Population.Proofs.Guard.Grammar
import Population.Proofs.Job.Interchange
import Population.Proofs.Job.Lifecycle
import Population.Proofs.Job.Polling
import Population.Proofs.Oracle.Formula
import Population.Proofs.Oracle.Repetition
import Population.Proofs.Simulation.Trace
import Population.Proofs.StateSpace.Exploration
import Population.Proofs.StateSpace.Graph
import Population.Proofs.StateSpace.Invariant
import Population.Proofs.StateSpace.Limit
import Population.Proofs.StateSpace.Path
import Population.Proofs.StateSpace.Property
import Population.Proofs.StateSpace.Query
import Population.Settings.Basic
import Population.Settings.Field
import Population.Settings.File
import Population.Settings.Loading
import Population.Settings.Problem
import Population.Simulation
import Population.StateSpace.Basic
import Population.StateSpace.Discovery
import Population.StateSpace.Drawing
import Population.StateSpace.Path
import Population.StateSpace.Property
import Population.StateSpace.Search
import Population.Text.Basic
import Population.Text.Decimal
import Population.Text.Float
import Population.Text.Glyph
import Population.Text.LowerCase
import Population.Text.Parameters
import Population.Text.Printable
import Population.Text.Quoted
import Population.Text.Radix
import Population.Text.Word
import Population.Workspace
import Population.Yaml.Cursor
import Population.Yaml.Node
import Population.Yaml.Property
import Population.Yaml.Reader
import Population.Yaml.Scalar
import Population.Yaml.Source
import Population.Yaml.Timestamp
import Population.Yaml.TokenQueue
import Population.Yaml.Value

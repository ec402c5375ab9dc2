import Depsolve.Association
import Depsolve.CommandLine.Command
import Depsolve.CommandLine.Run
import Depsolve.CommandLine.Switch
import Depsolve.Config
import Depsolve.Cycle
import Depsolve.Cycle.Session
import Depsolve.Cycle.State
import Depsolve.Decimal.Shortest
import Depsolve.Decisions
import Depsolve.Demands
import Depsolve.Dependency
import Depsolve.Error
import Depsolve.Evr
import Depsolve.Glob
import Depsolve.Goal
import Depsolve.IdSet
import Depsolve.Job
import Depsolve.Json.Basic
import Depsolve.Json.Fault
import Depsolve.Json.Number
import Depsolve.Json.Reader
import Depsolve.Log
import Depsolve.Main
import Depsolve.Nevra
import Depsolve.Package
import Depsolve.PackageSet
import Depsolve.PackageSet.Command
import Depsolve.Plan
import Depsolve.Plan.Materialize
import Depsolve.Plan.Order
import Depsolve.Policy
import Depsolve.Problem
import Depsolve.Query
import Depsolve.Repository
import Depsolve.Repository.Document
import Depsolve.Request
import Depsolve.Selector
import Depsolve.Settings
import Depsolve.Settings.Environment
import Depsolve.Settings.Strict
import Depsolve.Solver.Attempt
import Depsolve.Solver.CarryOut
import Depsolve.Solver.Note
import Depsolve.Solver.Precheck
import Depsolve.Solver.Repair
import Depsolve.Solver.Settle
import Depsolve.Solver.Solve
import Depsolve.Solver.Trial
import Depsolve.Sort
import Depsolve.Text.Blank
import Depsolve.Text.Hidden
import Depsolve.Text.Keyword
import Depsolve.Text.Numeral
import Depsolve.Text.Quoted
import Depsolve.Text.Uppercase
import Depsolve.Universe
import Depsolve.Universe.Build
import Depsolve.Universe.Index
import Depsolve.Version.Compare
import Depsolve.Version.Token
import Depsolve.Proofs.Plan.Countdown
import Depsolve.Proofs.Plan.Order
import Depsolve.Proofs.Plan.Replay
import Depsolve.Proofs.Universe.Lookup
import Depsolve.Proofs.Plan.Conservation
import Depsolve.Proofs.Plan.Precedence
import Depsolve.Proofs.Plan.Layout
import Depsolve.Proofs.Plan.Labels
import Depsolve.Proofs.Plan.Canonical
import Depsolve.Proofs.Solver.Arrival
import Depsolve.Proofs.Solver.Mending
import Depsolve.Proofs.Solver.Run
import Depsolve.Proofs.Solver.Solution
import Depsolve.Proofs.Solver.Consistency
import Depsolve.Proofs.Solver.Change
import Depsolve.Proofs.Solver.Protection
import Depsolve.Proofs.Version.Order
import Depsolve.Proofs.Solver.Admission
import Depsolve.Proofs.Solver.Step
import Depsolve.Proofs.Solver.Survival
import Depsolve.Proofs.Plan.Classification
import Depsolve.Proofs.Solver.Duplicates
import Depsolve.Proofs.Solver.Descent
import Depsolve.Proofs.Solver.Removal
import Depsolve.Proofs.Solver.Backtracking
import Depsolve.Proofs.Solver.Exhaustion
import Depsolve.Proofs.Solver.Omission
import Depsolve.Proofs.Solver.Looks
import Depsolve.Proofs.Solver.Budget
import Depsolve.Proofs.Solver.Erasure
import Depsolve.Proofs.Solver.AnyOrder
import Depsolve.Proofs.Version.Normal
import Depsolve.Proofs.Solver.Displacement
import Depsolve.Proofs.Solver.Family
import Depsolve.Proofs.Universe.Renaming
import Depsolve.Proofs.Universe.Embedding
import Depsolve.Proofs.Solver.Mirror.Trial
import Depsolve.Proofs.Solver.Mirror.Settle
import Depsolve.Proofs.Solver.Mirror.Attempt
import Depsolve.Proofs.Solver.Mirror.Jobs
import Depsolve.Proofs.Solver.Mirror.Precheck
import Depsolve.Proofs.Solver.Mirror.Solve
import Depsolve.Proofs.Solver.Mirror.Request
import Depsolve.Proofs.Universe.Exclusion
import Depsolve.Proofs.Solver.Exclusion
import Depsolve.Proofs.Version.Density
import Depsolve.Proofs.Version.Encoding
import Depsolve.Proofs.Dependency.Overlap
import Depsolve.Proofs.Dependency.Interval
import Depsolve.Proofs.Cycle.Rules
import Depsolve.Proofs.Cycle.Ledger
import Depsolve.Proofs.Cycle.Stage
import Depsolve.Proofs.Cycle.Diagram
import Depsolve.Proofs.Cycle.Custody
import Depsolve.Proofs.Cycle.Freeze
import Depsolve.Proofs.Sort
import Depsolve.Proofs.Universe.Generation
import Depsolve.Proofs.Universe.Numbering
import Depsolve.Proofs.Universe.Scan
import Depsolve.Proofs.PackageSet.Extent
import Depsolve.Proofs.Cycle.Alike
import Depsolve.Proofs.Cycle.Renewal
import Depsolve.Proofs.Solver.Dependents
import Depsolve.Proofs.Solver.Cleaning
import Depsolve.Proofs.Solver.Contradiction
import Depsolve.Proofs.Solver.Wishes
import Depsolve.Proofs.Solver.Labels
import Depsolve.Proofs.Text.Cut
import Depsolve.Proofs.Text.Numeral
import Depsolve.Proofs.Text.Backtracking
import Depsolve.Proofs.Nevra.Tail
import Depsolve.Proofs.Nevra.Ways
import Depsolve.Proofs.Nevra.Spelling
import Depsolve.Proofs.Evr.RoundTrip
import Depsolve.Proofs.Dependency.Ways
import Depsolve.Proofs.Dependency.Grammar
import Depsolve.Proofs.Selector.Identity
import Depsolve.Proofs.Query.Composition
import Depsolve.Proofs.Query.Winners
import Depsolve.Proofs.Selector.Fallback
import Depsolve.Proofs.Selector.Builder
import Depsolve.Proofs.Association
import Depsolve.Proofs.Query.Ranking
import Depsolve.Proofs.Query.Replay
import Depsolve.Proofs.Json.Stray
import Depsolve.Proofs.Json.Outermost
import Depsolve.Proofs.Json.Course
import Depsolve.Proofs.Json.Integer
import Depsolve.Proofs.Json.RoundTrip
import Depsolve.Proofs.Settings.Value
import Depsolve.Proofs.Settings.Layers
import Depsolve.Proofs.Settings.Saved
import Depsolve.Proofs.Solver.Diagnosis
import Depsolve.Proofs.Glob

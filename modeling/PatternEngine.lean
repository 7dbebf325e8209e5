import PatternEngine.Boundary.Create
import PatternEngine.Encoder
import PatternEngine.Environment.Compile
import PatternEngine.Environment.Load
import PatternEngine.Proofs.Engine.FreedHandles
import PatternEngine.Proofs.Engine.HandleMap
import PatternEngine.Proofs.Environment.Compilation
import PatternEngine.Proofs.Match.Refinement
import PatternEngine.StandardLibrary
import PatternEngine.Trace
import PatternEngine.Proofs.Match.Leftmost
import PatternEngine.Proofs.Engine.CompleteImports
import PatternEngine.Proofs.Source.Concatenation
import PatternEngine.Proofs.Source.Modes
import PatternEngine.Proofs.Engine.Registries
import PatternEngine.Proofs.Text.JsonLayouts
import PatternEngine.Proofs.Engine.EncoderPaths
import PatternEngine.Proofs.Source.Grammar
import PatternEngine.Proofs.Engine.FailedLoads
import PatternEngine.Proofs.Source.NestingLimit
import PatternEngine.Proofs.Match.Termination
import PatternEngine.Proofs.Engine.Deliveries
import PatternEngine.Proofs.Source.Contents
import PatternEngine.Proofs.Environment.Loading
import PatternEngine.Proofs.Environment.Problems
import PatternEngine.Proofs.Environment.Closure
import PatternEngine.Proofs.Match.LargerLimits
import PatternEngine.Proofs.Match.Trees
import PatternEngine.Proofs.Match.Checked
import PatternEngine.Proofs.Engine.Outputs
import PatternEngine.Proofs.Source.Printing
import PatternEngine.Proofs.Source.RoundTrip
import PatternEngine.Proofs.Engine.WrittenFiles
import PatternEngine.Proofs.Engine.MatchedFiles
import PatternEngine.Proofs.Engine.Reports
import PatternEngine.Proofs.Engine.RcFiles
import PatternEngine.Proofs.Engine.Isolation
import PatternEngine.Proofs.Match.Attempts
import PatternEngine.Proofs.Match.Nullability
import PatternEngine.Proofs.Match.TracedMatches
import PatternEngine.Proofs.Match.Unrolling
import PatternEngine.Proofs.Boundary.Simulation
import PatternEngine.Proofs.Environment.Aliasing
import PatternEngine.Proofs.Environment.Hygiene
import PatternEngine.Proofs.Match.Characters
import PatternEngine.Proofs.Source.Literals
import PatternEngine.Proofs.Source.RepetitionBounds
import PatternEngine.Proofs.Source.BracketSets
import PatternEngine.Proofs.Engine.EncodedTrees
import PatternEngine.Proofs.Engine.PaintedMatches
import PatternEngine.Proofs.Engine.RcLayouts
import PatternEngine.Proofs.Source.CheckedParser
import PatternEngine.Proofs.Boundary.Messages
import PatternEngine.Proofs.Engine.AllocationLimits
import PatternEngine.Proofs.Environment.EmptyMatches

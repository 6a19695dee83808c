import NamedLambda.Main
import NamedLambda.Proofs.Addresses
import NamedLambda.Proofs.BatchRuns
import NamedLambda.Proofs.Calls
import NamedLambda.Proofs.Capture
import NamedLambda.Proofs.CommentDepth
import NamedLambda.Proofs.Completion
import NamedLambda.Proofs.EntryPoints
import NamedLambda.Proofs.Extension
import NamedLambda.Proofs.FirstRedex
import NamedLambda.Proofs.History
import NamedLambda.Proofs.Instantiation
import NamedLambda.Proofs.Joining
import NamedLambda.Proofs.KnownReferences
import NamedLambda.Proofs.LexicalResolution
import NamedLambda.Proofs.Locations
import NamedLambda.Proofs.Mistakes
import NamedLambda.Proofs.Nameless
import NamedLambda.Proofs.Opening
import NamedLambda.Proofs.Outline
import NamedLambda.Proofs.Parsing
import NamedLambda.Proofs.Printing
import NamedLambda.Proofs.Progress
import NamedLambda.Proofs.Reports
import NamedLambda.Proofs.ScopeTests
import NamedLambda.Proofs.ShellRuns
import NamedLambda.Proofs.SourceText
import NamedLambda.Proofs.Standard
import NamedLambda.Proofs.StepLimits
import NamedLambda.Proofs.StuckTerms
import NamedLambda.Proofs.Templates
import NamedLambda.Proofs.Traces
import NamedLambda.Proofs.Trajectory
import NamedLambda.Proofs.Unambiguous
import NamedLambda.Proofs.WeakHead

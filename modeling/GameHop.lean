import GameHop.Main
import GameHop.Proofs.Check.Charges
import GameHop.Proofs.Check.Histories
import GameHop.Proofs.Check.Imports
import GameHop.Proofs.Check.OpenFrames
import GameHop.Proofs.Formatting.Parentheses
import GameHop.Proofs.Formatting.RoundTrip
import GameHop.Proofs.Inlining.Apart
import GameHop.Proofs.Inlining.Calls
import GameHop.Proofs.Inlining.Dangling
import GameHop.Proofs.Matching.Completeness
import GameHop.Proofs.Program.Depth
import GameHop.Proofs.Program.InStep
import GameHop.Proofs.Program.Interning
import GameHop.Proofs.Program.Numbers
import GameHop.Proofs.Program.Quantifiers
import GameHop.Proofs.Program.Rendering
import GameHop.Proofs.Program.ScalarCode
import GameHop.Proofs.Reading.Lossless
import GameHop.Proofs.Rewriting.Capture
import GameHop.Proofs.Rewriting.Log
import GameHop.Proofs.Schedule.Outcome
import GameHop.Proofs.Unfolding.Dangling
import GameHop.Proofs.Verifier.Reload
import GameHop.Term.Parens

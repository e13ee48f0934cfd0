import Chomsky.Chart.Basic
import Chomsky.Chart.Filling
import Chomsky.Chart.Lemmas
import Chomsky.Chart.Producers
import Chomsky.CommandLine.Arguments
import Chomsky.CommandLine.Command
import Chomsky.CommandLine.Disk
import Chomsky.CommandLine.Machine
import Chomsky.CommandLine.Run
import Chomsky.CommandLine.Value
import Chomsky.Derivation.Form
import Chomsky.Derivation.Sampling
import Chomsky.Derivation.Search
import Chomsky.Diagnostics
import Chomsky.Grammar.Basic
import Chomsky.Grammar.Lemmas
import Chomsky.Grammar.Parser
import Chomsky.Main
import Chomsky.Random.Keystream
import Chomsky.Random.Words
import Chomsky.Recogniser
import Chomsky.Rule.Fault
import Chomsky.Rule.Parser
import Chomsky.Samples
import Chomsky.Symbol
import Chomsky.Text.Blank
import Chomsky.Text.Lines
import Chomsky.Text.Numeral
import Chomsky.Text.Quoted
import Chomsky.Text.Uppercase
import Chomsky.Proofs.Text.Words
import Chomsky.Proofs.Text.Lines
import Chomsky.Proofs.Text.Numeral
import Chomsky.Proofs.Rule.Arrow
import Chomsky.Proofs.Rule.Line
import Chomsky.Proofs.Grammar.Rules
import Chomsky.Proofs.Grammar.Reading
import Chomsky.Proofs.Grammar.Composition
import Chomsky.Proofs.Grammar.WellFormed
import Chomsky.Proofs.Rule.Uppercase
import Chomsky.Proofs.Grammar.RoundTrip
import Chomsky.Proofs.Derivation.Tree
import Chomsky.Proofs.Derivation.Rewriting
import Chomsky.Proofs.Derivation.Levels
import Chomsky.Proofs.Derivation.Enumeration
import Chomsky.Proofs.Derivation.Bounds
import Chomsky.Proofs.Derivation.Depth
import Chomsky.Proofs.Chart.Producers
import Chomsky.Proofs.Chart.Cells
import Chomsky.Proofs.Chart.Membership
import Chomsky.Proofs.Chart.Filling
import Chomsky.Proofs.Agreement
import Chomsky.Proofs.Complement
import Chomsky.Proofs.Closure
import Chomsky.Proofs.Random.Draws
import Chomsky.Proofs.Derivation.Sampling
import Chomsky.Proofs.CommandLine.Arguments
import Chomsky.Proofs.CommandLine.Requests
import Chomsky.Proofs.CommandLine.Deciding
import Chomsky.Proofs.CommandLine.Files
import Chomsky.Proofs.CommandLine.Generating
import Chomsky.Proofs.CommandLine.Sampling
import Chomsky.Proofs.CommandLine.Value
import Chomsky.Proofs.Samples.Joining
import Chomsky.Proofs.Samples.Labels
import Chomsky.Proofs.Samples.Separators
import Chomsky.Proofs.Samples.Counting
import Chomsky.Proofs.Grammar.Conventions
import Chomsky.Proofs.Homomorphism
import Chomsky.Proofs.Merging
import Chomsky.Proofs.Renaming
import Chomsky.Proofs.Derivation.Deepening
import Chomsky.Proofs.Derivation.Saturation
import Chomsky.Proofs.Emptiness
import Chomsky.Proofs.Rule.Padding

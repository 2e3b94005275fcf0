import GrammarMatch.CommandLine.Session
import GrammarMatch.Datum.Json
import GrammarMatch.Finder
import GrammarMatch.Grammar
import GrammarMatch.Grammar.File
import GrammarMatch.Main
import GrammarMatch.Proofs.CasePairs
import GrammarMatch.Proofs.Chains
import GrammarMatch.Proofs.Clashes
import GrammarMatch.Proofs.Contests
import GrammarMatch.Proofs.Continuation
import GrammarMatch.Proofs.Decoration
import GrammarMatch.Proofs.Definitions
import GrammarMatch.Proofs.DepthLimit
import GrammarMatch.Proofs.EntryPoints
import GrammarMatch.Proofs.Evaluation
import GrammarMatch.Proofs.FullMatch
import GrammarMatch.Proofs.Greed
import GrammarMatch.Proofs.Keys
import GrammarMatch.Proofs.LeftCalls
import GrammarMatch.Proofs.LineColumn
import GrammarMatch.Proofs.Loading
import GrammarMatch.Proofs.LookBehind
import GrammarMatch.Proofs.Measured
import GrammarMatch.Proofs.Offences
import GrammarMatch.Proofs.Ongoing
import GrammarMatch.Proofs.Packrat
import GrammarMatch.Proofs.Relocation
import GrammarMatch.Proofs.Reports
import GrammarMatch.Proofs.RoundTrip
import GrammarMatch.Proofs.Safety
import GrammarMatch.Proofs.Sharing
import GrammarMatch.Proofs.SplitRuns
import GrammarMatch.Proofs.Sweep
import GrammarMatch.Proofs.Tabulation
import GrammarMatch.Proofs.Translation
import GrammarMatch.Proofs.Viable
import GrammarMatch.Proofs.WrittenGrammar

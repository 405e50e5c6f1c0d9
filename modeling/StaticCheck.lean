import StaticCheck.Main
import StaticCheck.Session
import StaticCheck.Proofs.Trees
import StaticCheck.Proofs.Grammar
import StaticCheck.Proofs.Taking
import StaticCheck.Proofs.Grammar.Openings
import StaticCheck.Proofs.Reading
import StaticCheck.Proofs.Parsing
import StaticCheck.Proofs.Grammar.Translation
import StaticCheck.Proofs.Source
import StaticCheck.Proofs.Acceptance
import StaticCheck.Proofs.Runs
import StaticCheck.Proofs.TypeSystem
import StaticCheck.Proofs.Nodes
import StaticCheck.Proofs.Statements
import StaticCheck.Proofs.Positions
import StaticCheck.Proofs.Resolution
import StaticCheck.Proofs.Plans
import StaticCheck.Proofs.Counting
import StaticCheck.Proofs.Census
import StaticCheck.Proofs.Constructs
import StaticCheck.Proofs.Bindings
import StaticCheck.Proofs.Strict
import StaticCheck.Proofs.Frames
import StaticCheck.Proofs.Relocation
import StaticCheck.Proofs.Parallel
import StaticCheck.Proofs.Layout
import StaticCheck.Proofs.Lexemes
import StaticCheck.Proofs.Reals
import StaticCheck.Proofs.Rendering
import StaticCheck.Proofs.Rereading
import StaticCheck.Proofs.Invariants
import StaticCheck.Proofs.Cutting
import StaticCheck.Proofs.Slices
import StaticCheck.Proofs.Verdicts
import StaticCheck.Proofs.Concatenation
import StaticCheck.Proofs.Trace
import StaticCheck.Proofs.Offences
import StaticCheck.Proofs.Strictness
import StaticCheck.Proofs.Grammar.Parts
import StaticCheck.Proofs.Locations
import StaticCheck.Proofs.Extracts
import StaticCheck.Proofs.Blame
import StaticCheck.Proofs.Mirroring
import StaticCheck.Proofs.Renaming
import StaticCheck.Proofs.Freshness
import StaticCheck.Proofs.Interchange
import StaticCheck.Proofs.Redeclaration
import StaticCheck.Proofs.Lockstep
import StaticCheck.Proofs.LongestMatch
import StaticCheck.Proofs.Tokenization
import StaticCheck.Proofs.Promptness
import StaticCheck.Proofs.Lookahead
import StaticCheck.Proofs.Viability
import StaticCheck.Proofs.Grammar.Levels
import StaticCheck.Proofs.Overruns
import StaticCheck.Proofs.Enclosure
import StaticCheck.Proofs.Peeking
import StaticCheck.Proofs.Spacing
import StaticCheck.Proofs.Wrappers
import StaticCheck.Proofs.Comments
import StaticCheck.Proofs.Heights
import StaticCheck.Proofs.Machine
import StaticCheck.Proofs.Tracking
import StaticCheck.Proofs.Calls

import FunLanguage.Token.Scan
import FunLanguage.Fault
import FunLanguage.Unicode.CodeTable
import FunLanguage.Unicode.WhiteSpace
import FunLanguage.Tree.Operator
import FunLanguage.Tree.Basic
import FunLanguage.Tree.Outline
import FunLanguage.Grammar.Expression
import FunLanguage.Grammar.Program
import FunLanguage.Machine.Step
import FunLanguage.Trace
import FunLanguage.Files
import FunLanguage.Breakpoint
import FunLanguage.Command
import FunLanguage.Session
import FunLanguage.Transcript
import FunLanguage.CommandLine
import FunLanguage.Main
import FunLanguage.Proofs.Scopes
import FunLanguage.Proofs.Run
import FunLanguage.Proofs.Coherence
import FunLanguage.Proofs.Interrupts
import FunLanguage.Proofs.BigStep
import FunLanguage.Proofs.Tracking
import FunLanguage.Proofs.Returns
import FunLanguage.Proofs.Release
import FunLanguage.Proofs.Output
import FunLanguage.Proofs.Inspecting
import FunLanguage.Proofs.CallFree
import FunLanguage.Proofs.Monitoring
import FunLanguage.Proofs.Context
import FunLanguage.Proofs.Footprint
import FunLanguage.Proofs.Bindings
import FunLanguage.Proofs.Mirror
import FunLanguage.Proofs.Driving
import FunLanguage.Proofs.Sessions
import FunLanguage.Proofs.Nodes
import FunLanguage.Proofs.Lexical
import FunLanguage.Proofs.MirroredRuns
import FunLanguage.Proofs.Evaluating
import FunLanguage.Proofs.Faults
import FunLanguage.Proofs.Commands
import FunLanguage.Proofs.DebuggerStates
import FunLanguage.Proofs.Debugging
import FunLanguage.Proofs.Threads
import FunLanguage.Proofs.Handover
import FunLanguage.Proofs.Conversations
import FunLanguage.Proofs.Grammar.Derivation
import FunLanguage.Proofs.Grammar.Cursors
import FunLanguage.Proofs.Grammar.Soundness
import FunLanguage.Proofs.Grammar.Completeness
import FunLanguage.Proofs.Grammar.Existence
import FunLanguage.Proofs.Grammar.Acceptance
import FunLanguage.Proofs.Grammar.Printing
import FunLanguage.Proofs.Grammar.Lexemes
import FunLanguage.Proofs.Grammar.RoundTrip
import FunLanguage.Proofs.Causes
import FunLanguage.Proofs.Relabelling
import FunLanguage.Proofs.Renaming
import FunLanguage.Proofs.Grammar.Lines
import FunLanguage.Proofs.Grammar.Pieces
import FunLanguage.Proofs.Grammar.Scanning
import FunLanguage.Proofs.Layout
import FunLanguage.Proofs.Resolution
import FunLanguage.Proofs.Preorder
import FunLanguage.Proofs.Grammar.Headings
import FunLanguage.Proofs.Grammar.Places
import FunLanguage.Proofs.Grammar.LineFeeds
import FunLanguage.Proofs.Order
import FunLanguage.Proofs.BreakpointTables
import FunLanguage.Proofs.Splitting
import FunLanguage.Proofs.Decoding
import FunLanguage.Proofs.Transcripts
import FunLanguage.Proofs.LineSpans
import FunLanguage.Proofs.Diagnostics
import FunLanguage.Proofs.FaultPlaces
import FunLanguage.Proofs.CommandLines
import FunLanguage.Proofs.Operators
import FunLanguage.Proofs.Preloading

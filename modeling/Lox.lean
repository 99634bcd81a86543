import Lox.Main
import Lox.Run.Directory
import Lox.Run.Session
import Lox.Proofs.Console.Repl
import Lox.Proofs.Grammar.Braces
import Lox.Proofs.Grammar.Completeness
import Lox.Proofs.Grammar.Cursor
import Lox.Proofs.Grammar.Earliest
import Lox.Proofs.Grammar.Ladder
import Lox.Proofs.Grammar.Recovery
import Lox.Proofs.Execution.Limit
import Lox.Proofs.Execution.Refinement
import Lox.Proofs.Execution.Scoping
import Lox.Proofs.Execution.UnknownOperator
import Lox.Proofs.Number.Denotation
import Lox.Proofs.Number.Scanning
import Lox.Proofs.Run.Blame
import Lox.Proofs.Run.Chunks
import Lox.Proofs.Run.Files
import Lox.Proofs.Run.Judging
import Lox.Proofs.Run.Layout
import Lox.Proofs.Run.Positions
import Lox.Proofs.Run.Scopes
import Lox.Proofs.Scope.History
import Lox.Proofs.Text.Decoding
import Lox.Proofs.Token.Blanking
import Lox.Proofs.Token.Coverage
import Lox.Proofs.Token.LongestMatch
import Lox.Proofs.Token.Offsets
import Lox.Proofs.Token.Spacing
import Lox.Proofs.Tree.Form

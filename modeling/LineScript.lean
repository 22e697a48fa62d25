import LineScript.Cli
import LineScript.Cli.Directory
import LineScript.Command.Standard
import LineScript.Main
import LineScript.Proofs.Action
import LineScript.Proofs.Conduct
import LineScript.Proofs.Forest
import LineScript.Proofs.Shadow
import LineScript.Proofs.Enclosing
import LineScript.Proofs.Pairing
import LineScript.Proofs.CallLimit
import LineScript.Proofs.Insertion
import LineScript.Proofs.Arithmetic.Acceptance
import LineScript.Proofs.Fuel.Interpreter
import LineScript.Proofs.Fuel.Width
import LineScript.Proofs.Fuel.Following
import LineScript.Proofs.Fuel.Enough
import LineScript.Proofs.StaticScope
import LineScript.Proofs.Text.Cutting
import LineScript.Proofs.Text.Pieces
import LineScript.Proofs.Statement.Canonical
import LineScript.Proofs.Statement.Roundtrip
import LineScript.Proofs.Text.Literal
import LineScript.Proofs.Text.Template
import LineScript.Proofs.Console
import LineScript.Proofs.Macro.Expansion
import LineScript.Proofs.Source.CodeLines
import LineScript.Proofs.Source.Header
import LineScript.Proofs.Source.Blocks
import LineScript.Proofs.Source.HeaderText
import LineScript.Proofs.Source.Layout
import LineScript.Proofs.Source.PrintedText
import LineScript.Proofs.Macro.Remark
import LineScript.Proofs.Source.Comments
import LineScript.Proofs.Source.Remark
import LineScript.Proofs.Source.Declarations
import LineScript.Proofs.Accounting
import LineScript.Proofs.Trace.Interpreter
import LineScript.Proofs.Trace.Following
import LineScript.Proofs.Trace.Record
import LineScript.Proofs.Trace.CallDepth
import LineScript.Proofs.Annotations
import LineScript.Proofs.Body
import LineScript.Proofs.Arithmetic.Names
import LineScript.Proofs.Statement.BlockLine
import LineScript.Proofs.OneLineBlock
import LineScript.Proofs.Statement.Opening
import LineScript.Proofs.Sequence
import LineScript.Proofs.ArrowLines
import LineScript.Proofs.ArrowBlock
import LineScript.Proofs.Trace.Mirroring
import LineScript.Proofs.AssignmentMode
import LineScript.Proofs.ExitStatus
import LineScript.Proofs.BodyBlocks
import LineScript.Proofs.Macro.Blanks
import LineScript.Proofs.Macro.Lexing
import LineScript.Proofs.Macro.Literals
import LineScript.Proofs.Macro.Ranking
import LineScript.Proofs.Macro.Renaming
import LineScript.Proofs.Macro.Directives
import LineScript.Proofs.Source.Renumbering
import LineScript.Proofs.Source.SilentLine
import LineScript.Proofs.Text.Splitting
import LineScript.Proofs.Text.Balance
import LineScript.Proofs.Interpolation
import LineScript.Proofs.Visibility
import LineScript.Proofs.ConditionalChain
import LineScript.Proofs.Text.LiteralEnd
import LineScript.Proofs.Source.Indices
import LineScript.Proofs.Integers

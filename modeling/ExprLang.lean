import ExprLang.Number
import ExprLang.Number.Decimal
import ExprLang.Text.CodeRanges
import ExprLang.Text.Combining
import ExprLang.Text.Unprintable
import ExprLang.Text.Blank
import ExprLang.Text.Width
import ExprLang.Text.Quoted
import ExprLang.Text.Pad
import ExprLang.Text.Bytes
import ExprLang.Ty
import ExprLang.Operator
import ExprLang.Value
import ExprLang.Span
import ExprLang.LineMap
import ExprLang.Expr
import ExprLang.Diagnostic
import ExprLang.TypeError
import ExprLang.Bindings
import ExprLang.Typed
import ExprLang.Typing
import ExprLang.Instruction
import ExprLang.Bytecode
import ExprLang.Listing
import ExprLang.CodeError
import ExprLang.Emitter
import ExprLang.CompileError
import ExprLang.Session
import ExprLang.Text.Lines
import ExprLang.Report.Piece
import ExprLang.Report.Source
import ExprLang.Report
import ExprLang.Proofs.Rules
import ExprLang.Proofs.WellTyped
import ExprLang.Proofs.Contract
import ExprLang.Proofs.Scheme
import ExprLang.Proofs.Meaning
import ExprLang.Proofs.Machine
import ExprLang.Proofs.Preservation
import ExprLang.Proofs.StackTypes
import ExprLang.Proofs.StackDepth
import ExprLang.Proofs.Recovery
import ExprLang.Proofs.RootCause
import ExprLang.Proofs.Statements
import ExprLang.Proofs.RoundTrip
import ExprLang.Proofs.Stream
import ExprLang.Proofs.Validity
import ExprLang.Proofs.Assertion
import ExprLang.Proofs.History
import ExprLang.Proofs.Locality
import ExprLang.Proofs.Places
import ExprLang.Proofs.Limits
import ExprLang.Proofs.Reading
import ExprLang.Proofs.Container
import ExprLang.Proofs.Policies
import ExprLang.Proofs.Pool
import ExprLang.Proofs.Boundaries
import ExprLang.Proofs.Layout
import ExprLang.Proofs.Labels
import ExprLang.Proofs.Listings
import ExprLang.Proofs.LineNumbers
import ExprLang.Proofs.Decimals
import ExprLang.Proofs.Printing

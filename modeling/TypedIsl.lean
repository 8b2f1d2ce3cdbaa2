import TypedIsl.CommandLine.Directory
import TypedIsl.Main
import TypedIsl.Proofs.Check.Calls
import TypedIsl.Proofs.Check.Conditionals
import TypedIsl.Proofs.Check.FinalTypes
import TypedIsl.Proofs.Check.FirstBinding
import TypedIsl.Proofs.Check.Frame
import TypedIsl.Proofs.Check.Irrelevance
import TypedIsl.Proofs.Check.LambdaSpelling
import TypedIsl.Proofs.Check.LocalNames
import TypedIsl.Proofs.Check.Once
import TypedIsl.Proofs.Check.Ordering
import TypedIsl.Proofs.Check.StoredTypes
import TypedIsl.Proofs.Check.Unbound
import TypedIsl.Proofs.Check.Undefined
import TypedIsl.Proofs.Check.Untyping
import TypedIsl.Proofs.Check.Widening
import TypedIsl.Proofs.Emission.Decimals
import TypedIsl.Proofs.Emission.Widths
import TypedIsl.Proofs.Session.History
import TypedIsl.Proofs.Session.Interning
import TypedIsl.Proofs.Source.LineEndings
import TypedIsl.Proofs.Source.Reports
import TypedIsl.Proofs.Syntax.Documentation
import TypedIsl.Proofs.Syntax.FirstFault
import TypedIsl.Proofs.Syntax.Grammar
import TypedIsl.Proofs.Syntax.Slices
import TypedIsl.Proofs.Token.Faults
import TypedIsl.Proofs.Token.Lines
import TypedIsl.Proofs.Token.Nulls
import TypedIsl.Proofs.Ty.Compatibility
import TypedIsl.Session
import TypedIsl.Syntax.Outline

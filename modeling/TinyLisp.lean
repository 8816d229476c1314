import TinyLisp.Main
import TinyLisp.Proofs.Answers
import TinyLisp.Proofs.Balance
import TinyLisp.Proofs.Blocks
import TinyLisp.Proofs.Calls
import TinyLisp.Proofs.Composition
import TinyLisp.Proofs.Dialogue
import TinyLisp.Proofs.Equality
import TinyLisp.Proofs.Evaluation.Faults
import TinyLisp.Proofs.Expansions
import TinyLisp.Proofs.Expressions
import TinyLisp.Proofs.Grammar
import TinyLisp.Proofs.Isolation
import TinyLisp.Proofs.Keywords
import TinyLisp.Proofs.Lines
import TinyLisp.Proofs.Names
import TinyLisp.Proofs.Preludes
import TinyLisp.Proofs.Quotation
import TinyLisp.Proofs.Refusals
import TinyLisp.Proofs.Rereading
import TinyLisp.Proofs.Resets
import TinyLisp.Proofs.Resolution
import TinyLisp.Proofs.RoundTrip
import TinyLisp.Proofs.Sessions
import TinyLisp.Proofs.Shapes
import TinyLisp.Proofs.Tokens
import TinyLisp.Proofs.Writing
import TinyLisp.Store.Printer
import TinyLisp.Proofs.ListAlgebra
import TinyLisp.Proofs.Reprinting
import TinyLisp.Proofs.Searching
import TinyLisp.Proofs.Conservation
import TinyLisp.Proofs.Remainders
import TinyLisp.Proofs.Intervals
import TinyLisp.Proofs.Nesting

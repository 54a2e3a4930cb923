import DynLisp.Main
import DynLisp.Environment.Command
import DynLisp.Proofs.Environment.Brackets
import DynLisp.Proofs.Evaluation.Composition
import DynLisp.Proofs.Evaluation.Limit
import DynLisp.Proofs.Evaluation.Soundness
import DynLisp.Proofs.Evaluation.Termination
import DynLisp.Proofs.Evaluation.Visibility
import DynLisp.Proofs.Token.Grammar
import DynLisp.Proofs.Reader.Lazy
import DynLisp.Proofs.Datum.RoundTrip
import DynLisp.Proofs.Console.Survival
import DynLisp.Proofs.Datum.Equality
import DynLisp.Proofs.Evaluation.Targets
import DynLisp.Proofs.Evaluation.Operands
import DynLisp.Proofs.Reader.Descent
import DynLisp.Proofs.Reader.Locality
import DynLisp.Proofs.Token.Notation
import DynLisp.Proofs.Datum.Admission
import DynLisp.Proofs.Native.Arithmetic
import DynLisp.Proofs.Native.Hex
import DynLisp.Proofs.Datum.Unambiguous
import DynLisp.Proofs.Evaluation.Duality
import DynLisp.Proofs.Reader.WellFormed
import DynLisp.Proofs.Evaluation.CallFree
import DynLisp.Reader.Descent

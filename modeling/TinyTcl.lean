import TinyTcl.Demo
import TinyTcl.Main
import TinyTcl.Proofs.CommandLine.Results
import TinyTcl.Proofs.Diagnostic.Located
import TinyTcl.Proofs.Evaluation.Block
import TinyTcl.Proofs.Evaluation.Interchange
import TinyTcl.Proofs.Evaluation.Quoting
import TinyTcl.Proofs.Evaluation.Requoted
import TinyTcl.Proofs.Evaluation.Trace
import TinyTcl.Proofs.Evaluation.Unmentioned
import TinyTcl.Proofs.Evaluation.Variable
import TinyTcl.Proofs.Program.Calls
import TinyTcl.Proofs.Program.Outline
import TinyTcl.Proofs.Program.Spelling
import TinyTcl.Proofs.Program.Terminator
import TinyTcl.Proofs.Session.Lifecycle
import TinyTcl.Proofs.Session.Order
import TinyTcl.Proofs.Session.Rooted
import TinyTcl.Proofs.Token.Layout
import TinyTcl.Proofs.Token.Numbers

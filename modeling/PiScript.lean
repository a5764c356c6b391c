import PiScript.Files.Directory
import PiScript.Main
import PiScript.Proofs.Decimal.IntegerPart
import PiScript.Proofs.Decimal.LeastScale
import PiScript.Proofs.Diagnostic.Run
import PiScript.Proofs.Grammar.Descent
import PiScript.Proofs.Grammar.Nesting
import PiScript.Proofs.Grammar.RoundTrip
import PiScript.Proofs.Grammar.Words
import PiScript.Proofs.Machine.Counting
import PiScript.Proofs.Machine.Dependence
import PiScript.Proofs.Machine.Entries
import PiScript.Proofs.Machine.Inlining
import PiScript.Proofs.Machine.Iteration
import PiScript.Proofs.Machine.Lines
import PiScript.Proofs.Machine.Namespaces
import PiScript.Proofs.Machine.Reached
import PiScript.Proofs.Machine.Termination
import PiScript.Proofs.Machine.Truncation
import PiScript.Proofs.Session.Completeness
import PiScript.Proofs.Token.Joined
import PiScript.Proofs.Value.Arithmetic
import PiScript.Proofs.Value.Printed
import PiScript.Proofs.Value.Unbroken

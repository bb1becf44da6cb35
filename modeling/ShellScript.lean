import ShellScript.Main
import ShellScript.Proofs.Cancellation
import ShellScript.Proofs.ChosenSeparators
import ShellScript.Proofs.Conversations
import ShellScript.Proofs.Lines
import ShellScript.Proofs.RoundTrip
import ShellScript.Proofs.Streaming
import ShellScript.Proofs.Substitutions
import ShellScript.Proofs.Truncation
import ShellScript.Proofs.WellFormedness
import ShellScript.Proofs.Calls
import ShellScript.Proofs.Progress
import ShellScript.Proofs.Delivery
import ShellScript.Proofs.Failures
import ShellScript.Proofs.Escapes
import ShellScript.Proofs.Reserved
import ShellScript.Proofs.Runes
import ShellScript.Proofs.IllFormed
import ShellScript.Proofs.Nested
import ShellScript.Proofs.EscapeTable
import ShellScript.Proofs.Echo
import ShellScript.Proofs.Growth
import ShellScript.Proofs.Protection
import ShellScript.Proofs.Interchange
import ShellScript.Proofs.Diagnostics
import ShellScript.Proofs.Backslashes
import ShellScript.Proofs.Parameters
import ShellScript.Proofs.Extents
import ShellScript.Proofs.Snippets
import ShellScript.Proofs.Beginnings
import ShellScript.Proofs.SplitWords

import CatScript.Main
import CatScript.Proofs.Conversation.Heard
import CatScript.Proofs.Conversation.History
import CatScript.Proofs.Error.Shown
import CatScript.Proofs.Evaluation.Bounded
import CatScript.Proofs.Evaluation.Displayed
import CatScript.Proofs.Evaluation.Exact
import CatScript.Proofs.Evaluation.Joined
import CatScript.Proofs.Evaluation.Layout
import CatScript.Proofs.Evaluation.Numeral
import CatScript.Proofs.Evaluation.Restored
import CatScript.Proofs.Evaluation.Scan
import CatScript.Proofs.Evaluation.Swapped
import CatScript.Proofs.Invocation.File
import CatScript.Proofs.Invocation.Mode
import CatScript.Proofs.Invocation.Verbosity
import CatScript.Proofs.Syntax.Climbing
import CatScript.Proofs.Syntax.Commas
import CatScript.Proofs.Syntax.Cursor.Safe
import CatScript.Proofs.Syntax.Excerpted
import CatScript.Proofs.Syntax.Helped
import CatScript.Proofs.Syntax.ReadBack
import CatScript.Proofs.Token.Longest
import CatScript.Proofs.Token.ReadBack

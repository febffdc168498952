import ScopedScript.Main
import ScopedScript.Session
import ScopedScript.Cursor
import ScopedScript.Proofs.Building
import ScopedScript.Proofs.Lexical
import ScopedScript.Proofs.Termination
import ScopedScript.Proofs.StoreSteps
import ScopedScript.Proofs.Balance
import ScopedScript.Proofs.Custody
import ScopedScript.Proofs.Ownership
import ScopedScript.Proofs.Reporting
import ScopedScript.Proofs.Nesting
import ScopedScript.Proofs.Access
import ScopedScript.Proofs.Scanning
import ScopedScript.Proofs.Shifting
import ScopedScript.Proofs.Concatenation
import ScopedScript.Proofs.Renaming
import ScopedScript.Proofs.Abreast
import ScopedScript.Proofs.Lockstep
import ScopedScript.Proofs.Munching
import ScopedScript.Proofs.Tokenizing
import ScopedScript.Proofs.Tiling
import ScopedScript.Proofs.Language
import ScopedScript.Proofs.Phrases
import ScopedScript.Proofs.Rereading
import ScopedScript.Proofs.Blaming
import ScopedScript.Proofs.Pointing
import ScopedScript.Proofs.Diagnosing
import ScopedScript.Proofs.Refusing
import ScopedScript.Proofs.Failing
import ScopedScript.Proofs.Memory
import ScopedScript.Proofs.Stages
import ScopedScript.Proofs.Unreading
import ScopedScript.Proofs.Tandem
import ScopedScript.Proofs.Confinement
import ScopedScript.Proofs.Mirroring
import ScopedScript.Proofs.Locality
import ScopedScript.Proofs.Separating
import ScopedScript.Proofs.Counting
import ScopedScript.Proofs.Recasting
import ScopedScript.Proofs.Normalizing
import ScopedScript.Proofs.Bindings
import ScopedScript.Proofs.Calling
import ScopedScript.Proofs.Shaping
import ScopedScript.Proofs.Placing
import ScopedScript.Proofs.Grouping
import ScopedScript.Proofs.Adding
import ScopedScript.Proofs.Headers
import ScopedScript.Proofs.Rounding
import ScopedScript.Proofs.Doubles
import ScopedScript.Proofs.Numerals
import ScopedScript.Proofs.Showing
import ScopedScript.Proofs.Nearest
import ScopedScript.Proofs.Recovering
import ScopedScript.Proofs.Rendering
import ScopedScript.Proofs.Shortest
import ScopedScript.Proofs.Quoting
import ScopedScript.Proofs.Dumping
import ScopedScript.Proofs.Merging
import ScopedScript.Proofs.Advancing
import ScopedScript.Proofs.Peeking
import ScopedScript.Proofs.Lineage

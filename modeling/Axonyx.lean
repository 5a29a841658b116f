import Axonyx.StateWasm.Validator
import Axonyx.StateWasm.Safety
import Axonyx.Runtime.LoginThrottle
import Axonyx.Runtime.Session.Lifetime
import Axonyx.Runtime.Mutation
import Axonyx.Core.SqlGrammar
import Axonyx.Ieee
import Axonyx.Core.Agreement
import Axonyx.Core.Conformance
import Axonyx.Core.Inlining
import Axonyx.Runtime.Preview.Transactions
import Axonyx.Runtime.Preview.Routes
import Axonyx.Runtime.Input.Agreement
import Axonyx.Runtime.RawSql
import Axonyx.SqlText.Semantics
import Axonyx.Runtime.Migration.History
import Axonyx.Runtime.ApiResponse
import Axonyx.Core.ModuleNames
import Axonyx.Runtime.Form.Privacy
import Axonyx.Core.ExprRoundTrip
import Axonyx.Runtime.Preview.Bridge
import Axonyx.Runtime.Preview.LoaderCache
import Axonyx.Core.Overflow
import Axonyx.Core.Annotations
import Axonyx.Core.StateBranches
import Axonyx.Runtime.Sse
import Axonyx.Runtime.UrlForm
import Axonyx.Runtime.Numeric
import Axonyx.Runtime.Input.Records
import Axonyx.Runtime.Storage
import Axonyx.Core.StateEvents
import Axonyx.Core.SqlValues
import Axonyx.Runtime.Requests
import Axonyx.Core.StateManifest
import Axonyx.Runtime.Native
import Axonyx.Runtime.Headers
import Axonyx.Core.StateLiterals
import Axonyx.Edits
import Axonyx.Core.RustTokens
import Axonyx.Core.NativeMembers
import Axonyx.Core.ExprLetters
import Axonyx.Core.DeclaredCalls

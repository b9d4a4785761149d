import Reassembly.Http.Url.Host
import Reassembly.Service.Transport

/-!
# Service errors

What the metadata service or the object store answers instead of a manifest or a payload, and what
keeps a request from reaching them.
-/

namespace Reassembly

/-- A failure to obtain something from a service. -/
inductive ServiceError
  | notFound (fileId : String)
  | unauthorized (fileId : String)
  | unprocessable (fileId : String)
  | invalidArguments (reason : String)
  | invalidHeader
  | invalidResponse (reason : String)
  | transport (fault : TransportFault)
  | intercepted (reason : String)
  | malformedUrl (fault : UrlFault)
  | other (reason : String)
  deriving Repr, DecidableEq

namespace ServiceError

/-- The wording of an error. -/
def message : ServiceError → String
  | notFound fileId => s!"File not found: {fileId}"
  | unauthorized fileId => s!"Unauthorized access to file: {fileId}"
  | unprocessable fileId => s!"File not eligible for direct retrieval: {fileId}"
  | invalidArguments reason => s!"Invalid arguments: {reason}"
  | invalidHeader => "Invalid header value: failed to parse header value"
  | invalidResponse reason => s!"Invalid response: {reason}"
  | transport fault => s!"Reqwest Error: {fault.message}"
  | intercepted reason => s!"Reqwest Middleware Error: {reason}"
  | malformedUrl fault => s!"URL Parse Error: {fault.message}"
  | other reason => s!"Other Error: {reason}"

/-- The status of the answer that was the failure. -/
def status? : ServiceError → Option Nat
  | transport fault => fault.status?
  | _ => none

/-- The error is a failure to reach a server or to hear back from it. -/
def isConnectionError : ServiceError → Bool
  | transport fault => fault.isConnectionFault
  | _ => false

end ServiceError

end Reassembly

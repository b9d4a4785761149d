import Reassembly.Text.Quoted

/-!
# Credentials

Credentials are a key pair or a bearer token. Both carry a token that authenticates requests; a key
pair also carries the secret that unwraps content keys. Showing credentials never shows the token of
a bearer or the secret of a pair.
-/

namespace Reassembly

/-- What a reader of files holds. -/
inductive Credentials
  | keyPair (id secret : String)
  | bearer (token : String)
  deriving Repr, DecidableEq

namespace Credentials

/-- The token that authenticates requests. -/
def token : Credentials → String
  | keyPair id _ => id
  | bearer token => token

/-- The value of the authorization header. -/
def header (credentials : Credentials) : String := s!"Bearer {credentials.token}"

/-- The secret that unwraps content keys. -/
def secret? : Credentials → Option String
  | keyPair _ secret => some secret
  | bearer _ => none

/-- The secret that unwraps content keys; it is empty when there is none. -/
def secret (credentials : Credentials) : String := credentials.secret?.getD ""

/-- What stands for a secret when credentials are shown. -/
def redacted : String := Text.quoted "<redacted>"

/-- The credentials as they may be shown. -/
def shown : Credentials → String
  | keyPair id _ =>
    "KeyPair \x7b access_key_id: " ++ Text.quoted id ++ ", secret_access_key: " ++ redacted ++ " \x7d"
  | bearer _ => "BearerToken(" ++ redacted ++ ")"

end Credentials

end Reassembly

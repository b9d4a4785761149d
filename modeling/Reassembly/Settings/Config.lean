import Reassembly.Settings.Environment
import Reassembly.Settings.Value

/-!
# Configuration

The settings of clients and of retrievals, their defaults, and the names under which an environment
overrides them. Each setting is overridden by itself; the first that is given a duration too long to
be held stops the whole.
-/

namespace Reassembly

/-- Settings of clients of the services. -/
structure ClientConfig where
  /-- The number of retries after the first attempt. -/
  retryLimit : Nat := 3
  /-- The delay before the first retry. -/
  retryDelay : Duration := .ofSeconds 1
  /-- How long connecting may take. -/
  connectTimeout : Duration := .ofSeconds 30
  /-- How long a server may send nothing. -/
  readTimeout : Duration := .ofSeconds 120
  /-- The name under which requests are made. -/
  userAgent : String := "directio/0.1.0"
  deriving Repr, DecidableEq, Inhabited

/-- Settings of retrievals. A limit of zero is none. -/
structure RetrievalConfig where
  /-- The number of chunks that a stream downloads at once. -/
  streamLimit : Nat := 50
  /-- The number of chunks that a retrieval of blocks downloads at once. -/
  blockLimit : Nat := 0
  deriving Repr, DecidableEq, Inhabited

/-- The whole configuration. -/
structure Config where
  client : ClientConfig := {}
  retrieval : RetrievalConfig := {}
  deriving Repr, DecidableEq, Inhabited

/-- Numbers in the configuration lie below this bound of 64 bits. -/
def settingBound : Nat := 0x10000000000000000

namespace ClientConfig

/-- The names of the settings, in order. -/
def names : List String :=
  ["DIRECTIO_CLIENT_RETRY_MAX_ATTEMPTS", "DIRECTIO_CLIENT_RETRY_BASE_DELAY",
    "DIRECTIO_CLIENT_CONNECT_TIMEOUT", "DIRECTIO_CLIENT_READ_TIMEOUT", "DIRECTIO_CLIENT_USER_AGENT"]

end ClientConfig

namespace RetrievalConfig

/-- The names of the settings, in order. -/
def names : List String :=
  ["DIRECTIO_RECONSTRUCTION_STREAM_CONCURRENCY_LIMIT",
    "DIRECTIO_RECONSTRUCTION_BLOCK_CONCURRENCY_LIMIT"]

end RetrievalConfig

namespace Environment

/-- The value of a setting under an environment. -/
def settle {α : Type} (environment : Environment) (reading : Reading α) (name : String)
    (current : α) : Except Duration.TooLong α :=
  (reading.settle name (environment.value name) current).map (·.value)

/-- Override the settings of clients. -/
def overrideClient (environment : Environment) (config : ClientConfig) :
    Except Duration.TooLong ClientConfig := do
  let retryLimit ← environment.settle (.natural settingBound)
    "DIRECTIO_CLIENT_RETRY_MAX_ATTEMPTS" config.retryLimit
  let retryDelay ← environment.settle .duration "DIRECTIO_CLIENT_RETRY_BASE_DELAY" config.retryDelay
  let connectTimeout ← environment.settle .duration "DIRECTIO_CLIENT_CONNECT_TIMEOUT"
    config.connectTimeout
  let readTimeout ← environment.settle .duration "DIRECTIO_CLIENT_READ_TIMEOUT" config.readTimeout
  let userAgent ← environment.settle .text "DIRECTIO_CLIENT_USER_AGENT" config.userAgent
  return { retryLimit, retryDelay, connectTimeout, readTimeout, userAgent }

/-- Override the settings of retrievals. -/
def overrideRetrieval (environment : Environment) (config : RetrievalConfig) :
    Except Duration.TooLong RetrievalConfig := do
  let streamLimit ← environment.settle (.natural settingBound)
    "DIRECTIO_RECONSTRUCTION_STREAM_CONCURRENCY_LIMIT" config.streamLimit
  let blockLimit ← environment.settle (.natural settingBound)
    "DIRECTIO_RECONSTRUCTION_BLOCK_CONCURRENCY_LIMIT" config.blockLimit
  return { streamLimit, blockLimit }

/-- Override a configuration. -/
def override (environment : Environment) (config : Config) : Except Duration.TooLong Config := do
  let client ← environment.overrideClient config.client
  let retrieval ← environment.overrideRetrieval config.retrieval
  return { client, retrieval }

end Environment

/-- The configuration that an environment gives. -/
def Config.ofEnvironment (environment : Environment) : Except Duration.TooLong Config :=
  environment.override {}

end Reassembly

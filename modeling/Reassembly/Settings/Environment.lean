import Reassembly.Bytes

/-!
# Environments

An environment gives values to names. A value that is not text counts as none. Some settings may
also be given under another name, which counts only when the setting's own name has no value.
-/

namespace Reassembly

/-- The values that an environment gives to names. -/
def Environment := String → Option String

namespace Environment

/-- The environment of the given variables; the first of one name counts. -/
def ofVariables (given : List (String × Bytes)) : Environment := fun name =>
  match given.find? (·.1 = name) with
  | some (_, value) => Bytes.toText? value
  | none => none

/-- Names of settings, and the other names under which they may be given. -/
def aliases : List (String × String) :=
  [("DIRECTIO_CLIENT_RETRY_MAX_ATTEMPTS", "DIRECTIO_RETRIES"),
    ("DIRECTIO_CLIENT_RETRY_BASE_DELAY", "DIRECTIO_BACKOFF"),
    ("DIRECTIO_RECONSTRUCTION_STREAM_CONCURRENCY_LIMIT", "DIRECTIO_POOL_SIZE")]

/-- The other names of a setting, in order. -/
def aliasesOf (name : String) : List String :=
  (aliases.filter (·.1 = name)).map (·.2)

/-- The value given for a setting, under its own name or else under the first other name that has
a value. -/
def value (environment : Environment) (name : String) : Option String :=
  (environment name).or ((aliasesOf name).findSome? environment)

end Environment

end Reassembly

import UsdAsset.Lib.ByteString

/-!
# The typed diagnostic vocabulary

Models `usdAssetIo/Diagnostics.h` and `Diagnostics.cpp`: the status codes every
backend reports with, the attachments a status carries, and the elision of the
parts of an identifier that can hold a credential.
-/

namespace UsdAsset

open ByteString

/-- How a caller is expected to treat a status. -/
inductive Severity where
  | warning
  | error
  | codingError
  deriving DecidableEq, Repr

/-- The stable error vocabulary. -/
inductive StatusCode where
  | ok
  | notFound
  | accessDenied
  | rangeNotSupported
  | invalidResponse
  | networkError
  | timeout
  | assetChanged
  | cancelled
  | invalidArgument
  | unsupported
  deriving DecidableEq, Repr

/-- The severity a code carries unless a producer overrides it. -/
def defaultSeverity : StatusCode → Severity
  | .cancelled => .warning
  | .invalidArgument => .codingError
  | _ => .error

/-- A typed failure, with the location of the failure where it is known. -/
structure Status where
  code : StatusCode := .ok
  severity : Severity := .error
  message : Bytes := []
  byteOffset : Option ℕ := none
  byteLength : Option ℕ := none
  transportStatus : Option Int := none
  deriving DecidableEq, Repr

namespace Status

def success : Status := {}

def failure (code : StatusCode) (message : Bytes) : Status :=
  { code, severity := defaultSeverity code, message }

def isOk (status : Status) : Bool := status.code == .ok

def withRange (status : Status) (offset length : ℕ) : Status :=
  { status with byteOffset := some offset, byteLength := some length }

def withTransportStatus (status : Status) (transport : Int) : Status :=
  { status with transportStatus := some transport }

@[simp]
theorem code_success : success.code = .ok := rfl

@[simp]
theorem code_failure (code : StatusCode) (message : Bytes) :
    (failure code message).code = code := rfl

@[simp]
theorem code_withRange (status : Status) (offset length : ℕ) :
    (status.withRange offset length).code = status.code := rfl

@[simp]
theorem code_withTransportStatus (status : Status) (transport : Int) :
    (status.withTransportStatus transport).code = status.code := rfl

@[simp]
theorem isOk_iff (status : Status) : status.isOk = true ↔ status.code = .ok := by
  simp [isOk]

end Status

/-! ### Elision of secrets -/

/-- A letter, a digit, `+`, `-` or `.`: the bytes of a URI scheme after its first. -/
def isSchemeByte (byte : UInt8) : Bool :=
  ('a' ≤ byte && byte ≤ 'z') || ('A' ≤ byte && byte ≤ 'Z') || isDigit byte ||
    byte == '+' || byte == '-' || byte == '.'

/-- RFC 3986 §3.1: a scheme begins with a letter. -/
def isScheme : Bytes → Bool
  | [] => false
  | first :: rest =>
      (('a' ≤ first && first ≤ 'z') || ('A' ≤ first && first ≤ 'Z')) &&
        (first :: rest).all isSchemeByte

/--
Where the authority starts.  A `//` counts only at the very start of a
scheme-relative reference or immediately after a scheme.
-/
def findAuthority (identifier : Bytes) : Option ℕ :=
  if (bytes "//").isPrefixOf identifier then some 2
  else
    match find (bytes "://") identifier with
    | none => none
    | some separator =>
        if isScheme (identifier.take separator) then some (separator + 3) else none

def endsAuthority (byte : UInt8) : Bool := byte == '/' || byte == '?' || byte == '#'

/-- Removes everything from the first `?` on, and marks that it did. -/
def elideQuery (identifier : Bytes) : Bytes :=
  match splitFirst '?' identifier with
  | none => identifier
  | some (before, _) => before ++ bytes "?<elided>"

/-- Replaces the userinfo of the authority, and marks that it did. -/
def elideUserinfo (identifier : Bytes) : Bytes :=
  match findAuthority identifier with
  | none => identifier
  | some start =>
      let rest := identifier.drop start
      let authority := rest.takeWhile fun byte => !endsAuthority byte
      match splitLast '@' authority with
      | none => identifier
      | some (_, host) =>
          identifier.take start ++ bytes "<elided>@" ++ host ++
            rest.dropWhile fun byte => !endsAuthority byte

/-- Removes the parts of an identifier that can carry a credential. -/
def elideSecrets (identifier : Bytes) : Bytes := elideUserinfo (elideQuery identifier)

end UsdAsset

import UsdAsset.Lib.ByteString

/-!
# Validators

Models `usdAssetIo/Validator.h` and `Validator.cpp`: the transport-derived
identity of the exact bytes an asset had when it was opened.
-/

namespace UsdAsset

/-- What kind of identity the producing backend captured. -/
inductive ValidatorKind where
  | none
  | entityTag
  | httpDate
  | derived
  deriving DecidableEq, Repr

/-- What equality of two validator values proves. -/
inductive ValidatorStrength where
  | none
  | weak
  | strong
  deriving DecidableEq, Repr

/-- The identity itself; its value is opaque above the backend that produced it. -/
structure Validator where
  value : Bytes := []
  kind : ValidatorKind := .none
  strength : ValidatorStrength := .none
  deriving DecidableEq, Repr

def Validator.isUsable (validator : Validator) : Bool := validator.kind != .none

/-- The consumer-facing summary of a validator. -/
inductive IdentityStability where
  | stable
  | unstable
  | unavailable
  deriving DecidableEq, Repr

/-- Derives stability from a captured validator, once, at open. -/
def classifyStability (validator : Validator) : IdentityStability :=
  if validator.isUsable then
    match validator.strength with
    | .strong => .stable
    | .weak => .unstable
    | .none => .unavailable
  else .unavailable

end UsdAsset

import UsdAsset.Http.Binding
import UsdAsset.Http.Numerals

/-!
# What an open takes as a description

An open makes one exchange and judges the last response of it.  This module says
in the terms of HTTP what a complete description of an asset is, and what the
metadata of a reader then has to be, and compares that with what `Open` accepts.

The two differ for one kind of response only.  `PerformExchange` turns away a
response whose header block exceeded the bound, a refused destination and an
exchange without a status line; a response that failed in any other way after
its status line is passed on as a success, and `Open` does not look at the error.
-/

namespace UsdAsset.Http

open ByteString

variable {headers : HeaderTable} {options : HttpOptions} {reader : HttpAssetReader}

/-! ### The description of an asset -/

/-- The headers state a length that a 64-bit size can hold. -/
def StatesLength (headers : HeaderTable) (size : ℕ) : Prop :=
  ∃ value, headers.find (bytes "Content-Length") = some value ∧
    IsDecimal (trim value) size ∧ size < 2 ^ 64

def carriedDate (headers : HeaderTable) : Option Bytes :=
  (headers.find (bytes "Last-Modified")).map trim

inductive Identifies (headers : HeaderTable) : Validator → Prop where
  | strongTag {tag : Bytes} (carried : carriedEntityTag headers = some tag)
      (strong : IsStrongTag tag) : Identifies headers ⟨tag, .entityTag, .strong⟩
  | weakTag {tag : Bytes} (carried : carriedEntityTag headers = some tag)
      (weak : (bytes "W/").isPrefixOf tag = true) : Identifies headers ⟨tag, .entityTag, .weak⟩
  | date {date : Bytes} (untagged : ∀ tag ∈ carriedEntityTag headers, tag = [])
      (carried : carriedDate headers = some date) (nonempty : date ≠ []) :
      Identifies headers ⟨date, .httpDate, .weak⟩
  | nothing (untagged : ∀ tag ∈ carriedEntityTag headers, tag = [])
      (undated : ∀ date ∈ carriedDate headers, date = []) : Identifies headers {}

/-- The metadata is what the response says about the asset, under the URI it came from. -/
structure Describes (last : Sent) (metadata : AssetMetadata) : Prop where
  sized : StatesLength last.response.headers metadata.size
  identified : Identifies last.response.headers metadata.validator
  contentType_eq : metadata.contentType = last.response.headers.get (bytes "Content-Type")
  resolvedIdentifier_eq : metadata.resolvedIdentifier = { last.uri with userinfo := [] }.toText

/-! ### What the parsers accept -/

end UsdAsset.Http

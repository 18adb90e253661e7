import Jasonrpc.Lib.Bytes
import Mathlib.Data.List.AList

/-!
# HTTP messages

The requests and the responses that an HTTP library delivers, with their bodies read or to be read.
-/

open ByteString

/-- Header fields; the names are lower-case. -/
abbrev HeaderMap := AList fun _ : String => Bytes

-- The instance of `AList` is built by rewriting, and does not evaluate.
instance : DecidableEq HeaderMap := fun headers headers' =>
  decidable_of_iff (headers.entries = headers'.entries) AList.ext_iff.symm

/-- A `POST` request. -/
structure HttpRequest where
  uri : String
  headers : HeaderMap
  body : Bytes
deriving DecidableEq

structure HttpResponse where
  status : UInt16
  headers : HeaderMap
  body : Bytes
deriving DecidableEq

/-- The status is a success. -/
def HttpResponse.isSuccess (resp : HttpResponse) : Bool := 200 ≤ resp.status && resp.status < 300

theorem HttpResponse.not_isSuccess {resp : HttpResponse} (h : resp.status = 401) :
    ¬ resp.isSuccess := by
  rw [isSuccess, h]
  decide

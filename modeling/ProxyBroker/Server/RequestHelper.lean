/-
ProxyBroker.Server.RequestHelper — heads in a buffer of their own
(`RequestHelper.ts`): `parse` cuts a buffer into request line, header
block and body, `build` puts the parts together. `addHeaders` is with its
caller, in `Server.HttpHeaderTransform`.

Left out: cookies, which nothing modelled reads.
-/
import ProxyBroker.Server.SocketHandle

namespace ProxyBroker.Server

/-- `IRequestData`. -/
structure RequestData where
  secured : Bool := false
  body : Option Bytes := none
  headers : Option Bytes := none
  query : Option Bytes := none
  statusCode : Option Nat := none
  error : Option JsError := none
  deriving DecidableEq, Repr

namespace RequestHelper

open SocketHandle (statusMatch)
open Lib

def isSecured (data : Bytes) : Bool :=
  data.head? == some 0x16 || data.head? == some 0x80 || data.head? == some 0x00

/-- The status line of the parsed head, when it is one. -/
def readStatus (host : Host) (query : Bytes) (req : RequestData) : RequestData :=
  let first := Utf8.decode query
  match statusMatch first with
  | some code =>
      { req with
        statusCode := some code
        error := if 400 ≤ code then some (host.handle ⟨first⟩) else req.error }
  | none => req

/-- `parse(data)`; there may be no data. -/
def parse (host : Host) : Option Bytes → Except JsException (Option RequestData)
  | none => .ok none
  | some data =>
      if isSecured data then .ok (some { secured := true })
      else
        let headerEnd := bufIndexOf crlf data
        let headersEnd := bufIndexOf crlfcrlf data
        if headerEnd < headersEnd ∧ 0 < headersEnd then do
          let query ← allocUnsafe host headerEnd
          let headers ← allocUnsafe host (headersEnd - headerEnd - 2)
          let body ← allocUnsafe host (data.length - headersEnd - 4)
          let query := copy data query 0 headerEnd.toNat
          let headers := copy data headers (headerEnd + 2).toNat headersEnd.toNat
          let body := copy data body (headersEnd + 4).toNat data.length
          let req : RequestData :=
            { query := some query, headers := some headers, body := some body }
          .ok (some (if 0 < query.length then readStatus host query req else req))
        else .ok (some {})

def emptyQuery : JsError := ⟨"empty query".toList⟩

def build (req : RequestData) : Except JsError Bytes :=
  match req.query with
  | some query =>
      let headers : Bytes :=
        match req.headers with
        | some headers => headers ++ crlf ++ crlf
        | none => []
      .ok (query ++ crlf ++ headers ++ req.body.getD [])
  | none => .error emptyQuery

end RequestHelper

end ProxyBroker.Server

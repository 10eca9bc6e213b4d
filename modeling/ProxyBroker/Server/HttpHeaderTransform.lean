/-
ProxyBroker.Server.HttpHeaderTransform — the stream a tunnel's client is
piped through (`HttpHeaderTransform.ts`), and the rewriting of a header
block it does (`addHeaders` of `RequestHelper.ts`).

The first chunk decides: it looks like TLS, or its header block is
rewritten if it has one. A pattern is made of each header's name, as it
stands in the request. The patterns of names that are HTTP tokens are in
the fragment of `Lib.RegExp`; other names go to an engine, which is a
parameter.

A header map is the list of its entries in the order of its keys, with
the values as the template that writes them makes them.

Left out: encodings and the options of the stream.
-/
import ProxyBroker.Lib.RegExp
import ProxyBroker.Server.ProxyServer
import ProxyBroker.Server.RequestHelper

namespace ProxyBroker.Server

open Lib

/-! ## Headers -/

/-- What is thrown out of `_transform`. -/
inductive Thrown where
  | exception (e : JsException)
  /-- a pattern is no regular expression -/
  | syntaxError
  deriving DecidableEq, Repr

/-- The characters of an HTTP token. -/
def isTokenChar (c : Char) : Bool :=
  c.isAlphanum || "!#$%&'*+-.^_`|~".toList.contains c

namespace RequestHelper

section

-- what `removeName` does for a name that is no token
variable (host : Host) (engine : Text → Text → Option Text)

/-- `'^' + orgK + '\\s*:'` -/
def pattern (orgK : Text) : Text := '^' :: (orgK ++ ['\\', 's', '*', ':'])

/-- `_x.replace(new RegExp('^' + orgK + '\\s*:'), '')`, `none` being a
SyntaxError. -/
def removeName (orgK x : Text) : Option Text :=
  if orgK.all isTokenChar then
    (RegExp.compile (pattern orgK)).map
      (fun p => Utf16.decode (RegExp.removeFirst p (Utf16.encode x)))
  else engine orgK x

/-- One line of the header block, read into the list `x`. -/
def addLine (x : List (Text × Text)) (line : Text) : Except Thrown (List (Text × Text)) :=
  let orgK := JsText.trim ((JsText.splitLimit ':' 1 line).headD [])
  match removeName engine orgK line with
  | none => .error .syntaxError
  | some rest =>
      let value := JsText.trim rest
      let k := host.toLocaleLowerCase orgK
      if x.any (fun e => host.toLocaleLowerCase e.1 == k) then .ok x
      else .ok (x ++ [(orgK, value)])

/-- The entries of a header map that are set. No character outside ASCII
is lower-cased to a letter of the two names. -/
def entries (headers : List (Text × Text)) : List (Text × Text) :=
  headers.filter (fun e => !(List.contains ["host".toList, "connection".toList] (toLowerCase e.1)))

def headStr (x : List (Text × Text)) : Text :=
  crlfText.intercalate (x.map (fun e => e.1 ++ [':', ' '] ++ e.2))

/-- The list `x` of `addHeaders`. -/
def collect (req : RequestData) (headers : List (Text × Text)) :
    Except Thrown (List (Text × Text)) :=
  match req.headers with
  | some block =>
      (splitSeq crlfText (Utf8.decode block)).foldlM (addLine host engine) (entries headers)
  | none => .ok (entries headers)

/-- The buffer has one byte for each UTF-16 code unit. -/
def writeBlock (headStr : Text) : Bytes :=
  Utf8.write (host.uninitialised (Utf8.units headStr)) headStr

def addHeaders (req : RequestData) (headers : List (Text × Text)) : Except Thrown RequestData :=
  (collect host engine req headers).map
    (fun x => { req with headers := some (writeBlock host (headStr x)) })

end

end RequestHelper

/-! ## The stream -/

structure HttpHeaderTransform where
  ssl : Option Bool := none
  headers : Option (List (Text × Text)) := none
  deriving DecidableEq, Repr

namespace HttpHeaderTransform

variable (host : Host) (engine : Text → Text → Option Text)

/-- `_transform`, with what it hands to the callback. -/
def transform (t : HttpHeaderTransform) (chunk : Bytes) :
    Except Thrown (HttpHeaderTransform × Bytes) :=
  match t.headers with
  | none => .ok (t, chunk)
  | some headers => do
      let requestData ← (RequestHelper.parse host (some chunk)).mapError .exception
      match t.ssl with
      | some _ => return (t, chunk)
      | none =>
          match requestData with
          -- `requestData.secured`
          | none => .error (.exception .typeError)
          | some req =>
              let t := { t with ssl := some req.secured }
              if req.secured then return (t, chunk)
              else
                let req ← RequestHelper.addHeaders host engine req headers
                match RequestHelper.build req with
                | .ok built => return (t, built)
                -- the empty `catch`
                | .error _ => return (t, chunk)

/-- What the stream emits for a list of chunks; an empty buffer is not
emitted. -/
def emitted (t : HttpHeaderTransform) : List Bytes → Except Thrown (List Bytes)
  | [] => .ok []
  | chunk :: chunks => do
      let (t, out) ← transform host engine t chunk
      let rest ← emitted t chunks
      return if out = [] then rest else out :: rest

end HttpHeaderTransform

end ProxyBroker.Server

/-
ProxyBroker.Proxy.CsvFormat — the csv output of lists of proxies and of
validation results (`OutputHelper.ts`), and the csv input of the validate
command (`ProxyValidateCommand.ts`).

Ports, levels and durations are printed in decimal. The other formats are
left out, and so is the schema that the input reads and drops.
-/
import ProxyBroker.Proxy.Storage

namespace ProxyBroker.Proxy

open Lib Server

/-- What is printed: an `IProxyResult`, which has a protocol, or an
`IProxyData`, which has none. -/
inductive OutputRow where
  | data (ip : Text) (port : Nat)
  | result (r : ProxyResult)
  deriving DecidableEq, Repr

namespace OutputHelper

/-! ## Writing -/

def natText (n : Nat) : Text := Nat.toDigits 10 n

def intText : Int → Text
  | .ofNat n => natText n
  | .negSucc n => '-' :: natText (n + 1)

def boolText (b : Bool) : Text := if b then "true".toList else "false".toList

def join (sep : Char) (texts : List Text) : Text := [sep].intercalate texts

/-- The header row that belongs to a row. -/
def header : OutputRow → List Text
  | .result _ =>
      ["protocol".toList, "ip".toList, "port".toList, "enabled".toList, "level".toList,
        "duration".toList]
  | .data _ _ => ["ip".toList, "port".toList]

def cells : OutputRow → List Text
  | .result entry =>
      [entry.protocol, entry.ip, natText entry.port, boolText entry.enabled, intText entry.level,
        intText entry.duration]
  | .data ip port => [ip, natText port]

/-- The rows, with the header of the first, each text once. -/
def csvRows : List OutputRow → List Text
  | [] => []
  | first :: rest =>
      (join ';' (header first) ::
        (first :: rest).map (fun row => join ';' (cells row))).eraseDups

/-- What `printResults(results, 'csv')` writes, as bytes of a file. -/
def printResults (results : List OutputRow) : Bytes :=
  Utf8.encode (join '\n' (csvRows results) ++ ['\n'])

end OutputHelper

namespace ProxyValidateCommand

/-! ## Reading -/

/-- `/^https?$/` -/
def isSchema (entry : Text) : Bool := entry = "http".toList || entry = "https".toList

/-- `/^\d{1,3}\.\d{1,3}\.\d{1,3}\.\d{1,3}$/` -/
def isIp (entry : Text) : Bool :=
  let parts := entry.splitOn '.'
  parts.length = 4 && parts.all (fun p => 1 ≤ p.length && p.length ≤ 3 && p.all Char.isDigit)

/-- `/^\d+$/` -/
def isNumber (entry : Text) : Bool := !entry.isEmpty && entry.all Char.isDigit

/-- A line of the file. A test of `undefined` fails: its text matches none
of the expressions. -/
def readLine (value : Text) : Option ProxyData :=
  let matched := (value.splitOn ';').map JsText.trim
  let entry := matched.head?
  let matched := matched.tail
  let (entry, matched) :=
    if entry.any isSchema then (matched.head?, matched.tail) else (entry, matched)
  let (ip, entry) :=
    if entry.any isIp then (entry, matched.head?) else (none, entry)
  let port :=
    match entry with
    | some entry => if isNumber entry then Nat.ofDigitChars 10 entry 0 else 3128
    | none => 3128
  match ip with
  | some ip => if port ≠ 0 then some { ip := ip, port := port } else none
  | none => none

/-- The csv branch of `handler`: the proxies of a file. -/
def readCsv (buffer : Bytes) : List ProxyData :=
  ((JsText.trim (Utf8.decode buffer)).splitOn '\n').filterMap readLine

end ProxyValidateCommand

end ProxyBroker.Proxy

/-
ProxyBroker.Proxy.Storage — the tables of the validator and what is asked
of them: the entities `IpAddr`, `IpAddrState` and `IpLoc`, the lookups and
saves of `ProxyValidator.store`, the query of `ProxyValidator.run` and the
rows `ProxyRotator.fetch` selects from.

`save` writes every column of the entity: what another call has written
since the entity was read is overwritten. An entity without an id is
inserted; the unique index on ip and port may reject that.

Dates are milliseconds.

Left out: generated columns nothing reads (ids of states, creation and
update dates, the key that repeats ip and port) and the columns of
`IpLoc` that are only copied; order and paging of `fetch`.
-/
import Mathlib.Data.List.Sort
import ProxyBroker.Proxy.ProxyUsed

namespace ProxyBroker.Proxy

open Server

/-- The numbers of the enumeration, which are bits of a set. -/
def ProtocolType.code : ProtocolType → Nat
  | .http => 1
  | .https => 2

/-! ## What the judge returns -/

/-- `NestedException`, as far as it is stored. -/
structure JudgeError where
  code : Text
  message : Text
  deriving DecidableEq, Repr

/-- `JudgeResult`; `hasError` is set together with `error`, and `log` is
what `logToString` writes. -/
structure JudgeResult where
  error : Option JudgeError := none
  protocolFrom : ProtocolType
  protocolTo : ProtocolType
  level : Int := -2
  duration : Int := -1
  start : Nat := 0
  stop : Nat := 0
  log : Text := []
  deriving DecidableEq, Repr

def JudgeResult.hasError (r : JudgeResult) : Bool := r.error.isSome

structure GeoData where
  /-- `geo.lat && geo.lon` -/
  located : Bool
  countryCode : Text
  deriving DecidableEq, Repr

/-- `JudgeResults`; `geo` tells that there is `geoData`. -/
structure JudgeResults where
  variants : List JudgeResult := []
  geoData : Option GeoData := none
  deriving DecidableEq, Repr

/-- The order of `getVariants`. -/
def variantBefore (a b : JudgeResult) : Prop :=
  a.protocolFrom.code < b.protocolFrom.code ∨
    a.protocolFrom.code = b.protocolFrom.code ∧ a.protocolTo.code ≤ b.protocolTo.code

instance : DecidableRel variantBefore := fun _ _ => inferInstanceAs (Decidable (_ ∨ _))

def JudgeResults.getVariants (r : JudgeResults) : List JudgeResult :=
  r.variants.insertionSort variantBefore

structure ProxyData where
  ip : Text
  port : Nat
  results : Option JudgeResults := none
  deriving DecidableEq, Repr

/-- `IProxyResult`. -/
structure ProxyResult where
  protocol : Text
  ip : Text
  port : Nat
  enabled : Bool
  level : Int
  duration : Int
  deriving DecidableEq, Repr

namespace Storage

/-! ## Tables -/

structure IpAddr where
  /-- 0 before the entity is inserted -/
  id : Nat := 0
  ip : Text
  port : Nat
  validationId : Nat := 0
  protocolsSrc : Nat := 0
  protocolsDest : Nat := 0
  blocked : Bool := false
  toDelete : Bool := false
  lastCheckedAt : Option Nat := none
  countErrors : Nat := 0
  errorsSinceAt : Option Nat := none
  countSuccess : Nat := 0
  successSinceAt : Option Nat := none
  deriving DecidableEq, Repr

structure IpAddrState where
  enabled : Bool
  protocolSrc : ProtocolType
  protocolDest : ProtocolType
  addrId : Nat
  validationId : Nat
  level : Int
  start : Nat
  stop : Nat
  duration : Int
  errorCode : Option Text
  errorMessage : Option Text
  log : Text
  deriving DecidableEq, Repr

structure IpLoc where
  ip : Text
  countryCode : Text
  deriving DecidableEq, Repr

structure Database where
  addrs : List IpAddr := []
  states : List IpAddrState := []
  locs : List IpLoc := []
  /-- the next id the address table generates -/
  nextId : Nat := 1
  deriving DecidableEq, Repr

namespace Database

/-- `findOne(IpAddr, {ip, port})` -/
def findAddr (db : Database) (ip : Text) (port : Nat) : Option IpAddr :=
  db.addrs.find? (fun a => a.ip = ip && a.port = port)

/-- `save` of an address: the entity with its id, or `none` if the unique
index rejects it. -/
def saveAddr (db : Database) (a : IpAddr) : Option (Database × IpAddr) :=
  if a.id = 0 then
    if (db.findAddr a.ip a.port).isSome then none
    else
      let a := { a with id := db.nextId }
      some ({ db with addrs := db.addrs ++ [a], nextId := db.nextId + 1 }, a)
  else some ({ db with addrs := db.addrs.map (fun b => if b.id = a.id then a else b) }, a)

/-- `save` of a new state. -/
def saveState (db : Database) (state : IpAddrState) : Database :=
  { db with states := db.states ++ [state] }

/-- `findOne(IpLoc, {where: {ip}})` -/
def findLoc (db : Database) (ip : Text) : Option IpLoc := db.locs.find? (fun l => l.ip = ip)

/-- `save` of a location; its ip is the primary key. -/
def saveLoc (db : Database) (loc : IpLoc) : Database :=
  { db with
    locs := if (db.findLoc loc.ip).isSome then
        db.locs.map (fun l => if l.ip = loc.ip then loc else l)
      else db.locs ++ [loc] }

/-- The addresses `run` validates again: not blocked or to be deleted, and
not checked for `timeDistance` seconds. The string `DateUtils` makes of the
date is taken for the instant it names. -/
def recheck (db : Database) (now timeDistance limit : Nat) : List IpAddr :=
  (db.addrs.filter (fun a => !a.blocked && !a.toDelete &&
    match a.lastCheckedAt with
    | none => true
    | some t => t + timeDistance * 1000 < now)).take limit

/-- The join of `fetch` on the current validation. -/
def joined (db : Database) (a : IpAddr) : List IpAddrState :=
  db.states.filter (fun s => s.addrId = a.id && s.validationId = a.validationId)

/-- The rows `fetch` selects from: its conditions on the joined state and
the address. A selector and the usage record only take rows away. -/
def selectable (db : Database) : List (IpAddr × IpAddrState) :=
  db.addrs.flatMap (fun a =>
    ((db.joined a).filter (fun s =>
      s.enabled && 0 < s.level && !a.toDelete && !a.blocked)).map (fun s => (a, s)))

end Database

end Storage

end ProxyBroker.Proxy

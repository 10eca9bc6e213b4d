/-
ProxyBroker.Proxy.Store — `ProxyValidator.store` (`ProxyValidator.ts`), any
number of calls interleaved at their awaits, and the tail of `do` that
decides whether it is called.

A call is cut at its awaits: each operation on the database is one step,
together with the code behind it up to the next one. The saves of the
states are issued all at once and end in any order; `Promise.all` goes on
when all have ended and rejects with the first rejection, and then the
other saves may still end. The stage of a call is what it waits for and
what it has in hand.

The entity a call works on is its own: other calls have read theirs.

Any operation may be rejected by the database. A rejected save of the
location is caught, every other rejection ends the call.

Left out: the connection the calls use (`ProxyValidator`), log lines.
-/
import ProxyBroker.Lib.Transition
import ProxyBroker.Proxy.ProxyValidator
import ProxyBroker.Proxy.Storage

namespace ProxyBroker.Proxy.Storage

open Lib

namespace IpAddr

def addSourceProtocol (a : IpAddr) (p : ProtocolType) : IpAddr :=
  { a with protocolsSrc := a.protocolsSrc ||| p.code }

def addProtocol (a : IpAddr) (p : ProtocolType) : IpAddr :=
  { a with protocolsDest := a.protocolsDest ||| p.code }

/-- The counters and since dates, once the states are saved. -/
def count (a : IpAddr) (enabled : Bool) (now : Nat) : IpAddr :=
  if enabled then
    { a with
      countSuccess := a.countSuccess + 1
      countErrors := 0
      errorsSinceAt := none
      successSinceAt := some (a.successSinceAt.getD now) }
  else
    { a with
      countSuccess := 0
      countErrors := a.countErrors + 1
      successSinceAt := none
      errorsSinceAt := some (a.errorsSinceAt.getD now) }

end IpAddr

/-- What `buildState` enables. -/
def enables (result : JudgeResult) : Bool := !result.hasError && decide (-1 < result.level)

/-- The state of a result, and the address with the protocols it has
shown to work. -/
def buildState (addr : IpAddr) (result : JudgeResult) : IpAddrState × IpAddr :=
  let state : IpAddrState :=
    { addrId := addr.id
      validationId := addr.validationId
      level := result.level
      protocolSrc := result.protocolFrom
      protocolDest := result.protocolTo
      enabled := enables result
      errorCode := result.error.map (·.code)
      errorMessage := result.error.map (·.message)
      log := result.log
      duration := result.duration
      start := result.start
      stop := result.stop }
  (state,
    if state.enabled then
      (addr.addSourceProtocol result.protocolFrom).addProtocol result.protocolTo
    else addr)

/-- The loop over the variants: the states to be saved, the address, and
whether a state is enabled. -/
def buildStates (addr : IpAddr) : List JudgeResult → List IpAddrState × IpAddr × Bool
  | [] => ([], addr, false)
  | result :: results =>
      let (state, addr) := buildState addr result
      let (states, addr, enabled) := buildStates addr results
      (state :: states, addr, state.enabled || enabled)

/-! ## Calls -/

/-- What a call waits for. -/
inductive Stage where
  | finding
  /-- the first save of the address -/
  | saving (addr : IpAddr)
  | locating (addr : IpAddr)
  | savingLoc (addr : IpAddr) (loc : IpLoc)
  /-- the saves of the states that have not ended -/
  | storing (addr : IpAddr) (enabled : Bool) (todo : List IpAddrState)
  /-- the last save of the address -/
  | finalSaving (addr : IpAddr)
  /-- the call has returned and left the entity like this -/
  | done (addr : IpAddr)
  /-- the call has rejected; saves of states that have not ended -/
  | failed (todo : List IpAddrState)
  /-- `do` does not call `store` -/
  | skipped
  deriving DecidableEq, Repr

structure StoreCall where
  data : ProxyData
  now : Nat
  stage : Stage
  deriving DecidableEq, Repr

inductive StoreAction where
  | tick (ms : Nat)
  | store (data : ProxyData)
  /-- `do` behind `judge.validate` -/
  | validated (data : ProxyData) (results : JudgeResults)
  /-- the operation the call waits for is done -/
  | go (i : Nat)
  | saveState (i k : Nat)
  /-- the operation the call waits for is rejected -/
  | reject (i : Nat)
  | rejectState (i k : Nat)
  deriving DecidableEq, Repr

structure Store where
  db : Database := {}
  clock : Nat := 0
  /-- every call there was, by its number -/
  calls : List StoreCall := []
  /-- history: the states saved, each with the call it is from -/
  written : List (Nat × IpAddrState) := []
  deriving DecidableEq, Repr

namespace Store

def goto (s : Store) (i : Nat) (c : StoreCall) (stage : Stage) : Store :=
  { s with calls := s.calls.set i { c with stage := stage } }

/-- The entity behind the lookup: found or new, with the next
`validation_id`. -/
def entered (db : Database) (data : ProxyData) (now : Nat) : IpAddr :=
  let addr := (db.findAddr data.ip data.port).getD { ip := data.ip, port := data.port }
  { addr with validationId := addr.validationId + 1, lastCheckedAt := some now }

/-- `Promise.all` with the saves that have not ended, and behind it. -/
def promiseAll (addr : IpAddr) (enabled : Bool) (now : Nat) : List IpAddrState → Stage
  | [] => .finalSaving (addr.count enabled now)
  | todo => .storing addr enabled todo

/-- From the variants to the saves of their states. -/
def storing (addr : IpAddr) (results : JudgeResults) (now : Nat) : Stage :=
  let (states, addr, enabled) := buildStates addr results.getVariants
  promiseAll addr enabled now states

/-- Behind the first save. -/
def saved (addr : IpAddr) (data : ProxyData) : Stage :=
  match data.results with
  | none => .done addr
  | some _ => .locating addr

/-- Behind the lookup of the location. -/
def located (addr : IpAddr) (data : ProxyData) (results : JudgeResults) (now : Nat) : Stage :=
  match results.geoData with
  | some geo =>
      if geo.located then .savingLoc addr ⟨data.ip, geo.countryCode⟩
      else storing addr results now
  | none => storing addr results now

/-- The operation a call waits for is done. -/
def goOn (s : Store) (i : Nat) (c : StoreCall) : Option Store :=
  match c.stage, c.data.results with
  | .finding, _ => some (s.goto i c (.saving (entered s.db c.data c.now)))
  | .saving addr, _ =>
      match s.db.saveAddr addr with
      | none => some (s.goto i c (.failed []))
      | some (db, addr) => some ({ s with db := db }.goto i c (saved addr c.data))
  | .locating addr, some results => some (s.goto i c (located addr c.data results c.now))
  | .savingLoc addr loc, some results =>
      some ({ s with db := s.db.saveLoc loc }.goto i c (storing addr results c.now))
  | .finalSaving addr, _ =>
      match s.db.saveAddr addr with
      | none => some (s.goto i c (.failed []))
      | some (db, addr) => some ({ s with db := db }.goto i c (.done addr))
  | _, _ => none

/-- The save of a state is done. -/
def saveState (s : Store) (i : Nat) (c : StoreCall) (k : Nat) : Option Store :=
  match c.stage with
  | .storing addr enabled todo =>
      todo[k]?.map (fun state =>
        { s with db := s.db.saveState state, written := s.written ++ [(i, state)] }.goto i c
          (promiseAll addr enabled c.now (todo.eraseIdx k)))
  | .failed todo =>
      todo[k]?.map (fun state =>
        { s with db := s.db.saveState state, written := s.written ++ [(i, state)] }.goto i c
          (.failed (todo.eraseIdx k)))
  | _ => none

/-- The operation a call waits for is rejected. -/
def reject (s : Store) (i : Nat) (c : StoreCall) : Option Store :=
  match c.stage, c.data.results with
  | .finding, _ | .saving _, _ | .locating _, _ | .finalSaving _, _ =>
      some (s.goto i c (.failed []))
  | .savingLoc addr _, some results => some (s.goto i c (storing addr results c.now))
  | _, _ => none

def rejectState (s : Store) (i : Nat) (c : StoreCall) (k : Nat) : Option Store :=
  match c.stage with
  | .storing _ _ todo | .failed todo =>
      todo[k]?.map (fun _ => s.goto i c (.failed (todo.eraseIdx k)))
  | _ => none

/-- A new call; what `new Date()` is then. -/
def call (s : Store) (data : ProxyData) (stage : Stage) : Store :=
  { s with calls := s.calls ++ [⟨data, s.clock, stage⟩] }

def hasSuccess (results : JudgeResults) : Bool := results.getVariants.any (fun r => !r.hasError)

def step (options : ValidatorOptions) (s : Store) : StoreAction → Option Store
  | .tick ms => some { s with clock := s.clock + ms }
  | .store data => some (s.call data .finding)
  | .validated data results =>
      some (s.call { data with results := some results }
        (if ProxyValidator.stores options (hasSuccess results) then .finding else .skipped))
  | .go i => s.calls[i]?.bind (fun c => s.goOn i c)
  | .saveState i k => s.calls[i]?.bind (fun c => s.saveState i c k)
  | .reject i => s.calls[i]?.bind (fun c => s.reject i c)
  | .rejectState i k => s.calls[i]?.bind (fun c => s.rejectState i c k)

def machine (options : ValidatorOptions) : Machine Store StoreAction where
  step := step options

end Store

end ProxyBroker.Proxy.Storage

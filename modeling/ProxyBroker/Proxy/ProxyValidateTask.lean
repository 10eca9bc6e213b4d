/-
ProxyBroker.Proxy.ProxyValidateTask — the validation task
(`ProxyValidateTask.ts`) on top of the validator's queue: `push`,
`isEmpty` and the rows `exec` returns.

The validator's machine runs below; here a job also has its workload and
its results, calls of `isEmpty` wait for the event that `onEmpty` emits,
and any number of `exec` calls push their proxies, collect rows as their
jobs settle, and return when their `isEmpty` call resolves. The last push
of an `exec` call and its call of `isEmpty` are one step: there is no
await between them.

`done` of a failed job rejects, so it leaves no rows. The address the
lookup finds, the results of the requests and their order are parts of
the step that ends a validation.

Left out: `handle` with its parsing of strings, the geo data, log lines.
-/
import ProxyBroker.Proxy.Store
import ProxyBroker.Proxy.ProxyValidator

namespace ProxyBroker.Proxy

open Lib Server Storage

/-- `JudgeResults` with the fields the task reads besides. -/
structure ValidateResults extends JudgeResults where
  protocol : ProtocolType := .http
  ip : Text
  port : Nat
  deriving DecidableEq, Repr

/-- What `Judge.validate` returns: the address of its lookup, and the
results of the requests that did not throw, as they came. -/
def judgeValidate (addr : Text) (port : Nat) (variants : List JudgeResult) : ValidateResults :=
  { variants := variants, ip := addr, port := port }

/-- The test of `do` before `store`. -/
def hasSuccess (r : ValidateResults) : Bool := r.getVariants.any (fun x => !x.hasError)

/-- A call of `isEmpty`. -/
structure EmptyCall where
  /-- history: the number of jobs pushed before it -/
  pushed : Nat
  resolved : Bool
  deriving DecidableEq, Repr

/-- A call of `exec`. -/
structure ProxyValidateTask where
  proxies : List ProxyData := []
  /-- those the loop has before it -/
  todo : List ProxyData := []
  /-- the jobs it has pushed -/
  jobs : List Nat := []
  /-- those whose rows are in and whose permit is back -/
  settled : List Nat := []
  results : List ProxyResult := []
  /-- its call of `isEmpty` -/
  call : Option Nat := none
  returned : Option (List ProxyResult) := none
  /-- history: the jobs that had settled when it returned -/
  counted : List Nat := []
  deriving DecidableEq, Repr

namespace ProxyValidateTask

/-- `new ProxyValidateTask()` has a semaphore of its own. -/
def permits : Nat := 10000

def row (jobResults : ValidateResults) (x : JudgeResult) : ProxyResult where
  protocol := if jobResults.protocol = .http then "http".toList else "https".toList
  ip := jobResults.ip
  port := jobResults.port
  enabled := !x.hasError
  level := x.level
  duration := x.duration

/-- The rows of a job that is done. -/
def rows (jobResults : ValidateResults) : List ProxyResult :=
  jobResults.getVariants.map (row jobResults)

end ProxyValidateTask

inductive TaskAction where
  /-- `push` by somebody else -/
  | push (o : ProxyData)
  /-- the validator goes on -/
  | validator (a : ValidatorAction)
  /-- `validate` of a job returns -/
  | validated (j : Nat) (addr : Text) (variants : List JudgeResult)
  /-- `isEmpty` by somebody else -/
  | isEmpty
  | exec (proxies : List ProxyData)
  /-- an `exec` call gets its permit, and pushes -/
  | acquired (k : Nat)
  /-- `done` of a job has settled, with what is chained to it -/
  | settled (k j : Nat)
  /-- `isEmpty` of an `exec` call has resolved -/
  | returned (k : Nat)
  deriving DecidableEq, Repr

/-- The validator, its callers and their tasks. -/
structure Tasks where
  validator : ProxyValidator := {}
  /-- what each job was pushed with -/
  workloads : List ProxyData := []
  /-- what `validate` has returned for a job -/
  results : Nat → Option ValidateResults := fun _ => none
  calls : List EmptyCall := []
  tasks : List ProxyValidateTask := []

namespace Tasks

/-! ## The validator's methods -/

/-- `push` -/
def push (s : Tasks) (o : ProxyData) : Tasks :=
  { s with validator := s.validator.push, workloads := s.workloads ++ [o] }

/-- `isEmpty`: it resolves at once or registers for the event. -/
def isEmpty (s : Tasks) : Tasks :=
  { s with
    calls := s.calls ++
      [{ pushed := s.validator.jobs.length, resolved := s.validator.isEmpty }] }

/-- The event is emitted: every call that waits resolves. -/
def emptyFinished (s : Tasks) : Tasks :=
  { s with calls := s.calls.map (fun c => { c with resolved := true }) }

/-- The action ends an `onEmpty` call, which emits the event. -/
def emits (v : ProxyValidator) : ValidatorAction → Bool
  | .onEmpty => v.connection.isNone && !v.judge.isEnabled
  | .empty k .closed => v.empties[k]? = some .closing && !v.judge.isEnabled
  | .empty k .resumed => v.empties[k]? = some .leaving
  | _ => false

/-- Steps of the validator that have an action of their own here. -/
def isOwn : ValidatorAction → Bool
  | .push | .job _ (.validated _) => true
  | _ => false

def stepValidator (options : ValidatorOptions) (s : Tasks) (a : ValidatorAction) : Option Tasks :=
  if isOwn a then none
  else (s.validator.step options a).map (fun v =>
    let s' : Tasks := { s with validator := v }
    if emits s.validator a then s'.emptyFinished else s')

/-- `do` behind `validate`. -/
def validated (options : ValidatorOptions) (s : Tasks) (j : Nat) (addr : Text)
    (variants : List JudgeResult) : Option Tasks :=
  s.workloads[j]?.bind (fun o =>
    let r := judgeValidate addr o.port variants
    (s.validator.step options (.job j (.validated (hasSuccess r)))).map (fun v =>
      { s with validator := v, results := Function.update s.results j (some r) }))

/-! ## `exec` -/

def setTask (s : Tasks) (k : Nat) (e : ProxyValidateTask) : Tasks :=
  { s with tasks := s.tasks.set k e }

def exec (s : Tasks) (proxies : List ProxyData) : Tasks :=
  { s with
    tasks := s.tasks ++
      [if proxies.length = 0 then { returned := some [] }
        else { proxies := proxies, todo := proxies }] }

/-- The loop, from one permit to the wait for the next, or to the wait
for `isEmpty`. -/
def acquired (s : Tasks) (k : Nat) (e : ProxyValidateTask) : Option Tasks :=
  match e.todo with
  | [] => none
  | q :: rest =>
      if e.jobs.length < e.settled.length + ProxyValidateTask.permits then
        let e := { e with todo := rest, jobs := e.jobs ++ [s.validator.jobs.length] }
        let s := s.push q
        if rest = [] then some (s.isEmpty.setTask k { e with call := some s.calls.length })
        else some (s.setTask k e)
      else none

/-- What `getResult` of a job is; `none` if the job has failed. -/
def getResult (s : Tasks) (j : Nat) : Option ValidateResults :=
  if s.validator.jobs[j]? = some .done then s.results j else none

/-- The rows a job leaves. -/
def rowsOf (s : Tasks) (j : Nat) : List ProxyResult :=
  match s.getResult j with
  | some r => ProxyValidateTask.rows r
  | none => []

/-- The job is over, so `done` settles. -/
def isOver (s : Tasks) (j : Nat) : Bool := s.validator.jobs[j]?.any JobPhase.isOver

def settled (s : Tasks) (k j : Nat) (e : ProxyValidateTask) : Option Tasks :=
  if j ∈ e.jobs ∧ j ∉ e.settled ∧ s.isOver j then
    some (s.setTask k
      { e with settled := e.settled ++ [j], results := e.results ++ s.rowsOf j })
  else none

def returned (s : Tasks) (k : Nat) (e : ProxyValidateTask) : Option Tasks :=
  if e.returned = none ∧ (e.call.bind (s.calls[·]?)).any (·.resolved) then
    some (s.setTask k { e with returned := some e.results, counted := e.settled })
  else none

/-! ## The machine -/

def step (options : ValidatorOptions) (s : Tasks) : TaskAction → Option Tasks
  | .push o => some (s.push o)
  | .validator a => s.stepValidator options a
  | .validated j addr variants => s.validated options j addr variants
  | .isEmpty => some s.isEmpty
  | .exec proxies => some (s.exec proxies)
  | .acquired k => s.tasks[k]?.bind (s.acquired k)
  | .settled k j => s.tasks[k]?.bind (s.settled k j)
  | .returned k => s.tasks[k]?.bind (s.returned k)

def machine (options : ValidatorOptions) : Machine Tasks TaskAction where
  step := step options

end Tasks

end ProxyBroker.Proxy

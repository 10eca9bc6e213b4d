/-
ProxyBroker.Judge.Lifecycle — the judge's flag, its lock and its request
cache (`Judge.ts`): `wakeup` and `pending`, cut at their awaits.

A call has up to three parts. The first tests the flag and asks for the
lock; the second runs once the lock is held, changes the flag and calls
the servers; the third runs when the servers are done and releases the
lock. What the servers answer decides only what the call returns.

`wakeup` takes its test before it asks for the lock, and so does
`pending`, which also clears the cache there.

Request ids are the values of the counter `inc`: the hash around it is
taken to keep them apart.

Left out: the servers, the urls and options of a request, log lines.
-/
import Mathlib.Data.List.Basic
import ProxyBroker.Lib.Semaphore

namespace ProxyBroker

open Lib

/-- The judge; `κ` are the callers of `wakeup` and `pending`. -/
structure Judge (κ : Type) where
  inc : Nat := 0
  enabled : Bool := false
  lock : Semaphore κ := {}
  cache : List Nat := []
  /-- history: the requests `pending` has cleared -/
  cleared : List Nat := []
  deriving DecidableEq, Repr

namespace Judge

variable {κ : Type}

/-! ## The request cache -/

def createRequest (j : Judge κ) : Judge κ × Nat :=
  ({ j with inc := j.inc + 1, cache := j.cache ++ [j.inc] }, j.inc)

/-- The calls of `createRequest` of one validation. -/
def createRequests : Nat → Judge κ → Judge κ × List Nat
  | 0, j => (j, [])
  | n + 1, j =>
      let (j, id) := j.createRequest
      let (j, ids) := createRequests n j
      (j, id :: ids)

def removeFromCache (j : Judge κ) (id : Nat) : Judge κ :=
  { j with cache := j.cache.filter (· ≠ id) }

/-- Every request of the cache is cleared and removed. -/
def clearCache (j : Judge κ) : Judge κ :=
  { j with cache := [], cleared := j.cleared ++ j.cache }

/-! ## The flag and the lock -/

def isEnabled (j : Judge κ) : Bool := j.enabled

def enable (j : Judge κ) : Judge κ := { j with enabled := true }

def disable (j : Judge κ) : Judge κ := { j with enabled := false }

/-- `progressing` resolves when the lock is free. -/
def progressing (j : Judge κ) : Bool := j.lock.isFree

/-- The first part of `wakeup`; `none` when it returns at once. -/
def wakeup (j : Judge κ) (c : κ) : Option (Judge κ) :=
  if j.isEnabled then none else some { j with lock := j.lock.acquire c }

/-- The first part of `pending`; `none` when it returns at once. -/
def pending (j : Judge κ) (c : κ) : Option (Judge κ) :=
  if !j.isEnabled then none
  else
    let j := j.clearCache
    some { j with lock := j.lock.acquire c }

/-- The `finally` of both. -/
def release (j : Judge κ) : Judge κ := { j with lock := j.lock.release }

end Judge

end ProxyBroker

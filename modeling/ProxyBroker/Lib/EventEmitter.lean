/-
ProxyBroker.Lib.EventEmitter — listeners, and the identity of functions.

An emitter calls the functions that were given to `on`, in that order,
and `removeListener` takes one away again: the latest registration of
the very function object it is given. `bind` makes a new function object
with every call, so a listener that was registered as
`handler.bind(this)` is not found by a `removeListener` that binds the
same method once more (`removeBound_list`): it stays for good.

Emitters, event names and methods are types of the user; function
objects are numbers, handed out in order.
-/
import Mathlib.Data.List.Basic

namespace Lib

/-- A function object that listens: where, for what, which object it is,
and the method it was bound from. -/
structure Listener (ε ν κ : Type) where
  emitter : ε
  event : ν
  fn : Nat
  method : κ
  deriving DecidableEq, Repr

structure Listeners (ε ν κ : Type) where
  list : List (Listener ε ν κ) := []
  /-- the next function object -/
  nextFn : Nat := 0
  deriving DecidableEq, Repr

namespace Listeners

variable {ε ν κ : Type} [DecidableEq ε] [DecidableEq ν]

/-- `emitter.on(event, method.bind(this))` -/
def onBound (l : Listeners ε ν κ) (emitter : ε) (event : ν) (method : κ) : Listeners ε ν κ where
  list := l.list ++ [{ emitter := emitter, event := event, fn := l.nextFn, method := method }]
  nextFn := l.nextFn + 1

/-- The registration is the one `removeListener(event, fn)` looks for. -/
def isAt (emitter : ε) (event : ν) (fn : Nat) (x : Listener ε ν κ) : Bool :=
  x.emitter = emitter && x.event = event && x.fn = fn

/-- `emitter.removeListener(event, fn)` -/
def removeListener (l : Listeners ε ν κ) (emitter : ε) (event : ν) (fn : Nat) :
    Listeners ε ν κ :=
  { l with list := (l.list.reverse.eraseP (isAt emitter event fn)).reverse }

/-- `emitter.removeListener(event, method.bind(this))` -/
def removeBound (l : Listeners ε ν κ) (emitter : ε) (event : ν) : Listeners ε ν κ :=
  { l.removeListener emitter event l.nextFn with nextFn := l.nextFn + 1 }

/-- The methods that run when `emitter` emits `event`. -/
def methods (l : Listeners ε ν κ) (emitter : ε) (event : ν) : List κ :=
  (l.list.filter (fun x => x.emitter = emitter && x.event = event)).map (·.method)

/-- Function objects in use were handed out before. -/
def Fresh (l : Listeners ε ν κ) : Prop := ∀ x ∈ l.list, x.fn < l.nextFn

omit [DecidableEq ε] [DecidableEq ν] in
theorem Fresh.onBound {l : Listeners ε ν κ} (h : l.Fresh) (emitter : ε) (event : ν) (method : κ) :
    (l.onBound emitter event method).Fresh := by
  intro x hx
  rcases List.mem_append.mp hx with hx | hx
  · exact Nat.lt_succ_of_lt (h x hx)
  · rw [List.mem_singleton.mp hx]
    exact Nat.lt_succ_self _

/-- **A listener that was bound anew is not removed.** -/
theorem Fresh.removeBound_list {l : Listeners ε ν κ} (h : l.Fresh) (emitter : ε) (event : ν) :
    (l.removeBound emitter event).list = l.list := by
  have hnone : ∀ x ∈ l.list.reverse, ¬ isAt emitter event l.nextFn x = true := by
    intro x hx hat
    have hlt := h x (List.mem_reverse.mp hx)
    simp only [isAt, Bool.and_eq_true, decide_eq_true_eq] at hat
    omega
  show (l.list.reverse.eraseP _).reverse = l.list
  rw [List.eraseP_of_forall_not hnone, List.reverse_reverse]

theorem Fresh.removeBound {l : Listeners ε ν κ} (h : l.Fresh) (emitter : ε) (event : ν) :
    (l.removeBound emitter event).Fresh := by
  intro x hx
  rw [h.removeBound_list] at hx
  exact Nat.lt_succ_of_lt (h x hx)

end Listeners

end Lib

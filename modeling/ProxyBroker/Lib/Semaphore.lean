/-
ProxyBroker.Lib.Semaphore — a fair binary semaphore.

Callers of a type `κ` acquire it; a caller that finds it held waits in
line. A release hands it to the first in line, so it is never free while
someone waits. Being handed the semaphore and running on are two moments:
the caller runs on in some later step, in which it is the holder.
-/

namespace Lib

structure Semaphore (κ : Type) where
  holder : Option κ := none
  waiting : List κ := []
  deriving DecidableEq, Repr

namespace Semaphore

variable {κ : Type}

def acquire (s : Semaphore κ) (c : κ) : Semaphore κ :=
  match s.holder with
  | none => { s with holder := some c }
  | some _ => { s with waiting := s.waiting ++ [c] }

def release (s : Semaphore κ) : Semaphore κ :=
  { holder := s.waiting.head?, waiting := s.waiting.tail }

def isFree (s : Semaphore κ) : Bool := s.holder.isNone

end Semaphore

end Lib

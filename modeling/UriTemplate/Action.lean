import UriTemplate.Fault

/-!
# Actions

Expanding a template may use up values that can be read once only, and asks sources for values.

* `World` — the streams that are used up, and the names that sources have been asked for;
* `Act` — a computation that may change the world and may end in a fault.  What it did to the world before the
  fault stays.
-/

namespace UriTemplate

structure World where
  drained : List Nat := []
  asked : List Text := []
deriving DecidableEq

/-- A computation with effects on the world. -/
abbrev Act (α : Type) := ExceptT Fault (StateM World) α

namespace Act

/-- Notes that a source is asked for `name`. -/
def note (name : Text) : Act Unit := modify fun w => { w with asked := w.asked ++ [name] }

/-- Uses up a stream; tells whether there was anything left to use up. -/
def drain (stream : Nat) : Act Bool := do
  if (← get).drained.contains stream then return false
  modify fun w => { w with drained := stream :: w.drained }
  return true

def ofExcept {α : Type} : Except Fault α → Act α
  | .ok a => pure a
  | .error e => throw e

end Act

end UriTemplate

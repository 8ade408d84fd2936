/-!
Edits: computations that work on a value in place, with a state, and may stop on an error. A stopped
edit still leaves a value, edited as far as it came; the state it leaves is the one at the stop.
-/

set_option autoImplicit false

namespace ClassInit

/-- What an edit leaves: the finished value, or the value at the stop with the error. -/
inductive Outcome (ε α : Type) where
  | done (value : α)
  | stopped (value : α) (error : ε)

namespace Outcome

variable {ε α β : Type}

def value : Outcome ε α → α
  | done a => a
  | stopped a _ => a

def error? : Outcome ε α → Option ε
  | done _ => none
  | stopped _ e => some e

def map (f : α → β) : Outcome ε α → Outcome ε β
  | done a => done (f a)
  | stopped a e => stopped (f a) e

end Outcome

/-- An edit that leaves a value of type `α`. -/
abbrev Edit (σ ε α : Type) := σ → Outcome ε α × σ

namespace Edit

variable {σ ε α β : Type}

/-- Leaves the value as it is. -/
def keep (a : α) : Edit σ ε α := fun s => (.done a, s)

/-- Stops at once. -/
def stop (a : α) (e : ε) : Edit σ ε α := fun s => (.stopped a e, s)

/-- A computation that cannot stop. -/
def ofState (m : StateM σ α) : Edit σ ε α := fun s =>
  let (a, s) := m s
  (.done a, s)

/-- An edit of a part, seen from the whole. -/
def map (f : α → β) (m : Edit σ ε α) : Edit σ ε β := fun s =>
  let (o, s) := m s
  (o.map f, s)

/-- Edits a part and, if that finished, goes on; `whole` is what a stop leaves of the rest. -/
def andThen (m : Edit σ ε α) (whole : α → β) (next : α → Edit σ ε β) : Edit σ ε β := fun s =>
  match m s with
  | (.done a, s) => next a s
  | (.stopped a e, s) => (.stopped (whole a) e, s)

/-- One edit after another. -/
def seq (m : Edit σ ε α) (next : α → Edit σ ε α) : Edit σ ε α := m.andThen id next

/-- Edits the items from the first to the last; the items after a stop stay as they are. -/
def list (f : α → Edit σ ε α) : List α → Edit σ ε (List α)
  | [] => keep []
  | a :: as => (f a).andThen (· :: as) fun a => (list f as).map (a :: ·)

end Edit

end ClassInit

import Datebook.Store.Error

/-!
# Events in memory

A map from ids to events. Every call first brings its event to storage precision and checks it, then
looks at the map; one that fails leaves the map as it was.
-/

namespace Datebook

/-- Events by their ids. -/
structure MemoryStore where
  entries : List (String × Event)
  deriving DecidableEq

namespace MemoryStore

def empty : MemoryStore := ⟨[]⟩

def events (m : MemoryStore) : List Event := m.entries.map (·.2)

def get? (m : MemoryStore) (id : String) : Option Event := m.entries.lookup id

/-- The map with the event under the id, in place of the one that was there. -/
def insert (m : MemoryStore) (id : String) (e : Event) : MemoryStore :=
  if (m.get? id).isSome then
    ⟨m.entries.map fun entry => if entry.1 = id then (id, e) else entry⟩
  else ⟨m.entries ++ [(id, e)]⟩

def erase (m : MemoryStore) (id : String) : MemoryStore :=
  ⟨m.entries.filter fun entry => entry.1 ≠ id⟩

/-- Stores a new event under the id, which must be free. -/
def create (m : MemoryStore) (id : String) (e : Event) : Except StoreError Event × MemoryStore :=
  let e := e.atStoragePrecision
  match e.flaw? with
  | some flaw => (.error (.invalid flaw), m)
  | none =>
    if m.events.any fun other => decide (other.CollidesWith e) then (.error .busy, m)
    else
      let e := { e with id := id }
      (.ok e, m.insert id e)

/-- Stores the event in place of the one with its id. -/
def update (m : MemoryStore) (e : Event) : Except StoreError Unit × MemoryStore :=
  let e := e.atStoragePrecision
  match e.flaw? with
  | some flaw => (.error (.invalid flaw), m)
  | none =>
    if (m.get? e.id).isNone then (.error (.notFound e.id), m)
    else if m.events.any fun other => decide (other.id ≠ e.id ∧ other.CollidesWith e) then
      (.error .busy, m)
    else (.ok (), m.insert e.id e)

def delete (m : MemoryStore) (id : String) : Except StoreError Unit × MemoryStore :=
  if (m.get? id).isSome then (.ok (), m.erase id) else (.error (.notFound id), m)

def get (m : MemoryStore) (id : String) : Except StoreError Event :=
  match m.get? id with
  | some e => .ok e
  | none => .error (.notFound id)

/-- The events that start from `start` to `finish`, both included. -/
def list (m : MemoryStore) (start finish : Instant) : List Event :=
  m.events.filter fun e => decide (start ≤ e.startTime) && decide (e.startTime ≤ finish)

end MemoryStore

end Datebook

import Datebook.Store.Memory
import Datebook.Store.Table

/-!
# The event store

The calls of an event store, each giving its result and the store afterwards, and either of the two
ways to keep events behind them.
-/

namespace Datebook

/-- The calls by which a state keeps events. -/
class EventCalls (σ : Type) where
  create (s : σ) (id : String) (e : Event) : Except StoreError Event × σ
  update (s : σ) (e : Event) : Except StoreError Unit × σ
  delete (s : σ) (id : String) : Except StoreError Unit × σ
  get (s : σ) (id : String) : Except StoreError Event
  list (s : σ) (start finish : Instant) : Except StoreError (List Event) × σ

inductive EventStore
  | memory (events : MemoryStore)
  | table (rows : EventTable)
  deriving DecidableEq

namespace EventStore

/-- Carries out a table's client on the rows of a store. -/
def onTable {α : Type} (rows : EventTable) (client : EventTable.Client α) : α × EventStore :=
  let (a, rows) := rows.run client
  (a, .table rows)

/-- Stores a new event under the id, which must be free. -/
def create (s : EventStore) (id : String) (e : Event) : Except StoreError Event × EventStore :=
  match s with
  | .memory m => let (r, m) := m.create id e; (r, .memory m)
  | .table t => onTable t (EventTable.create id e)

/-- Stores the event in place of the one with its id. -/
def update (s : EventStore) (e : Event) : Except StoreError Unit × EventStore :=
  match s with
  | .memory m => let (r, m) := m.update e; (r, .memory m)
  | .table t => onTable t (EventTable.update e)

def delete (s : EventStore) (id : String) : Except StoreError Unit × EventStore :=
  match s with
  | .memory m => let (r, m) := m.delete id; (r, .memory m)
  | .table t => onTable t (EventTable.delete id)

def get (s : EventStore) (id : String) : Except StoreError Event :=
  match s with
  | .memory m => m.get id
  | .table t => (t.run (EventTable.get id)).1

/-- The events that start from `start` to `finish`, both included. -/
def list (s : EventStore) (start finish : Instant) : Except StoreError (List Event) :=
  match s with
  | .memory m => .ok (m.list start finish)
  | .table t => (t.run (EventTable.list start finish)).1

instance : EventCalls EventStore where
  create := create
  update := update
  delete := delete
  get := get
  list s start finish := (s.list start finish, s)

section Calls

variable (s : EventStore) (id : String) (e : Event) (start finish : Instant)

@[simp] theorem calls_create : EventCalls.create s id e = s.create id e := rfl

@[simp] theorem calls_update : EventCalls.update s e = s.update e := rfl

@[simp] theorem calls_delete : EventCalls.delete s id = s.delete id := rfl

@[simp] theorem calls_get : EventCalls.get s id = s.get id := rfl

@[simp] theorem calls_list : EventCalls.list s start finish = (s.list start finish, s) := rfl

end Calls

end EventStore

end Datebook

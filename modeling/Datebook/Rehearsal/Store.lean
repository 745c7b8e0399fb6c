import Datebook.Store.Events

/-!
# A store that fails as planned

An event store some of whose calls fail, by a plan that is made beforehand.
-/

namespace Datebook

/-- The calls of a store that fail: lists by their number from 1, deletions by the event's title. -/
structure Outages where
  lists : List Nat
  deletionsOf : List String
  everything : Bool

namespace Outages

def none : Outages := ⟨[], [], false⟩

def error : StoreError := .io "disk full"

end Outages

/-- A store with outages, and the count of the lists asked of it so far. -/
structure UnsureStore where
  store : EventStore
  outages : Outages
  listed : Nat

namespace UnsureStore

def create (s : UnsureStore) (id : String) (e : Event) : Except StoreError Event × UnsureStore :=
  if s.outages.everything then (.error Outages.error, s)
  else
    let (r, store) := s.store.create id e
    (r, { s with store })

def update (s : UnsureStore) (e : Event) : Except StoreError Unit × UnsureStore :=
  if s.outages.everything then (.error Outages.error, s)
  else
    let (r, store) := s.store.update e
    (r, { s with store })

/-- The event is one whose deletion fails. -/
def keeps (s : UnsureStore) (id : String) : Bool :=
  match s.store.get id with
  | .ok e => s.outages.deletionsOf.contains e.title
  | .error _ => false

def delete (s : UnsureStore) (id : String) : Except StoreError Unit × UnsureStore :=
  if s.outages.everything || s.keeps id then (.error Outages.error, s)
  else
    let (r, store) := s.store.delete id
    (r, { s with store })

def get (s : UnsureStore) (id : String) : Except StoreError Event :=
  if s.outages.everything then .error Outages.error else s.store.get id

def list (s : UnsureStore) (start finish : Instant) :
    Except StoreError (List Event) × UnsureStore :=
  let s := { s with listed := s.listed + 1 }
  if s.outages.everything || s.outages.lists.contains s.listed then (.error Outages.error, s)
  else (s.store.list start finish, s)

instance : EventCalls UnsureStore where
  create := create
  update := update
  delete := delete
  get := get
  list := list

end UnsureStore

end Datebook

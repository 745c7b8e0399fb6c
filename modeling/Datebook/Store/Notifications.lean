import Datebook.Notification
import Datebook.Store.Error
import Datebook.Store.Table

/-!
# The notification store

A log to which notifications are only ever added: the first one saved under an id stays, and a later
one with that id is ignored. The log is kept in memory in the order of arrival, beside the set of
the ids that are taken, or in a table whose instants are integer microseconds.
-/

namespace Datebook

/-- Notifications in the order of arrival, and the set of ids by which a save tells whether its id
is taken. -/
structure NotificationLog where
  entries : List Notification
  ids : List String
  deriving DecidableEq

namespace NotificationLog

def empty : NotificationLog := ⟨[], []⟩

def save (l : NotificationLog) (n : Notification) : NotificationLog :=
  if l.ids.contains n.id then l else ⟨l.entries ++ [n], l.ids ++ [n.id]⟩

/-- A user's notifications from `start` to `finish`, both included, by their time and then by
arrival. -/
def list (l : NotificationLog) (userId : String) (start finish : Instant) : List Notification :=
  (l.entries.filter fun n =>
      n.userId == userId && decide (start ≤ n.notifyAt) && decide (n.notifyAt ≤ finish)).mergeSort
    fun a b => decide (a.notifyAt ≤ b.notifyAt)

end NotificationLog

/-- A notification as a row. -/
structure NotificationRow where
  id : String
  eventId : String
  eventTitle : String
  userId : String
  message : String
  notify : Int
  created : Int
  deriving DecidableEq

/-- The rows in the order in which they were inserted. -/
abbrev NotificationTable := List NotificationRow

namespace NotificationRow

def ofNotification (n : Notification) : NotificationRow :=
  ⟨n.id, n.eventId, n.eventTitle, n.userId, n.message, n.notifyAt.micros, n.createdAt.micros⟩

/-- The notification in a row. -/
def notification (r : NotificationRow) : Except StoreError Notification := do
  let notify ← EventRow.instant r.notify 5
  let created ← EventRow.instant r.created 6
  return ⟨r.id, r.eventId, r.eventTitle, r.userId, r.message, notify, created⟩

end NotificationRow

namespace NotificationTable

def save (t : NotificationTable) (n : Notification) : NotificationTable :=
  if t.any fun r => r.id == n.id then t else t ++ [.ofNotification n]

/-- A user's notifications from `start` to `finish`, both included, to the microsecond. -/
def list (t : NotificationTable) (userId : String) (start finish : Instant) :
    Except StoreError (List Notification) :=
  ((t.filter fun r =>
      r.userId == userId && decide (start.micros ≤ r.notify)
        && decide (r.notify ≤ finish.micros)).mergeSort
    fun a b => decide (a.notify ≤ b.notify)).mapM NotificationRow.notification

end NotificationTable

inductive NotificationStore
  | memory (log : NotificationLog)
  | table (rows : NotificationTable)
  deriving DecidableEq

namespace NotificationStore

def save (s : NotificationStore) (n : Notification) : NotificationStore :=
  match s with
  | .memory l => .memory (l.save n)
  | .table t => .table (t.save n)

def list (s : NotificationStore) (userId : String) (start finish : Instant) :
    Except StoreError (List Notification) :=
  match s with
  | .memory l => .ok (l.list userId start finish)
  | .table t => t.list userId start finish

end NotificationStore

end Datebook

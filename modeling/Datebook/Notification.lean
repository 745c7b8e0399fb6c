import Datebook.Json.Record

/-!
# Notifications

A reminder that has come due, as it travels through the broker: one flat record, written without
space. `Notification.ofOctets?` reads the record with its members in any order and skips others.
-/

namespace Datebook

/-- A reminder that has come due for one event. -/
structure Notification where
  id : String
  eventId : String
  eventTitle : String
  userId : String
  message : String
  notifyAt : Instant
  createdAt : Instant
  deriving DecidableEq

namespace Notification

open Json in
/-- The members of a notification's record, none of which may be left out. -/
def fields : List Field :=
  [⟨"id", .text, none⟩, ⟨"event_id", .text, none⟩, ⟨"event_title", .text, none⟩,
    ⟨"user_id", .text, none⟩, ⟨"message", .text, none⟩, ⟨"notify_at", .instant, none⟩,
    ⟨"created_at", .instant, none⟩]

open Json in
def ofCells? : List Cell → Option Notification
  | [.text id, .text eventId, .text title, .text user, .text message, .instant notify,
      .instant created] =>
    some ⟨id, eventId, title, user, message, notify, created⟩
  | _ => none

/-- The notification that a text holds, if it is a notification's record and nothing else. -/
def ofOctets? (s : Octets) : Option Notification :=
  (Json.readDocument fields s).toOption.bind ofCells?

/-- The notification as a record without space. -/
def text (n : Notification) : String :=
  String.ofList (Json.object
    [("id", Json.quoted n.id), ("event_id", Json.quoted n.eventId),
      ("event_title", Json.quoted n.eventTitle), ("user_id", Json.quoted n.userId),
      ("message", Json.quoted n.message), ("notify_at", Json.quoted n.notifyAt.text),
      ("created_at", Json.quoted n.createdAt.text)])

/-- The notification as it is sent. -/
def payload (n : Notification) : Octets := octetsOf n.text

end Notification

end Datebook

import Datebook.Broker.Queue
import Datebook.Store.Notifications

/-!
# The archive

Saves what a consumer receives, in the order of delivery, until the delivery ends or the archive is
cancelled. The cancellation is looked at before each notification is taken, and a save that has
begun is always completed; a save that fails is counted and its notification given up.
-/

namespace Datebook

/-- The counts of one run. -/
structure ArchiveReport where
  received : Nat
  saved : Nat
  failed : Nat
  deriving DecidableEq

namespace ArchiveReport

def zero : ArchiveReport := ⟨0, 0, 0⟩

/-- One more notification received, and saved or not. -/
def count (r : ArchiveReport) : Except StoreError Unit → ArchiveReport
  | .ok () => { r with received := r.received + 1, saved := r.saved + 1 }
  | .error _ => { r with received := r.received + 1, failed := r.failed + 1 }

end ArchiveReport

/-- How a notification is saved in a state, and how the state tells of a cancellation. -/
structure Archivist (σ : Type) where
  save : Notification → σ → Except StoreError Unit × σ
  isCancelled : σ → Bool

/-- Saves notifications in a store whose saves all succeed; nobody cancels the archive. -/
def NotificationStore.archivist : Archivist NotificationStore where
  save n s := (.ok (), s.save n)
  isCancelled _ := false

namespace Archivist

variable {σ : Type}

/-- Saves notifications in order, looking for a cancellation before each. -/
def saveAll (a : Archivist σ) : List Notification → ArchiveReport → σ → ArchiveReport × σ
  | [], report, s => (report, s)
  | n :: ns, report, s =>
    if a.isCancelled s then (report, s)
    else
      let (r, s) := a.save n s
      a.saveAll ns (report.count r) s

/-- Runs the archive on a consumer of the queue until nothing more is delivered or it is cancelled;
the subscription is given up at the end. -/
def run (a : Archivist σ) (c : String) (q : Queue) (s : σ) :
    Except BrokerError ArchiveReport × Queue × σ :=
  match q.consume c (a.isCancelled s) with
  | (.error e, q) => (.error e, q, s)
  | (.ok k, q) =>
    let q := q.settle
    let delivered := ((q.subscriptions[k]?).map (·.waiting)).getD []
    let (report, s) := a.saveAll delivered .zero s
    (.ok report, (q.modify k ({ · with isHeld := false, waiting := [] })).settle, s)

end Archivist

end Datebook

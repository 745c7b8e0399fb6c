import Datebook.Archive
import Datebook.Proofs.Deliveries
import Datebook.Proofs.Ledgers
import Datebook.Proofs.Wire

/-!
# A run of the archive

The archive takes from its subscription, one notification at a turn, while other clients go on with
the queue, the delivery loop has its turns in between, saves fail or do not, and the token that
cancels both loops may fire at any moment. Every move keeps the record of the queue and the ledger
of the archive in step (`Archiving.Sound.move`).

So what was to be saved is a prefix of what the queue's messages carry, all of it if the
subscription came to its end, and counts and log are those of the ledger
(`Archiving.run_keepsLaw`). Whatever befalls its saves, an archivist that runs once the delivery
loop has settled has one of these runs (`exists_run_archivist`), and so has the one whose saves all
succeed (`archivist_savesTo`).
-/

namespace Datebook

inductive Closing
  | cancelled
  | exhausted
  deriving DecidableEq

/-- An archive that receives from a queue, with the record of the queue's actions. -/
structure Archiving where
  queue : Queue
  record : Queue.Record
  handle : Nat
  ledger : Ledger
  isCancelled : Bool
  closing : Option Closing

namespace Archiving

open Queue

/-- What may happen: somebody acts on the queue, the token fires, or the archive has a turn, in
which a save may meet a fault. -/
inductive Move
  | act (a : Action)
  | cancel
  | turn (fault : Option StoreError)

def note (s : Archiving) (a : Action) : Archiving :=
  { s with queue := (s.queue.step a).2, record := s.record ++ [(a, (s.queue.step a).1)] }

/-- Stops, and gives the subscription up. -/
def close (s : Archiving) (why : Closing) : Archiving :=
  { s.note (.drop s.handle) with closing := some why }

/-- Looks for a cancellation first, and then for the next notification. -/
def turn (s : Archiving) (fault : Option StoreError) : Archiving :=
  if s.isCancelled then s.close .cancelled
  else
    match (s.queue.receive s.handle).1 with
    | .notification n => { s.note (.receive s.handle) with ledger := s.ledger.enter (n, fault) }
    | .pending => s
    | .ended => s.close .exhausted

/-- Makes a move; nothing moves an archive that has stopped. -/
def move (s : Archiving) (m : Move) : Archiving :=
  if s.closing.isSome then s
  else
    match m with
    | .act a => s.note a
    | .cancel => { s.note (.cancel s.handle) with isCancelled := true }
    | .turn fault => s.turn fault

def run (s : Archiving) (ms : List Move) : Archiving := ms.foldl move s

/-- An archive whose consumer starts to consume after these actions on a new queue. -/
def start (as : List Action) (c : String) (isCancelled : Bool) (store : NotificationStore) :
    Archiving :=
  note ⟨(empty.run as).2, (empty.run as).1, (empty.run as).2.subscriptions.length, .new store,
    isCancelled, none⟩ (.consume c isCancelled)

/-- An action of other clients or of the delivery loop: they have no subscription, and do not close
the archive's consumer. -/
def IsOfOthers (c : String) : Action → Prop
  | .closeConsumer d => d ≠ c
  | .receive _ => False
  | .cancel _ => False
  | .drop _ => False
  | _ => True

/-- Whoever acts on the queue is not the archive, whose consumer is `c`. -/
def Move.IsFair (c : String) : Move → Prop
  | .act a => IsOfOthers c a
  | _ => True

theorem IsOfOthers.not_disturbs {c : String} {a : Action} (h : IsOfOthers c a) (k : Nat) :
    ¬ a.Disturbs c k := by
  cases a with
  | closeConsumer d => exact h
  | receive j => exact h.elim
  | cancel j => exact h.elim
  | drop j => exact h.elim
  | _ => exact id

theorem received_of_ne {q : Queue} {a : Action} (ha : ∀ k, a ≠ .receive k) :
    Record.received [(a, (q.step a).1)] = [] := by
  have hmap {α : Type} (x : Except BrokerError α) {f : α → Answer}
      (hf : ∀ a r, f a ≠ .received r) : Record.received [(a, x.map f)] = [] := by
    cases x with
    | error e => rfl
    | ok b =>
      cases hb : f b with
      | received r => exact absurd hb (hf b r)
      | _ => simp [Except.map, Record.received, hb]
  cases a with
  | connectProducer p => exact hmap _ (by simp)
  | send p n => exact hmap _ (by simp)
  | publish m => exact hmap _ (by simp)
  | connectConsumer c => exact hmap _ (by simp)
  | consume c isCancelled => exact hmap _ (by simp)
  | receive k => exact absurd rfl (ha k)
  | _ => rfl

/-- The record and the ledger agree, and only the token keeps the archive from being handed all. -/
structure Sound (c : String) (store : NotificationStore) (s : Archiving) : Prop where
  stage : Stage s.record s.queue
  standing : Standing s.record s.queue
  taken : s.ledger.attempts.map (·.1) = s.record.received
  leftAlone : s.closing = none → s.isCancelled = false → s.record.IsLeftAlone c s.handle
  exhausted : s.closing = some .exhausted → s.record.received = s.record.decoded
  entered : s.ledger = .of store s.ledger.attempts

variable {c : String} {store : NotificationStore} {s : Archiving}

theorem received_of_claimed {l : Record} {q : Queue} (h : Stage l q)
    (hq : q.receiver = .claimed c) : l.received = [] := by
  cases h with
  | claimed _ _ hr => exact hr
  | _ => simp at hq

theorem sound_start {as : List Action} (h : (empty.run as).2.receiver = .claimed c)
    (isCancelled : Bool) : (start as c isCancelled store).Sound c store := by
  obtain ⟨hstage, hstanding⟩ := Stage.run as stage_empty standing_empty
  rw [List.nil_append] at hstage hstanding
  refine ⟨hstage.step _, hstanding.step _, ?_, fun _ hc => ?_, nofun, rfl⟩
  · rw [start, note, Record.received_concat, received_of_claimed hstage h,
      received_of_ne (by simp)]
    rfl
  · obtain rfl : isCancelled = false := hc
    rcases (empty.run as).2.consume_cases c false with ⟨-, hconsume⟩ | ⟨hno, -⟩
    · refine (Record.since_concat _ _).2 (.inl ?_)
      simp [step, hconsume, Except.map, start, note]
    · exact absurd h hno

theorem Sound.act (h : s.Sound c store) (hopen : s.closing = none) {a : Action}
    (ha : IsOfOthers c a) : (s.note a).Sound c store := by
  have hreceived : (s.note a).record.received = s.record.received := by
    have hnone := received_of_ne (q := s.queue) (a := a) fun k hk => by
      subst hk
      exact ha
    rw [note, Record.received_concat, hnone, List.append_nil]
  refine ⟨h.stage.step a, h.standing.step a, ?_, fun _ hc => ?_, ?_, h.entered⟩
  · rw [hreceived]
    exact h.taken
  · exact (Record.since_concat _ _).2 (.inr ⟨h.leftAlone hopen hc, ha.not_disturbs _⟩)
  · intro hclosing
    exact absurd (hopen.symm.trans hclosing) (by simp)

theorem Sound.cancel (h : s.Sound c store) (hopen : s.closing = none) :
    ({ s.note (.cancel s.handle) with isCancelled := true }).Sound c store := by
  have hreceived : (s.note (.cancel s.handle)).record.received = s.record.received := by
    rw [note, Record.received_concat, received_of_ne (by simp), List.append_nil]
  refine ⟨h.stage.step _, h.standing.step _, ?_, by simp, ?_, h.entered⟩
  · rw [hreceived]
    exact h.taken
  · intro hclosing
    exact absurd (hopen.symm.trans hclosing) (by simp)

theorem Sound.close (h : s.Sound c store) {why : Closing}
    (hwhy : why = .exhausted → s.record.received = s.record.decoded) :
    (s.close why).Sound c store := by
  have hreceived : (s.note (.drop s.handle)).record.received = s.record.received := by
    rw [note, Record.received_concat, received_of_ne (by simp), List.append_nil]
  have hdecoded : (s.note (.drop s.handle)).record.decoded = s.record.decoded :=
    (Record.decoded_concat _ _).trans (List.append_nil _)
  refine ⟨h.stage.step _, h.standing.step _, ?_, by simp [Archiving.close], ?_, h.entered⟩
  · rw [Archiving.close, hreceived]
    exact h.taken
  · intro hclosing
    rw [Archiving.close, hreceived, hdecoded]
    exact hwhy (Option.some_inj.1 hclosing)

theorem Sound.turn (h : s.Sound c store) (hopen : s.closing = none) (fault : Option StoreError) :
    (s.turn fault).Sound c store := by
  unfold Archiving.turn
  split_ifs with hcancelled
  · exact h.close nofun
  · rw [Bool.not_eq_true] at hcancelled
    have hleft := h.leftAlone hopen hcancelled
    split
    · rename_i n hn
      have hstep : (s.queue.step (.receive s.handle)).1 = .ok (.received (.notification n)) := by
        simp [step, hn]
      refine ⟨h.stage.step _, h.standing.step _, ?_, fun _ _ => ?_, ?_, ?_⟩
      · rw [note, Record.received_concat, hstep, Ledger.enter, List.map_append, h.taken]
        rfl
      · exact (Record.since_concat _ _).2 (.inr ⟨hleft, id⟩)
      · intro hclosing
        exact absurd (hopen.symm.trans hclosing) (by simp)
      · rw [Ledger.enter, Ledger.of_concat, ← h.entered]
        rfl
    · exact h
    -- The archive was left alone up to here, so the end comes after all that was published.
    · rename_i hend
      exact h.close fun _ => (h.stage.of_ended h.standing hleft hend).2

theorem Sound.move (h : s.Sound c store) {m : Move} (hm : m.IsFair c) :
    (s.move m).Sound c store := by
  unfold Archiving.move
  split_ifs with hclosing
  · exact h
  · have hopen : s.closing = none := by simpa using hclosing
    cases m with
    | act a => exact h.act hopen hm
    | cancel => exact h.cancel hopen
    | turn fault => exact h.turn hopen fault

theorem Sound.run : ∀ {ms : List Move} {s : Archiving}, s.Sound c store →
    (∀ m ∈ ms, m.IsFair c) → (s.run ms).Sound c store
  | [], _, h, _ => h
  | m :: ms, s, h, hms => by
    rw [List.forall_mem_cons] at hms
    exact Sound.run (s := s.move m) (h.move hms.1) hms.2

/-- What an archive's attempts, report and store have to do with the messages of its queue, if its
store was this at first. -/
structure KeepsLaw (store : NotificationStore) (s : Archiving) : Prop where
  inOrder : s.ledger.attempts.map (·.1) <+: s.record.decoded
  all : s.closing = some .exhausted → s.ledger.attempts.map (·.1) = s.record.decoded
  received : s.ledger.report.received = s.ledger.attempts.length
  saved : s.ledger.report.saved = (s.ledger.attempts.filter fun a => a.2.isNone).length
  failed : s.ledger.report.failed = (s.ledger.attempts.filter fun a => a.2.isSome).length
  added : s.ledger.report.received = s.ledger.report.saved + s.ledger.report.failed
  log : store = .memory .empty →
    s.ledger.store = .memory (.of (firsts (savedOf s.ledger.attempts)))
  redelivered : ∀ as, Redelivers s.ledger.attempts as →
    (Ledger.of store as).store = s.ledger.store

theorem Sound.keepsLaw (h : s.Sound c store) : s.KeepsLaw store := by
  have hbalances : s.ledger.Balances store := by
    have := Ledger.balances_of store s.ledger.attempts
    rwa [← h.entered] at this
  refine ⟨?_, ?_, hbalances.received, hbalances.saved, hbalances.failed, ?_, ?_, ?_⟩
  · rw [h.taken]
    exact h.stage.received_prefix
  · intro hclosing
    rw [h.taken, h.exhausted hclosing]
  · have hlength := List.length_eq_length_filter_add (l := s.ledger.attempts) fun a => a.2.isNone
    rw [hbalances.received, hbalances.saved, hbalances.failed, hlength]
    simp
  · rintro rfl
    rw [hbalances.store, NotificationStore.saveAll_empty]
  · intro as has
    rw [(Ledger.balances_of store as).store, hbalances.store, Ledger.attempts_of]
    exact saveAll_redelivers has store

/-- A run of the archive keeps to the law, whatever was and is put into its queue, whichever saves
fail and whenever the token fires. -/
theorem run_keepsLaw {as : List Action} {ms : List Move}
    (hclaimed : (empty.run as).2.receiver = .claimed c) (hms : ∀ m ∈ ms, m.IsFair c)
    (isCancelled : Bool) (store : NotificationStore) :
    ((start as c isCancelled store).run ms).KeepsLaw store :=
  ((sound_start hclaimed isCancelled).run hms).keepsLaw

def meal (id title : String) : Notification := ⟨id, "e", title, "u", "", .first, .first⟩

/-- Three times the dinner and once the lunch are announced, with something else in between. -/
def mealActs (dinner other late lunch : Octets) : List Action :=
  [.publish ⟨"u", dinner⟩, .publish ⟨"u", other⟩, .publish ⟨"u", late⟩, .publish ⟨"u", lunch⟩,
    .publish ⟨"u", dinner⟩, .connectConsumer "c"]

/-- The first save fails, and the queue is shut down while the archive waits for more. -/
def mealMoves : List Move :=
  [.turn none, .act .deliver, .turn (some (.io "disk full")), .turn none, .act .deliver,
    .act .deliver, .act .deliver, .turn none, .act .deliver, .turn none, .turn none,
    .act .shutdown, .turn none, .act .deliver, .turn none]

/-- What the octets hold is enough to know, and quick to run. -/
theorem run_mealMoves {dinner other late lunch : Octets}
    (hdinner : Notification.ofOctets? dinner = some (meal "d" "Dinner"))
    (hother : Notification.ofOctets? other = none)
    (hlate : Notification.ofOctets? late = some (meal "d" "Late dinner"))
    (hlunch : Notification.ofOctets? lunch = some (meal "l" "Lunch")) :
    ((start (mealActs dinner other late lunch) "c" false (.memory .empty)).run mealMoves).closing
        = some .exhausted
      ∧ ((start (mealActs dinner other late lunch) "c" false (.memory .empty)).run mealMoves).ledger
        = ⟨[(meal "d" "Dinner", some (.io "disk full")), (meal "d" "Late dinner", none),
            (meal "l" "Lunch", none), (meal "d" "Dinner", none)], ⟨4, 3, 1⟩,
          .memory ⟨[meal "d" "Late dinner", meal "l" "Lunch"], ["d", "l"]⟩⟩ := by
  simp [start, mealActs, mealMoves, run, Archiving.move, turn, close, note, Queue.run, step, empty,
    publish, connectConsumer, consume, deliver?, receive, Queue.modify, endDelivery, shutdown,
    Except.map, hdinner, hother, hlate, hlunch, Ledger.new, Ledger.enter, Attempt.outcome]
  exact ⟨rfl, rfl⟩

def mealsSent : List Action :=
  mealActs (meal "d" "Dinner").payload [] (meal "d" "Late dinner").payload
    (meal "l" "Lunch").payload

theorem run_keepsLaw_mealMoves :
    (empty.run mealsSent).2.receiver = .claimed "c" ∧ (∀ m ∈ mealMoves, m.IsFair "c")
      ∧ ((start mealsSent "c" false (.memory .empty)).run mealMoves).closing = some .exhausted
      ∧ ((start mealsSent "c" false (.memory .empty)).run mealMoves).ledger
        = ⟨[(meal "d" "Dinner", some (.io "disk full")), (meal "d" "Late dinner", none),
            (meal "l" "Lunch", none), (meal "d" "Dinner", none)], ⟨4, 3, 1⟩,
          .memory ⟨[meal "d" "Late dinner", meal "l" "Lunch"], ["d", "l"]⟩⟩
      ∧ ((start mealsSent "c" false (.memory .empty)).run mealMoves).KeepsLaw (.memory .empty) := by
  have hread : ∀ id title, Notification.ofOctets? (meal id title).payload = some (meal id title) := by
    have hfirst : Instant.first.HasText := Instant.hasText_iff.2 (by decide)
    exact fun id title => Notification.ofOctets?_payload ⟨hfirst, hfirst⟩
  have hclaimed : (empty.run mealsSent).2.receiver = .claimed "c" := rfl
  have hfair : ∀ m ∈ mealMoves, m.IsFair "c" := by simp [mealMoves, Move.IsFair, IsOfOthers]
  have hother : Notification.ofOctets? [] = none := rfl
  obtain ⟨hclosing, hledger⟩ :=
    run_mealMoves (hread "d" "Dinner") hother (hread "d" "Late dinner") (hread "l" "Lunch")
  exact ⟨hclaimed, hfair, hclosing, hledger, run_keepsLaw hclaimed hfair false (.memory .empty)⟩

section Settled

def waiting (s : Archiving) : List Notification :=
  ((s.queue.subscriptions[s.handle]?).map (·.waiting)).getD []

/-- The delivery loop runs until it must wait by taking its turns. -/
theorem exists_run_settleIn : ∀ (n : Nat) {s : Archiving}, s.closing = none →
    ∃ ms : List Move, (∀ m ∈ ms, m.IsFair c)
      ∧ (s.run ms).queue = s.queue.settleIn n ∧ (s.run ms).handle = s.handle
      ∧ (s.run ms).ledger = s.ledger ∧ (s.run ms).isCancelled = s.isCancelled
      ∧ (s.run ms).closing = none
  | 0, s, h => ⟨[], by simp, rfl, rfl, rfl, rfl, h⟩
  | n + 1, s, h => by
    rcases hq : s.queue.deliver? with _ | q
    · exact ⟨[], by simp, by simp [run, settleIn, hq], rfl, rfl, rfl, h⟩
    · have hmove : s.move (.act .deliver) = s.note .deliver := by simp [Archiving.move, h]
      have hqueue : (s.note .deliver).queue = q := by simp [note, step, hq]
      obtain ⟨ms, hms, hsettled, hrest⟩ := exists_run_settleIn n (s := s.note .deliver) h
      refine ⟨.act .deliver :: ms, List.forall_mem_cons.2 ⟨trivial, hms⟩, ?_, ?_⟩
      · rw [run, List.foldl_cons, hmove, ← run, hsettled, hqueue, settleIn, hq]
      · rw [run, List.foldl_cons, hmove, ← run]
        exact hrest

variable {σ : Type} {a : Archivist σ} {storeOf : σ → NotificationStore}

/-- Each save meets a fault, or it adds the notification to the store that the state has. -/
def SavesTo (a : Archivist σ) (storeOf : σ → NotificationStore) : Prop :=
  ∀ n state, ∃ fault, (a.save n state).1 = Attempt.outcome (n, fault)
    ∧ storeOf (a.save n state).2
      = if fault.isNone then (storeOf state).save n else storeOf state

/-- A turn, with the token firing in it or not, is a save with or without a cancellation. -/
theorem exists_run_save {n : Notification} {ns : List Notification} (hopen : s.closing = none)
    (hcancelled : s.isCancelled = false) (hwaiting : s.waiting = n :: ns)
    (fault : Option StoreError) (fires : Bool) :
    ∃ ms : List Move, (∀ m ∈ ms, m.IsFair c) ∧ (s.run ms).closing = none
      ∧ (s.run ms).isCancelled = fires ∧ (s.run ms).waiting = ns
      ∧ (s.run ms).ledger = s.ledger.enter (n, fault) := by
  obtain ⟨w, hw, hn⟩ : ∃ w, s.queue.subscriptions[s.handle]? = some w ∧ w.waiting = n :: ns := by
    rcases hw : s.queue.subscriptions[s.handle]? with _ | w
    · simp [waiting, hw] at hwaiting
    · exact ⟨w, rfl, by simpa [waiting, hw] using hwaiting⟩
  have hreceive : s.queue.receive s.handle
      = (.notification n, s.queue.modify s.handle ({ · with waiting := ns })) := by
    simp [receive, hw, hn]
  have hturn : s.move (.turn fault)
      = { s.note (.receive s.handle) with ledger := s.ledger.enter (n, fault) } := by
    simp only [Archiving.move, hopen, Archiving.turn, hcancelled, hreceive]
    rfl
  cases fires with
  | true =>
    have hcancel : ({ s.note (.receive s.handle) with
        ledger := s.ledger.enter (n, fault) }).move .cancel
        = { (s.note (.receive s.handle)).note (.cancel s.handle) with
          ledger := s.ledger.enter (n, fault), isCancelled := true } := by
      simp only [Archiving.move, note, hopen]
      rfl
    refine ⟨[.turn fault, .cancel], by simp [Move.IsFair], ?_⟩
    simp only [run, List.foldl_cons, List.foldl_nil, hturn, hcancel]
    refine ⟨hopen, trivial, ?_, trivial⟩
    simp [waiting, note, step, hreceive, Queue.modify, hw]
  | false =>
    refine ⟨[.turn fault], by simp [Move.IsFair], ?_⟩
    simp only [run, List.foldl_cons, List.foldl_nil, hturn]
    refine ⟨hopen, hcancelled, ?_, trivial⟩
    simp [waiting, note, step, hreceive, Queue.modify, hw]

theorem exists_run_saveAll (hsaves : SavesTo a storeOf) :
    ∀ {ns : List Notification} {report : ArchiveReport} {state : σ} {s : Archiving},
      s.closing = none → s.isCancelled = a.isCancelled state → s.waiting = ns →
      s.ledger.report = report → s.ledger.store = storeOf state →
        ∃ ms : List Move, (∀ m ∈ ms, m.IsFair c)
          ∧ (s.run ms).ledger.report = (a.saveAll ns report state).1
          ∧ (s.run ms).ledger.store = storeOf (a.saveAll ns report state).2
  | [], report, state, s, _, _, _, hreport, hstore => ⟨[], by simp, hreport, hstore⟩
  | n :: ns, report, state, s, hopen, hcancelled, hwaiting, hreport, hstore => by
    by_cases ha : a.isCancelled state
    · exact ⟨[], by simp, by simp [Archivist.saveAll, ha, run, hreport],
        by simp [Archivist.saveAll, ha, run, hstore]⟩
    rw [Bool.not_eq_true] at ha
    obtain ⟨fault, hout, hnext⟩ := hsaves n state
    obtain ⟨ms, hms, hopen', hcancelled', hwaiting', hledger⟩ := exists_run_save (c := c) hopen
      (hcancelled.trans ha) hwaiting fault (a.isCancelled (a.save n state).2)
    have hcount : (s.run ms).ledger.report = report.count (a.save n state).1 := by
      rw [hledger, Ledger.enter, hreport, hout]
    have hsaved : (s.run ms).ledger.store = storeOf (a.save n state).2 := by
      rw [hledger, Ledger.enter, hstore, hnext]
    obtain ⟨rest, hrest, hreport', hstore'⟩ :=
      exists_run_saveAll hsaves hopen' hcancelled' hwaiting' hcount hsaved
    refine ⟨ms ++ rest, List.forall_mem_append.2 ⟨hms, hrest⟩, ?_⟩
    rw [run, List.foldl_append]
    simp only [Archivist.saveAll, ha, Bool.false_eq_true, if_false]
    exact ⟨hreport', hstore'⟩

/-- An archivist that runs when the delivery loop has settled has some of these runs. -/
theorem exists_run_archivist (hsaves : SavesTo a storeOf) {as : List Action}
    (hclaimed : (empty.run as).2.receiver = .claimed c) (state : σ) :
    ∃ ms : List Move, (∀ m ∈ ms, m.IsFair c)
      ∧ (a.run c (empty.run as).2 state).1
        = .ok ((start as c (a.isCancelled state) (storeOf state)).run ms).ledger.report
      ∧ storeOf (a.run c (empty.run as).2 state).2.2
        = ((start as c (a.isCancelled state) (storeOf state)).run ms).ledger.store := by
  generalize hs : start as c (a.isCancelled state) (storeOf state) = s
  have hstart : s.closing = none ∧ s.isCancelled = a.isCancelled state
      ∧ s.ledger = .new (storeOf state) := hs ▸ ⟨rfl, rfl, rfl⟩
  obtain ⟨ms, hms, hqueue, hhandle, hledger, hcancelled, hopen⟩ :=
    exists_run_settleIn (c := c) (s.queue.messages.length + 1) hstart.1
  rw [hstart.2.1] at hcancelled
  rw [hstart.2.2] at hledger
  obtain ⟨rest, hrest, hreport, hstore⟩ := exists_run_saveAll (c := c) hsaves hopen hcancelled rfl
    (congrArg Ledger.report hledger) (congrArg Ledger.store hledger)
  refine ⟨ms ++ rest, List.forall_mem_append.2 ⟨hms, hrest⟩, ?_⟩
  rw [run, List.foldl_append]
  rcases (empty.run as).2.consume_cases c (a.isCancelled state) with ⟨-, hconsume⟩ | ⟨hno, -⟩
  · have hrun : (a.run c (empty.run as).2 state).1
          = .ok (a.saveAll (s.run ms).waiting .zero state).1
        ∧ (a.run c (empty.run as).2 state).2.2
          = (a.saveAll (s.run ms).waiting .zero state).2 := by
      rw [waiting, hqueue, hhandle, Archivist.run, hconsume, ← hs]
      simp [start, note, step, hconsume, settle]
    rw [hrun.1, hrun.2]
    exact ⟨congrArg _ hreport.symm, hstore.symm⟩
  · exact absurd hclaimed hno

/-- The archivist whose saves succeed saves to its store. -/
theorem archivist_savesTo : SavesTo NotificationStore.archivist id :=
  fun _ _ => ⟨none, rfl, rfl⟩

end Settled

end Archiving

end Datebook

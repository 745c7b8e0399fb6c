import Datebook.Proofs.Handoffs
import Datebook.Proofs.Ledgers
import Datebook.Proofs.Wire

/-!
# What a cancellation leaves behind

A delivery loop of a stream and an archive that takes from it, with what waits between them and the
one token that cancels both: the loop looks at it when it reads, the archive before each
notification that it takes. What the loop handed over is what the archive has taken and then what
waits, in this order, at every moment (`Session.Sound.move`). So what was acknowledged has been
taken, or it was waiting when the archive saw the cancellation
(`Session.acknowledged_taken_or_left`); that may happen (`Session.acknowledged_supper_left`).
-/

namespace Datebook

/-- The entries that a loop handed over, each with what it carries. -/
def handovers (deeds : List Deed) : List (StreamEntry × Notification) :=
  deeds.filterMap fun
    | .handOver e n => some (e, n)
    | .acknowledge _ _ => none

/-- A delivery loop and an archive at the two ends of a subscription. -/
structure Session where
  line : Handoffs
  waiting : List Notification
  ledger : Ledger
  isCancelled : Bool
  isOver : Bool

namespace Session

/-- What may happen: an entry is added to the stream, the token fires, a request of the loop is
answered, or the archive has a turn, in which a save may meet a fault. -/
inductive Move
  | append (e : StreamEntry)
  | cancel
  | serve (f : Fate)
  | turn (fault : Option StoreError)

def start (g : StreamGroup) (store : NotificationStore) : Session :=
  ⟨(Handoffs.idle g).move .start, [], .new store, false, false⟩

def deeds (s : Session) : List Deed := s.line.courier.deeds

def group (s : Session) : StreamGroup := s.line.group

def offered : Delivery.Work (Option String) → List Notification
  | .ask (.handOver n) _ => [n]
  | _ => []

def isEnded : Delivery.Work (Option String) → Bool
  | .done _ => true
  | .ask _ _ => false

/-- Answers the next request of the loop, which is cancelled by the token, and whose subscription is
held until the archive is over. -/
def serve (s : Session) (f : Fate) : Session where
  line := s.line.move (.serve { f with isCancelled := s.isCancelled, isHeld := !s.isOver })
  waiting := if s.isOver then s.waiting else s.waiting ++ offered s.line.loop
  ledger := s.ledger
  isCancelled := s.isCancelled
  isOver := s.isOver

/-- Looks for a cancellation first, and then for the next notification. -/
def turn (s : Session) (fault : Option StoreError) : Session :=
  if s.isOver then s
  else if s.isCancelled then { s with isOver := true }
  else
    match s.waiting with
    | n :: rest => { s with waiting := rest, ledger := s.ledger.enter (n, fault) }
    | [] => { s with isOver := isEnded s.line.loop }

def move (s : Session) : Move → Session
  | .append e => { s with line := s.line.move (.append e) }
  | .cancel => { s with isCancelled := true }
  | .serve f => s.serve f
  | .turn fault => s.turn fault

def run (s : Session) (ms : List Move) : Session := ms.foldl move s

end Session

theorem mem_handovers {deeds : List Deed} {e : StreamEntry} {n : Notification} :
    (e, n) ∈ handovers deeds ↔ .handOver e n ∈ deeds := by
  unfold handovers
  rw [List.mem_filterMap]
  constructor
  · rintro ⟨_ | _, hmem, ⟨⟩⟩
    exact hmem
  · exact fun hmem => ⟨_, hmem, rfl⟩

/-- Only a request to hand over that is granted hands anything over. -/
theorem handovers_answer (f : Fate) (r : DeliveryRequest) (d : Courier) :
    handovers (Courier.answer f r d).2.deeds = handovers d.deeds
      ++ match r with
        | .handOver n => if f.isHeld then [(d.current, n)] else []
        | _ => [] := by
  cases r with
  | read q =>
    simp only [Courier.answer, List.append_nil]
    split_ifs <;> rfl
  | pause => exact (List.append_nil _).symm
  | handOver n =>
    simp only [Courier.answer]
    split_ifs
    · exact List.filterMap_append
    · exact (List.append_nil _).symm
  | acknowledge id =>
    simp [Courier.answer, handovers]

namespace Session

variable {g : StreamGroup} {store : NotificationStore} {s : Session}

/-- What was handed over was taken or waits, and nothing is left waiting for good unless the token
fired. -/
structure Sound (g : StreamGroup) (s : Session) : Prop where
  line : s.line.IsFaithful g
  first : s.line.past = [[]]
  handed : ∃ taken left, handovers s.deeds = taken ++ left
    ∧ taken.map (·.2) = s.ledger.attempts.map (·.1) ∧ left.map (·.2) = s.waiting
  left : s.isOver = true → s.isCancelled = false → s.waiting = []

theorem sound_start (hg : g.IsSound) : (start g store).Sound g :=
  ⟨(Handoffs.isFaithful_idle hg).start, rfl, ⟨[], [], rfl, rfl, rfl⟩, by simp [start]⟩

theorem handovers_serve (f : Fate) : handovers (s.serve f).deeds = handovers s.deeds
    ++ if s.isOver then [] else (offered s.line.loop).map (s.line.courier.current, ·) := by
  unfold deeds serve Handoffs.move
  rcases s.line.loop with _ | ⟨r, next⟩
  · simp [Script.advance, offered]
  · simp only [Script.advance]
    rw [handovers_answer]
    cases r with
    | handOver n => cases s.isOver <;> rfl
    | _ => simp [offered]

theorem Sound.serve (h : s.Sound g) (f : Fate) : (s.serve f).Sound g := by
  obtain ⟨taken, left, hdeeds, htaken, hleft⟩ := h.handed
  refine ⟨h.line.serve _, h.first, ?_, fun hover hc => ?_⟩
  · rw [handovers_serve, hdeeds]
    unfold Session.serve
    cases s.isOver with
    | true => exact ⟨taken, left, List.append_nil _, htaken, hleft⟩
    | false =>
      refine ⟨taken, left ++ (offered s.line.loop).map (s.line.courier.current, ·),
        List.append_assoc .., htaken, ?_⟩
      simp [hleft]
  · have hover : s.isOver = true := hover
    rw [Session.serve, if_pos hover]
    exact h.left hover hc

theorem Sound.turn (h : s.Sound g) (fault : Option StoreError) : (s.turn fault).Sound g := by
  unfold Session.turn
  split_ifs with hover hc
  · exact h
  -- The token fired: what waits is left where it is.
  · exact ⟨h.line, h.first, h.handed, fun _ hno => absurd (hc.symm.trans hno) (by simp)⟩
  · split
    · rename_i n rest hwaiting
      obtain ⟨taken, left, hdeeds, htaken, hleft⟩ := h.handed
      rw [hwaiting] at hleft
      obtain ⟨⟨e, m⟩, left, rfl, rfl, hrest⟩ := List.map_eq_cons_iff.1 hleft
      refine ⟨h.line, h.first, ⟨taken ++ [(e, m)], left, ?_, ?_, hrest⟩, ?_⟩
      · rw [List.append_assoc]
        exact hdeeds
      · simp [Ledger.enter, htaken]
      · exact fun hno => absurd hno hover
    · rename_i hwaiting
      exact ⟨h.line, h.first, h.handed, fun _ _ => hwaiting⟩

theorem Sound.move (h : s.Sound g) (m : Move) : (s.move m).Sound g := by
  cases m with
  | append e => exact ⟨h.line.append e, h.first, h.handed, h.left⟩
  | cancel => exact ⟨h.line, h.first, h.handed, by simp [Session.move]⟩
  | serve f => exact h.serve f
  | turn fault => exact h.turn fault

theorem Sound.run : ∀ (ms : List Move) {s : Session}, s.Sound g → (s.run ms).Sound g
  | [], _, h => h
  | m :: ms, s, h => Sound.run ms (s := s.move m) (h.move m)

/-- What the loop acknowledged or the consumer has settled, it handed over. -/
theorem Sound.mem_handovers (h : s.Sound g) {e : StreamEntry} (he : e ∈ s.group.entries)
    {n : Notification} (hn : e.notification? = some n) {isTaken : Bool}
    (hack : .acknowledge e.id isTaken ∈ s.deeds) : (e, n) ∈ handovers s.deeds := by
  obtain ⟨l, r, hsplit⟩ := List.append_of_mem hack
  have hprefix : l ++ [.acknowledge e.id isTaken] <+: s.deeds := ⟨r, by simp [hsplit]⟩
  obtain ⟨a, ha, hid, hhanded⟩ := h.line.courier.orderly.acknowledged l e.id isTaken hprefix
  obtain rfl := h.line.courier.sound.eq_of_rank ha he (congrArg Rank.ofId hid)
  rw [hsplit, Datebook.mem_handovers]
  exact List.mem_append_left _ (hhanded n hn)

/-- Whatever the stream holds and gets, however requests end and whenever the token fires: what was
handed over is what the archive has taken and then what is left in the subscription. An entry that
carries a notification is among them if it was acknowledged, and if the consumer was given it and it
is not pending, unless that was so at first. Nothing is left for good unless the token fired. -/
theorem acknowledged_taken_or_left (hg : g.IsSound) (store : NotificationStore) (ms : List Move) :
    ∃ taken left, handovers ((start g store).run ms).deeds = taken ++ left
      ∧ taken.map (·.2) = ((start g store).run ms).ledger.attempts.map (·.1)
      ∧ left.map (·.2) = ((start g store).run ms).waiting
      ∧ (∀ e ∈ ((start g store).run ms).group.entries, ∀ n, e.notification? = some n →
        (∀ isTaken, .acknowledge e.id isTaken ∈ ((start g store).run ms).deeds →
          (e, n) ∈ taken ∨ (e, n) ∈ left)
        ∧ (e.rank ≤ ((start g store).run ms).group.last →
          e.rank ∉ ((start g store).run ms).group.pending →
            ((e, n) ∈ taken ∨ (e, n) ∈ left) ∨ (e.rank ≤ g.last ∧ e.rank ∉ g.pending)))
      ∧ (((start g store).run ms).isOver = true → left ≠ [] →
        ((start g store).run ms).isCancelled = true) := by
  have h : ((start g store).run ms).Sound g := (sound_start hg).run ms
  obtain ⟨taken, left, hdeeds, htaken, hleft⟩ := h.handed
  have hack : ∀ e ∈ ((start g store).run ms).group.entries, ∀ n, e.notification? = some n →
      ∀ isTaken, .acknowledge e.id isTaken ∈ ((start g store).run ms).deeds →
        (e, n) ∈ taken ∨ (e, n) ∈ left := by
    intro e he n hn isTaken hmem
    rw [← List.mem_append, ← hdeeds]
    exact h.mem_handovers he hn hmem
  refine ⟨taken, left, hdeeds, htaken, hleft, fun e he n hn => ⟨hack e he n hn, ?_⟩, ?_⟩
  · intro hle hpending
    rcases h.line.accounts e he hle with hp | ⟨deeds, hruns, hmem⟩ | hsettled
    · exact absurd hp hpending
    · rw [Handoffs.runs, h.first] at hruns
      rcases List.mem_cons.1 hruns with rfl | hempty
      · exact .inl (hack e he n hn true hmem)
      · rw [List.mem_singleton.1 hempty] at hmem
        exact absurd hmem List.not_mem_nil
    · exact .inr hsettled
  · intro hover hne
    by_contra hc
    have hnone := h.left hover (by simpa using hc)
    rw [hnone, List.map_eq_nil_iff] at hleft
    exact hne hleft

open Handoffs

def entryWith (id : String) (payload : Octets) : StreamEntry := ⟨id, [("payload", payload)]⟩

theorem notification?_entryWith {payload : Octets} {n : Notification}
    (h : Notification.ofOctets? payload = some n) (id : String) :
    (entryWith id payload).notification? = some n := by
  simpa [entryWith, StreamEntry.notification?, StreamEntry.payload?] using h

/-- Two entries that nobody was given. -/
def twoNew (payload payload' : Octets) : StreamGroup :=
  ⟨[entryWith "1-0" payload, entryWith "2-0" payload'], Rank.first, ∅⟩

theorem isSound_twoNew (payload payload' : Octets) : (twoNew payload payload').IsSound := by
  have hlt : Rank.ofId "1-0" < Rank.ofId "2-0" := by decide
  exact ⟨List.pairwise_pair.2 hlt, by simp [twoNew]⟩

/-- Nothing is pending, and both entries are read. The archive takes the first, while the second is
handed over and acknowledged. Then the token fires. -/
def hastyMoves : List Move :=
  [.serve fine, .serve fine, .serve fine, .serve fine, .turn (some (.io "disk full")),
    .serve fine, .serve fine, .cancel, .serve fine, .turn none]

theorem run_hastyMoves {payload payload' : Octets} {n n' : Notification}
    (h : Notification.ofOctets? payload = some n) (h' : Notification.ofOctets? payload' = some n')
    (store : NotificationStore) :
    ((start (twoNew payload payload') store).run hastyMoves).isOver = true
      ∧ isEnded ((start (twoNew payload payload') store).run hastyMoves).line.loop = true
      ∧ ((start (twoNew payload payload') store).run hastyMoves).group.entries
        = (twoNew payload payload').entries
      ∧ ((start (twoNew payload payload') store).run hastyMoves).waiting = [n']
      ∧ ((start (twoNew payload payload') store).run hastyMoves).ledger.attempts
        = [(n, some (.io "disk full"))]
      ∧ ((start (twoNew payload payload') store).run hastyMoves).deeds
        = [.handOver (entryWith "1-0" payload) n, .acknowledge "1-0" true,
          .handOver (entryWith "2-0" payload') n', .acknowledge "2-0" true] := by
  have hreplay : (twoNew payload payload').read Delivery.pendingStart
      = ([], twoNew payload payload') := rfl
  have hfresh : (twoNew payload payload').read Delivery.newEntries
      = ([entryWith "1-0" payload, entryWith "2-0" payload'],
        (twoNew payload payload').give [entryWith "1-0" payload, entryWith "2-0" payload']) := by
    have hlt : Rank.first < Rank.ofId "1-0" := by decide
    have hlt' : Rank.first < Rank.ofId "2-0" := by decide
    rw [StreamGroup.read_newEntries]
    simp [StreamGroup.fresh, twoNew, entryWith, StreamEntry.rank, hlt, hlt', StreamGroup.readLimit]
  have hpayload : ∀ id p, (entryWith id p).payload? = some p := fun _ _ => rfl
  simp [start, run, hastyMoves, move, serve, turn, Handoffs.move, idle, Delivery.turn, Delivery.ask,
    Script.query, Script.advance, Courier.answer, fine, offered, hreplay, hfresh, deeds, bind,
    Script.bind, Delivery.onward, Delivery.handleAll, Delivery.nextPosition, pure, hpayload, h, h',
    Courier.current, isEnded, group, Handoffs.group, StreamGroup.entries_read, StreamGroup.give,
    StreamGroup.acknowledge]
  exact ⟨rfl, rfl, rfl⟩

def supperNote (id : String) : Notification := ⟨id, "e", "Supper", "ada", "", .first, .first⟩

theorem ofOctets?_supperNote (id : String) :
    Notification.ofOctets? (supperNote id).payload = some (supperNote id) := by
  have hfirst : Instant.first.HasText := Instant.hasText_iff.2 (by decide)
  exact Notification.ofOctets?_payload ⟨hfirst, hfirst⟩

def newSuppers : StreamGroup := twoNew (supperNote "a").payload (supperNote "b").payload

theorem acknowledged_taken_or_left_newSuppers :
    newSuppers.IsSound
      ∧ ((start newSuppers (.memory .empty)).run hastyMoves).isOver = true
      ∧ ((start newSuppers (.memory .empty)).run hastyMoves).waiting = [supperNote "b"]
      ∧ ∃ taken left,
        handovers ((start newSuppers (.memory .empty)).run hastyMoves).deeds = taken ++ left
          ∧ taken.map (·.2)
            = ((start newSuppers (.memory .empty)).run hastyMoves).ledger.attempts.map (·.1)
          ∧ left.map (·.2) = ((start newSuppers (.memory .empty)).run hastyMoves).waiting
          ∧ (∀ e ∈ ((start newSuppers (.memory .empty)).run hastyMoves).group.entries, ∀ n,
            e.notification? = some n →
              (∀ isTaken, .acknowledge e.id isTaken
                ∈ ((start newSuppers (.memory .empty)).run hastyMoves).deeds →
                  (e, n) ∈ taken ∨ (e, n) ∈ left)
              ∧ (e.rank ≤ ((start newSuppers (.memory .empty)).run hastyMoves).group.last →
                e.rank ∉ ((start newSuppers (.memory .empty)).run hastyMoves).group.pending →
                  ((e, n) ∈ taken ∨ (e, n) ∈ left)
                    ∨ (e.rank ≤ newSuppers.last ∧ e.rank ∉ newSuppers.pending)))
          ∧ (((start newSuppers (.memory .empty)).run hastyMoves).isOver = true → left ≠ [] →
            ((start newSuppers (.memory .empty)).run hastyMoves).isCancelled = true) := by
  obtain ⟨hover, -, -, hwaiting, -⟩ :=
    run_hastyMoves (ofOctets?_supperNote "a") (ofOctets?_supperNote "b") (.memory .empty)
  have hg : newSuppers.IsSound := isSound_twoNew _ _
  exact ⟨hg, hover, hwaiting, acknowledged_taken_or_left hg (.memory .empty) hastyMoves⟩

/-- What was acknowledged need not be taken before the archive and the loop are at their end. -/
theorem acknowledged_supper_left :
    ¬ ∀ (g : StreamGroup) (store : NotificationStore) (ms : List Move), g.IsSound →
      ((start g store).run ms).isOver = true →
      isEnded ((start g store).run ms).line.loop = true →
        ∀ e ∈ ((start g store).run ms).group.entries, ∀ n, e.notification? = some n →
          .acknowledge e.id true ∈ ((start g store).run ms).deeds →
            n ∈ ((start g store).run ms).ledger.attempts.map (·.1) := by
  intro h
  obtain ⟨hover, hended, hentries, -, hattempts, hdeeds⟩ :=
    run_hastyMoves (ofOctets?_supperNote "a") (ofOctets?_supperNote "b") (.memory .empty)
  have hcarries : (entryWith "2-0" (supperNote "b").payload).notification? = some (supperNote "b") :=
    notification?_entryWith (ofOctets?_supperNote "b") "2-0"
  have hmem := h _ (.memory .empty) hastyMoves (isSound_twoNew _ _) hover hended
    (entryWith "2-0" (supperNote "b").payload) (by rw [hentries]; simp [twoNew]) (supperNote "b")
    hcarries (by rw [hdeeds]; simp [entryWith])
  rw [hattempts] at hmem
  simp [supperNote] at hmem

end Session

end Datebook

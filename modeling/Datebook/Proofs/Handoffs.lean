import Datebook.Proofs.Groups

/-!
# Handing over across restarts

Delivery loops of one consumer, one after another and each stopped anywhere, while entries are added
to the stream and any request of a loop may be lost, on its way or on the way back. A loop owes what
is left of the batch that it read, and then what is behind its position (`Courier.Owes`); how far it
has come is told by what is left of its script (`Courier.IsUnderWay`). Every answer keeps that
(`Courier.IsFaithful.serve`), so after any moves what a loop handed over is in order and each
acknowledgement comes after the handing over (`IsOrderly`), and what the consumer was given is
pending or acknowledged (`handed_before_acknowledged`).
-/

namespace Datebook

/-- What a delivery loop does: it hands over the notification of an entry, or it acknowledges the
entry with an id, which the server may not learn. -/
inductive Deed
  | handOver (e : StreamEntry) (n : Notification)
  | acknowledge (id : String) (isTaken : Bool)
  deriving DecidableEq

/-- The entries that a loop handed over, in that order. -/
def handed (deeds : List Deed) : List StreamEntry :=
  deeds.filterMap fun
    | .handOver e _ => some e
    | .acknowledge _ _ => none

/-- What a delivery loop has to do with: the group, the entries of its last read that it has not
acknowledged yet, and its deeds so far. -/
structure Courier where
  group : StreamGroup
  batch : List StreamEntry
  deeds : List Deed

/-- How a request ends: the loop is cancelled meanwhile, the server carries the command out, its
reply arrives, and the subscription is still held. -/
structure Fate where
  isCancelled : Bool
  isCarriedOut : Bool
  isReplied : Bool
  isHeld : Bool

namespace Courier

/-- The entry that is being handled. -/
def current (d : Courier) : StreamEntry := d.batch.headD ⟨"", []⟩

/-- Answers a request of a loop. -/
def answer (f : Fate) : (r : DeliveryRequest) → Courier → r.Answer × Courier
  | .read position, d =>
    let (es, group) := d.group.read position
    let d := if f.isCarriedOut then { d with group } else d
    if f.isCancelled then (.cancelled, d)
    else if f.isCarriedOut && f.isReplied then (.entries es, { d with batch := es })
    else (.failed, d)
  | .pause, d => (f.isCancelled, d)
  | .handOver n, d =>
    (f.isHeld, if f.isHeld then { d with deeds := d.deeds ++ [.handOver d.current n] } else d)
  | .acknowledge id, d =>
    (f.isCarriedOut && f.isReplied,
      { group := if f.isCarriedOut then d.group.acknowledge id else d.group
        batch := d.batch.tail
        deeds := d.deeds ++ [.acknowledge id f.isCarriedOut] })

end Courier

/-- A loop somewhere in its script, and the deeds of the loops before it, the latest first. -/
structure Handoffs where
  courier : Courier
  loop : Delivery.Work (Option String)
  past : List (List Deed)

/-- What happens: an entry is added to the stream, a new loop starts and the old one is given up, or
the next request of the loop is answered. -/
inductive Handoffs.Move
  | append (e : StreamEntry)
  | start
  | serve (f : Fate)

namespace Delivery

/-- Goes on with the next turn if there is one. -/
def onward : Work (Option String) → Work (Option String)
  | .done (some position) => turn position
  | p => p

end Delivery

namespace Handoffs

/-- A group before any loop has started. -/
def idle (g : StreamGroup) : Handoffs := ⟨⟨g, [], []⟩, .done none, []⟩

def group (s : Handoffs) : StreamGroup := s.courier.group

/-- The deeds of each loop, the latest loop first. -/
def runs (s : Handoffs) : List (List Deed) := s.courier.deeds :: s.past

def move (s : Handoffs) : Move → Handoffs
  | .append e => { s with courier := { s.courier with group := s.courier.group.append e } }
  | .start =>
    ⟨{ s.courier with batch := [], deeds := [] }, Delivery.turn Delivery.pendingStart, s.runs⟩
  | .serve f =>
    let (loop, courier) := s.loop.advance (Courier.answer f) s.courier
    { s with loop := Delivery.onward loop, courier }

def run (s : Handoffs) (moves : List Move) : Handoffs := moves.foldl move s

end Handoffs

theorem handed_handOver (deeds : List Deed) (e : StreamEntry) (n : Notification) :
    handed (deeds ++ [.handOver e n]) = handed deeds ++ [e] :=
  List.filterMap_append

theorem handed_acknowledge (deeds : List Deed) (id : String) (isTaken : Bool) :
    handed (deeds ++ [.acknowledge id isTaken]) = handed deeds :=
  List.filterMap_append.trans (List.append_nil _)

theorem mem_handed {deeds : List Deed} {e : StreamEntry} :
    e ∈ handed deeds ↔ ∃ n, .handOver e n ∈ deeds := by
  unfold handed
  rw [List.mem_filterMap]
  constructor
  · rintro ⟨_ | _, hmem, ⟨⟩⟩
    exact ⟨_, hmem⟩
  · rintro ⟨n, hmem⟩
    exact ⟨_, hmem, rfl⟩

/-- The deeds of one loop: entries are handed over in their order, each for what it carries, and an
entry that carries a notification is acknowledged only after that. -/
structure IsOrderly (g : StreamGroup) (deeds : List Deed) : Prop where
  increasing : (handed deeds).Pairwise fun a b => a.rank < b.rank
  mem : ∀ e ∈ handed deeds, e ∈ g.entries ∧ e.rank ≤ g.last
  notification : ∀ e n, .handOver e n ∈ deeds → e.notification? = some n
  acknowledged : ∀ l id isTaken, l ++ [.acknowledge id isTaken] <+: deeds →
    ∃ e ∈ g.entries, e.id = id ∧ ∀ n, e.notification? = some n → .handOver e n ∈ l

namespace IsOrderly

variable {g g' : StreamGroup} {deeds : List Deed}

theorem nil (g : StreamGroup) : IsOrderly g [] :=
  ⟨.nil, by simp [handed], by simp, by simp⟩

theorem mono (h : IsOrderly g deeds) (hentries : g.entries ⊆ g'.entries)
    (hlast : g.last ≤ g'.last) : IsOrderly g' deeds := by
  refine ⟨h.increasing, fun e he => ⟨hentries (h.mem e he).1, (h.mem e he).2.trans hlast⟩,
    h.notification, fun l id isTaken hl => ?_⟩
  obtain ⟨e, he, hid, hn⟩ := h.acknowledged l id isTaken hl
  exact ⟨e, hentries he, hid, hn⟩

theorem handOver (h : IsOrderly g deeds) {e : StreamEntry} {n : Notification}
    (hlt : ∀ a ∈ handed deeds, a.rank < e.rank) (he : e ∈ g.entries) (hle : e.rank ≤ g.last)
    (hn : e.notification? = some n) : IsOrderly g (deeds ++ [.handOver e n]) := by
  refine ⟨?_, ?_, ?_, ?_⟩
  · rw [handed_handOver]
    exact List.pairwise_append.2 ⟨h.increasing, List.pairwise_singleton _ e,
      fun a ha b hb => List.mem_singleton.1 hb ▸ hlt a ha⟩
  · rw [handed_handOver]
    exact List.forall_mem_append.2 ⟨h.mem, List.forall_mem_singleton.2 ⟨he, hle⟩⟩
  · intro a m hm
    rcases List.mem_append.1 hm with hm | hm
    · exact h.notification a m hm
    · cases List.mem_singleton.1 hm
      exact hn
  · intro l id isTaken hl
    rcases List.prefix_concat_iff.1 hl with hl | hl
    · cases (List.append_inj' hl rfl).2
    · exact h.acknowledged l id isTaken hl

theorem acknowledge (h : IsOrderly g deeds) {e : StreamEntry} (he : e ∈ g.entries)
    (hn : ∀ n, e.notification? = some n → .handOver e n ∈ deeds) (isTaken : Bool) :
    IsOrderly g (deeds ++ [.acknowledge e.id isTaken]) := by
  have hhanded := handed_acknowledge deeds e.id isTaken
  refine ⟨hhanded ▸ h.increasing, hhanded ▸ h.mem, fun a m hm => ?_, fun l id isTaken' hl => ?_⟩
  · exact h.notification a m (by simpa using hm)
  · rcases List.prefix_concat_iff.1 hl with hl | hl
    · obtain ⟨rfl, hlast⟩ := List.append_inj' hl rfl
      cases List.singleton_inj.1 hlast
      exact ⟨e, he, rfl, hn⟩
    · exact h.acknowledged l id isTaken' hl

/-- An acknowledgement of a loop is one of the entry with its rank. -/
theorem acknowledge_mem (h : IsOrderly g deeds) (hg : g.IsSound) {id : String} {isTaken : Bool}
    (hmem : .acknowledge id isTaken ∈ deeds) {e : StreamEntry} (he : e ∈ g.entries)
    (hid : Rank.ofId id = e.rank) : .acknowledge e.id isTaken ∈ deeds := by
  obtain ⟨l, r, rfl⟩ := List.append_of_mem hmem
  obtain ⟨a, ha, rfl, -⟩ := h.acknowledged l id isTaken ⟨r, by simp⟩
  exact hg.eq_of_rank ha he hid ▸ hmem

end IsOrderly

namespace Delivery

/-- Handles entries in order, and tells that the next turn is from `q`. -/
def handling (q : String) (es : List StreamEntry) : Work (Option String) := do
  if ← handleAll es then return some q
  return none

/-- Acknowledges an entry and handles the others. -/
def acknowledging (q : String) (e : StreamEntry) (es : List StreamEntry) :
    Work (Option String) := do
  let _ ← ask (.acknowledge e.id)
  handling q es

/-- Hands over what an entry carries, and goes on with it if the subscription took it. -/
def handingOver (q : String) (e : StreamEntry) (n : Notification) (es : List StreamEntry) :
    Work (Option String) := do
  if ← ask (.handOver n) then acknowledging q e es else return none

/-- What is left of a turn whose read failed. -/
def pausing (q : String) : Work (Option String) := do
  if ← ask .pause then return none
  return some q

theorem handling_cons_none {q : String} {e : StreamEntry} (h : e.notification? = none)
    (es : List StreamEntry) : handling q (e :: es) = acknowledging q e es := by
  unfold StreamEntry.notification? at h
  unfold handling handleAll
  rw [h]
  rfl

theorem handling_cons_some {q : String} {e : StreamEntry} {n : Notification}
    (h : e.notification? = some n) (es : List StreamEntry) :
    handling q (e :: es) = handingOver q e n es := by
  unfold StreamEntry.notification? at h
  unfold handling handleAll
  rw [h]
  refine congrArg (Script.ask _) (funext fun isHeld => ?_)
  cases isHeld <;> rfl

end Delivery

namespace Courier

open Delivery

/-- The entries `es` are still to be handled, and then what is behind the position `q`. -/
structure Owes (d : Courier) (q : String) (es : List StreamEntry) : Prop where
  mem : ∀ e ∈ es, e ∈ d.group.entries ∧ e.rank ≤ d.group.last
  increasing : es.Pairwise fun a b => a.rank < b.rank
  handed_lt : ∀ a ∈ handed d.deeds, ∀ e ∈ es, a.rank < e.rank
  le_position : q ≠ newEntries → ∀ e ∈ handed d.deeds ++ es, e.rank ≤ Rank.ofId q

/-- How far a loop has come: it is about to read, it pauses after a read that failed, it is about to
hand over or to acknowledge the first entry of its batch, or it has ended. -/
inductive IsUnderWay (d : Courier) : Work (Option String) → Prop
  | reading {q : String} (h : d.Owes q []) : IsUnderWay d (turn q)
  | pausing {q : String} (h : d.Owes q []) : IsUnderWay d (pausing q)
  | handingOver {q : String} {e : StreamEntry} {n : Notification} {es : List StreamEntry}
      (hbatch : d.batch = e :: es) (hn : e.notification? = some n) (h : d.Owes q (e :: es)) :
      IsUnderWay d (handingOver q e n es)
  | acknowledging {q : String} {e : StreamEntry} {es : List StreamEntry}
      (hbatch : d.batch = e :: es) (he : e ∈ d.group.entries)
      (hn : ∀ n, e.notification? = some n → .handOver e n ∈ d.deeds) (h : d.Owes q es) :
      IsUnderWay d (acknowledging q e es)
  | ended : IsUnderWay d (.done none)

variable {d : Courier} {q : String} {es : List StreamEntry}

theorem current_of_batch {e : StreamEntry} (h : d.batch = e :: es) : d.current = e := by
  rw [current, h, List.headD_cons]

theorem Owes.nil (h : q ≠ newEntries → ∀ e ∈ handed d.deeds, e.rank ≤ Rank.ofId q) :
    d.Owes q [] :=
  ⟨by simp, .nil, by simp, by simpa using h⟩

theorem Owes.mono (h : d.Owes q es) {g : StreamGroup} (hentries : d.group.entries ⊆ g.entries)
    (hlast : d.group.last ≤ g.last) (batch : List StreamEntry) :
    Owes { d with group := g, batch } q es :=
  ⟨fun e he => ⟨hentries (h.mem e he).1, (h.mem e he).2.trans hlast⟩, h.increasing, h.handed_lt,
    h.le_position⟩

theorem IsUnderWay.mono {p : Work (Option String)} (h : d.IsUnderWay p) {g : StreamGroup}
    (hentries : d.group.entries ⊆ g.entries) (hlast : d.group.last ≤ g.last) :
    IsUnderWay { d with group := g } p := by
  cases h with
  | reading h => exact .reading (h.mono hentries hlast d.batch)
  | pausing h => exact .pausing (h.mono hentries hlast d.batch)
  | handingOver hbatch hn h => exact .handingOver hbatch hn (h.mono hentries hlast d.batch)
  | acknowledging hbatch he hn h =>
    exact .acknowledging hbatch (hentries he) hn (h.mono hentries hlast d.batch)
  | ended => exact .ended

theorem Owes.tail {e : StreamEntry} (h : d.Owes q (e :: es)) : d.Owes q es := by
  refine ⟨fun a ha => h.mem a (List.mem_cons_of_mem e ha), h.increasing.of_cons,
    fun a ha b hb => h.handed_lt a ha b (List.mem_cons_of_mem e hb), fun hq a ha => ?_⟩
  refine h.le_position hq a ?_
  rw [List.mem_append] at ha ⊢
  exact ha.imp_right (List.mem_cons_of_mem e)

theorem Owes.handOver {e : StreamEntry} (h : d.Owes q (e :: es)) (n : Notification) :
    Owes { d with deeds := d.deeds ++ [.handOver e n] } q es := by
  refine ⟨h.tail.mem, h.tail.increasing, ?_, fun hq a ha => ?_⟩
  · rw [handed_handOver]
    refine List.forall_mem_append.2 ⟨h.tail.handed_lt, List.forall_mem_singleton.2 ?_⟩
    exact (List.pairwise_cons.1 h.increasing).1
  · exact h.le_position hq a (by simpa [handed_handOver] using ha)

theorem Owes.acknowledge (h : d.Owes q es) (id : String) (isTaken : Bool) :
    Owes { d with deeds := d.deeds ++ [.acknowledge id isTaken] } q es := by
  have hhanded := handed_acknowledge d.deeds id isTaken
  exact ⟨h.mem, h.increasing, hhanded ▸ h.handed_lt, hhanded ▸ h.le_position⟩

/-- Handling starts with the first entry of the batch, or with the next turn if there is none. -/
theorem Owes.isUnderWay (h : d.Owes q es) (hbatch : d.batch = es) :
    d.IsUnderWay (onward (handling q es)) := by
  cases es with
  | nil => exact .reading h
  | cons e es =>
    rcases hn : e.notification? with _ | n
    · rw [handling_cons_none hn]
      exact .acknowledging hbatch (h.mem e List.mem_cons_self).1 (by simp [hn]) h.tail
    · rw [handling_cons_some hn]
      exact .handingOver hbatch hn h

/-- What a read gives is what the loop owes next. -/
theorem Owes.read (hsound : d.group.IsSound) (horderly : IsOrderly d.group d.deeds)
    (h : d.Owes q []) :
    Owes { d with group := (d.group.read q).2, batch := (d.group.read q).1 }
      (nextPosition q ((d.group.read q).1.getLast?.map (·.id))) (d.group.read q).1 := by
  have hposition : q ≠ newEntries → ∀ a ∈ handed d.deeds, a.rank ≤ Rank.ofId q := by
    simpa using h.le_position
  have hlt : ∀ a ∈ handed d.deeds, ∀ e ∈ (d.group.read q).1, a.rank < e.rank :=
    fun a ha e he => StreamGroup.lt_of_mem_read q he (horderly.mem a ha).2 (hposition · a ha)
  refine ⟨fun e he => ⟨?_, hsound.le_last_of_mem_read q he⟩, hsound.read_increasing q, hlt,
    fun hnext => ?_⟩
  · rw [StreamGroup.entries_read]
    exact (StreamGroup.read_sublist q).subset he
  · -- Only a replay moves its position, to the last entry of a batch; an empty batch ends it.
    unfold nextPosition at hnext ⊢
    split_ifs at hnext ⊢ with hq
    · exact absurd rfl hnext
    · rcases hz : (d.group.read q).1.getLast? with _ | z
      · simp [hz] at hnext
      · have hle : ∀ e ∈ (d.group.read q).1, e.rank ≤ z.rank := by
          intro e he
          obtain ⟨z', hz', hle⟩ := StreamGroup.le_getLast (hsound.read_increasing q) he
          rw [hz] at hz'
          exact Option.some.inj hz' ▸ hle
        have hmem : z ∈ (d.group.read q).1 := List.mem_of_getLast? hz
        refine List.forall_mem_append.2 ⟨fun a ha => ?_, hle⟩
        exact le_of_lt (hlt a ha z hmem)

/-- What a loop and its deeds so far are like, at any point. -/
structure IsFaithful (d : Courier) (p : Work (Option String)) : Prop where
  sound : d.group.IsSound
  orderly : IsOrderly d.group d.deeds
  underWay : d.IsUnderWay p

theorem advance_turn (f : Fate) (q : String) (d : Courier) :
    (turn q).advance (answer f) d
      = if f.isCancelled then
          (.done none, if f.isCarriedOut then { d with group := (d.group.read q).2 } else d)
        else if f.isCarriedOut && f.isReplied then
          (handling (nextPosition q ((d.group.read q).1.getLast?.map (·.id))) (d.group.read q).1,
            { d with group := (d.group.read q).2, batch := (d.group.read q).1 })
        else
          (pausing q, if f.isCarriedOut then { d with group := (d.group.read q).2 } else d) := by
  obtain ⟨isCancelled, isCarriedOut, isReplied, isHeld⟩ := f
  cases isCancelled <;> cases isCarriedOut <;> cases isReplied <;> rfl

theorem advance_pausing (f : Fate) (q : String) (d : Courier) :
    (pausing q).advance (answer f) d = (.done (if f.isCancelled then none else some q), d) := by
  obtain ⟨isCancelled, _, _, _⟩ := f
  cases isCancelled <;> rfl

theorem advance_handingOver (f : Fate) (q : String) (e : StreamEntry) (n : Notification)
    (es : List StreamEntry) (d : Courier) :
    (handingOver q e n es).advance (answer f) d
      = if f.isHeld then
          (acknowledging q e es, { d with deeds := d.deeds ++ [.handOver d.current n] })
        else (.done none, d) := by
  obtain ⟨_, _, _, isHeld⟩ := f
  cases isHeld <;> rfl

theorem IsFaithful.turn (h : d.IsFaithful (turn q)) (hq : d.Owes q []) (f : Fate) :
    ((Delivery.turn q).advance (answer f) d).2.IsFaithful
      (onward ((Delivery.turn q).advance (answer f) d).1) := by
  have hentries : d.group.entries ⊆ (d.group.read q).2.entries :=
    (StreamGroup.entries_read q).symm ▸ List.Subset.refl _
  have hlast := StreamGroup.last_le_read (g := d.group) q
  have hread : IsOrderly (d.group.read q).2 d.deeds := h.orderly.mono hentries hlast
  rw [advance_turn]
  split_ifs
  · exact ⟨h.sound.read q, hread, .ended⟩
  · exact ⟨h.sound, h.orderly, .ended⟩
  · exact ⟨h.sound.read q, hread, (hq.read h.sound h.orderly).isUnderWay rfl⟩
  · exact ⟨h.sound.read q, hread, .pausing (hq.mono hentries hlast d.batch)⟩
  · exact ⟨h.sound, h.orderly, .pausing hq⟩

theorem IsFaithful.handOver {e : StreamEntry} {n : Notification}
    (h : d.IsFaithful (handingOver q e n es)) (hbatch : d.batch = e :: es)
    (hn : e.notification? = some n) (hq : d.Owes q (e :: es)) :
    IsFaithful { d with deeds := d.deeds ++ [.handOver e n] } (Delivery.acknowledging q e es) := by
  obtain ⟨he, hle⟩ := hq.mem e List.mem_cons_self
  have hlt : ∀ a ∈ handed d.deeds, a.rank < e.rank :=
    fun a ha => hq.handed_lt a ha e List.mem_cons_self
  refine ⟨h.sound, h.orderly.handOver hlt he hle hn, ?_⟩
  refine .acknowledging hbatch he (fun m hm => ?_) (hq.handOver n)
  rw [hn] at hm
  simp [Option.some.inj hm]

theorem IsFaithful.acknowledge {e : StreamEntry} (h : d.IsFaithful (acknowledging q e es))
    (hbatch : d.batch = e :: es) (he : e ∈ d.group.entries)
    (hn : ∀ n, e.notification? = some n → .handOver e n ∈ d.deeds) (hq : d.Owes q es) (f : Fate) :
    (answer f (.acknowledge e.id) d).2.IsFaithful (onward (handling q es)) := by
  have hsound : (answer f (.acknowledge e.id) d).2.group.IsSound := by
    simp only [answer]
    split_ifs
    · exact h.sound.acknowledge e.id
    · exact h.sound
  have hentries : d.group.entries ⊆ (answer f (.acknowledge e.id) d).2.group.entries := by
    simp only [answer]
    split_ifs <;> exact List.Subset.refl _
  have hlast : d.group.last ≤ (answer f (.acknowledge e.id) d).2.group.last := by
    simp only [answer]
    split_ifs <;> exact le_rfl
  have horderly := (h.orderly.acknowledge he hn f.isCarriedOut).mono hentries hlast
  refine ⟨hsound, horderly, ?_⟩
  exact ((hq.acknowledge e.id f.isCarriedOut).mono hentries hlast _).isUnderWay
    (congrArg List.tail hbatch)

/-- Whatever the answer to its next request is, a loop stays faithful. -/
theorem IsFaithful.serve {p : Work (Option String)} (h : d.IsFaithful p) (f : Fate) :
    (p.advance (answer f) d).2.IsFaithful (onward (p.advance (answer f) d).1) := by
  cases h.underWay with
  | reading hq => exact h.turn hq f
  | pausing hq =>
    rw [advance_pausing]
    refine ⟨h.sound, h.orderly, ?_⟩
    split_ifs
    · exact .ended
    · exact .reading hq
  | handingOver hbatch hn hq =>
    rw [advance_handingOver, current_of_batch hbatch]
    split_ifs
    · exact h.handOver hbatch hn hq
    · exact ⟨h.sound, h.orderly, .ended⟩
  | acknowledging hbatch he hn hq => exact h.acknowledge hbatch he hn hq f
  | ended => exact h

/-- What the answer to a request may change: what the consumer is given becomes pending, and only an
acknowledgement that is taken ends that. -/
structure Leads (d d' : Courier) : Prop where
  entries : d'.group.entries = d.group.entries
  last_le : d.group.last ≤ d'.group.last
  deeds : d.deeds ⊆ d'.deeds
  given : ∀ e ∈ d.group.entries, d.group.last < e.rank → e.rank ≤ d'.group.last →
    e.rank ∈ d'.group.pending
  pending : ∀ p ∈ d.group.pending, p ∈ d'.group.pending
    ∨ ∃ id, Rank.ofId id = p ∧ .acknowledge id true ∈ d'.deeds

theorem leads_of_group_eq {d' : Courier} (hgroup : d'.group = d.group)
    (hdeeds : d.deeds ⊆ d'.deeds) : d.Leads d' :=
  ⟨congrArg _ hgroup, by rw [hgroup], hdeeds,
    fun e _ hlt hle => absurd (hgroup ▸ hle) (not_le_of_gt hlt), fun p hp => .inl (hgroup ▸ hp)⟩

theorem leads_of_read (hsound : d.group.IsSound) (q : String) {d' : Courier}
    (hgroup : d'.group = (d.group.read q).2) (hdeeds : d'.deeds = d.deeds) : d.Leads d' := by
  refine ⟨?_, ?_, hdeeds ▸ List.Subset.refl _, ?_, ?_⟩ <;> rw [hgroup]
  · exact StreamGroup.entries_read q
  · exact StreamGroup.last_le_read q
  · exact fun e he hlt hle => hsound.mem_pending_read q he hlt hle
  · exact fun p hp => .inl (StreamGroup.pending_subset_read q hp)

theorem leads_of_acknowledge (id : String) {d' : Courier}
    (hgroup : d'.group = d.group.acknowledge id)
    (hdeeds : d'.deeds = d.deeds ++ [.acknowledge id true]) : d.Leads d' := by
  refine ⟨by rw [hgroup]; rfl, by rw [hgroup]; rfl, by simp [hdeeds], ?_, fun p hp => ?_⟩
  · intro e _ hlt hle
    rw [hgroup] at hle
    exact absurd hle (not_le_of_gt hlt)
  · by_cases hid : Rank.ofId id = p
    · exact .inr ⟨id, hid, by simp [hdeeds]⟩
    · rw [hgroup]
      exact .inl (Finset.mem_erase.2 ⟨Ne.symm hid, hp⟩)

theorem answer_leads (hsound : d.group.IsSound) (f : Fate) (r : DeliveryRequest) :
    d.Leads (answer f r d).2 := by
  cases r with
  | read q =>
    rcases hf : f.isCarriedOut with _ | _ <;>
      simp only [answer, hf, Bool.false_eq_true, if_false, if_true]
    · split_ifs <;> exact leads_of_group_eq rfl (List.Subset.refl _)
    · split_ifs <;> exact leads_of_read hsound q rfl rfl
  | pause => exact leads_of_group_eq rfl (List.Subset.refl _)
  | handOver n =>
    refine leads_of_group_eq ?_ ?_ <;> simp only [answer] <;> split_ifs
    · rfl
    · rfl
    · exact List.subset_append_left _ _
    · exact List.Subset.refl _
  | acknowledge id =>
    rcases hf : f.isCarriedOut with _ | _
    · exact leads_of_group_eq (by simp [answer, hf]) (List.subset_append_left _ _)
    · exact leads_of_acknowledge id (by simp [answer, hf]) (by simp [answer, hf])

theorem advance_leads (hsound : d.group.IsSound) (f : Fate) (p : Work (Option String)) :
    d.Leads (p.advance (answer f) d).2 := by
  cases p with
  | done r => exact leads_of_group_eq rfl (List.Subset.refl _)
  | ask r next => exact answer_leads hsound f r

end Courier

namespace Handoffs

/-- The server took an acknowledgement of the entry. -/
def HasAcknowledged (s : Handoffs) (e : StreamEntry) : Prop :=
  ∃ deeds ∈ s.runs, .acknowledge e.id true ∈ deeds

/-- An entry that the consumer was given is pending or acknowledged, unless it was already settled
in the group `g` with which it all began. -/
def Accounts (g : StreamGroup) (s : Handoffs) (e : StreamEntry) : Prop :=
  e.rank ∈ s.group.pending ∨ s.HasAcknowledged e ∨ (e.rank ≤ g.last ∧ e.rank ∉ g.pending)

structure IsFaithful (g : StreamGroup) (s : Handoffs) : Prop where
  courier : s.courier.IsFaithful s.loop
  past : ∀ deeds ∈ s.past, IsOrderly s.group deeds
  accounts : ∀ e ∈ s.group.entries, e.rank ≤ s.group.last → s.Accounts g e

variable {g : StreamGroup} {s : Handoffs}

theorem isFaithful_idle (hg : g.IsSound) : (idle g).IsFaithful g := by
  refine ⟨⟨hg, .nil g, .ended⟩, by simp [idle], fun e he hle => ?_⟩
  by_cases hp : e.rank ∈ g.pending
  · exact .inl hp
  · exact .inr (.inr ⟨hle, hp⟩)

theorem IsFaithful.runs (h : s.IsFaithful g) : ∀ deeds ∈ s.runs, IsOrderly s.group deeds :=
  List.forall_mem_cons.2 ⟨h.courier.orderly, h.past⟩

theorem IsFaithful.start (h : s.IsFaithful g) : (s.move .start).IsFaithful g := by
  refine ⟨⟨h.courier.sound, .nil _,
    .reading (.nil fun _ e he => absurd he List.not_mem_nil)⟩, h.runs, fun e he hle => ?_⟩
  rcases h.accounts e he hle with hp | ⟨deeds, hdeeds, hmem⟩ | hg
  · exact .inl hp
  · exact .inr (.inl ⟨deeds, List.mem_cons_of_mem _ hdeeds, hmem⟩)
  · exact .inr (.inr hg)

theorem IsFaithful.append (h : s.IsFaithful g) (a : StreamEntry) :
    (s.move (.append a)).IsFaithful g := by
  have hentries : s.group.entries ⊆ (s.group.append a).entries := by
    rcases StreamGroup.entries_append a s.group with heq | ⟨heq, -⟩
    · exact heq ▸ List.Subset.refl _
    · exact heq ▸ List.subset_append_left _ _
  have hlast := StreamGroup.last_append a s.group
  have hpending := StreamGroup.pending_append a s.group
  refine ⟨⟨h.courier.sound.append a, h.courier.orderly.mono hentries hlast.ge,
    h.courier.underWay.mono hentries hlast.ge⟩,
    fun deeds hd => (h.past deeds hd).mono hentries hlast.ge, fun e he hle => ?_⟩
  have hmem : e ∈ s.group.entries := by
    rcases StreamGroup.entries_append a s.group with heq | ⟨heq, hlt⟩
    · exact heq ▸ he
    · rcases List.mem_append.1 (heq ▸ he) with he | he
      · exact he
      · rw [List.mem_singleton.1 he] at hle
        exact absurd (hle.trans hlast.le) (not_le_of_gt hlt)
  rcases h.accounts e hmem (hle.trans hlast.le) with hp | hacknowledged | hg
  · exact .inl (hpending.symm ▸ hp)
  · exact .inr (.inl hacknowledged)
  · exact .inr (.inr hg)

theorem IsFaithful.serve (h : s.IsFaithful g) (f : Fate) : (s.move (.serve f)).IsFaithful g := by
  have hcourier := h.courier.serve f
  have hleads := Courier.advance_leads h.courier.sound f s.loop
  refine ⟨hcourier, fun deeds hd => ?_, fun e he hle => ?_⟩
  · exact (h.past deeds hd).mono (hleads.entries ▸ List.Subset.refl _) hleads.last_le
  · have hmem : e ∈ s.group.entries := hleads.entries ▸ he
    -- An entry was given before this answer, or by it; in the second case it is pending.
    by_cases hold : e.rank ≤ s.group.last
    · rcases h.accounts e hmem hold with hp | ⟨deeds, hdeeds, hack⟩ | hg
      · rcases hleads.pending _ hp with hp | ⟨id, hid, hack⟩
        · exact .inl hp
        · exact .inr (.inl ⟨_, List.mem_cons_self,
            hcourier.orderly.acknowledge_mem hcourier.sound hack he hid⟩)
      · rcases List.mem_cons.1 hdeeds with rfl | hdeeds
        · exact .inr (.inl ⟨_, List.mem_cons_self, hleads.deeds hack⟩)
        · exact .inr (.inl ⟨deeds, List.mem_cons_of_mem _ hdeeds, hack⟩)
      · exact .inr (.inr hg)
    · exact .inl (hleads.given e hmem (lt_of_not_ge hold) hle)

theorem IsFaithful.run : ∀ (moves : List Move) {s : Handoffs}, s.IsFaithful g →
    (s.run moves).IsFaithful g
  | [], _, h => h
  | .append e :: moves, _, h => run moves (h.append e)
  | .start :: moves, _, h => run moves h.start
  | .serve f :: moves, _, h => run moves (h.serve f)

/-- Whatever is added to a stream, however loops are started and stopped and whichever requests are
lost: what the consumer was given is pending or acknowledged. Each loop acknowledges an entry that
carries a notification only once it has handed that over, and what it hands over is in order. -/
theorem handed_before_acknowledged (hg : g.IsSound) (moves : List Move) :
    (∀ e ∈ ((idle g).run moves).group.entries, e.rank ≤ ((idle g).run moves).group.last →
        ((idle g).run moves).Accounts g e)
      ∧ ∀ deeds ∈ ((idle g).run moves).runs,
        (∀ e ∈ ((idle g).run moves).group.entries, ∀ n, e.notification? = some n →
          ∀ l isTaken, l ++ [.acknowledge e.id isTaken] <+: deeds → .handOver e n ∈ l)
        ∧ (∀ e n, .handOver e n ∈ deeds →
          e ∈ ((idle g).run moves).group.entries ∧ e.notification? = some n)
        ∧ (handed deeds).Pairwise fun a b => a.rank < b.rank := by
  have h : ((idle g).run moves).IsFaithful g := (isFaithful_idle hg).run moves
  refine ⟨h.accounts, fun deeds hdeeds => ⟨fun e he n hn l isTaken hl => ?_, fun e n hmem => ?_,
    (h.runs deeds hdeeds).increasing⟩⟩
  · obtain ⟨a, ha, hid, hhanded⟩ := (h.runs deeds hdeeds).acknowledged l e.id isTaken hl
    obtain rfl := h.courier.sound.eq_of_rank ha he (congrArg Rank.ofId hid)
    exact hhanded n hn
  · exact ⟨((h.runs deeds hdeeds).mem e (mem_handed.2 ⟨n, hmem⟩)).1,
      (h.runs deeds hdeeds).notification e n hmem⟩

/-- An entry that carries a notification. -/
def supperAt (id : String) : StreamEntry :=
  ⟨id, [("payload", Notification.payload ⟨"n", "e", "Supper", "ada", "", .first, .first⟩)]⟩

/-- The consumer was given the first two entries, of which the second carries nothing, but not the
third. -/
def suppers : StreamGroup :=
  ⟨[supperAt "1-0", ⟨"1-1", []⟩, supperAt "2-0"], Rank.ofId "1-1",
    {Rank.ofId "1-0", Rank.ofId "1-1"}⟩

/-- All goes well. -/
def fine : Fate := ⟨false, true, true, true⟩

/-- The command does not reach the server. -/
def lost : Fate := ⟨false, false, false, true⟩

/-- The reply of the server does not arrive. -/
def unheard : Fate := ⟨false, true, false, true⟩

/-- Nobody holds the subscription any more. -/
def dropped : Fate := ⟨false, true, true, false⟩

/-- The first loop cannot acknowledge what it handed over, and is stopped. The next one hands it
over again; after a read that fails it comes to new entries, of which one is left. -/
def supperMoves : List Move :=
  [.start, .serve fine, .serve fine, .serve lost,
    .start, .serve fine, .serve fine, .serve unheard, .serve fine, .serve fine, .serve lost,
    .serve fine, .append (supperAt "3-0"), .serve fine, .serve fine, .serve fine, .serve dropped]

theorem handed_before_acknowledged_supperMoves :
    suppers.IsSound
      ∧ ((idle suppers).run supperMoves).runs.map (fun deeds => (handed deeds).map (·.id))
        = [["1-0", "2-0"], ["1-0"], []]
      ∧ (∀ e ∈ ((idle suppers).run supperMoves).group.entries,
        e.rank ≤ ((idle suppers).run supperMoves).group.last →
          ((idle suppers).run supperMoves).Accounts suppers e)
      ∧ ∀ deeds ∈ ((idle suppers).run supperMoves).runs,
        (∀ e ∈ ((idle suppers).run supperMoves).group.entries, ∀ n, e.notification? = some n →
          ∀ l isTaken, l ++ [.acknowledge e.id isTaken] <+: deeds → .handOver e n ∈ l)
        ∧ (∀ e n, .handOver e n ∈ deeds →
          e ∈ ((idle suppers).run supperMoves).group.entries ∧ e.notification? = some n)
        ∧ (handed deeds).Pairwise fun a b => a.rank < b.rank := by
  have hg : suppers.IsSound := ⟨by decide, by decide⟩
  exact ⟨hg, by decide +kernel, handed_before_acknowledged hg supperMoves⟩

end Handoffs

end Datebook

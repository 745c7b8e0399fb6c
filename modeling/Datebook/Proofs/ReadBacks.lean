import Datebook.Proofs.Turns

/-!
# What is written is read back

A client says how long before the start it wants to be reminded, and the event has the instant of
that reminder. Brought to storage precision, the start and the reminder are moved by the same number
of nanoseconds, since seconds are whole microseconds (`Describes.atStoragePrecision`), so the client
is shown the number that it said (`Describes.ofEvent_eq`), in a text from which it reads just what
it said (`EventView.ofOctets_payload`), and nothing changes that until the event is replaced or
removed (`written_is_read_back`). A number that leads out of the calendar is refused.
-/

namespace Datebook

namespace Instant

variable {t u : Instant}

theorem nanos_floorMicros (t : Instant) : t.floorMicros.nanos = t.nanos - t.nanos % 1000 := by
  unfold nanos floorMicros
  simp only []
  omega

theorem secondsSince_of_nanos {n : Int} (ht : t.IsOrdinary) (hu : u.IsOrdinary)
    (h : u.nanos + Span.ofSeconds n = t.nanos) : t.secondsSince u = n := by
  have hsince : n * 1000000000 = t.since u := by
    rw [← nanos_sub_nanos ht hu, ← h]
    unfold Span.ofSeconds
    omega
  rw [secondsSince, ← hsince]
  exact Int.mul_tdiv_cancel n (by decide)

/-- No instant is moved back beyond the first, not even one in a leap second. -/
theorem sub?_ofSeconds_eq_none {n : Int} (hn : 0 ≤ n)
    (h : t.nanos - Span.ofSeconds n < first.nanos) : t.sub? (Span.ofSeconds n) = none := by
  have hmin := t.minSecond_le
  have hfirst : first.nanos = minSecond * 1000000000 := by simp [nanos, first]
  have hnone : ∀ {s : Int} {m : Nat}, s < minSecond → mk? s m = none := fun hs =>
    dif_neg fun h => absurd h.1 (Int.not_le.2 hs)
  rw [hfirst] at h
  unfold nanos Span.ofSeconds at h
  rw [sub?]
  generalize hd : -Span.ofSeconds n = d
  have hd' : d = -n * 1000000000 := hd ▸ (Int.neg_mul _ _).symm
  have hdiv : d.tdiv 1000000000 = -n := hd' ▸ Int.mul_tdiv_cancel (-n) (by decide)
  have hmod : d.tmod 1000000000 = 0 := hd' ▸ Int.mul_tmod_left (-n) 1000000000
  unfold add? add?.normal?
  simp only [hdiv, hmod]
  -- From a leap second the way back counts from the second after it.
  by_cases ho : t.IsOrdinary
  · rw [if_pos ho]
    unfold IsOrdinary at ho
    exact hnone (by omega)
  · rw [if_neg ho]
    unfold IsOrdinary at ho
    rw [if_neg (by omega), if_pos (by omega)]
    exact hnone (by omega)

end Instant

namespace EventStore

variable {s store : EventStore} {id : String} {e a : Event}

/-- What was made is kept as it was answered, if none of its instants is in a leap second. -/
theorem of_create_ok (hid : id ∉ s.ids) (he : e.IsOrdinary) (h : s.create id e = (.ok a, store)) :
    a = { e.atStoragePrecision with id } ∧ store.entries = s.entries ++ [(id, .ok a)] := by
  obtain ⟨err, hs⟩ | ⟨hok, hentries⟩ := create_cases hid e
  · rw [h] at hs
    cases hs
  · rw [h] at hok hentries
    obtain rfl := Except.ok.inj hok
    have hfit := (StorageKind.fits_atStoragePrecision fun _ => he : s.kind.Fits _).withId id
    rw [StorageKind.copy_eq_self_iff.2 hfit] at hentries
    exact ⟨rfl, hentries⟩

theorem of_update_ok (he : e.IsOrdinary) (h : s.update e = (.ok (), store)) :
    e.id ∈ s.ids ∧ store.entries
      = s.entries.map fun p => if p.1 = e.id then (e.id, .ok e.atStoragePrecision) else p := by
  obtain ⟨err, hs⟩ | ⟨-, hid, hentries⟩ := update_cases s e
  · rw [h] at hs
    cases hs
  · have hfit : s.kind.Fits e.atStoragePrecision := StorageKind.fits_atStoragePrecision fun _ => he
    rw [h, StorageKind.copy_eq_self_iff.2 hfit] at hentries
    exact ⟨hid, hentries⟩

end EventStore

namespace Api

namespace EventBody

variable {b : EventBody} {id : String} {e : Event}

/-- The body with its instants to the microsecond. -/
def atStoragePrecision (b : EventBody) : EventBody :=
  { b with startTime := b.startTime.floorMicros, endTime := b.endTime.floorMicros }

theorem Describes.withId (h : b.Describes id e) (i : String) :
    b.Describes i { e with id := i } := by
  cases h with
  | plain hn => exact .plain hn
  | reminding hn hle ho ht => exact .reminding hn hle ho ht

theorem Describes.atStoragePrecision (h : b.Describes id e) :
    b.atStoragePrecision.Describes id e.atStoragePrecision := by
  cases h with
  | plain hn => exact .plain hn
  | reminding hn hle ho ht =>
    -- Start and reminder are whole seconds apart, so they are as far into their microseconds.
    refine .reminding hn hle ho.floorMicros ?_
    unfold EventBody.atStoragePrecision
    rw [Instant.nanos_floorMicros, Instant.nanos_floorMicros, ← ht]
    unfold Span.ofSeconds
    omega

theorem Describes.ofEvent_eq (h : b.Describes id e) (hs : b.startTime.IsOrdinary) :
    EventView.ofEvent e = b.view id := by
  cases h with
  | plain hn => simp [EventView.ofEvent, view, hn]
  | reminding hn _ ho ht =>
    simp [EventView.ofEvent, view, hn, Instant.secondsSince_of_nanos hs ho ht]

theorem Describes.startTime_eq (h : b.Describes id e) : e.startTime = b.startTime := by
  cases h <;> rfl

theorem Describes.reminderAt_le (h : b.Describes id e) (he : e.IsOrdinary) :
    ∀ r ∈ e.reminderAt, r ≤ e.startTime := by
  cases h with
  | plain => simp
  | @reminding n t _ hle ho ht =>
    rintro r ⟨⟩
    have hpos : (0 : Int) ≤ Span.ofSeconds n := Int.mul_nonneg hle (by decide)
    have hnanos : t.nanos ≤ b.startTime.nanos := by omega
    exact (Instant.nanos_le_nanos ho he.startTime).1 hnanos

theorem Describes.isShowable (h : b.Describes id e) (he : e.IsOrdinary) :
    (b.view id).IsShowable := by
  rw [← h.ofEvent_eq (h.startTime_eq ▸ he.startTime)]
  exact EventView.isShowable_ofEvent he (h.reminderAt_le he)

/-- No event is made if the reminder would come after the start, or be too long before it for a span
or for the calendar. -/
theorem event_of_unremindable {n : Int} (hn : b.notifyBefore = some n)
    (h : n < 0 ∨ Span.longest < Span.ofSeconds n
      ∨ b.startTime.nanos - Span.ofSeconds n < Instant.first.nanos) (id : String) :
    ∃ fault, b.event id = .error fault := by
  have hreminder : ∃ fault, reminder b.startTime n = .error fault := by
    unfold reminder
    split_ifs with h1 h2
    · exact ⟨_, rfl⟩
    · exact ⟨_, rfl⟩
    · rw [Instant.sub?_ofSeconds_eq_none (Int.not_lt.1 h1) (by tauto)]
      exact ⟨_, rfl⟩
  obtain ⟨fault, hfault⟩ := hreminder
  refine ⟨fault, ?_⟩
  simp only [event, hn, Option.mapM_some, hfault]
  rfl

end EventBody

namespace Gateway

variable {π : Type} {ids : Nat → String} {g : Gateway EventStore} {now : Instant} {r : HttpRequest}
variable {b : EventBody} {id : String} {e : Event}

/-- A request to make an event, or to put one in the place of another. -/
def IsWrite (r : HttpRequest) : Prop :=
  r.method = .post ∧ r.target.path = octetsOf "/events"
    ∨ r.method = .put ∧ ∃ id, r.target.NamesEvent id

theorem answer_write_of_error (hr : IsWrite r) (hb : readBody r = .ok b)
    (hevent : ∀ id, ∃ fault, b.event id = .error fault) (ids : Nat → String) (now : Instant)
    (g : Gateway EventStore) :
    (answer ids now r g).1.status = 400 ∧ (answer ids now r g).2 = g := by
  obtain ⟨hm, hp⟩ | ⟨hm, id, ht⟩ := hr
  · obtain ⟨fault, hfault⟩ := hevent ""
    simp only [answer, route, route_of_path_events hp, onEvents, hm, create, hb, hfault,
      reduceCtorEq, if_false]
    split_ifs
    · exact ⟨rfl, rfl⟩
    · exact ⟨rfl, rfl⟩
  · obtain ⟨part, hroute, hid⟩ := ht.exists_route
    obtain ⟨fault, hfault⟩ := hevent id
    simp only [answer, route, hroute, hid, onEvent, hm, replace, hb, hfault, reduceCtorEq,
      if_false]
    exact ⟨rfl, rfl⟩

/-- The event of this id is shown as the view says, whatever else comes. -/
def Shows (π : Type) (ids : Nat → String) (id : String) (v : EventView) (g : Gateway EventStore) :
    Prop :=
  ∀ (as : List (Arrival π)) (now : Instant) (r : HttpRequest), g.AllSpare ids id as →
    r.method = .get → r.target.NamesEvent id →
    answer ids now r (g.after ids as) = (⟨200, .json (String.ofList v.chars)⟩, g.after ids as)

theorem IsKept.shows (hids : ids.Injective) (h : g.IsSound ids) (hk : g.IsKept id e)
    (hd : b.Describes id e) (hs : b.startTime.IsOrdinary) : g.Shows π ids id (b.view id) := by
  intro as now r hspare hm ht
  rw [(hk.after hids as h hspare).answer_get (h.after hids as) hm ht, HttpResponse.ofEvent,
    hd.ofEvent_eq hs]

/-- The request succeeded in making an event, or in putting one in the place of another. -/
def IsAccepted (r : HttpRequest) (response : HttpResponse) : Prop :=
  r.method = .post ∧ response.status = 201 ∨ r.method = .put ∧ response.status = 200

theorem Turn.isKept_of_accepted {response : HttpResponse} {g' : Gateway EventStore}
    (hturn : Turn ids now r g (response, g')) (hnew : ids g.given ∉ g.store.ids)
    (h : IsAccepted r response) :
    ∃ b, readBody r = .ok b ∧ (b.startTime.IsOrdinary → b.endTime.IsOrdinary → ∃ id e,
      (r.method = .post ∧ id = ids g.given ∨ r.method = .put ∧ r.target.NamesEvent id)
        ∧ b.atStoragePrecision.Describes id e ∧ response = .ofEvent response.status e
        ∧ g'.IsKept id e) := by
  cases hturn with
  | idle hm =>
    rcases h with ⟨hp, hs⟩ | ⟨hp, hs⟩ <;> rw [hp, hs] at hm <;> exact absurd hm (by decide)
  | @created b e a store hm hb he hs =>
    refine ⟨b, hb, fun hstart hend => ?_⟩
    have hd := EventBody.event_spec hstart ""
    rw [he] at hd
    obtain ⟨rfl, hentries⟩ := EventStore.of_create_ok hnew (hd.isOrdinary hstart hend) hs
    refine ⟨_, _, Or.inl ⟨hm, rfl⟩, hd.atStoragePrecision.withId _, rfl, ?_⟩
    rw [IsKept, hentries]
    exact List.mem_append_right _ (List.mem_singleton_self _)
  | @replaced id b e store hm ht hb he hs =>
    refine ⟨b, hb, fun hstart hend => ?_⟩
    have hd := EventBody.event_spec hstart id
    rw [he] at hd
    obtain ⟨hid, hentries⟩ :=
      EventStore.of_update_ok (hd.isOrdinary hstart hend).atStoragePrecision hs
    rw [Event.atStoragePrecision_atStoragePrecision, Event.atStoragePrecision_id, hd.id_eq]
      at hentries
    rw [Event.atStoragePrecision_id, hd.id_eq] at hid
    obtain ⟨old, hold⟩ := EventStore.mem_ids.1 hid
    refine ⟨_, _, Or.inr ⟨hm, ht⟩, hd.atStoragePrecision, rfl, ?_⟩
    rw [IsKept, hentries, List.mem_map]
    exact ⟨_, hold, if_pos rfl⟩
  | removed hm => rcases h with ⟨hp, -⟩ | ⟨hp, -⟩ <;> rw [hm] at hp <;> cases hp

/-- What a client writes is what it reads back, on a store of either kind to which anything has come
since it was empty. The answer to an accepted request has the text of a view, which is read as what
the body says to the microsecond, with the reminder as long before the start as it says; so has
every answer to a client who asks for the event, until it is replaced or removed. A reminder that
cannot be set is refused. -/
theorem written_is_read_back (hids : ids.Injective) (k : StorageKind) (as : List (Arrival π))
    (now : Instant) (r : HttpRequest) :
    ∀ response g', answer ids now r ((opened k).after ids as) = (response, g') →
      (IsAccepted r response → ∃ b, readBody r = .ok b
        ∧ (b.startTime.IsOrdinary → b.endTime.IsOrdinary → ∃ id e v,
          (r.method = .post ∧ id = ids ((opened k).after ids as).given
            ∨ r.method = .put ∧ r.target.NamesEvent id)
          ∧ v = ⟨id, b.title, b.description, b.startTime.floorMicros, b.endTime.floorMicros,
            b.userId, b.notifyBefore⟩
          ∧ response = ⟨response.status, .json (String.ofList v.chars)⟩
          ∧ EventView.ofOctets (octetsOf (String.ofList v.chars)) = .ok v
          ∧ g'.store.get id = .ok e ∧ b.atStoragePrecision.Describes id e
          ∧ g'.Shows π ids id v))
      ∧ ∀ b n, IsWrite r → readBody r = .ok b → b.notifyBefore = some n →
        n < 0 ∨ Span.longest < Span.ofSeconds n
          ∨ b.startTime.nanos - Span.ofSeconds n < Instant.first.nanos →
        response.status = 400 ∧ g' = (opened k).after ids as := by
  intro response g' hans
  have hsound := (opened_isSound k).after hids as
  have hturn := answer_turn ids now r ((opened k).after ids as)
  rw [hans] at hturn
  constructor
  · intro haccepted
    obtain ⟨b, hb, hkept⟩ := hturn.isKept_of_accepted (hsound.next_not_mem hids) haccepted
    refine ⟨b, hb, fun hstart hend => ?_⟩
    obtain ⟨id, e, hid, hd, hresponse, hk⟩ := hkept hstart hend
    have hsound' : g'.IsSound ids := hturn.isSound hsound hids
    have hord : e.IsOrdinary := hd.isOrdinary hstart.floorMicros hend.floorMicros
    refine ⟨id, e, b.atStoragePrecision.view id, hid, rfl, ?_,
      EventView.ofOctets_payload (hd.isShowable hord),
      EventStore.get_of_mem_entries hsound'.isKeyed hk, hd,
      hk.shows hids hsound' hd hstart.floorMicros⟩
    rw [← hd.ofEvent_eq hstart.floorMicros]
    exact hresponse
  · intro b n hw hb hn hbad
    have hrefused := answer_write_of_error hw hb (EventBody.event_of_unremindable hn hbad) ids now
      ((opened k).after ids as)
    rwa [hans] at hrefused

section NewYear

open Instant

/-- Ids that can be parts of a path. -/
def letters (n : Nat) : String := String.ofList (List.replicate (n + 1) 'a')

theorem letters_injective : letters.Injective := by
  intro m n h
  simpa [letters] using congrArg String.length h

theorem letters_ne_empty (n : Nat) : letters n ≠ "" := by
  intro h
  simpa [letters] using congrArg String.length h

theorem readBody_newYear : ∃ b, readBody (newYear "60") = .ok b ∧ b.notifyBefore = some 60
    ∧ b.startTime.IsOrdinary ∧ b.endTime.IsOrdinary := by
  have hread : (readBody (newYear "60")).map (fun b => (b.notifyBefore, b.startTime, b.endTime))
      = .ok (some 60, atTime 1893456000 0, atTime 1893477600 0) := by decide +kernel
  obtain ⟨b, hb, hfields⟩ := map_eq_ok_iff.1 hread
  rw [Prod.mk.injEq, Prod.mk.injEq] at hfields
  obtain ⟨hn, hstart, hend⟩ := hfields
  exact ⟨b, hb, hn, hstart ▸ by decide, hend ▸ by decide⟩

def askParty : HttpRequest where
  method := .get
  target := .ofText "/events/a"
  mediaType := none
  body := []

theorem askParty_namesEvent : askParty.target.NamesEvent "a" :=
  ⟨octetsOf "a", by decide, by decide, by decide, Octets.text?_eq_some_iff.2 (by decide)⟩

/-- A client asks for what is not there yet, and a tick passes in a leap second. -/
def beforeParty : List (Arrival Unit) :=
  [.request beforeEpoch askParty, .tick Bench.unlucky () ⟨60, 3600⟩ (atTime 59 1500000000)]

/-- A party is entered, with a reminder so many seconds before it. -/
def party (seconds : String) : HttpResponse × Gateway EventStore :=
  answer letters beforeEpoch (newYear seconds) ((opened .database).after letters beforeParty)

/-- A client asks for the party, and another tick passes. -/
def afterParty : List (Arrival Unit) :=
  [.request beforeEpoch askParty, .tick Bench.unlucky () ⟨60, 3600⟩ (atTime 60 0)]

theorem written_is_read_back_newYear :
    letters.Injective ∧ IsAccepted (newYear "60") (party "60").1
      ∧ (party "60").2.AllSpare letters "a" afterParty
      ∧ (∃ (v : EventView) (g' : Gateway EventStore), v.notifyBefore = some 60
        ∧ EventView.ofOctets (octetsOf (String.ofList v.chars)) = .ok v
        ∧ answer letters beforeEpoch askParty ((party "60").2.after letters afterParty)
          = (⟨200, .json (String.ofList v.chars)⟩, g'))
      ∧ IsWrite (newYear "-1") ∧ (party "-1").1.status = 400 := by
  have haccepted : IsAccepted (newYear "60") (party "60").1 := by
    refine Or.inl ⟨rfl, ?_⟩
    decide +kernel
  have hspare : (party "60").2.AllSpare letters "a" afterParty := by
    refine ⟨fun h => absurd h (by decide), ?_, trivial⟩
    unfold Spares
    decide +kernel
  have hwrite : IsWrite (newYear "-1") := Or.inl ⟨rfl, by decide⟩
  obtain ⟨h, -⟩ := written_is_read_back letters_injective .database beforeParty beforeEpoch
    (newYear "60") (party "60").1 (party "60").2 Prod.mk.eta.symm
  obtain ⟨-, h'⟩ := written_is_read_back letters_injective .database beforeParty beforeEpoch
    (newYear "-1") (party "-1").1 (party "-1").2 Prod.mk.eta.symm
  refine ⟨letters_injective, haccepted, hspare, ?_, hwrite, ?_⟩
  · obtain ⟨b, hb, hshown⟩ := h haccepted
    obtain ⟨b', hb', hn, hstart, hend⟩ := readBody_newYear
    obtain rfl := Except.ok.inj (hb'.symm.trans hb)
    obtain ⟨id, e, v, ⟨-, rfl⟩ | ⟨hput, -⟩, rfl, -, hread, -, -, hshows⟩ := hshown hstart hend
    · have hgiven : letters ((opened .database).after letters beforeParty).given = "a" := by
        decide +kernel
      rw [hgiven] at hread hshows
      exact ⟨_, _, hn, hread, hshows afterParty beforeEpoch askParty hspare rfl askParty_namesEvent⟩
    · cases hput
  · have hminus : (readBody (newYear "-1")).map (·.notifyBefore) = .ok (some (-1)) := by
      decide +kernel
    obtain ⟨b, hb, hn⟩ := map_eq_ok_iff.1 hminus
    exact (h' b (-1) hwrite hb hn (Or.inl (by decide))).1

end NewYear

end Gateway

end Api

end Datebook

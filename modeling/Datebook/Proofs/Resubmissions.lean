import Datebook.Proofs.ReadBacks

/-!
# Views sent back

Whatever is stored of ordinary timestamps is what some body describes (`IsDescribed`), with its
reminder a whole number of seconds before its start, so nothing is lost when the reminder is shown
as that number. A client who sends a view back as the body of a replacement gets the same view, and
nothing changes (`resubmission_changes_nothing`), unless the view is longer than a body may be. With
its id, a view can be longer than the body from which it was made (`long_view_refused`).
-/

namespace Datebook

namespace Event

theorem atStoragePrecision_of_isWholeMicros {e : Event} (h : e.IsWholeMicros) :
    e.atStoragePrecision = e := by
  have hfloor : ∀ t : Instant, t.IsWholeMicros → t.floorMicros = t := by
    intro t ht
    unfold Instant.IsWholeMicros at ht
    simp [Instant.floorMicros, ht]
  obtain ⟨id, title, description, start, finish, user, reminder⟩ := e
  unfold atStoragePrecision
  simp only [hfloor start h.startTime, hfloor finish h.endTime]
  cases reminder with
  | none => rfl
  | some t => simp only [Option.map_some, hfloor t (h.reminderAt t rfl)]

theorem putIn_of_mem {e : Event} {es : List Event} (hn : (es.map (·.id)).Nodup) (he : e ∈ es) :
    e.putIn es = es := by
  refine (List.map_congr_left fun o ho => ?_).trans (List.map_id es)
  split_ifs with hid
  · exact (List.inj_on_of_nodup_map hn ho he hid).symm
  · rfl

end Event

/-- An event of an agenda can be stored in its own place, which changes nothing. -/
theorem EventStore.update_of_mem {k : StorageKind} {es : List Event} {e : Event} (h : IsAgenda es)
    (hes : ∀ e ∈ es, k.Fits e) (he : e ∈ es) :
    (ofEvents k es).update e = (.ok (), ofEvents k es) := by
  have hwhole := Event.atStoragePrecision_of_isWholeMicros (h.isWholeMicros e he)
  have hfree : ¬ ∃ o ∈ es, o.id ≠ e.id ∧ o.CollidesWith e := by
    rintro ⟨o, ho, hne, hc⟩
    exact hne (h.id_eq_of_collides o ho e he hc)
  rw [update_ofEvents hes (hwhole.symm ▸ hes e he), hwhole,
    Event.flaw?_eq_none_iff.2 (h.isValid e he), if_neg (not_not.2 ⟨e, he, rfl⟩), if_neg hfree,
    Event.putIn_of_mem h.ids_nodup he]

namespace Api

/-- The event is made of ordinary timestamps, as a body describes it. -/
def IsDescribed (e : Event) : Prop := e.IsOrdinary ∧ ∃ b : EventBody, b.Describes e.id e

namespace EventBody

variable {b : EventBody} {id : String} {e : Event}

theorem Describes.event_eq (h : b.Describes id e) (hs : b.startTime.IsOrdinary) :
    b.event id = .ok e := by
  have hspec := event_spec hs id
  rcases he : b.event id with fault | e' <;> rw [he] at hspec
  · exact absurd h hspec.not_describes
  · rw [hspec.unique h]

/-- The view of a described event is read as the body that describes it. -/
theorem Describes.ofOctets_eq (h : b.Describes id e) (he : e.IsOrdinary) :
    ofOctets (EventView.ofEvent e).payload = .ok b := by
  rw [h.ofEvent_eq (h.startTime_eq ▸ he.startTime)]
  exact ofOctets_view (h.isShowable he)

end EventBody

namespace Gateway

variable {π : Type} {ids : Nat → String} {g : Gateway EventStore} {k : StorageKind}

/-- Sent as the body of a replacement, the view is answered by itself, unless it is longer than a
body may be: then it is refused. Either way nothing changes. -/
def TakesBack (ids : Nat → String) (id : String) (v : EventView) (g : Gateway EventStore) : Prop :=
  ∀ (now : Instant) (r : HttpRequest), r.method = .put → r.target.NamesEvent id →
    (∃ t ∈ r.mediaType, isJsonType t = true) → r.body = octetsOf (String.ofList v.chars) →
    answer ids now r g = (if r.body.length ≤ bodyLimit then ⟨200, .json (String.ofList v.chars)⟩
      else .ofError .tooLong, g)

/-- The store keeps an agenda of described events. -/
structure IsOrderly (k : StorageKind) (g : Gateway EventStore) : Prop where
  keeps : g.store.Keeps k
  isDescribed : ∀ i e, (i, .ok e) ∈ g.store.entries → IsDescribed e

theorem IsOrderly.takesBack (h : g.IsOrderly k) {id : String} {e : Event}
    (he : (id, .ok e) ∈ g.store.entries) : g.TakesBack ids id (EventView.ofEvent e) := by
  obtain ⟨es, hstore, ha, hes⟩ := h.keeps
  obtain ⟨hord, b, hb⟩ := h.isDescribed id e he
  have hmem : e ∈ es ∧ e.id = id := by
    have hholds : g.store.Holds es := EventStore.holds_iff.2 ⟨k, hstore, hes⟩
    rw [hholds, List.mem_map] at he
    obtain ⟨o, ho, heq⟩ := he
    cases heq
    exact ⟨ho, rfl⟩
  obtain ⟨hmem, rfl⟩ := hmem
  intro now r hm ht hjson hbody
  obtain ⟨part, hroute, hid⟩ := ht.exists_route
  split_ifs with hlength
  · have hread : readBody r = .ok b :=
      readBody_eq_ok_iff.2 ⟨hjson, hlength, hbody ▸ hb.ofOctets_eq hord⟩
    -- The body describes the stored event, which is put where it is.
    have hevent : b.event e.id = .ok e := hb.event_eq (hb.startTime_eq ▸ hord.startTime)
    have hupdate : g.store.update e = (.ok (), g.store) := by
      rw [hstore, EventStore.update_of_mem ha hes hmem]
    simp only [answer, route, hroute, hid, onEvent, hm, replace, hread, hevent,
      Event.atStoragePrecision_of_isWholeMicros (ha.isWholeMicros e hmem), EventStore.calls_update,
      hupdate, reduceCtorEq, if_false]
    rfl
  · simp only [answer, route, hroute, hid, onEvent, hm, replace,
      readBody_of_tooLong hjson (Nat.lt_of_not_le hlength), respond, reduceCtorEq, if_false]

/-- What the request describes, if it can be read, has no instant in a leap second. -/
def HasOrdinaryBody (r : HttpRequest) : Prop :=
  ∀ b, readBody r = .ok b → b.startTime.IsOrdinary ∧ b.endTime.IsOrdinary

theorem Turn.isOrderly {now : Instant} {r : HttpRequest}
    {result : HttpResponse × Gateway EventStore} (hturn : Turn ids now r g result)
    (h : g.IsOrderly k) (hnew : ids g.given ∉ g.store.ids)
    (hne : ids g.given ≠ "") (hr : HasOrdinaryBody r) : result.2.IsOrderly k := by
  cases hturn with
  | idle => exact h
  | @created b e a store _ hb he hs =>
    obtain ⟨hstart, hend⟩ := hr b hb
    have hd := EventBody.event_spec hstart ""
    rw [he] at hd
    have hord := hd.isOrdinary hstart hend
    obtain ⟨rfl, hentries⟩ := EventStore.of_create_ok hnew hord hs
    have hkeeps : (g.store.call (.create ⟨ids g.given, hne⟩ e)).2.Keeps k :=
      EventStore.call_keeps h.keeps hnew fun _ e' he' => Option.some.inj he' ▸ hord
    rw [EventStore.call_create, hs] at hkeeps
    refine ⟨hkeeps, fun i o hmem => ?_⟩
    rw [hentries, List.mem_append, List.mem_singleton] at hmem
    rcases hmem with hmem | hmem
    · exact h.isDescribed i o hmem
    · cases hmem
      have := hord.atStoragePrecision
      exact ⟨⟨this.startTime, this.endTime, this.reminderAt⟩, _, hd.atStoragePrecision.withId _⟩
  | @replaced id b e store _ _ hb he hs =>
    obtain ⟨hstart, hend⟩ := hr b hb
    have hd := EventBody.event_spec hstart id
    rw [he] at hd
    have hord := (hd.isOrdinary hstart hend).atStoragePrecision
    obtain ⟨-, hentries⟩ := EventStore.of_update_ok hord hs
    have hkeeps : (g.store.call (.update e.atStoragePrecision)).2.Keeps k :=
      EventStore.call_keeps h.keeps trivial fun _ e' he' => Option.some.inj he' ▸ hord
    rw [EventStore.call_update, hs] at hkeeps
    refine ⟨hkeeps, fun i o hmem => ?_⟩
    rw [hentries, List.mem_map] at hmem
    obtain ⟨p, hp, hpo⟩ := hmem
    split_ifs at hpo
    · cases hpo
      rw [Event.atStoragePrecision_atStoragePrecision]
      exact ⟨hord, _, hd.id_eq.symm ▸ hd.atStoragePrecision⟩
    · exact h.isDescribed i o (hpo ▸ hp)
  | @removed id store _ _ hs =>
    have hkeeps : (g.store.call (.delete id)).2.Keeps k :=
      EventStore.call_keeps h.keeps trivial fun _ e' he' => nomatch he'
    obtain rfl := congrArg Prod.snd hs
    refine ⟨hkeeps, fun i o hmem => ?_⟩
    rw [EventStore.entries_delete] at hmem
    exact h.isDescribed i o (List.mem_filter.1 hmem).1

end Gateway

def Arrival.IsOrdinary {π : Type} : Arrival π → Prop
  | .request _ r => Gateway.HasOrdinaryBody r
  | .tick _ _ _ _ => True

namespace Gateway

variable {π : Type} {ids : Nat → String} {g : Gateway EventStore} {k : StorageKind}

theorem IsOrderly.receive (h : g.IsOrderly k) (hg : g.IsSound ids) (hids : ids.Injective)
    (hne : ∀ n, ids n ≠ "") {a : Arrival π} (ha : a.IsOrdinary) :
    (g.receive ids a).IsOrderly k := by
  cases a with
  | request now r =>
    exact (answer_turn ids now r g).isOrderly h (hg.next_not_mem hids) (hne g.given) ha
  | tick c producer s now =>
    have hsub := (Bench.new g.store producer).tick_sublist c s now
    exact ⟨Bench.tick_keeps c s now h.keeps, fun i e he => h.isDescribed i e (hsub.subset he)⟩

theorem IsOrderly.after (hids : ids.Injective) (hne : ∀ n, ids n ≠ "") :
    ∀ (as : List (Arrival π)) {g : Gateway EventStore}, g.IsOrderly k → g.IsSound ids →
      (∀ a ∈ as, a.IsOrdinary) → (g.after ids as).IsOrderly k
  | [], _, h, _, _ => h
  | a :: as, _, h, hg, has =>
    IsOrderly.after hids hne as (h.receive hg hids hne (has a (by simp))) (hg.receive hids a)
      fun a' ha' => has a' (List.mem_cons_of_mem a ha')

theorem opened_isOrderly (k : StorageKind) : (opened k).IsOrderly k := by
  have hids : ∀ i, i ∉ (opened k).store.ids := by simp [opened]
  exact ⟨EventStore.keeps_empty k, fun i e he => absurd (EventStore.mem_ids.2 ⟨_, he⟩) (hids i)⟩

/-- A client who asks for all events and is not refused is shown events that are kept. -/
theorem answer_list_of_ok {now : Instant} {r : HttpRequest} (h : g.IsSound ids)
    (hm : r.method = .get) (hp : r.target.path = octetsOf "/events")
    (hs : (answer ids now r g).1.status = 200) :
    ∃ shown, answer ids now r g = (.ofEvents shown, g)
      ∧ ∀ e ∈ shown, (e.id, .ok e) ∈ g.store.entries := by
  rw [answer_events hm hp] at hs ⊢
  obtain ⟨err, hlist⟩ | ⟨start, finish, l, shown, hl, hperm, hlist⟩ := g.list_fails_or now r
  · rw [hlist] at hs
    have hle : 400 ≤ 200 := hs ▸ le_status err
    exact absurd hle (by decide)
  · rw [hlist]
    refine ⟨shown, rfl, fun e he => ?_⟩
    exact ((EventStore.mem_entries_of_list h.isKeyed hl).2 e (hperm.mem_iff.1 he)).1

/-- Every view of a stored event is taken back, that of the event alone and that in a list. -/
structure TakesBackViews (ids : Nat → String) (g : Gateway EventStore) : Prop where
  of_get : ∀ id ∈ g.store.ids, ∃ v,
    (∀ now r, r.method = .get → r.target.NamesEvent id →
      answer ids now r g = (⟨200, .json (String.ofList v.chars)⟩, g)) ∧ g.TakesBack ids id v
  of_list : ∀ now r response g', r.method = .get → r.target.path = octetsOf "/events" →
    answer ids now r g = (response, g') → response.status = 200 →
    ∃ shown, response = .ofEvents shown ∧ g' = g
      ∧ ∀ e ∈ shown, g.TakesBack ids e.id (EventView.ofEvent e)

theorem IsOrderly.takesBackViews (h : g.IsOrderly k) (hg : g.IsSound ids) :
    g.TakesBackViews ids := by
  constructor
  · intro id hid
    obtain ⟨es, hs, -, hes⟩ := h.keeps
    have hholds : g.store.Holds es := EventStore.holds_iff.2 ⟨k, hs, hes⟩
    obtain ⟨e, he⟩ : ∃ e, (id, .ok e) ∈ g.store.entries := by
      obtain ⟨row, hrow⟩ := EventStore.mem_ids.1 hid
      rw [hholds, List.mem_map] at hrow
      obtain ⟨e, he, heq⟩ := hrow
      cases heq
      exact ⟨e, hholds ▸ List.mem_map_of_mem he⟩
    have hk : g.IsKept id e := he
    exact ⟨_, fun now r hm ht => hk.answer_get hg hm ht, h.takesBack he⟩
  · intro now r response g' hm hp hans hstatus
    obtain ⟨shown, hshown, hmem⟩ := answer_list_of_ok hg hm hp (by rw [hans]; exact hstatus)
    rw [hans] at hshown
    cases hshown
    exact ⟨shown, rfl, rfl, fun e he => h.takesBack (hmem e he)⟩

/-- Whatever came to the store since it was empty, of either kind, a client who sends back what it
was shown of a stored event is answered by just that, if it is not too long to be read, and in any
case the store is as it was. -/
theorem resubmission_changes_nothing (hids : ids.Injective) (hne : ∀ n, ids n ≠ "")
    (k : StorageKind) (as : List (Arrival π)) (has : ∀ a ∈ as, a.IsOrdinary) :
    ((opened k).after ids as).TakesBackViews ids :=
  (IsOrderly.after hids hne as (opened_isOrderly k) (opened_isSound k) has).takesBackViews
    ((opened_isSound k).after hids as)

section NewYear

/-- A party is entered, with a reminder a minute before it, and a tick passes. -/
def partyArrivals : List (Arrival Unit) :=
  .request Instant.beforeEpoch (newYear "60") :: afterParty

/-- A request that sends a view of the party back. -/
def sendBack (v : EventView) : HttpRequest :=
  ⟨.put, .ofText "/events/a", some "application/json", v.payload⟩

theorem isJsonType_json : isJsonType "application/json" = true := by decide +kernel

theorem sendBack_isJson (v : EventView) :
    ∃ t ∈ (sendBack v).mediaType, isJsonType t = true :=
  ⟨"application/json", rfl, isJsonType_json⟩

theorem sendBack_body (v : EventView) :
    (sendBack v).body = octetsOf (String.ofList v.chars) := by
  simp only [sendBack, EventView.payload]

theorem sendBack_namesEvent (v : EventView) : (sendBack v).target.NamesEvent "a" :=
  askParty_namesEvent

/-- The party as it is stored. -/
def newYearParty : Event :=
  ⟨"a", "Party", "", .atTime 1893456000 0, .atTime 1893477600 0, "ada",
    some (.atTime 1893455940 0)⟩

theorem resubmission_changes_nothing_newYear :
    letters.Injective ∧ (∀ n, letters n ≠ "") ∧ (∀ a ∈ partyArrivals, a.IsOrdinary)
      ∧ ∃ v, (∃ g', answer letters Instant.beforeEpoch askParty
          ((opened .database).after letters partyArrivals)
            = (⟨200, .json (String.ofList v.chars)⟩, g'))
        ∧ ((opened .database).after letters partyArrivals).TakesBack letters "a" v
        ∧ answer letters Instant.beforeEpoch (sendBack v)
            ((opened .database).after letters partyArrivals)
          = (⟨200, .json (String.ofList v.chars)⟩,
            (opened .database).after letters partyArrivals) := by
  have hparty : HasOrdinaryBody (newYear "60") := by
    obtain ⟨b', hb', -, hord⟩ := readBody_newYear
    intro b hb
    obtain rfl := Except.ok.inj (hb'.symm.trans hb)
    exact hord
  have hask : HasOrdinaryBody askParty := by
    intro b hb
    cases hb
  have has : ∀ a ∈ partyArrivals, a.IsOrdinary := by
    intro a ha
    simp only [partyArrivals, afterParty, List.mem_cons, List.not_mem_nil, or_false] at ha
    rcases ha with rfl | rfl | rfl
    · exact hparty
    · exact hask
    · trivial
  have hkept : ((opened .database).after letters partyArrivals).IsKept "a" newYearParty := by
    unfold IsKept
    decide +kernel
  obtain ⟨v, hv, hback⟩ :=
    (resubmission_changes_nothing letters_injective letters_ne_empty .database partyArrivals
      has).of_get "a" (EventStore.mem_ids.2 ⟨_, hkept⟩)
  have hshown := hv Instant.beforeEpoch askParty rfl askParty_namesEvent
  have hsound := (opened_isSound .database).after letters_injective partyArrivals
  have hview : String.ofList v.chars = String.ofList (EventView.ofEvent newYearParty).chars := by
    rw [hkept.answer_get hsound rfl askParty_namesEvent] at hshown
    simpa [HttpResponse.ofEvent] using hshown.symm
  have hshort : (octetsOf (String.ofList (EventView.ofEvent newYearParty).chars)).length
      ≤ bodyLimit := by
    decide +kernel
  refine ⟨letters_injective, letters_ne_empty, has, v, ⟨_, hshown⟩, hback, ?_⟩
  rw [hback _ _ rfl (sendBack_namesEvent v) (sendBack_isJson v) (sendBack_body v),
    sendBack_body, hview, if_pos hshort]

end NewYear

section LongParty

open Instant

/-- A party that is described so, as 2030 begins. -/
def partyBody (d : String) : EventBody :=
  ⟨"Party", d, atTime 1893456000 0, atTime 1893456000 0, "ada", none⟩

def partyEvent (d id : String) : Event :=
  ⟨id, "Party", d, atTime 1893456000 0, atTime 1893456000 0, "ada", none⟩

/-- A request to make the party, in which an id is passed over. -/
def makeParty (d : String) : HttpRequest :=
  ⟨.post, .ofText "/events", some "application/json", ((partyBody d).view "").payload⟩

/-- Without an id and a description the view of the party has 128 octets. -/
theorem length_partyView (d id : String) : ((partyBody d).view id).payload.length
    = 128 + (Json.encoded (id.toList.flatMap Json.escapeChar)).length
      + (Json.encoded (d.toList.flatMap Json.escapeChar)).length := by
  have hrest : ((partyBody "").view "").payload.length = 128 := by decide +kernel
  have hview : { (partyBody d).view id with id := "", description := "" }
      = (partyBody "").view "" := rfl
  rw [EventView.length_payload, hview, hrest]
  rfl

theorem isOrdinary_partyStart : (atTime 1893456000 0).IsOrdinary := by decide

theorem isShowable_partyView (d id : String) : ((partyBody d).view id).IsShowable := by
  have h : (atTime 1893456000 0).HasText := hasText_iff.2 (.inl isOrdinary_partyStart)
  exact ⟨h, h, nofun⟩

theorem fits_partyEvent (k : StorageKind) (d id : String) : k.Fits (partyEvent d id) := by
  have hord : (partyEvent d id).IsOrdinary :=
    ⟨isOrdinary_partyStart, isOrdinary_partyStart, by simp [partyEvent]⟩
  have h : k.Fits (partyEvent d id).atStoragePrecision :=
    StorageKind.fits_atStoragePrecision fun _ => hord
  exact h

theorem create_partyEvent (k : StorageKind) (d : String) :
    (EventStore.empty k).create "a" (partyEvent d "")
      = (.ok (partyEvent d "a"), .ofEvents k [partyEvent d "a"]) := by
  have htitle : isBlank "Party" = false := by decide +kernel
  have huser : isBlank "ada" = false := by decide +kernel
  have hvalid : (partyEvent d "").IsValid :=
    ⟨htitle, huser, Instant.le_refl _, by simp [partyEvent]⟩
  have hwhole : (partyEvent d "").atStoragePrecision = partyEvent d "" := rfl
  rw [← EventStore.ofEvents_nil, EventStore.create_ofEvents (by simp) (by simp)
    (hwhole ▸ fits_partyEvent k d ""), hwhole, Event.flaw?_eq_none_iff.2 hvalid]
  simp [partyEvent]

variable {d : String}

theorem readBody_makeParty (h : (makeParty d).body.length ≤ bodyLimit) :
    readBody (makeParty d) = .ok (partyBody d) := by
  have hjson : ∃ t ∈ (makeParty d).mediaType, isJsonType t = true :=
    ⟨"application/json", rfl, isJsonType_json⟩
  refine readBody_eq_ok_iff.2 ⟨hjson, h, ?_⟩
  simp only [makeParty]
  exact EventBody.ofOctets_view (isShowable_partyView d "")

theorem answer_makeParty (h : (makeParty d).body.length ≤ bodyLimit) (k : StorageKind) :
    answer letters beforeEpoch (makeParty d) (opened k)
      = (.ofEvent 201 (partyEvent d "a"), ⟨.ofEvents k [partyEvent d "a"], 1⟩) := by
  have hpath : Target.path (.ofText "/events") = octetsOf "/events" := by decide
  have hlater : ¬ (partyBody d).startTime ≤ beforeEpoch :=
    show ¬ atTime 1893456000 0 ≤ beforeEpoch by decide
  have hevent : (partyBody d).event "" = .ok (partyEvent d "") := rfl
  have hid : letters 0 = "a" := by decide
  rw [answer_post_events rfl hpath]
  simp only [create, readBody_makeParty h, if_neg hlater, hevent, opened, hid,
    EventStore.calls_create, create_partyEvent, respond]

/-- The party is made. -/
def partyMade (d : String) : List (Arrival Unit) := [.request beforeEpoch (makeParty d)]

theorem partyMade_isOrdinary (h : (makeParty d).body.length ≤ bodyLimit) :
    ∀ a ∈ partyMade d, a.IsOrdinary := by
  intro a ha
  obtain rfl := List.mem_singleton.1 ha
  intro b hb
  rw [readBody_makeParty h] at hb
  cases hb
  exact ⟨isOrdinary_partyStart, isOrdinary_partyStart⟩

theorem partyMade_isKept (h : (makeParty d).body.length ≤ bodyLimit) (k : StorageKind) :
    ((opened k).after letters (partyMade d)).IsKept "a" (partyEvent d "a") := by
  have hreached : (opened k).after letters (partyMade d) = ⟨.ofEvents k [partyEvent d "a"], 1⟩ :=
    congrArg Prod.snd (answer_makeParty h k)
  have hholds : (EventStore.ofEvents k [partyEvent d "a"]).Holds [partyEvent d "a"] :=
    EventStore.holds_iff.2
      ⟨k, rfl, fun e he => List.mem_singleton.1 he ▸ fits_partyEvent k d "a"⟩
  rw [IsKept, hreached, hholds]
  exact List.mem_singleton_self _

/-- If there is room for the view without its id, but not with it, the party is made and shown, and
what is shown is not taken back. -/
theorem party_not_taken_back (h : (makeParty d).body.length ≤ bodyLimit)
    (hview : bodyLimit < ((partyBody d).view "a").payload.length) (k : StorageKind) :
    ∃ v : EventView, answer letters beforeEpoch askParty ((opened k).after letters (partyMade d))
        = (⟨200, .json (String.ofList v.chars)⟩, (opened k).after letters (partyMade d))
      ∧ answer letters beforeEpoch (sendBack v) ((opened k).after letters (partyMade d))
        = (.ofError .tooLong, (opened k).after letters (partyMade d)) := by
  have hkept := partyMade_isKept h k
  have hsound := (opened_isSound k).after letters_injective (partyMade d)
  have horderly := IsOrderly.after letters_injective letters_ne_empty (partyMade d)
    (opened_isOrderly k) (opened_isSound k) (partyMade_isOrdinary h)
  have hshown : EventView.ofEvent (partyEvent d "a") = (partyBody d).view "a" := rfl
  refine ⟨.ofEvent (partyEvent d "a"), hkept.answer_get hsound rfl askParty_namesEvent, ?_⟩
  rw [horderly.takesBack hkept _ _ rfl (sendBack_namesEvent _) (sendBack_isJson _)
    (sendBack_body _), hshown, sendBack, if_neg (Nat.not_le.2 hview)]

/-- A text of so many letters. -/
def drawl (n : Nat) : String := String.ofList (List.replicate n 'a')

theorem length_drawl (n : Nat) :
    (Json.encoded ((drawl n).toList.flatMap Json.escapeChar)).length = n := by
  have hchar : Json.encoded (Json.escapeChar 'a') = [0x61] := by decide
  rw [drawl, String.toList_ofList]
  induction n with
  | zero => rfl
  | succ n ih =>
    rw [List.replicate_succ, List.flatMap_cons, Json.encoded_append, hchar, List.length_append, ih]
    exact Nat.add_comm 1 n

/-- A party whose description fills the request to make it up to the limit is made and shown, on
stores of either kind, but the view of it has its id too and is refused. -/
theorem long_view_refused :
    (∀ a ∈ partyMade (drawl 2097024), a.IsOrdinary) ∧ ∀ k ∈ [StorageKind.memory, .database],
      ∃ v : EventView, answer letters beforeEpoch askParty
            ((opened k).after letters (partyMade (drawl 2097024)))
          = (⟨200, .json (String.ofList v.chars)⟩,
            (opened k).after letters (partyMade (drawl 2097024)))
        ∧ (answer letters beforeEpoch (sendBack v)
          ((opened k).after letters (partyMade (drawl 2097024)))).1.status = 400 := by
  have hmake : (makeParty (drawl 2097024)).body.length ≤ bodyLimit := by
    simp only [makeParty, length_partyView, length_drawl]
    decide
  have hview : bodyLimit < ((partyBody (drawl 2097024)).view "a").payload.length := by
    simp only [length_partyView, length_drawl]
    decide
  refine ⟨partyMade_isOrdinary hmake, fun k _ => ?_⟩
  obtain ⟨v, hshown, hrefused⟩ := party_not_taken_back hmake hview k
  refine ⟨v, hshown, ?_⟩
  rw [hrefused]
  rfl

end LongParty

end Gateway

end Api

end Datebook

import Datebook.Proofs.Requests
import Datebook.Proofs.Rounds

/-!
# What a gateway goes through

A request leaves the events as they are, or it makes one, puts one in the place of another or takes
one away (`answer_turn`). Between requests the scheduler ticks at the same store. Whatever arrives
at a gateway that was opened on an empty store, no id is there twice or was not given
(`IsSound.after`), and what is kept under an id is kept until a request for that id succeeds or a
tick removes it (`IsKept.after`).
-/

namespace Datebook

namespace Octets

variable {mark : UInt8}

theorem partsBetween_ne_nil : ∀ s : Octets, s.partsBetween mark ≠ []
  | [] => by simp [partsBetween]
  | b :: s => by
    unfold partsBetween
    split_ifs
    · simp
    · split <;> simp

/-- The first part, and the marks and parts that follow it, are the text. -/
theorem of_partsBetween_eq_cons : ∀ {s p : Octets} {ps : List Octets},
    s.partsBetween mark = p :: ps → mark ∉ p
      ∧ (ps = [] ∧ s = p ∨ ∃ s', s = p ++ mark :: s' ∧ partsBetween mark s' = ps)
  | [], p, ps, h => by
    cases h
    simp
  | b :: s, p, ps, h => by
    unfold partsBetween at h
    split_ifs at h with hb
    · cases h
      exact ⟨by simp, Or.inr ⟨s, by simp [hb], rfl⟩⟩
    · rcases hs : partsBetween mark s with _ | ⟨q, qs⟩
      · exact absurd hs (partsBetween_ne_nil s)
      · rw [hs] at h
        cases h
        obtain ⟨hq, hrest⟩ := of_partsBetween_eq_cons hs
        refine ⟨by simp [hq, Ne.symm hb], hrest.imp ?_ ?_⟩
        · rintro ⟨rfl, rfl⟩
          exact ⟨rfl, rfl⟩
        · rintro ⟨s', rfl, hs'⟩
          exact ⟨s', rfl, hs'⟩

theorem of_partsBetween_eq_pair {s p q : Octets} (h : s.partsBetween mark = [p, q]) :
    mark ∉ q ∧ s = p ++ mark :: q := by
  obtain ⟨-, ⟨hnil, -⟩ | ⟨s', rfl, hs'⟩⟩ := of_partsBetween_eq_cons h
  · cases hnil
  · obtain ⟨hq, ⟨-, rfl⟩ | ⟨s'', -, hs''⟩⟩ := of_partsBetween_eq_cons hs'
    · exact ⟨hq, rfl⟩
    · exact absurd hs'' (partsBetween_ne_nil s'')

end Octets

namespace EventStore

variable (s : EventStore) (id : String)

theorem create_fails_or (e : Event) : (∃ err, s.create id e = (.error err, s))
    ∨ ∃ a store, s.create id e = (.ok a, store) := by
  rcases hs : s.create id e with ⟨err | a, store⟩
  · obtain rfl : s = store :=
      (create_of_error (congrArg Prod.fst hs)).symm.trans (congrArg Prod.snd hs)
    exact Or.inl ⟨err, rfl⟩
  · exact Or.inr ⟨a, store, rfl⟩

theorem update_fails_or (e : Event) : (∃ err, s.update e = (.error err, s))
    ∨ ∃ store, s.update e = (.ok (), store) := by
  rcases hs : s.update e with ⟨err | u, store⟩
  · obtain rfl : s = store :=
      (update_of_error (congrArg Prod.fst hs)).symm.trans (congrArg Prod.snd hs)
    exact Or.inl ⟨err, rfl⟩
  · exact Or.inr ⟨store, rfl⟩

theorem delete_fails_or : (∃ err, s.delete id = (.error err, s))
    ∨ ∃ store, s.delete id = (.ok (), store) := by
  rcases hs : s.delete id with ⟨err | u, store⟩
  · obtain rfl : s = store :=
      (delete_of_error (congrArg Prod.fst hs)).symm.trans (congrArg Prod.snd hs)
    exact Or.inl ⟨err, rfl⟩
  · exact Or.inr ⟨store, rfl⟩

end EventStore

namespace Api

theorem EventBody.event_id {b : EventBody} {id : String} {e : Event} (h : b.event id = .ok e) :
    e.id = id := by
  unfold event at h
  rw [bind_eq_ok_iff] at h
  obtain ⟨t, -, h⟩ := h
  cases h
  rfl

theorem route_of_path_events {path : Octets} (h : path = octetsOf "/events") :
    Route.ofPath? path = some .events := by
  rw [h]
  decide

theorem Target.namesEvent_of_route {t : Target} {part : Octets} {id : String}
    (h : Route.ofPath? t.path = some (.event part)) (hid : part.percentDecode.text? = some id) :
    t.NamesEvent id := by
  unfold Route.ofPath? at h
  split at h
  · split_ifs at h <;> cases h
  · rename_i part' part hparts
    split_ifs at h with hpart
    cases h
    obtain ⟨rfl, hne⟩ := hpart
    obtain ⟨-, ⟨hnil, -⟩ | ⟨s, hpath, hs⟩⟩ := Octets.of_partsBetween_eq_cons hparts
    · cases hnil
    · obtain ⟨hslash, rfl⟩ := Octets.of_partsBetween_eq_pair hs
      exact ⟨_, hne, hslash, hpath, hid⟩
  · cases h

/-! ## Requests -/

namespace Gateway

variable {ids : Nat → String} {now : Instant} {r : HttpRequest} {g : Gateway EventStore}

/-- What a request can lead to: the answer, and the gateway afterwards. -/
inductive Turn (ids : Nat → String) (now : Instant) (r : HttpRequest) (g : Gateway EventStore) :
    HttpResponse × Gateway EventStore → Prop
  | idle {response : HttpResponse}
      (h : r.method = .get ∨ r.method = .head ∨ 400 ≤ response.status) :
      Turn ids now r g (response, g)
  | created {b : EventBody} {e a : Event} {store : EventStore} (hm : r.method = .post)
      (hb : readBody r = .ok b) (he : b.event "" = .ok e)
      (hs : g.store.create (ids g.given) e = (.ok a, store)) :
      Turn ids now r g (.ofEvent 201 a, ⟨store, g.given + 1⟩)
  | replaced {id : String} {b : EventBody} {e : Event} {store : EventStore} (hm : r.method = .put)
      (ht : r.target.NamesEvent id) (hb : readBody r = .ok b) (he : b.event id = .ok e)
      (hs : g.store.update e.atStoragePrecision = (.ok (), store)) :
      Turn ids now r g (.ofEvent 200 e.atStoragePrecision, { g with store })
  | removed {id : String} {store : EventStore} (hm : r.method = .delete)
      (ht : r.target.NamesEvent id) (hs : g.store.delete id = (.ok (), store)) :
      Turn ids now r g (.bare 204, { g with store })

theorem le_status (e : ApiError) : 400 ≤ e.status := by
  unfold ApiError.status
  split <;> decide

theorem Turn.refused (err : ApiError) : Turn ids now r g (.ofError err, g) :=
  .idle (Or.inr (Or.inr (le_status err)))

theorem Turn.bare {status : Nat} (h : 400 ≤ status) : Turn ids now r g (.bare status, g) :=
  .idle (Or.inr (Or.inr h))

theorem create_turn (hm : r.method = .post) :
    Turn ids now r g (respond (.ofEvent 201) (create ids now r g)) := by
  unfold create
  rcases hb : readBody r with err | b
  · exact .refused err
  by_cases ht : b.startTime ≤ now
  · simp only [if_pos ht]
    exact .refused .startsTooEarly
  simp only [if_neg ht]
  rcases he : b.event "" with fault | e
  · exact .refused (.notify fault)
  obtain ⟨err, hs⟩ | ⟨a, store, hs⟩ := g.store.create_fails_or (ids g.given) e
  · simp only [EventStore.calls_create, hs]
    exact .refused (.store err)
  · simp only [EventStore.calls_create, hs]
    exact .created hm hb he hs

theorem replace_turn (hm : r.method = .put) {id : String} (ht : r.target.NamesEvent id) :
    Turn ids now r g (respond (.ofEvent 200) (replace id r g)) := by
  unfold replace
  rcases hb : readBody r with err | b
  · exact .refused err
  rcases he : b.event id with fault | e
  · simp only [he]
    exact .refused (.notify fault)
  simp only [he]
  obtain ⟨err, hs⟩ | ⟨store, hs⟩ := g.store.update_fails_or e.atStoragePrecision
  · simp only [EventStore.calls_update, hs]
    exact .refused (.store err)
  · simp only [EventStore.calls_update, hs]
    exact .replaced hm ht hb he hs

theorem delete_turn (hm : r.method = .delete) {id : String} (ht : r.target.NamesEvent id) :
    Turn ids now r g (respond (fun _ => .bare 204) (delete id g)) := by
  unfold delete
  obtain ⟨err, hs⟩ | ⟨store, hs⟩ := g.store.delete_fails_or id
  · simp only [EventStore.calls_delete, hs]
    exact .refused (.store err)
  · simp only [EventStore.calls_delete, hs]
    exact .removed hm ht hs

theorem Turn.shown {α : Type} (h : r.method = .get ∨ r.method = .head) (f : α → HttpResponse)
    (result : Except ApiError α) : Turn ids now r g (respond f (result, g)) := by
  cases result with
  | error err => exact .idle (Or.inr (Or.inr (le_status err)))
  | ok a => exact .idle (or_assoc.1 (Or.inl h))

theorem list_fails_or (g : Gateway EventStore) (now : Instant) (r : HttpRequest) :
    (∃ err, g.list now r = (.error err, g))
      ∨ ∃ start finish l shown, g.store.list start finish = .ok l ∧ shown.Perm l
        ∧ g.list now r = (.ok shown, g) := by
  unfold list
  rcases Bounds.ofQuery? r.target.query with _ | bounds
  · exact Or.inl ⟨_, rfl⟩
  simp only [EventStore.calls_list]
  split_ifs
  · exact Or.inl ⟨_, rfl⟩
  rcases hl : g.store.list (window now bounds).1 (window now bounds).2 with err | l
  · exact Or.inl ⟨_, rfl⟩
  · exact Or.inr ⟨_, _, l, _, hl, List.mergeSort_perm _ _, rfl⟩

theorem onEvents_turn : Turn ids now r g (onEvents ids now r g) := by
  have hlist : r.method = .get ∨ r.method = .head →
      Turn ids now r g (respond .ofEvents (g.list now r)) := by
    intro h
    obtain ⟨err, hl⟩ | ⟨_, _, _, shown, -, -, hl⟩ := g.list_fails_or now r
    · rw [hl]
      exact .shown h .ofEvents _
    · rw [hl]
      exact .shown h .ofEvents _
  unfold onEvents
  rcases hm : r.method
  · exact hlist (Or.inl hm)
  · exact hlist (Or.inr hm)
  · exact create_turn hm
  · exact .bare (by decide)
  · exact .bare (by decide)
  · exact .bare (by decide)

theorem onEvent_turn {id : String} (ht : r.target.NamesEvent id) :
    Turn ids now r g (onEvent id r g) := by
  unfold onEvent
  rcases hm : r.method
  · exact .shown (Or.inl hm) (.ofEvent 200) (g.get id)
  · exact .shown (Or.inr hm) (.ofEvent 200) (g.get id)
  · exact .bare (by decide)
  · exact replace_turn hm ht
  · exact delete_turn hm ht
  · exact .bare (by decide)

theorem route_turn : Turn ids now r g (route ids now r g) := by
  unfold route
  split
  · exact .bare (by decide)
  · split_ifs with hm
    · exact .idle (or_assoc.1 (Or.inl hm))
    · exact .bare (by decide)
  · exact onEvents_turn
  · rename_i part hroute
    split
    · rename_i id hid
      exact onEvent_turn (Target.namesEvent_of_route hroute hid)
    · split_ifs
      · exact .bare (by decide)
      · exact .idle (Or.inr (Or.inr (by decide)))

/-- Whatever is asked, it is one of these. -/
theorem answer_turn (ids : Nat → String) (now : Instant) (r : HttpRequest)
    (g : Gateway EventStore) : Turn ids now r g (answer ids now r g) := by
  unfold answer
  have h : Turn ids now r g (route ids now r g) := route_turn
  generalize route ids now r g = result at h
  -- Only a request with another method can change the events, so nothing is lost with the content.
  by_cases hm : r.method = .head
  · simp only [if_pos hm]
    cases h with
    | idle => exact .idle (Or.inr (Or.inl hm))
    | created hm' => exact absurd (hm.symm.trans hm') (by decide)
    | replaced hm' => exact absurd (hm.symm.trans hm') (by decide)
    | removed hm' => exact absurd (hm.symm.trans hm') (by decide)
  · simpa only [if_neg hm] using h

theorem answer_events (hm : r.method = .get) (hp : r.target.path = octetsOf "/events") :
    answer ids now r g = respond .ofEvents (g.list now r) := by
  simp only [answer, route, route_of_path_events hp, onEvents, hm, reduceCtorEq, if_false]

theorem answer_post_events (hm : r.method = .post) (hp : r.target.path = octetsOf "/events") :
    answer ids now r g = respond (.ofEvent 201) (g.create ids now r) := by
  simp only [answer, route, route_of_path_events hp, onEvents, hm, reduceCtorEq, if_false]

end Gateway

/-! ## Arrivals -/

/-- What comes to a gateway: a request, or a tick of the scheduler at the same store. -/
inductive Arrival (π : Type)
  | request (now : Instant) (r : HttpRequest)
  | tick (c : Conditions π) (producer : π) (s : SchedulerSettings) (now : Instant)

namespace Gateway

variable {π : Type} {ids : Nat → String} {g : Gateway EventStore}

def receive (ids : Nat → String) (g : Gateway EventStore) : Arrival π → Gateway EventStore
  | .request now r => (answer ids now r g).2
  | .tick c producer s now =>
    { g with store := ((Bench.new g.store producer).tick c s now).2.store }

/-- The gateway when all of this has come to it. -/
def after (ids : Nat → String) (g : Gateway EventStore) : List (Arrival π) → Gateway EventStore
  | [] => g
  | a :: as => (g.receive ids a).after ids as

/-- A gateway over an empty store. -/
def opened (k : StorageKind) : Gateway EventStore := ⟨.empty k, 0⟩

/-- Nothing is kept twice under an id, or under one that was not given. -/
structure IsSound (ids : Nat → String) (g : Gateway EventStore) : Prop where
  isKeyed : g.store.IsKeyed
  exists_given : ∀ i ∈ g.store.ids, ∃ n < g.given, ids n = i

theorem opened_isSound (k : StorageKind) : (opened k).IsSound ids :=
  ⟨EventStore.isKeyed_empty k, by simp [opened]⟩

theorem IsSound.next_not_mem (h : g.IsSound ids) (hids : ids.Injective) :
    ids g.given ∉ g.store.ids := by
  intro hmem
  obtain ⟨n, hn, heq⟩ := h.exists_given _ hmem
  exact absurd (hids heq) (Nat.ne_of_lt hn)

theorem Turn.isSound {now : Instant} {r : HttpRequest} {result : HttpResponse × Gateway EventStore}
    (hturn : Turn ids now r g result) (h : g.IsSound ids) (hids : ids.Injective) :
    result.2.IsSound ids := by
  have hnew := h.next_not_mem hids
  cases hturn with
  | idle => exact h
  | created _ _ _ hs =>
    obtain rfl := congrArg Prod.snd hs
    refine ⟨EventStore.create_isKeyed h.isKeyed hnew _, fun i hi => ?_⟩
    rcases EventStore.mem_ids_create hnew hi with hi | rfl
    · obtain ⟨n, hn, heq⟩ := h.exists_given i hi
      exact ⟨n, Nat.lt_succ_of_lt hn, heq⟩
    · exact ⟨g.given, Nat.lt_succ_self _, rfl⟩
  | replaced _ _ _ _ hs =>
    obtain rfl := congrArg Prod.snd hs
    exact ⟨EventStore.update_isKeyed h.isKeyed _, fun i hi =>
      h.exists_given i (EventStore.ids_update g.store _ ▸ hi)⟩
  | removed _ _ hs =>
    obtain rfl := congrArg Prod.snd hs
    exact ⟨EventStore.delete_isKeyed h.isKeyed _, fun i hi =>
      h.exists_given i (EventStore.mem_ids_delete hi)⟩

theorem IsSound.receive (h : g.IsSound ids) (hids : ids.Injective) (a : Arrival π) :
    (g.receive ids a).IsSound ids := by
  cases a with
  | request now r => exact (answer_turn ids now r g).isSound h hids
  | tick c producer s now =>
    have hsub := (Bench.new g.store producer).tick_sublist c s now
    exact ⟨h.isKeyed.of_sublist hsub, fun i hi => h.exists_given i ((hsub.map _).subset hi)⟩

theorem IsSound.after (hids : ids.Injective) : ∀ (as : List (Arrival π)) {g : Gateway EventStore},
    g.IsSound ids → (g.after ids as).IsSound ids
  | [], _, h => h
  | a :: as, _, h => IsSound.after hids as (h.receive hids a)

/-- The store keeps this event under the id. -/
def IsKept (g : Gateway EventStore) (id : String) (e : Event) : Prop :=
  (id, .ok e) ∈ g.store.entries

/-- Nothing is done about the event of this id: a request to replace or delete it fails, and a tick
does not remove it. -/
def Spares (ids : Nat → String) (id : String) (g : Gateway EventStore) : Arrival π → Prop
  | .request now r => r.method = .put ∨ r.method = .delete → r.target.NamesEvent id →
    400 ≤ (answer ids now r g).1.status
  | .tick c producer s now => id ∈ (g.receive ids (.tick c producer s now)).store.ids

def AllSpare (ids : Nat → String) (id : String) (g : Gateway EventStore) :
    List (Arrival π) → Prop
  | [] => True
  | a :: as => g.Spares ids id a ∧ (g.receive ids a).AllSpare ids id as

variable {id : String} {e : Event}

theorem Turn.isKept {now : Instant} {r : HttpRequest} {result : HttpResponse × Gateway EventStore}
    (hturn : Turn ids now r g result) (hk : g.IsKept id e) (hnew : ids g.given ∉ g.store.ids)
    (hs : r.method = .put ∨ r.method = .delete → r.target.NamesEvent id →
      400 ≤ result.1.status) : result.2.IsKept id e := by
  cases hturn with
  | idle => exact hk
  | created _ _ _ hc =>
    obtain rfl := congrArg Prod.snd hc
    have hne : id ≠ ids g.given := by
      rintro rfl
      exact hnew (EventStore.mem_ids.2 ⟨_, hk⟩)
    exact (EventStore.mem_entries_create hnew hne _).2 hk
  | replaced hm ht _ he hu =>
    obtain rfl := congrArg Prod.snd hu
    refine (EventStore.mem_entries_update ?_).2 hk
    rintro rfl
    rw [Event.atStoragePrecision_id, EventBody.event_id he] at hs
    exact absurd (hs (Or.inl hm) ht) (show ¬ 400 ≤ 200 by decide)
  | removed hm ht hd =>
    obtain rfl := congrArg Prod.snd hd
    refine (EventStore.mem_entries_delete ?_).2 hk
    rintro rfl
    exact absurd (hs (Or.inr hm) ht) (show ¬ 400 ≤ 204 by decide)

theorem IsKept.receive (hk : g.IsKept id e) (h : g.IsSound ids) (hids : ids.Injective)
    {a : Arrival π} (hs : g.Spares ids id a) : (g.receive ids a).IsKept id e := by
  cases a with
  | request now r => exact (answer_turn ids now r g).isKept hk (h.next_not_mem hids) hs
  | tick c producer s now =>
    -- A tick only takes events away, so what is left under the id was there before.
    obtain ⟨r, hr⟩ := EventStore.mem_ids.1 hs
    have hsub := (Bench.new g.store producer).tick_sublist c s now
    rwa [IsKept, h.isKeyed.eq_of_mem hk (hsub.subset hr)]

theorem IsKept.after (hids : ids.Injective) : ∀ (as : List (Arrival π)) {g : Gateway EventStore},
    g.IsKept id e → g.IsSound ids → g.AllSpare ids id as → (g.after ids as).IsKept id e
  | [], _, hk, _, _ => hk
  | a :: as, _, hk, h, hs => IsKept.after hids as (hk.receive h hids hs.1) (h.receive hids a) hs.2

theorem IsKept.answer_get (hk : g.IsKept id e) (h : g.IsSound ids) {now : Instant}
    {r : HttpRequest} (hm : r.method = .get) (ht : r.target.NamesEvent id) :
    answer ids now r g = (.ofEvent 200 e, g) := by
  obtain ⟨part, hroute, hid⟩ := ht.exists_route
  have hget : g.get id = .ok e := by
    rw [Gateway.get, EventStore.calls_get, EventStore.get_of_mem_entries h.isKeyed hk]
    rfl
  simp only [answer, route, hroute, hid, onEvent, hm, hget, respond, reduceCtorEq, if_false]

end Gateway

end Api

end Datebook

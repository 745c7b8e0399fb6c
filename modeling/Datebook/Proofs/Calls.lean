import Datebook.Proofs.Agenda
import Mathlib.Data.Finmap

/-!
# Calls and the map they act on

Either kind of store stands for a finite map from ids to events. `EventMap.Step` says for each call
what it answers and what it leaves, with no regard to how events are kept: an event is checked to
the microsecond, a missing id is found before a taken slot, and a call that fails leaves the map
alone. The rules leave no choice but the order of a list (`step_deterministic`).

A call of a store of either kind is a step on its map (`call_takesStep`), so two stores of different
kinds answer every run of calls alike, as the map does (`calls_agree`).
-/

namespace Datebook

/-- A text made to name something new, which is never empty. -/
structure NewId where
  text : String
  text_ne : text ≠ ""

/-- A call of an event store; the id of what is created comes with the call. -/
inductive Call
  | create (id : NewId) (e : Event)
  | update (e : Event)
  | delete (id : String)
  | get (id : String)
  | list (start finish : Instant)

inductive Reply
  | event (r : Except StoreError Event)
  | done (r : Except StoreError Unit)
  | events (r : Except StoreError (List Event))

/-- The same answer, but for the order of a list. -/
inductive Reply.Same : Reply → Reply → Prop
  | refl (r : Reply) : Same r r
  | perm {as bs : List Event} (h : as.Perm bs) : Same (.events (.ok as)) (.events (.ok bs))

attribute [simp] Reply.Same.refl

namespace EventStore

def call (s : EventStore) : Call → Reply × EventStore
  | .create id e => let (r, s) := s.create id.text e; (.event r, s)
  | .update e => let (r, s) := s.update e; (.done r, s)
  | .delete id => let (r, s) := s.delete id; (.done r, s)
  | .get id => (.event (s.get id), s)
  | .list start finish => (.events (s.list start finish), s)

def calls (s : EventStore) : List Call → List Reply × EventStore
  | [] => ([], s)
  | c :: cs => ((s.call c).1 :: ((s.call c).2.calls cs).1, ((s.call c).2.calls cs).2)

/-- The ids under which something is kept. -/
def ids (s : EventStore) : List String := s.entries.map (·.1)

/-- Nothing is kept under the id that a call brings. -/
def IsNewIn (s : EventStore) : Call → Prop
  | .create id _ => id.text ∉ s.ids
  | _ => True

/-- Whenever a call brings an id, nothing is kept under it. -/
def AllNew (s : EventStore) : List Call → Prop
  | [] => True
  | c :: cs => s.IsNewIn c ∧ (s.call c).2.AllNew cs

instance (s : EventStore) : ∀ c : Call, Decidable (s.IsNewIn c)
  | .create id _ => inferInstanceAs (Decidable (id.text ∉ s.ids))
  | .update _ | .delete _ | .get _ | .list _ _ => isTrue trivial

instance decidableAllNew : ∀ (s : EventStore) (cs : List Call), Decidable (s.AllNew cs)
  | _, [] => isTrue trivial
  | s, c :: cs =>
    have := decidableAllNew (s.call c).2 cs
    inferInstanceAs (Decidable (_ ∧ _))

end EventStore

def Call.event? : Call → Option Event
  | .create _ e | .update e => some e
  | _ => none

/-- No instant of a call is in a leap second, and the start of a window is a whole number of
microseconds. -/
def Call.IsPlain : Call → Prop
  | .create _ e => e.IsOrdinary
  | .update e => e.IsOrdinary
  | .list start finish => start.IsOrdinary ∧ start.IsWholeMicros ∧ finish.IsOrdinary
  | _ => True

instance : ∀ c : Call, Decidable c.IsPlain
  | .create _ e | .update e => inferInstanceAs (Decidable e.IsOrdinary)
  | .list _ _ => inferInstanceAs (Decidable (_ ∧ _ ∧ _))
  | .delete _ | .get _ => isTrue trivial

abbrev EventMap := Finmap fun _ : String => Event

namespace EventMap

def IsTaken (M : EventMap) (e : Event) : Prop :=
  ∃ i o, M.lookup i = some o ∧ o.CollidesWith e

/-- Some event under another id holds the slot that this one claims. -/
def IsTakenByOther (M : EventMap) (e : Event) : Prop :=
  ∃ i o, M.lookup i = some o ∧ i ≠ e.id ∧ o.CollidesWith e

/-- What a call answers, and the map that it leaves. -/
inductive Step (M : EventMap) : Call → Reply → EventMap → Prop
  | createInvalid {id : NewId} {e : Event} {flaw : Event.Flaw}
      (h : e.atStoragePrecision.flaw? = some flaw) :
      Step M (.create id e) (.event (.error (.invalid flaw))) M
  | createBusy {id : NewId} {e : Event} (h : e.atStoragePrecision.flaw? = none)
      (hb : M.IsTaken e.atStoragePrecision) : Step M (.create id e) (.event (.error .busy)) M
  | create {id : NewId} {e : Event} (h : e.atStoragePrecision.flaw? = none)
      (hb : ¬ M.IsTaken e.atStoragePrecision) :
      Step M (.create id e) (.event (.ok { e.atStoragePrecision with id := id.text }))
        (M.insert id.text { e.atStoragePrecision with id := id.text })
  | updateInvalid {e : Event} {flaw : Event.Flaw} (h : e.atStoragePrecision.flaw? = some flaw) :
      Step M (.update e) (.done (.error (.invalid flaw))) M
  | updateNotFound {e : Event} (h : e.atStoragePrecision.flaw? = none) (hm : e.id ∉ M) :
      Step M (.update e) (.done (.error (.notFound e.id))) M
  | updateBusy {e : Event} (h : e.atStoragePrecision.flaw? = none) (hm : e.id ∈ M)
      (hb : M.IsTakenByOther e.atStoragePrecision) : Step M (.update e) (.done (.error .busy)) M
  | update {e : Event} (h : e.atStoragePrecision.flaw? = none) (hm : e.id ∈ M)
      (hb : ¬ M.IsTakenByOther e.atStoragePrecision) :
      Step M (.update e) (.done (.ok ())) (M.insert e.id e.atStoragePrecision)
  | deleteNotFound {id : String} (hm : id ∉ M) :
      Step M (.delete id) (.done (.error (.notFound id))) M
  | delete {id : String} (hm : id ∈ M) : Step M (.delete id) (.done (.ok ())) (M.erase id)
  | getNotFound {id : String} (hm : M.lookup id = none) :
      Step M (.get id) (.event (.error (.notFound id))) M
  | get {id : String} {e : Event} (hm : M.lookup id = some e) :
      Step M (.get id) (.event (.ok e)) M
  | list {start finish : Instant} {l : List Event} (hn : l.Nodup)
      (hl : ∀ e, e ∈ l ↔ ∃ i, M.lookup i = some e ∧ start ≤ e.startTime ∧ e.startTime ≤ finish) :
      Step M (.list start finish) (.events (.ok l)) M

inductive Run : EventMap → List Call → List Reply → EventMap → Prop
  | nil (M : EventMap) : Run M [] [] M
  | cons {M M' M'' : EventMap} {c : Call} {cs : List Call} {r : Reply} {rs : List Reply}
      (h : Step M c r M') (hs : Run M' cs rs M'') : Run M (c :: cs) (r :: rs) M''

theorem step_deterministic {M M₁ M₂ : EventMap} {c : Call} {r₁ r₂ : Reply} (h₁ : Step M c r₁ M₁)
    (h₂ : Step M c r₂ M₂) : r₁.Same r₂ ∧ M₁ = M₂ := by
  cases h₁ with
  | list hn hl =>
    cases h₂ with
    | list hn' hl' =>
      exact ⟨.perm ((List.perm_ext_iff_of_nodup hn hn').2 fun e => (hl e).trans (hl' e).symm), rfl⟩
  | _ => cases h₂ <;> simp_all

/-- The map of these events, each under its own id. -/
def ofEvents : List Event → EventMap
  | [] => ∅
  | e :: es => (ofEvents es).insert e.id e

theorem mem_ofEvents {i : String} : ∀ {es : List Event}, i ∈ ofEvents es ↔ ∃ e ∈ es, e.id = i
  | [] => by simp [ofEvents, Finmap.notMem_empty]
  | e :: es => by
    rw [ofEvents, Finmap.mem_insert, mem_ofEvents]
    simp [eq_comm]

theorem lookup_ofEvents {i : String} {e : Event} :
    ∀ {es : List Event}, (es.map (·.id)).Nodup →
      ((ofEvents es).lookup i = some e ↔ e ∈ es ∧ e.id = i)
  | [], _ => by simp [ofEvents]
  | a :: es, hn => by
    rw [List.map_cons, List.nodup_cons] at hn
    have ih := lookup_ofEvents (i := i) (e := e) hn.2
    rw [ofEvents, List.mem_cons]
    by_cases hi : i = a.id
    · subst hi
      rw [Finmap.lookup_insert, Option.some.injEq]
      constructor
      · rintro rfl
        exact ⟨Or.inl rfl, rfl⟩
      · rintro ⟨rfl | he, hid⟩
        · rfl
        · exact absurd (List.mem_map.2 ⟨e, he, hid⟩) hn.1
    · rw [Finmap.lookup_insert_of_ne _ hi, ih]
      constructor
      · rintro ⟨he, hid⟩
        exact ⟨Or.inr he, hid⟩
      · rintro ⟨rfl | he, hid⟩
        · exact absurd hid.symm hi
        · exact ⟨he, hid⟩

theorem eq_of_lookup_iff {M N : EventMap} (h : ∀ i e, M.lookup i = some e ↔ N.lookup i = some e) :
    M = N :=
  Finmap.ext_lookup fun i => Option.ext fun e => h i e

variable {es : List Event}

theorem ofEvents_append {e : Event} (h : ((es ++ [e]).map (·.id)).Nodup) :
    ofEvents (es ++ [e]) = (ofEvents es).insert e.id e := by
  have hn : (es.map (·.id)).Nodup := h.sublist ((List.sublist_append_left _ _).map _)
  have hid : ∀ a ∈ es, a.id ≠ e.id := by
    rw [List.map_append, List.nodup_append] at h
    exact fun a ha => h.2.2 _ (List.mem_map_of_mem ha) _ (by simp)
  refine eq_of_lookup_iff fun i a => ?_
  rw [lookup_ofEvents h, List.mem_append, List.mem_singleton]
  by_cases hi : i = e.id
  · subst hi
    rw [Finmap.lookup_insert, Option.some.injEq]
    constructor
    · rintro ⟨ha | rfl, hai⟩
      · exact absurd hai (hid a ha)
      · rfl
    · rintro rfl
      exact ⟨Or.inr rfl, rfl⟩
  · rw [Finmap.lookup_insert_of_ne _ hi, lookup_ofEvents hn]
    constructor
    · rintro ⟨ha | rfl, hai⟩
      · exact ⟨ha, hai⟩
      · exact absurd hai.symm hi
    · rintro ⟨ha, hai⟩
      exact ⟨Or.inl ha, hai⟩

theorem ofEvents_putIn {e : Event} (hn : (es.map (·.id)).Nodup) (he : ∃ o ∈ es, o.id = e.id) :
    ofEvents (e.putIn es) = (ofEvents es).insert e.id e := by
  have hn' : ((e.putIn es).map (·.id)).Nodup := e.map_id_putIn es ▸ hn
  refine eq_of_lookup_iff fun i a => ?_
  rw [lookup_ofEvents hn', Event.mem_putIn]
  by_cases hi : i = e.id
  · subst hi
    rw [Finmap.lookup_insert, Option.some.injEq]
    constructor
    · rintro ⟨⟨rfl, -⟩ | ⟨-, hne⟩, hai⟩
      · rfl
      · exact absurd hai hne
    · rintro rfl
      exact ⟨Or.inl ⟨rfl, he⟩, rfl⟩
  · rw [Finmap.lookup_insert_of_ne _ hi, lookup_ofEvents hn]
    constructor
    · rintro ⟨⟨rfl, -⟩ | ⟨ha, -⟩, hai⟩
      · exact absurd hai.symm hi
      · exact ⟨ha, hai⟩
    · rintro ⟨ha, rfl⟩
      exact ⟨Or.inr ⟨ha, hi⟩, rfl⟩

theorem ofEvents_filter (hn : (es.map (·.id)).Nodup) (id : String) :
    ofEvents (es.filter fun e => e.id ≠ id) = (ofEvents es).erase id := by
  have hn' : ((es.filter fun e => e.id ≠ id).map (·.id)).Nodup :=
    hn.sublist (List.filter_sublist.map _)
  refine eq_of_lookup_iff fun i a => ?_
  rw [lookup_ofEvents hn', List.mem_filter, decide_eq_true_eq]
  by_cases hi : i = id
  · subst hi
    simp only [Finmap.lookup_erase, reduceCtorEq, iff_false]
    exact fun h => h.1.2 h.2
  · rw [Finmap.lookup_erase_ne hi, lookup_ofEvents hn]
    constructor
    · exact fun h => ⟨h.1.1, h.2⟩
    · rintro ⟨ha, rfl⟩
      exact ⟨⟨ha, hi⟩, rfl⟩

theorem isTaken_ofEvents (hn : (es.map (·.id)).Nodup) {e : Event} :
    (ofEvents es).IsTaken e ↔ ∃ o ∈ es, o.CollidesWith e := by
  unfold IsTaken
  simp only [lookup_ofEvents hn]
  constructor
  · rintro ⟨i, o, ⟨ho, -⟩, hc⟩
    exact ⟨o, ho, hc⟩
  · rintro ⟨o, ho, hc⟩
    exact ⟨o.id, o, ⟨ho, rfl⟩, hc⟩

theorem isTakenByOther_ofEvents (hn : (es.map (·.id)).Nodup) {e : Event} :
    (ofEvents es).IsTakenByOther e ↔ ∃ o ∈ es, o.id ≠ e.id ∧ o.CollidesWith e := by
  unfold IsTakenByOther
  simp only [lookup_ofEvents hn]
  constructor
  · rintro ⟨i, o, ⟨ho, rfl⟩, hne, hc⟩
    exact ⟨o, ho, hne, hc⟩
  · rintro ⟨o, ho, hne, hc⟩
    exact ⟨o.id, o, ⟨ho, rfl⟩, hne, hc⟩

end EventMap

namespace EventStore

variable {k : StorageKind} {es : List Event}

@[simp] theorem ids_ofEvents (k : StorageKind) (es : List Event) :
    (ofEvents k es).ids = es.map (·.id) := by
  cases k <;> simp [ids, entries, ofEvents, EventRow.ofEvent]

/-- The store answers the call and keeps the events as the map of its events does, and they are
again what a store can keep. -/
def TakesStep (k : StorageKind) (es : List Event) (c : Call) : Prop :=
  ∃ r es', (ofEvents k es).call c = (r, ofEvents k es') ∧ IsAgenda es' ∧ (∀ e ∈ es', k.Fits e)
    ∧ EventMap.Step (.ofEvents es) c r (.ofEvents es')

theorem call_create (s : EventStore) (id : NewId) (e : Event) :
    s.call (.create id e) = (.event (s.create id.text e).1, (s.create id.text e).2) := rfl

theorem call_update (s : EventStore) (e : Event) :
    s.call (.update e) = (.done (s.update e).1, (s.update e).2) := rfl

theorem call_delete (s : EventStore) (id : String) :
    s.call (.delete id) = (.done (s.delete id).1, (s.delete id).2) := rfl

theorem create_takesStep (h : IsAgenda es) (hes : ∀ e ∈ es, k.Fits e) {id : NewId} {e : Event}
    (hid : id.text ∉ (ofEvents k es).ids) (he : k = .database → e.IsOrdinary) :
    TakesStep k es (.create id e) := by
  have hfit := StorageKind.fits_atStoragePrecision he
  rw [ids_ofEvents] at hid
  unfold TakesStep
  rw [call_create, create_ofEvents hes hid hfit]
  rcases hf : e.atStoragePrecision.flaw? with _ | flaw
  · by_cases hb : ∃ o ∈ es, o.CollidesWith e.atStoragePrecision
    · simp only [if_pos hb]
      exact ⟨_, es, rfl, h, hes, .createBusy hf ((EventMap.isTaken_ofEvents h.ids_nodup).2 hb)⟩
    · simp only [if_neg hb]
      have hv := Event.flaw?_eq_none_iff.1 hf
      have hw := e.isWholeMicros_atStoragePrecision
      have ha : IsAgenda (es ++ [{ e.atStoragePrecision with id := id.text }]) :=
        h.append hid id.text_ne ⟨hv.1, hv.2, hv.3, hv.4⟩ ⟨hw.1, hw.2, hw.3⟩
          fun o ho hc => hb ⟨o, ho, hc⟩
      refine ⟨_, _, rfl, ha, ?_, ?_⟩
      · intro a hmem
        rcases List.mem_append.1 hmem with hmem | hmem
        · exact hes a hmem
        · rw [List.mem_singleton.1 hmem]
          exact hfit.withId id.text
      · rw [EventMap.ofEvents_append ha.ids_nodup]
        exact .create hf ((EventMap.isTaken_ofEvents h.ids_nodup).not.2 hb)
  · exact ⟨_, es, rfl, h, hes, .createInvalid hf⟩

theorem update_takesStep (h : IsAgenda es) (hes : ∀ e ∈ es, k.Fits e) {e : Event}
    (he : k = .database → e.IsOrdinary) : TakesStep k es (.update e) := by
  have hfit := StorageKind.fits_atStoragePrecision he
  unfold TakesStep
  rw [call_update, update_ofEvents hes hfit]
  rcases hf : e.atStoragePrecision.flaw? with _ | flaw
  · have hm : e.id ∈ EventMap.ofEvents es ↔ _ := EventMap.mem_ofEvents
    have hb := EventMap.isTakenByOther_ofEvents h.ids_nodup (e := e.atStoragePrecision)
    by_cases hid : ∃ o ∈ es, o.id = e.id
    · by_cases ht : ∃ o ∈ es, o.id ≠ e.id ∧ o.CollidesWith e.atStoragePrecision
      · simp only [if_neg (not_not.2 hid), if_pos ht]
        exact ⟨_, es, rfl, h, hes, .updateBusy hf (hm.2 hid) (hb.2 ht)⟩
      · simp only [if_neg (not_not.2 hid), if_neg ht]
        obtain ⟨o, ho, hoe⟩ := hid
        have hne : e.id ≠ "" := hoe ▸ h.id_ne_empty o ho
        refine ⟨_, _, rfl, h.replace hne (Event.flaw?_eq_none_iff.1 hf)
          e.isWholeMicros_atStoragePrecision ht, ?_, ?_⟩
        · intro a hmem
          rcases Event.mem_putIn.1 hmem with ⟨rfl, -⟩ | ⟨hmem, -⟩
          · exact hfit
          · exact hes a hmem
        · rw [EventMap.ofEvents_putIn (e := e.atStoragePrecision) h.ids_nodup ⟨o, ho, hoe⟩]
          exact .update hf (hm.2 ⟨o, ho, hoe⟩) (hb.not.2 ht)
    · simp only [if_pos hid]
      exact ⟨_, es, rfl, h, hes, .updateNotFound hf (hm.not.2 hid)⟩
  · exact ⟨_, es, rfl, h, hes, .updateInvalid hf⟩

theorem delete_takesStep (h : IsAgenda es) (hes : ∀ e ∈ es, k.Fits e) (id : String) :
    TakesStep k es (.delete id) := by
  unfold TakesStep
  rw [call_delete, delete_ofEvents]
  have hm : id ∈ EventMap.ofEvents es ↔ _ := EventMap.mem_ofEvents
  by_cases hid : ∃ e ∈ es, e.id = id
  · rw [if_pos hid]
    refine ⟨_, _, rfl, h.sublist List.filter_sublist,
      fun e he => hes e (List.mem_filter.1 he).1, ?_⟩
    rw [EventMap.ofEvents_filter h.ids_nodup]
    exact .delete (hm.2 hid)
  · rw [if_neg hid]
    exact ⟨_, es, rfl, h, hes, .deleteNotFound (hm.not.2 hid)⟩

theorem get_takesStep (h : IsAgenda es) (hes : ∀ e ∈ es, k.Fits e) (id : String) :
    TakesStep k es (.get id) := by
  refine ⟨_, es, rfl, h, hes, ?_⟩
  rw [get_ofEvents hes]
  cases hf : es.find? fun e => e.id = id with
  | none =>
    refine .getNotFound (Option.eq_none_iff_forall_ne_some.2 fun e he => ?_)
    obtain ⟨he, hid⟩ := (EventMap.lookup_ofEvents h.ids_nodup).1 he
    exact List.find?_eq_none.1 hf e he (decide_eq_true hid)
  | some e =>
    have hid := List.find?_some hf
    exact .get ((EventMap.lookup_ofEvents h.ids_nodup).2
      ⟨List.mem_of_find?_eq_some hf, of_decide_eq_true hid⟩)

theorem list_takesStep (h : IsAgenda es) (hes : ∀ e ∈ es, k.Fits e) {start finish : Instant}
    (hw : k = .database → start.IsOrdinary ∧ start.IsWholeMicros ∧ finish.IsOrdinary) :
    TakesStep k es (.list start finish) := by
  obtain ⟨l, hl, hperm⟩ := list_ofEvents hes start finish
  refine ⟨_, es, rfl, h, hes, ?_⟩
  rw [hl]
  have hn : es.Nodup := h.ids_nodup.of_map _
  refine .list (hperm.nodup_iff.2 (hn.sublist List.filter_sublist)) fun e => ?_
  rw [hperm.mem_iff, List.mem_filter, decide_eq_true_eq]
  simp only [EventMap.lookup_ofEvents h.ids_nodup]
  constructor
  · rintro ⟨he, hwin⟩
    exact ⟨e.id, ⟨he, rfl⟩, ((hes e he).inWindow_iff hw).1 hwin⟩
  · rintro ⟨i, ⟨he, -⟩, hwin⟩
    exact ⟨he, ((hes e he).inWindow_iff hw).2 hwin⟩

theorem call_takesStep (h : IsAgenda es) (hes : ∀ e ∈ es, k.Fits e) {c : Call}
    (hc : k = .database → c.IsPlain) (hnew : (ofEvents k es).IsNewIn c) : TakesStep k es c := by
  cases c with
  | create id e => exact create_takesStep h hes hnew hc
  | update e => exact update_takesStep h hes hc
  | delete id => exact delete_takesStep h hes id
  | get id => exact get_takesStep h hes id
  | list start finish => exact list_takesStep h hes hc

/-- The store keeps exactly the entries of the map, each under one id. -/
structure Represents (s : EventStore) (M : EventMap) : Prop where
  ids_nodup : s.ids.Nodup
  mem_entries : ∀ id r, (id, r) ∈ s.entries ↔ ∃ e, r = .ok e ∧ M.lookup id = some e

theorem represents_ofEvents (h : IsAgenda es) (hes : ∀ e ∈ es, k.Fits e) :
    (ofEvents k es).Represents (.ofEvents es) := by
  have hh : (ofEvents k es).Holds es := holds_iff.2 ⟨k, rfl, hes⟩
  refine ⟨ids_ofEvents k es ▸ h.ids_nodup, fun id r => ?_⟩
  rw [hh, List.mem_map]
  simp only [EventMap.lookup_ofEvents h.ids_nodup, Prod.mk.injEq]
  constructor
  · rintro ⟨e, he, rfl, rfl⟩
    exact ⟨e, rfl, he, rfl⟩
  · rintro ⟨e, rfl, he, rfl⟩
    exact ⟨e, he, rfl, rfl⟩

theorem calls_agree {cs : List Call} (hp : ∀ c ∈ cs, c.IsPlain) :
    ∀ {es es' : List Event}, IsAgenda es → (∀ e ∈ es, StorageKind.Fits .memory e) →
      IsAgenda es' → (∀ e ∈ es', StorageKind.Fits .database e) →
      EventMap.ofEvents es = .ofEvents es' → (ofEvents .memory es).AllNew cs →
      ∃ M, EventMap.Run (.ofEvents es) cs ((ofEvents .memory es).calls cs).1 M
        ∧ EventMap.Run (.ofEvents es) cs ((ofEvents .database es').calls cs).1 M
        ∧ List.Forall₂ Reply.Same ((ofEvents .memory es).calls cs).1
          ((ofEvents .database es').calls cs).1
        ∧ ((ofEvents .memory es).calls cs).2.Represents M
        ∧ ((ofEvents .database es').calls cs).2.Represents M := by
  induction cs with
  | nil =>
    intro es es' h hes h' hes' heq _
    exact ⟨_, .nil _, .nil _, .nil, represents_ofEvents h hes,
      heq ▸ represents_ofEvents h' hes'⟩
  | cons c cs ih =>
    intro es es' h hes h' hes' heq hnew
    have hc := hp c (by simp)
    have hids : ∀ i, i ∈ (ofEvents .database es').ids ↔ i ∈ (ofEvents .memory es).ids := by
      intro i
      rw [ids_ofEvents, ids_ofEvents, List.mem_map, List.mem_map,
        ← EventMap.mem_ofEvents, ← EventMap.mem_ofEvents, heq]
    have hnew' : (ofEvents .database es').IsNewIn c := by
      have := hnew.1
      cases c with
      | create id e => exact (hids _).not.2 this
      | _ => trivial
    obtain ⟨r, fs, hr, hfs, hfit, hstep⟩ := call_takesStep h hes (fun _ => hc) hnew.1
    obtain ⟨r', fs', hr', hfs', hfit', hstep'⟩ := call_takesStep h' hes' (fun _ => hc) hnew'
    rw [← heq] at hstep'
    obtain ⟨hsame, hmaps⟩ := EventMap.step_deterministic hstep hstep'
    have hrest := hnew.2
    rw [hr] at hrest
    obtain ⟨M, h1, h2, h3, h4, h5⟩ :=
      ih (fun c hc => hp c (by simp [hc])) hfs hfit hfs' hfit' hmaps hrest
    simp only [calls, hr, hr']
    exact ⟨M, .cons hstep h1, .cons (hmaps ▸ hstep') (hmaps ▸ h2), .cons hsame h3, h4, h5⟩

/-- The store of a kind when nothing has been stored yet. -/
def empty : StorageKind → EventStore
  | .memory => .memory .empty
  | .database => .table []

theorem ofEvents_nil (k : StorageKind) : ofEvents k [] = empty k := by
  cases k <;> rfl

@[simp] theorem kind_empty (k : StorageKind) : (empty k).kind = k := by
  cases k <;> rfl

@[simp] theorem ids_empty (k : StorageKind) : (empty k).ids = [] := by
  cases k <;> rfl

/-- From empty stores of both kinds, every run of plain calls with new ids is answered alike, as the
rules of the map say, and leaves both with the entries of one map. -/
theorem backends_refine_map (cs : List Call) (hp : ∀ c ∈ cs, c.IsPlain)
    (hnew : (empty .memory).AllNew cs) :
    ∃ M, EventMap.Run ∅ cs ((empty .memory).calls cs).1 M
      ∧ EventMap.Run ∅ cs ((empty .database).calls cs).1 M
      ∧ List.Forall₂ Reply.Same ((empty .memory).calls cs).1 ((empty .database).calls cs).1
      ∧ ((empty .memory).calls cs).2.Represents M
      ∧ ((empty .database).calls cs).2.Represents M :=
  calls_agree hp .nil (by simp) .nil (by simp) rfl hnew

def idA : NewId := ⟨"a", by decide⟩

def idB : NewId := ⟨"b", by decide⟩

open Event Instant in
/-- Calls that are answered in every way: the slot is claimed twice, once without a title, and the
event is moved, listed and deleted twice. -/
def dinnerCalls : List Call :=
  [.create idA (dinner "" "Dinner" beforeEpoch),
    .create idB (dinner "" "" beforeEpoch),
    .create idB (dinner "" "Supper" beforeEpoch),
    .update (dinner "b" "Supper" beforeEpoch), .update (dinner "a" "Late dinner" last),
    .list beforeEpoch.floorMicros last, .get "a", .delete "a", .delete "a"]

theorem backends_refine_map_dinnerCalls :
    (∀ c ∈ dinnerCalls, c.IsPlain) ∧ (empty .memory).AllNew dinnerCalls ∧
      ∃ M, EventMap.Run ∅ dinnerCalls ((empty .memory).calls dinnerCalls).1 M
        ∧ EventMap.Run ∅ dinnerCalls ((empty .database).calls dinnerCalls).1 M
        ∧ List.Forall₂ Reply.Same ((empty .memory).calls dinnerCalls).1
          ((empty .database).calls dinnerCalls).1
        ∧ ((empty .memory).calls dinnerCalls).2.Represents M
        ∧ ((empty .database).calls dinnerCalls).2.Represents M :=
  have hp : ∀ c ∈ dinnerCalls, c.IsPlain := by decide
  have hnew : (empty .memory).AllNew dinnerCalls := by decide +kernel
  ⟨hp, hnew, backends_refine_map dinnerCalls hp hnew⟩

end EventStore

end Datebook

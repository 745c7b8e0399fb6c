import Datebook.Proofs.Turns

/-!
# Windows

A list has each of the events that start in its window once, and no other, but in a table the window
begins with the whole microsecond that its start lies in (`StorageKind.lowerBound`). Instants of
stored events are whole microseconds, so the one event that a table lists and should not is one that
starts with the very microsecond in which the window begins. `list_windows` says this of every store
that was empty at first, and of what clients are shown of it.
-/

namespace Datebook

namespace Instant

variable {t u : Instant}

theorem floorMicros_le_iff (hu : u.IsWholeMicros) :
    t.floorMicros ≤ u ↔ t ≤ u ∨ u = t.floorMicros := by
  rw [floorMicros_le_iff_or, hu.floorMicros_eq]

end Instant

namespace StorageKind

variable {k : StorageKind} {e : Event} {start finish : Instant}

/-- Where a window begins for storage of this kind. -/
def lowerBound : StorageKind → Instant → Instant
  | .memory, start => start
  | .database, start => start.floorMicros

theorem Fits.inWindow_iff_lowerBound (he : k.Fits e)
    (h : k = .database → start.IsOrdinary ∧ finish.IsOrdinary) :
    k.InWindow start finish e ↔ k.lowerBound start ≤ e.startTime ∧ e.startTime ≤ finish := by
  cases k with
  | memory => rfl
  | database =>
    obtain ⟨hs, hf⟩ := h rfl
    have hfloor : InWindow .database start.floorMicros finish e ↔ _ := he.inWindow_iff fun _ =>
      ⟨hs.floorMicros, start.isWholeMicros_floorMicros, hf⟩
    simp only [InWindow, Instant.micros_floorMicros] at hfloor
    exact hfloor

theorem lowerBound_le_iff (hw : e.IsWholeMicros) :
    k.lowerBound start ≤ e.startTime
      ↔ start ≤ e.startTime ∨ k = .database ∧ e.startTime = start.floorMicros := by
  cases k with
  | memory => simp [lowerBound]
  | database => simp [lowerBound, Instant.floorMicros_le_iff hw.startTime]

end StorageKind

/-- The list has each of the events that start from `start` to `finish` once, and no other. -/
structure IsWindow (start finish : Instant) (es l : List Event) : Prop where
  nodup : l.Nodup
  mem_iff : ∀ e, e ∈ l ↔ e ∈ es ∧ start ≤ e.startTime ∧ e.startTime ≤ finish

theorem IsWindow.perm {start finish : Instant} {es l l' : List Event}
    (h : IsWindow start finish es l) (hp : l'.Perm l) : IsWindow start finish es l' :=
  ⟨hp.nodup_iff.2 h.nodup, fun e => hp.mem_iff.trans (h.mem_iff e)⟩

namespace EventStore

variable {k : StorageKind} {es : List Event} {start finish : Instant}

theorem list_isWindow (ha : IsAgenda es) (hes : ∀ e ∈ es, k.Fits e)
    (h : k = .database → start.IsOrdinary ∧ finish.IsOrdinary) :
    ∃ l, (ofEvents k es).list start finish = .ok l
      ∧ IsWindow (k.lowerBound start) finish es l := by
  obtain ⟨l, hl, hperm⟩ := list_ofEvents hes start finish
  refine ⟨l, hl, hperm.nodup_iff.2 ((ha.ids_nodup.of_map _).filter _), fun e => ?_⟩
  rw [hperm.mem_iff, List.mem_filter, decide_eq_true_eq]
  exact and_congr_right fun he => (hes e he).inWindow_iff_lowerBound h

/-- The store lists each of these events that start in the window once, and no other. -/
def ListsExactly (s : EventStore) (start finish : Instant) (es : List Event) : Prop :=
  ∃ l, s.list start finish = .ok l ∧ IsWindow start finish es l

theorem listsExactly_iff (ha : IsAgenda es) (hes : ∀ e ∈ es, k.Fits e)
    (h : k = .database → start.IsOrdinary ∧ finish.IsOrdinary) :
    (ofEvents k es).ListsExactly start finish es ↔ (k = .database → ∀ e ∈ es,
      e.startTime = start.floorMicros → e.startTime ≤ finish → start ≤ e.startTime) := by
  obtain ⟨l, hl, hw⟩ := list_isWindow ha hes h
  unfold ListsExactly
  constructor
  · rintro ⟨l', hl', hw'⟩ hk e he hfloor hle
    obtain rfl := Except.ok.inj (hl'.symm.trans hl)
    refine ((hw'.mem_iff e).1 ((hw.mem_iff e).2 ⟨he, ?_, hle⟩)).2.1
    exact (StorageKind.lowerBound_le_iff (ha.isWholeMicros e he)).2 (Or.inr ⟨hk, hfloor⟩)
  · intro hfine
    refine ⟨l, hl, hw.nodup, fun e => (hw.mem_iff e).trans (and_congr_right fun he => ?_)⟩
    rw [StorageKind.lowerBound_le_iff (ha.isWholeMicros e he)]
    refine ⟨?_, fun h => ⟨Or.inl h.1, h.2⟩⟩
    rintro ⟨hs | ⟨hk, hfloor⟩, hle⟩
    · exact ⟨hs, hle⟩
    · exact ⟨hfine hk e he hfloor hle, hle⟩

end EventStore

namespace Api.Gateway

/-- A client who asks for a window that does not end before it begins is shown its events. -/
theorem answer_list {ids : Nat → String} {now : Instant} {r : HttpRequest}
    {g : Gateway EventStore} (hm : r.method = .get) (hp : r.target.path = octetsOf "/events")
    {start finish : Instant}
    (hq : Bounds.ofQuery? r.target.query = some ⟨some start, some finish⟩) (hle : start ≤ finish)
    {l : List Event} (hl : g.store.list start finish = .ok l) :
    ∃ shown, (answer ids now r g).1 = .ofEvents shown ∧ shown.Perm l := by
  refine ⟨l.mergeSort fun a b => decide (a.startTime ≤ b.startTime), ?_, List.mergeSort_perm _ _⟩
  rw [answer_events hm hp]
  simp only [list, hq, window, Option.getD_some, if_neg (Instant.not_lt.2 hle),
    EventStore.calls_list, hl]
  rfl

end Api.Gateway

variable {π : Type} {k : StorageKind}

namespace Bench

open Api EventStore

/-- Before and after every act of every run, what a store lists of its agenda are the events from
the lower bound of the window on, and so are what a client is shown. These are the events of the
window unless one starts in the microsecond in which a table's window begins, but before it. -/
theorem list_windows (k : StorageKind) (producer : π) (as : List (Act π))
    (ha : k = .database → ∀ a ∈ as, ∀ e ∈ a.event?, e.IsOrdinary)
    (hnew : (new (.empty k) producer).AllNew as) :
    ∀ b ∈ (new (.empty k) producer).acts as, ∃ es, b.store.Holds es ∧ IsAgenda es
      ∧ ∀ start finish : Instant, (k = .database → start.IsOrdinary ∧ finish.IsOrdinary) →
        (b.store.ListsExactly start finish es ↔ (k = .database → ∀ e ∈ es,
          e.startTime = start.floorMicros → e.startTime ≤ finish → start ≤ e.startTime))
        ∧ (∃ l, b.store.list start finish = .ok l ∧ IsWindow (k.lowerBound start) finish es l)
        ∧ ∀ (ids : Nat → String) (now : Instant) (r : HttpRequest) (given : Nat),
          r.method = .get → r.target.path = octetsOf "/events" →
          Bounds.ofQuery? r.target.query = some ⟨some start, some finish⟩ → start ≤ finish →
          ∃ shown, (Gateway.answer ids now r ⟨b.store, given⟩).1 = .ofEvents shown
            ∧ IsWindow (k.lowerBound start) finish es shown := by
  intro b hb
  obtain ⟨es, hs, h, hes⟩ := acts_keep as (keeps_empty k) ha hnew b hb
  refine ⟨es, holds_iff.2 ⟨k, hs, hes⟩, h, fun start finish hord => ?_⟩
  rw [hs]
  obtain ⟨l, hl, hw⟩ := list_isWindow h hes hord
  refine ⟨listsExactly_iff h hes hord, ⟨l, hl, hw⟩, ?_⟩
  intro ids now r given hm hp hq hle
  obtain ⟨shown, hshown, hperm⟩ : ∃ shown,
      (Gateway.answer ids now r ⟨ofEvents k es, given⟩).1 = .ofEvents shown
        ∧ shown.Perm l := Gateway.answer_list hm hp hq hle hl
  exact ⟨shown, hshown, hw.perm hperm⟩

section Eve

open Event Instant

/-- A dinner is entered that starts a nanosecond before 1970. -/
def eveActs : List (Act Unit) := [.call (.create idA (dinner "" "Dinner" beforeEpoch))]

/-- The dinner as it is stored. -/
def eveDinner : Event := dinner "a" "Dinner" beforeEpoch.floorMicros

/-- A client asks for what starts in the last nanosecond before 1970. -/
def eveRequest : HttpRequest where
  method := .get
  target := .ofText
    "/events?from=1969-12-31T23:59:59.999999999Z&to=1969-12-31T23:59:59.999999999Z"
  mediaType := none
  body := []

theorem list_windows_eveActs :
    (StorageKind.database = .database → ∀ a ∈ eveActs, ∀ e ∈ a.event?, e.IsOrdinary)
      ∧ (new (.empty .database) ()).AllNew eveActs
      ∧ ∀ b ∈ (new (.empty .database) ()).acts eveActs, ∃ es, b.store.Holds es ∧ IsAgenda es
        ∧ ∃ shown, (Gateway.answer toString first eveRequest ⟨b.store, 0⟩).1
            = .ofEvents shown ∧ IsWindow beforeEpoch.floorMicros beforeEpoch es shown := by
  have ha : StorageKind.database = .database → ∀ a ∈ eveActs, ∀ e ∈ a.event?, e.IsOrdinary := by
    decide
  have hnew : (new (.empty .database) ()).AllNew eveActs := by decide +kernel
  refine ⟨ha, hnew, fun b hb => ?_⟩
  obtain ⟨es, hs, h, hlist⟩ := list_windows .database () eveActs ha hnew b hb
  have hord : beforeEpoch.IsOrdinary := by decide
  obtain ⟨-, -, hshown⟩ := hlist beforeEpoch beforeEpoch fun _ => ⟨hord, hord⟩
  exact ⟨es, hs, h, hshown toString first eveRequest 0 rfl (by decide) (by decide +kernel)
    (Instant.le_refl _)⟩

/-- A table lists the dinner, and the client is shown it, as one that starts from the last
nanosecond before 1970 on, though what is stored of it starts before. -/
theorem listed_before_window :
    ∃ b ∈ (new (.empty .database) ()).acts eveActs, b.store.Holds [eveDinner]
      ∧ beforeEpoch.IsOrdinary ∧ eveDinner.startTime < beforeEpoch
      ∧ ¬ b.store.ListsExactly beforeEpoch beforeEpoch [eveDinner]
      ∧ ∃ shown, (Gateway.answer toString first eveRequest ⟨b.store, 0⟩).1
          = .ofEvents shown ∧ eveDinner ∈ shown := by
  have hord : beforeEpoch.IsOrdinary := by decide
  have hes : ∀ e ∈ [eveDinner], StorageKind.Fits .database e := by decide
  have ha : IsAgenda [eveDinner] := by decide
  obtain ⟨l, hl, hw⟩ := list_isWindow ha hes fun _ => ⟨hord, hord⟩
  have hmem : eveDinner ∈ l := (hw.mem_iff _).2 (by decide)
  refine ⟨⟨ofEvents .database [eveDinner], (), [], 0, 0⟩, ?_, holds_iff.2 ⟨_, rfl, hes⟩, hord,
    by decide, ?_, ?_⟩
  · have hstore : ((empty .database).call (.create idA (dinner "" "Dinner" beforeEpoch))).2
        = ofEvents .database [eveDinner] := by decide +kernel
    rw [← hstore]
    exact List.mem_cons_of_mem _ (List.mem_singleton_self _)
  · rw [listsExactly_iff ha hes fun _ => ⟨hord, hord⟩]
    decide
  · obtain ⟨shown, hshown, hperm⟩ : ∃ shown, (Gateway.answer toString first eveRequest
        ⟨ofEvents .database [eveDinner], 0⟩).1 = .ofEvents shown ∧ shown.Perm l :=
      Gateway.answer_list rfl (by decide) (by decide +kernel) (Instant.le_refl _) hl
    exact ⟨shown, hshown, hperm.mem_iff.2 hmem⟩

end Eve

end Bench

end Datebook

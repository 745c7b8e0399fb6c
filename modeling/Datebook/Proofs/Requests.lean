import Datebook.Api.Gateway
import Datebook.Proofs.Calls
import Datebook.Proofs.Keys
import Datebook.Proofs.Views

/-!
# How requests are answered

What is said to a client who creates, replaces, asks for or deletes an event, and what becomes of
the events. `Ruling` is the rule book, written for a finite map of events with no regard to how they
are kept or how a reminder is counted back from a start: a check is made only if those before it
pass, so no two rulings apply (`Ruling.unique`). The gateway gives the one ruling, over a store of
either kind, and a request that is refused changes nothing (`answer_isRuled`). A body is refused if
it cannot be read, for which it need only be too long (`readBody_eq_ok_iff`).
-/

namespace Datebook

namespace Octets

variable {mark : UInt8} {p : Octets}

theorem partsBetween_eq_singleton (h : mark ∉ p) : p.partsBetween mark = [p] := by
  induction p with
  | nil => rfl
  | cons b p ih =>
    rw [List.mem_cons, not_or] at h
    rw [partsBetween, if_neg (Ne.symm h.1), ih h.2]

theorem partsBetween_append (h : mark ∉ p) (s : Octets) :
    partsBetween mark (p ++ mark :: s) = p :: s.partsBetween mark := by
  induction p with
  | nil => rw [List.nil_append, partsBetween, if_pos rfl]
  | cons b p ih =>
    rw [List.mem_cons, not_or] at h
    rw [List.cons_append, partsBetween, if_neg (Ne.symm h.1), ih h.2]

end Octets

/-! ## Calls that are refused -/

def Reply.IsRefusal : Reply → Prop
  | .event (.error _) | .done (.error _) | .events (.error _) => True
  | _ => False

theorem EventMap.Step.eq_of_isRefusal {M M' : EventMap} {c : Call} {r : Reply} (h : M.Step c r M')
    (hr : r.IsRefusal) : M' = M := by
  cases h <;> first | rfl | exact hr.elim

namespace EventStore

variable {s : EventStore}

theorem create_of_error {id : String} {e : Event} {err : StoreError}
    (h : (s.create id e).1 = .error err) : (s.create id e).2 = s := by
  cases s with
  | memory m =>
    simp only [create, MemoryStore.create] at h ⊢
    split at h
    · rfl
    · split_ifs at h ⊢
      rfl
  | table t =>
    simp only [create, onTable, EventTable.run_create] at h ⊢
    split at h
    · rfl
    · split_ifs at h ⊢
      rfl

theorem update_of_error {e : Event} {err : StoreError} (h : (s.update e).1 = .error err) :
    (s.update e).2 = s := by
  obtain ⟨_, hs⟩ | ⟨hok, -⟩ := s.update_cases e
  · rw [hs]
  · rw [hok] at h
    cases h

theorem delete_of_error {id : String} {err : StoreError} (h : (s.delete id).1 = .error err) :
    (s.delete id).2 = s := by
  cases s with
  | memory m =>
    simp only [delete, MemoryStore.delete] at h ⊢
    split_ifs at h ⊢
    rfl
  | table t =>
    simp only [delete, onTable, EventTable.run_delete] at h ⊢
    split_ifs at h with hm
    refine congrArg table (List.filter_eq_self.2 fun r hr => decide_eq_true fun hid => hm ?_)
    exact ⟨r, hr, hid⟩

theorem call_of_isRefusal {c : Call} (h : (s.call c).1.IsRefusal) : (s.call c).2 = s := by
  cases c with
  | create id e =>
    rw [call_create] at h ⊢
    rcases hr : (s.create id.text e).1 with err | e'
    · exact create_of_error hr
    · rw [hr] at h
      exact h.elim
  | update e =>
    rw [call_update] at h ⊢
    rcases hr : (s.update e).1 with err | u
    · exact update_of_error hr
    · rw [hr] at h
      exact h.elim
  | delete id =>
    rw [call_delete] at h ⊢
    rcases hr : (s.delete id).1 with err | u
    · exact delete_of_error hr
    · rw [hr] at h
      exact h.elim
  | get id => rfl
  | list start finish => rfl

variable {k : StorageKind} {es : List Event}

theorem exists_call (h : IsAgenda es) (hes : ∀ e ∈ es, k.Fits e) {c : Call}
    (hc : TakesStep k es c) :
    ∃ r es', (ofEvents k es).call c = (r, ofEvents k es') ∧ IsAgenda es' ∧ (∀ e ∈ es', k.Fits e)
      ∧ EventMap.Step (.ofEvents es) c r (.ofEvents es') ∧ (r.IsRefusal → es' = es) := by
  obtain ⟨r, es', hcall, ha, hf, hs⟩ := hc
  -- A step that leaves the map alone may still leave the events in another order.
  by_cases hr : r.IsRefusal
  · have hstore : ((ofEvents k es).call c).2 = ofEvents k es :=
      call_of_isRefusal (by rw [hcall]; exact hr)
    have hM := hs.eq_of_isRefusal hr
    refine ⟨r, es, ?_, h, hes, hM ▸ hs, fun _ => rfl⟩
    rw [hcall] at hstore
    exact hcall.trans (congrArg _ hstore)
  · exact ⟨r, es', hcall, ha, hf, hs, fun hr' => absurd hr' hr⟩

end EventStore

namespace Api

/-! ## Reminders -/

namespace EventBody

/-- The event is the one that the body describes, under this id: its reminder, if the body sets one,
is so many seconds before the start. -/
inductive Describes (b : EventBody) (id : String) : Event → Prop
  | plain (hn : b.notifyBefore = none) :
      Describes b id ⟨id, b.title, b.description, b.startTime, b.endTime, b.userId, none⟩
  | reminding {n : Int} {t : Instant} (hn : b.notifyBefore = some n) (h : 0 ≤ n)
      (ho : t.IsOrdinary) (ht : t.nanos + Span.ofSeconds n = b.startTime.nanos) :
      Describes b id ⟨id, b.title, b.description, b.startTime, b.endTime, b.userId, some t⟩

/-- Why the body describes no event: it wants a reminder after the start, or before the calendar
begins. -/
inductive Unremindable (b : EventBody) : NotifyFault → Prop
  | negative {n : Int} (hn : b.notifyBefore = some n) (h : n < 0) : Unremindable b .negative
  | outOfRange {n : Int} (hn : b.notifyBefore = some n) (h : 0 ≤ n)
      (ht : b.startTime.nanos - Span.ofSeconds n < Instant.first.nanos) :
      Unremindable b .outOfRange

variable {b : EventBody} {id : String}

theorem Describes.unique {e e' : Event} (h : b.Describes id e) (h' : b.Describes id e') :
    e = e' := by
  cases h with
  | plain hn =>
    cases h' with
    | plain => rfl
    | reminding hn' => simp [hn] at hn'
  | reminding hn _ ho ht =>
    cases h' with
    | plain hn' => simp [hn] at hn'
    | reminding hn' _ ho' ht' =>
      obtain rfl : _ = _ := Option.some.inj (hn.symm.trans hn')
      rw [Instant.eq_of_nanos_eq ho ho' (by omega)]

theorem Unremindable.unique {f f' : NotifyFault} (h : b.Unremindable f)
    (h' : b.Unremindable f') : f = f' := by
  cases h <;> cases h' <;> simp_all <;> omega

theorem Unremindable.not_describes {f : NotifyFault} {e : Event} (h : b.Unremindable f) :
    ¬ b.Describes id e := by
  intro h'
  cases h' with
  | plain hn => cases h <;> simp_all
  | reminding hn hle ho ht =>
    cases h with
    | negative hn' h =>
      obtain rfl : _ = _ := Option.some.inj (hn.symm.trans hn')
      omega
    | outOfRange hn' _ hlt =>
      obtain rfl : _ = _ := Option.some.inj (hn.symm.trans hn')
      have := (Instant.nanos_le_nanos Instant.isOrdinary_first ho).2 (Instant.first_le _)
      omega

/-- What is made of a body is the event that it describes, or the reason that there is none. -/
theorem event_spec (hb : b.startTime.IsOrdinary) (id : String) :
    match b.event id with
    | .ok e => b.Describes id e
    | .error fault => b.Unremindable fault := by
  rcases hn : b.notifyBefore with _ | n
  · simp only [event, hn]
    exact .plain hn
  · simp only [event, hn, Option.mapM_some, reminder]
    by_cases hneg : n < 0
    · rw [if_pos hneg]
      exact .negative hn hneg
    · have hle : 0 ≤ n := Int.not_lt.1 hneg
      rw [if_neg hneg]
      by_cases hlong : Span.longest < Span.ofSeconds n
      · rw [if_pos hlong]
        exact .outOfRange hn hle
          (Int.lt_of_lt_of_le (Int.sub_lt_sub_left hlong _) (Instant.longest_le_first hb))
      · rw [if_neg hlong]
        rcases ht : b.startTime.add? (-Span.ofSeconds n) with _ | t
        · simp only [Instant.sub?, ht]
          rw [Instant.add?_eq_none_iff hb] at ht
          have hlast := (Instant.nanos_le_nanos hb Instant.isOrdinary_last).2 (Instant.le_last hb)
          have hpos : (0 : Int) ≤ Span.ofSeconds n := Int.mul_nonneg hle (by decide)
          exact .outOfRange hn hle (by omega)
        · simp only [Instant.sub?, ht]
          obtain ⟨ho, hnanos⟩ := (Instant.add?_eq_some_iff hb).1 ht
          exact .reminding hn hle ho (by omega)

theorem Describes.isOrdinary {e : Event} (h : b.Describes id e) (hs : b.startTime.IsOrdinary)
    (he : b.endTime.IsOrdinary) : e.IsOrdinary := by
  cases h with
  | plain => exact ⟨hs, he, by simp⟩
  | reminding _ _ ho => exact ⟨hs, he, by simpa using ho⟩

theorem Describes.id_eq {e : Event} (h : b.Describes id e) : e.id = id := by
  cases h <;> rfl

end EventBody

/-! ## Rulings -/

/-- What a client asks for, with what was made of the body that it sent. -/
inductive Ask
  | create (body : Except ApiError EventBody)
  | replace (id : String) (body : Except ApiError EventBody)
  | get (id : String)
  | delete (id : String)

inductive Outcome
  | refused (status : Nat) (code message : String)
  | shown (status : Nat) (e : Event)
  | removed

namespace Outcome

def badRequest (message : String) : Outcome := .refused 400 "INVALID_REQUEST" message

def badEvent (flaw : Event.Flaw) : Outcome :=
  .refused 400 "INVALID_EVENT" ("invalid event data: " ++ flaw.message)

def notFound (id : String) : Outcome := .refused 404 "EVENT_NOT_FOUND" ("event not found: " ++ id)

def busy : Outcome := .refused 409 "DATE_BUSY" "time slot is already busy"

def response : Outcome → HttpResponse
  | .refused status code message =>
    ⟨status, .json (String.ofList
      (Json.object [("error", Json.quoted message), ("code", Json.quoted code)]))⟩
  | .shown status e => ⟨status, .json (String.ofList (EventView.ofEvent e).chars)⟩
  | .removed => ⟨204, .empty⟩

end Outcome

/-- What a client is told at this instant, when these are the events and an event that is made would
get the id `new`; and the events afterwards. -/
inductive Ruling (now : Instant) (new : String) (M : EventMap) : Ask → Outcome → EventMap → Prop
  | createUnread {err : ApiError} :
      Ruling now new M (.create (.error err)) (.badRequest err.message) M
  | createLate {b : EventBody} (ht : b.startTime ≤ now) :
      Ruling now new M (.create (.ok b)) (.badRequest "start_time must be in the future") M
  | createUnremindable {b : EventBody} {fault : NotifyFault} (ht : ¬ b.startTime ≤ now)
      (hr : b.Unremindable fault) :
      Ruling now new M (.create (.ok b)) (.badRequest (ApiError.notify fault).message) M
  | createInvalid {b : EventBody} {e : Event} {flaw : Event.Flaw} (ht : ¬ b.startTime ≤ now)
      (he : b.Describes "" e) (hf : e.atStoragePrecision.flaw? = some flaw) :
      Ruling now new M (.create (.ok b)) (.badEvent flaw) M
  | createBusy {b : EventBody} {e : Event} (ht : ¬ b.startTime ≤ now) (he : b.Describes "" e)
      (hf : e.atStoragePrecision.flaw? = none) (hb : M.IsTaken e.atStoragePrecision) :
      Ruling now new M (.create (.ok b)) .busy M
  | create {b : EventBody} {e : Event} (ht : ¬ b.startTime ≤ now) (he : b.Describes "" e)
      (hf : e.atStoragePrecision.flaw? = none) (hb : ¬ M.IsTaken e.atStoragePrecision) :
      Ruling now new M (.create (.ok b)) (.shown 201 { e.atStoragePrecision with id := new })
        (M.insert new { e.atStoragePrecision with id := new })
  | replaceUnread {id : String} {err : ApiError} :
      Ruling now new M (.replace id (.error err)) (.badRequest err.message) M
  | replaceUnremindable {id : String} {b : EventBody} {fault : NotifyFault}
      (hr : b.Unremindable fault) :
      Ruling now new M (.replace id (.ok b)) (.badRequest (ApiError.notify fault).message) M
  | replaceInvalid {id : String} {b : EventBody} {e : Event} {flaw : Event.Flaw}
      (he : b.Describes id e) (hf : e.atStoragePrecision.flaw? = some flaw) :
      Ruling now new M (.replace id (.ok b)) (.badEvent flaw) M
  | replaceNotFound {id : String} {b : EventBody} {e : Event} (he : b.Describes id e)
      (hf : e.atStoragePrecision.flaw? = none) (hm : id ∉ M) :
      Ruling now new M (.replace id (.ok b)) (.notFound id) M
  | replaceBusy {id : String} {b : EventBody} {e : Event} (he : b.Describes id e)
      (hf : e.atStoragePrecision.flaw? = none) (hm : id ∈ M)
      (hb : M.IsTakenByOther e.atStoragePrecision) :
      Ruling now new M (.replace id (.ok b)) .busy M
  | replace {id : String} {b : EventBody} {e : Event} (he : b.Describes id e)
      (hf : e.atStoragePrecision.flaw? = none) (hm : id ∈ M)
      (hb : ¬ M.IsTakenByOther e.atStoragePrecision) :
      Ruling now new M (.replace id (.ok b)) (.shown 200 e.atStoragePrecision)
        (M.insert id e.atStoragePrecision)
  | getNotFound {id : String} (hm : M.lookup id = none) : Ruling now new M (.get id) (.notFound id) M
  | get {id : String} {e : Event} (hm : M.lookup id = some e) :
      Ruling now new M (.get id) (.shown 200 e) M
  | deleteNotFound {id : String} (hm : id ∉ M) : Ruling now new M (.delete id) (.notFound id) M
  | delete {id : String} (hm : id ∈ M) : Ruling now new M (.delete id) .removed (M.erase id)

theorem Ruling.unique {now : Instant} {new : String} {M M₁ M₂ : EventMap} {ask : Ask}
    {o₁ o₂ : Outcome} (h₁ : Ruling now new M ask o₁ M₁) (h₂ : Ruling now new M ask o₂ M₂) :
    o₁ = o₂ ∧ M₁ = M₂ := by
  -- Of two rulings for one request, the later one in the order of checks has passed what the other
  -- stops at.
  cases h₁ <;> cases h₂ <;>
    grind [EventBody.Describes.unique, EventBody.Unremindable.unique,
      EventBody.Unremindable.not_describes]

theorem Ruling.isValid_of_shown {now : Instant} {new : String} {es : List Event} {M : EventMap}
    {ask : Ask} {status : Nat} {e : Event}
    (h : Ruling now new (.ofEvents es) ask (.shown status e) M) (hes : IsAgenda es) :
    e.IsValid := by
  cases h with
  | create _ _ hf _ =>
    have hv := Event.flaw?_eq_none_iff.1 hf
    exact ⟨hv.title, hv.userId, hv.startTime_le, hv.reminderAt_le⟩
  | replace _ hf _ _ => exact Event.flaw?_eq_none_iff.1 hf
  | get hm => exact hes.isValid e ((EventMap.lookup_ofEvents hes.ids_nodup).1 hm).1

/-! ## Requests -/

/-- The path is that of one event, whose id is written in it with percent signs. -/
def Target.NamesEvent (t : Target) (id : String) : Prop :=
  ∃ part : Octets, part ≠ [] ∧ slash ∉ part ∧ t.path = octetsOf "/events/" ++ part
    ∧ part.percentDecode.text? = some id

theorem Target.NamesEvent.exists_route {t : Target} {id : String} (h : t.NamesEvent id) :
    ∃ part, Route.ofPath? t.path = some (.event part) ∧ part.percentDecode.text? = some id := by
  obtain ⟨part, hne, hmem, hpath, hid⟩ := h
  refine ⟨part, ?_, hid⟩
  have hparts : t.path.partsBetween slash = [[], octetsOf "events", part] := by
    have hsplit : octetsOf "/events/" ++ part
        = [] ++ slash :: (octetsOf "events" ++ slash :: part) := by
      have : octetsOf "/events/" = slash :: (octetsOf "events" ++ [slash]) := by decide
      simp [this]
    rw [hpath, hsplit, Octets.partsBetween_append (by simp),
      Octets.partsBetween_append (by decide), Octets.partsBetween_eq_singleton hmem]
  simp only [Route.ofPath?, hparts, true_and, if_pos hne]

inductive Ask.IsMadeBy (r : HttpRequest) : Ask → Prop
  | create (hm : r.method = .post) (hp : r.target.path = octetsOf "/events") :
      IsMadeBy r (.create (Gateway.readBody r))
  | replace {id : String} (hm : r.method = .put) (ht : r.target.NamesEvent id) :
      IsMadeBy r (.replace id (Gateway.readBody r))
  | get {id : String} (hm : r.method = .get) (ht : r.target.NamesEvent id) : IsMadeBy r (.get id)
  | delete {id : String} (hm : r.method = .delete) (ht : r.target.NamesEvent id) :
      IsMadeBy r (.delete id)

/-- The body, if there is one that can be read, has no instant in a leap second. -/
def Ask.IsOrdinary : Ask → Prop
  | .create (.ok b) | .replace _ (.ok b) => b.startTime.IsOrdinary ∧ b.endTime.IsOrdinary
  | _ => True

instance : ∀ ask : Ask, Decidable ask.IsOrdinary
  | .create (.ok _) | .replace _ (.ok _) => inferInstanceAs (Decidable (_ ∧ _))
  | .create (.error _) | .replace _ (.error _) | .get _ | .delete _ => isTrue trivial

namespace Gateway

/-- A gateway over a store of a kind with these events. -/
def held (k : StorageKind) (es : List Event) (given : Nat) : Gateway EventStore :=
  ⟨.ofEvents k es, given⟩

variable {k : StorageKind} {es : List Event} {ask : Ask} {now : Instant} {ids : Nat → String}
variable {r : HttpRequest}

theorem readBody_error {err : ApiError} (h : readBody r = .error err) :
    err.status = 400 ∧ err.code = "INVALID_REQUEST" := by
  unfold readBody at h
  split_ifs at h
  · cases h
    exact ⟨rfl, rfl⟩
  · rcases hb : EventBody.ofOctets r.body with fault | b
    · rw [hb] at h
      cases h
      exact ⟨rfl, rfl⟩
    · rw [hb] at h
      cases h
  · cases h
    exact ⟨rfl, rfl⟩

theorem readBody_of_tooLong (hjson : ∃ t ∈ r.mediaType, isJsonType t = true)
    (h : bodyLimit < r.body.length) : readBody r = .error .tooLong := by
  obtain ⟨t, ht, hjson⟩ := hjson
  rw [Option.mem_def] at ht
  simp [readBody, ht, hjson, h]

/-- A body is read if it is said to be JSON, is not too long, and describes an event. -/
theorem readBody_eq_ok_iff {b : EventBody} : readBody r = .ok b
    ↔ (∃ t ∈ r.mediaType, isJsonType t = true) ∧ r.body.length ≤ bodyLimit
      ∧ EventBody.ofOctets r.body = .ok b := by
  have hjson : (r.mediaType.map isJsonType).getD false = true
      ↔ ∃ t ∈ r.mediaType, isJsonType t = true := by
    cases r.mediaType <;> simp
  rw [readBody, ← hjson, ← Nat.not_lt]
  split_ifs with hj hlong
  · simp [hlong]
  · rcases EventBody.ofOctets r.body with fault | b' <;> simp [hj, hlong, Except.mapError]
  · simp [hj]

/-- The gateway gives the outcome of a ruling and then keeps the events that the ruling leaves; a
refusal leaves it the very list of events, and no id is used up. -/
def IsRuled (now : Instant) (new : String) (k : StorageKind) (es : List Event)
    (given : Nat) (ask : Ask) (result : HttpResponse × Gateway EventStore) : Prop :=
  ∃ outcome es' given', result = (outcome.response, held k es' given')
    ∧ IsAgenda es' ∧ (∀ e ∈ es', k.Fits e)
    ∧ Ruling now new (.ofEvents es) ask outcome (.ofEvents es')
    ∧ (400 ≤ outcome.response.status → es' = es ∧ given' = given)

variable {given : Nat}

theorem isRuled_of_keeps {new : String} {o : Outcome} (h : IsAgenda es) (hes : ∀ e ∈ es, k.Fits e)
    (ho : Ruling now new (.ofEvents es) ask o (.ofEvents es)) :
    IsRuled now new k es given ask (o.response, held k es given) :=
  ⟨o, es, given, rfl, h, hes, ho, fun _ => ⟨rfl, rfl⟩⟩

theorem create_isRuled (h : IsAgenda es) (hes : ∀ e ∈ es, k.Fits e)
    (hnew : ids given ∉ es.map (·.id)) (hne : ids given ≠ "")
    (hord : (Ask.create (readBody r)).IsOrdinary) :
    IsRuled now (ids given) k es given (.create (readBody r))
      (respond (.ofEvent 201) (create ids now r (held k es given))) := by
  unfold create
  rcases hb : readBody r with err | b
  · obtain ⟨hs, hc⟩ := readBody_error hb
    simp only [respond, HttpResponse.ofError, hs, hc]
    exact isRuled_of_keeps h hes .createUnread
  rw [hb] at hord
  by_cases ht : b.startTime ≤ now
  · simp only [if_pos ht]
    exact isRuled_of_keeps h hes (.createLate ht)
  simp only [if_neg ht]
  have hspec := EventBody.event_spec hord.1 ""
  rcases he : b.event "" with fault | e <;> rw [he] at hspec
  · exact isRuled_of_keeps h hes (.createUnremindable ht hspec)
  · have hstep : EventStore.TakesStep k es (.create ⟨ids given, hne⟩ e) :=
      EventStore.create_takesStep h hes (by rwa [EventStore.ids_ofEvents])
        fun _ => hspec.isOrdinary hord.1 hord.2
    obtain ⟨reply, es', hcall, ha, hf, hs, href⟩ := EventStore.exists_call h hes hstep
    rw [EventStore.call_create, Prod.mk.injEq] at hcall
    obtain ⟨hreply, hstore⟩ := hcall
    rcases hp : (EventStore.ofEvents k es).create (ids given) e with ⟨result, store⟩
    simp only [hp] at hreply hstore
    simp only [held, EventStore.calls_create, hp, hstore]
    -- Freed from the list it comes from, the map that is left can be matched with the rules.
    generalize hM : EventMap.ofEvents es' = M' at hs
    cases hs with
    | createInvalid hflaw =>
      obtain rfl := href trivial
      rw [Reply.event.inj hreply]
      exact isRuled_of_keeps h hes (.createInvalid ht hspec hflaw)
    | createBusy hflaw htaken =>
      obtain rfl := href trivial
      rw [Reply.event.inj hreply]
      exact isRuled_of_keeps h hes (.createBusy ht hspec hflaw htaken)
    | create hflaw hfree =>
      rw [Reply.event.inj hreply]
      refine ⟨.shown 201 _, es', given + 1, rfl, ha, hf, ?_,
        fun hle => absurd hle (show ¬ 400 ≤ 201 by decide)⟩
      rw [hM]
      exact .create ht hspec hflaw hfree

theorem replace_isRuled (h : IsAgenda es) (hes : ∀ e ∈ es, k.Fits e) (id new : String)
    (hord : (Ask.replace id (readBody r)).IsOrdinary) :
    IsRuled now new k es given (.replace id (readBody r))
      (respond (.ofEvent 200) (replace id r (held k es given))) := by
  unfold replace
  rcases hb : readBody r with err | b
  · obtain ⟨hs, hc⟩ := readBody_error hb
    simp only [respond, HttpResponse.ofError, hs, hc]
    exact isRuled_of_keeps h hes .replaceUnread
  rw [hb] at hord
  have hspec := EventBody.event_spec hord.1 id
  rcases he : b.event id with fault | e <;> rw [he] at hspec
  · simp only [he]
    exact isRuled_of_keeps h hes (.replaceUnremindable hspec)
  · obtain rfl : e.id = id := hspec.id_eq
    have hstep : EventStore.TakesStep k es (.update e.atStoragePrecision) :=
      EventStore.update_takesStep h hes fun _ =>
        (hspec.isOrdinary hord.1 hord.2).atStoragePrecision
    obtain ⟨reply, es', hcall, ha, hf, hs, href⟩ := EventStore.exists_call h hes hstep
    rw [EventStore.call_update, Prod.mk.injEq] at hcall
    obtain ⟨hreply, hstore⟩ := hcall
    rcases hp : (EventStore.ofEvents k es).update e.atStoragePrecision with ⟨result, store⟩
    simp only [hp] at hreply hstore
    simp only [he, held, EventStore.calls_update, hp, hstore]
    generalize hM : EventMap.ofEvents es' = M' at hs
    have htwice := e.atStoragePrecision_atStoragePrecision
    cases hs with
    | updateInvalid hflaw =>
      obtain rfl := href trivial
      rw [Reply.done.inj hreply]
      exact isRuled_of_keeps h hes (.replaceInvalid hspec (htwice ▸ hflaw))
    | updateNotFound hflaw hm =>
      obtain rfl := href trivial
      rw [Reply.done.inj hreply]
      exact isRuled_of_keeps h hes (.replaceNotFound hspec (htwice ▸ hflaw) hm)
    | updateBusy hflaw hm htaken =>
      obtain rfl := href trivial
      rw [Reply.done.inj hreply]
      exact isRuled_of_keeps h hes (.replaceBusy hspec (htwice ▸ hflaw) hm (htwice ▸ htaken))
    | update hflaw hm hfree =>
      rw [htwice] at hflaw hfree hM
      rw [Reply.done.inj hreply]
      refine ⟨.shown 200 _, es', given, rfl, ha, hf, ?_,
        fun hle => absurd hle (show ¬ 400 ≤ 200 by decide)⟩
      rw [hM]
      exact .replace hspec hflaw hm hfree

theorem get_isRuled (h : IsAgenda es) (hes : ∀ e ∈ es, k.Fits e) (id new : String) :
    IsRuled now new k es given (.get id)
      (respond (.ofEvent 200) (get id (held k es given), held k es given)) := by
  obtain ⟨reply, es', hcall, -, -, hs, -⟩ := EventStore.exists_call h hes
    (EventStore.get_takesStep h hes id)
  obtain ⟨hreply, -⟩ := Prod.mk.inj hcall
  have hget : get id (held k es given)
      = ((EventStore.ofEvents k es).get id).mapError .store := rfl
  rw [hget]
  generalize EventMap.ofEvents es' = M' at hs
  cases hs with
  | getNotFound hm =>
    rw [Reply.event.inj hreply]
    exact isRuled_of_keeps h hes (.getNotFound hm)
  | get hm =>
    rw [Reply.event.inj hreply]
    exact isRuled_of_keeps h hes (.get hm)

theorem delete_isRuled (h : IsAgenda es) (hes : ∀ e ∈ es, k.Fits e) (id new : String) :
    IsRuled now new k es given (.delete id)
      (respond (fun _ => .bare 204) (delete id (held k es given))) := by
  obtain ⟨reply, es', hcall, ha, hf, hs, href⟩ := EventStore.exists_call h hes
    (EventStore.delete_takesStep h hes id)
  rw [EventStore.call_delete, Prod.mk.injEq] at hcall
  obtain ⟨hreply, hstore⟩ := hcall
  rcases hp : (EventStore.ofEvents k es).delete id with ⟨result, store⟩
  simp only [hp] at hreply hstore
  simp only [delete, held, EventStore.calls_delete, hp, hstore]
  generalize hM : EventMap.ofEvents es' = M' at hs
  cases hs with
  | deleteNotFound hm =>
    obtain rfl := href trivial
    rw [Reply.done.inj hreply]
    exact isRuled_of_keeps h hes (.deleteNotFound hm)
  | delete hm =>
    rw [Reply.done.inj hreply]
    refine ⟨.removed, es', given, rfl, ha, hf, ?_,
      fun hle => absurd hle (show ¬ 400 ≤ 204 by decide)⟩
    rw [hM]
    exact .delete hm

/-- Every request for one of these is answered as the one ruling on it says, and the events are then
those that the ruling leaves; a refusal leaves the very list that there was. What is sent of an
event that is shown is read as the view of that event. -/
theorem answer_isRuled (h : IsAgenda es) (hes : ∀ e ∈ es, k.Fits e)
    (hnew : ids given ∉ es.map (·.id)) (hne : ids given ≠ "") (hask : ask.IsMadeBy r)
    (hord : ask.IsOrdinary) :
    ∃ outcome es' given',
      answer ids now r (held k es given) = (outcome.response, held k es' given')
        ∧ IsAgenda es' ∧ (∀ e ∈ es', k.Fits e)
        ∧ (∀ o M, Ruling now (ids given) (.ofEvents es) ask o M
          ↔ o = outcome ∧ M = .ofEvents es')
        ∧ (400 ≤ outcome.response.status → es' = es ∧ given' = given)
        ∧ ∀ status e, outcome = .shown status e → e.IsOrdinary →
          EventView.ofOctets (EventView.ofEvent e).payload = .ok (.ofEvent e) := by
  obtain ⟨outcome, es', given', hres, ha, hf, hruling, hkeeps⟩ :
      IsRuled now (ids given) k es given ask
        (answer ids now r (held k es given)) := by
    unfold answer
    cases hask with
    | create hm hp =>
      have hroute : Route.ofPath? r.target.path = some .events := by
        rw [hp]
        decide
      simp only [route, hroute, onEvents, hm, reduceCtorEq, if_false]
      exact create_isRuled h hes hnew hne hord
    | replace hm ht =>
      obtain ⟨part, hroute, hid⟩ := ht.exists_route
      simp only [route, hroute, hid, onEvent, hm, reduceCtorEq, if_false]
      exact replace_isRuled h hes _ _ hord
    | get hm ht =>
      obtain ⟨part, hroute, hid⟩ := ht.exists_route
      simp only [route, hroute, hid, onEvent, hm, reduceCtorEq, if_false]
      exact get_isRuled h hes _ _
    | delete hm ht =>
      obtain ⟨part, hroute, hid⟩ := ht.exists_route
      simp only [route, hroute, hid, onEvent, hm, reduceCtorEq, if_false]
      exact delete_isRuled h hes _ _
  refine ⟨outcome, es', given', hres, ha, hf, fun o M => ⟨fun h' => h'.unique hruling, ?_⟩, hkeeps,
    fun status e hshown he => ?_⟩
  · rintro ⟨rfl, rfl⟩
    exact hruling
  · subst hshown
    have hv := hruling.isValid_of_shown h
    exact EventView.ofOctets_payload (EventView.isShowable_ofEvent he hv.reminderAt_le)

/-- A request to make an event as 2030 begins, with a reminder so many seconds before it. -/
def newYear (seconds : String) : HttpRequest where
  method := .post
  target := .ofText "/events"
  mediaType := some "application/json"
  body := octetsOf ("\x7b\"title\":\"Party\",\"user_id\":\"ada\",\"start_time\":\"2030-01-01T00:00:00Z\","
    ++ "\"end_time\":\"2030-01-01T06:00:00Z\",\"notify_before\":" ++ seconds ++ "\x7d")

theorem answer_isRuled_newYear :
    ∃ outcome es' given',
      answer toString Instant.beforeEpoch (newYear "60")
          (held .database [.dinner "a" "Dinner" Instant.beforeEpoch.floorMicros] 0)
        = (outcome.response, held .database es' given')
        ∧ IsAgenda es' ∧ (∀ e ∈ es', StorageKind.Fits .database e)
        ∧ (∀ o M, Ruling Instant.beforeEpoch "0"
            (.ofEvents [.dinner "a" "Dinner" Instant.beforeEpoch.floorMicros])
            (.create (readBody (newYear "60"))) o M ↔ o = outcome ∧ M = .ofEvents es')
        ∧ (400 ≤ outcome.response.status →
          es' = [.dinner "a" "Dinner" Instant.beforeEpoch.floorMicros] ∧ given' = 0)
        ∧ ∀ status e, outcome = .shown status e → e.IsOrdinary →
          EventView.ofOctets (EventView.ofEvent e).payload = .ok (.ofEvent e) :=
  answer_isRuled (by decide) (by decide) (by decide) (by decide)
    (.create rfl (by decide)) (by decide +kernel)

-- The event is neither to come nor to be reminded of; the client is told the first of these.
example :
    (answer toString (.atTime 1893456000 0) (newYear "-1") (held .memory [] 0)).1
      = (Outcome.badRequest "start_time must be in the future").response := by
  decide +kernel

end Gateway

end Api

end Datebook

import Datebook.Api.Body
import Datebook.Proofs.Validity
import Datebook.Proofs.Wire

/-!
# Views read back

The text of a view gives each of its members (`EventView.gives_members`), so a client reads the view
from it, with nothing lost or added (`EventView.ofOctets_payload`). A view has all that a body has,
and an id, which a body's fields pass over, so its text is also read as the body that says the same
(`EventBody.ofOctets_view`). The reminder is a count of seconds, written as a number without
fraction or exponent.
-/

namespace Datebook

namespace Json

theorem encoded_digitChar : ∀ d < 10, encoded [d.digitChar] = [UInt8.ofNat (48 + d)]
    ∧ IsDigits [UInt8.ofNat (48 + d)] ∧ digitRun [UInt8.ofNat (48 + d)] = [d] := by
  unfold IsDigits
  decide +kernel

theorem IsDigits.append {ds es : Octets} (hd : IsDigits ds) (he : IsDigits es) :
    IsDigits (ds ++ es) ∧ digitRun (ds ++ es) = digitRun ds ++ digitRun es := by
  have h : IsDigits (ds ++ es) := by
    refine ⟨by simp [hd.1], fun b hb => ?_⟩
    rcases List.mem_append.1 hb with hb | hb
    · exact hd.2 b hb
    · exact he.2 b hb
  exact ⟨h, by rw [digitRun_digits h, digitRun_digits hd, digitRun_digits he, List.map_append]⟩

/-- The digits of a number give it back, and begin with 0 only if it is 0. -/
theorem digits_spec (n : Nat) :
    IsDigits (encoded (Nat.toDigits 10 n)) ∧ natOf (digitRun (encoded (Nat.toDigits 10 n))) = n
      ∧ ((digitRun (encoded (Nat.toDigits 10 n))).head? = some 0 → n = 0) := by
  induction n using Nat.strongRecOn with
  | ind n ih =>
    -- The last digit is written after those of the tenth of the number.
    rw [Nat.toDigits_eq_if (by decide)]
    split_ifs with hn
    · obtain ⟨hchar, hdigits, hrun⟩ := encoded_digitChar n hn
      rw [hchar, hrun]
      exact ⟨hdigits, by simp [natOf], by simp⟩
    · obtain ⟨hchar, hdigits, hrun⟩ := encoded_digitChar (n % 10) (Nat.mod_lt n (by decide))
      obtain ⟨hds, hvalue, hhead⟩ := ih (n / 10) (by omega)
      obtain ⟨happend, hrun'⟩ := hds.append hdigits
      rw [encoded_append, hchar, hrun', hrun]
      refine ⟨happend, ?_, fun h => ?_⟩
      · rw [natOf, List.foldl_append, ← natOf, hvalue]
        simp only [List.foldl_cons, List.foldl_nil]
        omega
      · have hne : digitRun (encoded (Nat.toDigits 10 (n / 10))) ≠ [] := by
          rw [digitRun_digits hds]
          simpa using hds.1
        rw [List.head?_append_of_ne_nil _ hne] at h
        have := hhead h
        omega

theorem numeral?_digits {ds : Octets} (hd : IsDigits ds)
    (hz : ds.head? = some 0x30 → ds.length = 1) :
    numeral? ds = some (⟨false, digitRun ds, none, none⟩, []) := by
  have hlead := not_leading_zero hd hz
  obtain ⟨hrun, hdrop⟩ := digits_append hd (s := []) (by rintro b ⟨⟩)
  obtain ⟨d, t, rfl⟩ := List.exists_cons_of_ne_nil hd.1
  have hminus : d ≠ 0x2D := by
    rintro rfl
    cases hd.2 0x2D (by simp)
  rw [List.append_nil] at hdrop
  unfold numeral?
  simp [hminus, hdrop, isEmpty_digitRun hd, hlead, fraction?, exponent?]

/-- A number of seconds is a value, and read as that number if it fits into 63 bits. -/
theorem integer_written {n : Int} (hn : 0 ≤ n) :
    IsValue (encoded (toString n).toList)
      ∧ (n < twoTo 63 → Denotes .optionalInteger (.integer n) (encoded (toString n).toList)) := by
  obtain ⟨m, rfl⟩ := Int.eq_ofNat_of_zero_le hn
  have htext : (toString (m : Int)).toList = Nat.toDigits 10 m := Nat.toList_repr
  obtain ⟨hdigits, hvalue, hhead⟩ := digits_spec m
  have hz : (encoded (Nat.toDigits 10 m)).head? = some 0x30 →
      (encoded (Nat.toDigits 10 m)).length = 1 := by
    intro h
    obtain rfl := hhead (by rw [digitRun_digits hdigits, List.head?_map, h]; rfl)
    decide
  rw [htext]
  refine ⟨.numeral ?_, fun hlt => ⟨_, numeral?_digits hdigits hz, ?_, hlt⟩⟩
  · simpa using IsNumeral.mk (Or.inl rfl) hdigits hz .none .none
  · have hlt' : m < twoTo 64 := by
      rw [twoTo_succ]
      omega
    simp [Numeral.integer?, hvalue, hlt']

end Json

/-- All of the calendar has fewer seconds than a body can name. -/
theorem Instant.secondsSince_bounds {t u : Instant} (ht : t.IsOrdinary) (hu : u.IsOrdinary)
    (h : u ≤ t) : 0 ≤ t.secondsSince u ∧ t.secondsSince u < twoTo 63 := by
  have hle := (nanos_le_nanos hu ht).2 h
  have hfirst := (nanos_le_nanos isOrdinary_first hu).2 u.first_le
  have hlast := (nanos_le_nanos ht isOrdinary_last).2 (le_last ht)
  have hspan : last.nanos - first.nanos < 9223372036854775808 * 1000000000 := by decide
  have hlimit : twoTo 63 = 9223372036854775808 := by decide
  rw [secondsSince, ← nanos_sub_nanos ht hu, Int.tdiv_eq_ediv_of_nonneg (by omega)]
  omega

namespace Api

namespace EventView

open Json in
/-- The members of a view, of which the reminder alone may be left out. -/
def fields : List Field :=
  [⟨"id", .text, none⟩, ⟨"title", .text, none⟩, ⟨"description", .text, none⟩,
    ⟨"start_time", .instant, none⟩, ⟨"end_time", .instant, none⟩, ⟨"user_id", .text, none⟩,
    ⟨"notify_before", .optionalInteger, some .null⟩]

open Json in
def ofCells : List Cell → Except Fault EventView
  | [.text id, .text title, .text description, .instant start, .instant finish, .text user,
      .integer n] =>
    .ok ⟨id, title, description, start, finish, user, some n⟩
  | [.text id, .text title, .text description, .instant start, .instant finish, .text user,
      .null] =>
    .ok ⟨id, title, description, start, finish, user, none⟩
  | _ => .error .mismatch

/-- The view that a client reads from a text. -/
def ofOctets (s : Octets) : Except Json.Fault EventView := (Json.readDocument fields s).bind ofCells

/-- The view as it is sent. -/
def payload (v : EventView) : Octets := octetsOf (String.ofList v.chars)

/-- A timestamp can show the view's instants, and its reminder is a number that a body can have. -/
structure IsShowable (v : EventView) : Prop where
  startTime : v.startTime.HasText
  endTime : v.endTime.HasText
  notifyBefore : ∀ n ∈ v.notifyBefore, 0 ≤ n ∧ n < twoTo 63

/-- The members of the view's text. -/
def members (v : EventView) : List (String × List Char) :=
  [("id", Json.quoted v.id), ("title", Json.quoted v.title),
      ("description", Json.quoted v.description), ("start_time", Json.quoted v.startTime.text),
      ("end_time", Json.quoted v.endTime.text), ("user_id", Json.quoted v.userId)]
    ++ (v.notifyBefore.map fun n => ("notify_before", (toString n).toList)).toList

variable {v : EventView}

theorem payload_eq (v : EventView) : v.payload = Json.encoded (Json.object v.members) :=
  Json.octetsOf_ofList _

/-- A view is as long as it is without its id and its description, and as these two are written. -/
theorem length_payload (v : EventView) :
    v.payload.length = (payload { v with id := "", description := "" }).length
      + (Json.encoded (v.id.toList.flatMap Json.escapeChar)).length
      + (Json.encoded (v.description.toList.flatMap Json.escapeChar)).length := by
  obtain ⟨id, title, description, start, finish, user, notify⟩ := v
  have hempty : Json.encoded ("".toList.flatMap Json.escapeChar) = [] := rfl
  cases notify <;> simp only [payload_eq, members, Json.object, Option.map_none, Option.map_some,
    Option.toList_none, Option.toList_some, List.append_nil, List.cons_append, List.nil_append,
    List.map_cons, List.map_nil, List.intersperse_cons_cons, List.intersperse_singleton,
    List.flatten_cons, List.flatten_nil, Json.encoded_append, Json.encoded_cons, Json.encoded_nil,
    Json.encoded_quoted, List.length_append, List.length_cons, List.length_nil, hempty]
  · omega
  · omega

theorem isValue_members (h : v.IsShowable) : ∀ m ∈ v.members, Json.IsValue (Json.encoded m.2) := by
  obtain ⟨id, title, description, start, finish, user, _ | n⟩ := v
  · simp [members, Json.isValue_quoted]
  · simpa [members, Json.isValue_quoted] using (Json.integer_written (h.notifyBefore n rfl).1).1

/-- The members after the id give the fields that a view and a body have in common. -/
theorem gives_members (h : v.IsShowable) (fallback : Option Json.Cell) :
    List.Forall₂ (Json.Gives (v.members.map fun m => (m.1, Json.encoded m.2)))
      [⟨"title", .text, none⟩, ⟨"description", .text, fallback⟩, ⟨"start_time", .instant, none⟩,
        ⟨"end_time", .instant, none⟩, ⟨"user_id", .text, none⟩,
        ⟨"notify_before", .optionalInteger, some .null⟩]
      [.text v.title, .text v.description, .instant v.startTime, .instant v.endTime,
        .text v.userId, (v.notifyBefore.map Json.Cell.integer).getD .null] := by
  obtain ⟨id, title, description, start, finish, user, notify⟩ := v
  refine .cons (.inl ⟨_, ?_, Json.spellsText_quoted title⟩) <|
    .cons (.inl ⟨_, ?_, Json.spellsText_quoted description⟩) <|
    .cons (.inl ⟨_, ?_, Json.denotes_text h.startTime⟩) <|
    .cons (.inl ⟨_, ?_, Json.denotes_text h.endTime⟩) <|
    .cons (.inl ⟨_, ?_, Json.spellsText_quoted user⟩) <| .cons ?_ .nil
  all_goals rcases notify with _ | n
  -- The reminder comes last; the other goals are the names of the fields.
  on_goal 11 => exact .inr ⟨rfl, rfl⟩
  on_goal 11 =>
    exact .inl ⟨_, rfl, (Json.integer_written (h.notifyBefore n rfl).1).2 (h.notifyBefore n rfl).2⟩
  all_goals rfl

/-- What is sent of a view is read back as it. -/
theorem ofOctets_payload (h : v.IsShowable) : ofOctets v.payload = .ok v := by
  have hid : Json.Gives (v.members.map fun m => (m.1, Json.encoded m.2)) ⟨"id", .text, none⟩
      (.text v.id) := by
    obtain ⟨id, title, description, start, finish, user, _ | n⟩ := v
    · exact .inl ⟨_, rfl, Json.spellsText_quoted id⟩
    · exact .inl ⟨_, rfl, Json.spellsText_quoted id⟩
  have hread : Json.readDocument fields v.payload = .ok [.text v.id, .text v.title,
      .text v.description, .instant v.startTime, .instant v.endTime, .text v.userId,
      (v.notifyBefore.map Json.Cell.integer).getD .null] := by
    rw [payload_eq]
    exact Json.readDocument_written (by decide) (isValue_members h)
      (.cons hid (gives_members h none))
  obtain ⟨id, title, description, start, finish, user, notify⟩ := v
  rw [ofOctets, hread]
  cases notify <;> rfl

/-- What a client sees of a valid event whose instants are not in leap seconds. -/
theorem isShowable_ofEvent {e : Event} (h : e.IsOrdinary)
    (hle : ∀ r ∈ e.reminderAt, r ≤ e.startTime) : (ofEvent e).IsShowable := by
  refine ⟨Instant.hasText_iff.2 (.inl h.startTime), Instant.hasText_iff.2 (.inl h.endTime), ?_⟩
  intro n hn
  obtain ⟨r, hr, rfl⟩ := Option.map_eq_some_iff.1 hn
  exact Instant.secondsSince_bounds h.startTime (h.reminderAt r hr) (hle r hr)

end EventView

namespace EventBody

/-- What a client sees of the event that the body describes: what it said, under an id. -/
def view (b : EventBody) (id : String) : EventView :=
  ⟨id, b.title, b.description, b.startTime, b.endTime, b.userId, b.notifyBefore⟩

/-- What is sent of a view is the body that says the same. -/
theorem ofOctets_view {b : EventBody} {id : String} (h : (b.view id).IsShowable) :
    ofOctets (b.view id).payload = .ok b := by
  have hread : Json.readDocument fields (b.view id).payload = .ok [.text b.title,
      .text b.description, .instant b.startTime, .instant b.endTime, .text b.userId,
      (b.notifyBefore.map Json.Cell.integer).getD .null] := by
    rw [EventView.payload_eq]
    exact Json.readDocument_written (by decide) (EventView.isValue_members h)
      (EventView.gives_members h _)
  obtain ⟨title, description, start, finish, user, notify⟩ := b
  rw [ofOctets, hread]
  cases notify <;> rfl

end EventBody

end Api

end Datebook

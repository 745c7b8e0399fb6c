import Datebook.Event
import Datebook.Notification
import Datebook.Proofs.Objects

/-!
# Records over the wire

Objects are written without space, with the fewest escapes; `Json.readDocument_written` reads them
as what their members give. `written_records_read_back`: notifications and events come back as they
were, so what is written tells them apart. All that is asked of their instants is that a timestamp
can show them, which is so of all that were read before (`Json.isRead_of_readDocument`).
-/

namespace Datebook

namespace Json

/-- Text as it is written, in octets. -/
def encoded (l : List Char) : Octets := l.flatMap String.utf8EncodeChar

@[simp] theorem encoded_nil : encoded [] = [] := rfl

@[simp] theorem encoded_append (l m : List Char) : encoded (l ++ m) = encoded l ++ encoded m :=
  List.flatMap_append

@[simp] theorem encoded_cons (c : Char) (l : List Char) :
    encoded (c :: l) = String.utf8EncodeChar c ++ encoded l := rfl

theorem spells_encoded (s : String) : Spells s.toList (encoded (s.toList.flatMap escapeChar)) :=
  spells_escaped s.toList

theorem octetsOf_ofList (l : List Char) : octetsOf (String.ofList l) = encoded l := by
  rw [octetsOf, String.toList_ofList]
  rfl

theorem encoded_quoted (s : String) :
    encoded (quoted s) = 0x22 :: (encoded (s.toList.flatMap escapeChar) ++ [0x22]) := by
  have h : String.utf8EncodeChar '"' = [0x22] := by decide
  simp only [quoted, List.cons_append, encoded_cons, encoded_append, h]
  rfl

theorem spellsText_quoted (s : String) : SpellsText s (encoded (quoted s)) :=
  ⟨_, encoded_quoted s, spells_encoded s⟩

theorem SpellsText.isValue {s : String} {v : Octets} (h : SpellsText s v) : IsValue v := by
  obtain ⟨b, rfl, hb⟩ := h
  obtain ⟨ps, hps, -⟩ := writes_of_spells hb
  exact .text hps

theorem isGap_nil : IsGap [] := by simp [IsGap]

/-- A written member: the body of its name and its value. -/
def writtenMember (m : String × List Char) : Octets × Octets :=
  (encoded (m.1.toList.flatMap escapeChar), encoded m.2)

theorem isLabel_written (s : String) :
    IsLabel .object (encoded (s.toList.flatMap escapeChar)) (encoded (quoted s ++ [':'])) := by
  obtain ⟨ps, hps, -⟩ := writes_of_spells (spells_encoded s)
  have hcolon : encoded [':'] = [0x3A] := by decide
  have h := IsLabel.object isGap_nil hps isGap_nil
  rw [encoded_append, encoded_quoted, hcolon]
  simpa using h

theorem isItems_written : ∀ (m : String × List Char) (ms : List (String × List Char)),
    (∀ x ∈ m :: ms, IsValue (encoded x.2)) →
      IsItems .object ((m :: ms).map writtenMember)
        (encoded (List.intersperse [','] ((m :: ms).map fun (name, value) =>
          quoted name ++ ':' :: value)).flatten)
  | m, [], h => by
    have hm := IsItems.one (isLabel_written m.1) isGap_nil (h m (by simp)) isGap_nil
    simpa [writtenMember] using hm
  | m, m' :: ms, h => by
    have ih := isItems_written m' ms fun x hx => h x (List.mem_cons_of_mem m hx)
    have hcomma : String.utf8EncodeChar ',' = [0x2C] := by decide
    have hm := IsItems.cons (isLabel_written m.1) isGap_nil (h m (by simp)) isGap_nil ih
    simpa [writtenMember, hcomma] using hm

/-- An object is written as one, with its members in order. -/
theorem isObject_written : ∀ ms : List (String × List Char), (∀ x ∈ ms, IsValue (encoded x.2)) →
    IsObject (ms.map writtenMember) (encoded (object ms))
  | [], _ => .empty isGap_nil
  | m :: ms, h => by
    have hopen : String.utf8EncodeChar '\x7b' = [0x7B] := by decide
    have hclose : String.utf8EncodeChar '\x7d' = [0x7D] := by decide
    have := IsObject.items (isItems_written m ms h)
    simpa [object, hopen, hclose] using this

theorem names_written : ∀ ms : List (String × List Char),
    Names (ms.map writtenMember) (ms.map fun m => (m.1, encoded m.2))
  | [] => .nil
  | m :: ms => .cons ⟨spells_encoded m.1, rfl⟩ (names_written ms)

theorem spells_writtenMember {name : String} {m : String × List Char} :
    Spells name.toList (writtenMember m).1 ↔ name = m.1 := by
  refine ⟨fun h => h.unique (spells_encoded m.1), ?_⟩
  rintro rfl
  exact spells_encoded m.1

/-- A written object is read as what its members give. -/
theorem readDocument_written {fields : List Field} (hf : (fields.map (·.name)).Nodup)
    {ms : List (String × List Char)} (hms : ∀ x ∈ ms, IsValue (encoded x.2)) {cells : List Cell}
    (h : List.Forall₂ (Gives (ms.map fun m => (m.1, encoded m.2))) fields cells) :
    readDocument fields (encoded (object ms)) = .ok cells := by
  have := (readDocument_object hf isGap_nil (isObject_written ms hms) isGap_nil).2
    ⟨_, names_written ms, h⟩
  simpa using this

theorem denotes_text {t : Instant} (ht : t.HasText) :
    ∃ s, SpellsText s (encoded (quoted t.text)) ∧ Instant.ofText? s = some t :=
  ⟨t.text, spellsText_quoted t.text, Instant.ofText?_text (Instant.hasText_iff.1 ht)⟩

theorem isValue_quoted (s : String) : IsValue (encoded (quoted s)) :=
  (spellsText_quoted s).isValue

/-- The cell was read from a text, if it is an instant. -/
def Cell.IsRead : Cell → Prop
  | .instant t => t.HasText
  | _ => True

theorem isRead_of_readTextCell {s r : Octets} {c : Cell} (h : readTextCell s = .ok (c, r)) :
    c.IsRead := by
  unfold readTextCell at h
  split at h
  · split_ifs at h
    obtain ⟨⟨t, u⟩, -, h⟩ := map_eq_ok_iff.1 h
    cases h
    trivial
  · cases h

theorem isRead_of_readInstantCell {s r : Octets} {c : Cell} (h : readInstantCell s = .ok (c, r)) :
    c.IsRead := by
  unfold readInstantCell at h
  split at h
  · obtain ⟨t, ht, h⟩ := map_eq_ok_iff.1 h
    cases h
    exact ⟨_, fits_eq_ok_iff.1 ht⟩
  · cases h
  · cases h

theorem isRead_of_readIntegerCell {s r : Octets} {c : Cell} (h : readIntegerCell s = .ok (c, r)) :
    c.IsRead := by
  unfold readIntegerCell at h
  split at h
  · split at h
    · split_ifs at h
      cases h
      trivial
    · cases h
  · cases h

theorem isRead_of_readOptional {read : Octets → Except Fault (Cell × Octets)}
    (hread : ∀ {s r : Octets} {c : Cell}, read s = .ok (c, r) → c.IsRead) {s r : Octets} {c : Cell}
    (h : readOptional read s = .ok (c, r)) : c.IsRead := by
  unfold readOptional at h
  split at h
  · split_ifs at h
    · obtain ⟨u, -, h⟩ := map_eq_ok_iff.1 h
      cases h
      trivial
    · exact hread h
  · cases h

theorem isRead_of_readCell {kind : Kind} {s r : Octets} {c : Cell}
    (h : readCell kind s = .ok (c, r)) : c.IsRead := by
  unfold readCell at h
  cases kind with
  | text => exact isRead_of_readTextCell h
  | instant => exact isRead_of_readInstantCell h
  | optionalInstant => exact isRead_of_readOptional isRead_of_readInstantCell h
  | optionalInteger => exact isRead_of_readOptional isRead_of_readIntegerCell h

theorem isRead_of_readMember {fields : List Field} {found found' : Members} {s r : Octets}
    (hfound : ∀ m ∈ found, m.2.IsRead) (h : readMember fields found s = .ok (found', r)) :
    ∀ m ∈ found', m.2.IsRead := by
  unfold readMember at h
  simp only [bind_eq_ok_iff, Prod.exists] at h
  obtain ⟨name, s', -, h⟩ := h
  split at h
  · split_ifs at h
    · cases h
    · simp only [bind_eq_ok_iff, Prod.exists, pure, Except.pure, Except.ok.injEq,
        Prod.mk.injEq] at h
      obtain ⟨u, -, c, u', hc, rfl, -⟩ := h
      simpa using ⟨isRead_of_readCell hc, fun a b hm => hfound (a, b) hm⟩
  · simp only [bind_eq_ok_iff, pure, Except.pure, Except.ok.injEq, Prod.mk.injEq] at h
    obtain ⟨u, -, rfl, -⟩ := h
    exact hfound

theorem isRead_of_readMembers {fields : List Field} : ∀ {n : Nat} {found found' : Members}
    {s r : Octets}, (∀ m ∈ found, m.2.IsRead) → readMembers fields n found s = .ok (found', r) →
      ∀ m ∈ found', m.2.IsRead
  | 0, _, _, _, _, _, h => by cases h
  | n + 1, found, found', s, r, hfound, h => by
    simp only [readMembers, bind_eq_ok_iff, Prod.exists] at h
    obtain ⟨now, u, hnow, h⟩ := h
    have hread := isRead_of_readMember hfound hnow
    split at h
    · cases h
    · split_ifs at h
      · exact isRead_of_readMembers hread h
      · cases h
        exact hread

theorem isRead_of_readElements : ∀ {fields : List Field} {first : Bool} {s r : Octets}
    {cells : List Cell}, (∀ f ∈ fields, ∀ c ∈ f.fallback, c.IsRead) →
      readElements fields first s = .ok (cells, r) → ∀ c ∈ cells, c.IsRead
  | [], _, s, r, cells, _, h => by
    simp only [readElements, bind_eq_ok_iff, pure, Except.pure, Except.ok.injEq, Prod.mk.injEq] at h
    obtain ⟨_, -, rfl, -⟩ := h
    simp
  | f :: fields, first, s, r, cells, hf, h => by
    have hfs : ∀ g ∈ fields, ∀ c ∈ g.fallback, c.IsRead := fun g hg =>
      hf g (List.mem_cons_of_mem f hg)
    have hcons : ∀ {c : Cell} {cs : List Cell} {b : Bool} {u v : Octets}, c.IsRead →
        readElements fields b u = .ok (cs, v) → ∀ x ∈ c :: cs, x.IsRead := by
      intro c cs b u v hc hcs x hx
      rcases List.mem_cons.1 hx with rfl | hx
      · exact hc
      · exact isRead_of_readElements hfs hcs x hx
    simp only [readElements] at h
    split at h
    · cases h
    · split_ifs at h
      · simp only [bind_eq_ok_iff, Prod.exists, pure, Except.pure, Except.ok.injEq,
          Prod.mk.injEq, fits_eq_ok_iff] at h
        obtain ⟨c, hc, cs, u, hcs, rfl, -⟩ := h
        exact hcons (hf f (by simp) c hc) hcs
      · split at h
        · cases h
        · simp only [bind_eq_ok_iff, Prod.exists, pure, Except.pure, Except.ok.injEq,
            Prod.mk.injEq] at h
          obtain ⟨c, u, hc, cs, u', hcs, rfl, -⟩ := h
          exact hcons (isRead_of_readCell hc) hcs
      · simp only [bind_eq_ok_iff, Prod.exists, pure, Except.pure, Except.ok.injEq,
          Prod.mk.injEq] at h
        obtain ⟨c, u, hc, cs, u', hcs, rfl, -⟩ := h
        exact hcons (isRead_of_readCell hc) hcs

section Fields

variable {fields : List Field} (hf : ∀ f ∈ fields, ∀ c ∈ f.fallback, c.IsRead)
include hf

theorem isRead_of_mapM {found : Members} (hfound : ∀ m ∈ found, m.2.IsRead) {cells : List Cell}
    (h : fields.mapM (cellOf found) = .ok cells) : ∀ c ∈ cells, c.IsRead := by
  intro c hc
  obtain ⟨f, hmem, hcell⟩ := exists_mem_of_forall₂ (mapM_eq_ok_iff.1 h) c hc
  rw [cellOf, fits_eq_ok_iff, Option.or_eq_some_iff] at hcell
  rcases hcell with hlookup | ⟨-, hfallback⟩
  · obtain ⟨l, l', rfl, -⟩ := List.lookup_eq_some_iff.1 hlookup
    exact hfound (f.name, c) (by simp)
  · exact hf f hmem c hfallback

theorem isRead_of_readObject {s r : Octets} {cells : List Cell}
    (h : readObject fields s = .ok (cells, r)) : ∀ c ∈ cells, c.IsRead := by
  unfold readObject at h
  split at h
  · simp only [bind_eq_ok_iff, Prod.exists, pure, Except.pure, Except.ok.injEq, Prod.mk.injEq] at h
    obtain ⟨_, _, ⟨rfl, -⟩, cs, hcs, rfl, -⟩ := h
    exact isRead_of_mapM hf (by simp) hcs
  · simp only [bind_eq_ok_iff, Prod.exists, pure, Except.pure, Except.ok.injEq, Prod.mk.injEq] at h
    obtain ⟨found, _, hfound, cs, hcs, rfl, -⟩ := h
    exact isRead_of_mapM hf (isRead_of_readMembers (by simp) hfound) hcs

/-- Whatever is read as an instant was a timestamp. -/
theorem isRead_of_readDocument {s : Octets} {cells : List Cell}
    (h : readDocument fields s = .ok cells) : ∀ c ∈ cells, c.IsRead := by
  simp only [readDocument, bind_eq_ok_iff, Prod.exists] at h
  obtain ⟨cs, r, hread, h⟩ := h
  obtain rfl : cs = cells := by
    split_ifs at h
    exact Except.ok.inj h
  unfold readRecord at hread
  split at hread
  · cases hread
  · split_ifs at hread
    · exact isRead_of_readObject hf hread
    · exact isRead_of_readElements hf hread

end Fields

end Json

namespace Notification

/-- Every instant in the notification has a text. -/
def HasTexts (n : Notification) : Prop := n.notifyAt.HasText ∧ n.createdAt.HasText

/-- What is sent of a notification is read back as it. -/
theorem ofOctets?_payload {n : Notification} (h : n.HasTexts) :
    ofOctets? n.payload = some n := by
  have hread : Json.readDocument fields n.payload = .ok [.text n.id, .text n.eventId,
      .text n.eventTitle, .text n.userId, .text n.message, .instant n.notifyAt,
      .instant n.createdAt] := by
    rw [payload, text, Json.octetsOf_ofList]
    refine Json.readDocument_written (by decide) ?_ ?_
    · simp [Json.isValue_quoted]
    · refine .cons (.inl ⟨_, rfl, Json.spellsText_quoted n.id⟩) <|
        .cons (.inl ⟨_, rfl, Json.spellsText_quoted n.eventId⟩) <|
        .cons (.inl ⟨_, rfl, Json.spellsText_quoted n.eventTitle⟩) <|
        .cons (.inl ⟨_, rfl, Json.spellsText_quoted n.userId⟩) <|
        .cons (.inl ⟨_, rfl, Json.spellsText_quoted n.message⟩) <|
        .cons (.inl ⟨_, rfl, Json.denotes_text h.1⟩) <|
        .cons (.inl ⟨_, rfl, Json.denotes_text h.2⟩) .nil
  rw [ofOctets?, hread]
  rfl

theorem hasTexts_of_ofOctets? {p : Octets} {n : Notification} (h : ofOctets? p = some n) :
    n.HasTexts := by
  obtain ⟨cells, hread, hcells⟩ := Option.bind_eq_some_iff.1 h
  have hok : Json.readDocument fields p = .ok cells := toOption_eq_some_iff.1 hread
  have hisRead := Json.isRead_of_readDocument (by simp [fields]) hok
  unfold ofCells? at hcells
  split at hcells
  · cases hcells
    exact ⟨hisRead (.instant _) (by simp), hisRead (.instant _) (by simp)⟩
  · cases hcells

end Notification

namespace Event

/-- Every instant in the event has a text. -/
def HasTexts (e : Event) : Prop :=
  e.startTime.HasText ∧ e.endTime.HasText ∧ ∀ r ∈ e.reminderAt, r.HasText

/-- What is written of an event is read back as it. -/
theorem ofOctets?_text {e : Event} (h : e.HasTexts) : ofOctets? (octetsOf e.text) = some e := by
  obtain ⟨id, title, description, start, finish, user, reminder⟩ := e
  have hread : Json.readDocument fields
      (octetsOf (⟨id, title, description, start, finish, user, reminder⟩ : Event).text)
        = .ok [.text id, .text title, .text description, .instant start, .instant finish,
          .text user, (reminder.map Json.Cell.instant).getD .null] := by
    rw [text, Json.octetsOf_ofList]
    refine Json.readDocument_written (by decide) ?_ ?_
    · cases reminder <;> simp [Json.isValue_quoted]
    · refine .cons (.inl ⟨_, ?_, Json.spellsText_quoted id⟩) <|
        .cons (.inl ⟨_, ?_, Json.spellsText_quoted title⟩) <|
        .cons (.inl ⟨_, ?_, Json.spellsText_quoted description⟩) <|
        .cons (.inl ⟨_, ?_, Json.denotes_text h.1⟩) <|
        .cons (.inl ⟨_, ?_, Json.denotes_text h.2.1⟩) <|
        .cons (.inl ⟨_, ?_, Json.spellsText_quoted user⟩) <| .cons ?_ .nil
      all_goals rcases reminder with _ | r
      on_goal 13 => exact .inr ⟨rfl, rfl⟩
      on_goal 13 => exact .inl ⟨_, rfl, Json.denotes_text (h.2.2 r rfl)⟩
      all_goals rfl
  rw [ofOctets?, hread]
  cases reminder <;> rfl

theorem hasTexts_of_ofOctets? {p : Octets} {e : Event} (h : ofOctets? p = some e) : e.HasTexts := by
  obtain ⟨cells, hread, hcells⟩ := Option.bind_eq_some_iff.1 h
  have hok : Json.readDocument fields p = .ok cells := toOption_eq_some_iff.1 hread
  have hisRead := Json.isRead_of_readDocument (by simp [fields, Json.Cell.IsRead]) hok
  unfold ofCells? at hcells
  split at hcells
  · cases hcells
    refine ⟨hisRead (.instant _) (by simp), hisRead (.instant _) (by simp), ?_⟩
    rintro r ⟨⟩
    exact hisRead (.instant _) (by simp)
  · cases hcells
    exact ⟨hisRead (.instant _) (by simp), hisRead (.instant _) (by simp), by simp⟩
  · cases hcells

end Event

/-- Notifications and events are read back from what is written of them, as long as their instants
can be; whatever was read once can be. So the written text tells them apart. -/
theorem written_records_read_back :
    (∀ n : Notification, n.HasTexts → Notification.ofOctets? n.payload = some n)
      ∧ (∀ e : Event, e.HasTexts → Event.ofOctets? (octetsOf e.text) = some e)
      ∧ (∀ (p : Octets) (n : Notification), Notification.ofOctets? p = some n →
        Notification.ofOctets? n.payload = some n)
      ∧ (∀ (p : Octets) (e : Event), Event.ofOctets? p = some e →
        Event.ofOctets? (octetsOf e.text) = some e)
      ∧ (∀ m n : Notification, m.HasTexts → n.HasTexts → m.payload = n.payload → m = n)
      ∧ ∀ d e : Event, d.HasTexts → e.HasTexts → octetsOf d.text = octetsOf e.text → d = e := by
  refine ⟨fun n => Notification.ofOctets?_payload, fun e => Event.ofOctets?_text,
    fun p n h => Notification.ofOctets?_payload (Notification.hasTexts_of_ofOctets? h),
    fun p e h => Event.ofOctets?_text (Event.hasTexts_of_ofOctets? h), fun m n hm hn h => ?_,
    fun d e hd he h => ?_⟩
  · have := Notification.ofOctets?_payload hm
    rw [h, Notification.ofOctets?_payload hn] at this
    exact (Option.some.inj this).symm
  · have := Event.ofOctets?_text hd
    rw [h, Event.ofOctets?_text he] at this
    exact (Option.some.inj this).symm

/-- The last instant of the leap second that ended 2016. -/
def Instant.endOf2016 : Instant := ⟨1483228799, 1999999999, by decide, by decide, by decide⟩

/-- A notification whose strings need every kind of escape and octet. -/
def Notification.odd : Notification :=
  ⟨"\x00\x1f\"\\", "\x08\t\n\x0c\r/\x7f", "é€💥", "", "\u2028", .endOf2016, .first⟩

def Event.odd : Event :=
  ⟨"", "\"💥\"", "\\u0000", .first, .last, "\x00", some .endOf2016⟩

theorem written_records_read_back_odd :
    Notification.ofOctets? Notification.odd.payload = some .odd
      ∧ Event.ofOctets? (octetsOf Event.odd.text) = some .odd
      ∧ Event.ofOctets? (octetsOf { Event.odd with reminderAt := none }.text)
        = some { Event.odd with reminderAt := none }
      ∧ Notification.odd.payload ≠ { Notification.odd with createdAt := .last }.payload
      ∧ octetsOf Event.odd.text ≠ octetsOf { Event.odd with reminderAt := none }.text := by
  obtain ⟨hn, he, hn', he', hn'', he''⟩ := written_records_read_back
  have hleap : Instant.endOf2016.HasText := Instant.hasText_iff.2 (by decide)
  have hfirst : Instant.first.HasText := Instant.hasText_iff.2 (by decide)
  have hlast : Instant.last.HasText := Instant.hasText_iff.2 (by decide)
  have hodd : Event.odd.HasTexts := ⟨hfirst, hlast, by rintro r ⟨⟩; exact hleap⟩
  have hnone : { Event.odd with reminderAt := none }.HasTexts := ⟨hfirst, hlast, by rintro r ⟨⟩⟩
  have hnot : Notification.odd.HasTexts := ⟨hleap, hfirst⟩
  refine ⟨hn' _ _ (hn _ hnot), he' _ _ (he _ hodd), he _ hnone, fun h => ?_, fun h => ?_⟩
  · exact absurd (hn'' _ _ hnot ⟨hleap, hlast⟩ h) (by decide)
  · exact absurd (he'' _ _ hodd hnone h) (by decide)

end Datebook

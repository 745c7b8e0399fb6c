import Datebook.Proofs.Wire
import Mathlib.Data.List.Perm.Basic

/-!
# Notifications as others write them

`Notification.read_of_object_texts`: a notification is read from every object that has its members,
whatever stands between them, and from no object that does not have each of them once as a string.
What is particular to notifications is only that none of their members may be left out.
-/

namespace Datebook

namespace Json

/-- A text that is one value, with space around it. -/
def IsText (w : Octets) : Prop := ∃ g v g', IsGap g ∧ IsValue v ∧ IsGap g' ∧ w = g ++ (v ++ g')

/-- A text that is an object, with the bodies of its members' names and their values. -/
def IsObjectText (ms : List (Octets × Octets)) (w : Octets) : Prop :=
  ∃ g v g', IsGap g ∧ IsObject ms v ∧ IsGap g' ∧ w = g ++ (v ++ g')

/-- A member spells a field's name, and its value stands for the cell. -/
def Spelled (f : Field × Cell) (m : Octets × Octets) : Prop :=
  Spells f.1.name.toList m.1 ∧ Denotes f.1.kind f.2 m.2

theorem readDocument_objectText {fields : List Field} (hf : (fields.map (·.name)).Nodup)
    {ms : List (Octets × Octets)} {w : Octets} (h : IsObjectText ms w) {cells : List Cell} :
    readDocument fields w = .ok cells
      ↔ ∃ ns, Names ms ns ∧ List.Forall₂ (Gives ns) fields cells := by
  obtain ⟨g, v, g', hg, hv, hg', rfl⟩ := h
  exact readDocument_object hf hg hv hg'

theorem Gives.perm {ns ns' : List (String × Octets)} (h : ns.Perm ns') {f : Field} {c : Cell}
    (hg : Gives ns f c) : Gives ns' f c := by
  have hvalues : (valuesOf ns f.name).Perm (valuesOf ns' f.name) := (h.filter _).map _
  rcases hg with ⟨v, hv, hc⟩ | ⟨hnone, hc⟩
  · rw [hv] at hvalues
    exact .inl ⟨v, hvalues.symm.eq_singleton, hc⟩
  · rw [hnone] at hvalues
    exact .inr ⟨hvalues.nil_eq.symm, hc⟩

theorem mem_valuesOf {ns : List (String × Octets)} {name : String} {v : Octets} :
    v ∈ valuesOf ns name ↔ (name, v) ∈ ns := by
  simp [valuesOf]

theorem valuesOf_append_others {ns others : List (String × Octets)} {name : String}
    (h : ∀ n ∈ others, n.1 ≠ name) : valuesOf (ns ++ others) name = valuesOf ns name := by
  have : others.filter (·.1 == name) = [] :=
    List.filter_eq_nil_iff.2 fun n hn => by simpa using h n hn
  simp [valuesOf, this]

theorem gives_cons_of_ne {ns : List (String × Octets)} {name : String} {f : Field}
    (h : name ≠ f.name) (v : Octets) {c : Cell} : Gives ((name, v) :: ns) f c ↔ Gives ns f c := by
  unfold Gives
  rw [valuesOf_cons_of_ne h]

/-- Members that spell the fields in order give them their cells. -/
theorem exists_gives_of_spelled {fields : List Field} {cells : List Cell}
    {own : List (Octets × Octets)} (hf : (fields.map (·.name)).Nodup)
    (hlen : fields.length = cells.length) (h : List.Forall₂ Spelled (fields.zip cells) own) :
    ∃ ns, Names own ns ∧ (∀ n ∈ ns, n.1 ∈ fields.map (·.name))
      ∧ List.Forall₂ (Gives ns) fields cells := by
  induction fields generalizing cells own with
  | nil =>
    cases cells with
    | nil =>
      cases h
      exact ⟨[], .nil, by simp, .nil⟩
    | cons => cases hlen
  | cons f fields ih =>
    rw [List.map_cons, List.nodup_cons] at hf
    rcases cells with _ | ⟨c, cells⟩
    · cases hlen
    · rw [List.zip_cons_cons, List.forall₂_cons_left_iff] at h
      obtain ⟨m, own, ⟨hname, hc⟩, h, rfl⟩ := h
      obtain ⟨ns, hns, hmem, hgives⟩ := ih hf.2 (by simpa using hlen) h
      have hnot : valuesOf ns f.name = [] :=
        List.eq_nil_iff_forall_not_mem.2 fun v hv => hf.1 (hmem _ (mem_valuesOf.1 hv))
      refine ⟨(f.name, m.2) :: ns, .cons ⟨hname, rfl⟩ hns, ?_, .cons ?_ ?_⟩
      · rintro n hn
        rcases List.mem_cons.1 hn with rfl | hn
        · exact List.mem_cons_self
        · exact List.mem_cons_of_mem _ (hmem n hn)
      · exact .inl ⟨m.2, by rw [valuesOf_cons_self, hnot], hc⟩
      · refine (forall₂_congr_of_mem fun g hg c => ?_).2 hgives
        have hne : f.name ≠ g.name := fun he => hf.1 (he ▸ List.mem_map_of_mem hg)
        exact gives_cons_of_ne hne m.2

/-- Members that are none of the fields have names of their own, and none is a field's. -/
theorem exists_names_of_others {fields : List Field} {others : List (Octets × Octets)}
    (h : ∀ m ∈ others, ∃ s, Spells s.toList m.1 ∧ s ∉ fields.map (·.name)) :
    ∃ ns, Names others ns ∧ ∀ n ∈ ns, n.1 ∉ fields.map (·.name) := by
  induction others with
  | nil => exact ⟨[], .nil, by simp⟩
  | cons m others ih =>
    obtain ⟨s, hs, hnot⟩ := h m List.mem_cons_self
    obtain ⟨ns, hns, hother⟩ := ih fun x hx => h x (List.mem_cons_of_mem m hx)
    refine ⟨(s, m.2) :: ns, .cons ⟨hs, rfl⟩ hns, fun n hn => ?_⟩
    rcases List.mem_cons.1 hn with rfl | hn
    · exact hnot
    · exact hother n hn

/-- A record is read from every object that has its members, each once, among others. -/
theorem readDocument_of_spelled {fields : List Field} {cells : List Cell}
    (hf : (fields.map (·.name)).Nodup) (hlen : fields.length = cells.length)
    {ms own others : List (Octets × Octets)} {w : Octets} (hw : IsObjectText ms w)
    (hperm : ms.Perm (own ++ others)) (hown : List.Forall₂ Spelled (fields.zip cells) own)
    (hothers : ∀ m ∈ others, ∃ s, Spells s.toList m.1 ∧ s ∉ fields.map (·.name)) :
    readDocument fields w = .ok cells := by
  obtain ⟨ns, hns, -, hgives⟩ := exists_gives_of_spelled hf hlen hown
  obtain ⟨ns', hns', hother⟩ := exists_names_of_others hothers
  obtain ⟨all, hall, hperm'⟩ := List.perm_comp_forall₂ hperm (List.rel_append hns hns')
  refine (readDocument_objectText hf hw).2 ⟨all, hall, ?_⟩
  refine (forall₂_congr_of_mem (R := Gives (ns ++ ns')) fun f hmem c => ?_).1 ?_
  · exact ⟨Gives.perm hperm'.symm, Gives.perm hperm'⟩
  · refine (forall₂_congr_of_mem fun f hmem c => ?_).1 hgives
    unfold Gives
    rw [valuesOf_append_others fun n hn he => hother n hn (he ▸ List.mem_map_of_mem hmem)]

theorem Denotes.quote {k : Kind} {c : Cell} {v : Octets} (h : Denotes k c v)
    (hk : k = .text ∨ k = .instant) : ∃ u, v = 0x22 :: u := by
  rcases hk with rfl | rfl
  · cases c with
    | text s =>
      obtain ⟨b, rfl, -⟩ := h
      exact ⟨_, rfl⟩
    | _ => exact h.elim
  · cases c with
    | instant t =>
      obtain ⟨s, ⟨b, rfl, -⟩, -⟩ := h
      exact ⟨_, rfl⟩
    | _ => exact h.elim

section Strict

variable {fields : List Field} {ms : List (Octets × Octets)} {w : Octets} {cells : List Cell}
  {f : Field}

/-- A member that may not be left out occurs in the record, once, with a value of its kind. -/
theorem valuesOf_of_readDocument (hf : (fields.map (·.name)).Nodup) (hw : IsObjectText ms w)
    (hmem : f ∈ fields) (hfallback : f.fallback = none) (h : readDocument fields w = .ok cells) :
    ∃ ns v c, Names ms ns ∧ valuesOf ns f.name = [v] ∧ Denotes f.kind c v := by
  obtain ⟨ns, hns, hgives⟩ := (readDocument_objectText hf hw).1 h
  obtain ⟨c, -, ⟨v, hv, hc⟩ | ⟨-, hc⟩⟩ := exists_mem_of_forall₂ hgives.flip f hmem
  · exact ⟨ns, v, c, hns, hv, hc⟩
  · rw [hfallback] at hc
    cases hc

theorem Names.mem_values {ns : List (String × Octets)} (h : Names ms ns) {m : Octets × Octets}
    (hm : m ∈ ms) {name : String} (hs : Spells name.toList m.1) : m.2 ∈ valuesOf ns name := by
  obtain ⟨n, hn, hspells, hv⟩ := exists_mem_of_forall₂ h.flip m hm
  rw [mem_valuesOf, hs.unique hspells, hv]
  exact hn

theorem Names.exists_mem {ns : List (String × Octets)} (h : Names ms ns) {name : String}
    {v : Octets} (hv : v ∈ valuesOf ns name) : ∃ m ∈ ms, Spells name.toList m.1 := by
  obtain ⟨m, hm, hs, -⟩ := exists_mem_of_forall₂ h _ (mem_valuesOf.1 hv)
  exact ⟨m, hm, hs⟩

theorem Names.two_values {ns : List (String × Octets)} (h : Names ms ns) {m m' : Octets × Octets}
    (hsub : [m, m'].Sublist ms) {name : String} (hs : Spells name.toList m.1)
    (hs' : Spells name.toList m'.1) : 2 ≤ (valuesOf ns name).length := by
  obtain ⟨ns', hns, h'⟩ := exists_sublist_of_forall₂ hsub h
  obtain ⟨n, _, ⟨hn, -⟩, hrest, rfl⟩ := List.forall₂_cons_left_iff.1 h'
  obtain ⟨n', _, ⟨hn', -⟩, -, rfl⟩ := List.forall₂_cons_left_iff.1 hrest
  have hlen := (hns.filter (·.1 == name)).length_le
  have hname : n.1 = name ∧ n'.1 = name := ⟨(hs.unique hn).symm, (hs'.unique hn').symm⟩
  rw [List.filter_cons_of_pos (by simp [hname.1]),
    List.filter_cons_of_pos (by simp [hname.2])] at hlen
  simp only [valuesOf, List.length_map]
  simp only [List.length_cons] at hlen
  omega

end Strict

end Json

namespace Notification

open Json

/-- The values of the members of a notification's record. -/
def cells (n : Notification) : List Cell :=
  [.text n.id, .text n.eventId, .text n.eventTitle, .text n.userId, .text n.message,
    .instant n.notifyAt, .instant n.createdAt]

/-- A notification is read from every object that has its members, in any order and any spelling,
whatever other members there are; it is read from no object that lacks one of them, has it twice or
has no string there, and from no text that goes on after its value. -/
theorem read_of_object_texts :
    (∀ (n : Notification) (ms own others : List (Octets × Octets)) (w : Octets),
      IsObjectText ms w → ms.Perm (own ++ others) → List.Forall₂ Spelled (fields.zip n.cells) own →
      (∀ m ∈ others, ∃ s, Spells s.toList m.1 ∧ s ∉ fields.map (·.name)) → ofOctets? w = some n)
      ∧ (∀ (ms : List (Octets × Octets)) (w : Octets), ∀ f ∈ fields, IsObjectText ms w →
        ((∀ m ∈ ms, ¬Spells f.name.toList m.1)
          ∨ (∃ m m', [m, m'].Sublist ms ∧ Spells f.name.toList m.1 ∧ Spells f.name.toList m'.1)
          ∨ ∃ m ∈ ms, Spells f.name.toList m.1 ∧ m.2.head? ≠ some 0x22) →
        ofOctets? w = none)
      ∧ ∀ w t : Octets, IsText w → ¬IsGap t → ofOctets? (w ++ t) = none := by
  have hnodup : (fields.map (·.name)).Nodup := by decide
  have hnone : ∀ w, (∀ cells, readDocument fields w ≠ .ok cells) → ofOctets? w = none := by
    intro w h
    rw [ofOctets?, Option.bind_eq_none_iff]
    intro cells hcells
    exact absurd (toOption_eq_some_iff.1 hcells) (h cells)
  refine ⟨?_, ?_, ?_⟩
  · intro n ms own others w hw hperm hown hothers
    have hread : readDocument fields w = .ok n.cells :=
      readDocument_of_spelled hnodup rfl hw hperm hown hothers
    rw [ofOctets?, hread]
    rfl
  · intro ms w f hf hw h
    refine hnone w fun cells hread => ?_
    have hrequired : ∀ f ∈ fields, f.fallback = none ∧ (f.kind = .text ∨ f.kind = .instant) := by
      simp [fields]
    obtain ⟨ns, v, c, hns, hv, hc⟩ :=
      valuesOf_of_readDocument hnodup hw hf (hrequired f hf).1 hread
    rcases h with hmissing | ⟨m, m', hsub, hs, hs'⟩ | ⟨m, hm, hs, hquote⟩
    · have hvalue : v ∈ valuesOf ns f.name := by simp [hv]
      obtain ⟨m, hm, hs⟩ := hns.exists_mem hvalue
      exact hmissing m hm hs
    · have := hns.two_values hsub hs hs'
      rw [hv] at this
      simp at this
    · have hvalue := hns.mem_values hm hs
      rw [hv, List.mem_singleton] at hvalue
      obtain ⟨u, rfl⟩ := hc.quote (hrequired f hf).2
      exact hquote (by rw [hvalue]; rfl)
  · rintro w t ⟨g, v, g', hg, hv, hg', rfl⟩ ht
    refine hnone _ fun cells hread => ht ?_
    rw [List.append_assoc, List.append_assoc] at hread
    have := isGap_of_readDocument hnodup hg hv hread
    exact fun b hb => this b (List.mem_append_right g' hb)

/-- The last second of 2016 in a notification. -/
def supper : Notification := ⟨"1", "2", "Supper", "ann", "Soon", .endOf2016, .endOf2016⟩

/-- The members of the notification as another program may write them. -/
def foreignMembers : List (String × List Char) :=
  [("created_at", quoted "2017-01-01t00:59:60.9999999999+01:00"), ("seen", ['[', '[', ']', ']']),
    ("notify_at", quoted "2016-12-31 23:59:60.999999999z"), ("message", quoted "Soon"),
    ("user_id", quoted "ann"), ("event_title", quoted "Supper"), ("event_id", quoted "2"),
    ("id", quoted "1")]

theorem read_of_object_texts_supper :
    ofOctets? (0x20 :: (encoded (object foreignMembers) ++ [0x0A])) = some supper
      ∧ ofOctets? (encoded (object foreignMembers.tail)) = none
      ∧ ofOctets? (encoded (object (foreignMembers ++ [("id", quoted "1")]))) = none
      ∧ ofOctets? (encoded (object (("id", ['n', 'u', 'l', 'l']) :: foreignMembers.dropLast)))
        = none
      ∧ ofOctets? (encoded (object foreignMembers) ++ [0x7D]) = none := by
  obtain ⟨hread, hrefused, htrailing⟩ := read_of_object_texts
  have hseen : IsValue (encoded ['[', '[', ']', ']']) :=
    .items (.one .array isGap_nil (.empty .array isGap_nil) isGap_nil)
  have hvalues : ∀ x ∈ foreignMembers, IsValue (encoded x.2) := by
    simp only [foreignMembers, List.forall_mem_cons, isValue_quoted, hseen]
    simp
  have htext : ∀ ms : List (String × List Char), (∀ x ∈ ms, IsValue (encoded x.2)) →
      IsObjectText (ms.map writtenMember) (encoded (object ms)) := fun ms hms =>
    ⟨[], _, [], isGap_nil, isObject_written ms hms, isGap_nil, by simp⟩
  have hid : (⟨"id", .text, none⟩ : Field) ∈ fields := by simp [fields]
  refine ⟨?_, ?_, ?_, ?_, ?_⟩
  · have hspace : IsGap [0x20] ∧ IsGap [0x0A] := by simp [IsGap, isSpace]
    have hperm : foreignMembers.Perm ([("id", quoted "1"), ("event_id", quoted "2"),
        ("event_title", quoted "Supper"), ("user_id", quoted "ann"), ("message", quoted "Soon"),
        ("notify_at", quoted "2016-12-31 23:59:60.999999999z"),
        ("created_at", quoted "2017-01-01t00:59:60.9999999999+01:00")]
          ++ [("seen", ['[', '[', ']', ']'])]) := by decide
    refine hread supper _ _ _ _ ⟨[0x20], _, [0x0A], hspace.1, isObject_written _ hvalues, hspace.2,
      rfl⟩ ((hperm.map writtenMember).trans (.of_eq List.map_append)) ?_ ?_
    · refine .cons ⟨spells_encoded _, spellsText_quoted _⟩ <|
        .cons ⟨spells_encoded _, spellsText_quoted _⟩ <|
        .cons ⟨spells_encoded _, spellsText_quoted _⟩ <|
        .cons ⟨spells_encoded _, spellsText_quoted _⟩ <|
        .cons ⟨spells_encoded _, spellsText_quoted _⟩ <|
        .cons ⟨spells_encoded _, _, spellsText_quoted _, by decide⟩ <|
        .cons ⟨spells_encoded _, _, spellsText_quoted _, by decide⟩ .nil
    · simpa using ⟨"seen", spells_encoded "seen", by decide⟩
  · refine hrefused _ _ ⟨"created_at", .instant, none⟩ (by simp [fields])
      (htext _ fun x hx => hvalues x (List.mem_of_mem_tail hx)) (.inl ?_)
    rintro _ hm hs
    obtain ⟨x, hx, rfl⟩ := List.mem_map.1 hm
    have hlacks : ∀ x ∈ foreignMembers.tail, "created_at" ≠ x.1 := by decide
    exact hlacks x hx (spells_writtenMember.1 hs)
  · refine hrefused _ _ _ hid (htext _ ?_) (.inr (.inl ⟨writtenMember ("id", quoted "1"),
      writtenMember ("id", quoted "1"), ?_, spells_encoded _, spells_encoded _⟩))
    · intro x hx
      rcases List.mem_append.1 hx with hx | hx
      · exact hvalues x hx
      · cases List.mem_singleton.1 hx
        exact isValue_quoted "1"
    · have : [("id", quoted "1"), ("id", quoted "1")].Sublist
          (foreignMembers ++ [("id", quoted "1")]) := by decide
      exact this.map writtenMember
  · have hnull : IsValue (encoded ['n', 'u', 'l', 'l']) := .word (.inr (.inr rfl))
    refine hrefused _ _ _ hid (htext _ ?_) (.inr (.inr
      ⟨writtenMember ("id", ['n', 'u', 'l', 'l']), ?_, spells_encoded _, by decide⟩))
    · rintro x hx
      rcases List.mem_cons.1 hx with rfl | hx
      · exact hnull
      · exact hvalues x (List.dropLast_subset _ hx)
    · exact List.mem_cons_self
  · refine htrailing _ _
      ⟨[], _, [], isGap_nil, (isObject_written _ hvalues).isValue, isGap_nil, by simp⟩
      (by simp [IsGap, isSpace])

end Notification

end Datebook

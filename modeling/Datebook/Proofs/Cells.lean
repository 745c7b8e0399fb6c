import Datebook.Proofs.Grammar
import Datebook.Proofs.Lists
import Datebook.Proofs.Timestamps

/-!
# Values of members

`Json.Denotes` says what a value stands for in a field of each kind. `Json.readCell_eq_ok_iff`: a
value that stands apart is read to its end and no further, as what it stands for; so it stands for
one thing at most (`Json.Denotes.unique`).
-/

namespace Datebook.Json

/-- The text in quotes. -/
def SpellsText (s : String) (v : Octets) : Prop :=
  ∃ b, v = 0x22 :: (b ++ [0x22]) ∧ Spells s.toList b

/-- What a value stands for in a field of a kind. -/
def Denotes : Kind → Cell → Octets → Prop
  | .text, .text s, v => SpellsText s v
  | .instant, .instant t, v => ∃ s, SpellsText s v ∧ Instant.ofText? s = some t
  | .optionalInstant, .instant t, v => ∃ s, SpellsText s v ∧ Instant.ofText? s = some t
  | .optionalInstant, .null, v => v = wordNull
  | .optionalInteger, .integer n, v =>
    ∃ x, numeral? v = some (x, []) ∧ x.integer? = some n ∧ n < twoTo 63
  | .optionalInteger, .null, v => v = wordNull
  | _, _, _ => False

theorem IsValue.of_quote {w : Octets} (h : IsValue (0x22 :: w)) :
    ∃ ps b, Writes ps b ∧ w = b ++ [0x22] := by
  generalize hv : (0x22 :: w : Octets) = v at h
  cases h with
  | word h => rcases h with rfl | rfl | rfl <;> cases hv
  | numeral h =>
    obtain ⟨b, t, rfl, hb⟩ := h.start
    cases hv
    rcases hb with hb | hb <;> cases hb
  | text h =>
    cases hv
    exact ⟨_, _, h, rfl⟩
  | empty k => cases k <;> cases hv
  | @items k => cases k <;> cases hv

theorem IsValue.of_null {w : Octets} (h : IsValue (0x6E :: w)) : 0x6E :: w = wordNull := by
  generalize hv : (0x6E :: w : Octets) = v at h
  cases h with
  | word h => rcases h with rfl | rfl | rfl <;> first | rfl | cases hv
  | numeral h =>
    obtain ⟨b, t, rfl, hb⟩ := h.start
    cases hv
    rcases hb with hb | hb <;> cases hb
  | text h => cases hv
  | empty k => cases k <;> cases hv
  | @items k => cases k <;> cases hv

theorem readText?_of_writes {ps : List Piece} {b r r' : Octets} {s : String} (h : Writes ps b) :
    readText? (b ++ 0x22 :: r) = some (s, r') ↔ r' = r ∧ Spells s.toList b := by
  rw [readText?_eq_some_iff]
  constructor
  · rintro ⟨b', hb', hs⟩
    obtain ⟨qs, hqs, -⟩ := writes_of_spells hs
    have hpieces := pieces?_of_writes h r
    rw [hb', pieces?_of_writes hqs] at hpieces
    cases hpieces
    exact ⟨rfl, List.append_cancel_right hb' ▸ hs⟩
  · rintro ⟨rfl, hs⟩
    exact ⟨b, rfl, hs⟩

theorem wellFormed_eq_ok_iff {α : Type} {o : Option α} {a : α} :
    wellFormed o = .ok a ↔ o = some a := by
  cases o <;> simp [wellFormed]

theorem fits_eq_ok_iff {α : Type} {o : Option α} {a : α} : fits o = .ok a ↔ o = some a := by
  cases o <;> simp [fits]

theorem readTextCell_eq_ok_iff {v r r' : Octets} {c : Cell} (hv : IsValue v) :
    readTextCell (v ++ r) = .ok (c, r') ↔ r' = r ∧ ∃ s, c = .text s ∧ SpellsText s v := by
  obtain ⟨b, w, rfl, -⟩ := hv.start
  unfold SpellsText
  rw [List.cons_append, readTextCell]
  by_cases hb : b = 0x22
  · subst hb
    obtain ⟨ps, body, hbody, rfl⟩ := hv.of_quote
    simp only [if_true, map_eq_ok_iff, wellFormed_eq_ok_iff, List.append_assoc,
      List.singleton_append, Prod.exists, readText?_of_writes hbody, Prod.mk.injEq,
      List.cons.injEq, true_and, List.append_cancel_right_eq]
    constructor
    · rintro ⟨s, u, ⟨rfl, hs⟩, rfl, rfl⟩
      exact ⟨rfl, s, rfl, body, rfl, hs⟩
    · rintro ⟨rfl, s, rfl, b, rfl, hs⟩
      exact ⟨s, r', ⟨rfl, hs⟩, rfl, rfl⟩
  · rw [if_neg hb]
    refine ⟨fun h => (nomatch h), ?_⟩
    rintro ⟨-, s, -, body, hbody, -⟩
    cases hbody
    exact absurd rfl hb

theorem readInstantCell_eq_ok_iff {v r r' : Octets} {c : Cell} (hv : IsValue v) :
    readInstantCell (v ++ r) = .ok (c, r')
      ↔ r' = r ∧ ∃ t s, c = .instant t ∧ SpellsText s v ∧ Instant.ofText? s = some t := by
  unfold readInstantCell
  constructor
  · intro h
    split at h
    · rename_i s u hread
      obtain ⟨rfl, s', hs', hs⟩ := (readTextCell_eq_ok_iff hv).1 hread
      cases hs'
      obtain ⟨t, ht, h⟩ := map_eq_ok_iff.1 h
      cases h
      exact ⟨rfl, t, s, rfl, hs, fits_eq_ok_iff.1 ht⟩
    · cases h
    · cases h
  · rintro ⟨rfl, t, s, rfl, hs, ht⟩
    simp only [(readTextCell_eq_ok_iff hv).2 ⟨rfl, s, rfl, hs⟩]
    rw [ht]
    rfl

theorem numeral?_of_not_start {b : UInt8} (hm : b ≠ 0x2D) (hd : isDigit b = false) (s : Octets) :
    numeral? (b :: s) = none := by
  simp [numeral?, hm, digitRun, hd]

theorem IsValue.numeral_of_start {b : UInt8} {w : Octets} (h : IsValue (b :: w))
    (hb : b = 0x2D ∨ isDigit b = true) : IsNumeral (b :: w) := by
  generalize hv : b :: w = v at h
  cases h with
  | word h => rcases h with rfl | rfl | rfl <;> cases hv <;> rcases hb with hb | hb <;> cases hb
  | numeral h => exact h
  | text h => cases hv; rcases hb with hb | hb <;> cases hb
  | empty k => cases k <;> cases hv <;> rcases hb with hb | hb <;> cases hb
  | @items k => cases k <;> cases hv <;> rcases hb with hb | hb <;> cases hb

/-- A number is read to its end, and anything else is none. -/
theorem numeral?_value {v : Octets} (hv : IsValue v) :
    (∃ x, ∀ r, Apart r → numeral? (v ++ r) = some (x, r)) ∨ ∀ r, numeral? (v ++ r) = none := by
  obtain ⟨b, w, rfl, -⟩ := hv.start
  by_cases hb : b = 0x2D ∨ isDigit b = true
  · exact .inl (numeral?_append (hv.numeral_of_start hb))
  · rw [not_or, Bool.not_eq_true] at hb
    exact .inr fun r => numeral?_of_not_start hb.1 hb.2 (w ++ r)

theorem apart_nil : Apart [] := by
  intro b hb
  cases hb

theorem readIntegerCell_eq_ok_iff {v r r' : Octets} {c : Cell} (hv : IsValue v) (hr : Apart r) :
    readIntegerCell (v ++ r) = .ok (c, r')
      ↔ r' = r ∧ ∃ n x, c = .integer n ∧ numeral? v = some (x, []) ∧ x.integer? = some n
        ∧ n < twoTo 63 := by
  unfold readIntegerCell
  rcases numeral?_value hv with ⟨x, hx⟩ | hnone
  · have hv' : numeral? v = some (x, []) := by simpa using hx [] apart_nil
    simp only [hx r hr, hv', Option.some.injEq, Prod.mk.injEq, and_true]
    constructor
    · intro h
      split at h
      · rename_i n hn
        split_ifs at h with hlt
        cases h
        exact ⟨rfl, n, x, rfl, rfl, hn, hlt⟩
      · cases h
    · rintro ⟨rfl, n, x, rfl, rfl, hn, hlt⟩
      simp [hn, hlt]
  · have hv' : numeral? v = none := by simpa using hnone []
    simp [hnone r, hv']

/-- Where null may stand, a value is null or what it is elsewhere. -/
theorem readOptional_eq_ok_iff {read : Octets → Except Fault (Cell × Octets)} {v r r' : Octets}
    {c : Cell} {P : Prop} (hv : IsValue v) (hread : read (v ++ r) = .ok (c, r') ↔ r' = r ∧ P)
    (hnull : P → v ≠ wordNull) :
    readOptional read (v ++ r) = .ok (c, r') ↔ r' = r ∧ (c = .null ∧ v = wordNull ∨ P) := by
  obtain ⟨b, w, rfl, -⟩ := hv.start
  rw [List.cons_append] at hread ⊢
  unfold readOptional
  by_cases hb : b = 0x6E
  · subst hb
    have hword := hv.of_null
    have hP : ¬P := fun h => hnull h hword
    have hexpect : expect? wordNull (0x6E :: (w ++ r)) = some r := by
      rw [← List.cons_append, hword, expect?_append]
    simp only [if_true, hexpect, wellFormed, Except.map, Except.ok.injEq, Prod.mk.injEq, hword, hP,
      and_true, or_false]
    constructor <;> rintro ⟨rfl, rfl⟩ <;> exact ⟨rfl, rfl⟩
  · have hword : b :: w ≠ wordNull := by
      intro h
      cases h
      exact hb rfl
    simp only [if_neg hb, hread, hword, and_false, false_or]

theorem SpellsText.ne_null {s : String} {v : Octets} (h : SpellsText s v) : v ≠ wordNull := by
  obtain ⟨b, rfl, -⟩ := h
  intro h
  cases h

/-- A value is read to its end, as what it stands for. -/
theorem readCell_eq_ok_iff {kind : Kind} {g v r r' : Octets} {c : Cell} (hg : IsGap g)
    (hv : IsValue v) (hr : Apart r) :
    readCell kind (g ++ (v ++ r)) = .ok (c, r') ↔ r' = r ∧ Denotes kind c v := by
  unfold readCell
  rw [skipSpace_value hg hv]
  cases kind with
  | text =>
    simp only [readTextCell_eq_ok_iff hv]
    cases c <;> simp [Denotes]
  | instant =>
    simp only [readInstantCell_eq_ok_iff hv]
    cases c <;> simp [Denotes]
  | optionalInstant =>
    have hread : readInstantCell (v ++ r) = .ok (c, r') ↔ _ := readInstantCell_eq_ok_iff hv
    have hnull : (∃ t s, c = .instant t ∧ SpellsText s v ∧ Instant.ofText? s = some t) →
        v ≠ wordNull := by
      rintro ⟨_, _, _, hs, _⟩
      exact hs.ne_null
    simp only [readOptional_eq_ok_iff hv hread hnull]
    cases c <;> simp [Denotes]
  | optionalInteger =>
    have hread : readIntegerCell (v ++ r) = .ok (c, r') ↔ _ := readIntegerCell_eq_ok_iff hv hr
    have hnull : (∃ n x, c = .integer n ∧ numeral? v = some (x, []) ∧ x.integer? = some n
        ∧ n < twoTo 63) → v ≠ wordNull := by
      rintro ⟨n, x, -, hx, -⟩ rfl
      cases hx
    simp only [readOptional_eq_ok_iff hv hread hnull]
    cases c <;> simp [Denotes]

theorem Denotes.unique {k : Kind} {c d : Cell} {v : Octets} (hv : IsValue v) (hc : Denotes k c v)
    (hd : Denotes k d v) : c = d := by
  have hgap : IsGap [] := by simp [IsGap]
  have h := (readCell_eq_ok_iff hgap hv apart_nil).2 ⟨rfl, hc⟩
  rw [(readCell_eq_ok_iff hgap hv apart_nil).2 ⟨rfl, hd⟩] at h
  cases h
  rfl

end Datebook.Json

import Datebook.Proofs.Spellings
import Mathlib.Tactic.Tauto

/-!
# The grammar of JSON

`Json.IsValue` says which octets are a value, at any depth, and `Json.IsItems` which stand between
brackets. `Json.skipValue?_append`: a value is stepped over and what follows it is left. Its numbers
go on as long as they can, so the value must stand apart from what follows (`Json.Apart`).

An array and an object differ in what stands before each value, so they share one grammar. A step of
the skip takes an octet of the value at least, and so the value's length bounds its steps.
-/

namespace Datebook.Json

/-- Space between tokens, or nothing. -/
def IsGap (g : Octets) : Prop := ∀ b ∈ g, isSpace b = true

/-- One digit or more. -/
def IsDigits (ds : Octets) : Prop := ds ≠ [] ∧ ∀ b ∈ ds, isDigit b = true

inductive IsFraction : Octets → Prop
  | none : IsFraction []
  | point {ds : Octets} (h : IsDigits ds) : IsFraction (0x2E :: ds)

inductive IsExponent : Octets → Prop
  | none : IsExponent []
  | mark {e : UInt8} {sign ds : Octets} (he : e = 0x65 ∨ e = 0x45)
      (hs : sign = [] ∨ sign = [0x2D] ∨ sign = [0x2B]) (h : IsDigits ds) :
      IsExponent (e :: (sign ++ ds))

/-- A number: a sign, digits of which the first is 0 only if it is alone, a fraction and an
exponent. -/
inductive IsNumeral : Octets → Prop
  | mk {sign ds f e : Octets} (hs : sign = [] ∨ sign = [0x2D]) (hd : IsDigits ds)
      (hz : ds.head? = some 0x30 → ds.length = 1) (hf : IsFraction f) (he : IsExponent e) :
      IsNumeral (sign ++ (ds ++ (f ++ e)))

def Bracket.opening : Bracket → UInt8
  | .array => 0x5B
  | .object => 0x7B

/-- What stands before a value inside the bracket, with the body of its name if it has one. -/
inductive IsLabel : Bracket → Octets → Octets → Prop
  | array : IsLabel .array [] []
  | object {ps : List Piece} {g b g' : Octets} (hg : IsGap g) (hb : Writes ps b) (hg' : IsGap g') :
      IsLabel .object b (g ++ 0x22 :: (b ++ 0x22 :: (g' ++ [0x3A])))

mutual

/-- A value without space around it. -/
inductive IsValue : Octets → Prop
  | word {v : Octets} (h : v = wordTrue ∨ v = wordFalse ∨ v = wordNull) : IsValue v
  | numeral {v : Octets} (h : IsNumeral v) : IsValue v
  | text {ps : List Piece} {b : Octets} (h : Writes ps b) : IsValue (0x22 :: (b ++ [0x22]))
  | empty (k : Bracket) {g : Octets} (hg : IsGap g) : IsValue (k.opening :: (g ++ [k.closing]))
  | items {k : Bracket} {ms : List (Octets × Octets)} {w : Octets} (h : IsItems k ms w) :
      IsValue (k.opening :: (w ++ [k.closing]))

/-- What stands between brackets, with the values in it and the bodies of their names. -/
inductive IsItems : Bracket → List (Octets × Octets) → Octets → Prop
  | one {k : Bracket} {b l g v g' : Octets} (hl : IsLabel k b l) (hg : IsGap g) (hv : IsValue v)
      (hg' : IsGap g') : IsItems k [(b, v)] (l ++ (g ++ (v ++ g')))
  | cons {k : Bracket} {b l g v g' w : Octets} {ms : List (Octets × Octets)} (hl : IsLabel k b l)
      (hg : IsGap g) (hv : IsValue v) (hg' : IsGap g') (h : IsItems k ms w) :
      IsItems k ((b, v) :: ms) (l ++ (g ++ (v ++ (g' ++ 0x2C :: w))))

end

/-- The text ends here or goes on with what may follow a value. -/
def Apart (r : Octets) : Prop :=
  ∀ b ∈ r.head?, isSpace b = true ∨ b = 0x2C ∨ b = 0x5D ∨ b = 0x7D

/-- The text goes on with something else than a digit, or ends. -/
def NoDigit (s : Octets) : Prop := ∀ b ∈ s.head?, isDigit b = false

theorem skipSpace_gap {g : Octets} (hg : IsGap g) (s : Octets) :
    skipSpace (g ++ s) = skipSpace s := by
  induction g with
  | nil => rfl
  | cons b g ih =>
    have hb := hg b (by simp)
    simpa [skipSpace, hb] using ih fun x hx => hg x (by simp [hx])

theorem skipSpace_of_head {b : UInt8} (hb : isSpace b = false) (s : Octets) :
    skipSpace (b :: s) = b :: s := by
  simp [skipSpace, hb]

theorem skipMark?_gap {g : Octets} (hg : IsGap g) {b : UInt8} (hb : isSpace b = false)
    (s : Octets) : skipMark? b (g ++ b :: s) = some s := by
  rw [skipMark?, skipSpace_gap hg, skipSpace_of_head hb]
  simp [expect?]

theorem Apart.noDigit {r : Octets} (h : Apart r) : NoDigit r := by
  intro b hb
  rcases h b hb with hs | rfl | rfl | rfl
  · simp only [isSpace, Bool.or_eq_true, beq_iff_eq] at hs
    rcases hs with ((rfl | rfl) | rfl) | rfl <;> decide
  all_goals decide

theorem Apart.of_gap {g r : Octets} (hg : IsGap g) (h : Apart r) : Apart (g ++ r) := by
  rcases g with _ | ⟨b, g⟩
  · exact h
  · intro x hx
    cases hx
    exact .inl (hg _ (by simp))

theorem digitRun_digits {ds : Octets} (hd : IsDigits ds) :
    digitRun ds = ds.map fun b => b.toNat - 48 := by
  have : ds.takeWhile isDigit = ds := by
    simpa using @List.takeWhile_append_of_pos _ isDigit ds [] hd.2
  rw [digitRun, this]

theorem digits_append {ds s : Octets} (hd : IsDigits ds) (hs : NoDigit s) :
    digitRun (ds ++ s) = digitRun ds ∧ (ds ++ s).dropWhile isDigit = s := by
  have hrest : s.takeWhile isDigit = [] ∧ s.dropWhile isDigit = s := by
    rcases s with _ | ⟨b, s⟩
    · exact ⟨rfl, rfl⟩
    · simp [hs b rfl]
  rw [digitRun_digits hd, digitRun, List.takeWhile_append_of_pos hd.2,
    List.dropWhile_append_of_pos hd.2, hrest.1, hrest.2, List.append_nil]
  exact ⟨rfl, rfl⟩

theorem isEmpty_digitRun {ds : Octets} (hd : IsDigits ds) : (digitRun ds).isEmpty = false := by
  simpa [digitRun_digits hd] using hd.1

theorem fraction?_append {f : Octets} (hf : IsFraction f) :
    ∃ x, ∀ s, NoDigit s → s.head? ≠ some 0x2E → fraction? (f ++ s) = some (x, s) := by
  cases hf with
  | none =>
    refine ⟨none, fun s _ hs => ?_⟩
    rcases s with _ | ⟨b, s⟩
    · rfl
    · have : b ≠ 0x2E := fun h => hs (by simp [h])
      simp [fraction?, this]
  | @point ds h =>
    refine ⟨some (digitRun ds), fun s hs _ => ?_⟩
    obtain ⟨hrun, hdrop⟩ := digits_append h hs
    simp [fraction?, hrun, hdrop, isEmpty_digitRun h]

theorem exponent?_append {e : Octets} (he : IsExponent e) : ∃ x, ∀ s, Apart s →
    exponent? (e ++ s) = some (x, s) := by
  cases he with
  | none =>
    refine ⟨none, fun s hs => ?_⟩
    rcases s with _ | ⟨b, s⟩
    · rfl
    · have : b ≠ 0x65 ∧ b ≠ 0x45 := by
        rcases hs b rfl with h | rfl | rfl | rfl
        · constructor <;> rintro rfl <;> cases h
        all_goals decide
      simp [exponent?, this]
  | @mark m sign ds hm hs h =>
    refine ⟨some (if sign = [0x2D] then -(natOf (digitRun ds) : Int) else natOf (digitRun ds)),
      fun s hs' => ?_⟩
    obtain ⟨hrun, hdrop⟩ := digits_append h hs'.noDigit
    rcases hs with rfl | rfl | rfl
    · obtain ⟨d, t, rfl⟩ := List.exists_cons_of_ne_nil h.1
      have hd := h.2 d (by simp)
      have hsign : d ≠ 0x2D ∧ d ≠ 0x2B := by constructor <;> rintro rfl <;> cases hd
      simp only [List.cons_append] at hrun hdrop
      simp [exponent?, hm, hsign, hrun, hdrop, isEmpty_digitRun h]
    · simp [exponent?, hm, hrun, hdrop, isEmpty_digitRun h]
    · simp [exponent?, hm, hrun, hdrop, isEmpty_digitRun h]

/-- What follows the fraction of a number is neither a digit nor a point. -/
theorem IsExponent.noDigit_append {e r : Octets} (he : IsExponent e) (hr : Apart r) :
    NoDigit (e ++ r) ∧ (e ++ r).head? ≠ some 0x2E := by
  cases he with
  | none =>
    refine ⟨hr.noDigit, fun h => ?_⟩
    rcases hr 0x2E h with h | h | h | h <;> cases h
  | mark hm =>
    rcases hm with rfl | rfl <;> exact ⟨by rintro b ⟨⟩; rfl, by simp⟩

theorem not_leading_zero {ds : Octets} (hd : IsDigits ds)
    (hz : ds.head? = some 0x30 → ds.length = 1) :
    ((digitRun ds).head? == some 0 && decide (1 < (digitRun ds).length)) = false := by
  obtain ⟨d, t, rfl⟩ := List.exists_cons_of_ne_nil hd.1
  rw [digitRun_digits hd, Bool.and_eq_false_iff]
  by_cases h0 : d = 0x30
  · have := hz (by simp [h0])
    simp only [List.length_cons] at this
    simp [this]
  · have hlow := hd.2 d (by simp)
    simp only [isDigit, Bool.and_eq_true, decide_eq_true_eq, UInt8.le_iff_toNat_le] at hlow
    have h48 : (0x30 : UInt8).toNat = 48 := rfl
    have hne : d.toNat ≠ 48 := fun h => h0 (UInt8.toNat_inj.1 (h.trans h48.symm))
    left
    simp
    omega

theorem numeral?_append {v : Octets} (hv : IsNumeral v) : ∃ x, ∀ r, Apart r →
    numeral? (v ++ r) = some (x, r) := by
  cases hv with
  | @mk sign ds f e hs hd hz hf he =>
    obtain ⟨x, hx⟩ := fraction?_append hf
    obtain ⟨y, hy⟩ := exponent?_append he
    refine ⟨⟨sign == [0x2D], digitRun ds, x, y⟩, fun r hr => ?_⟩
    have hfraction := he.noDigit_append hr
    have hwhole : NoDigit (f ++ (e ++ r)) := by
      cases hf with
      | none => exact hfraction.1
      | point => rintro b ⟨⟩; rfl
    obtain ⟨hrun, hdrop⟩ := digits_append hd hwhole
    have hlead := not_leading_zero hd hz
    unfold numeral?
    rcases hs with rfl | rfl
    · obtain ⟨d, t, rfl⟩ := List.exists_cons_of_ne_nil hd.1
      have hminus : d ≠ 0x2D := by
        rintro rfl
        cases hd.2 0x2D (by simp)
      simp only [List.cons_append] at hrun hdrop
      simp [hminus, hrun, hdrop, isEmpty_digitRun hd, hlead, hx _ hfraction.1 hfraction.2, hy _ hr]
    · simp [hrun, hdrop, isEmpty_digitRun hd, hlead, hx _ hfraction.1 hfraction.2, hy _ hr]

theorem isSpace_of_isDigit {b : UInt8} (h : isDigit b = true) : isSpace b = false := by
  simp only [isSpace, Bool.or_eq_false_iff, beq_eq_false_iff_ne]
  refine ⟨⟨⟨?_, ?_⟩, ?_⟩, ?_⟩ <;> rintro rfl <;> cases h

/-- What a value may begin with. -/
def IsStart (b : UInt8) : Prop :=
  b = 0x22 ∨ b = 0x74 ∨ b = 0x66 ∨ b = 0x6E ∨ b = 0x2D ∨ b = 0x5B ∨ b = 0x7B ∨ isDigit b = true

theorem IsStart.not_space {b : UInt8} (h : IsStart b) : isSpace b = false := by
  rcases h with rfl | rfl | rfl | rfl | rfl | rfl | rfl | h
  any_goals rfl
  exact isSpace_of_isDigit h

theorem IsStart.ne_closing {b : UInt8} (h : IsStart b) (k : Bracket) : b ≠ k.closing := by
  rintro rfl
  cases k <;> revert h <;> unfold IsStart <;> decide

theorem IsNumeral.start {v : Octets} (h : IsNumeral v) :
    ∃ b t, v = b :: t ∧ (b = 0x2D ∨ isDigit b = true) := by
  cases h with
  | @mk sign ds f e hs hd =>
    rcases hs with rfl | rfl
    · obtain ⟨d, t, rfl⟩ := List.exists_cons_of_ne_nil hd.1
      exact ⟨d, _, rfl, .inr (hd.2 d (by simp))⟩
    · exact ⟨0x2D, _, rfl, .inl rfl⟩

theorem IsValue.start {v : Octets} (h : IsValue v) : ∃ b t, v = b :: t ∧ IsStart b := by
  cases h with
  | word h =>
    rcases h with rfl | rfl | rfl <;> exact ⟨_, _, rfl, by unfold IsStart; decide⟩
  | numeral h =>
    obtain ⟨b, t, hv, hb⟩ := h.start
    refine ⟨b, t, hv, ?_⟩
    unfold IsStart
    tauto
  | text h => exact ⟨_, _, rfl, by unfold IsStart; decide⟩
  | empty k hg => exact ⟨_, _, rfl, by cases k <;> unfold IsStart <;> decide⟩
  | @items k _ _ h => exact ⟨_, _, rfl, by cases k <;> unfold IsStart <;> decide⟩

theorem enter?_label {k : Bracket} {b l : Octets} (h : IsLabel k b l) (s : Octets) :
    k.enter? (l ++ s) = some s := by
  cases h with
  | array => rfl
  | object hg hb hg' =>
    simp only [Bracket.enter?, skipName?, List.append_assoc, List.cons_append,
      skipMark?_gap hg (b := 0x22) rfl, Option.bind_some, skipText?, pieces?_of_writes hb,
      Option.map_some, List.nil_append, skipMark?_gap hg' (b := 0x3A) rfl]

theorem skipSpace_value {g v : Octets} (hg : IsGap g) (hv : IsValue v) (s : Octets) :
    skipSpace (g ++ (v ++ s)) = v ++ s := by
  obtain ⟨b, t, rfl, hb⟩ := hv.start
  rw [skipSpace_gap hg, List.cons_append, skipSpace_of_head hb.not_space]

/-- The text between brackets does not begin like the bracket that closes. -/
theorem skipMark?_closing_items {k : Bracket} {ms : List (Octets × Octets)} {w : Octets}
    (h : IsItems k ms w) (s : Octets) : skipMark? k.closing (w ++ s) = none := by
  have hstart : ∀ {b l g v t : Octets}, IsLabel k b l → IsGap g → IsValue v →
      skipMark? k.closing (l ++ (g ++ (v ++ t))) = none := by
    intro b l g v t hl hg hv
    cases hl with
    | array =>
      rw [skipMark?, List.nil_append, skipSpace_value hg hv]
      obtain ⟨b, u, rfl, hb⟩ := hv.start
      simp [expect?, (hb.ne_closing .array).symm]
    | object hg =>
      rw [skipMark?, List.append_assoc, skipSpace_gap hg, List.cons_append,
        skipSpace_of_head (by rfl)]
      simp [expect?, Bracket.closing]
  cases h with
  | one hl hg hv => simpa using hstart hl hg hv
  | cons hl hg hv => simpa using hstart hl hg hv

theorem expect?_append (w r : Octets) : expect? w (w ++ r) = some r := by
  induction w with
  | nil => rfl
  | cons b w ih => simp [expect?, ih]

theorem skipScalar?_numeral {v r : Octets} (hv : IsNumeral v) (hr : Apart r) :
    skipScalar? (v ++ r) = some r := by
  obtain ⟨x, hx⟩ := numeral?_append hv
  have hread := hx r hr
  obtain ⟨b, t, rfl, hb⟩ := hv.start
  have hother : b ≠ 0x22 ∧ b ≠ 0x74 ∧ b ≠ 0x66 ∧ b ≠ 0x6E := by
    refine ⟨?_, ?_, ?_, ?_⟩ <;> rintro rfl <;> revert hb <;> decide
  rw [List.cons_append] at hread ⊢
  simp [skipScalar?, hother, hread]

/-- A value of one token is stepped over as such. -/
theorem skipScalar?_append {v : Octets} (hv : IsValue v)
    (hscalar : ∀ (k : Bracket) (w : Octets), v ≠ k.opening :: w) {r : Octets} (hr : Apart r) :
    skipScalar? (v ++ r) = some r := by
  cases hv with
  | word h =>
    rcases h with rfl | rfl | rfl
    · exact expect?_append wordTrue r
    · exact expect?_append wordFalse r
    · exact expect?_append wordNull r
  | numeral h => exact skipScalar?_numeral h hr
  | text h =>
    simp [skipScalar?, skipText?, pieces?_of_writes h]
  | empty k => exact absurd rfl (hscalar k _)
  | @items k => exact absurd rfl (hscalar k _)

theorem skipFrom?_scalar {g v r : Octets} (hg : IsGap g) (hv : IsValue v)
    (hscalar : ∀ (k : Bracket) (w : Octets), v ≠ k.opening :: w) (hr : Apart r) (n : Nat)
    (stack : List Bracket) :
    skipFrom? (1 + n) .value stack (g ++ (v ++ r)) = skipFrom? n .ending stack r := by
  have hskip := skipScalar?_append hv hscalar hr
  rw [Nat.add_comm, skipFrom?, skipSpace_value hg hv]
  obtain ⟨b, t, rfl, hb⟩ := hv.start
  have hbracket : ¬(b = 0x5B ∨ b = 0x7B) := by
    rintro (rfl | rfl)
    · exact hscalar .array t rfl
    · exact hscalar .object t rfl
  rw [List.cons_append] at hskip ⊢
  simp [hbracket, hskip]

theorem skipFrom?_opening {g : Octets} (hg : IsGap g) (k : Bracket) (n : Nat) (stack : List Bracket)
    (s : Octets) :
    skipFrom? (n + 1) .value stack (g ++ k.opening :: s) =
      match skipMark? k.closing s with
      | some r => skipFrom? n .ending stack r
      | none => (k.enter? s).bind (skipFrom? n .value (k :: stack)) := by
  have hspace : isSpace k.opening = false := by cases k <;> rfl
  rw [skipFrom?, skipSpace_gap hg, skipSpace_of_head hspace]
  cases k <;> rfl

theorem apart_closing (k : Bracket) (s : Octets) : Apart (k.closing :: s) := by
  intro b hb
  cases hb
  cases k <;> decide

theorem closing_ne_comma (k : Bracket) : k.closing ≠ 0x2C := by
  cases k <;> decide

theorem apart_comma (s : Octets) : Apart (0x2C :: s) := by
  intro b hb
  cases hb
  exact .inr (.inl rfl)

theorem IsValue.length_pos {v : Octets} (h : IsValue v) : 0 < v.length := by
  obtain ⟨b, t, rfl, -⟩ := h.start
  simp

mutual

/-- A value takes no more steps than it has octets. -/
theorem skipFrom?_value : ∀ {v : Octets}, IsValue v → ∃ m, m ≤ v.length ∧
    ∀ (n : Nat) (stack : List Bracket) (g r : Octets), IsGap g → Apart r →
      skipFrom? (m + n) .value stack (g ++ (v ++ r)) = skipFrom? n .ending stack r
  | v, .word h => by
    refine ⟨1, (IsValue.word h).length_pos, fun n stack g r hg hr => ?_⟩
    refine skipFrom?_scalar hg (.word h) (fun k w hw => ?_) hr n stack
    rcases h with rfl | rfl | rfl <;> cases k <;> cases hw
  | v, .numeral h => by
    refine ⟨1, (IsValue.numeral h).length_pos, fun n stack g r hg hr => ?_⟩
    refine skipFrom?_scalar hg (.numeral h) (fun k w hw => ?_) hr n stack
    obtain ⟨b, t, rfl, hb⟩ := h.start
    cases hw
    cases k <;> revert hb <;> decide
  | _, .text h => by
    refine ⟨1, by simp, fun n stack g r hg hr => ?_⟩
    refine skipFrom?_scalar hg (.text h) (fun k w hw => ?_) hr n stack
    cases k <;> cases hw
  | _, .empty k hg' => by
    refine ⟨1, by simp, fun n stack g r hg hr => ?_⟩
    have hspace : isSpace k.closing = false := by cases k <;> rfl
    rw [List.cons_append, Nat.add_comm, skipFrom?_opening hg, List.append_assoc,
      List.singleton_append, skipMark?_gap hg' hspace]
  | _, .items (k := k) h => by
    obtain ⟨m, hm, hitems⟩ := skipFrom?_items h
    refine ⟨m + 1, by simp; omega, fun n stack g r hg hr => ?_⟩
    rw [List.cons_append, Nat.add_right_comm, skipFrom?_opening hg, List.append_assoc,
      skipMark?_closing_items h]
    exact hitems n stack r

theorem skipFrom?_items : ∀ {k : Bracket} {ms : List (Octets × Octets)} {w : Octets},
    IsItems k ms w → ∃ m, m ≤ w.length + 1 ∧ ∀ (n : Nat) (stack : List Bracket) (r : Octets),
      (k.enter? (w ++ k.closing :: r)).bind (skipFrom? (m + n) .value (k :: stack))
        = skipFrom? n .ending stack r
  | k, _, _, .one hl hg hv hg' => by
    obtain ⟨m, hm, hskip⟩ := skipFrom?_value hv
    refine ⟨m + 1, by simp; omega, fun n stack r => ?_⟩
    have hspace : isSpace k.closing = false := by cases k <;> rfl
    have hcomma : k.closing ≠ 0x2C := by cases k <;> decide
    simp only [List.append_assoc, enter?_label hl, Option.bind_some]
    rw [Nat.add_assoc, hskip _ _ _ _ hg (.of_gap hg' (apart_closing k r)), Nat.add_comm, skipFrom?,
      skipSpace_gap hg', skipSpace_of_head hspace]
    simp [hcomma]
  | k, _, _, .cons (w := w) hl hg hv hg' h => by
    obtain ⟨m, hm, hskip⟩ := skipFrom?_value hv
    obtain ⟨j, hj, hitems⟩ := skipFrom?_items h
    refine ⟨m + (1 + j), by simp; omega, fun n stack r => ?_⟩
    simp only [List.append_assoc, List.cons_append, enter?_label hl, Option.bind_some]
    rw [Nat.add_assoc, hskip _ _ _ _ hg (.of_gap hg' (apart_comma _)), Nat.add_assoc,
      Nat.add_comm, skipFrom?, skipSpace_gap hg', skipSpace_of_head (by rfl)]
    simp only [if_true]
    exact hitems n stack r

end

/-- A value that stands apart is stepped over, whatever it is. -/
theorem skipValue?_append {g v r : Octets} (hg : IsGap g) (hv : IsValue v) (hr : Apart r) :
    skipValue? (g ++ (v ++ r)) = some r := by
  obtain ⟨m, hm, hskip⟩ := skipFrom?_value hv
  have hfuel : (g ++ (v ++ r)).length + 1 = m + ((g ++ (v ++ r)).length - m + 1) := by
    simp only [List.length_append]
    omega
  rw [skipValue?, hfuel, hskip _ _ _ _ hg hr, skipFrom?]

end Datebook.Json

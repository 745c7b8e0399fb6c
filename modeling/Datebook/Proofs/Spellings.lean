import Datebook.Json.Record
import Mathlib.Tactic.SplitIfs

/-!
# Strings as they are spelled

`Json.Spells` says which octets between quotes stand for a text: each of its characters stands as
itself or is escaped in one of the ways there are. `Json.readText?_eq_some_iff`: reading a string
gives the text that is spelled, and there is no other that could be meant (`Json.Spells.unique`).
`Json.spells_escaped`: a text is written in one of its spellings.

What is read is taken for pieces first, so a character of several octets has to be found again in
the pieces of its octets. The first of these tells it from every other (`utf8EncodeChar_cases`).
-/

namespace Datebook

/-- An octet of a character in UTF-8 after its first. -/
def IsTrailOctet (b : UInt8) : Prop := 0x80 ≤ b.toNat ∧ b.toNat < 0xC0

theorem utf8EncodeChar_cases (c : Char) :
    ∃ b t, String.utf8EncodeChar c = b :: t ∧ (∀ x ∈ t, IsTrailOctet x)
      ∧ (c.toNat < 0x80 ∧ b.toNat = c.toNat ∧ t = [] ∨ 0x80 ≤ c.toNat ∧ 0xC0 ≤ b.toNat) := by
  have hc : c.val.toNat < 0x110000 := by
    have := c.valid
    simp only [UInt32.isValidChar, Nat.isValidChar] at this
    omega
  unfold String.utf8EncodeChar Char.toNat
  simp only []
  split_ifs
  · refine ⟨_, _, rfl, by simp, .inl ⟨by omega, ?_, rfl⟩⟩
    rw [UInt8.toNat_ofNat']
    omega
  all_goals
    refine ⟨_, _, rfl, ?_, .inr ⟨by omega, ?_⟩⟩
    · simp only [List.mem_cons, List.not_mem_nil, or_false, IsTrailOctet]
      rintro x hx
      rcases hx with rfl | rfl | rfl <;> simp only [UInt8.toNat_ofNat'] <;> omega
    · simp only [UInt8.toNat_ofNat']
      omega

/-- A character stands for itself in a string if its first octet does. -/
theorem plain_first_octet_iff {c : Char} {x : UInt8} {t : Octets}
    (h : String.utf8EncodeChar c = x :: t) :
    (x ≠ 0x22 ∧ x ≠ 0x5C ∧ ¬x < 0x20) ↔ (0x20 ≤ c.toNat ∧ c ≠ '"' ∧ c ≠ '\\') := by
  obtain ⟨y, u, hy, -, hlead⟩ := utf8EncodeChar_cases c
  rw [h] at hy
  cases hy
  have hx : (0x22 : UInt8).toNat = 0x22 ∧ (0x5C : UInt8).toNat = 0x5C
      ∧ (0x20 : UInt8).toNat = 0x20 := ⟨rfl, rfl, rfl⟩
  have hc : '"'.toNat = 0x22 ∧ '\\'.toNat = 0x5C := ⟨rfl, rfl⟩
  rw [Ne, Ne, Ne, Ne, ← UInt8.toNat_inj, ← UInt8.toNat_inj, UInt8.lt_iff_toNat_lt,
    ← Char.toNat_inj, ← Char.toNat_inj]
  omega

/-- Characters are told apart by their octets, whatever comes after these. -/
theorem utf8EncodeChar_append_inj {c d : Char} {s t : Octets}
    (h : String.utf8EncodeChar c ++ s = String.utf8EncodeChar d ++ t) : c = d ∧ s = t := by
  have hbytes : (String.utf8EncodeChar c).toByteArray ++ s.toByteArray
      = (String.utf8EncodeChar d).toByteArray ++ t.toByteArray := by
    rw [← List.toByteArray_append, h, List.toByteArray_append]
  have hc : some c = some d := by
    rw [← ByteArray.utf8DecodeChar?_utf8EncodeChar_append (b := s.toByteArray), hbytes,
      ByteArray.utf8DecodeChar?_utf8EncodeChar_append]
  cases hc
  exact ⟨rfl, List.append_cancel_left h⟩

namespace Json

/-- Pieces of a string and the octets they are written with. -/
inductive Writes : List Piece → Octets → Prop
  | nil : Writes [] []
  | plain {b : UInt8} {ps : List Piece} {s : Octets} (hq : b ≠ 0x22) (hb : b ≠ 0x5C)
      (hc : ¬b < 0x20) (h : Writes ps s) : Writes (.octet b :: ps) (b :: s)
  | short {e x : UInt8} {ps : List Piece} {s : Octets} (hx : escaped? e = some x)
      (h : Writes ps s) : Writes (.octet x :: ps) (0x5C :: e :: s)
  | unit {a b c d : UInt8} {u : Nat} {ps : List Piece} {s : Octets} (hu : unit? a b c d = some u)
      (h : Writes ps s) : Writes (.unit u :: ps) (0x5C :: 0x75 :: a :: b :: c :: d :: s)

theorem pieces?_of_writes {ps : List Piece} {b : Octets} (h : Writes ps b) (r : Octets) :
    pieces? (b ++ 0x22 :: r) = some (ps, r) := by
  induction h with
  | nil =>
    rw [List.nil_append, pieces?.eq_def]
    simp
  | plain hq hb hc _ ih =>
    rw [List.cons_append, pieces?.eq_def]
    simp [hq, hb, hc, ih]
  | @short e x ps s hx _ ih =>
    have hu : e ≠ 0x75 := by
      rintro rfl
      cases hx
    rw [List.cons_append, List.cons_append, pieces?.eq_def]
    simp [hu, hx, ih]
  | unit hu _ ih =>
    simp only [List.cons_append]
    rw [pieces?.eq_def]
    simp [hu, ih]

theorem writes_of_pieces? {s r : Octets} {ps : List Piece} (h : pieces? s = some (ps, r)) :
    ∃ b, s = b ++ 0x22 :: r ∧ Writes ps b := by
  induction s using pieces?.induct generalizing ps with
  | case1 => cases h
  | case2 s =>
    rw [pieces?.eq_def] at h
    simp only [if_true, Option.some.injEq, Prod.mk.injEq] at h
    exact ⟨[], by simp [h.2], h.1 ▸ .nil⟩
  | case4 a b c d s u hu _ ih =>
    rw [pieces?.eq_def] at h
    simp only [hu] at h
    obtain ⟨⟨qs, t⟩, hq, h⟩ := Option.map_eq_some_iff.1 h
    cases h
    obtain ⟨w, rfl, hw⟩ := ih hq
    exact ⟨_, rfl, .unit hu hw⟩
  | case7 e s he x hx _ ih =>
    rw [pieces?.eq_def] at h
    simp only [he, hx] at h
    obtain ⟨⟨qs, t⟩, hq, h⟩ := Option.map_eq_some_iff.1 h
    cases h
    obtain ⟨w, rfl, hw⟩ := ih hq
    exact ⟨_, rfl, .short hx hw⟩
  | case10 b s hq hb hc ih =>
    rw [pieces?.eq_def] at h
    simp only [hq, hb, hc, if_false] at h
    obtain ⟨⟨qs, t⟩, hq', h⟩ := Option.map_eq_some_iff.1 h
    cases h
    obtain ⟨w, rfl, hw⟩ := ih hq'
    exact ⟨_, rfl, .plain hq hb hc hw⟩
  | _ =>
    rw [pieces?.eq_def] at h
    simp_all

/-- The octets that stand for a character inside a string: its own, or an escape with a letter, with
its number, or with the numbers of its two surrogates. -/
inductive SpellsChar : Char → Octets → Prop
  | plain {c : Char} (hc : 0x20 ≤ c.toNat) (hq : c ≠ '"') (hb : c ≠ '\\') :
      SpellsChar c (String.utf8EncodeChar c)
  | letter {c : Char} {e x : UInt8} (hx : escaped? e = some x) (hc : x.toNat = c.toNat) :
      SpellsChar c [0x5C, e]
  | number {ch : Char} {a b c d : UInt8} (hu : unit? a b c d = some ch.toNat) :
      SpellsChar ch [0x5C, 0x75, a, b, c, d]
  | pair {ch : Char} {a b c d a' b' c' d' : UInt8} (hch : 0x10000 ≤ ch.toNat)
      (hu : unit? a b c d = some (0xD800 + (ch.toNat - 0x10000) / 0x400))
      (hv : unit? a' b' c' d' = some (0xDC00 + (ch.toNat - 0x10000) % 0x400)) :
      SpellsChar ch [0x5C, 0x75, a, b, c, d, 0x5C, 0x75, a', b', c', d']

/-- The octets that stand for a text inside a string. -/
inductive Spells : List Char → Octets → Prop
  | nil : Spells [] []
  | cons {c : Char} {cs : List Char} {b s : Octets} (hc : SpellsChar c b) (h : Spells cs s) :
      Spells (c :: cs) (b ++ s)

theorem writes_trail {t : Octets} (ht : ∀ x ∈ t, IsTrailOctet x) {ps : List Piece} {s : Octets}
    (h : Writes ps s) : Writes (t.map .octet ++ ps) (t ++ s) := by
  induction t with
  | nil => exact h
  | cons x t ih =>
    have hx := (ht x (by simp)).1
    refine .plain ?_ ?_ ?_ (ih fun y hy => ht y (by simp [hy]))
    · rintro rfl
      exact absurd hx (by decide)
    · rintro rfl
      exact absurd hx (by decide)
    · rw [UInt8.lt_iff_toNat_lt]
      exact fun h => absurd (Nat.le_trans hx (Nat.le_of_lt h)) (by decide)

theorem joinPieces?_octets (bs : Octets) (ps : List Piece) :
    joinPieces? (bs.map .octet ++ ps) = (joinPieces? ps).map (bs ++ ·) := by
  induction bs with
  | nil => simp
  | cons b bs ih =>
    simp [joinPieces?, ih, Function.comp_def]

theorem char_not_surrogate (c : Char) :
    c.toNat < 0xD800 ∨ 0xE000 ≤ c.toNat ∧ c.toNat < 0x110000 := by
  have := c.valid
  simp only [UInt32.isValidChar, Nat.isValidChar] at this
  unfold Char.toNat
  omega

theorem joinPieces?_unit {u : Nat} (hl : isLeading u = false) (ht : isTrailing u = false)
    (ps : List Piece) : joinPieces? (.unit u :: ps)
      = (joinPieces? ps).map (String.utf8EncodeChar (Char.ofNat u) ++ ·) := by
  rw [joinPieces?.eq_def]
  simp [hl, ht]

theorem escaped?_lt {e x : UInt8} (h : escaped? e = some x) : x.toNat < 0x80 := by
  unfold escaped? at h
  split_ifs at h with he
  · rcases he with rfl | rfl | rfl <;> cases h <;> decide
  all_goals cases h; decide

/-- The pieces of a spelled character, and the octets that they are joined to. -/
theorem SpellsChar.pieces {c : Char} {b : Octets} (h : SpellsChar c b) :
    ∃ qs, (∀ ps s, Writes ps s → Writes (qs ++ ps) (b ++ s))
      ∧ ∀ ps, joinPieces? (qs ++ ps) = (joinPieces? ps).map (String.utf8EncodeChar c ++ ·) := by
  cases h with
  | plain hc hq hb =>
    obtain ⟨x, t, hxt, ht, -⟩ := utf8EncodeChar_cases c
    obtain ⟨hq', hb', hc'⟩ := (plain_first_octet_iff hxt).2 ⟨hc, hq, hb⟩
    refine ⟨(String.utf8EncodeChar c).map .octet, fun ps s h => ?_, joinPieces?_octets _⟩
    rw [hxt]
    exact .plain hq' hb' hc' (writes_trail ht h)
  | @letter e x hx hc =>
    refine ⟨[.octet x], fun ps s h => .short hx h, fun ps => ?_⟩
    have hlt := escaped?_lt hx
    obtain ⟨y, t, hyt, -, ⟨-, hy, rfl⟩ | hy⟩ := utf8EncodeChar_cases c
    · rw [hyt, UInt8.toNat_inj.1 (hy.trans hc.symm)]
      rfl
    · omega
  | number hu =>
    have := char_not_surrogate c
    refine ⟨[.unit c.toNat], fun ps s h => .unit hu h, fun ps => ?_⟩
    rw [List.singleton_append, joinPieces?_unit (by simp [isLeading]; omega)
      (by simp [isTrailing]; omega), Char.ofNat_toNat]
  | pair hch hu hv =>
    have := char_not_surrogate c
    refine ⟨[.unit _, .unit _], fun ps s h => .unit hu (.unit hv h), fun ps => ?_⟩
    have hl : isLeading (0xD800 + (c.toNat - 0x10000) / 0x400) = true := by
      simp [isLeading]
      omega
    have ht : isTrailing (0xDC00 + (c.toNat - 0x10000) % 0x400) = true := by
      simp [isTrailing]
      omega
    have hpair : charOfPair (0xD800 + (c.toNat - 0x10000) / 0x400)
        (0xDC00 + (c.toNat - 0x10000) % 0x400) = c := by
      have : 0x10000 + (0xD800 + (c.toNat - 0x10000) / 0x400 - 0xD800) * 0x400
          + (0xDC00 + (c.toNat - 0x10000) % 0x400 - 0xDC00) = c.toNat := by omega
      rw [charOfPair, this, Char.ofNat_toNat]
    simp only [List.cons_append, List.nil_append]
    rw [joinPieces?.eq_def]
    simp only [hl, ht, if_true, hpair]

theorem toNat_ofNat {n : Nat} (h : n < 0xD800 ∨ 0xE000 ≤ n ∧ n < 0x110000) :
    (Char.ofNat n).toNat = n := by
  unfold Char.ofNat
  rw [dif_pos (by unfold Nat.isValidChar; omega)]
  rfl

theorem hexValue?_lt {b : UInt8} {n : Nat} (h : hexValue? b = some n) : n < 16 := by
  unfold hexValue? at h
  simp only [] at h
  split_ifs at h <;> cases h <;> omega

theorem unit?_lt {a b c d : UInt8} {u : Nat} (h : unit? a b c d = some u) : u < 0x10000 := by
  unfold unit? at h
  simp only [bind, Option.bind_eq_some_iff, pure, Option.some.injEq] at h
  obtain ⟨i, hi, j, hj, k, hk, l, hl, rfl⟩ := h
  have := hexValue?_lt hi
  have := hexValue?_lt hj
  have := hexValue?_lt hk
  have := hexValue?_lt hl
  omega

/-- A unit begins a character, alone or with the unit after it. -/
theorem of_joinPieces?_unit {u : Nat} (hu : u < 0x10000) {ps : List Piece} {o : Octets}
    (h : joinPieces? (.unit u :: ps) = some o) :
    ∃ d t, o = String.utf8EncodeChar d ++ t
      ∧ (d.toNat = u ∧ joinPieces? ps = some t
        ∨ ∃ v qs, ps = .unit v :: qs ∧ joinPieces? qs = some t ∧ 0x10000 ≤ d.toNat
          ∧ u = 0xD800 + (d.toNat - 0x10000) / 0x400
          ∧ v = 0xDC00 + (d.toNat - 0x10000) % 0x400) := by
  rw [joinPieces?.eq_def] at h
  simp only [] at h
  split_ifs at h with hl ht
  · split at h
    · rename_i v qs
      split_ifs at h with hv
      obtain ⟨t, hqs, rfl⟩ := Option.map_eq_some_iff.1 h
      simp only [isLeading, isTrailing, Bool.and_eq_true, decide_eq_true_eq] at hl hv
      have hd : (charOfPair u v).toNat = 0x10000 + (u - 0xD800) * 0x400 + (v - 0xDC00) := by
        rw [charOfPair, toNat_ofNat (by omega)]
      exact ⟨_, t, rfl, .inr ⟨v, qs, rfl, hqs, by omega, by omega, by omega⟩⟩
    · cases h
  · obtain ⟨t, hps, rfl⟩ := Option.map_eq_some_iff.1 h
    simp only [isLeading, isTrailing, Bool.and_eq_true, decide_eq_true_eq] at hl ht
    refine ⟨_, t, rfl, .inl ⟨?_, hps⟩⟩
    rw [toNat_ofNat (by omega)]

/-- The octets of a character after its first can only stand for themselves. -/
theorem of_joinPieces?_trail {t o : Octets} (ht : ∀ x ∈ t, IsTrailOctet x) {ps : List Piece}
    {b : Octets} (h : Writes ps b) (hj : joinPieces? ps = some (t ++ o)) :
    ∃ qs s, b = t ++ s ∧ Writes qs s ∧ joinPieces? qs = some o := by
  induction t generalizing ps b with
  | nil => exact ⟨ps, b, rfl, h, hj⟩
  | cons x t ih =>
    have hx := ht x (by simp)
    cases h with
    | nil => cases hj
    | plain hq hb hc h =>
      obtain ⟨o', ho', heq⟩ := Option.map_eq_some_iff.1 (joinPieces?.eq_2 _ _ ▸ hj)
      cases heq
      obtain ⟨qs, s, rfl, hqs⟩ := ih (fun y hy => ht y (by simp [hy])) h ho'
      exact ⟨qs, s, rfl, hqs⟩
    | short hx' h =>
      obtain ⟨o', ho', heq⟩ := Option.map_eq_some_iff.1 (joinPieces?.eq_2 _ _ ▸ hj)
      cases heq
      exact absurd hx.1 (Nat.not_le.2 (escaped?_lt hx'))
    | unit hu h =>
      obtain ⟨d, w, hd, -⟩ := of_joinPieces?_unit (unit?_lt hu) hj
      obtain ⟨y, w', hy, -, hlead⟩ := utf8EncodeChar_cases d
      rw [hy, List.cons_append, List.cons_append, List.cons.injEq] at hd
      rw [hd.1, IsTrailOctet] at hx
      omega

theorem writes_of_spells {cs : List Char} {b : Octets} (h : Spells cs b) :
    ∃ ps, Writes ps b ∧ joinPieces? ps = some (cs.flatMap String.utf8EncodeChar) := by
  induction h with
  | nil => exact ⟨[], .nil, rfl⟩
  | cons hc _ ih =>
    obtain ⟨ps, hps, hjoin⟩ := ih
    obtain ⟨qs, hqs, hq⟩ := hc.pieces
    exact ⟨qs ++ ps, hqs ps _ hps, by simp [hq, hjoin]⟩

/-- The first character of joined pieces, and what spells it. -/
theorem exists_spellsChar {c : Char} {ps : List Piece} {b o : Octets} (h : Writes ps b)
    (hj : joinPieces? ps = some (String.utf8EncodeChar c ++ o)) :
    ∃ w qs s, b = w ++ s ∧ SpellsChar c w ∧ Writes qs s ∧ joinPieces? qs = some o := by
  obtain ⟨x, t, hxt, htrail, hlead⟩ := utf8EncodeChar_cases c
  cases h with
  | nil =>
    rw [hxt] at hj
    cases hj
  | @plain y ps s hq hb hc h =>
    obtain ⟨o', ho', heq⟩ := Option.map_eq_some_iff.1 (joinPieces?.eq_2 _ _ ▸ hj)
    rw [hxt, List.cons_append, List.cons.injEq] at heq
    obtain ⟨rfl, rfl⟩ := heq
    obtain ⟨qs, s', rfl, hqs, hjoin⟩ := of_joinPieces?_trail htrail h ho'
    obtain ⟨hc', hq', hb'⟩ := (plain_first_octet_iff hxt).1 ⟨hq, hb, hc⟩
    exact ⟨String.utf8EncodeChar c, qs, s', by simp [hxt], .plain hc' hq' hb', hqs, hjoin⟩
  | @short e y ps s hx h =>
    obtain ⟨o', ho', heq⟩ := Option.map_eq_some_iff.1 (joinPieces?.eq_2 _ _ ▸ hj)
    rw [hxt, List.cons_append, List.cons.injEq] at heq
    obtain ⟨rfl, rfl⟩ := heq
    have := escaped?_lt hx
    rcases hlead with ⟨-, hy, rfl⟩ | hlead
    · exact ⟨[0x5C, e], ps, s, rfl, .letter hx hy, h, ho'⟩
    · omega
  | @unit a₁ a₂ a₃ a₄ u ps s hu h =>
    obtain ⟨d, w, hd, hcases⟩ := of_joinPieces?_unit (unit?_lt hu) hj
    obtain ⟨rfl, rfl⟩ := utf8EncodeChar_append_inj hd
    rcases hcases with ⟨hu', hps⟩ | ⟨v, qs, rfl, hqs, hlarge, hu', hv'⟩
    · rw [← hu'] at hu
      exact ⟨_, ps, s, rfl, .number hu, h, hps⟩
    · rw [hu'] at hu
      cases h with
      | unit hv h =>
        rw [hv'] at hv
        exact ⟨_, qs, _, rfl, .pair hlarge hu hv, h, hqs⟩

theorem spells_of_joinPieces? {cs : List Char} {ps : List Piece} {b : Octets} (h : Writes ps b)
    (hj : joinPieces? ps = some (cs.flatMap String.utf8EncodeChar)) : Spells cs b := by
  induction cs generalizing ps b with
  | nil =>
    rcases ps with _ | ⟨x | u, ps⟩
    · cases h
      exact .nil
    · obtain ⟨t, -, ht⟩ := Option.map_eq_some_iff.1 (joinPieces?.eq_2 _ _ ▸ hj)
      cases ht
    · cases h with
      | unit hu h =>
        obtain ⟨d, t, hd, -⟩ := of_joinPieces?_unit (unit?_lt hu) hj
        exact absurd (List.append_eq_nil_iff.1 hd.symm).1 String.utf8EncodeChar_ne_nil
  | cons c cs ih =>
    obtain ⟨w, qs, s, rfl, hw, hqs, hjoin⟩ := exists_spellsChar h hj
    exact .cons hw (ih hqs hjoin)

/-- Reading a text gives what its octets spell, and these end before the closing quote. -/
theorem readText?_eq_some_iff {s r : Octets} {t : String} :
    readText? s = some (t, r) ↔ ∃ b, s = b ++ 0x22 :: r ∧ Spells t.toList b := by
  unfold readText?
  simp only [bind, Option.bind_eq_some_iff, pure, Option.some.injEq, Prod.mk.injEq,
    Octets.text?_eq_some_iff]
  constructor
  · rintro ⟨⟨ps, r'⟩, hps, o, ho, t', rfl, rfl, rfl⟩
    obtain ⟨b, rfl, hb⟩ := writes_of_pieces? hps
    exact ⟨b, rfl, spells_of_joinPieces? hb ho⟩
  · rintro ⟨b, rfl, hb⟩
    obtain ⟨ps, hps, hjoin⟩ := writes_of_spells hb
    exact ⟨_, pieces?_of_writes hps r, _, hjoin, t, rfl, rfl, rfl⟩

theorem Spells.unique {s t : String} {b : Octets} (hs : Spells s.toList b)
    (ht : Spells t.toList b) : s = t := by
  have h : readText? (b ++ [0x22]) = some (s, []) := readText?_eq_some_iff.2 ⟨b, rfl, hs⟩
  rw [readText?_eq_some_iff.2 ⟨b, rfl, ht⟩] at h
  cases h
  rfl

theorem hexDigit_spec : ∀ n < 16,
    hexValue? (UInt8.ofNat (hexDigit n).toNat) = some n ∧ (hexDigit n).toNat < 0x80 := by
  decide

/-- A character that is written with an escape, or as itself, is spelled so. -/
theorem spellsChar_escapeChar (c : Char) :
    SpellsChar c ((escapeChar c).flatMap String.utf8EncodeChar) := by
  unfold escapeChar
  split_ifs with hq hb h8 h9 ha hf hr hctl
  · subst hq
    exact .letter (x := 0x22) rfl rfl
  · subst hb
    exact .letter (x := 0x5C) rfl rfl
  · exact h8 ▸ .letter (x := 0x08) rfl rfl
  · exact h9 ▸ .letter (x := 0x09) rfl rfl
  · exact ha ▸ .letter (x := 0x0A) rfl rfl
  · exact hf ▸ .letter (x := 0x0C) rfl rfl
  · exact hr ▸ .letter (x := 0x0D) rfl rfl
  · obtain ⟨hx, hx'⟩ := hexDigit_spec (c.toNat / 16) (by omega)
    obtain ⟨hy, hy'⟩ := hexDigit_spec (c.toNat % 16) (by omega)
    have hu : unit? 0x30 0x30 (UInt8.ofNat (hexDigit (c.toNat / 16)).toNat)
        (UInt8.ofNat (hexDigit (c.toNat % 16)).toNat) = some c.toNat := by
      have h0 : hexValue? 0x30 = some 0 := by decide
      simp only [unit?, h0, hx, hy, bind, Option.bind, pure, Option.some.injEq]
      omega
    have henc : ∀ d : Char, d.toNat < 0x80 → String.utf8EncodeChar d = [UInt8.ofNat d.toNat] := by
      intro d hd
      obtain ⟨b, t, hbt, -, ⟨-, hb, rfl⟩ | hb⟩ := utf8EncodeChar_cases d
      · rw [hbt, ← hb, UInt8.ofNat_toNat]
      · omega
    have := SpellsChar.number hu
    simp only [List.flatMap_cons, List.flatMap_nil, henc _ hx', henc _ hy']
    exact this
  · simpa using SpellsChar.plain (Nat.not_lt.1 hctl) hq hb

theorem spells_escaped : ∀ cs : List Char,
    Spells cs ((cs.flatMap escapeChar).flatMap String.utf8EncodeChar)
  | [] => .nil
  | c :: cs => by
    rw [List.flatMap_cons, List.flatMap_append]
    exact .cons (spellsChar_escapeChar c) (spells_escaped cs)

end Json

end Datebook

import Datebook.Proofs.Cells

/-!
# Records in objects

A record is read from an object in one pass. `Json.readDocument_object`: what is found does not
depend on the order of the members nor on those that are not known, and every known one that occurs
must occur once and have a value of its kind (`Json.Gives`). `Json.isGap_of_readDocument`: nothing
but space may follow, after any value.

While the members are read, what was found so far stands for the members behind (`Json.Collects`);
a member's cell can be looked up from then on (`Json.lookup_of_collects`).
-/

namespace Datebook.Json

/-- What a member adds to the known ones found before it. -/
def Adds (fields : List Field) (found : Members) (m : String × Octets) (found' : Members) : Prop :=
  match fields.find? (·.name == m.1) with
  | some f => found.lookup m.1 = none ∧ ∃ c, Denotes f.kind c m.2 ∧ found' = (m.1, c) :: found
  | none => found' = found

theorem readMember_eq_ok_iff {fields : List Field} {found found' : Members} {ps : List Piece}
    {b g g' v r r' : Octets} (hb : Writes ps b) (hg' : IsGap g') (hg : IsGap g) (hv : IsValue v)
    (hr : Apart r) :
    readMember fields found (0x22 :: (b ++ 0x22 :: (g' ++ 0x3A :: (g ++ (v ++ r)))))
        = .ok (found', r')
      ↔ r' = r ∧ ∃ s, Spells s.toList b ∧ Adds fields found (s, v) found' := by
  have hcolon : skipMark? 0x3A (g' ++ 0x3A :: (g ++ (v ++ r))) = some (g ++ (v ++ r)) :=
    skipMark?_gap hg' (by rfl) _
  unfold readMember Adds
  simp only [expect?, if_true, Option.bind_some, bind_eq_ok_iff, Prod.exists, wellFormed_eq_ok_iff,
    readText?_of_writes hb, ← exists_and_left, and_assoc, exists_eq_left]
  refine exists_congr fun s => ?_
  rw [and_left_comm]
  refine and_congr_right fun _ => ?_
  rcases hf : fields.find? (·.name == s) with _ | f
  · simp only [hf, hcolon, Option.bind_some, skipValue?_append hg hv hr, bind_eq_ok_iff,
      wellFormed_eq_ok_iff, Option.some.injEq, pure, Except.pure, Except.ok.injEq,
      Prod.mk.injEq, exists_eq_left']
    constructor <;> rintro ⟨rfl, rfl⟩ <;> exact ⟨rfl, rfl⟩
  · simp only [hf]
    split_ifs with hnew
    · rw [Option.isSome_iff_ne_none] at hnew
      simp [hnew, throw, throwThe, MonadExceptOf.throw, bind, Except.bind]
    · rw [Option.not_isSome_iff_eq_none] at hnew
      simp only [bind_eq_ok_iff, hcolon, wellFormed_eq_ok_iff, Option.some.injEq, pure,
        Except.pure, Except.ok.injEq, Prod.mk.injEq, Prod.exists, exists_eq_left',
        readCell_eq_ok_iff hg hv hr, hnew, true_and]
      constructor
      · rintro ⟨c, u, ⟨rfl, hc⟩, rfl, rfl⟩
        exact ⟨rfl, c, hc, rfl⟩
      · rintro ⟨rfl, c, hc, rfl⟩
        exact ⟨c, r', ⟨rfl, hc⟩, rfl, rfl⟩

/-- What the members add one after another. -/
def Collects (fields : List Field) : Members → List (String × Octets) → Members → Prop
  | found, [], found' => found' = found
  | found, m :: ms, found' => ∃ now, Adds fields found m now ∧ Collects fields now ms found'

/-- The members by the texts that their names spell. -/
def Names (ms : List (Octets × Octets)) (ns : List (String × Octets)) : Prop :=
  List.Forall₂ (fun m n => Spells n.1.toList m.1 ∧ m.2 = n.2) ms ns

theorem names_cons {b v : Octets} {ms : List (Octets × Octets)} {ns : List (String × Octets)} :
    Names ((b, v) :: ms) ns
      ↔ ∃ s ns', Spells s.toList b ∧ Names ms ns' ∧ ns = (s, v) :: ns' := by
  unfold Names
  rw [List.forall₂_cons_left_iff]
  constructor
  · rintro ⟨⟨s, u⟩, ns', ⟨hs, rfl⟩, hms, rfl⟩
    exact ⟨s, ns', hs, hms, rfl⟩
  · rintro ⟨s, ns', hs, hms, rfl⟩
    exact ⟨(s, v), ns', ⟨hs, rfl⟩, hms, rfl⟩

/-- The first of the members is read, and then what stands after it. -/
theorem readMembers_succ {fields : List Field} {found found' : Members} {n : Nat}
    {b l g v t r' : Octets} (hl : IsLabel .object b l) (hg : IsGap g) (hv : IsValue v)
    (ht : Apart t) :
    readMembers fields (n + 1) found (skipSpace (l ++ (g ++ (v ++ t)))) = .ok (found', r')
      ↔ ∃ s now, Spells s.toList b ∧ Adds fields found (s, v) now
        ∧ (match skipSpace t with
          | [] => Except.error Fault.malformed
          | c :: rest =>
            if c = 0x2C then readMembers fields n now (skipSpace rest)
            else if c = 0x7D then .ok (now, rest)
            else .error .malformed) = .ok (found', r') := by
  cases hl with
  | object hg₁ hb hg₂ =>
    simp only [List.append_assoc, List.cons_append, List.nil_append]
    rw [skipSpace_gap hg₁, skipSpace_of_head (by rfl), readMembers]
    simp only [bind_eq_ok_iff, Prod.exists, readMember_eq_ok_iff hb hg₂ hg hv ht]
    constructor
    · rintro ⟨now, u, ⟨rfl, s, hs, hadds⟩, h⟩
      exact ⟨s, now, hs, hadds, h⟩
    · rintro ⟨s, now, hs, hadds, h⟩
      exact ⟨now, t, ⟨rfl, s, hs, hadds⟩, h⟩

section Items

variable {fields : List Field} {r r' : Octets} {found found' : Members} {n : Nat}
  {b l g v g' w : Octets} (hl : IsLabel .object b l) (hg : IsGap g) (hv : IsValue v)
  (hg' : IsGap g')

include hl hg hv hg'

/-- The last member is read to the closing bracket. -/
theorem readMembers_last :
    readMembers fields (n + 1) found (skipSpace (l ++ (g ++ (v ++ g')) ++ 0x7D :: r))
        = .ok (found', r')
      ↔ ∃ s, Spells s.toList b ∧ Adds fields found (s, v) found' ∧ r' = r := by
  have hclose : Apart (0x7D :: r) := apart_closing .object r
  have hcomma : (0x7D : UInt8) ≠ 0x2C := closing_ne_comma .object
  simp only [List.append_assoc, readMembers_succ hl hg hv (.of_gap hg' hclose), skipSpace_gap hg']
  rw [skipSpace_of_head (by rfl)]
  simp only [hcomma, if_false, if_true, Except.ok.injEq, Prod.mk.injEq]
  constructor
  · rintro ⟨s, now, hs, hadds, rfl, rfl⟩
    exact ⟨s, hs, hadds, rfl⟩
  · rintro ⟨s, hs, hadds, rfl⟩
    exact ⟨s, found', hs, hadds, rfl, rfl⟩

/-- A member before others is read to the comma, and then they are. -/
theorem readMembers_comma :
    readMembers fields (n + 1) found
        (skipSpace (l ++ (g ++ (v ++ (g' ++ 0x2C :: w))) ++ 0x7D :: r)) = .ok (found', r')
      ↔ ∃ s now, Spells s.toList b ∧ Adds fields found (s, v) now
        ∧ readMembers fields n now (skipSpace (w ++ 0x7D :: r)) = .ok (found', r') := by
  have hcomma := Apart.of_gap hg' (apart_comma (w ++ 0x7D :: r))
  simp only [List.append_assoc, List.cons_append, readMembers_succ hl hg hv hcomma,
    skipSpace_gap hg']
  rw [skipSpace_of_head (by rfl)]
  simp only [if_true]

end Items

theorem length_lt_of_comma (l g v g' w : Octets) :
    w.length < (l ++ (g ++ (v ++ (g' ++ 0x2C :: w)))).length := by
  simp only [List.length_append, List.length_cons]
  omega

/-- The members of an object are read to the closing bracket, and each adds what it does. -/
theorem readMembers_eq_ok_iff {fields : List Field} {r r' : Octets} {found' : Members} :
    ∀ {k : Bracket} {ms : List (Octets × Octets)} {w : Octets}, IsItems k ms w → k = .object →
      ∀ {n : Nat} {found : Members}, w.length < n →
        (readMembers fields n found (skipSpace (w ++ 0x7D :: r)) = .ok (found', r')
          ↔ r' = r ∧ ∃ ns, Names ms ns ∧ Collects fields found ns found')
  | _, _, _, .one hl hg hv hg', rfl, n + 1, found, hn => by
    rw [readMembers_last hl hg hv hg']
    constructor
    · rintro ⟨s, hs, hadds, rfl⟩
      exact ⟨rfl, _, names_cons.2 ⟨s, [], hs, .nil, rfl⟩, found', hadds, rfl⟩
    · rintro ⟨rfl, ns, hns, hcollects⟩
      obtain ⟨s, _, hs, ⟨⟩, rfl⟩ := names_cons.1 hns
      obtain ⟨now, hadds, rfl⟩ := hcollects
      exact ⟨s, hs, hadds, rfl⟩
  | _, _, _, .cons (w := w) hl hg hv hg' h, rfl, n + 1, found, hn => by
    have hlen : w.length < n :=
      Nat.lt_of_lt_of_le (length_lt_of_comma _ _ _ _ w) (Nat.le_of_lt_succ hn)
    rw [readMembers_comma hl hg hv hg']
    constructor
    · rintro ⟨s, now, hs, hadds, hrest⟩
      obtain ⟨rfl, ns, hns, hcollects⟩ := (readMembers_eq_ok_iff h rfl hlen).1 hrest
      exact ⟨rfl, _, names_cons.2 ⟨s, ns, hs, hns, rfl⟩, now, hadds, hcollects⟩
    · rintro ⟨rfl, _, hnames, hcollects⟩
      obtain ⟨s, ns, hs, hns, rfl⟩ := names_cons.1 hnames
      obtain ⟨now, hadds, hcollects⟩ := hcollects
      refine ⟨s, now, hs, hadds, ?_⟩
      exact (readMembers_eq_ok_iff h rfl hlen).2 ⟨rfl, ns, hns, hcollects⟩

/-- The values of the members that have a name. -/
def valuesOf (ns : List (String × Octets)) (name : String) : List Octets :=
  (ns.filter (·.1 == name)).map (·.2)

/-- The members give a field its cell: it has one member that stands for the cell, or none and the
cell as its fallback. -/
def Gives (ns : List (String × Octets)) (f : Field) (c : Cell) : Prop :=
  (∃ v, valuesOf ns f.name = [v] ∧ Denotes f.kind c v)
    ∨ valuesOf ns f.name = [] ∧ f.fallback = some c

theorem valuesOf_cons_self (s : String) (v : Octets) (ns : List (String × Octets)) :
    valuesOf ((s, v) :: ns) s = v :: valuesOf ns s := by
  simp [valuesOf]

theorem valuesOf_cons_of_ne {s t : String} (h : s ≠ t) (v : Octets) (ns : List (String × Octets)) :
    valuesOf ((s, v) :: ns) t = valuesOf ns t := by
  simp [valuesOf, h]

theorem lookup_cons_of_ne {s t : String} (h : s ≠ t) (c : Cell) (found : Members) :
    List.lookup t ((s, c) :: found) = found.lookup t := by
  have : (t == s) = false := by simpa using h.symm
  rw [List.lookup_cons, this]

section Fields

variable {fields : List Field}

theorem find?_name (hf : (fields.map (·.name)).Nodup) {f : Field} (h : f ∈ fields) :
    fields.find? (·.name == f.name) = some f := by
  induction fields with
  | nil => cases h
  | cons g fields ih =>
    rw [List.map_cons, List.nodup_cons] at hf
    rcases List.mem_cons.1 h with rfl | h
    · simp
    · have hne : g.name ≠ f.name := fun he => hf.1 (he ▸ List.mem_map_of_mem h)
      rw [List.find?_cons_of_neg (by simpa using hne)]
      exact ih hf.2 h

theorem lookup_of_adds {found now : Members} {m : String × Octets} {name : String}
    (h : Adds fields found m now) (hne : m.1 ≠ name) : now.lookup name = found.lookup name := by
  unfold Adds at h
  split at h
  · obtain ⟨-, c, -, rfl⟩ := h
    exact lookup_cons_of_ne hne c found
  · rw [h]

/-- A known member adds its cell if its field had none, and cannot be added again. -/
theorem lookup_of_collects (hf : (fields.map (·.name)).Nodup) {f : Field} (hmem : f ∈ fields) :
    ∀ {ns : List (String × Octets)} {found found' : Members}, Collects fields found ns found' →
      (valuesOf ns f.name = [] ∧ found'.lookup f.name = found.lookup f.name)
        ∨ ∃ v c, valuesOf ns f.name = [v] ∧ Denotes f.kind c v ∧ found.lookup f.name = none
          ∧ found'.lookup f.name = some c
  | [], _, _, h => .inl ⟨rfl, by rw [h]⟩
  | (s, v) :: ns, found, found', ⟨now, hadds, h⟩ => by
    have ih := lookup_of_collects hf hmem h
    by_cases hs : s = f.name
    · subst hs
      unfold Adds at hadds
      simp only [find?_name hf hmem] at hadds
      obtain ⟨hnew, c, hc, rfl⟩ := hadds
      rw [valuesOf_cons_self]
      rcases ih with ⟨hnone, hlookup⟩ | ⟨-, -, -, -, hnone, -⟩
      · rw [List.lookup_cons_self] at hlookup
        exact .inr ⟨v, c, by rw [hnone], hc, hnew, hlookup⟩
      · rw [List.lookup_cons_self] at hnone
        cases hnone
    · rw [valuesOf_cons_of_ne hs, ← lookup_of_adds hadds hs]
      exact ih

theorem exists_collects (hf : (fields.map (·.name)).Nodup) :
    ∀ (ns : List (String × Octets)) (found : Members),
      (∀ f ∈ fields, valuesOf ns f.name = []
        ∨ ∃ v c, valuesOf ns f.name = [v] ∧ Denotes f.kind c v ∧ found.lookup f.name = none) →
      ∃ found', Collects fields found ns found'
  | [], found, _ => ⟨found, rfl⟩
  | (s, v) :: ns, found, h => by
    rcases hfind : fields.find? (·.name == s) with _ | f
    · obtain ⟨found', h'⟩ := exists_collects hf ns found fun f hmem => by
        have hne : s ≠ f.name := by
          rintro rfl
          rw [find?_name hf hmem] at hfind
          cases hfind
        rw [← valuesOf_cons_of_ne hne v ns]
        exact h f hmem
      exact ⟨found', found, by simp [Adds, hfind], h'⟩
    · have hmem := List.mem_of_find?_eq_some hfind
      obtain rfl : f.name = s := by simpa using List.find?_some hfind
      have hvalue := h f hmem
      rw [valuesOf_cons_self] at hvalue
      obtain ⟨u, c, hvs, hc, hnew⟩ := hvalue.resolve_left (by simp)
      obtain ⟨rfl, hrest⟩ := List.cons.inj hvs
      obtain ⟨found', h'⟩ := exists_collects hf ns ((f.name, c) :: found) fun g hg => by
        by_cases hne : f.name = g.name
        · exact .inl (hne ▸ hrest)
        · rw [← valuesOf_cons_of_ne hne v ns, lookup_cons_of_ne hne]
          exact h g hg
      refine ⟨found', (f.name, c) :: found, ?_, h'⟩
      simp only [Adds, hfind]
      exact ⟨hnew, c, hc, rfl⟩

end Fields

theorem Names.isValue : ∀ {k : Bracket} {ms : List (Octets × Octets)} {w : Octets},
    IsItems k ms w → ∀ {ns : List (String × Octets)}, Names ms ns → ∀ n ∈ ns, IsValue n.2
  | _, _, _, .one _ _ hv _, _, h => by
    obtain ⟨s, _, -, ⟨⟩, rfl⟩ := names_cons.1 h
    simpa using hv
  | _, _, _, .cons _ _ hv _ hw, _, h => by
    obtain ⟨s, ns, -, hns, rfl⟩ := names_cons.1 h
    simpa using ⟨hv, fun a b hn => Names.isValue hw hns (a, b) hn⟩

/-- An object, with the bodies of its members' names and their values. -/
inductive IsObject : List (Octets × Octets) → Octets → Prop
  | empty {g : Octets} (hg : IsGap g) : IsObject [] (0x7B :: (g ++ [0x7D]))
  | items {ms : List (Octets × Octets)} {w : Octets} (h : IsItems .object ms w) :
      IsObject ms (0x7B :: (w ++ [0x7D]))

/-- The cells of the fields, if each member is known at most once and has a value of its kind. -/
theorem mapM_cellOf_eq_ok_iff {fields : List Field} (hf : (fields.map (·.name)).Nodup)
    {ns : List (String × Octets)} (hns : ∀ n ∈ ns, IsValue n.2) {cells : List Cell} :
    (∃ found, Collects fields [] ns found ∧ fields.mapM (cellOf found) = .ok cells)
      ↔ List.Forall₂ (Gives ns) fields cells := by
  have hcell : ∀ {found : Members}, Collects fields [] ns found → ∀ f ∈ fields, ∀ c,
      cellOf found f = .ok c ↔ Gives ns f c := by
    intro found hfound f hmem c
    rw [cellOf, fits_eq_ok_iff]
    unfold Gives
    rcases lookup_of_collects hf hmem hfound with ⟨hnone, hlookup⟩ | ⟨v, d, hv, hd, -, hlookup⟩
    · simp [hnone, hlookup]
    · have hvalue : IsValue v := by
        have : v ∈ valuesOf ns f.name := by simp [hv]
        obtain ⟨n, hn, rfl⟩ := List.mem_map.1 this
        exact hns n (List.mem_filter.1 hn).1
      simp only [hlookup, hv, Option.some_or, Option.some.injEq, List.cons.injEq, and_true,
        reduceCtorEq, false_and, or_false, exists_eq_left']
      exact ⟨fun h => h ▸ hd, hd.unique hvalue⟩
  have hcells : ∀ {found : Members}, Collects fields [] ns found →
      (fields.mapM (cellOf found) = .ok cells ↔ List.Forall₂ (Gives ns) fields cells) :=
    fun hfound => mapM_eq_ok_iff.trans (forall₂_congr_of_mem (hcell hfound))
  constructor
  · rintro ⟨found, hfound, hmap⟩
    exact (hcells hfound).1 hmap
  · intro h
    obtain ⟨found, hfound⟩ := exists_collects hf ns [] fun f hmem => by
      obtain ⟨c, -, ⟨v, hv, hc⟩ | ⟨hnone, -⟩⟩ := exists_mem_of_forall₂ h.flip f hmem
      · exact .inr ⟨v, c, hv, hc, rfl⟩
      · exact .inl hnone
    exact ⟨found, hfound, (hcells hfound).2 h⟩

theorem IsObject.isValue {ms : List (Octets × Octets)} {v : Octets} (h : IsObject ms v) :
    IsValue v := by
  cases h with
  | empty hg => exact .empty .object hg
  | items h => exact .items h

theorem IsObject.isValue_of_names {ms : List (Octets × Octets)} {v : Octets} (h : IsObject ms v)
    {ns : List (String × Octets)} (hns : Names ms ns) : ∀ n ∈ ns, IsValue n.2 := by
  cases h with
  | empty =>
    cases hns
    simp
  | items h => exact hns.isValue h

/-- The members that are found in an object, up to its closing bracket. -/
theorem readObject_eq_ok_iff {fields : List Field} {ms : List (Octets × Octets)} {w r r' : Octets}
    {cells : List Cell} (h : IsObject ms (0x7B :: w)) :
    readObject fields (w ++ r) = .ok (cells, r')
      ↔ r' = r ∧ ∃ ns found, Names ms ns ∧ Collects fields [] ns found
        ∧ fields.mapM (cellOf found) = .ok cells := by
  unfold readObject
  cases h with
  | @empty g hg =>
    rw [List.append_assoc, List.singleton_append, skipMark?_gap hg (by rfl)]
    simp only [bind_eq_ok_iff, pure, Except.pure, Except.ok.injEq, Prod.mk.injEq, Prod.exists]
    constructor
    · rintro ⟨found, u, ⟨rfl, rfl⟩, cs, hcs, rfl, rfl⟩
      exact ⟨rfl, [], [], .nil, rfl, hcs⟩
    · rintro ⟨rfl, ns, found, ⟨⟩, rfl, hcs⟩
      exact ⟨[], r', ⟨rfl, rfl⟩, cells, hcs, rfl, rfl⟩
  | @items _ w h =>
    rw [List.append_assoc, List.singleton_append]
    have hnone : skipMark? 0x7D (w ++ 0x7D :: r) = none := skipMark?_closing_items h _
    have hlen : w.length < (w ++ 0x7D :: r).length + 1 := by
      rw [List.length_append]
      omega
    have hread : ∀ found' r', readMembers fields ((w ++ 0x7D :: r).length + 1) []
        (skipSpace (w ++ 0x7D :: r)) = .ok (found', r')
          ↔ r' = r ∧ ∃ ns, Names ms ns ∧ Collects fields [] ns found' :=
      fun _ _ => readMembers_eq_ok_iff h rfl hlen
    simp only [hnone, bind_eq_ok_iff, Prod.exists, hread, pure, Except.pure, Except.ok.injEq,
      Prod.mk.injEq]
    constructor
    · rintro ⟨found, u, ⟨rfl, ns, hns, hfound⟩, cs, hcs, rfl, rfl⟩
      exact ⟨rfl, ns, found, hns, hfound, hcs⟩
    · rintro ⟨rfl, ns, found, hns, hfound, hcs⟩
      exact ⟨found, r', ⟨rfl, ns, hns, hfound⟩, cells, hcs, rfl, rfl⟩

/-- A record is read from an object to its closing bracket, whatever the order of its members and
whatever other members there are. -/
theorem readRecord_object {fields : List Field} (hf : (fields.map (·.name)).Nodup)
    {ms : List (Octets × Octets)} {g v r r' : Octets} {cells : List Cell} (hg : IsGap g)
    (hv : IsObject ms v) :
    readRecord fields (g ++ (v ++ r)) = .ok (cells, r')
      ↔ r' = r ∧ ∃ ns, Names ms ns ∧ List.Forall₂ (Gives ns) fields cells := by
  have hread : readRecord fields (g ++ (v ++ r)) = readObject fields (v.tail ++ r) := by
    unfold readRecord
    rw [skipSpace_value hg hv.isValue]
    cases hv <;> rfl
  have hcons : v = 0x7B :: v.tail := by cases hv <;> rfl
  rw [hread, readObject_eq_ok_iff (hcons ▸ hv)]
  refine and_congr_right fun _ => exists_congr fun ns => ?_
  constructor
  · rintro ⟨found, hns, h⟩
    exact ⟨hns, (mapM_cellOf_eq_ok_iff hf (hv.isValue_of_names hns)).1 ⟨found, h⟩⟩
  · rintro ⟨hns, h⟩
    obtain ⟨found, h⟩ := (mapM_cellOf_eq_ok_iff hf (hv.isValue_of_names hns)).2 h
    exact ⟨found, hns, h⟩

/-- A document that is an object and nothing else. -/
theorem readDocument_object {fields : List Field} (hf : (fields.map (·.name)).Nodup)
    {ms : List (Octets × Octets)} {g v g' : Octets} {cells : List Cell} (hg : IsGap g)
    (hv : IsObject ms v) (hg' : IsGap g') :
    readDocument fields (g ++ (v ++ g')) = .ok cells
      ↔ ∃ ns, Names ms ns ∧ List.Forall₂ (Gives ns) fields cells := by
  have hend : (skipSpace g').isEmpty = true := by
    have := skipSpace_gap hg' []
    rw [List.append_nil] at this
    rw [this]
    rfl
  unfold readDocument
  simp only [bind_eq_ok_iff, Prod.exists, readRecord_object hf hg hv]
  constructor
  · rintro ⟨cs, r, ⟨rfl, h⟩, hok⟩
    rw [if_pos hend] at hok
    cases hok
    exact h
  · intro h
    exact ⟨cells, g', ⟨rfl, h⟩, by rw [if_pos hend]; rfl⟩

theorem readElements_closing {r : Octets} : ∀ {fields : List Field} {first : Bool} {g r' : Octets}
    {cells : List Cell}, IsGap g →
      readElements fields first (g ++ 0x5D :: r) = .ok (cells, r') → r' = r
  | [], _, g, r', cells, hg, h => by
    rw [readElements, skipMark?_gap hg (by rfl)] at h
    cases h
    rfl
  | field :: fields, first, g, r', cells, hg, h => by
    rw [readElements, skipSpace_gap hg, skipSpace_of_head (by rfl)] at h
    simp only [if_true, bind_eq_ok_iff, Prod.exists, pure, Except.pure, Except.ok.injEq,
      Prod.mk.injEq] at h
    obtain ⟨c, -, cs, u, h, -, rfl⟩ := h
    exact readElements_closing (g := []) (by simp [IsGap]) h

section Elements

variable {field : Field} {fields : List Field} {cells : List Cell} {g r' : Octets}

/-- The first element is read where it stands, and then what stands after it. -/
theorem readElements_first {v t : Octets} (hg : IsGap g) (hv : IsValue v)
    (h : readElements (field :: fields) true (g ++ (v ++ t)) = .ok (cells, r')) :
    ∃ c cs u, readCell field.kind (g ++ (v ++ t)) = .ok (c, u)
      ∧ readElements fields false u = .ok (cs, r') := by
  have hskip : readCell field.kind (g ++ (v ++ t)) = readCell field.kind (v ++ t) := by
    have hself : skipSpace (v ++ t) = v ++ t := skipSpace_value (g := []) (by simp [IsGap]) hv t
    unfold readCell
    rw [skipSpace_value hg hv, hself]
  rw [readElements, skipSpace_value hg hv] at h
  rw [hskip]
  obtain ⟨b, u, rfl, hb⟩ := hv.start
  have hne : b ≠ 0x5D := hb.ne_closing .array
  simp only [List.cons_append, hne, if_false, Bool.not_true, Bool.and_false, if_true,
    Bool.false_eq_true, bind_eq_ok_iff, Prod.exists, pure, Except.pure, Except.ok.injEq,
    Prod.mk.injEq] at h
  obtain ⟨c, u, hc, cs, u', hu, -, rfl⟩ := h
  exact ⟨c, cs, u, hc, hu⟩

/-- Another element is read after a comma. -/
theorem readElements_next {s : Octets} (hg : IsGap g)
    (h : readElements (field :: fields) false (g ++ 0x2C :: s) = .ok (cells, r')) :
    ∃ c cs u, readCell field.kind s = .ok (c, u) ∧ readElements fields false u = .ok (cs, r') := by
  rw [readElements, skipSpace_gap hg, skipSpace_of_head (by rfl)] at h
  have hne : (0x2C : UInt8) ≠ 0x5D := (closing_ne_comma .array).symm
  dsimp only at h
  rw [if_neg hne, if_pos (by rfl)] at h
  split at h
  · cases h
  · simp only [bind_eq_ok_iff, Prod.exists, pure, Except.pure, Except.ok.injEq,
      Prod.mk.injEq] at h
    obtain ⟨c, u, hc, cs, u', hu, -, rfl⟩ := h
    exact ⟨c, cs, u, hc, hu⟩

/-- An element is read to its end, and then what stands after it. -/
theorem exists_readElements {v t : Octets} (hg : IsGap g) (hv : IsValue v) (ht : Apart t)
    (h : readElements fields true (g ++ (v ++ t)) = .ok (cells, r')
      ∨ ∃ g', IsGap g'
        ∧ readElements fields false (g' ++ 0x2C :: (g ++ (v ++ t))) = .ok (cells, r')) :
    ∃ fields' cells', readElements fields' false t = .ok (cells', r') := by
  rcases fields with _ | ⟨field, fields⟩
  · have hclosing : skipMark? 0x5D (g ++ (v ++ t)) = none := by
      rw [skipMark?, skipSpace_value hg hv]
      obtain ⟨b, u, rfl, hb⟩ := hv.start
      have hne : 0x5D ≠ b := (hb.ne_closing .array).symm
      simp [expect?, hne]
    rcases h with h | ⟨g', hg', h⟩
    · rw [readElements, hclosing] at h
      cases h
    · rw [readElements, skipMark?, skipSpace_gap hg', skipSpace_of_head (by rfl)] at h
      cases h
  · have hcell : ∃ c cs u, readCell field.kind (g ++ (v ++ t)) = .ok (c, u)
        ∧ readElements fields false u = .ok (cs, r') := by
      rcases h with h | ⟨g', hg', h⟩
      · exact readElements_first hg hv h
      · exact readElements_next hg' h
    obtain ⟨c, cs, u, hc, hu⟩ := hcell
    obtain ⟨rfl, -⟩ := (readCell_eq_ok_iff hg hv ht).1 hc
    exact ⟨fields, cs, hu⟩

end Elements

theorem readElements_items {r : Octets} : ∀ {k : Bracket} {ms : List (Octets × Octets)}
    {w : Octets}, IsItems k ms w → k = .array →
      ∀ {fields : List Field} {cells : List Cell} {r' : Octets},
      (readElements fields true (w ++ 0x5D :: r) = .ok (cells, r')
        ∨ ∃ g', IsGap g'
          ∧ readElements fields false (g' ++ 0x2C :: (w ++ 0x5D :: r)) = .ok (cells, r')) →
      r' = r
  | _, _, _, .one .array hg hv hg', rfl, _, _, _, h => by
    simp only [List.append_assoc, List.nil_append] at h
    obtain ⟨_, _, h⟩ := exists_readElements hg hv (.of_gap hg' (apart_closing .array r)) h
    exact readElements_closing hg' h
  | _, _, _, .cons .array hg hv hg' hw, rfl, _, _, _, h => by
    simp only [List.append_assoc, List.cons_append, List.nil_append] at h
    obtain ⟨_, _, h⟩ := exists_readElements hg hv (.of_gap hg' (apart_comma _)) h
    exact readElements_items hw rfl (.inr ⟨_, hg', h⟩)

/-- Wherever a record is read from, it is read to the end of the value there. -/
theorem readRecord_value {fields : List Field} (hf : (fields.map (·.name)).Nodup)
    {g v r r' : Octets} {cells : List Cell} (hg : IsGap g) (hv : IsValue v)
    (h : readRecord fields (g ++ (v ++ r)) = .ok (cells, r')) : r' = r := by
  have hscalar : ∀ b w, v = b :: w → b ≠ 0x5B → b ≠ 0x7B → r' = r := by
    rintro b w rfl harray hobject
    rw [readRecord, skipSpace_value hg hv] at h
    simp [harray, hobject] at h
  have harray : ∀ w, v = 0x5B :: w → readElements fields true (w ++ r) = .ok (cells, r') := by
    rintro w rfl
    rw [readRecord, skipSpace_value hg hv] at h
    exact h
  cases hv with
  | word hw => rcases hw with rfl | rfl | rfl <;> exact hscalar _ _ rfl (by decide) (by decide)
  | numeral hn =>
    obtain ⟨b, t, rfl, hb⟩ := hn.start
    refine hscalar b t rfl ?_ ?_ <;> rintro rfl <;> rcases hb with hb | hb <;> cases hb
  | text => exact hscalar _ _ rfl (by decide) (by decide)
  | empty k hg' =>
    cases k with
    | array =>
      have := harray _ rfl
      rw [List.append_assoc] at this
      exact readElements_closing hg' this
    | object => exact ((readRecord_object hf hg (.empty hg')).1 h).1
  | @items k ms w hw =>
    cases k with
    | array =>
      have := harray _ rfl
      rw [List.append_assoc] at this
      exact readElements_items hw rfl (.inl this)
    | object => exact ((readRecord_object hf hg (.items hw)).1 h).1

/-- A document has nothing but space after its value. -/
theorem isGap_of_readDocument {fields : List Field} (hf : (fields.map (·.name)).Nodup)
    {g v r : Octets} {cells : List Cell} (hg : IsGap g) (hv : IsValue v)
    (h : readDocument fields (g ++ (v ++ r)) = .ok cells) : IsGap r := by
  simp only [readDocument, bind_eq_ok_iff, Prod.exists] at h
  obtain ⟨cs, u, hread, h⟩ := h
  obtain rfl := readRecord_value hf hg hv hread
  split_ifs at h with hend
  rw [List.isEmpty_iff, skipSpace] at hend
  have hall := List.all_takeWhile (p := isSpace) (l := u)
  have hsplit := List.takeWhile_append_dropWhile (p := isSpace) (l := u)
  rw [hend, List.append_nil] at hsplit
  rw [hsplit] at hall
  exact List.all_eq_true.1 hall

end Datebook.Json

import Mathlib.Data.List.Forall2

/-!
# Lists and computations that may fail

What the libraries leave out: filters by propositions, members of related lists, a change at the end
of a list, and when a computation that may fail gives a result.
-/

namespace Datebook

section Filters

variable {α : Type} {l : List α} {p q : α → Prop} [DecidablePred p] [DecidablePred q]

theorem filter_congr_iff (h : ∀ a ∈ l, (p a ↔ q a)) : l.filter (p ·) = l.filter (q ·) :=
  List.filter_congr fun a ha => decide_eq_decide.2 (h a ha)

theorem filter_filter_and : (l.filter (p ·)).filter (q ·) = l.filter fun a => p a ∧ q a := by
  rw [List.filter_filter]
  refine List.filter_congr fun a _ => ?_
  rw [← Bool.decide_and, decide_eq_decide, and_comm]

end Filters

theorem exists_mem_of_forall₂ {α β : Type} {R : α → β → Prop} : ∀ {as : List α} {bs : List β},
    List.Forall₂ R as bs → ∀ b ∈ bs, ∃ a ∈ as, R a b
  | _, _, .nil, b, hb => by cases hb
  | _, _, .cons h hs, b, hb => by
    rcases List.mem_cons.1 hb with rfl | hb
    · exact ⟨_, List.mem_cons_self, h⟩
    · obtain ⟨a, ha, hab⟩ := exists_mem_of_forall₂ hs b hb
      exact ⟨a, List.mem_cons_of_mem _ ha, hab⟩

theorem forall₂_congr_of_mem {α β : Type} {R S : α → β → Prop} :
    ∀ {as : List α} {bs : List β}, (∀ a ∈ as, ∀ b, R a b ↔ S a b) →
      (List.Forall₂ R as bs ↔ List.Forall₂ S as bs)
  | [], bs, _ => by simp
  | a :: as, bs, h => by
    simp only [List.forall₂_cons_left_iff, h a (by simp),
      forall₂_congr_of_mem fun x hx => h x (List.mem_cons_of_mem a hx)]

theorem exists_sublist_of_forall₂ {α β : Type} {R : α → β → Prop} {as as' : List α}
    (hsub : as'.Sublist as) : ∀ {bs : List β}, List.Forall₂ R as bs →
      ∃ bs', bs'.Sublist bs ∧ List.Forall₂ R as' bs' := by
  induction hsub with
  | slnil =>
    intro bs h
    exact ⟨bs, .refl bs, h⟩
  | cons a _ ih =>
    rintro _ (_ | ⟨-, h⟩)
    obtain ⟨bs', hbs, h'⟩ := ih h
    exact ⟨bs', hbs.cons _, h'⟩
  | cons_cons a _ ih =>
    rintro _ (_ | ⟨hab, h⟩)
    obtain ⟨bs', hbs, h'⟩ := ih h
    exact ⟨_, hbs.cons_cons _, .cons hab h'⟩

theorem modify_concat {α : Type} (l : List α) (a : α) (f : α → α) :
    (l ++ [a]).modify l.length f = l ++ [f a] := by
  induction l with
  | nil => rfl
  | cons b l ih => simp [ih]

section Results

variable {ε α β : Type}

theorem bind_eq_ok_iff {x : Except ε α} {f : α → Except ε β} {b : β} :
    x >>= f = .ok b ↔ ∃ a, x = .ok a ∧ f a = .ok b := by
  cases x <;> simp [bind, Except.bind]

theorem map_eq_ok_iff {x : Except ε α} {f : α → β} {b : β} :
    x.map f = .ok b ↔ ∃ a, x = .ok a ∧ f a = b := by
  cases x <;> simp [Except.map]

theorem toOption_eq_some_iff {x : Except ε α} {a : α} : x.toOption = some a ↔ x = .ok a := by
  cases x <;> simp [Except.toOption]

theorem mapM_eq_ok_iff {f : α → Except ε β} :
    ∀ {as : List α} {bs : List β}, as.mapM f = .ok bs ↔ List.Forall₂ (fun a b => f a = .ok b) as bs
  | [], bs => by simp [pure, Except.pure, eq_comm]
  | a :: as, bs => by
    simp only [List.mapM_cons, bind_eq_ok_iff, mapM_eq_ok_iff, List.forall₂_cons_left_iff, pure,
      Except.pure, Except.ok.injEq]
    constructor
    · rintro ⟨b, hb, bs', hbs, rfl⟩
      exact ⟨b, bs', hb, hbs, rfl⟩
    · rintro ⟨b, bs', hb, hbs, rfl⟩
      exact ⟨b, hb, bs', hbs, rfl⟩

theorem exists_mapM_eq_ok_iff {f : α → Except ε β} : ∀ {as : List α},
    (∃ bs, as.mapM f = .ok bs) ↔ ∀ a ∈ as, ∃ b, f a = .ok b
  | [] => by simp [pure, Except.pure]
  | a :: as => by
    have ih : (∃ bs, as.mapM f = .ok bs) ↔ ∀ a ∈ as, ∃ b, f a = .ok b := exists_mapM_eq_ok_iff
    simp only [mapM_eq_ok_iff, List.forall₂_cons_left_iff, List.forall_mem_cons] at ih ⊢
    rw [← ih]
    constructor
    · rintro ⟨_, b, bs, hb, hbs, -⟩
      exact ⟨⟨b, hb⟩, bs, hbs⟩
    · rintro ⟨⟨b, hb⟩, bs, hbs⟩
      exact ⟨_, b, bs, hb, hbs, rfl⟩

end Results

end Datebook

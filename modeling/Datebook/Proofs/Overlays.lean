import Datebook.Settings.Value
import Mathlib.Data.List.Nodup

/-!
# Layers of tables

A value of settings is looked up by a path of keys (`at?`). If one layer is laid over another, the
value at a path is the upper layer's where it has one, and otherwise the lower one's, unless the
upper layer hides the path under a value that is no table (`at?_overlay`). Two tables at the end of
the path are joined, so which layer a table comes from cannot be told by looking at that path alone:
`Alike` leaves the difference between tables aside (`rel_over?`).

All this is so only if no table of the upper layer has a key twice, as far down as the path leads
(`IsKeyed`). Layers that are laid over one another stay like that (`IsKeyed.overlay`).
-/

namespace Datebook.Setting

/-- The value at the end of a path of keys. -/
def at? : List String → Setting → Option Setting
  | [], v => some v
  | key :: path, .table ms => (ms.lookup key).bind (at? path)
  | _ :: _, _ => none

/-- The path leads on from a value that is no table. -/
def hides : List String → Setting → Bool
  | [], _ => false
  | key :: path, .table ms => (ms.lookup key).any (hides path)
  | _ :: _, _ => true

def isTable : Setting → Bool
  | .table _ => true
  | _ => false

/-- No table down to this depth has a key twice. -/
def IsKeyed : Nat → Setting → Prop
  | n + 1, .table ms => (ms.map Prod.fst).Nodup ∧ ∀ m ∈ ms, IsKeyed n m.2
  | _, _ => True

/-- The value at a place where either layer may have one. -/
def over? : Option Setting → Option Setting → Option Setting
  | some u, some v => some (u.overlay v)
  | none, above => above
  | below, none => below

variable {u v : Setting} {ms old : Members} {path : List String} {key : String} {n : Nat}

@[simp] theorem over?_none_left (above : Option Setting) : over? none above = above := by
  cases above <;> rfl

@[simp] theorem over?_none_right (below : Option Setting) : over? below none = below := by
  cases below <;> rfl

theorem at?_of_hides : ∀ {path : List String} {v : Setting}, v.hides path = true → v.at? path = none
  | _ :: path, .table ms, h => by
    obtain ⟨w, hw, h⟩ := (Option.any_eq_true _ _).1 h
    rw [at?, hw, Option.bind_some, at?_of_hides h]
  | _ :: _, .text _, _ => rfl
  | _ :: _, .integer _, _ => rfl
  | _ :: _, .boolean _, _ => rfl
  | _ :: _, .float, _ => rfl
  | _ :: _, .list _, _ => rfl

theorem overlay_of_not_isTable (u : Setting) (h : v.isTable = false) : u.overlay v = v :=
  overlay.eq_3 u v fun old hv => by
    subst hv
    cases h

theorem overlay_table_of_not_isTable (ms : Members) (h : u.isTable = false) :
    u.overlay (.table ms) = .table ms :=
  overlay.eq_2 u ms fun old hu => by
    subst hu
    cases h

section Keyed

theorem isKeyed_zero (v : Setting) : v.IsKeyed 0 := by
  cases v <;> trivial

theorem isKeyed_of_not_isTable (n : Nat) (h : v.isTable = false) : v.IsKeyed n := by
  cases v with
  | table ms => cases h
  | _ => cases n <;> trivial

theorem isKeyed_empty : Setting.empty.IsKeyed (n + 1) := ⟨List.nodup_nil, nofun⟩

theorem IsKeyed.of_succ : ∀ {n : Nat} {v : Setting}, v.IsKeyed (n + 1) → v.IsKeyed n
  | 0, v, _ => isKeyed_zero v
  | _ + 1, .table _, h => ⟨h.1, fun m hm => (h.2 m hm).of_succ⟩
  | _ + 1, .text _, _ => trivial
  | _ + 1, .integer _, _ => trivial
  | _ + 1, .boolean _, _ => trivial
  | _ + 1, .float, _ => trivial
  | _ + 1, .list _, _ => trivial

theorem IsKeyed.of_le {m : Nat} (h : v.IsKeyed n) (hm : m ≤ n) : v.IsKeyed m := by
  induction hm with
  | refl => exact h
  | step _ ih => exact ih h.of_succ

theorem isKeyed_nested : ∀ {n : Nat} {path : List String} {v : Setting}, v.IsKeyed n →
    (nested path v).IsKeyed n
  | _, [], _, h => h
  | 0, _ :: _, _, _ => isKeyed_zero _
  | _ + 1, _ :: _, _, h =>
    ⟨List.nodup_singleton _, List.forall_mem_singleton.2 (isKeyed_nested h.of_succ)⟩

theorem isKeyed_nested_cons (key : String) (path : List String) (h : v.IsKeyed n) :
    (nested (key :: path) v).IsKeyed (n + 1) :=
  ⟨List.nodup_singleton _, List.forall_mem_singleton.2 (isKeyed_nested h)⟩

theorem IsKeyed.of_lookup (h : (Setting.table ms).IsKeyed (n + 1)) (hv : ms.lookup key = some v) :
    v.IsKeyed n := by
  obtain ⟨before, after, rfl, -⟩ := List.lookup_eq_some_iff.1 hv
  exact h.2 (key, v) (by simp)

theorem mem_map_fst_put {k : String} :
    k ∈ (ms.put key v).map Prod.fst ↔ k = key ∨ k ∈ ms.map Prod.fst := by
  induction ms with
  | nil => simp [Members.put]
  | cons m ms ih =>
    by_cases hk : m.1 = key
    · simp [Members.put, hk]
    · simp [Members.put, hk, ih, or_left_comm]

theorem IsKeyed.put (h : (Setting.table ms).IsKeyed (n + 1)) (hv : v.IsKeyed n) :
    (Setting.table (ms.put key v)).IsKeyed (n + 1) := by
  induction ms with
  | nil => exact ⟨List.nodup_singleton key, List.forall_mem_singleton.2 hv⟩
  | cons m ms ih =>
    obtain ⟨hnodup, hms⟩ := h
    rw [List.map_cons, List.nodup_cons] at hnodup
    rw [List.forall_mem_cons] at hms
    by_cases hk : m.1 = key
    · rw [Members.put, if_pos hk]
      exact ⟨List.nodup_cons.2 hnodup, List.forall_mem_cons.2 ⟨hv, hms.2⟩⟩
    · rw [Members.put, if_neg hk]
      obtain ⟨hnodup', hms'⟩ := ih ⟨hnodup.2, hms.2⟩
      refine ⟨List.nodup_cons.2 ⟨fun hmem => ?_, hnodup'⟩, List.forall_mem_cons.2 ⟨hms.1, hms'⟩⟩
      exact (mem_map_fst_put.1 hmem).elim hk hnodup.1

theorem isKeyed_overlayMembers
    (hover : ∀ {u v : Setting}, u.IsKeyed n → v.IsKeyed n → (u.overlay v).IsKeyed n) :
    ∀ {old ms : Members}, (Setting.table old).IsKeyed (n + 1) → (∀ m ∈ ms, m.2.IsKeyed n) →
      (Setting.table (overlayMembers old ms)).IsKeyed (n + 1)
  | _, [], hold, _ => hold
  | old, (k, v) :: ms, hold, hms => by
    rw [List.forall_mem_cons] at hms
    rw [overlayMembers]
    refine isKeyed_overlayMembers hover (hold.put ?_) hms.2
    rcases hu : old.lookup k with _ | u
    · exact hms.1
    · exact hover (hold.of_lookup hu) hms.1

theorem IsKeyed.overlay : ∀ {n : Nat} {u v : Setting}, u.IsKeyed n → v.IsKeyed n →
    (u.overlay v).IsKeyed n
  | 0, _, _, _, _ => isKeyed_zero _
  | n + 1, u, v, hu, hv => by
    cases v with
    | table ms =>
      cases u with
      | table old =>
        rw [Setting.overlay]
        exact isKeyed_overlayMembers IsKeyed.overlay hu hv.2
      | _ => rwa [overlay_table_of_not_isTable ms rfl]
    | _ => rwa [overlay_of_not_isTable u rfl]

end Keyed

section Lookups

theorem lookup_overlayMembers {k : String} : ∀ {ms : Members} (old : Members),
    (ms.map Prod.fst).Nodup →
      (overlayMembers old ms).lookup k = over? (old.lookup k) (ms.lookup k)
  | [], old, _ => (over?_none_right _).symm
  | (key, v) :: ms, old, h => by
    rw [List.map_cons, List.nodup_cons] at h
    rw [overlayMembers, lookup_overlayMembers _ h.2, lookup_put]
    by_cases hk : k = key
    · subst hk
      have hnone : ms.lookup k = none := by
        rw [List.lookup_eq_none_iff]
        intro m hm
        exact bne_iff_ne.2 fun hk => h.1 (List.mem_map.2 ⟨m, hm, hk.symm⟩)
      rw [if_pos rfl, hnone, over?_none_right, List.lookup_cons_self]
      cases old.lookup k <;> rfl
    · rw [if_neg hk, List.lookup_cons, beq_eq_false_iff_ne.2 hk]

theorem if_hides_at? (v : Setting) (path : List String) :
    (if v.hides path then none else v.at? path) = v.at? path := by
  split_ifs with h
  · exact (at?_of_hides h).symm
  · rfl

theorem at?_overlay : ∀ {path : List String} {u v : Setting}, v.IsKeyed path.length →
    (u.overlay v).at? path = if v.hides path then none else over? (u.at? path) (v.at? path)
  | [], _, _, _ => rfl
  | key :: path, u, v, hv => by
    cases v with
    | table ms =>
      cases u with
      | table old =>
        rw [Setting.overlay, at?, at?, at?, hides, lookup_overlayMembers _ hv.1]
        rcases hw : ms.lookup key with _ | w
        · simp
        · rcases old.lookup key with _ | o
          · simp [if_hides_at?]
          · simpa [over?] using at?_overlay (hv.of_lookup hw)
      | _ =>
        rw [overlay_table_of_not_isTable ms rfl]
        exact (if_hides_at? (.table ms) (key :: path)).symm
    | _ =>
      rw [overlay_of_not_isTable u rfl]
      rfl

theorem hides_singleton (key : String) (v : Setting) : v.hides [key] = !v.isTable := by
  cases v with
  | table ms => simp [hides, isTable]
  | _ => rfl

theorem hides_pair_iff {part : String} (hv : v.isTable = true) :
    v.hides [part, key] = true ↔ ∃ w, v.at? [part] = some w ∧ w.isTable = false := by
  cases v with
  | table ms =>
    rw [hides, at?, Option.any_eq_true]
    simp [hides_singleton, at?]
  | _ => cases hv

theorem at?_nested_cons_self (key : String) (path rest : List String) (v : Setting) :
    (nested (key :: path) v).at? (key :: rest) = (nested path v).at? rest := by
  simp [nested, at?]

theorem hides_nested_cons_self (key : String) (path rest : List String) (v : Setting) :
    (nested (key :: path) v).hides (key :: rest) = (nested path v).hides rest := by
  simp [nested, hides]

theorem at?_nested_cons_of_ne {k : String} (h : k ≠ key) (path rest : List String) (v : Setting) :
    (nested (key :: path) v).at? (k :: rest) = none := by
  have hk : (k == key) = false := beq_eq_false_iff_ne.2 h
  simp [nested, at?, List.lookup_cons, hk]

theorem hides_nested_cons_of_ne {k : String} (h : k ≠ key) (path rest : List String)
    (v : Setting) : (nested (key :: path) v).hides (k :: rest) = false := by
  have hk : (k == key) = false := beq_eq_false_iff_ne.2 h
  simp [nested, hides, List.lookup_cons, hk]

/-- The value at the end of a path can be seen only along that path. -/
theorem prefix_of_nested : ∀ {own path : List String} {v : Setting},
    ((nested own v).hides path || ((nested own v).at? path).isSome) = true →
      own <+: path ∨ path <+: own
  | [], _, _, _ => .inl List.nil_prefix
  | _ :: _, [], _, _ => .inr List.nil_prefix
  | key :: own, k :: path, v, h => by
    by_cases hk : k = key
    · subst hk
      rw [hides_nested_cons_self, at?_nested_cons_self] at h
      simpa [List.cons_prefix_cons] using prefix_of_nested h
    · rw [hides_nested_cons_of_ne hk, at?_nested_cons_of_ne hk] at h
      cases h

end Lookups

section Alike

/-- The values are equal, or both are tables. -/
def Alike (u v : Setting) : Prop := u = v ∨ u.isTable = true ∧ v.isTable = true

theorem Alike.refl (v : Setting) : v.Alike v := .inl rfl

theorem alike_overlay (u v : Setting) : (u.overlay v).Alike v := by
  cases v with
  | table ms => exact .inr ⟨by cases u <;> rfl, rfl⟩
  | _ => exact .inl (overlay_of_not_isTable u rfl)

theorem rel_refl : ∀ x : Option Setting, Option.Rel Alike x x
  | none => .none
  | some v => .some (.refl v)

theorem Alike.symm (h : u.Alike v) : v.Alike u := h.imp Eq.symm And.symm

theorem Alike.isTable_eq (h : u.Alike v) : u.isTable = v.isTable := by
  rcases h with rfl | ⟨hu, hv⟩
  · rfl
  · rw [hu, hv]

theorem Alike.eq_of_not_isTable (h : u.Alike v) (hu : u.isTable = false) : u = v := by
  rcases h with rfl | ⟨htable, -⟩
  · rfl
  · cases hu.symm.trans htable

theorem Alike.ne_list (h : u.Alike v) (hv : ∀ items, v ≠ .list items) (items : List Setting) :
    u ≠ .list items := by
  rintro rfl
  exact hv items (h.eq_of_not_isTable rfl).symm

theorem Alike.trans {w : Setting} (huv : u.Alike v) (hvw : v.Alike w) : u.Alike w := by
  rcases hvw with rfl | ⟨hv, hw⟩
  · exact huv
  · exact .inr ⟨huv.isTable_eq.trans hv, hw⟩

theorem rel_over? {below below' above above' : Option Setting}
    (hbelow : Option.Rel Alike below below') (habove : Option.Rel Alike above above') :
    Option.Rel Alike (over? below above) (above'.or below') := by
  cases habove with
  | none => simpa using hbelow
  | some habove =>
    cases hbelow with
    | none => exact .some habove
    | some _ => exact .some ((alike_overlay _ _).trans habove)

theorem alike_getD {x y : Option Setting} (h : Option.Rel Alike x y) (fallback : Setting) :
    (x.getD fallback).Alike (y.getD fallback) := by
  cases h with
  | some h => exact h
  | none => exact .refl fallback

end Alike

end Datebook.Setting

import Datebook.Proofs.Overlays
import Datebook.Settings.Environment
import Mathlib.Data.List.Induction
import Mathlib.Data.String.Basic

/-!
# What the environment sets

An entry sets the end of one path. At another path it gives a value, or blocks the path by a value
that is no table, or says nothing (`speaksOf`). Of the entries that speak of a path the last is the
one that counts (`rel_value?`), whatever those before it set there, tables apart, which are joined.
An entry that says nothing of a path may stand anywhere among the others or be left out
(`value?_insert`).
-/

namespace Datebook.Environment

open Setting

section Readers

variable {v : Setting} {ms : Setting.Members} {rest : List Char}

theorem isKeyed_of_readMembers? : ∀ {n : Nat} {found : Setting.Members} {s : List Char},
    (Setting.table found).IsKeyed 1 → readMembers? n found s = some (ms, rest) →
      (Setting.table ms).IsKeyed 1
  | 0, _, _, _, h => by cases h
  | n + 1, found, s, hfound, h => by
    unfold readMembers? at h
    split at h
    · cases h
      exact hfound
    · simp only [Option.bind_eq_bind, Option.bind_eq_some_iff] at h
      obtain ⟨⟨key, s⟩, -, ⟨value, s⟩, -, h⟩ := h
      have hput : (Setting.table (Members.put key value found)).IsKeyed 1 :=
        hfound.put (isKeyed_zero value)
      simp only [] at h
      split at h
      · exact isKeyed_of_readMembers? hput h
      · simp only [Option.bind_eq_some_iff] at h
        obtain ⟨_, -, h⟩ := h
        cases h
        exact hput

theorem isTable_wordValue (word : List Char) : (wordValue word).isTable = false := by
  unfold wordValue
  split
  · rfl
  · split <;> rfl

theorem isKeyed_of_readValue? {n : Nat} {s : List Char} (h : readValue? n s = some (v, rest)) :
    v.IsKeyed 1 := by
  cases n with
  | zero => cases h
  | succ n =>
    unfold readValue? at h
    simp only [Option.bind_eq_bind] at h
    split at h
    · cases h
      exact isKeyed_of_not_isTable 1 rfl
    split at h
    · cases h
      exact isKeyed_of_not_isTable 1 rfl
    split at h
    · simp only [Option.bind_eq_some_iff, Option.map_eq_some_iff] at h
      obtain ⟨_, ⟨⟨ms, s⟩, hms, rfl⟩, h⟩ := h
      cases h
      exact isKeyed_of_readMembers? isKeyed_empty hms
    · simp only [Option.bind_eq_some_iff, Option.map_eq_some_iff] at h
      obtain ⟨_, ⟨_, -, rfl⟩, h⟩ := h
      cases h
      exact isKeyed_of_not_isTable 1 rfl
    · simp only [Option.bind_eq_some_iff, Option.map_eq_some_iff] at h
      obtain ⟨_, ⟨_, -, rfl⟩, h⟩ := h
      cases h
      exact isKeyed_of_not_isTable 1 rfl
    · split at h
      · cases h
        exact isKeyed_of_not_isTable 1 rfl
      · cases h
    · cases h
      exact isKeyed_of_not_isTable 1 (isTable_wordValue _)

theorem isKeyed_valueOf (text : String) : (valueOf text).IsKeyed 1 := by
  unfold valueOf
  split
  · rename_i h
    exact isKeyed_of_readValue? h
  · exact isKeyed_of_not_isTable 1 rfl

theorem path?_eq (name : String) : path? name =
    (expectWord? programName ((trimBlanks name.toList).map Char.toLower)).bind fun rest =>
      let path := ((trimBlanks (dotPairs rest)).splitOnP (· == '.')).map String.ofList
      if path.contains "" then none else some path := by
  rw [path?]
  cases expectWord? programName ((trimBlanks name.toList).map Char.toLower) with
  | none => rfl
  | some rest =>
    simp only [String.splitToList_of_valid, String.toList_ofList]
    rfl

theorem exists_cons_of_path? {name : String} {path : List String} (h : path? name = some path) :
    ∃ key rest, path = key :: rest := by
  refine List.exists_cons_of_ne_nil fun hnil => ?_
  subst hnil
  rw [path?_eq] at h
  obtain ⟨rest, -, h⟩ := Option.bind_eq_some_iff.1 h
  simp only [] at h
  split_ifs at h
  simp [List.splitOnP_ne_nil] at h

end Readers

section Layers

variable {entry : String × String} {path : List String}

theorem layer_concat (entries : List (String × String)) (entry : String × String) :
    layer (entries ++ [entry]) = match path? entry.1 with
      | some path => (layer entries).overlay (nested path (valueOf entry.2))
      | none => layer entries := by
  rw [layer, List.foldl_append]
  rfl

/-- What the empty table has, and a table still has with one entry laid over it, every layer has. -/
theorem layer_keeps {p : Setting → Prop} (hempty : p .empty)
    (hentry : ∀ u key rest text, p u → p (u.overlay (nested (key :: rest) (valueOf text))))
    (entries : List (String × String)) : p (layer entries) := by
  induction entries using List.reverseRecOn with
  | nil => exact hempty
  | append_singleton entries entry ih =>
    rw [layer_concat]
    rcases hpath : path? entry.1 with _ | path
    · exact ih
    · obtain ⟨key, rest, rfl⟩ := exists_cons_of_path? hpath
      exact hentry _ key rest entry.2 ih

theorem isKeyed_layer (entries : List (String × String)) : (layer entries).IsKeyed 2 :=
  layer_keeps isKeyed_empty
    (fun _ key rest text h => h.overlay (isKeyed_nested_cons key rest (isKeyed_valueOf text)))
    entries

theorem isTable_layer (entries : List (String × String)) : (layer entries).isTable = true :=
  layer_keeps (p := (isTable · = true)) rfl
    (fun _ _ _ _ _ => (alike_overlay _ _).isTable_eq) entries

/-- What an entry gives at a path by itself. -/
def given? (path : List String) (entry : String × String) : Option Setting :=
  (path? entry.1).bind fun own => (nested own (valueOf entry.2)).at? path

/-- An entry sets a value that is no table, though the path leads on from there. -/
def blocks (path : List String) (entry : String × String) : Bool :=
  (path? entry.1).any fun own => (nested own (valueOf entry.2)).hides path

/-- The entry gives a value at the path or blocks it. -/
def speaksOf (path : List String) (entry : String × String) : Bool :=
  blocks path entry || (given? path entry).isSome

/-- What the environment gives at a path: the last entry that speaks of it counts. -/
def value? (entries : List (String × String)) (path : List String) : Option Setting :=
  (entries.reverse.find? (speaksOf path)).bind (given? path)

theorem at?_layer_concat (hlen : path.length ≤ 2) (entries : List (String × String))
    (entry : String × String) :
    (layer (entries ++ [entry])).at? path =
      if blocks path entry then none
      else over? ((layer entries).at? path) (given? path entry) := by
  rw [layer_concat, blocks, given?]
  rcases hown : path? entry.1 with _ | own
  · simp
  · obtain ⟨key, rest, rfl⟩ := exists_cons_of_path? hown
    have hkeyed := isKeyed_nested_cons key rest (isKeyed_valueOf entry.2)
    exact at?_overlay (hkeyed.of_le hlen)

theorem given?_of_blocks (h : blocks path entry = true) : given? path entry = none := by
  obtain ⟨own, hown, h⟩ := (Option.any_eq_true _ _).1 h
  rw [given?, hown, Option.bind_some, at?_of_hides h]

theorem value?_concat (entries : List (String × String)) (entry : String × String)
    (path : List String) :
    value? (entries ++ [entry]) path =
      if blocks path entry then none else (given? path entry).or (value? entries path) := by
  rw [value?, List.reverse_append, List.reverse_singleton, List.singleton_append,
    List.find?_cons, speaksOf]
  rcases hblocks : blocks path entry with _ | _
  · rcases hgiven : given? path entry with _ | v
    · simp [value?]
    · simp [hgiven]
  · simp [given?_of_blocks hblocks]

theorem rel_value? (entries : List (String × String)) (hne : path ≠ [])
    (hlen : path.length ≤ 2) :
    Option.Rel Alike ((layer entries).at? path) (value? entries path) := by
  -- The last entry settles the path if it speaks of it; otherwise those before it do.
  induction entries using List.reverseRecOn with
  | nil =>
    obtain ⟨key, rest, rfl⟩ := List.exists_cons_of_ne_nil hne
    exact .none
  | append_singleton entries entry ih =>
    rw [at?_layer_concat hlen, value?_concat]
    split_ifs
    · exact .none
    · exact rel_over? ih (rel_refl _)

end Layers

section Insertions

variable {before mid after : List (String × String)} {entry : String × String}
  {path : List String}

theorem value?_insert (h : ∀ entry ∈ mid, speaksOf path entry = false) :
    value? (before ++ mid ++ after) path = value? (before ++ after) path := by
  have hmid : mid.reverse.find? (speaksOf path) = none := by
    rw [List.find?_eq_none]
    simpa using h
  simp [value?, hmid]

theorem value?_insert_or (before mid after : List (String × String)) (path : List String) :
    value? (before ++ mid ++ after) path = value? (before ++ after) path ∨
      ∃ entry ∈ mid, speaksOf path entry = true ∧
        value? (before ++ mid ++ after) path = given? path entry := by
  by_cases h : ∀ entry ∈ mid, speaksOf path entry = false
  · exact .inl (value?_insert h)
  · simp only [value?, List.reverse_append, List.find?_append]
    rcases after.reverse.find? (speaksOf path) with _ | last
    · obtain ⟨entry, hentry⟩ : ∃ entry, mid.reverse.find? (speaksOf path) = some entry := by
        rw [← Option.isSome_iff_exists, List.find?_isSome]
        simpa using h
      refine .inr ⟨entry, List.mem_reverse.1 (List.mem_of_find?_eq_some hentry),
        List.find?_some hentry, ?_⟩
      simp [hentry]
    · exact .inl rfl

/-- An entry speaks of a path only if its own path leads along it, or the other way round. -/
theorem prefix_of_speaksOf (h : speaksOf path entry = true) :
    ∃ own, path? entry.1 = some own ∧ (own <+: path ∨ path <+: own) := by
  rw [speaksOf, blocks, given?] at h
  rcases hown : path? entry.1 with _ | own
  · simp [hown] at h
  · rw [hown] at h
    exact ⟨own, rfl, prefix_of_nested h⟩

theorem exists_given?_of_speaksOf {part : String} (h : speaksOf [part] entry = true) :
    ∃ v, given? [part] entry = some v := by
  obtain ⟨own, hown, -⟩ := prefix_of_speaksOf h
  obtain ⟨key, rest, rfl⟩ := exists_cons_of_path? hown
  have hblocks : blocks [part] entry = false := by
    rw [blocks, hown, Option.any_some, hides_singleton]
    rfl
  rw [speaksOf, hblocks, Bool.false_or] at h
  exact Option.isSome_iff_exists.1 h

end Insertions

end Datebook.Environment

import Datebook.Proofs.Entries
import Datebook.Proofs.Fields
import Mathlib.Data.Set.Basic

/-!
# A file under an environment

The value of a section or of a key is the environment's if it gives one, otherwise the file's,
otherwise the default. These values alone decide: a configuration is loaded just if every section's
value is a table and every key accepts its value, whatever lies below it, and its fields are the
values of the keys (`load?_eq_some_iff`). So only what the layers say of the sections and the keys
counts (`load?_congr`).

A key that no section has is left aside wherever it is set, with one exception: the entry of such a
key makes its section a table, which counts where the file has a value there that is none
(`unknown_entry_loads`).
-/

namespace Datebook.Settings

open Setting Environment

variable {home : Option String} {file file' : Option String} {below below' : Setting}
  {entries entries' : List (String × String)} {s s' : Settings} {k : Key} {part : String}

/-- What a file gives; one that is not there gives nothing. -/
def fileLayer? : Option String → Option Setting
  | none => some .empty
  | some content => Toml.ofText? content

/-- The value at a path: the environment's if it gives one, otherwise the file's. -/
def layered? (below : Setting) (entries : List (String × String)) (path : List String) :
    Option Setting :=
  (value? entries path).or (below.at? path)

/-- The value of a section. One that is not set has no keys. -/
def sectionValue (below : Setting) (entries : List (String × String)) (part : String) : Setting :=
  (layered? below entries [part]).getD .empty

/-- The value of a key. -/
def keyValue (home : Option String) (below : Setting) (entries : List (String × String))
    (k : Key) : Setting :=
  (layered? below entries k.place).getD (k.fallback home)

/-- No section is a list. -/
def NoLists (below : Setting) (entries : List (String × String)) : Prop :=
  ∀ part ∈ parts, ∀ items, sectionValue below entries part ≠ .list items

section Layers

theorem load?_of_fileLayer? (hfile : fileLayer? file = some below) :
    load? file entries home = ofSetting? home (below.overlay (layer entries)) := by
  cases file with
  | none =>
    cases hfile
    rfl
  | some content =>
    rw [fileLayer?] at hfile
    simp [load?, layers?, hfile]

theorem isTable_overlay_layer : (below.overlay (layer entries)).isTable = true :=
  (alike_overlay _ _).isTable_eq.trans (isTable_layer entries)

theorem rel_at?_part (below : Setting) (entries : List (String × String)) (part : String) :
    Option.Rel Alike ((below.overlay (layer entries)).at? [part])
      (layered? below entries [part]) := by
  rw [at?_overlay ((isKeyed_layer entries).of_le (by simp)), hides_singleton, isTable_layer]
  exact rel_over? (rel_refl _) (rel_value? entries (by simp) (by simp))

theorem alike_sectionValue (below : Setting) (entries : List (String × String)) (part : String) :
    (((below.overlay (layer entries)).at? [part]).getD .empty).Alike
      (sectionValue below entries part) :=
  alike_getD (rel_at?_part below entries part) .empty

/-- Where the section is a table, the environment hides nothing of the file's keys there. -/
theorem hides_place (hpart : (sectionValue below entries k.part).isTable = true) :
    (layer entries).hides k.place = false := by
  rw [← Bool.not_eq_true]
  intro h
  obtain ⟨v, hv, hnot⟩ := (hides_pair_iff (isTable_layer entries)).1 h
  have hrel := rel_value? entries (List.cons_ne_nil k.part []) (Nat.le_succ 1)
  rw [hv] at hrel
  rw [sectionValue, layered?] at hpart
  cases hvalue : value? entries [k.part] with
  | none =>
    rw [hvalue] at hrel
    cases hrel
  | some w =>
    rw [hvalue] at hrel hpart
    obtain ⟨halike⟩ := hrel
    exact absurd (halike.isTable_eq.trans hpart) (by simp [hnot])

theorem rel_at?_place (hpart : (sectionValue below entries k.part).isTable = true) :
    Option.Rel Alike ((below.overlay (layer entries)).at? k.place)
      (layered? below entries k.place) := by
  have hkeyed : (layer entries).IsKeyed k.place.length := isKeyed_layer entries
  rw [at?_overlay hkeyed, hides_place hpart]
  exact rel_over? (rel_refl _) (rel_value? entries (List.cons_ne_nil _ _) le_rfl)

/-- A configuration is loaded just if every section is a table and every key accepts its value;
its fields are these values. -/
theorem load?_eq_some_iff (home : Option String) (hfile : fileLayer? file = some below)
    (hlists : NoLists below entries) : load? file entries home = some s ↔
      (∀ part ∈ parts, (sectionValue below entries part).isTable = true) ∧
        ∀ k : Key, k.accepted.Accepts (keyValue home below entries k) ∧
          s.get k = keyValue home below entries k := by
  have hlists' : ∀ part ∈ parts, ∀ items,
      ((below.overlay (layer entries)).at? [part]).getD .empty ≠ .list items :=
    fun part hpart => (alike_sectionValue below entries part).ne_list (hlists part hpart)
  rw [load?_of_fileLayer? hfile, ofSetting?_eq_some_iff home isTable_overlay_layer hlists']
  simp only [(alike_sectionValue below entries _).isTable_eq]
  refine and_congr_right fun htables => forall_congr' fun k => ?_
  exact Setting.Kind.accepts_congr (alike_getD (rel_at?_place (htables _ k.part_mem)) _)

/-- Layers that say the same of every section and key, tables left aside, load alike. -/
theorem load?_congr (hfile : fileLayer? file = some below)
    (hfile' : fileLayer? file' = some below') (hlists : NoLists below entries)
    (hparts : ∀ part ∈ parts,
      (sectionValue below entries part).Alike (sectionValue below' entries' part))
    (hkeys : ∀ k, (keyValue home below entries k).Alike (keyValue home below' entries' k)) :
    load? file' entries' home = load? file entries home := by
  have hlists' : NoLists below' entries' :=
    fun part hpart => (hparts part hpart).symm.ne_list (hlists part hpart)
  ext s
  rw [load?_eq_some_iff home hfile hlists, load?_eq_some_iff home hfile' hlists']
  refine and_congr (forall₂_congr fun part hpart => ?_) (forall_congr' fun k => ?_)
  · rw [(hparts part hpart).isTable_eq]
  · exact (Setting.Kind.accepts_congr (hkeys k)).symm

end Layers

section Names

theorem path?_entryName (k : Key) : path? (entryName k.part k.name) = some k.place := by
  rw [path?_eq]
  cases k <;> decide +kernel

/-- An entry of the usual name sets its key. -/
theorem value?_entryName (k : Key) (text : String) :
    value? [(entryName k.part k.name, text)] k.place = some (valueOf text) := by
  have hgiven : given? k.place (entryName k.part k.name, text) = some (valueOf text) := by
    rw [given?, path?_entryName, Option.bind_some]
    simp [Key.place, nested, at?]
  simp [value?, speaksOf, hgiven]

end Names

section Changes

variable {before mid mid' after : List (String × String)} {keys : Set Key}

/-- Two files' sections are alike: either the same, or tables, which may be left out. -/
def SameSections (below below' : Setting) : Prop :=
  ∀ part ∈ parts, ((below.at? [part]).getD .empty).Alike ((below'.at? [part]).getD .empty)

/-- Two files give the same for these keys. -/
def SameKeys (keys : Set Key) (below below' : Setting) : Prop :=
  ∀ k ∈ keys, Option.Rel Alike (below.at? k.place) (below'.at? k.place)

/-- No entry says anything of these keys. -/
def Spares (keys : Set Key) (entries : List (String × String)) : Prop :=
  ∀ entry ∈ entries, ∀ k ∈ keys, speaksOf k.place entry = false

theorem SameSections.alike (h : SameSections below below') (hpart : part ∈ parts) :
    (sectionValue below entries part).Alike (sectionValue below' entries part) := by
  rw [sectionValue, sectionValue, layered?, layered?]
  cases value? entries [part] with
  | none => simpa using h part hpart
  | some v => exact .refl v

theorem SameKeys.alike (h : SameKeys keys below below') (hk : k ∈ keys) :
    (keyValue home below entries k).Alike (keyValue home below' entries k) := by
  rw [keyValue, keyValue, layered?, layered?]
  cases value? entries k.place with
  | none => simpa using alike_getD (h k hk) (k.fallback home)
  | some v => exact .refl v

theorem keyValue_of_isSome (h : (value? entries k.place).isSome = true) :
    keyValue home below entries k = keyValue home below' entries k := by
  obtain ⟨v, hv⟩ := Option.isSome_iff_exists.1 h
  simp [keyValue, layered?, hv]

theorem Spares.keyValue_eq (h : Spares keys mid) (hk : k ∈ keys) :
    keyValue home below (before ++ mid ++ after) k =
      keyValue home below (before ++ after) k := by
  rw [keyValue, keyValue, layered?, layered?, value?_insert fun entry hentry => h entry hentry k hk]

/-- An entry that sets neither a section nor a key nor anything inside a key says nothing of any. -/
theorem spares_of_unknown {entry : String × String} {own : List String}
    (hown : path? entry.1 = some own) (hparts : ∀ part ∈ parts, own ≠ [part])
    (hkeys : ∀ k : Key, ¬ k.place <+: own) : Spares Set.univ [entry] := by
  rw [Spares, List.forall_mem_singleton]
  intro k _
  rw [← Bool.not_eq_true]
  intro h
  obtain ⟨_, hown', h⟩ := prefix_of_speaksOf h
  cases hown.symm.trans hown'
  obtain ⟨key, rest, rfl⟩ := exists_cons_of_path? hown
  rcases h with h | h
  · obtain ⟨rfl, hrest⟩ := List.cons_prefix_cons.1 h
    rcases List.prefix_cons_iff.1 hrest with rfl | ⟨_, rfl, hnil⟩
    · exact hparts _ k.part_mem rfl
    · rw [List.prefix_nil.1 hnil] at hkeys
      exact hkeys k List.prefix_rfl
  · exact hkeys k h

/-- What an entry gives for a section is a table if it says nothing of the section's keys. -/
theorem Spares.isTable_of_given? {entry : String × String} {v : Setting}
    (h : Spares Set.univ mid) (hentry : entry ∈ mid) (hpart : part ∈ parts)
    (hv : given? [part] entry = some v) : v.isTable = true := by
  rw [← Bool.not_eq_false]
  intro hnot
  obtain ⟨k, rfl⟩ := exists_part_eq hpart
  obtain ⟨own, hown, hv⟩ := Option.bind_eq_some_iff.1 hv
  obtain ⟨key, rest, rfl⟩ := exists_cons_of_path? hown
  -- A value that is no table would take all keys of the section away.
  have hblocks : blocks k.place entry = true := by
    rw [blocks, hown, Option.any_some]
    exact (hides_pair_iff rfl).2 ⟨v, hv, hnot⟩
  have hspares := h entry hentry k trivial
  rw [speaksOf, hblocks] at hspares
  cases hspares

theorem Spares.alike_sectionValue (h : Spares Set.univ mid) (hpart : part ∈ parts)
    (htable : (∃ entry ∈ mid, speaksOf [part] entry = true) →
      (sectionValue below (before ++ after) part).isTable = true) :
    (sectionValue below (before ++ after) part).Alike
      (sectionValue below (before ++ mid ++ after) part) := by
  rcases value?_insert_or before mid after [part] with heq | ⟨entry, hentry, hspeaks, heq⟩
  · rw [sectionValue, sectionValue, layered?, layered?, heq]
    exact .refl _
  · obtain ⟨v, hv⟩ := exists_given?_of_speaksOf hspeaks
    refine .inr ⟨htable ⟨entry, hentry, hspeaks⟩, ?_⟩
    rw [sectionValue, layered?, heq, hv]
    exact h.isTable_of_given? hentry hpart hv

end Changes

/-- The values of the layers, each taken by itself, decide what is loaded. -/
structure IsLayered (home file : Option String) (below : Setting)
    (entries : List (String × String)) : Prop where
  /-- Something is loaded just if the sections are tables and the keys accept their values. -/
  isSome_iff : (load? file entries home).isSome = true ↔
    (∀ part ∈ parts, (sectionValue below entries part).isTable = true) ∧
      ∀ k : Key, k.accepted.Accepts (keyValue home below entries k)
  /-- The fields are the values of the keys. -/
  get_eq : ∀ s, load? file entries home = some s → ∀ k, s.get k = keyValue home below entries k
  /-- What a file says besides makes no difference. -/
  other_file : ∀ file' below', fileLayer? file' = some below' → SameSections below below' →
    SameKeys Set.univ below below' → load? file' entries home = load? file entries home
  /-- Entries that say nothing of a key make no difference among the others, if the sections that
  they make tables are tables without them. -/
  other_entries : ∀ before mid after, entries = before ++ after → Spares Set.univ mid →
    (∀ part ∈ parts, (∃ entry ∈ mid, speaksOf [part] entry = true) →
      (sectionValue below entries part).isTable = true) →
    load? file (before ++ mid ++ after) home = load? file entries home
  /-- A file that sets one key anew changes no other field. -/
  file_set : ∀ k file' below', fileLayer? file' = some below' → NoLists below' entries →
    SameKeys {k}ᶜ below below' → ∀ s s', load? file entries home = some s →
      load? file' entries home = some s' → ∀ k' ≠ k, s'.get k' = s.get k'
  /-- Entries that set one key anew change no other field. -/
  entries_set : ∀ k before mid mid' after, entries = before ++ mid ++ after →
    Spares {k}ᶜ mid → Spares {k}ᶜ mid' → NoLists below (before ++ mid' ++ after) →
      ∀ s s', load? file entries home = some s →
        load? file (before ++ mid' ++ after) home = some s' → ∀ k' ≠ k, s'.get k' = s.get k'
  /-- A value of the file that its key does not accept is fatal if no entry takes its place, … -/
  fatal : ∀ (k : Key) v, below.at? k.place = some v → ¬ k.accepted.Accepts v →
    value? entries k.place = none → load? file entries home = none
  /-- … and makes no difference if one does. -/
  harmless : ∀ k : Key, (value? entries k.place).isSome = true → ∀ file' below',
    fileLayer? file' = some below' → SameSections below below' → SameKeys {k}ᶜ below below' →
      load? file' entries home = load? file entries home

theorem isLayered_load (home : Option String) (hfile : fileLayer? file = some below)
    (hlists : NoLists below entries) : IsLayered home file below entries where
  isSome_iff := by
    rw [Option.isSome_iff_exists]
    simp only [load?_eq_some_iff home hfile hlists]
    constructor
    · rintro ⟨s, hparts, hkeys⟩
      exact ⟨hparts, fun k => (hkeys k).1⟩
    · rintro ⟨hparts, hkeys⟩
      obtain ⟨s, hs⟩ := exists_get_eq hkeys
      exact ⟨s, hparts, fun k => ⟨hkeys k, hs k⟩⟩
  get_eq s hs k := (((load?_eq_some_iff home hfile hlists).1 hs).2 k).2
  other_file file' below' hfile' hparts hkeys :=
    load?_congr hfile hfile' hlists (fun part hpart => hparts.alike hpart)
      fun k => hkeys.alike trivial
  other_entries before mid after hentries hmid htables := by
    subst hentries
    refine load?_congr hfile hfile hlists (fun part hpart => ?_) fun k => ?_
    · exact hmid.alike_sectionValue hpart (htables part hpart)
    · rw [hmid.keyValue_eq trivial]
      exact .refl _
  file_set k file' below' hfile' hlists' hkeys s s' hs hs' k' hk' := by
    obtain ⟨haccepts, hget⟩ := ((load?_eq_some_iff home hfile hlists).1 hs).2 k'
    obtain ⟨-, hget'⟩ := ((load?_eq_some_iff home hfile' hlists').1 hs').2 k'
    have halike : (keyValue home below entries k').Alike (keyValue home below' entries k') :=
      hkeys.alike hk'
    rw [hget, hget', halike.eq_of_not_isTable haccepts.isTable_eq]
  entries_set k before mid mid' after hentries hmid hmid' hlists' s s' hs hs' k' hk' := by
    subst hentries
    obtain ⟨-, hget⟩ := ((load?_eq_some_iff home hfile hlists).1 hs).2 k'
    obtain ⟨-, hget'⟩ := ((load?_eq_some_iff home hfile hlists').1 hs').2 k'
    rw [hget, hget', hmid.keyValue_eq hk', hmid'.keyValue_eq hk']
  fatal k v hv hnot hnone := by
    rw [Option.eq_none_iff_forall_not_mem]
    intro s hs
    obtain ⟨haccepts, -⟩ := ((load?_eq_some_iff home hfile hlists).1 hs).2 k
    rw [keyValue, layered?, hnone, Option.none_or, hv, Option.getD_some] at haccepts
    exact hnot haccepts
  harmless k hsome file' below' hfile' hparts hkeys := by
    refine load?_congr hfile hfile' hlists (fun part hpart => hparts.alike hpart) fun k' => ?_
    by_cases hk' : k' = k
    · subst hk'
      rw [keyValue_of_isSome hsome]
      exact .refl _
    · exact hkeys.alike hk'

/-- A port of the wrong kind in the file is fatal unless an entry sets the port. -/
theorem isLayered_load_wrong_port : ∃ below,
    fileLayer? (some "[server]\nport = \"x\"\nbind = \"::1\"\n") = some below ∧
      NoLists below [] ∧ NoLists below [(entryName "server" "port", "9000")] ∧
      load? (some "[server]\nport = \"x\"\nbind = \"::1\"\n") [] none = none ∧
      ∃ s, load? (some "[server]\nport = \"x\"\nbind = \"::1\"\n")
        [(entryName "server" "port", "9000")] none = some s ∧ s.get .port = .integer 9000 := by
  have hfile : ((fileLayer? (some "[server]\nport = \"x\"\nbind = \"::1\"\n")).any fun below =>
      parts.all (fun part => ((below.at? [part]).getD .empty).isTable) &&
        ((below.at? Key.port.place).bind text?).isSome) = true := by decide +kernel
  obtain ⟨below, hfile, hbelow⟩ := (Option.any_eq_true _ _).1 hfile
  rw [Bool.and_eq_true, List.all_eq_true] at hbelow
  obtain ⟨hparts, hport⟩ := hbelow
  have hpath : path? (entryName "server" "port") = some ["server", "port"] := path?_entryName .port
  have hnone : NoLists below [] := by
    intro part hpart items h
    have htable := hparts part hpart
    rw [show (below.at? [part]).getD .empty = .list items from h] at htable
    cases htable
  have hlists : NoLists below [(entryName "server" "port", "9000")] := by
    intro part hpart items h
    by_cases hserver : part = "server"
    · subst hserver
      simp [sectionValue, layered?, value?, speaksOf, blocks, given?, hpath, nested, at?] at h
    · have hne : (part == "server") = false := beq_eq_false_iff_ne.2 hserver
      have hvalue : value? [(entryName "server" "port", "9000")] [part] = none := by
        simp [value?, speaksOf, blocks, given?, hpath, nested, at?, hides, List.lookup_cons, hne]
      rw [sectionValue, layered?, hvalue] at h
      exact hnone part hpart items h
  have hlayer : layer [(entryName "server" "port", "9000")] =
      Setting.empty.overlay (nested ["server", "port"] (valueOf "9000")) := by
    simp [layer, hpath]
  have hloads : (load? (some "[server]\nport = \"x\"\nbind = \"::1\"\n")
      [(entryName "server" "port", "9000")] none).isSome = true := by
    rw [load?, layers?, hlayer]
    decide +kernel
  obtain ⟨s, hs⟩ := Option.isSome_iff_exists.1 hloads
  refine ⟨below, hfile, hnone, hlists, ?_, s, hs, ?_⟩
  · obtain ⟨t, ht⟩ := Option.isSome_iff_exists.1 hport
    obtain ⟨v, hv, ht⟩ := Option.bind_eq_some_iff.1 ht
    refine (isLayered_load none hfile hnone).fatal .port v hv ?_ rfl
    cases v <;> simp [text?] at ht
    exact id
  · have hvalue : value? [(entryName "server" "port", "9000")] Key.port.place =
        some (valueOf "9000") := value?_entryName .port "9000"
    rw [(isLayered_load none hfile hlists).get_eq s hs, keyValue, layered?, hvalue]
    rfl

/-- An entry that says nothing of any key makes a section a table in place of the file's number. A
date in the file counts as a table by itself. -/
theorem unknown_entry_loads : load? (some "server = 5\n") [] none = none ∧
    Spares Set.univ [("CALENDAR_SERVER__XYZ", "1")] ∧
    (load? (some "server = 5\n") [("CALENDAR_SERVER__XYZ", "1")] none).isSome = true ∧
    (load? (some "server = 2020-01-01\n") [] none).isSome = true := by
  have hpath : path? "CALENDAR_SERVER__XYZ" = some ["server", "xyz"] := by
    rw [path?_eq]
    decide +kernel
  have hlayer : layer [("CALENDAR_SERVER__XYZ", "1")] =
      Setting.empty.overlay (nested ["server", "xyz"] (valueOf "1")) := by
    simp [layer, hpath]
  refine ⟨by decide +kernel, spares_of_unknown hpath ?_ ?_, ?_, by decide +kernel⟩
  · decide
  · intro k h
    have hplace := h.eq_of_length rfl
    cases k <;> exact absurd hplace (by decide)
  · rw [load?, layers?, hlayer]
    decide +kernel

end Datebook.Settings

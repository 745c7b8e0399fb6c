import Datebook.Broker.Stream
import Datebook.Text.Decimal
import Mathlib.Data.Finset.Basic
import Mathlib.Data.List.Nodup
import Mathlib.Data.Prod.Lex

/-!
# Groups

The server's side of a stream whose entries one consumer of a group reads: the entries in the order
of their ranks, the rank up to which the consumer was given them, and the ranks of those that it has
not acknowledged. A read gives a few entries in order, from behind its position (`lt_of_mem_read`),
and what the consumer is given by it becomes pending (`mem_pending_read`).
-/

namespace Datebook

/-- The rank of an entry in its stream: its time, and its number among those of that time. -/
abbrev Rank := ℕ ×ₗ ℕ

namespace Rank

/-- The rank with which streams begin, before all entries. -/
def first : Rank := toLex (0, 0)

/-- The number that is written in digits; other texts stand for 0. -/
def number (s : List Char) : Nat := if s.all Char.isDigit then natOfDigits s else 0

/-- The rank that an id names, `time-number` or only the time. Other texts name the first rank. -/
def ofId (id : String) : Rank :=
  match id.toList.splitOn '-' with
  | [time] => toLex (number time, 0)
  | [time, n] => toLex (number time, number n)
  | _ => first

end Rank

namespace StreamEntry

def rank (e : StreamEntry) : Rank := Rank.ofId e.id

/-- The notification that an entry carries, if its payload is one. -/
def notification? (e : StreamEntry) : Option Notification :=
  e.payload?.bind Notification.ofOctets?

end StreamEntry

/-- A stream and what its server remembers of a group's consumer. -/
structure StreamGroup where
  entries : List StreamEntry
  last : Rank
  pending : Finset Rank

namespace StreamGroup

/-- How many entries a read gives at most. -/
def readLimit : Nat := 16

/-- The first entries that the consumer was not given. -/
def fresh (g : StreamGroup) : List StreamEntry :=
  (g.entries.filter fun e => g.last < e.rank).take readLimit

/-- The first entries behind a rank that the consumer was given and has not acknowledged. -/
def replay (p : Rank) (g : StreamGroup) : List StreamEntry :=
  (g.entries.filter fun e => e.rank ∈ g.pending ∧ p < e.rank).take readLimit

/-- Notes that the consumer was given these entries. -/
def give (es : List StreamEntry) (g : StreamGroup) : StreamGroup :=
  { g with
    last := (es.getLast?.map StreamEntry.rank).getD g.last
    pending := g.pending ∪ (es.map StreamEntry.rank).toFinset }

/-- What a read from a position gives, and the group after it. -/
def read (position : String) (g : StreamGroup) : List StreamEntry × StreamGroup :=
  if position = Delivery.newEntries then (g.fresh, g.give g.fresh)
  else (g.replay (Rank.ofId position), g)

/-- Takes an acknowledgement. -/
def acknowledge (id : String) (g : StreamGroup) : StreamGroup :=
  { g with pending := g.pending.erase (Rank.ofId id) }

/-- Puts an entry at the end of the stream; its rank must be behind all that there were. -/
def append (e : StreamEntry) (g : StreamGroup) : StreamGroup :=
  if g.last < e.rank ∧ ∀ a ∈ g.entries, a.rank < e.rank then
    { g with entries := g.entries ++ [e] }
  else g

/-- The entries are in order, and only what was given is pending. -/
structure IsSound (g : StreamGroup) : Prop where
  increasing : g.entries.Pairwise fun a b => a.rank < b.rank
  le_last : ∀ p ∈ g.pending, p ≤ g.last

variable {g : StreamGroup}

theorem IsSound.eq_of_rank (h : g.IsSound) {a b : StreamEntry} (ha : a ∈ g.entries)
    (hb : b ∈ g.entries) (hab : a.rank = b.rank) : a = b := by
  have hn : (g.entries.map StreamEntry.rank).Nodup :=
    List.pairwise_map.2 (h.increasing.imp fun hlt => ne_of_lt hlt)
  exact List.inj_on_of_nodup_map hn ha hb hab

section Ends

variable {l : List StreamEntry} (h : l.Pairwise fun a b => a.rank < b.rank)

include h

/-- Of entries in order none is behind the last. -/
theorem le_getLast {e : StreamEntry} (he : e ∈ l) : ∃ z ∈ l.getLast?, e.rank ≤ z.rank := by
  rcases List.eq_nil_or_concat l with rfl | ⟨l, z, rfl⟩
  · cases he
  · rw [List.concat_eq_append] at h he ⊢
    refine ⟨z, List.getLast?_concat, ?_⟩
    rcases List.mem_append.1 he with he | he
    · exact le_of_lt ((List.pairwise_append.1 h).2.2 e he z (by simp))
    · exact le_of_eq (congrArg _ (List.mem_singleton.1 he))

/-- What is not behind one of the first `n` of entries in order is one of them. -/
theorem mem_take_of_le {n : ℕ} {e z : StreamEntry} (he : e ∈ l) (hz : z ∈ l.take n)
    (hle : e.rank ≤ z.rank) : e ∈ l.take n := by
  rw [← List.take_append_drop n l] at h he
  rcases List.mem_append.1 he with he | he
  · exact he
  · exact absurd hle (not_le_of_gt ((List.pairwise_append.1 h).2.2 z hz e he))

end Ends

theorem mem_fresh {e : StreamEntry} (he : e ∈ g.fresh) : e ∈ g.entries ∧ g.last < e.rank := by
  simpa using List.mem_filter.1 (List.mem_of_mem_take he)

theorem mem_replay {p : Rank} {e : StreamEntry} (he : e ∈ g.replay p) :
    e ∈ g.entries ∧ e.rank ∈ g.pending ∧ p < e.rank := by
  simpa using List.mem_filter.1 (List.mem_of_mem_take he)

theorem read_newEntries : g.read Delivery.newEntries = (g.fresh, g.give g.fresh) := if_pos rfl

theorem read_of_ne {position : String} (h : position ≠ Delivery.newEntries) :
    g.read position = (g.replay (Rank.ofId position), g) := if_neg h

section Reads

variable (position : String)

theorem entries_read : (g.read position).2.entries = g.entries := by
  unfold read
  split_ifs <;> rfl

theorem read_sublist : (g.read position).1.Sublist g.entries := by
  unfold read
  split_ifs
  · exact (List.take_sublist _ _).trans List.filter_sublist
  · exact (List.take_sublist _ _).trans List.filter_sublist

theorem pending_subset_read : g.pending ⊆ (g.read position).2.pending := by
  unfold read
  split_ifs
  · exact Finset.subset_union_left
  · exact subset_rfl

theorem last_le_read : g.last ≤ (g.read position).2.last := by
  unfold read
  split_ifs
  · rcases hz : g.fresh.getLast? with _ | z
    · simp [give, hz]
    · simpa [give, hz] using le_of_lt (mem_fresh (List.mem_of_getLast? hz)).2
  · exact le_rfl

/-- What a read gives is behind all that is behind neither its position nor what was given. -/
theorem lt_of_mem_read {e : StreamEntry} (he : e ∈ (g.read position).1) {p : Rank}
    (hlast : p ≤ g.last) (hp : position ≠ Delivery.newEntries → p ≤ Rank.ofId position) :
    p < e.rank := by
  rcases eq_or_ne position Delivery.newEntries with rfl | hne
  · rw [read_newEntries] at he
    exact hlast.trans_lt (mem_fresh he).2
  · rw [read_of_ne hne] at he
    exact (hp hne).trans_lt (mem_replay he).2.2

theorem IsSound.read_increasing (h : g.IsSound) :
    (g.read position).1.Pairwise fun a b => a.rank < b.rank :=
  h.increasing.sublist (read_sublist position)

theorem IsSound.le_last_of_mem_read (h : g.IsSound) {e : StreamEntry}
    (he : e ∈ (g.read position).1) : e.rank ≤ (g.read position).2.last := by
  rcases eq_or_ne position Delivery.newEntries with rfl | hne
  · have hincreasing := h.read_increasing Delivery.newEntries
    rw [read_newEntries] at he hincreasing ⊢
    obtain ⟨z, hz, hle⟩ := le_getLast hincreasing he
    simpa [give, Option.mem_def.1 hz] using hle
  · rw [read_of_ne hne] at he ⊢
    exact h.le_last _ (mem_replay he).2.1

/-- What a read makes the consumer have been given, it makes pending. -/
theorem IsSound.mem_pending_read (h : g.IsSound) {e : StreamEntry} (he : e ∈ g.entries)
    (hlt : g.last < e.rank) (hle : e.rank ≤ (g.read position).2.last) :
    e.rank ∈ (g.read position).2.pending := by
  rcases eq_or_ne position Delivery.newEntries with rfl | hne
  · rw [read_newEntries] at hle ⊢
    rcases hz : g.fresh.getLast? with _ | z
    · exact absurd hle (not_le_of_gt (by simpa [give, hz] using hlt))
    · have hmem : e ∈ g.fresh := mem_take_of_le (h.increasing.sublist List.filter_sublist)
        (List.mem_filter.2 ⟨he, decide_eq_true hlt⟩) (List.mem_of_getLast? hz)
        (by simpa [give, hz] using hle)
      exact Finset.mem_union_right _ (List.mem_toFinset.2 (List.mem_map_of_mem hmem))
  · rw [read_of_ne hne] at hle
    exact absurd hle (not_le_of_gt hlt)

theorem IsSound.read (h : g.IsSound) : (g.read position).2.IsSound := by
  refine ⟨by rw [entries_read]; exact h.increasing, ?_⟩
  rcases eq_or_ne position Delivery.newEntries with rfl | hne
  · have hlast := fun e he => h.le_last_of_mem_read Delivery.newEntries (e := e) he
    have hle := last_le_read (g := g) Delivery.newEntries
    rw [read_newEntries] at hlast hle ⊢
    intro p hp
    rcases Finset.mem_union.1 hp with hp | hp
    · exact (h.le_last p hp).trans hle
    · obtain ⟨e, he, rfl⟩ := List.mem_map.1 (List.mem_toFinset.1 hp)
      exact hlast e he
  · rw [read_of_ne hne]
    exact h.le_last

end Reads

theorem IsSound.acknowledge (h : g.IsSound) (id : String) : (g.acknowledge id).IsSound :=
  ⟨h.increasing, fun p hp => h.le_last p (Finset.mem_of_mem_erase hp)⟩

theorem IsSound.append (h : g.IsSound) (e : StreamEntry) : (g.append e).IsSound := by
  unfold StreamGroup.append
  split_ifs with hlt
  · refine ⟨?_, h.le_last⟩
    refine List.pairwise_append.2 ⟨h.increasing, List.pairwise_singleton _ e, fun a ha b hb => ?_⟩
    exact List.mem_singleton.1 hb ▸ hlt.2 a ha
  · exact h

theorem last_append (e : StreamEntry) (g : StreamGroup) : (g.append e).last = g.last := by
  unfold append
  split_ifs <;> rfl

theorem pending_append (e : StreamEntry) (g : StreamGroup) :
    (g.append e).pending = g.pending := by
  unfold append
  split_ifs <;> rfl

theorem entries_append (e : StreamEntry) (g : StreamGroup) :
    (g.append e).entries = g.entries
      ∨ (g.append e).entries = g.entries ++ [e] ∧ g.last < e.rank := by
  unfold append
  split_ifs with hlt
  · exact .inr ⟨rfl, hlt.1⟩
  · exact .inl rfl

end StreamGroup

end Datebook

import Datebook.Proofs.Bench
import Datebook.Proofs.Calls

/-!
# Upkeep

Whatever is done to a store that was empty at first, calls of its clients and ticks in any order and
at any time, it keeps an agenda. `call_keeps` and `tick_keeps` are the two kinds of step, and
`acts_keep` is about every run of them. Nothing is asked of the calls but that the id for a new
event is not in use, and of a table's clients that no instant of their events is in a leap second.
-/

namespace Datebook

namespace EventStore

/-- A store of this kind keeps an agenda, all of which it gives back as it was. -/
def Keeps (k : StorageKind) (s : EventStore) : Prop :=
  ∃ es, s = ofEvents k es ∧ IsAgenda es ∧ ∀ e ∈ es, k.Fits e

variable {k : StorageKind} {s : EventStore}

theorem keeps_empty (k : StorageKind) : (empty k).Keeps k :=
  ⟨[], (ofEvents_nil k).symm, .nil, by simp⟩

theorem TakesStep.keeps {es : List Event} {c : Call} (h : TakesStep k es c) :
    ((ofEvents k es).call c).2.Keeps k := by
  obtain ⟨r, es', hcall, ha, hfit, -⟩ := h
  exact ⟨es', by rw [hcall], ha, hfit⟩

theorem call_keeps (h : s.Keeps k) {c : Call} (hnew : s.IsNewIn c)
    (hc : k = .database → ∀ e ∈ c.event?, e.IsOrdinary) : (s.call c).2.Keeps k := by
  obtain ⟨es, rfl, ha, hes⟩ := h
  cases c with
  | create id e => exact (create_takesStep ha hes hnew fun hk => hc hk e rfl).keeps
  | update e => exact (update_takesStep ha hes fun hk => hc hk e rfl).keeps
  | delete id => exact (delete_takesStep ha hes id).keeps
  | get id => exact ⟨es, rfl, ha, hes⟩
  | list start finish => exact ⟨es, rfl, ha, hes⟩

end EventStore

variable {π : Type} {k : StorageKind}

namespace Bench

open EventStore

theorem tick_keeps (c : Conditions π) (s : SchedulerSettings) (now : Instant) {b : Bench π}
    (h : b.store.Keeps k) : (b.tick c s now).2.store.Keeps k := by
  obtain ⟨es, hb, ha, hes⟩ := h
  obtain ⟨_, _, _, _, -, -, hrun⟩ := tick_run c s now hb hes ha.ids_nodup
  rw [hrun]
  exact ⟨_, rfl, ha.sublist List.filter_sublist, fun e he => hes e (List.mem_filter.1 he).1⟩

end Bench

/-- A call of a client, or a tick under some conditions. -/
inductive Act (π : Type)
  | call (c : Call)
  | tick (c : Conditions π) (s : SchedulerSettings) (now : Instant)

def Act.event? : Act π → Option Event
  | .call c => c.event?
  | .tick _ _ _ => none

namespace Bench

open EventStore

def act (b : Bench π) : Act π → Bench π
  | .call c => { b with store := (b.store.call c).2 }
  | .tick c s now => (b.tick c s now).2

/-- The bench at first and after each of these acts. -/
def acts (b : Bench π) : List (Act π) → List (Bench π)
  | [] => [b]
  | a :: as => b :: (b.act a).acts as

def IsNewIn (b : Bench π) : Act π → Prop
  | .call c => b.store.IsNewIn c
  | .tick _ _ _ => True

/-- Whenever an act brings an id, nothing is kept under it. -/
def AllNew (b : Bench π) : List (Act π) → Prop
  | [] => True
  | a :: as => b.IsNewIn a ∧ (b.act a).AllNew as

instance (b : Bench π) : ∀ a : Act π, Decidable (b.IsNewIn a)
  | .call c => inferInstanceAs (Decidable (b.store.IsNewIn c))
  | .tick _ _ _ => isTrue trivial

instance decidableAllNew : ∀ (b : Bench π) (as : List (Act π)), Decidable (b.AllNew as)
  | _, [] => isTrue trivial
  | b, a :: as =>
    have := decidableAllNew (b.act a) as
    inferInstanceAs (Decidable (_ ∧ _))

theorem act_keeps {b : Bench π} (h : b.store.Keeps k) {a : Act π} (hnew : b.IsNewIn a)
    (ha : k = .database → ∀ e ∈ a.event?, e.IsOrdinary) : (b.act a).store.Keeps k := by
  cases a with
  | call c => exact call_keeps h hnew ha
  | tick c s now => exact tick_keeps c s now h

theorem acts_keep : ∀ (as : List (Act π)) {b : Bench π}, b.store.Keeps k →
    (k = .database → ∀ a ∈ as, ∀ e ∈ a.event?, e.IsOrdinary) → b.AllNew as →
      ∀ b' ∈ b.acts as, b'.store.Keeps k
  | [], b, h, _, _, b', hb' => by
    rw [acts, List.mem_singleton] at hb'
    exact hb' ▸ h
  | a :: as, b, h, ha, hnew, b', hb' => by
    rcases List.mem_cons.1 hb' with rfl | hb'
    · exact h
    · have hact := act_keeps h hnew.1 fun hk => ha hk a (by simp)
      exact acts_keep as hact (fun hk a' ha' => ha hk a' (by simp [ha'])) hnew.2 b' hb'

/-- Before and after every act of every run, the store keeps each event under its own id, and they
are an agenda. -/
theorem isAgenda_of_mem_acts (k : StorageKind) (producer : π) (as : List (Act π))
    (ha : k = .database → ∀ a ∈ as, ∀ e ∈ a.event?, e.IsOrdinary)
    (hnew : (new (.empty k) producer).AllNew as) :
    ∀ b ∈ (new (.empty k) producer).acts as, ∃ es, b.store.Holds es ∧ IsAgenda es := by
  intro b hb
  obtain ⟨es, hs, h, hes⟩ := acts_keep as (keeps_empty k) ha hnew b hb
  exact ⟨es, holds_iff.2 ⟨k, hs, hes⟩, h⟩

open Event Instant in
/-- Two dinners are entered, one is moved, a tick passes over them, and one is taken back. -/
def dinnerActs : List (Act Unit) :=
  [.call (.create idA (dinner "" "Dinner" beforeEpoch)),
    .call (.create idB (dinner "" "Supper" last)),
    .call (.update (dinner "b" "Dinner" beforeEpoch)),
    .tick unlucky ⟨60, 3600⟩ (.atTime 59 1500000000),
    .call (.update (dinner "a" "Late dinner" first)), .call (.delete "a")]

theorem isAgenda_of_mem_acts_dinnerActs :
    (StorageKind.database = .database → ∀ a ∈ dinnerActs, ∀ e ∈ a.event?, e.IsOrdinary)
      ∧ (new (.empty .database) ()).AllNew dinnerActs
      ∧ ∀ b ∈ (new (.empty .database) ()).acts dinnerActs, ∃ es, b.store.Holds es ∧ IsAgenda es :=
  have ha : StorageKind.database = .database → ∀ a ∈ dinnerActs, ∀ e ∈ a.event?, e.IsOrdinary := by
    decide
  have hnew : (new (.empty .database) ()).AllNew dinnerActs := by decide +kernel
  ⟨ha, hnew, isAgenda_of_mem_acts .database () dinnerActs ha hnew⟩

end Bench

end Datebook

import Datebook.Proofs.Stages
import Mathlib.Logic.Function.Basic

/-!
# Handles on one table

Several handles have one table open. A handle makes one call after another, but between the
statements of a call the others may have theirs carried out. What they rely on meanwhile, a
step may spare (`SparesOthers`). The log has what was answered, in the order in which calls ended;
as calls made one after another they may have another order, but not within one handle (`IsOrder`).
-/

namespace Datebook

/-- A handle: the call under way, with what is left of it, and the calls to come. -/
structure Handle where
  begun : Option (Call × EventTable.Client Reply)
  todo : List Call

namespace Handle

/-- The call that a handle goes on with, what is left of it, and the calls after it. -/
def current? (h : Handle) : Option (Call × EventTable.Client Reply × List Call) :=
  match h.begun with
  | some (c, p) => some (c, p, h.todo)
  | none => h.todo.head?.map fun c => (c, c.client, h.todo.tail)

variable {h : Handle} {c : Call} {p : EventTable.Client Reply} {todo : List Call}

theorem current?_of_begun (hb : h.begun = some (c, p)) : h.current? = some (c, p, h.todo) := by
  simp only [current?, hb]

theorem current?_of_cons (hb : h.begun = none) (hc : h.todo = c :: todo) :
    h.current? = some (c, c.client, todo) := by
  simp only [current?, hb, hc, List.head?_cons, List.tail_cons, Option.map_some]

theorem current?_of_nil (hb : h.begun = none) (hc : h.todo = []) : h.current? = none := by
  simp only [current?, hb, hc, List.head?_nil, Option.map_none]

/-- The calls of a handle that are still to be answered. -/
def pending (h : Handle) : List Call := (h.begun.map (·.1)).toList ++ h.todo

theorem pending_of_current? (hcur : h.current? = some (c, p, todo)) : h.pending = c :: todo := by
  rcases h with ⟨begun, todo'⟩
  rcases begun with _ | ⟨c', p'⟩
  · rcases todo' with _ | ⟨c', todo'⟩ <;> cases hcur
    rfl
  · cases hcur
    rfl

/-- A change to the rows spares what the call under way relies on. -/
def IsSpared (h : Handle) (before after : EventTable) : Prop :=
  ∀ x ∈ h.begun, EventTable.IsSpared before after x.2

instance (h : Handle) (before after : EventTable) : Decidable (h.IsSpared before after) :=
  inferInstanceAs (Decidable (∀ x ∈ h.begun, _))

end Handle

/-- A table that handles have open, and the calls that have been answered, the latest last. -/
structure SharedTable (ι : Type) where
  rows : EventTable
  handles : ι → Handle
  log : List (Answered ι)

namespace SharedTable

open EventTable

variable {ι : Type}

def start (rows : EventTable) (todo : ι → List Call) : SharedTable ι :=
  ⟨rows, fun i => ⟨none, todo i⟩, []⟩

/-- Every new event gets an id of its own, which no row has yet. -/
structure BringNew (rows : EventTable) (todo : ι → List Call) : Prop where
  nodup : ∀ i, (newIds (todo i)).Nodup
  disjoint : ∀ i j, i ≠ j → ∀ id ∈ newIds (todo i), id ∉ newIds (todo j)
  not_has : ∀ i, ∀ id ∈ newIds (todo i), ¬ rows.Has id

variable [DecidableEq ι]

/-- One handle has its next statement carried out, or ends a call that needs none. -/
def step (t : SharedTable ι) (i : ι) : SharedTable ι :=
  match (t.handles i).current? with
  | none => t
  | some (c, p, todo) =>
    match p.advance Statement.exec t.rows with
    | (.done r, rows) => ⟨rows, Function.update t.handles i ⟨none, todo⟩, t.log ++ [⟨i, c, r⟩]⟩
    | (p, rows) => ⟨rows, Function.update t.handles i ⟨some (c, p), todo⟩, t.log⟩

def run (t : SharedTable ι) : List ι → SharedTable ι
  | [] => t
  | i :: is => (t.step i).run is

/-- Every step spares what the calls of the other handles rely on. -/
def SparesOthers (t : SharedTable ι) : List ι → Prop
  | [] => True
  | i :: is => (∀ j, j ≠ i → (t.handles j).IsSpared t.rows (t.step i).rows)
    ∧ (t.step i).SparesOthers is

def ofHandle (i : ι) (o : List (Answered ι)) : List (Answered ι) := o.filter fun x => x.handle = i

/-- The calls that were answered, in an order that keeps that of each handle. A call under way may
be among them, with a reply that it is still to get. -/
def IsOrder (t : SharedTable ι) (o : List (Answered ι)) : Prop :=
  ∀ i, ofHandle i o = ofHandle i t.log ∨ ∃ c p r, (t.handles i).begun = some (c, p)
    ∧ ofHandle i o = ofHandle i t.log ++ [⟨i, c, r⟩]

variable {rows rows' : EventTable} {t : SharedTable ι} {i j : ι} {o o' : List (Answered ι)}
  {c : Call} {p p' : Client Reply} {r : Reply} {todo : List Call}

theorem ofHandle_append : ofHandle i (o ++ o') = ofHandle i o ++ ofHandle i o' :=
  List.filter_append ..

theorem ofHandle_self : ofHandle i [⟨i, c, r⟩] = [⟨i, c, r⟩] := by simp [ofHandle]

theorem ofHandle_of_ne (hji : j ≠ i) : ofHandle j [⟨i, c, r⟩] = [] := by
  simp [ofHandle, hji.symm]

theorem ofHandle_append_self : ofHandle i (o ++ [⟨i, c, r⟩]) = ofHandle i o ++ [⟨i, c, r⟩] := by
  rw [ofHandle_append, ofHandle_self]

theorem ofHandle_append_of_ne (hji : j ≠ i) : ofHandle j (o ++ [⟨i, c, r⟩]) = ofHandle j o := by
  rw [ofHandle_append, ofHandle_of_ne hji, List.append_nil]

theorem step_of_none (h : (t.handles i).current? = none) : t.step i = t := by
  simp only [step, h]

theorem step_of_done (h : (t.handles i).current? = some (c, p, todo))
    (hp : p.advance Statement.exec t.rows = (.done r, rows')) :
    t.step i = ⟨rows', Function.update t.handles i ⟨none, todo⟩, t.log ++ [⟨i, c, r⟩]⟩ := by
  simp only [step, h, hp]

theorem step_of_ask (h : (t.handles i).current? = some (c, p, todo))
    (hp : p.advance Statement.exec t.rows = (p', rows')) (hask : ∃ q next, p' = .ask q next) :
    t.step i = ⟨rows', Function.update t.handles i ⟨some (c, p'), todo⟩, t.log⟩ := by
  obtain ⟨q, next, rfl⟩ := hask
  simp only [step, h, hp]

theorem exists_of_step_log {x : Answered ι} (h : (t.step i).log = t.log ++ [x]) :
    ∃ p todo, (t.handles i).current? = some (x.call, p, todo)
      ∧ p.advance Statement.exec t.rows = (.done x.reply, (t.step i).rows) := by
  unfold SharedTable.step at h ⊢
  rcases hcur : (t.handles i).current? with _ | ⟨c, p, todo⟩
  · rw [hcur] at h
    simp at h
  · rw [hcur] at h
    simp only at h ⊢
    rcases hp : p.advance Statement.exec t.rows with ⟨p', rows'⟩
    rw [hp] at h
    cases p' with
    | done r =>
      simp only [List.append_cancel_left_eq, List.cons.injEq, and_true] at h ⊢
      subst h
      exact ⟨_, _, rfl, hp⟩
    | ask q next => simp at h

omit [DecidableEq ι] in
theorem BringNew.next {todo todo' : ι → List Call} (h : BringNew rows todo)
    (htodo : ∀ i, (todo' i).Sublist (todo i))
    (hrows : ∀ id, rows'.Has id → rows.Has id ∨ ∀ i, id ∉ newIds (todo' i)) :
    BringNew rows' todo' := by
  have hsub : ∀ i, (newIds (todo' i)).Sublist (newIds (todo i)) := fun i => (htodo i).filterMap _
  refine ⟨fun i => (h.nodup i).sublist (hsub i), fun i j hij id hi hj => ?_, fun i id hi hhas => ?_⟩
  · exact h.disjoint i j hij id ((hsub i).subset hi) ((hsub j).subset hj)
  · rcases hrows id hhas with hhas | hnone
    · exact h.not_has i id ((hsub i).subset hi) hhas
    · exact hnone i hi

omit [DecidableEq ι] in
theorem BringNew.of_cons {calls : ι → List Call} (h : BringNew rows calls)
    (hcalls : calls i = c :: todo) {id : String} (hid : c.newId? = some id) :
    ¬ rows.Has id ∧ id ∉ newIds todo ∧ ∀ j, j ≠ i → id ∉ newIds (calls j) := by
  have hnew : newIds (calls i) = id :: newIds todo := by
    rw [hcalls]
    exact List.filterMap_cons_some hid
  have hmem : id ∈ newIds (calls i) := hnew ▸ List.mem_cons_self
  exact ⟨h.not_has i id hmem, (List.nodup_cons.1 (hnew ▸ h.nodup i)).1,
    fun j hj => h.disjoint i j hj.symm id hmem⟩

end SharedTable

end Datebook

import Datebook.Scheduler.Cadence
import Mathlib.Logic.Function.Iterate

/-!
# The scheduler's loop

A periodic task as a loop, in which a ticker keeps the next deadline. Each turn looks at the token,
then waits for the deadline, which may have passed, or for the token, which comes first if they are
there at once, and then works. So work number `n` starts at its deadline, or when the work before it
ends if that is later, and a token that is there by then ends the loop instead
(`loop_keepsCadence`). The scheduler's ticks keep this cadence however long the surroundings take to
answer (`ticks_keepCadence`).
-/

namespace Datebook

/-- One time that a task works: its start and end, and the state before and after. -/
structure Stint (σ : Type) where
  start : Nat
  finish : Nat
  before : σ
  after : σ

/-- A loop between two turns: the time, the next deadline, the state, the stints so far, and when
the loop ended if it has. -/
structure Loop (σ : Type) where
  now : Nat
  deadline : Nat
  state : σ
  stints : List (Stint σ)
  endedAt : Option Nat

namespace Loop

variable {σ : Type}

def ofState (s : σ) : Loop σ := ⟨0, 0, s, [], none⟩

/-- The loop after a stint; the next deadline is an interval after the last. -/
def work (l : Loop σ) (interval : Nat) (st : Stint σ) : Loop σ :=
  ⟨st.finish, l.deadline + interval, st.after, l.stints ++ [st], none⟩

/-- When the loop began, and when each stint ended. -/
def ends (l : Loop σ) : List Nat := 0 :: l.stints.map (·.finish)

def progress (l : Loop σ) : Progress σ := ⟨l.stints.length, l.now, l.state⟩

theorem length_work (l : Loop σ) (interval : Nat) (st : Stint σ) :
    (l.work interval st).stints.length = l.stints.length + 1 := List.length_append ..

theorem progress_work (l : Loop σ) (interval : Nat) (st : Stint σ) :
    (l.work interval st).progress = ⟨l.stints.length + 1, st.finish, st.after⟩ := by
  rw [progress, length_work]
  rfl

theorem deadline_work {l : Loop σ} {interval : Nat} (h : l.deadline = l.stints.length * interval)
    (st : Stint σ) :
    (l.work interval st).deadline = (l.work interval st).stints.length * interval := by
  rw [length_work, Nat.add_mul, Nat.one_mul, ← h]
  rfl

theorem length_ends (l : Loop σ) : l.ends.length = l.stints.length + 1 :=
  congrArg (· + 1) (List.length_map _)

theorem ends_work (l : Loop σ) (interval : Nat) (st : Stint σ) :
    (l.work interval st).ends = l.ends ++ [st.finish] :=
  congrArg (0 :: ·) List.map_append

end Loop

namespace Periodic

variable {σ : Type} (t : Periodic σ)

/-- The stint that starts at the deadline, or at once if that has passed. -/
def stint (l : Loop σ) : Stint σ :=
  let start := max l.deadline l.now
  ⟨start, (t.work start l.state).1, l.state, (t.work start l.state).2⟩

/-- One turn: a look at the token, the wait for the ticker or the token, and the work. -/
def turn (l : Loop σ) : Loop σ :=
  if l.endedAt.isSome then l
  else if (t.cancelledAt l.state).any (· ≤ l.now) then { l with endedAt := some l.now }
  else
    match (t.cancelledAt l.state).filter (· ≤ max l.deadline l.now) with
    | some u => { l with endedAt := some u }
    | none => l.work t.interval (t.stint l)

/-- The loop after so many turns. -/
def loop (s : σ) (n : Nat) : Loop σ := t.turn^[n] (.ofState s)

/-- What a turn does: nothing once the loop has ended; else the token is there by the time at which
work would start and ends the loop, or work is done. -/
theorem turn_cases (l : Loop σ) :
    (l.endedAt ≠ none ∧ t.turn l = l)
      ∨ (l.endedAt = none ∧ ∃ u ∈ t.cancelledAt l.state, u ≤ max l.deadline l.now
        ∧ t.turn l = { l with endedAt := some (max l.now u) })
      ∨ (l.endedAt = none ∧ (∀ u ∈ t.cancelledAt l.state, max l.deadline l.now < u)
        ∧ t.turn l = l.work t.interval (t.stint l)) := by
  unfold turn
  rcases he : l.endedAt with _ | τ
  · rcases hc : t.cancelledAt l.state with _ | u
    · exact .inr (.inr ⟨rfl, nofun, rfl⟩)
    by_cases hnow : u ≤ l.now
    · refine .inr (.inl ⟨rfl, u, rfl, by omega, ?_⟩)
      rw [Option.any_some, decide_eq_true hnow, Nat.max_eq_left hnow]
      rfl
    have hany : (some u).any (· ≤ l.now) = false := decide_eq_false hnow
    by_cases hstart : u ≤ max l.deadline l.now
    · have hfilter : (some u).filter (· ≤ max l.deadline l.now) = some u :=
        Option.filter_some_pos (decide_eq_true hstart)
      refine .inr (.inl ⟨rfl, u, rfl, hstart, ?_⟩)
      rw [hany, hfilter, Nat.max_eq_right (Nat.le_of_not_le hnow)]
      rfl
    · have hfilter : (some u).filter (· ≤ max l.deadline l.now) = none :=
        Option.filter_some_neg (decide_eq_false hstart)
      refine .inr (.inr ⟨rfl, fun v hv => ?_, ?_⟩)
      · rw [← Option.some.inj hv]
        exact Nat.lt_of_not_le hstart
      · rw [hany, hfilter]
        rfl
  · exact .inl ⟨nofun, rfl⟩

variable {t} {s : σ} {l : Loop σ}

theorem loop_succ (n : Nat) : t.loop s (n + 1) = t.turn (t.loop s n) :=
  Function.iterate_succ_apply' ..

theorem turn_of_ended (h : l.endedAt ≠ none) : t.turn l = l := by
  rcases t.turn_cases l with ⟨-, heq⟩ | ⟨hnone, -⟩ | ⟨hnone, -⟩
  · exact heq
  · exact absurd hnone h
  · exact absurd hnone h

theorem loop_of_ended {n m : Nat} (h : (t.loop s n).endedAt ≠ none) (hm : n ≤ m) :
    t.loop s m = t.loop s n := by
  obtain ⟨k, rfl⟩ := Nat.exists_eq_add_of_le' hm
  unfold loop at h ⊢
  rw [Function.iterate_add_apply, Function.iterate_fixed (turn_of_ended h)]

/-- Each turn works until the loop has ended. -/
theorem length_loop : ∀ n : Nat, (t.loop s n).endedAt = none → (t.loop s n).stints.length = n
  | 0, _ => rfl
  | n + 1, h => by
    rw [loop_succ] at h ⊢
    rcases t.turn_cases (t.loop s n) with ⟨hne, heq⟩ | ⟨-, u, -, -, heq⟩ | ⟨hnone, -, heq⟩ <;>
      rw [heq] at h ⊢
    · exact absurd h hne
    · exact nomatch h
    · exact (List.length_append ..).trans (congrArg (· + 1) (length_loop n hnone))

theorem next?_of_fired {p : Progress σ} {u : Nat} (hu : u ∈ t.cancelledAt p.state)
    (hle : u ≤ t.nextStart p) : t.next? p = none := by
  unfold next?
  rw [Option.mem_def.1 hu]
  exact if_pos (decide_eq_true hle)

theorem next?_of_clear {p : Progress σ} (h : ∀ u ∈ t.cancelledAt p.state, t.nextStart p < u) :
    t.next? p = some ⟨p.runs + 1, (t.work (t.nextStart p) p.state).1,
      (t.work (t.nextStart p) p.state).2⟩ := by
  unfold next?
  rcases hc : t.cancelledAt p.state with _ | u
  · rfl
  · exact if_neg (by simpa using h u hc)

/-- The turns of the loop are the runs of the task. -/
theorem run_progress : ∀ (n : Nat) {l : Loop σ}, l.endedAt = none →
    l.deadline = l.stints.length * t.interval → t.run n l.progress = (t.turn^[n] l).progress
  | 0, _, _, _ => rfl
  | n + 1, l, hnone, hdeadline => by
    have hstart : t.nextStart l.progress = max l.deadline l.now := by rw [hdeadline]; rfl
    rw [Function.iterate_succ_apply, run]
    rcases t.turn_cases l with ⟨hne, -⟩ | ⟨-, u, hu, hle, heq⟩ | ⟨-, hclear, heq⟩
    · exact absurd hnone hne
    · have hended : t.turn^[n] (t.turn l) = t.turn l :=
        Function.iterate_fixed (turn_of_ended (by rw [heq]; nofun)) n
      rw [next?_of_fired hu (hstart ▸ hle), hended, heq]
      rfl
    · have hnext : t.next? l.progress = some (t.turn l).progress := by
        rw [next?_of_clear (hstart ▸ hclear), hstart, heq, Loop.progress_work]
        rfl
      rw [hnext]
      exact run_progress n (by rw [heq]; rfl) (heq ▸ Loop.deadline_work hdeadline _)

/-- No work ends before it starts. -/
def IsForward (t : Periodic σ) : Prop := ∀ start s, start ≤ (t.work start s).1

/-- Each stint has started at its deadline, or at the end of the one before it if that is later,
before the token was there, and has ended before the next one starts; every stint has had a deadline
of its own, and has gone on from what the one before it left. If the loop has ended, the token was
there by the time at which a further stint would have started. -/
structure KeepsCadence (t : Periodic σ) (s : σ) (l : Loop σ) : Prop where
  deadline : l.deadline = l.stints.length * t.interval
  now : l.ends[l.stints.length]? = some l.now
  start : ∀ i st, l.stints[i]? = some st →
    ∃ e, l.ends[i]? = some e ∧ st.start = max (i * t.interval) e
  clear : ∀ st ∈ l.stints, ∀ u ∈ t.cancelledAt st.before, st.start < u
  finish : ∀ st ∈ l.stints, st.start ≤ st.finish ∧ st.finish ≤ l.now
  pairwise : l.stints.Pairwise fun a b => a.finish ≤ b.start
  work : ∀ st ∈ l.stints, t.work st.start st.before = (st.finish, st.after)
  states : l.stints.map (·.before) ++ [l.state] = s :: l.stints.map (·.after)
  ended : ∀ τ ∈ l.endedAt, ∃ u ∈ t.cancelledAt l.state,
    u ≤ max (l.stints.length * t.interval) l.now ∧ τ = max l.now u

theorem KeepsCadence.next (h : t.KeepsCadence s l) (hforward : t.IsForward)
    (hclear : ∀ u ∈ t.cancelledAt l.state, max l.deadline l.now < u) :
    t.KeepsCadence s (l.work t.interval (t.stint l)) where
  deadline := Loop.deadline_work h.deadline _
  now := by
    have hlength : l.ends.length = l.stints.length + 1 := l.length_ends
    rw [Loop.ends_work, Loop.length_work, ← hlength, List.getElem?_concat_length]
    rfl
  start := by
    intro i st hst
    rw [Loop.ends_work]
    rcases Nat.lt_trichotomy i l.stints.length with hi | rfl | hi
    · rw [Loop.work, List.getElem?_append_left hi] at hst
      obtain ⟨e, he, heq⟩ := h.start i st hst
      refine ⟨e, ?_, heq⟩
      rw [List.getElem?_append_left (by rw [Loop.length_ends]; omega), he]
    · rw [Loop.work, List.getElem?_concat_length] at hst
      refine ⟨l.now, ?_, ?_⟩
      · rw [List.getElem?_append_left (by rw [Loop.length_ends]; omega), h.now]
      · rw [← Option.some.inj hst, ← h.deadline]
        rfl
    · rw [List.getElem?_eq_none (by rw [Loop.length_work]; omega)] at hst
      exact nomatch hst
  clear := List.forall_mem_append.2 ⟨h.clear, List.forall_mem_singleton.2 hclear⟩
  finish := by
    have hnow : l.now ≤ (t.stint l).start := Nat.le_max_right ..
    have hfinish : (t.stint l).start ≤ (t.stint l).finish := hforward ..
    refine List.forall_mem_append.2
      ⟨fun st hst => ?_, List.forall_mem_singleton.2 ⟨hfinish, Nat.le_refl _⟩⟩
    obtain ⟨hle, hle'⟩ := h.finish st hst
    exact ⟨hle, Nat.le_trans hle' (Nat.le_trans hnow hfinish)⟩
  pairwise := by
    refine List.pairwise_append.2 ⟨h.pairwise, List.pairwise_singleton .., fun a ha b hb => ?_⟩
    rw [List.mem_singleton.1 hb]
    exact Nat.le_trans (h.finish a ha).2 (Nat.le_max_right ..)
  work := List.forall_mem_append.2 ⟨h.work, List.forall_mem_singleton.2 rfl⟩
  states := by
    have heq := congrArg (· ++ [(t.stint l).after]) h.states
    simpa [Loop.work, stint] using heq
  ended := nofun

theorem loop_keepsCadence (hforward : t.IsForward) (s : σ) :
    ∀ n : Nat, t.KeepsCadence s (t.loop s n)
  | 0 => ⟨(Nat.zero_mul _).symm, rfl, nofun, nofun, nofun, .nil, nofun, rfl, nofun⟩
  | n + 1 => by
    have h := loop_keepsCadence hforward s n
    rw [loop_succ]
    rcases t.turn_cases (t.loop s n) with ⟨-, heq⟩ | ⟨-, u, hu, hle, heq⟩ | ⟨-, hclear, heq⟩ <;>
      rw [heq]
    · exact h
    · refine { h with ended := fun τ hτ => ⟨u, hu, h.deadline ▸ hle, (Option.some.inj hτ).symm⟩ }
    · exact h.next hforward hclear

theorem run_eq_progress (s : σ) (n : Nat) : t.run n ⟨0, 0, s⟩ = (t.loop s n).progress :=
  run_progress n (l := .ofState s) rfl (Nat.zero_mul _).symm

theorem KeepsCadence.stopTime_eq (h : t.KeepsCadence s l) {τ : Nat} (hτ : τ ∈ l.endedAt) :
    t.stopTime l.progress = τ := by
  obtain ⟨u, hu, -, rfl⟩ := h.ended τ hτ
  unfold stopTime
  rw [Loop.progress, Option.mem_def.1 hu, Option.getD_some]

end Periodic

section Ticks

variable {σ : Type} {countsPerMilli : Nat} {s : SchedulerSettings} {wall : Nat → Instant}
variable {answer : (r : Request) → Nat × σ → r.Answer × Nat × σ} {cancelledAt : σ → Option Nat}

/-- Ticks whose answers take no negative time end no earlier than they start. -/
theorem isForward_periodicTicks (h : ∀ r p, p.1 ≤ (answer r p).2.1) :
    (periodicTicks countsPerMilli s wall answer cancelledAt).IsForward := by
  intro start state
  refine Script.run_keeps (S := fun _ => True) (P := fun p : Nat × σ => start ≤ p.1) ?_
    (Script.asks_true _) (Nat.le_refl start)
  intro r _ p hp
  exact Nat.le_trans hp (h r p)

end Ticks

/-- How the surroundings of a tick answer its requests, as of a time and a state, and how long they
take. -/
structure Answering (σ : Type) where
  answer : (r : Request) → Nat → σ → r.Answer × σ
  takes : Request → Nat → σ → Nat

namespace Answering

variable {σ : Type} (w : Answering σ) (settings : SchedulerSettings) (wall : Nat → Instant)
  (token : Option Nat)

/-- Answers a request and lets the time pass. -/
def timed (r : Request) (p : Nat × σ) : r.Answer × (Nat × σ) :=
  ((w.answer r p.1 p.2).1, p.1 + w.takes r p.1 p.2, (w.answer r p.1 p.2).2)

/-- The scheduler's ticks, in nanoseconds, each as of the wall clock's instant at its start. -/
def ticks : Periodic σ := periodicTicks 1000000 settings wall w.timed fun _ => token

/-- The stint is a tick that has made both its passes, the second where the first has ended. -/
def IsWhole (st : Stint σ) : Prop :=
  ∃ counts between deleted,
    (Tick.notifyPass settings (wall st.start)).run w.timed (st.start, st.before) = (counts, between)
      ∧ (Tick.cleanupPass settings (wall st.start)).run w.timed between
        = (deleted, st.finish, st.after)
      ∧ (tick settings (wall st.start)).run w.timed (st.start, st.before)
        = (⟨counts.1, counts.2, deleted⟩, st.finish, st.after)

theorem isForward_ticks : (w.ticks settings wall token).IsForward :=
  isForward_periodicTicks fun _ _ => Nat.le_add_right ..

theorem run_tick (now : Instant) (p : Nat × σ) :
    (tick settings now).run w.timed p =
      let notified := (Tick.notifyPass settings now).run w.timed p
      let cleaned := (Tick.cleanupPass settings now).run w.timed notified.2
      (⟨notified.1.1, notified.1.2, cleaned.1⟩, cleaned.2) := by
  unfold tick
  simp only [Script.run_bind, Script.run_pure]

variable {w settings wall token}

theorem isWhole_of_work {st : Stint σ}
    (h : (w.ticks settings wall token).work st.start st.before = (st.finish, st.after)) :
    w.IsWhole settings wall st := by
  have hrun := w.run_tick settings (wall st.start) (st.start, st.before)
  have hstate := (congrArg Prod.snd hrun).symm.trans h
  refine ⟨_, _, _, rfl, Prod.ext rfl hstate, hrun.trans (Prod.ext rfl hstate)⟩

/-- A token that is there by some deadline has ended the loop at it. -/
theorem ended_of_lt {s : σ} {n u : Nat} (hu : u ∈ token) (hn : u < n) :
    ((w.ticks settings wall token).loop s n).endedAt ≠ none := by
  intro hnone
  have hlaw := Periodic.loop_keepsCadence (w.isForward_ticks settings wall token) s n
  have hlength := Periodic.length_loop n hnone
  have hget := List.getElem?_eq_getElem (hlength ▸ hn)
  obtain ⟨e, -, hstart⟩ := hlaw.start u _ hget
  have hclear := hlaw.clear _ (List.mem_of_getElem? hget) u hu
  have hinterval : 1 ≤ (w.ticks settings wall token).interval := by
    have hmillis : 1 ≤ settings.intervalMillis := Nat.le_max_right ..
    exact Nat.mul_pos hmillis (by decide)
  have hle : u ≤ u * (w.ticks settings wall token).interval := Nat.le_mul_of_pos_right u hinterval
  rw [hstart] at hclear
  exact Nat.lt_irrefl u (Nat.lt_of_le_of_lt (Nat.le_trans hle (Nat.le_max_left ..)) hclear)

/-- However long the surroundings take to answer, what the wall clock shows and whenever the token
comes, the scheduler's ticks keep the cadence and are whole, also if the token comes during one.
Unless the loop has ended each turn makes a tick; an ended loop makes no more. It ends if there is a
token, and without any tick if the token is there at the start. -/
theorem ticks_keepCadence (w : Answering σ) (settings : SchedulerSettings) (wall : Nat → Instant)
    (token : Option Nat) (s : σ) (n : Nat) :
    let t := w.ticks settings wall token
    let l := t.loop s n
    t.KeepsCadence s l
      ∧ (∀ st ∈ l.stints, w.IsWhole settings wall st)
      ∧ (l.endedAt = none → l.stints.length = n)
      ∧ (l.endedAt ≠ none → ∀ m ≥ n, t.loop s m = l)
      ∧ (∀ u ∈ token, u < n → l.endedAt ≠ none)
      ∧ (0 ∈ token → l.stints = [])
      ∧ t.run n ⟨0, 0, s⟩ = l.progress
      ∧ ∀ τ ∈ l.endedAt, t.stopTime l.progress = τ := by
  intro t l
  have hlaw : t.KeepsCadence s l :=
    Periodic.loop_keepsCadence (w.isForward_ticks settings wall token) s n
  refine ⟨hlaw, fun st hst => isWhole_of_work (hlaw.work st hst), Periodic.length_loop n,
    fun hended m hm => Periodic.loop_of_ended hended hm, fun u hu hn => ended_of_lt hu hn,
    fun hzero => ?_, Periodic.run_eq_progress s n, fun τ hτ => hlaw.stopTime_eq hτ⟩
  refine List.eq_nil_iff_forall_not_mem.2 fun st hst => ?_
  exact Nat.not_lt_zero _ (hlaw.clear st hst 0 hzero)

end Answering

end Datebook

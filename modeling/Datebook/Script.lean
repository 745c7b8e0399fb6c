/-!
# Scripts

A program that is stopped at every question it asks of its surroundings, so that it can be run by
any of them, or one question at a time with other work in between. `run` answers all questions from
one state. What a program asks (`Asks`) tells what its run leaves alone (`run_keeps`).
-/

namespace Datebook

/-- A program whose questions are in `Q`, each with its own type of answers. -/
inductive Script (Q : Type) (A : Q → Type) (α : Type)
  | done (a : α)
  | ask (q : Q) (next : A q → Script Q A α)

namespace Script

variable {Q : Type} {A : Q → Type} {α β σ : Type}

def bind : Script Q A α → (α → Script Q A β) → Script Q A β
  | .done a, f => f a
  | .ask q next, f => .ask q fun a => (next a).bind f

instance : Monad (Script Q A) where
  pure := .done
  bind := bind

/-- The program of one question. -/
def query (q : Q) : Script Q A (A q) := .ask q .done

/-- Runs a program against a state that answers its questions. -/
def run (answer : (q : Q) → σ → A q × σ) : Script Q A α → σ → α × σ
  | .done a, s => (a, s)
  | .ask q next, s => ((next (answer q s).1).run answer) (answer q s).2

/-- Answers the next question, if there is one. -/
def advance (answer : (q : Q) → σ → A q × σ) : Script Q A α → σ → Script Q A α × σ
  | .done a, s => (.done a, s)
  | .ask q next, s => (next (answer q s).1, (answer q s).2)

theorem run_advance (answer : (q : Q) → σ → A q × σ) (p : Script Q A α) (s : σ) :
    (p.advance answer s).1.run answer (p.advance answer s).2 = p.run answer s := by
  cases p <;> rfl

@[simp] theorem run_pure (answer : (q : Q) → σ → A q × σ) (a : α) (s : σ) :
    (pure a : Script Q A α).run answer s = (a, s) := rfl

@[simp] theorem run_query (answer : (q : Q) → σ → A q × σ) (q : Q) (s : σ) :
    (query q).run answer s = answer q s := rfl

@[simp] theorem run_bind (answer : (q : Q) → σ → A q × σ) (p : Script Q A α)
    (f : α → Script Q A β) (s : σ) :
    (p >>= f).run answer s = (f (p.run answer s).1).run answer (p.run answer s).2 := by
  induction p generalizing s with
  | done a => rfl
  | ask q next ih => exact ih _ _

@[simp] theorem run_map (answer : (q : Q) → σ → A q × σ) (p : Script Q A α) (f : α → β) (s : σ) :
    (f <$> p).run answer s = (f (p.run answer s).1, (p.run answer s).2) :=
  run_bind answer p (fun a => pure (f a)) s

/-- Whatever the answers are, every question is one of these. -/
def Asks (S : Q → Prop) : Script Q A α → Prop
  | .done _ => True
  | .ask q next => S q ∧ ∀ a, (next a).Asks S

variable {S : Q → Prop}

theorem asks_true : ∀ p : Script Q A α, p.Asks fun _ => True
  | .done _ => trivial
  | .ask _ next => ⟨trivial, fun a => (next a).asks_true⟩

theorem asks_pure (a : α) : (pure a : Script Q A α).Asks S := trivial

theorem asks_query_bind {q : Q} (h : S q) {f : A q → Script Q A α} (hf : ∀ a, (f a).Asks S) :
    (query q >>= f).Asks S := ⟨h, hf⟩

theorem Asks.bind {p : Script Q A α} (hp : p.Asks S) {f : α → Script Q A β}
    (hf : ∀ a, (f a).Asks S) : (p >>= f).Asks S := by
  induction p with
  | done a => exact hf a
  | ask q next ih => exact ⟨hp.1, fun a => ih a (hp.2 a)⟩

theorem Asks.imp {T : Q → Prop} {p : Script Q A α} (hp : p.Asks S) (h : ∀ q, S q → T q) :
    p.Asks T := by
  induction p with
  | done a => trivial
  | ask q next ih => exact ⟨h q hp.1, fun a => ih a (hp.2 a)⟩

/-- What the answers to its questions keep is kept by the whole program. -/
theorem run_keeps {answer : (q : Q) → σ → A q × σ} {P : σ → Prop}
    (h : ∀ q, S q → ∀ s, P s → P (answer q s).2) {p : Script Q A α} (hp : p.Asks S) {s : σ}
    (hs : P s) : P (p.run answer s).2 := by
  induction p generalizing s with
  | done a => exact hs
  | ask q next ih => exact ih _ (hp.2 _) (h q hp.1 s hs)

/-- States that are mapped to others, where every question is answered alike, lead to the same. -/
theorem run_of_map {τ : Type} {answer : (q : Q) → σ → A q × σ} {answer' : (q : Q) → τ → A q × τ}
    {f : τ → σ} (h : ∀ q t, answer q (f t) = ((answer' q t).1, f (answer' q t).2))
    (p : Script Q A α) (t : τ) :
    p.run answer (f t) = ((p.run answer' t).1, f (p.run answer' t).2) := by
  induction p generalizing t with
  | done a => rfl
  | ask q next ih =>
    unfold run
    rw [h]
    exact ih _ _

end Script

end Datebook

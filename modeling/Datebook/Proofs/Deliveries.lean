import Datebook.Broker.Queue
import Mathlib.Data.List.Basic
import Mathlib.Tactic.SplitIfs

/-!
# What a queue delivers

A queue under any actions of its clients in any order, of which a turn of the delivery loop is one,
and the record of what was done and how it was answered. Every action keeps to one of five stages
of the receiving end (`Stage.step`), which say how far the notifications have come: what was
received, what waits to be received and what the messages still carry is, in this order, what was
published (`Stage.delivering`).

So after any run the queue keeps to its protocol (`run_keepsProtocol`): one consumer and one
subscription, sends that succeed exactly if they can be received, and notifications in order
without a gap, all of them if the queue is shut down and the consumer left alone.
-/

namespace Datebook

def Message.notification? (m : Message) : Option Notification := Notification.ofOctets? m.payload

namespace Queue

/-- What was done, in order, and how it was answered. -/
abbrev Record := List (Action × Except BrokerError Answer)

def run (q : Queue) : List Action → Record × Queue
  | [] => ([], q)
  | a :: as => ((a, (q.step a).1) :: ((q.step a).2.run as).1, ((q.step a).2.run as).2)

/-- Keeps a consumer from being handed all by its subscription. -/
def Action.Disturbs (c : String) (k : Nat) : Action → Prop
  | .closeConsumer d => d = c
  | .cancel j => j = k
  | .drop j => j = k
  | _ => False

namespace Record

/-- The messages that the queue took. -/
def published (l : Record) : List Message :=
  l.filterMap fun
    | (.send _ n, .ok _) => some ⟨n.userId, n.payload⟩
    | (.publish m, .ok _) => some m
    | _ => none

def decoded (l : Record) : List Notification := l.published.filterMap Message.notification?

def received (l : Record) : List Notification :=
  l.filterMap fun
    | (_, .ok (.received (.notification n))) => some n
    | _ => none

/-- The consumers that got hold of the receiving end. -/
def claimants (l : Record) : List String :=
  l.filterMap fun
    | (.connectConsumer c, .ok _) => some c
    | _ => none

/-- The consumers that got a subscription, and its number. -/
def subscribers (l : Record) : List (String × Nat) :=
  l.filterMap fun
    | (.consume c _, .ok (.subscribed k)) => some (c, k)
    | _ => none

def IsShutDown (l : Record) : Prop := ∃ x ∈ l, x.1 = .shutdown

/-- Something began it, and no action since has ended it. -/
def Since (begins : Action × Except BrokerError Answer → Prop) (ends : Action → Prop)
    (l : Record) : Prop :=
  ∃ l₁ x l₂, l = l₁ ++ x :: l₂ ∧ begins x ∧ ∀ y ∈ l₂, ¬ ends y.1

def IsConnected (p : String) : Record → Prop :=
  Since (fun x => ∃ r, x = (.connectProducer p, .ok r)) (· = .closeProducer p)

/-- The consumer got this subscription, not cancelled, and nothing has disturbed it since. -/
def IsLeftAlone (c : String) (k : Nat) : Record → Prop :=
  Since (· = (.consume c false, .ok (.subscribed k))) (Action.Disturbs c k)

variable (l : Record) (x : Action × Except BrokerError Answer)

theorem published_concat : published (l ++ [x]) = l.published ++ published [x] :=
  List.filterMap_append

theorem decoded_concat : decoded (l ++ [x]) = l.decoded ++ decoded [x] := by
  unfold decoded
  rw [published_concat, List.filterMap_append]

theorem received_concat : received (l ++ [x]) = l.received ++ received [x] :=
  List.filterMap_append

theorem claimants_concat : claimants (l ++ [x]) = l.claimants ++ claimants [x] :=
  List.filterMap_append

theorem subscribers_concat : subscribers (l ++ [x]) = l.subscribers ++ subscribers [x] :=
  List.filterMap_append

theorem isShutDown_concat : IsShutDown (l ++ [x]) ↔ l.IsShutDown ∨ x.1 = .shutdown := by
  unfold IsShutDown
  simp [or_and_right, exists_or]

theorem since_concat {begins : Action × Except BrokerError Answer → Prop} {ends : Action → Prop} :
    Since begins ends (l ++ [x]) ↔ begins x ∨ l.Since begins ends ∧ ¬ ends x.1 := by
  constructor
  · rintro ⟨l₁, y, l₂, h, hy, hl⟩
    rcases List.eq_nil_or_concat l₂ with rfl | ⟨l₂, z, rfl⟩
    · obtain ⟨-, hx⟩ := List.append_inj' h rfl
      obtain rfl := List.singleton_inj.1 hx
      exact .inl hy
    · rw [List.concat_eq_append, ← List.cons_append, ← List.append_assoc] at h
      obtain ⟨rfl, hx⟩ := List.append_inj' h rfl
      obtain rfl := List.singleton_inj.1 hx
      rw [List.concat_eq_append, List.forall_mem_append] at hl
      exact .inr ⟨⟨l₁, y, l₂, rfl, hy, hl.1⟩, hl.2 x (List.mem_singleton_self x)⟩
  · rintro (hx | ⟨⟨l₁, y, l₂, rfl, hy, hl⟩, hx⟩)
    · exact ⟨l, x, [], rfl, hx, by simp⟩
    · refine ⟨l₁, y, l₂ ++ [x], by simp, hy, ?_⟩
      exact List.forall_mem_append.2 ⟨hl, List.forall_mem_singleton.2 hx⟩

theorem mem_subscribers_of_isLeftAlone {l : Record} {c : String} {k : Nat}
    (h : l.IsLeftAlone c k) : (c, k) ∈ l.subscribers := by
  obtain ⟨l₁, x, l₂, rfl, rfl, -⟩ := h
  simp [subscribers]

end Record

section Actions

variable (q : Queue)

theorem publish_cases (m : Message) :
    (q.isOpen = true ∧ q.receiver ≠ .gone
        ∧ q.publish m = (.ok (), { q with messages := q.messages ++ [m] }))
      ∨ (¬ (q.isOpen = true ∧ q.receiver ≠ .gone) ∧ ∃ e, q.publish m = (.error e, q)) := by
  unfold publish
  by_cases ho : q.isOpen
  · by_cases hr : q.receiver = .gone
    · exact .inr ⟨fun h => h.2 hr, .send "no subscriber queue", by simp [ho, hr]⟩
    · exact .inl ⟨ho, hr, by simp [ho, hr]⟩
  · exact .inr ⟨fun h => ho h.1, .send "broker is shut down", by simp [ho]⟩

theorem send_cases (p : String) (n : Notification) :
    (p ∈ q.producers ∧ q.isOpen = true ∧ q.receiver ≠ .gone
        ∧ q.send p n = (.ok (), { q with messages := q.messages ++ [⟨n.userId, n.payload⟩] }))
      ∨ (¬ (p ∈ q.producers ∧ q.isOpen = true ∧ q.receiver ≠ .gone)
        ∧ ∃ e, q.send p n = (.error e, q)) := by
  unfold send
  by_cases hp : p ∈ q.producers
  · rw [if_pos (List.contains_iff_mem.2 hp)]
    rcases q.publish_cases ⟨n.userId, n.payload⟩ with ⟨ho, hr, h⟩ | ⟨hno, h⟩
    · exact .inl ⟨hp, ho, hr, h⟩
    · exact .inr ⟨fun h => hno h.2, h⟩
  · exact .inr ⟨fun h => hp h.1, _, if_neg fun h => hp (List.contains_iff_mem.1 h)⟩

theorem connectProducer_cases (p : String) :
    (q.isOpen = true
        ∧ q.connectProducer p = (.ok (), { q with producers := p :: q.producers }))
      ∨ (q.isOpen = false ∧ ∃ e, q.connectProducer p = (.error e, q)) := by
  unfold connectProducer
  by_cases ho : q.isOpen
  · exact .inl ⟨ho, if_pos ho⟩
  · exact .inr ⟨by simpa using ho, _, if_neg ho⟩

theorem connectConsumer_cases (c : String) :
    ((q.receiver = .free ∨ q.receiver = .claimed c)
        ∧ q.connectConsumer c = (.ok (), { q with receiver := .claimed c }))
      ∨ (q.receiver ≠ .free ∧ q.receiver ≠ .claimed c
        ∧ ∃ e, q.connectConsumer c = (.error e, q)) := by
  unfold connectConsumer
  by_cases hc : q.receiver = .claimed c
  · exact .inl ⟨.inr hc, by rw [if_pos hc, ← hc]⟩
  · by_cases hf : q.receiver = .free
    · exact .inl ⟨.inl hf, by rw [if_neg hc, if_pos hf]⟩
    · exact .inr ⟨hf, hc, _, by rw [if_neg hc, if_neg hf]⟩

theorem consume_cases (c : String) (isCancelled : Bool) :
    (q.receiver = .claimed c ∧ q.consume c isCancelled = (.ok q.subscriptions.length,
        { q with
          receiver := .delivering c q.subscriptions.length
          subscriptions := q.subscriptions ++ [⟨[], true, isCancelled, false⟩] }))
      ∨ (q.receiver ≠ .claimed c ∧ q.consume c isCancelled = (.error .notConnected, q)) := by
  unfold consume
  by_cases hc : q.receiver = .claimed c
  · exact .inl ⟨hc, if_pos hc⟩
  · exact .inr ⟨hc, if_neg hc⟩

/-- The delivery loop waits, or ends, or is done with the first message. -/
theorem deliver?_cases (o : Bool) (ms : List Message) (c : String) (ps : List String)
    (s : Subscription) :
    (deliver? ⟨o, ms, .delivering c 0, ps, [s]⟩ = none
        ∧ o = true ∧ ms = [] ∧ s.isCancelled = false)
      ∨ (deliver? ⟨o, ms, .delivering c 0, ps, [s]⟩
          = some ⟨o, [], .gone, ps, [{ s with isEnded := true }]⟩
        ∧ (s.isHeld = true → s.isCancelled = false → o = false ∧ ms = []))
      ∨ ∃ m rest, ms = m :: rest ∧ (s.isHeld = true ∨ m.notification? = none)
        ∧ s.isCancelled = false
        ∧ deliver? ⟨o, ms, .delivering c 0, ps, [s]⟩ = some ⟨o, rest, .delivering c 0, ps,
          [{ s with waiting := s.waiting ++ m.notification?.toList }]⟩ := by
  obtain ⟨waiting, isHeld, isCancelled, isEnded⟩ := s
  cases isCancelled with
  | true => exact .inr (.inl ⟨by simp [deliver?, endDelivery, modify], by simp⟩)
  | false =>
    rcases ms with _ | ⟨m, rest⟩
    · cases o with
      | true => exact .inl ⟨by simp [deliver?], rfl, rfl, rfl⟩
      | false => exact .inr (.inl ⟨by simp [deliver?, endDelivery, modify], fun _ _ => ⟨rfl, rfl⟩⟩)
    · rcases hn : m.notification? with _ | n
      · have hm : Notification.ofOctets? m.payload = none := hn
        exact .inr (.inr ⟨m, rest, rfl, .inr hn, rfl, by simp [deliver?, hm, hn]⟩)
      · have hm : Notification.ofOctets? m.payload = some n := hn
        cases isHeld with
        | true =>
          exact .inr (.inr ⟨m, rest, rfl, .inl rfl, rfl, by simp [deliver?, hm, hn, modify]⟩)
        | false =>
          exact .inr (.inl ⟨by simp [deliver?, hm, endDelivery, modify], by simp⟩)

theorem step_frame {a : Action} (hconnect : ∀ p, a ≠ .connectProducer p)
    (hclose : ∀ p, a ≠ .closeProducer p) (hshutdown : a ≠ .shutdown) :
    (q.step a).2.isOpen = q.isOpen ∧ (q.step a).2.producers = q.producers := by
  cases a with
  | connectProducer p => exact absurd rfl (hconnect p)
  | closeProducer p => exact absurd rfl (hclose p)
  | shutdown => exact absurd rfl hshutdown
  | send p n =>
    rcases q.send_cases p n with ⟨-, -, -, h⟩ | ⟨-, e, h⟩ <;> simp [step, h]
  | publish m =>
    rcases q.publish_cases m with ⟨-, -, h⟩ | ⟨-, e, h⟩ <;> simp [step, h]
  | connectConsumer c =>
    rcases q.connectConsumer_cases c with ⟨-, h⟩ | ⟨-, -, e, h⟩ <;> simp [step, h]
  | consume c isCancelled =>
    rcases q.consume_cases c isCancelled with ⟨-, h⟩ | ⟨-, h⟩ <;> simp [step, h]
  | closeConsumer c =>
    simp only [step, closeConsumer]
    split
    · split_ifs <;> exact ⟨rfl, rfl⟩
    · split_ifs <;> exact ⟨rfl, rfl⟩
    · exact ⟨rfl, rfl⟩
  | receive k =>
    simp only [step, receive]
    split
    · exact ⟨rfl, rfl⟩
    · split <;> exact ⟨rfl, rfl⟩
  | cancel k => exact ⟨rfl, rfl⟩
  | drop k => exact ⟨rfl, rfl⟩
  | deliver =>
    simp only [step, deliver?]
    repeat' split
    all_goals exact ⟨rfl, rfl⟩

end Actions

section Standing

variable {l : Record} {q : Queue}

/-- The record tells whether the queue is open and who its producers are. -/
structure Standing (l : Record) (q : Queue) : Prop where
  isOpen : q.isOpen = true ↔ ¬ l.IsShutDown
  producers : ∀ p, p ∈ q.producers ↔ l.IsConnected p

theorem standing_empty : Standing [] empty := by
  refine ⟨by simp [empty, Record.IsShutDown], fun p => ?_⟩
  simp [empty, Record.IsConnected, Record.Since]

theorem Standing.step (h : Standing l q) (a : Action) :
    Standing (l ++ [(a, (q.step a).1)]) (q.step a).2 := by
  refine ⟨?_, fun p => ?_⟩
  · rw [Record.isShutDown_concat, not_or, ← h.isOpen]
    cases a with
    | connectProducer p =>
      rcases q.connectProducer_cases p with ⟨-, hc⟩ | ⟨-, e, hc⟩ <;> simp [Queue.step, hc]
    | closeProducer p => simp [Queue.step, closeProducer]
    | shutdown => simp [Queue.step, shutdown]
    | _ => simp [q.step_frame]
  · rw [Record.IsConnected, Record.since_concat, ← Record.IsConnected, ← h.producers]
    cases a with
    | connectProducer r =>
      rcases q.connectProducer_cases r with ⟨-, hc⟩ | ⟨-, e, hc⟩
      · simp [Queue.step, hc, Except.map, eq_comm]
      · simp [Queue.step, hc, Except.map]
    | closeProducer r =>
      rcases eq_or_ne p r with rfl | hne
      · simp [Queue.step, closeProducer]
      · simp [Queue.step, closeProducer, hne, hne.symm]
    | shutdown => simp [Queue.step, shutdown]
    | _ => simp [q.step_frame]

end Standing

section Stages

variable {l : Record} {q : Queue}

/-- What the one consumer that got a subscription got of it, and what still waits in it. -/
structure Flows (l : Record) (c : String) (s : Subscription) : Prop where
  claimants : ∀ d ∈ l.claimants, d = c
  subscribers : l.subscribers = [(c, 0)]
  received : l.received ++ s.waiting <+: l.decoded
  leftAlone : l.IsLeftAlone c 0 → s.isHeld = true ∧ s.isCancelled = false

/-- Where the receiving end is, and how far the notifications have come. -/
inductive Stage (l : Record) : Queue → Prop
  | free {o : Bool} {ms : List Message} {ps : List String} (hclaimants : l.claimants = [])
      (hsubscribers : l.subscribers = []) (hreceived : l.received = [])
      (hall : ms.filterMap Message.notification? = l.decoded) : Stage l ⟨o, ms, .free, ps, []⟩
  | claimed {o : Bool} {ms : List Message} {ps : List String} {c : String}
      (hclaimants : ∀ d ∈ l.claimants, d = c) (hsubscribers : l.subscribers = [])
      (hreceived : l.received = []) (hall : ms.filterMap Message.notification? = l.decoded) :
      Stage l ⟨o, ms, .claimed c, ps, []⟩
  | closed {o : Bool} {ps : List String} {c : String} (hclaimants : ∀ d ∈ l.claimants, d = c)
      (hsubscribers : l.subscribers = []) (hreceived : l.received = []) :
      Stage l ⟨o, [], .gone, ps, []⟩
  | delivering {o : Bool} {ms : List Message} {ps : List String} {c : String} {s : Subscription}
      (hflows : Flows l c s) (hended : s.isEnded = false)
      (hall : s.isHeld = true →
        l.received ++ s.waiting ++ ms.filterMap Message.notification? = l.decoded) :
      Stage l ⟨o, ms, .delivering c 0, ps, [s]⟩
  | ended {o : Bool} {ps : List String} {c : String} {s : Subscription}
      (hflows : Flows l c s) (hended : s.isEnded = true)
      (hall : s.isHeld = true → s.isCancelled = false →
        o = false ∧ l.received ++ s.waiting = l.decoded) :
      Stage l ⟨o, [], .gone, ps, [s]⟩

theorem stage_empty : Stage [] empty := .free rfl rfl rfl rfl

/-- Puts these messages, receives nothing, and gives the receiving end to nobody. -/
structure Record.Puts (ms : List Message) (x : Action × Except BrokerError Answer) : Prop where
  published : Record.published [x] = ms
  received : Record.received [x] = []
  claimants : Record.claimants [x] = []
  subscribers : Record.subscribers [x] = []

variable {ms : List Message} {x : Action × Except BrokerError Answer}

theorem Record.Puts.decoded_concat (hx : Puts ms x) :
    decoded (l ++ [x]) = l.decoded ++ ms.filterMap Message.notification? := by
  rw [Record.decoded_concat, Record.decoded, Record.decoded, hx.published]

theorem Record.Puts.received_concat (hx : Puts ms x) :
    Record.received (l ++ [x]) = l.received := by
  rw [Record.received_concat, hx.received, List.append_nil]

theorem Record.Puts.claimants_concat (hx : Puts ms x) :
    Record.claimants (l ++ [x]) = l.claimants := by
  rw [Record.claimants_concat, hx.claimants, List.append_nil]

theorem Record.Puts.subscribers_concat (hx : Puts ms x) :
    Record.subscribers (l ++ [x]) = l.subscribers := by
  rw [Record.subscribers_concat, hx.subscribers, List.append_nil]

theorem Flows.puts {c : String} {s s' : Subscription} (h : Flows l c s) (hx : Record.Puts ms x)
    (hwaiting : s'.waiting <+: s.waiting)
    (hflags : s.isHeld = true ∧ s.isCancelled = false → ¬ x.1.Disturbs c 0 →
      s'.isHeld = true ∧ s'.isCancelled = false) : Flows (l ++ [x]) c s' := by
  refine ⟨?_, ?_, ?_, ?_⟩
  · rw [hx.claimants_concat]
    exact h.claimants
  · rw [hx.subscribers_concat]
    exact h.subscribers
  · rw [hx.received_concat, hx.decoded_concat]
    have hprefix := ((List.prefix_append_right_inj l.received).2 hwaiting).trans h.received
    exact hprefix.trans (List.prefix_append _ _)
  · intro hl
    rcases (Record.since_concat l x).1 hl with rfl | ⟨hl, hxs⟩
    · cases hx.subscribers
    · exact hflags (h.leftAlone hl) hxs

/-- Messages come in at the end, producers come and go, and the queue may be shut down. -/
theorem Stage.puts (h : Stage l q) (hx : Record.Puts ms x) (hgone : ms ≠ [] → q.receiver ≠ .gone)
    {o : Bool} (ho : q.isOpen = false → o = false) (ps : List String) :
    Stage (l ++ [x]) ⟨o, q.messages ++ ms, q.receiver, ps, q.subscriptions⟩ := by
  have hclaimants : Record.claimants (l ++ [x]) = l.claimants := hx.claimants_concat
  have hsubscribers : Record.subscribers (l ++ [x]) = l.subscribers := hx.subscribers_concat
  have hreceived : Record.received (l ++ [x]) = l.received := hx.received_concat
  have hdecoded : Record.decoded (l ++ [x]) = l.decoded ++ ms.filterMap Message.notification? :=
    hx.decoded_concat
  -- Where the receiving end is gone, no message is put, for none could be delivered.
  cases h with
  | free hc hs hr hall =>
    refine .free (hclaimants ▸ hc) (hsubscribers ▸ hs) (hreceived ▸ hr) ?_
    rw [List.filterMap_append, hall, hdecoded]
  | claimed hc hs hr hall =>
    refine .claimed (hclaimants ▸ hc) (hsubscribers ▸ hs) (hreceived ▸ hr) ?_
    rw [List.filterMap_append, hall, hdecoded]
  | closed hc hs hr =>
    obtain rfl : ms = [] := by_contra fun hms => hgone hms rfl
    exact .closed (hclaimants ▸ hc) (hsubscribers ▸ hs) (hreceived ▸ hr)
  | delivering hflows hended hall =>
    refine .delivering (hflows.puts hx List.prefix_rfl fun hf _ => hf) hended fun hheld => ?_
    rw [hreceived, hdecoded, List.filterMap_append, ← List.append_assoc, hall hheld]
  | ended hflows hended hall =>
    obtain rfl : ms = [] := by_contra fun hms => hgone hms rfl
    refine .ended (hflows.puts hx List.prefix_rfl fun hf _ => hf) hended fun hheld hc => ?_
    rw [hreceived, hdecoded]
    simpa using And.imp_left ho (hall hheld hc)

theorem Stage.quiet (h : Stage l q) (hx : Record.Puts [] x) {o : Bool}
    (ho : q.isOpen = false → o = false) (ps : List String) :
    Stage (l ++ [x]) { q with isOpen := o, producers := ps } := by
  have hputs := h.puts hx (fun hnil => absurd rfl hnil) ho ps
  rwa [List.append_nil] at hputs

theorem Stage.connectProducer (h : Stage l q) (p : String) :
    Stage (l ++ [(.connectProducer p, (q.step (.connectProducer p)).1)])
      (q.step (.connectProducer p)).2 := by
  rcases q.connectProducer_cases p with ⟨-, hc⟩ | ⟨-, e, hc⟩ <;> simp only [step, hc, Except.map]
  · exact h.quiet ⟨rfl, rfl, rfl, rfl⟩ id (p :: q.producers)
  · exact h.quiet ⟨rfl, rfl, rfl, rfl⟩ id q.producers

theorem Stage.send (h : Stage l q) (p : String) (n : Notification) :
    Stage (l ++ [(.send p n, (q.step (.send p n)).1)]) (q.step (.send p n)).2 := by
  rcases q.send_cases p n with ⟨-, -, hgone, hs⟩ | ⟨-, e, hs⟩ <;> simp only [step, hs, Except.map]
  · exact h.puts ⟨rfl, rfl, rfl, rfl⟩ (fun _ => hgone) id q.producers
  · exact h.quiet ⟨rfl, rfl, rfl, rfl⟩ id q.producers

theorem Stage.publish (h : Stage l q) (m : Message) :
    Stage (l ++ [(.publish m, (q.step (.publish m)).1)]) (q.step (.publish m)).2 := by
  rcases q.publish_cases m with ⟨-, hgone, hs⟩ | ⟨-, e, hs⟩ <;> simp only [step, hs, Except.map]
  · exact h.puts ⟨rfl, rfl, rfl, rfl⟩ (fun _ => hgone) id q.producers
  · exact h.quiet ⟨rfl, rfl, rfl, rfl⟩ id q.producers

theorem Stage.connectConsumer (h : Stage l q) (c : String) :
    Stage (l ++ [(.connectConsumer c, (q.step (.connectConsumer c)).1)])
      (q.step (.connectConsumer c)).2 := by
  rcases q.connectConsumer_cases c with ⟨hr, hc⟩ | ⟨-, -, e, hc⟩
  · have hclaimants : Record.claimants (l ++ [(.connectConsumer c, .ok .done)])
        = l.claimants ++ [c] := Record.claimants_concat l _
    have hsubscribers : Record.subscribers (l ++ [(.connectConsumer c, .ok .done)])
        = l.subscribers := (Record.subscribers_concat l _).trans (List.append_nil _)
    have hreceived : Record.received (l ++ [(.connectConsumer c, .ok .done)])
        = l.received := (Record.received_concat l _).trans (List.append_nil _)
    have hdecoded : Record.decoded (l ++ [(.connectConsumer c, .ok .done)])
        = l.decoded := (Record.decoded_concat l _).trans (List.append_nil _)
    simp only [step, hc, Except.map]
    cases h with
    | free hcs hs hn hall =>
      refine .claimed ?_ (hsubscribers ▸ hs) (hreceived ▸ hn) (hdecoded ▸ hall)
      simp [hclaimants, hcs]
    | @claimed o ms ps d hcs hs hn hall =>
      obtain rfl : d = c := by simpa using hr
      refine .claimed ?_ (hsubscribers ▸ hs) (hreceived ▸ hn) (hdecoded ▸ hall)
      rw [hclaimants, List.forall_mem_append]
      exact ⟨hcs, List.forall_mem_singleton.2 rfl⟩
    | closed => simp at hr
    | delivering => simp at hr
    | ended => simp at hr
  · simp only [step, hc, Except.map]
    exact h.quiet ⟨rfl, rfl, rfl, rfl⟩ id q.producers

theorem Stage.consume (h : Stage l q) (c : String) (isCancelled : Bool) :
    Stage (l ++ [(.consume c isCancelled, (q.step (.consume c isCancelled)).1)])
      (q.step (.consume c isCancelled)).2 := by
  rcases q.consume_cases c isCancelled with ⟨hr, hc⟩ | ⟨-, hc⟩
  · simp only [step, hc, Except.map]
    cases h with
    | @claimed o ms ps d hcs hs hn hall =>
      obtain rfl : d = c := by simpa using hr
      have hreceived : Record.received (l ++ [(.consume d isCancelled, .ok (.subscribed 0))])
          = [] := (Record.received_concat l _).trans (by rw [hn]; rfl)
      have hdecoded : Record.decoded (l ++ [(.consume d isCancelled, .ok (.subscribed 0))])
          = l.decoded := (Record.decoded_concat l _).trans (List.append_nil _)
      change Stage (l ++ [(.consume d isCancelled, .ok (.subscribed 0))])
        ⟨o, ms, .delivering d 0, ps, [⟨[], true, isCancelled, false⟩]⟩
      refine .delivering ⟨?_, ?_, ?_, ?_⟩ rfl fun _ => ?_
      · rw [Record.claimants_concat]
        simpa [Record.claimants] using hcs
      · rw [Record.subscribers_concat, hs]
        rfl
      · simp [hreceived]
      · intro hl
        refine ⟨rfl, ?_⟩
        rcases (Record.since_concat l _).1 hl with hx | ⟨hl, -⟩
        · simpa using hx
        · simpa [hs] using Record.mem_subscribers_of_isLeftAlone hl
      · rw [hreceived, hdecoded, ← hall]
        simp
    | free => simp at hr
    | closed => simp at hr
    | delivering => simp at hr
    | ended => simp at hr
  · simp only [step, hc, Except.map]
    exact h.quiet ⟨rfl, rfl, rfl, rfl⟩ id q.producers

/-- What becomes of a subscription that is cancelled or dropped. -/
inductive Fades (s : Subscription) : Subscription → Prop
  | cancelled : Fades s { s with isCancelled := true }
  | dropped : Fades s { s with isHeld := false, waiting := [] }

theorem Flows.fades {c : String} {s s' : Subscription} (h : Flows l c s) (hx : Record.Puts [] x)
    (hd : x.1.Disturbs c 0) (hs : Fades s s') : Flows (l ++ [x]) c s' := by
  refine h.puts hx ?_ fun _ hnot => absurd hd hnot
  cases hs with
  | cancelled => exact List.prefix_rfl
  | dropped => exact List.nil_prefix

theorem Stage.modify_succ (h : Stage l q) (k : Nat) (f : Subscription → Subscription) :
    q.modify (k + 1) f = q := by
  cases h <;> simp [modify]

theorem Stage.fades (h : Stage l q) (hx : Record.Puts [] x) {k : Nat}
    {f : Subscription → Subscription} (hf : ∀ s, Fades s (f s))
    (hd : k = 0 → ∀ c, (c, 0) ∈ l.subscribers → x.1.Disturbs c 0) :
    Stage (l ++ [x]) (q.modify k f) := by
  have hreceived : Record.received (l ++ [x]) = l.received := hx.received_concat
  have hdecoded : Record.decoded (l ++ [x]) = l.decoded :=
    hx.decoded_concat.trans (List.append_nil _)
  -- There is at most one subscription, so no number but 0 names one.
  rcases k with _ | k
  · cases h with
    | free hc hs hr hall => exact (Stage.free hc hs hr hall).quiet hx id _
    | claimed hc hs hr hall => exact (Stage.claimed hc hs hr hall).quiet hx id _
    | closed hc hs hr => exact (Stage.closed hc hs hr).quiet hx id _
    | @delivering o ms ps c s hflows hended hall =>
      have hs := hf s
      have hflows' := hflows.fades hx (hd rfl c (by simp [hflows.subscribers])) hs
      change Stage _ ⟨o, ms, .delivering c 0, ps, [f s]⟩
      generalize f s = s' at hs hflows' ⊢
      cases hs with
      | cancelled =>
        refine .delivering hflows' hended fun hheld => ?_
        rw [hreceived, hdecoded]
        exact hall hheld
      | dropped => exact .delivering hflows' hended nofun
    | @ended o ps c s hflows hended hall =>
      have hs := hf s
      have hflows' := hflows.fades hx (hd rfl c (by simp [hflows.subscribers])) hs
      change Stage _ ⟨o, [], .gone, ps, [f s]⟩
      generalize f s = s' at hs hflows' ⊢
      cases hs with
      | cancelled => exact .ended hflows' hended nofun
      | dropped => exact .ended hflows' hended nofun
  · rw [h.modify_succ]
    exact h.quiet hx id q.producers

theorem Stage.closeConsumer (h : Stage l q) (c : String) :
    Stage (l ++ [(.closeConsumer c, (q.step (.closeConsumer c)).1)])
      (q.step (.closeConsumer c)).2 := by
  have hx : Record.Puts [] (.closeConsumer c, .ok .done) := ⟨rfl, rfl, rfl, rfl⟩
  have hstay := h.quiet hx id q.producers
  simp only [step, Queue.closeConsumer]
  cases h with
  | free => exact hstay
  | @claimed o ms ps d hc hs hr hall =>
    simp only []
    split_ifs
    · cases hstay with
      | claimed hc hs hr hall => exact .closed hc hs hr
    · exact hstay
  | closed => exact hstay
  | @delivering o ms ps d s hflows hended hall =>
    simp only []
    split_ifs with hd
    · refine (Stage.delivering hflows hended hall).fades hx (fun s => .cancelled) fun _ e he => ?_
      obtain rfl : e = d := by simpa [hflows.subscribers] using he
      exact hd.symm
    · exact hstay
  | ended => exact hstay

theorem Flows.receives {c : String} {s : Subscription} {k : Nat} {n : Notification}
    {rest : List Notification} (h : Flows l c s) (hn : s.waiting = n :: rest) :
    Flows (l ++ [(.receive k, .ok (.received (.notification n)))]) c { s with waiting := rest } := by
  refine ⟨?_, ?_, ?_, fun hl => ?_⟩
  · simpa [Record.claimants_concat, Record.claimants] using h.claimants
  · simpa [Record.subscribers_concat, Record.subscribers] using h.subscribers
  · have hprefix := h.received
    rw [hn] at hprefix
    simpa [Record.received_concat, Record.received, Record.decoded_concat, Record.decoded,
      Record.published] using hprefix
  · rcases (Record.since_concat l _).1 hl with hx | ⟨hl, -⟩
    · simp at hx
    · exact h.leftAlone hl

theorem Stage.receives (h : Stage l q) {k : Nat} {s : Subscription} {n : Notification}
    {rest : List Notification} (hs : q.subscriptions[k]? = some s) (hn : s.waiting = n :: rest) :
    Stage (l ++ [(.receive k, .ok (.received (.notification n)))])
      (q.modify k ({ · with waiting := rest })) := by
  rcases k with _ | k
  · have hreceived : Record.received (l ++ [(.receive 0, .ok (.received (.notification n)))])
        = l.received ++ [n] := Record.received_concat l _
    have hdecoded : Record.decoded (l ++ [(.receive 0, .ok (.received (.notification n)))])
        = l.decoded := (Record.decoded_concat l _).trans (List.append_nil _)
    cases h with
    | free => simp at hs
    | claimed => simp at hs
    | closed => simp at hs
    | delivering hflows hended hall =>
      obtain rfl := Option.some_inj.1 hs
      refine .delivering (hflows.receives hn) hended fun hheld => ?_
      rw [hreceived, hdecoded, ← hall hheld, hn]
      simp
    | ended hflows hended hall =>
      obtain rfl := Option.some_inj.1 hs
      refine .ended (hflows.receives hn) hended fun hheld hc => ?_
      obtain ⟨ho, hall⟩ := hall hheld hc
      refine ⟨ho, ?_⟩
      rw [hreceived, hdecoded, ← hall, hn]
      simp
  · cases h <;> simp at hs

theorem Stage.receive (h : Stage l q) (k : Nat) :
    Stage (l ++ [(.receive k, (q.step (.receive k)).1)]) (q.step (.receive k)).2 := by
  simp only [step, Queue.receive]
  split
  · exact h.quiet ⟨rfl, rfl, rfl, rfl⟩ id q.producers
  · rename_i s hs
    split
    · rename_i n rest hn
      exact h.receives hs hn
    · split_ifs
      · exact h.quiet ⟨rfl, rfl, rfl, rfl⟩ id q.producers
      · exact h.quiet ⟨rfl, rfl, rfl, rfl⟩ id q.producers

/-- A turn of the delivery loop records nothing, and hands over in order what it hands over. -/
theorem Stage.deliver?_getD (h : Stage l q) : Stage l (q.deliver?.getD q) := by
  cases h with
  | free hc hs hr hall => exact .free hc hs hr hall
  | claimed hc hs hr hall => exact .claimed hc hs hr hall
  | closed hc hs hr => exact .closed hc hs hr
  | ended hflows hended hall => exact .ended hflows hended hall
  | @delivering o ms ps c s hflows hended hall =>
    rcases deliver?_cases o ms c ps s with ⟨hd, -⟩ | ⟨hd, hs⟩ | ⟨m, rest, rfl, hm, hc, hd⟩ <;>
      rw [hd]
    · exact .delivering hflows hended hall
    · refine .ended { hflows with } rfl fun hheld hc => ?_
      obtain ⟨ho, rfl⟩ := hs hheld hc
      exact ⟨ho, by simpa using hall hheld⟩
    · have hall' : s.isHeld = true → l.received ++ (s.waiting ++ m.notification?.toList)
          ++ rest.filterMap Message.notification? = l.decoded := by
        intro hheld
        rw [← hall hheld, List.filterMap_cons]
        cases m.notification? <;> simp
      refine .delivering { hflows with received := ?_ } hended hall'
      -- Once the subscription is dropped, the loop still passes over what does not decode.
      rcases hm with hheld | hnone
      · exact ⟨_, hall' hheld⟩
      · simpa [hnone] using hflows.received

theorem Stage.step (h : Stage l q) (a : Action) :
    Stage (l ++ [(a, (q.step a).1)]) (q.step a).2 := by
  cases a with
  | connectProducer p => exact h.connectProducer p
  | closeProducer p => exact h.quiet ⟨rfl, rfl, rfl, rfl⟩ id (q.producers.filter (· ≠ p))
  | send p n => exact h.send p n
  | publish m => exact h.publish m
  | shutdown => exact h.quiet ⟨rfl, rfl, rfl, rfl⟩ (fun _ => rfl) q.producers
  | connectConsumer c => exact h.connectConsumer c
  | closeConsumer c => exact h.closeConsumer c
  | consume c isCancelled => exact h.consume c isCancelled
  | receive k => exact h.receive k
  | cancel k => exact h.fades ⟨rfl, rfl, rfl, rfl⟩ (fun s => .cancelled) fun hk _ _ => hk
  | drop k => exact h.fades ⟨rfl, rfl, rfl, rfl⟩ (fun s => .dropped) fun hk _ _ => hk
  | deliver => exact h.deliver?_getD.quiet ⟨rfl, rfl, rfl, rfl⟩ id _

end Stages

section Draining

/-- Once the queue is shut down, the delivery loop hands over all that decodes, and ends. -/
theorem settleIn_shut (c : String) (ps : List String) :
    ∀ {n : Nat} {ms : List Message} {s : Subscription}, ms.length < n → s.isHeld = true →
      s.isCancelled = false →
        settleIn n ⟨false, ms, .delivering c 0, ps, [s]⟩ = ⟨false, [], .gone, ps,
          [{ s with waiting := s.waiting ++ ms.filterMap Message.notification?, isEnded := true }]⟩
  | 0, ms, s, hn, _, _ => absurd hn (Nat.not_lt_zero _)
  | n + 1, ms, s, hn, hheld, hc => by
    rcases deliver?_cases false ms c ps s with ⟨-, ho, -⟩ | ⟨hd, hall⟩ | ⟨m, rest, rfl, -, -, hd⟩
    · cases ho
    · obtain ⟨-, rfl⟩ := hall hheld hc
      have hgone : ∀ n s, settleIn n ⟨false, [], .gone, ps, s⟩ = ⟨false, [], .gone, ps, s⟩ := by
        intro n s
        cases n <;> simp [settleIn, deliver?]
      simp [settleIn, hd, hgone]
    · have hrest : rest.length < n := by simpa using hn
      have hsettled := settleIn_shut c ps (s := { s with
        waiting := s.waiting ++ m.notification?.toList }) hrest hheld hc
      simp only [settleIn, hd, hsettled, List.filterMap_cons]
      cases m.notification? <;> simp

theorem run_receive (o : Bool) (r : Receiver) (ps : List String) :
    ∀ {s : Subscription} (w : List Notification), s.waiting = w → s.isEnded = true →
      (run ⟨o, [], r, ps, [s]⟩ (List.replicate (w.length + 1) (.receive 0))).1.map (·.2)
        = w.map (fun n => .ok (.received (.notification n))) ++ [.ok (.received .ended)]
  | s, [], hw, hs => by
    simp [run, step, receive, hw, hs]
  | s, n :: w, hw, hs => by
    have hrest := run_receive o r ps (s := { s with waiting := w }) w rfl hs
    rw [List.length_cons, List.replicate_succ, run]
    simp only [step, receive, List.getElem?_cons_zero, hw, modify, List.map_cons, List.cons_append]
    exact congrArg _ hrest

end Draining

section Protocol

variable {l : Record} {q : Queue}

/-- What a queue promises its clients, after all that is on the record. -/
structure KeepsProtocol (l : Record) (q : Queue) : Prop where
  claimed_once : ∀ c ∈ l.claimants, ∀ d ∈ l.claimants, c = d
  subscribed_once : l.subscribers.length ≤ 1 ∧ q.subscriptions.length ≤ 1
  send_ok_iff : ∀ p n,
    (q.send p n).1 = .ok () ↔ l.IsConnected p ∧ ¬ l.IsShutDown ∧ q.receiver ≠ .gone
  publish_ok_iff : ∀ m, (q.publish m).1 = .ok () ↔ ¬ l.IsShutDown ∧ q.receiver ≠ .gone
  sent : ∀ p n, (q.send p n).2
    = if (q.send p n).1 = .ok () then { q with messages := q.messages ++ [⟨n.userId, n.payload⟩] }
      else q
  published : ∀ m, (q.publish m).2
    = if (q.publish m).1 = .ok () then { q with messages := q.messages ++ [m] } else q
  received_prefix : l.received <+: l.decoded
  /-- Left alone, a consumer that comes to the end has received all. -/
  ended : ∀ c k, l.IsLeftAlone c k → (q.receive k).1 = .ended →
    l.IsShutDown ∧ l.received = l.decoded
  /-- Left alone, a consumer of a queue that is shut down comes to the end. -/
  drains : ∀ c k, l.IsLeftAlone c k → l.IsShutDown →
    ∃ rest, l.received ++ rest = l.decoded
      ∧ (q.settle.run (List.replicate (rest.length + 1) (.receive k))).1.map (·.2)
        = rest.map (fun n => .ok (.received (.notification n))) ++ [.ok (.received .ended)]

theorem Stage.claimed_once (h : Stage l q) : ∀ c ∈ l.claimants, ∀ d ∈ l.claimants, c = d := by
  have hone {e : String} (he : ∀ d ∈ l.claimants, d = e) :
      ∀ c ∈ l.claimants, ∀ d ∈ l.claimants, c = d :=
    fun c hc d hd => (he c hc).trans (he d hd).symm
  cases h with
  | free hc => simp [hc]
  | claimed hc => exact hone hc
  | closed hc => exact hone hc
  | delivering hflows => exact hone hflows.claimants
  | ended hflows => exact hone hflows.claimants

theorem Stage.subscribed_once (h : Stage l q) :
    l.subscribers.length ≤ 1 ∧ q.subscriptions.length ≤ 1 := by
  cases h with
  | free _ hs => simp [hs]
  | claimed _ hs => simp [hs]
  | closed _ hs => simp [hs]
  | delivering hflows => simp [hflows.subscribers]
  | ended hflows => simp [hflows.subscribers]

theorem Stage.received_prefix (h : Stage l q) : l.received <+: l.decoded := by
  cases h with
  | free _ _ hr => simp [hr]
  | claimed _ _ hr => simp [hr]
  | closed _ _ hr => simp [hr]
  | delivering hflows => exact (List.prefix_append _ _).trans hflows.received
  | ended hflows => exact (List.prefix_append _ _).trans hflows.received

theorem Stage.of_ended (h : Stage l q) (hq : Standing l q) {c : String} {k : Nat}
    (hl : l.IsLeftAlone c k) (hend : (q.receive k).1 = .ended) :
    l.IsShutDown ∧ l.received = l.decoded := by
  have hk := Record.mem_subscribers_of_isLeftAlone hl
  cases h with
  | free _ hs => simp [hs] at hk
  | claimed _ hs => simp [hs] at hk
  | closed _ hs => simp [hs] at hk
  | @delivering o ms ps d s hflows hended hall =>
    obtain ⟨rfl, rfl⟩ : c = d ∧ k = 0 := by simpa [hflows.subscribers] using hk
    simp only [Queue.receive, List.getElem?_cons_zero, hended] at hend
    split at hend <;> simp at hend
  | @ended o ps d s hflows hended hall =>
    obtain ⟨rfl, rfl⟩ : c = d ∧ k = 0 := by simpa [hflows.subscribers] using hk
    obtain ⟨hheld, hc⟩ := hflows.leftAlone hl
    obtain ⟨rfl, hcame⟩ := hall hheld hc
    have hshut : l.IsShutDown := by simpa using hq.isOpen
    refine ⟨hshut, ?_⟩
    simp only [Queue.receive, List.getElem?_cons_zero] at hend
    split at hend
    · simp at hend
    · rename_i hw
      simpa [hw] using hcame

theorem Stage.drains (h : Stage l q) (hq : Standing l q) {c : String} {k : Nat}
    (hl : l.IsLeftAlone c k) (hshut : l.IsShutDown) :
    ∃ rest, l.received ++ rest = l.decoded
      ∧ (q.settle.run (List.replicate (rest.length + 1) (.receive k))).1.map (·.2)
        = rest.map (fun n => .ok (.received (.notification n))) ++ [.ok (.received .ended)] := by
  have hk := Record.mem_subscribers_of_isLeftAlone hl
  have hopen : q.isOpen = false := by
    have := hq.isOpen
    rw [iff_false_right (not_not.2 hshut)] at this
    simpa using this
  cases h with
  | free _ hs => simp [hs] at hk
  | claimed _ hs => simp [hs] at hk
  | closed _ hs => simp [hs] at hk
  | @delivering o ms ps d s hflows hended hall =>
    obtain ⟨rfl, rfl⟩ : c = d ∧ k = 0 := by simpa [hflows.subscribers] using hk
    obtain rfl : o = false := hopen
    obtain ⟨hheld, hc⟩ := hflows.leftAlone hl
    refine ⟨s.waiting ++ ms.filterMap Message.notification?, ?_, ?_⟩
    · rw [← List.append_assoc]
      exact hall hheld
    · rw [settle, settleIn_shut c ps (Nat.lt_succ_self _) hheld hc]
      exact run_receive false .gone ps _ rfl rfl
  | @ended o ps d s hflows hended hall =>
    obtain ⟨rfl, rfl⟩ : c = d ∧ k = 0 := by simpa [hflows.subscribers] using hk
    obtain ⟨hheld, hc⟩ := hflows.leftAlone hl
    exact ⟨s.waiting, (hall hheld hc).2, run_receive o .gone ps _ rfl hended⟩

theorem Stage.keepsProtocol (h : Stage l q) (hq : Standing l q) : KeepsProtocol l q where
  claimed_once := h.claimed_once
  subscribed_once := h.subscribed_once
  send_ok_iff p n := by
    rw [← hq.producers, ← hq.isOpen]
    rcases q.send_cases p n with ⟨hp, ho, hr, hs⟩ | ⟨hno, e, hs⟩
    · simp [hs, hp, ho, hr]
    · simp only [hs, reduceCtorEq, false_iff]
      exact hno
  publish_ok_iff m := by
    rw [← hq.isOpen]
    rcases q.publish_cases m with ⟨ho, hr, hs⟩ | ⟨hno, e, hs⟩
    · simp [hs, ho, hr]
    · simp only [hs, reduceCtorEq, false_iff]
      exact hno
  sent p n := by
    rcases q.send_cases p n with ⟨-, -, -, hs⟩ | ⟨-, e, hs⟩ <;> simp [hs]
  published m := by
    rcases q.publish_cases m with ⟨-, -, hs⟩ | ⟨-, e, hs⟩ <;> simp [hs]
  received_prefix := h.received_prefix
  ended _ _ := h.of_ended hq
  drains _ _ := h.drains hq

theorem Stage.run : ∀ (as : List Action) {l : Record} {q : Queue}, Stage l q → Standing l q →
    Stage (l ++ (q.run as).1) (q.run as).2 ∧ Standing (l ++ (q.run as).1) (q.run as).2
  | [], l, q, h, hq => by simpa [Queue.run] using And.intro h hq
  | a :: as, l, q, h, hq => by
    simpa [Queue.run] using Stage.run as (h.step a) (hq.step a)

/-- Whatever its clients do and however the delivery loop's turns come in between, a queue keeps to
its protocol. -/
theorem run_keepsProtocol (as : List Action) :
    KeepsProtocol (empty.run as).1 (empty.run as).2 := by
  obtain ⟨h, hq⟩ := Stage.run as stage_empty standing_empty
  exact h.keepsProtocol hq

/-- What is not a notification is skipped, and what comes after the shutdown is refused. -/
example : (empty.run [.connectProducer "p", .publish ⟨"u", []⟩, .send "p" ⟨"n", "e", "", "u", "",
    .first, .first⟩, .connectConsumer "c", .consume "c" false, .deliver, .deliver,
    .receive 0, .shutdown, .publish ⟨"u", []⟩, .deliver, .receive 0]).1.map (·.2)
      = [.ok .done, .ok .done, .ok .done, .ok .done, .ok (.subscribed 0), .ok .done, .ok .done,
        .ok (.received (.notification ⟨"n", "e", "", "u", "", .first, .first⟩)),
        .ok .done, .error (.send "broker is shut down"), .ok .done, .ok (.received .ended)] := by
  decide +kernel

end Protocol

end Queue

end Datebook

import Datebook.Proofs.Holdings

/-!
# Agendas

What a list of stored events keeps to. It is kept when a new event is added (`append`), when one is
replaced by a valid one in a free slot (`replace`), and when some are removed (`sublist`).
-/

namespace Datebook

/-- What the events of a store keep to: ids that are texts of their own, one event in a slot, and
each event valid and in whole microseconds. -/
structure IsAgenda (es : List Event) : Prop where
  ids_nodup : (es.map (·.id)).Nodup
  id_ne_empty : ∀ e ∈ es, e.id ≠ ""
  id_eq_of_collides : ∀ a ∈ es, ∀ b ∈ es, a.CollidesWith b → a.id = b.id
  isValid : ∀ e ∈ es, e.IsValid
  isWholeMicros : ∀ e ∈ es, e.IsWholeMicros

instance (es : List Event) : Decidable (IsAgenda es) :=
  decidable_of_iff
    ((es.map (·.id)).Nodup ∧ (∀ e ∈ es, e.id ≠ "")
      ∧ (∀ a ∈ es, ∀ b ∈ es, a.CollidesWith b → a.id = b.id) ∧ (∀ e ∈ es, e.IsValid)
      ∧ ∀ e ∈ es, e.IsWholeMicros)
    ⟨fun h => ⟨h.1, h.2.1, h.2.2.1, h.2.2.2.1, h.2.2.2.2⟩,
      fun h => ⟨h.1, h.2, h.3, h.4, h.5⟩⟩

namespace IsAgenda

variable {es : List Event}

theorem nil : IsAgenda [] := by
  constructor <;> simp

theorem sublist {es' : List Event} (h : IsAgenda es) (hs : es'.Sublist es) : IsAgenda es' := by
  refine ⟨h.ids_nodup.sublist (hs.map _), fun e he => h.id_ne_empty e (hs.subset he),
    fun a ha b hb => h.id_eq_of_collides a (hs.subset ha) b (hs.subset hb),
    fun e he => h.isValid e (hs.subset he), fun e he => h.isWholeMicros e (hs.subset he)⟩

theorem append (h : IsAgenda es) {e : Event} (hid : e.id ∉ es.map (·.id)) (hne : e.id ≠ "")
    (hv : e.IsValid) (hw : e.IsWholeMicros) (hfree : ∀ o ∈ es, ¬ o.CollidesWith e) :
    IsAgenda (es ++ [e]) := by
  refine ⟨?_, ?_, ?_, ?_, ?_⟩
  · rw [List.map_append, List.nodup_append]
    refine ⟨h.ids_nodup, by simp, fun i hi j hj => ?_⟩
    rw [List.map_singleton, List.mem_singleton] at hj
    exact fun hij => hid (by rw [← hj, ← hij]; exact hi)
  · simpa [or_imp, forall_and, hne] using h.id_ne_empty
  · intro a ha b hb hc
    simp only [List.mem_append, List.mem_singleton] at ha hb
    rcases ha with ha | rfl <;> rcases hb with hb | rfl
    · exact h.id_eq_of_collides a ha b hb hc
    · exact absurd hc (hfree a ha)
    · exact absurd hc.symm (hfree b hb)
    · rfl
  · simpa [or_imp, forall_and, hv] using h.isValid
  · simpa [or_imp, forall_and, hw] using h.isWholeMicros

theorem replace (h : IsAgenda es) {e : Event} (hne : e.id ≠ "") (hv : e.IsValid)
    (hw : e.IsWholeMicros) (hfree : ¬ ∃ o ∈ es, o.id ≠ e.id ∧ o.CollidesWith e) :
    IsAgenda (e.putIn es) := by
  have hmem : ∀ a ∈ e.putIn es, a = e ∨ a ∈ es ∧ a.id ≠ e.id := fun a ha =>
    (Event.mem_putIn.1 ha).imp_left And.left
  refine ⟨e.map_id_putIn es ▸ h.ids_nodup, ?_, ?_, ?_, ?_⟩
  · intro a ha
    rcases hmem a ha with rfl | ⟨ha, -⟩
    · exact hne
    · exact h.id_ne_empty a ha
  · intro a ha b hb hc
    rcases hmem a ha with rfl | ⟨ha', hai⟩ <;> rcases hmem b hb with rfl | ⟨hb', hbi⟩
    · rfl
    · exact absurd ⟨b, hb', hbi, hc.symm⟩ hfree
    · exact absurd ⟨a, ha', hai, hc⟩ hfree
    · exact h.id_eq_of_collides a ha' b hb' hc
  · intro a ha
    rcases hmem a ha with rfl | ⟨ha, -⟩
    · exact hv
    · exact h.isValid a ha
  · intro a ha
    rcases hmem a ha with rfl | ⟨ha, -⟩
    · exact hw
    · exact h.isWholeMicros a ha

end IsAgenda

end Datebook

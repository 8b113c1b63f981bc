import Mathlib.Data.List.Infix

/-!
Histories that grow at their end, and what holds of each of their items with respect to
what came before it.
-/

namespace History

variable {Item : Type*}

def Throughout (holds : List Item → Item → Prop) (history : List Item) : Prop :=
  ∀ before item after, history = before ++ item :: after → holds before item

/-- The items of a history that goes on after `before`, each with all that came before it. -/
def withPast (before : List Item) : List Item → List (List Item × Item)
  | [] => []
  | item :: rest => (before, item) :: withPast (before ++ [item]) rest

theorem withPast_append (before first second : List Item) :
    withPast before (first ++ second) =
      withPast before first ++ withPast (before ++ first) second := by
  induction first generalizing before with
  | nil => simp [withPast]
  | cons item rest ih => simp [withPast, ih]

theorem map_snd_withPast (before history : List Item) :
    (withPast before history).map Prod.snd = history := by
  induction history generalizing before with
  | nil => rfl
  | cons item rest ih => rw [withPast, List.map_cons, ih]

section

variable {holds weaker : List Item → Item → Prop} {history before after : List Item}
  {item last : Item}

/-- A history that grew is split at its last item or where it could be split before. -/
theorem concat_eq_split_iff :
    history ++ [last] = before ++ item :: after ↔
      (history = before ∧ last = item ∧ after = []) ∨
        ∃ rest, after = rest ++ [last] ∧ history = before ++ item :: rest := by
  constructor
  · intro split
    rcases List.eq_nil_or_concat' after with rfl | ⟨rest, final, rfl⟩
    · obtain ⟨same, ends⟩ := List.append_inj' split rfl
      exact .inl ⟨same, List.singleton_inj.mp ends, rfl⟩
    · rw [← List.cons_append, ← List.append_assoc] at split
      obtain ⟨same, ends⟩ := List.append_inj' split rfl
      exact .inr ⟨rest, by rw [List.singleton_inj.mp ends], same⟩
  · rintro (⟨rfl, rfl, rfl⟩ | ⟨rest, rfl, rfl⟩)
    · rfl
    · simp

theorem throughout_nil (holds : List Item → Item → Prop) : Throughout holds [] := by
  intro before item after empty
  simp at empty

theorem throughout_concat :
    Throughout holds (history ++ [item]) ↔ Throughout holds history ∧ holds history item := by
  constructor
  · intro throughout
    refine ⟨fun before earlier after split => ?_, throughout history item [] rfl⟩
    exact throughout before earlier (after ++ [item]) (by simp [split])
  · rintro ⟨throughout, here⟩ before other after split
    rcases concat_eq_split_iff.mp split with ⟨rfl, rfl, -⟩ | ⟨rest, -, earlier⟩
    · exact here
    · exact throughout before other rest earlier

theorem Throughout.mono (throughout : Throughout holds history)
    (implies : ∀ before item, holds before item → weaker before item) :
    Throughout weaker history :=
  fun before item after split => implies before item (throughout before item after split)

theorem Throughout.of_mem (throughout : Throughout holds history) (member : item ∈ history) :
    ∃ before, before <+: history ∧ holds before item := by
  obtain ⟨before, after, split⟩ := List.append_of_mem member
  exact ⟨before, ⟨_, split.symm⟩, throughout before item after split⟩

end

end History

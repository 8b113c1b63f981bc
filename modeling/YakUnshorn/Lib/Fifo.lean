import Mathlib.Data.List.Infix

/-!
A queue between two moments of a run: what was put at its end meanwhile, and what was
taken from its front.
-/

namespace Fifo

variable {Message : Type*}

/-- From `before`, the messages `taken` were taken from the front and the messages `added` put at
the end, in any order of takes and puts, and `after` is left. -/
def Carries (before taken added after : List Message) : Prop := before ++ added = taken ++ after

theorem carries_refl (queue : List Message) : Carries queue [] [] queue := List.append_nil queue

theorem carries_added (queue added : List Message) : Carries queue [] added (queue ++ added) := rfl

namespace Carries

variable {before taken added after : List Message}

theorem trans {takenLater addedLater last : List Message}
    (first : Carries before taken added after)
    (second : Carries after takenLater addedLater last) :
    Carries before (taken ++ takenLater) (added ++ addedLater) last := by
  unfold Carries at first second ⊢
  rw [← List.append_assoc, first, List.append_assoc, second, List.append_assoc]

/-- A message that is waiting has been taken once more messages were taken than waited before. -/
theorem reached {front back : List Message} {message : Message}
    (carries : Carries (front ++ message :: back) taken added after)
    (many : front.length < taken.length) : message ∈ taken := by
  unfold Carries at carries
  rw [List.append_assoc, ← List.singleton_append, List.append_assoc, ← List.append_assoc] at carries
  have first : front ++ [message] <+: taken := by
    refine List.prefix_of_prefix_length_le ⟨_, carries⟩ ⟨after, rfl⟩ ?_
    rw [List.length_append, List.length_singleton]
    exact many
  exact first.subset (List.mem_append_right _ (List.mem_singleton.mpr rfl))

end Carries

end Fifo

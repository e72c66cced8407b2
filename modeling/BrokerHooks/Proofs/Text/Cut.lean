import Mathlib.Data.List.TakeWhile

namespace BrokerHooks

variable {α : Type} {p : α → Bool} {s w t : List α} {c : α}

/-- The longest run from the front and what ends it are a run and what ends it. -/
theorem cut_iff (hc : p c = false) :
    s.takeWhile p = w ∧ s.dropWhile p = c :: t ↔ (∀ x ∈ w, p x) ∧ s = w ++ c :: t := by
  constructor
  · rintro ⟨rfl, ht⟩
    exact ⟨fun x hx => List.mem_takeWhile_imp hx, by rw [← ht, List.takeWhile_append_dropWhile]⟩
  · rintro ⟨hw, rfl⟩
    have hstop : ¬p c := by simp [hc]
    rw [List.takeWhile_append_of_pos hw, List.dropWhile_append_of_pos hw, List.takeWhile_cons_of_neg hstop,
      List.dropWhile_cons_of_neg hstop, List.append_nil]
    exact ⟨rfl, rfl⟩

theorem not_of_dropWhile_eq_cons (h : s.dropWhile p = c :: t) : p c = false := by
  simpa [h] using List.head?_dropWhile_not p s

end BrokerHooks

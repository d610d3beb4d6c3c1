import Mathlib.Data.List.Basic

/-!
# Texts joined by a separator word

A pair of texts joined by a word can be read back unless the word, or an end of it that is
also a beginning, occurs in one of them. `Continues` says where the first text of another
reading ends instead.
-/

namespace Separated

variable {α : Type*} {w s u s' u' : List α}

/-- The text of `s` and `u` is also that of `s'` and `u'`, with the separator further on. -/
inductive Continues (w s u s' u' : List α) : Prop
  | through (r : List α) (hs : s' = s ++ w ++ r) (hu : u = r ++ w ++ u')
  | overlapping (t v : List α) (ht : t ≠ []) (hv : v ≠ []) (hw : w = t ++ v) (hs : s' = s ++ t)
      (hu : v ++ u = w ++ u')

theorem Continues.ne (h : Continues w s u s' u') (hw : w ≠ []) : s ≠ s' := by
  intro heq
  cases h with
  | through r hs hu =>
    rw [← heq, List.append_assoc, List.self_eq_append_right, List.append_eq_nil_iff] at hs
    exact hw hs.1
  | overlapping t v ht hv hw' hs hu =>
    rw [← heq, List.self_eq_append_right] at hs
    exact ht hs

theorem Continues.join_eq (h : Continues w s u s' u') : s ++ w ++ u = s' ++ w ++ u' := by
  cases h with
  | through r hs hu => simp only [hs, hu, List.append_assoc]
  | overlapping t v ht hv hw hs hu =>
    calc s ++ w ++ u = s ++ t ++ (v ++ u) := by simp only [hw, List.append_assoc]
      _ = s' ++ w ++ u' := by rw [hu, hs, List.append_assoc, List.append_assoc, List.append_assoc]

theorem eq_or_continues {t : List α} (hs : s' = s ++ t) (hu : w ++ u = t ++ (w ++ u')) :
    (s = s' ∧ u = u') ∨ Continues w s u s' u' := by
  by_cases ht : t = []
  · subst ht
    rw [List.nil_append] at hu
    exact Or.inl ⟨by rw [hs, List.append_nil], List.append_cancel_left hu⟩
  · right
    rcases List.append_eq_append_iff.mp hu with ⟨r, hr, hrest⟩ | ⟨v, hv, hrest⟩
    · exact .through r (by rw [hs, hr, List.append_assoc]) (by rw [hrest, List.append_assoc])
    · by_cases hnil : v = []
      · subst hnil
        rw [List.append_nil] at hv
        refine .through [] (by rw [hs, hv, List.append_nil]) ?_
        rw [List.nil_append, hrest, List.nil_append]
      · exact .overlapping t v ht hnil hv hs hrest.symm

theorem join_eq_iff : s ++ w ++ u = s' ++ w ++ u' ↔
    (s = s' ∧ u = u') ∨ Continues w s u s' u' ∨ Continues w s' u' s u := by
  constructor
  · intro h
    rw [List.append_assoc, List.append_assoc] at h
    rcases List.append_eq_append_iff.mp h with ⟨t, hs, hu⟩ | ⟨t, hs, hu⟩
    · exact (eq_or_continues hs hu).imp_right Or.inl
    · refine (eq_or_continues hs hu).imp (fun heq => ⟨heq.1.symm, heq.2.symm⟩) Or.inr
  · rintro (⟨rfl, rfl⟩ | h | h)
    · rfl
    · exact h.join_eq
    · exact h.join_eq.symm

end Separated

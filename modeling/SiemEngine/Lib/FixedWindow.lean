import Mathlib.Data.List.Range

/-!
# Counting in fixed windows

What a fixed-window counter rests on: a count that goes `1, 2, 3, …` lets through as many
numbers up to a bound as there are, and an interval as long as a window meets two windows at
most. A record in which one entry changes at a time is split at that entry.
-/

namespace FixedWindow

variable {α β : Type*}

theorem exists_split {l : List α} {i : ℕ} {a : α} (h : l[i]? = some a) :
    ∃ pre post, l = pre ++ a :: post ∧ ∀ b, l.set i b = pre ++ b :: post := by
  obtain ⟨hi, rfl⟩ := List.getElem?_eq_some_iff.mp h
  refine ⟨l.take i, l.drop (i + 1), ?_, fun b => ?_⟩
  · rw [List.getElem_cons_drop, List.take_append_drop]
  · exact List.set_eq_take_append_cons_drop.trans (if_pos hi)

theorem filterMap_set_perm {f : α → Option β} {l : List α} {i : ℕ} {a b : α} {v : β}
    (h : l[i]? = some a) (ha : f a = none) (hb : f b = some v) :
    ((l.set i b).filterMap f).Perm (l.filterMap f ++ [v]) := by
  obtain ⟨pre, post, hl, hset⟩ := exists_split h
  rw [hset, hl, List.filterMap_append, List.filterMap_append, List.filterMap_cons_some hb,
    List.filterMap_cons_none ha, List.append_assoc]
  exact List.Perm.append_left _ (List.perm_append_singleton v _).symm

theorem filterMap_set {f : α → Option β} {l : List α} {i : ℕ} {a b : α} (h : l[i]? = some a)
    (hab : f b = f a) : (l.set i b).filterMap f = l.filterMap f := by
  obtain ⟨pre, post, hl, hset⟩ := exists_split h
  rw [hset, hl, List.filterMap_append, List.filterMap_append, List.filterMap_cons,
    List.filterMap_cons, hab]

theorem forall_mem_set {P : α → Prop} {l : List α} {i : ℕ} {b : α} (hl : ∀ a ∈ l, P a)
    (hb : P b) : ∀ a ∈ l.set i b, P a := by
  intro a ha
  rcases List.mem_or_eq_of_mem_set ha with h | rfl
  · exact hl a h
  · exact hb

theorem mem_set_of_ne {l : List α} {i : ℕ} {a b c : α} (ha : a ∈ l) (hb : l[i]? = some b)
    (hne : a ≠ b) : a ∈ l.set i c := by
  obtain ⟨pre, post, hl, hset⟩ := exists_split hb
  rw [hset]
  rw [hl] at ha
  rcases List.mem_append.mp ha with ha | ha
  · exact List.mem_append_left _ ha
  · exact List.mem_append_right _
      (List.mem_cons_of_mem _ ((List.mem_cons.mp ha).resolve_left hne))

theorem countP_or_le (p q : α → Bool) (l : List α) :
    l.countP (fun a => p a || q a) ≤ l.countP p + l.countP q := by
  induction l with
  | nil => simp
  | cons a l ih =>
    simp only [List.countP_cons]
    cases p a <;> cases q a <;> simp <;> omega

theorem countP_eq_add {p q r : α → Bool} {l : List α}
    (h : ∀ a ∈ l, r a = (p a || q a) ∧ (p a && q a) = false) :
    l.countP r = l.countP p + l.countP q := by
  induction l with
  | nil => rfl
  | cons a l ih =>
    obtain ⟨⟨hor, hand⟩, hl⟩ := List.forall_mem_cons.mp h
    rw [List.countP_cons, List.countP_cons, List.countP_cons, ih hl, hor]
    cases hp : p a <;> cases hq : q a <;> simp [hp, hq] at hand ⊢ <;> omega

theorem countP_le_range' (n bound : ℕ) :
    (List.range' 1 n).countP (fun k => k ≤ bound) = min n bound := by
  induction n with
  | zero => simp
  | succ n ih =>
    rw [List.range'_1_concat, List.countP_append, ih, List.countP_singleton]
    by_cases h : 1 + n ≤ bound
    · rw [if_pos (decide_eq_true h)]
      omega
    · rw [if_neg (by simpa using h)]
      omega

theorem div_of_mem_interval {period t a : ℕ} (hp : 0 < period) (hle : t ≤ a)
    (hlt : a < t + period) : a / period = t / period ∨ a / period = t / period + 1 := by
  have hlower : t / period ≤ a / period := Nat.div_le_div_right hle
  have hupper : a / period ≤ t / period + 1 := by
    calc a / period ≤ (t + period) / period := Nat.div_le_div_right hlt.le
      _ = t / period + 1 := Nat.add_div_right t hp
  omega

/-- A bound on every window is, doubled, a bound on every interval of a window's length. -/
theorem countP_interval_le {p : α → Bool} {time : α → ℕ} {period bound : ℕ} (hp : 0 < period)
    {l : List α} (h : ∀ w, l.countP (fun a => p a && decide (time a / period = w)) ≤ bound)
    (t : ℕ) :
    l.countP (fun a => p a && decide (t ≤ time a ∧ time a < t + period)) ≤ 2 * bound := by
  have hcover := List.countP_mono_left (l := l)
    (p := fun a => p a && decide (t ≤ time a ∧ time a < t + period))
    (q := fun a => (p a && decide (time a / period = t / period)) ||
      (p a && decide (time a / period = t / period + 1))) (by
      intro a _ ha
      simp only [Bool.and_eq_true, decide_eq_true_eq] at ha
      obtain ⟨hpa, hle, hlt⟩ := ha
      simpa [hpa] using div_of_mem_interval hp hle hlt)
  have hsum := countP_or_le (fun a => p a && decide (time a / period = t / period))
    (fun a => p a && decide (time a / period = t / period + 1)) l
  have h₁ := h (t / period)
  have h₂ := h (t / period + 1)
  omega

end FixedWindow

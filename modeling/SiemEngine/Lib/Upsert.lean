import Mathlib.Data.List.Basic

/-!
# Upserting into a list of rows

An item either merges into the rows it hits or, when it hits none, creates a row at the
end. A selection of rows that hits respect can be taken before or after.
-/

namespace Upsert

variable {α δ : Type*} (hit : δ → α → Bool) (merge : α → δ → α) (create : δ → α)

def absorb (rows : List α) (d : δ) : List α :=
  if rows.any (hit d) then rows.map fun a => if hit d a then merge a d else a
  else rows ++ [create d]

def AtMostOne (d : δ) (rows : List α) : Prop := (rows.filter (hit d)).length ≤ 1

variable {hit merge create} {P : α → Bool} {d : δ} {rows : List α}

theorem AtMostOne.tail {a : α} (h : AtMostOne hit d (a :: rows)) : AtMostOne hit d rows := by
  rw [AtMostOne] at h ⊢
  by_cases ha : hit d a
  · rw [List.filter_cons_of_pos ha, List.length_cons] at h
    omega
  · rwa [List.filter_cons_of_neg ha] at h

/-- Where at most one row is hit, merging into it is merging into all that are hit. -/
theorem set_eq_map (h : AtMostOne hit d rows) {i : ℕ} {a : α} (ha : rows[i]? = some a)
    (hhit : hit d a) (f : α → α) :
    rows.set i (f a) = rows.map fun b => if hit d b then f b else b := by
  induction rows generalizing i with
  | nil => cases ha
  | cons b rows ih =>
    cases i with
    | zero =>
      obtain rfl : b = a := Option.some.inj ha
      rw [AtMostOne, List.filter_cons_of_pos hhit, List.length_cons] at h
      have hnone : rows.filter (hit d) = [] := List.length_eq_zero_iff.mp (by omega)
      have hrest : rows.map (fun b => if hit d b then f b else b) = rows := by
        conv_rhs => rw [← List.map_id rows]
        exact List.map_congr_left fun c hc => if_neg (List.filter_eq_nil_iff.mp hnone c hc)
      rw [List.set_cons_zero, List.map_cons, if_pos hhit, hrest]
    | succ i =>
      have hne : ¬ hit d b := by
        intro hb
        rw [AtMostOne, List.filter_cons_of_pos hb, List.length_cons] at h
        have hmem : a ∈ rows.filter (hit d) :=
          List.mem_filter.mpr ⟨List.mem_of_getElem? (by simpa using ha), hhit⟩
        have hpos := List.length_pos_of_mem hmem
        omega
      rw [List.set_cons_succ, List.map_cons, if_neg hne, ih h.tail (by simpa using ha)]

theorem absorb_of_hit (h : AtMostOne hit d rows) {i : ℕ} {a : α} (ha : rows[i]? = some a)
    (hhit : hit d a) : absorb hit merge create rows d = rows.set i (merge a d) := by
  rw [absorb, if_pos (List.any_eq_true.mpr ⟨a, List.mem_of_getElem? ha, hhit⟩)]
  exact (set_eq_map h ha hhit fun b => merge b d).symm

theorem absorb_of_miss (h : ∀ a ∈ rows, ¬ hit d a) :
    absorb hit merge create rows d = rows ++ [create d] :=
  if_neg fun hany => by
    obtain ⟨a, ha, hhit⟩ := List.any_eq_true.mp hany
    exact h a ha hhit

theorem absorb_append_of_hit {a : α} (h : ∀ b ∈ rows, ¬ hit d b) (ha : hit d a) :
    absorb hit merge create (rows ++ [a]) d = rows ++ [merge a d] := by
  have hrows : rows.map (fun b => if hit d b then merge b d else b) = rows := by
    conv_rhs => rw [← List.map_id rows]
    exact List.map_congr_left fun b hb => if_neg (h b hb)
  rw [absorb, if_pos (by simp [ha]), List.map_append, hrows, List.map_singleton, if_pos ha]

theorem filter_absorb (hmerge : ∀ a, P (merge a d) = P a) (hhit : ∀ a, hit d a → P a)
    (hcreate : P (create d)) :
    (absorb hit merge create rows d).filter P = absorb hit merge create (rows.filter P) d := by
  have hany : (rows.filter P).any (hit d) = rows.any (hit d) := by
    rw [Bool.eq_iff_iff, List.any_eq_true, List.any_eq_true]
    constructor
    · intro h
      obtain ⟨a, ha, hd⟩ := h
      exact ⟨a, List.mem_of_mem_filter ha, hd⟩
    · intro h
      obtain ⟨a, ha, hd⟩ := h
      exact ⟨a, List.mem_filter.mpr ⟨ha, hhit a hd⟩, hd⟩
  rw [absorb, absorb, hany]
  split_ifs
  · rw [List.filter_map]
    congr 1
    refine List.filter_congr fun a _ => ?_
    by_cases ha : hit d a <;> simp [ha, hmerge]
  · rw [List.filter_append, List.filter_cons_of_pos hcreate, List.filter_nil]

theorem filter_set_of_not {i : ℕ} {a b : α} (hi : rows[i]? = some a) (ha : ¬ P a) (hb : ¬ P b) :
    (rows.set i b).filter P = rows.filter P := by
  induction rows generalizing i with
  | nil => cases hi
  | cons c rows ih =>
    cases i with
    | zero =>
      obtain rfl : c = a := Option.some.inj hi
      rw [List.set_cons_zero, List.filter_cons_of_neg ha, List.filter_cons_of_neg hb]
    | succ i =>
      rw [List.getElem?_cons_succ] at hi
      rw [List.set_cons_succ, List.filter_cons, List.filter_cons, ih hi]

end Upsert

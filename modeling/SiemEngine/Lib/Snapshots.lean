import Mathlib.Data.Finset.Card
import Mathlib.Data.List.Induction

/-!
# Counting a union from the sizes of snapshots

Snapshots of a changing set are taken now and then, each with an element that no earlier
one has. A counter that only sees their sizes adds one at each, and jumps to the size when
that is larger. It counts the union of the snapshots exactly as long as each one brings a
single new element or still has all the earlier ones.
-/

namespace Snapshots

variable {α : Type*} [DecidableEq α]

def tally (count : ℤ) (size : ℤ) : ℤ := max (count + 1) size

def tallied (Ws : List (Finset α)) : ℤ := (Ws.map fun W => (W.card : ℤ)).foldl tally 0

def union (Ws : List (Finset α)) : Finset α := Ws.foldl (· ∪ ·) ∅

def taken (marked : ℕ → Bool) (W : ℕ → Finset α) (n : ℕ) : List (Finset α) :=
  ((List.range n).filter marked).map W

variable {Ws : List (Finset α)} {U W : Finset α} {marked : ℕ → Bool} {snapshot : ℕ → Finset α}

omit [DecidableEq α] in
theorem tallied_concat (Ws : List (Finset α)) (W : Finset α) :
    tallied (Ws ++ [W]) = tally (tallied Ws) W.card := by
  rw [tallied, List.map_append, List.map_singleton, List.foldl_concat, tallied]

theorem union_concat (Ws : List (Finset α)) (W : Finset α) :
    union (Ws ++ [W]) = union Ws ∪ W :=
  List.foldl_concat ..

theorem mem_union {x : α} : x ∈ union Ws ↔ ∃ W ∈ Ws, x ∈ W := by
  induction Ws using List.reverseRecOn with
  | nil => simp [union]
  | append_singleton Ws W ih =>
    rw [union_concat, Finset.mem_union, ih]
    constructor
    · rintro (⟨V, hV, hx⟩ | hx)
      · exact ⟨V, List.mem_append_left _ hV, hx⟩
      · exact ⟨W, List.mem_append_right _ (List.mem_singleton_self W), hx⟩
    · rintro ⟨V, hV, hx⟩
      rcases List.mem_append.mp hV with hV | hV
      · exact Or.inl ⟨V, hV, hx⟩
      · exact Or.inr (List.mem_singleton.mp hV ▸ hx)

theorem tally_eq_card_iff (hnew : (W \ U).Nonempty) :
    tally U.card W.card = (U ∪ W).card ↔ (W \ U).card = 1 ∨ U ⊆ W := by
  have hunion : (W \ U).card + U.card = (U ∪ W).card := by
    rw [Finset.union_comm]
    exact Finset.card_sdiff_add_card W U
  have hsplit : (W \ U).card + (W ∩ U).card = W.card := Finset.card_sdiff_add_card_inter W U
  have hpos : 0 < (W \ U).card := hnew.card_pos
  have hle : (W ∩ U).card ≤ U.card := Finset.card_le_card Finset.inter_subset_right
  have hsub : U ⊆ W ↔ (W ∩ U).card = U.card := by
    constructor
    · intro h
      rw [Finset.inter_eq_right.mpr h]
    · intro h
      exact Finset.inter_eq_right.mp (Finset.eq_of_subset_of_card_le Finset.inter_subset_right h.ge)
  rw [hsub, tally]
  omega

omit [DecidableEq α] in
theorem taken_succ (n : ℕ) : taken marked snapshot (n + 1) =
    taken marked snapshot n ++ if marked n then [snapshot n] else [] := by
  rw [taken, List.range_succ, List.filter_append, List.map_append, taken]
  by_cases h : marked n <;> simp [h]

/-- The counter is right at all times exactly when each snapshot brings one new element or
keeps all earlier ones. -/
theorem tallied_eq_card_iff (N : ℕ)
    (hnew : ∀ n, marked n → (snapshot n \ union (taken marked snapshot n)).Nonempty) :
    (∀ n ≤ N, tallied (taken marked snapshot n) = (union (taken marked snapshot n)).card) ↔
      ∀ n < N, marked n → (snapshot n \ union (taken marked snapshot n)).card = 1 ∨
        union (taken marked snapshot n) ⊆ snapshot n := by
  have hstep : ∀ n, tallied (taken marked snapshot n) = (union (taken marked snapshot n)).card →
      (tallied (taken marked snapshot (n + 1)) =
          (union (taken marked snapshot (n + 1))).card ↔
        (marked n → (snapshot n \ union (taken marked snapshot n)).card = 1 ∨
          union (taken marked snapshot n) ⊆ snapshot n)) := by
    intro n hn
    rw [taken_succ]
    by_cases hmark : marked n
    · rw [if_pos hmark, tallied_concat, union_concat, hn, tally_eq_card_iff (hnew n hmark)]
      exact ⟨fun h _ => h, fun h => h hmark⟩
    · rw [if_neg hmark, List.append_nil]
      exact iff_of_true hn fun h => absurd h hmark
  constructor
  · intro h n hn
    exact (hstep n (h n hn.le)).mp (h (n + 1) hn)
  · intro h n hn
    induction n with
    | zero => rfl
    | succ n ih => exact (hstep n (ih (Nat.le_of_succ_le hn))).mpr (h n hn)

end Snapshots

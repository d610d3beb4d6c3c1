import Mathlib.Algebra.BigOperators.Group.Finset.Piecewise
import Mathlib.Algebra.Order.Ring.Nat
import SiemEngine.Lib.Pages

/-!
# Grouped rows

A grouping query returns one row for each key that occurs, in whatever order the keys come out:
each row of the table counts in exactly one group. Grouping by a coarser key adds finer groups
up, and the first `n` groups by size weigh at least as much as any other `n`.
-/

namespace Grouping

variable {ρ κ κ' M : Type*}

section

variable [DecidableEq κ]

def keys (key : ρ → κ) (rows : List ρ) : List κ := (rows.map key).dedup

def group (key : ρ → κ) (rows : List ρ) (k : κ) : List ρ := rows.filter fun r => key r = k

def size (key : ρ → κ) (rows : List ρ) (k : κ) : ℕ := (group key rows k).length

/-- A result of the query whose order nothing fixes. -/
structure Groups (key : ρ → κ) (rows : List ρ) where
  list : List κ
  perm : list.Perm (keys key rows)

def Groups.ofRows (key : ρ → κ) (rows : List ρ) : Groups key rows := ⟨_, List.Perm.refl _⟩

/-- A result sorted by the size of the groups, the largest first. -/
abbrev Largest (key : ρ → κ) (rows : List ρ) := Pages.Ordered (size key rows) (keys key rows)

variable {key : ρ → κ} {rows rows' : List ρ} {ks : List κ} {k : κ}

theorem mem_keys : k ∈ keys key rows ↔ ∃ r ∈ rows, key r = k := by
  rw [keys, List.mem_dedup, List.mem_map]

theorem nodup_keys (key : ρ → κ) (rows : List ρ) : (keys key rows).Nodup := List.nodup_dedup _

theorem mem_group {r : ρ} : r ∈ group key rows k ↔ r ∈ rows ∧ key r = k := by
  rw [group, List.mem_filter, decide_eq_true_iff]

theorem size_eq_zero (hk : k ∉ keys key rows) : size key rows k = 0 := by
  rw [size, List.length_eq_zero_iff, group, List.filter_eq_nil_iff]
  intro r hr hrk
  exact hk (mem_keys.mpr ⟨r, hr, of_decide_eq_true hrk⟩)

/-- The groups of any list of keys that has each key of the rows once share the rows out. -/
theorem sum_groups_of_cover [AddCommMonoid M] (w : ρ → M) (hnodup : ks.Nodup)
    (hcover : ∀ r ∈ rows, key r ∈ ks) :
    (ks.map fun k => ((group key rows k).map w).sum).sum = (rows.map w).sum := by
  induction rows with
  | nil => simp [group]
  | cons r rows ih =>
    obtain ⟨hr, hcover⟩ := List.forall_mem_cons.mp hcover
    have hgroup : ∀ k, ((group key (r :: rows) k).map w).sum =
        (if k = key r then w r else 0) + ((group key rows k).map w).sum := by
      intro k
      rw [group, List.filter_cons]
      by_cases hk : key r = k
      · rw [if_pos (decide_eq_true hk), if_pos hk.symm, List.map_cons, List.sum_cons]
        rfl
      · rw [if_neg (by simpa using hk), if_neg (Ne.symm hk), zero_add]
        rfl
    have hone : (ks.map fun k => if k = key r then w r else 0).sum = w r := by
      rw [← List.sum_toFinset _ hnodup, Finset.sum_ite_eq', if_pos (List.mem_toFinset.mpr hr)]
    rw [List.map_cons, List.sum_cons, ← ih hcover, ← hone, ← List.sum_map_add]
    exact congrArg List.sum (List.map_congr_left fun k _ => hgroup k)

theorem sum_groups [AddCommMonoid M] (w : ρ → M) (h : ks.Perm (keys key rows)) :
    (ks.map fun k => ((group key rows k).map w).sum).sum = (rows.map w).sum :=
  sum_groups_of_cover w (h.nodup_iff.mpr (nodup_keys key rows)) fun r hr =>
    h.mem_iff.mpr (mem_keys.mpr ⟨r, hr, rfl⟩)

theorem sum_map_one (rows : List ρ) : (rows.map fun _ => 1).sum = rows.length := by simp

theorem sum_size (h : ks.Perm (keys key rows)) :
    (ks.map (size key rows)).sum = rows.length := by
  have hsum := sum_groups (fun _ : ρ => 1) h
  simp only [sum_map_one] at hsum
  exact hsum

theorem sum_countP_of_cover (p : ρ → Bool) (hnodup : ks.Nodup) (hcover : ∀ r ∈ rows, key r ∈ ks) :
    (ks.map fun k => (group key rows k).countP p).sum = rows.countP p := by
  have hsum := @sum_groups_of_cover _ _ _ _ key (rows.filter p) ks _ (fun _ => 1) hnodup
    fun r hr => hcover r (List.mem_of_mem_filter hr)
  simp only [sum_map_one] at hsum
  rw [List.countP_eq_length_filter, ← hsum]
  refine congrArg List.sum (List.map_congr_left fun k _ => ?_)
  rw [List.countP_eq_length_filter, group, group, List.filter_filter, List.filter_filter]
  exact congrArg List.length (List.filter_congr fun r _ => Bool.and_comm _ _)

/-- Grouped by a coarser key, a group is made of the finer groups that fall into it. -/
theorem sum_finer [DecidableEq κ'] (f : κ → κ') (h : ks.Perm (keys key rows)) (k' : κ') :
    ((ks.filter fun k => f k = k').map (size key rows)).sum = size (f ∘ key) rows k' := by
  have hnodup : (ks.filter fun k => f k = k').Nodup :=
    (h.nodup_iff.mpr (nodup_keys key rows)).filter _
  have hcover : ∀ r ∈ group (f ∘ key) rows k', key r ∈ ks.filter fun k => f k = k' := by
    intro r hr
    obtain ⟨hr, hk⟩ := mem_group.mp hr
    exact List.mem_filter.mpr ⟨h.mem_iff.mpr (mem_keys.mpr ⟨r, hr, rfl⟩), decide_eq_true hk⟩
  have hsum := sum_groups_of_cover (fun _ : ρ => 1) hnodup hcover
  simp only [sum_map_one] at hsum
  rw [size, ← hsum]
  refine congrArg List.sum (List.map_congr_left fun k hk => ?_)
  have hfk : f k = k' := of_decide_eq_true (List.mem_filter.mp hk).2
  rw [size, group, group, group, List.filter_filter]
  refine congrArg List.length (List.filter_congr fun r _ => ?_)
  by_cases hr : key r = k
  · simp [hr, hfk]
  · simp [hr]

end

theorem sum_le_take {xs ys : List κ} {f : κ → ℕ} (hsorted : (xs.map f).Pairwise (· ≥ ·))
    (hsub : ys.Sublist xs) {n : ℕ} (hn : ys.length ≤ n) :
    (ys.map f).sum ≤ ((xs.take n).map f).sum := by
  induction xs generalizing ys n with
  | nil => rw [List.sublist_nil.mp hsub, List.take_nil]
  | cons x xs ih =>
    obtain ⟨hx, hsorted⟩ := List.pairwise_cons.mp hsorted
    cases ys with
    | nil => exact Nat.zero_le _
    | cons y ys =>
      obtain ⟨n, rfl⟩ := Nat.exists_eq_add_of_le' (Nat.one_le_of_lt hn)
      -- the first entry weighs at least as much as `y`, whether it is `y` or not
      have hy : f y ≤ f x ∧ ys.Sublist xs := by
        rcases List.cons_sublist_cons'.mp hsub with hsub | ⟨rfl, hsub⟩
        · exact ⟨hx _ (List.mem_map_of_mem (hsub.subset List.mem_cons_self)),
            (List.sublist_cons_self y ys).trans hsub⟩
        · exact ⟨le_rfl, List.cons_sublist_cons.mp hsub⟩
      have hrest := ih hsorted hy.2 (Nat.le_of_succ_le_succ hn)
      rw [List.take_succ_cons, List.map_cons, List.map_cons, List.sum_cons, List.sum_cons]
      exact Nat.add_le_add hy.1 hrest

/-- Whichever way ties are broken, no `n` keys have more rows than the `n` that lead. -/
theorem Largest.sum_le [DecidableEq κ] {key : ρ → κ} {rows : List ρ} (o : Largest key rows)
    {ks : List κ} (hnodup : ks.Nodup) {n : ℕ} (hn : ks.length ≤ n) :
    (ks.map (size key rows)).sum ≤ ((o.list.take n).map (size key rows)).sum := by
  have hlist : o.list.Nodup := o.perm.nodup_iff.mpr (nodup_keys key rows)
  have hsplit : ((ks.filter (· ∈ o.list)).map (size key rows)).sum =
      (ks.map (size key rows)).sum := by
    induction ks with
    | nil => rfl
    | cons k ks ih =>
      have hks := ih (List.nodup_cons.mp hnodup).2 (Nat.le_of_succ_le hn)
      rw [List.filter_cons, List.map_cons, List.sum_cons, ← hks]
      split_ifs with hk
      · rw [List.map_cons, List.sum_cons]
      · have hzero : size key rows k = 0 :=
          size_eq_zero fun hmem => hk (decide_eq_true (o.perm.mem_iff.mpr hmem))
        rw [hzero, Nat.zero_add]
  have hperm : (ks.filter (· ∈ o.list)).Perm (o.list.filter (· ∈ ks)) := by
    rw [List.perm_ext_iff_of_nodup (hnodup.filter _) (hlist.filter _)]
    intro k
    simp only [List.mem_filter, decide_eq_true_eq]
    exact and_comm
  have hlength : (o.list.filter (· ∈ ks)).length ≤ n :=
    hperm.length_eq.ge.trans ((List.length_filter_le _ _).trans hn)
  rw [← hsplit, (hperm.map _).sum_eq]
  exact sum_le_take o.sorted List.filter_sublist hlength

end Grouping

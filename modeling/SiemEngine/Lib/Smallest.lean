import Mathlib.Data.List.Dedup
import Mathlib.Data.List.Perm.Subperm
import Mathlib.Data.List.Sort

/-!
# The smallest elements of a list

`smallest k xs` lists the first `k` of the elements of `xs` in increasing order, each once.
It depends on the set of the elements only, and it can be taken in parts: of a union it
needs no more of either part than its own smallest elements.
-/

namespace Smallest

variable {α : Type*} [LinearOrder α]

def smallest (k : ℕ) (xs : List α) : List α := (xs.dedup.insertionSort (· ≤ ·)).take k

variable {k : ℕ} {xs ys : List α} {x y z : α}

theorem pairwise_lt_sort (xs : List α) : (xs.dedup.insertionSort (· ≤ ·)).Pairwise (· < ·) := by
  have hnodup : (xs.dedup.insertionSort (· ≤ ·)).Nodup :=
    (List.perm_insertionSort (· ≤ ·) xs.dedup).nodup_iff.mpr (List.nodup_dedup xs)
  have hle := List.pairwise_insertionSort (· ≤ ·) xs.dedup
  exact hle.imp₂ (fun _ _ h h' => lt_of_le_of_ne h h') hnodup

theorem mem_sort : x ∈ xs.dedup.insertionSort (· ≤ ·) ↔ x ∈ xs := by
  rw [List.mem_insertionSort, List.mem_dedup]

theorem pairwise_lt_smallest (k : ℕ) (xs : List α) : (smallest k xs).Pairwise (· < ·) :=
  (pairwise_lt_sort xs).sublist (List.take_sublist k _)

theorem mem_of_mem_smallest (h : x ∈ smallest k xs) : x ∈ xs :=
  mem_sort.mp ((List.take_sublist k _).subset h)

theorem eq_of_mem_iff (hx : xs.Pairwise (· < ·)) (hy : ys.Pairwise (· < ·))
    (h : ∀ a, a ∈ xs ↔ a ∈ ys) : xs = ys :=
  List.Perm.eq_of_pairwise' hx hy
    ((List.perm_ext_iff_of_nodup (hx.imp ne_of_lt) (hy.imp ne_of_lt)).mpr h)

theorem smallest_congr (h : ∀ a, a ∈ xs ↔ a ∈ ys) : smallest k xs = smallest k ys := by
  have hsort : xs.dedup.insertionSort (· ≤ ·) = ys.dedup.insertionSort (· ≤ ·) :=
    eq_of_mem_iff (pairwise_lt_sort xs) (pairwise_lt_sort ys) fun a => by
      rw [mem_sort, mem_sort, h]
  rw [smallest, smallest, hsort]

theorem smallest_of_pairwise (h : xs.Pairwise (· < ·)) : smallest k xs = xs.take k := by
  rw [smallest, eq_of_mem_iff (pairwise_lt_sort xs) h fun a => mem_sort]

/-- An element that is left out is greater than all of the `k` that are not. -/
theorem left_out (hy : y ∈ xs) (hn : y ∉ smallest k xs) :
    (smallest k xs).length = k ∧ ∀ z ∈ smallest k xs, z < y := by
  have hdrop : y ∈ (xs.dedup.insertionSort (· ≤ ·)).drop k := by
    have hmem := mem_sort.mpr hy
    rw [← List.take_append_drop k (xs.dedup.insertionSort (· ≤ ·)), List.mem_append] at hmem
    exact hmem.resolve_left hn
  refine ⟨?_, fun z hz => ?_⟩
  · have hpos := List.length_pos_of_mem hdrop
    rw [List.length_drop] at hpos
    rw [smallest, List.length_take]
    omega
  · have hpair := pairwise_lt_sort xs
    rw [← List.take_append_drop k (xs.dedup.insertionSort (· ≤ ·))] at hpair
    exact (List.pairwise_append.mp hpair).2.2 z hz y hdrop

theorem mem_smallest_of_lt (hx : x ∈ smallest k xs) (hz : z ∈ xs) (h : z < x) :
    z ∈ smallest k xs := by
  by_contra hn
  exact absurd ((left_out hz hn).2 x hx) h.asymm

theorem not_mem_of_full (hn : ys.Nodup) (hlen : ys.length = k) (hsub : ∀ y ∈ ys, y ∈ smallest k xs)
    (hx : x ∉ ys) : x ∉ smallest k xs := by
  intro hmem
  have hall : x :: ys ⊆ smallest k xs := List.cons_subset.mpr ⟨hmem, hsub⟩
  have hle := (List.Nodup.subperm (List.nodup_cons.mpr ⟨hx, hn⟩) hall).length_le
  have htake : (smallest k xs).length ≤ k := List.length_take_le k _
  rw [List.length_cons] at hle
  omega

theorem mem_part_of_mem (hx : x ∈ smallest k (xs ++ ys)) : x ∈ smallest k xs ++ ys := by
  rcases List.mem_append.mp (mem_of_mem_smallest hx) with hxs | hys
  · by_cases hpart : x ∈ smallest k xs
    · exact List.mem_append_left ys hpart
    · obtain ⟨hlen, hlt⟩ := left_out hxs hpart
      refine absurd hx (not_mem_of_full ((pairwise_lt_smallest k xs).imp ne_of_lt) hlen
        (fun z hz => ?_) hpart)
      exact mem_smallest_of_lt hx (List.mem_append_left ys (mem_of_mem_smallest hz)) (hlt z hz)
  · exact List.mem_append_right _ hys

theorem smallest_append_smallest (k : ℕ) (xs ys : List α) :
    smallest k (smallest k xs ++ ys) = smallest k (xs ++ ys) := by
  have hsub : ∀ z ∈ smallest k xs ++ ys, z ∈ xs ++ ys := by
    intro z hz
    rcases List.mem_append.mp hz with hz | hz
    · exact List.mem_append_left ys (mem_of_mem_smallest hz)
    · exact List.mem_append_right xs hz
  have hwhole : ∀ x ∈ smallest k (xs ++ ys), x ∈ smallest k (smallest k xs ++ ys) := by
    intro x hx
    by_contra hn
    obtain ⟨hlen, hlt⟩ := left_out (mem_part_of_mem hx) hn
    refine not_mem_of_full ((pairwise_lt_smallest k _).imp ne_of_lt) hlen (fun z hz => ?_) hn hx
    exact mem_smallest_of_lt hx (hsub z (mem_of_mem_smallest hz)) (hlt z hz)
  refine eq_of_mem_iff (pairwise_lt_smallest k _) (pairwise_lt_smallest k _) fun x =>
    ⟨fun hx => ?_, hwhole x⟩
  by_contra hn
  obtain ⟨hlen, -⟩ := left_out (hsub x (mem_of_mem_smallest hx)) hn
  exact not_mem_of_full ((pairwise_lt_smallest k _).imp ne_of_lt) hlen hwhole hn hx

end Smallest

import Mathlib.Algebra.BigOperators.Group.List.Basic
import Mathlib.Data.List.Nodup
import Mathlib.Data.List.Sort
import Mathlib.Order.Nat

/-!
# Pages of a sorted result

A query returns its rows sorted by a key and in any order where keys are equal; every page is
cut out of the result of a query of its own. The pages contain each row once, whatever the
queries return, exactly when no key is shared across the boundary of two pages. The first rows
of two results, merged, are the first rows of one.
-/

namespace Pages

variable {ρ κ : Type*} [LinearOrder κ]

structure Ordered (key : ρ → κ) (rows : List ρ) where
  list : List ρ
  perm : list.Perm rows
  sorted : (list.map key).Pairwise (· ≥ ·)

def page (size k : ℕ) (xs : List ρ) : List ρ := (xs.drop (k * size)).take size

def keys (key : ρ → κ) (rows : List ρ) : List κ := (rows.map key).insertionSort (· ≥ ·)

/-- The rows on the two sides of every page boundary have different keys. -/
def Unsplit (key : ρ → κ) (size : ℕ) (rows : List ρ) : Prop :=
  ∀ k, k ≠ 0 → k * size < rows.length →
    (keys key rows)[k * size - 1]? ≠ (keys key rows)[k * size]?

variable {key : ρ → κ} {rows : List ρ} {size : ℕ}

theorem pairwise_keys (key : ρ → κ) (rows : List ρ) : (keys key rows).Pairwise (· ≥ ·) :=
  List.pairwise_insertionSort (· ≥ ·) (rows.map key)

theorem map_key (o : Ordered key rows) : o.list.map key = keys key rows := by
  have hperm : (o.list.map key).Perm (keys key rows) :=
    (o.perm.map key).trans (List.perm_insertionSort _ _).symm
  exact hperm.eq_of_pairwise (fun a b _ _ hab hba => le_antisymm hba hab) o.sorted
    (pairwise_keys key rows)

theorem getElem?_keys (o : Ordered key rows) (i : ℕ) :
    (keys key rows)[i]? = o.list[i]?.map key := by
  rw [← map_key o, List.getElem?_map]

theorem keys_antitone {i j : ℕ} (hij : i ≤ j) {u v : κ} (hu : (keys key rows)[i]? = some u)
    (hv : (keys key rows)[j]? = some v) : v ≤ u := by
  rcases Nat.eq_or_lt_of_le hij with rfl | hlt
  · rw [hu, Option.some.injEq] at hv
    exact hv.ge
  · obtain ⟨hi, rfl⟩ := List.getElem?_eq_some_iff.mp hu
    obtain ⟨hj, rfl⟩ := List.getElem?_eq_some_iff.mp hv
    exact List.pairwise_iff_getElem.mp (pairwise_keys key rows) i j hi hj hlt

theorem length_keys (key : ρ → κ) (rows : List ρ) : (keys key rows).length = rows.length := by
  rw [keys, List.length_insertionSort, List.length_map]

def Ordered.sort (key : ρ → κ) (rows : List ρ) : Ordered key rows where
  list := rows.insertionSort fun a b => key a ≥ key b
  perm := List.perm_insertionSort _ _
  sorted := List.pairwise_map.mpr (List.pairwise_insertionSort (Order.Preimage key (· ≥ ·)) rows)

theorem page_succ (size k : ℕ) (xs : List ρ) :
    page size (k + 1) xs = page size k (xs.drop size) := by
  rw [page, page, List.drop_drop, Nat.succ_mul, Nat.add_comm size]

theorem flatten_pages {n : ℕ} {xs : List ρ} (hn : xs.length ≤ n * size) :
    ((List.range n).map fun k => page size k xs).flatten = xs := by
  induction n generalizing xs with
  | zero =>
    rw [Nat.zero_mul, Nat.le_zero] at hn
    rw [List.length_eq_zero_iff.mp hn]
    rfl
  | succ n ih =>
    have hrest : (xs.drop size).length ≤ n * size := by
      rw [List.length_drop]
      rw [Nat.succ_mul] at hn
      omega
    rw [List.range_succ_eq_map, List.map_cons, List.map_map, List.flatten_cons]
    have hpages : (List.range n).map ((fun k => page size k xs) ∘ Nat.succ) =
        (List.range n).map fun k => page size k (xs.drop size) :=
      List.map_congr_left fun k _ => page_succ size k xs
    rw [hpages, ih hrest, page, Nat.zero_mul, List.drop_zero, List.take_append_drop]

theorem mem_page_iff {k : ℕ} {xs : List ρ} {r : ρ} :
    r ∈ page size k xs ↔ ∃ i, k * size ≤ i ∧ i < (k + 1) * size ∧ xs[i]? = some r := by
  unfold page
  rw [List.mem_iff_getElem?]
  constructor
  · rintro ⟨i, hi⟩
    rw [List.getElem?_take] at hi
    split_ifs at hi with hlt
    rw [List.getElem?_drop] at hi
    exact ⟨k * size + i, Nat.le_add_right _ _, by rw [Nat.succ_mul]; omega, hi⟩
  · rintro ⟨i, hle, hlt, hi⟩
    refine ⟨i - k * size, ?_⟩
    rw [Nat.succ_mul] at hlt
    rw [List.getElem?_take, if_pos (by omega), List.getElem?_drop, Nat.add_sub_cancel' hle, hi]

theorem take_eq_filter (o : Ordered key rows) {b : ℕ} {t : κ} (ht : (keys key rows)[b]? = some t)
    (hne : (keys key rows)[b - 1]? ≠ some t) :
    o.list.take b = o.list.filter fun r => t < key r := by
  have hbefore : ∀ r ∈ o.list.take b, t < key r := by
    intro r hr
    obtain ⟨i, hi⟩ := List.mem_iff_getElem?.mp hr
    rw [List.getElem?_take] at hi
    split_ifs at hi with hlt
    have hkey : (keys key rows)[i]? = some (key r) := by rw [getElem?_keys o, hi, Option.map_some]
    obtain ⟨hlen, -⟩ := List.getElem?_eq_some_iff.mp ht
    have hlast : (keys key rows)[b - 1]? = some (keys key rows)[b - 1] :=
      List.getElem?_eq_getElem (by omega)
    have hge := keys_antitone (by omega) hkey hlast
    have hle := keys_antitone (Nat.sub_le b 1) hlast ht
    rw [hlast] at hne
    exact (lt_of_le_of_ne hle fun heq => hne (congrArg some heq.symm)).trans_le hge
  have hafter : ∀ r ∈ o.list.drop b, ¬ t < key r := by
    intro r hr
    obtain ⟨i, hi⟩ := List.mem_iff_getElem?.mp hr
    rw [List.getElem?_drop] at hi
    have hkey : (keys key rows)[b + i]? = some (key r) := by
      rw [getElem?_keys o, hi, Option.map_some]
    exact not_lt.mpr (keys_antitone (Nat.le_add_right b i) ht hkey)
  conv_rhs => rw [← List.take_append_drop b o.list, List.filter_append]
  rw [List.filter_eq_self.mpr fun r hr => decide_eq_true (hbefore r hr),
    List.filter_eq_nil_iff.mpr fun r hr => by simpa using hafter r hr, List.append_nil]

theorem take_perm (o o' : Ordered key rows) (hsize : Unsplit key size rows) (k : ℕ) :
    (o.list.take (k * size)).Perm (o'.list.take (k * size)) := by
  have hperm := o.perm.trans o'.perm.symm
  by_cases hend : rows.length ≤ k * size
  · rwa [List.take_of_length_le (o.perm.length_eq.trans_le hend),
      List.take_of_length_le (o'.perm.length_eq.trans_le hend)]
  · by_cases hzero : k = 0
    · rw [hzero, Nat.zero_mul, List.take_zero, List.take_zero]
    · have hne := hsize k hzero (by omega)
      cases ht : (keys key rows)[k * size]? with
      | none =>
        have hlen := List.getElem?_eq_none_iff.mp ht
        rw [length_keys] at hlen
        exact absurd hlen hend
      | some t =>
        rw [ht] at hne
        rw [take_eq_filter o ht hne, take_eq_filter o' ht hne]
        exact hperm.filter _

theorem page_perm (o o' : Ordered key rows) (hsize : Unsplit key size rows) (k : ℕ) :
    (page size k o.list).Perm (page size k o'.list) := by
  have hsplit : ∀ xs : List ρ, xs.take ((k + 1) * size) =
      xs.take (k * size) ++ page size k xs := by
    intro xs
    rw [page, Nat.succ_mul, List.take_add]
  have hnext := take_perm o o' hsize (k + 1)
  rw [hsplit, hsplit] at hnext
  exact (List.perm_append_left_iff _).mp (((take_perm o' o hsize k).append_right _).trans hnext)

/-- Every row stands on exactly one page, each page cut out of a result of its own. -/
def Covers [DecidableEq ρ] (key : ρ → κ) (size : ℕ) (rows : List ρ) : Prop :=
  ∀ results : ℕ → Ordered key rows, ∀ r ∈ rows,
    ((List.range (rows.length / size + 1)).map fun k => page size k (results k).list).flatten.count r
      = 1

theorem length_le_pages (hsize : 0 < size) (n : ℕ) : n ≤ (n / size + 1) * size := by
  have hdiv := Nat.div_add_mod n size
  have hmod := Nat.mod_lt n hsize
  rw [Nat.succ_mul, Nat.mul_comm]
  omega

theorem covers_of_unsplit [DecidableEq ρ] (hsize : 0 < size) (hnodup : rows.Nodup)
    (h : Unsplit key size rows) : Covers key size rows := by
  intro results r hr
  have hcounts : ((List.range (rows.length / size + 1)).map fun k =>
      page size k (results k).list).flatten.count r =
      ((List.range (rows.length / size + 1)).map fun k =>
        page size k (results 0).list).flatten.count r := by
    rw [List.count_flatten, List.count_flatten, List.map_map, List.map_map]
    refine congrArg List.sum (List.map_congr_left fun k _ => ?_)
    exact (page_perm (results k) (results 0) h k).count_eq r
  have hlen : (results 0).list.length ≤ (rows.length / size + 1) * size := by
    rw [(results 0).perm.length_eq]
    exact length_le_pages hsize rows.length
  rw [hcounts, flatten_pages hlen, (results 0).perm.count_eq]
  exact List.count_eq_one_of_mem hnodup hr

theorem exists_swapped {b : ℕ} (hb : b ≠ 0) (hlen : b < rows.length)
    (h : (keys key rows)[b - 1]? = (keys key rows)[b]?) :
    ∃ (o o' : Ordered key rows) (r : ρ), r ∈ rows ∧ o.list[b]? = some r ∧
      o'.list[b - 1]? = some r := by
  have o := Ordered.sort key rows
  obtain ⟨a, rfl⟩ := Nat.exists_eq_succ_of_ne_zero hb
  rw [Nat.succ_sub_one] at h ⊢
  have hlength : o.list.length = rows.length := o.perm.length_eq
  obtain ⟨front, before, after, back, hlist, hfront⟩ : ∃ front before after back,
      o.list = front ++ before :: after :: back ∧ front.length = a := by
    refine ⟨o.list.take a, o.list[a], o.list[a + 1], o.list.drop (a + 2), ?_, ?_⟩
    · rw [← List.drop_eq_getElem_cons, ← List.drop_eq_getElem_cons, List.take_append_drop]
    · rw [List.length_take]
      omega
  have hbefore : o.list[a]? = some before := by
    rw [hlist, List.getElem?_append_right hfront.le, hfront, Nat.sub_self]
    rfl
  have hafter : o.list[a + 1]? = some after := by
    rw [hlist, List.getElem?_append_right (by omega), hfront, Nat.add_sub_cancel_left]
    rfl
  have hkey : key before = key after := by
    rw [getElem?_keys o, getElem?_keys o, hbefore, hafter] at h
    exact Option.some.inj h
  have hswap : (front ++ after :: before :: back).Perm o.list := by
    rw [hlist]
    exact (List.Perm.swap _ _ _).append_left front
  refine ⟨o, ⟨front ++ after :: before :: back, hswap.trans o.perm, ?_⟩, after, ?_, hafter, ?_⟩
  · have hsorted := o.sorted
    rw [hlist] at hsorted
    simpa only [List.map_append, List.map_cons, hkey] using hsorted
  · exact o.perm.mem_iff.mp (List.mem_of_getElem? hafter)
  · rw [List.getElem?_append_right hfront.le, hfront, Nat.sub_self]
    rfl

theorem unsplit_of_covers [DecidableEq ρ] (hsize : 0 < size) (hnodup : rows.Nodup)
    (h : Covers key size rows) : Unsplit key size rows := by
  intro k hk hlt heq
  obtain ⟨o, o', r, hr, hafter, hbefore⟩ :=
    exists_swapped (Nat.mul_ne_zero hk (Nat.ne_of_gt hsize)) hlt heq
  have hcount := h (fun j => if j = k then o' else o) r hr
  have hunique : ∀ (q : Ordered key rows) {i j : ℕ}, q.list[i]? = some r → q.list[j]? = some r →
      i = j := by
    intro q i j hi hj
    have hq : q.list.Nodup := q.perm.nodup_iff.mpr hnodup
    obtain ⟨hilt, hieq⟩ := List.getElem?_eq_some_iff.mp hi
    obtain ⟨hjlt, hjeq⟩ := List.getElem?_eq_some_iff.mp hj
    exact (hq.getElem_inj_iff).mp (hieq.trans hjeq.symm)
  have hnot : r ∉ ((List.range (rows.length / size + 1)).map fun j =>
      page size j (if j = k then o' else o).list).flatten := by
    intro hmem
    obtain ⟨p, hp, hrp⟩ := List.mem_flatten.mp hmem
    obtain ⟨j, -, rfl⟩ := List.mem_map.mp hp
    obtain ⟨i, hle, hbound, hi⟩ := mem_page_iff.mp hrp
    split_ifs at hi with hjk
    · have hib := hunique o' hi hbefore
      have hpos := Nat.mul_ne_zero hk (Nat.ne_of_gt hsize)
      rw [hjk] at hle
      omega
    · have hib := hunique o hi hafter
      have hjle : j ≤ k := Nat.le_of_mul_le_mul_right (hle.trans hib.le) hsize
      have hkle : k < j + 1 := Nat.lt_of_mul_lt_mul_right (hib ▸ hbound)
      omega
  rw [List.count_eq_zero_of_not_mem hnot] at hcount
  exact absurd hcount (by decide)

theorem covers_iff [DecidableEq ρ] (hsize : 0 < size) (hnodup : rows.Nodup) :
    Covers key size rows ↔ Unsplit key size rows :=
  ⟨unsplit_of_covers hsize hnodup, covers_of_unsplit hsize hnodup⟩

theorem countP_le_index (o : Ordered key rows) {i : ℕ} {u : ρ} (hu : o.list[i]? = some u) {t : κ}
    (ht : key u < t) : o.list.countP (t ≤ key ·) ≤ i := by
  have hafter : (o.list.drop i).countP (t ≤ key ·) = 0 := by
    refine List.countP_eq_zero.mpr fun r hr hle => ?_
    obtain ⟨j, hj⟩ := List.mem_iff_getElem?.mp hr
    rw [List.getElem?_drop] at hj
    have hkey : ∀ {k : ℕ} {r : ρ}, o.list[k]? = some r → (keys key rows)[k]? = some (key r) := by
      intro k r hk
      rw [getElem?_keys o, hk, Option.map_some]
    have hru := keys_antitone (Nat.le_add_right i j) (hkey hu) (hkey hj)
    exact absurd ((of_decide_eq_true hle).trans hru) (not_le.mpr ht)
  rw [← List.take_append_drop i o.list, List.countP_append, hafter, Nat.add_zero]
  exact List.countP_le_length.trans (List.length_take_le _ _)

theorem le_countP_take (o : Ordered key rows) {n : ℕ} {r : ρ} (hr : r ∈ o.list.drop n) :
    n ≤ (o.list.take n).countP (key r ≤ key ·) := by
  have hlen : n < o.list.length := by
    by_contra hle
    rw [List.drop_eq_nil_of_le (not_lt.mp hle)] at hr
    exact absurd hr List.not_mem_nil
  have hall : (o.list.take n).countP (key r ≤ key ·) = (o.list.take n).length := by
    refine List.countP_eq_length.mpr fun u hu => decide_eq_true ?_
    have hsorted := List.pairwise_map.mp o.sorted
    rw [← List.take_append_drop n o.list, List.pairwise_append] at hsorted
    exact hsorted.2.2 u hu r hr
  rw [hall, List.length_take, min_eq_left hlen.le]

theorem key_le_of_merged {parts : List ρ} {n : ℕ} (o : Ordered key rows)
    (m : Ordered key parts) (hsub : (o.list.take n).Sublist parts) {u r : ρ}
    (hu : u ∈ m.list.take n) (hr : r ∈ o.list.drop n) : key r ≤ key u := by
  by_contra hlt
  obtain ⟨i, hi⟩ := List.mem_iff_getElem?.mp hu
  rw [List.getElem?_take] at hi
  split_ifs at hi with hin
  have hfew := countP_le_index m hi (not_le.mp hlt)
  have hmany := (le_countP_take o hr).trans hsub.countP_le
  rw [m.perm.countP_eq] at hfew
  omega

/-- The first `n` rows of the first `n` of two results are the first `n` of all. -/
theorem exists_ordered_append {xs ys : List ρ} {n : ℕ} (o : Ordered key xs) (o' : Ordered key ys)
    (m : Ordered key (o.list.take n ++ o'.list.take n)) :
    ∃ q : Ordered key (xs ++ ys), q.list.take n = m.list.take n := by
  let rest := Ordered.sort key (m.list.drop n ++ (o.list.drop n ++ o'.list.drop n))
  have hperm : (m.list.take n ++ rest.list).Perm (xs ++ ys) := by
    refine (rest.perm.append_left _).trans ?_
    rw [← List.append_assoc, List.take_append_drop]
    refine (m.perm.append_right _).trans ?_
    rw [List.append_assoc]
    refine ((List.perm_append_comm_assoc _ _ _).append_left _).trans ?_
    rw [← List.append_assoc, List.take_append_drop, List.take_append_drop]
    exact o.perm.append o'.perm
  have hsorted : ((m.list.take n ++ rest.list).map key).Pairwise (· ≥ ·) := by
    have hm := List.pairwise_map.mp m.sorted
    rw [← List.take_append_drop n m.list, List.pairwise_append] at hm
    refine List.pairwise_map.mpr (List.pairwise_append.mpr
      ⟨hm.1, List.pairwise_map.mp rest.sorted, fun u hu r hr => ?_⟩)
    have hmem := rest.perm.mem_iff.mp hr
    rw [List.mem_append, List.mem_append] at hmem
    rcases hmem with hr | hr | hr
    · exact hm.2.2 u hu r hr
    · exact key_le_of_merged o m (List.sublist_append_left _ _) hu hr
    · exact key_le_of_merged o' m (List.sublist_append_right _ _) hu hr
  refine ⟨⟨m.list.take n ++ rest.list, hperm, hsorted⟩, ?_⟩
  dsimp only
  by_cases hlen : n ≤ m.list.length
  · rw [List.take_append_of_le_length (by rw [List.length_take, min_eq_left hlen]),
      List.take_take, min_self]
  · -- both parts were given in full
    have hparts := m.perm.length_eq
    rw [List.length_append, List.length_take, List.length_take] at hparts
    have hnone : rest.list = [] := by
      have hlength := rest.perm.length_eq
      rw [List.length_append, List.length_append, List.length_drop, List.length_drop,
        List.length_drop] at hlength
      exact List.length_eq_zero_iff.mp (by omega)
    rw [hnone, List.append_nil, List.take_take, min_self]

end Pages

import Mathlib.Data.List.Nodup

/-!
# Insertion-ordered dictionaries

A dictionary is the list of its items in insertion order. Assigning to a present key
keeps its place, assigning to a new key appends, as the built-in mapping types of
scripting languages do; all reads go to the first entry of a key.
-/

namespace Dict

variable {κ β : Type*} [DecidableEq κ]

def get? (d : List (κ × β)) (k : κ) : Option β := d.lookup k

def set (d : List (κ × β)) (k : κ) (v : β) : List (κ × β) :=
  match d with
  | [] => [(k, v)]
  | (l, w) :: rest => if l = k then (k, v) :: rest else (l, w) :: set rest k v

def setDefault (d : List (κ × β)) (k : κ) (v : β) : List (κ × β) :=
  if k ∈ d.map Prod.fst then d else d ++ [(k, v)]

def update (d e : List (κ × β)) : List (κ × β) :=
  e.foldl (fun acc kv => set acc kv.1 kv.2) d

@[simp] theorem get?_nil (k : κ) : get? ([] : List (κ × β)) k = none := rfl

theorem get?_cons (l : κ) (w : β) (d : List (κ × β)) (k : κ) :
    get? ((l, w) :: d) k = if k = l then some w else get? d k := by
  by_cases h : k = l
  · subst h; simp [get?]
  · simp [get?, List.lookup_cons, h, beq_eq_false_iff_ne.mpr h]

theorem mem_of_get? {d : List (κ × β)} {k : κ} {v : β} (h : get? d k = some v) : (k, v) ∈ d := by
  induction d with
  | nil => cases h
  | cons e d ih =>
    rw [get?_cons] at h
    split_ifs at h with hk
    · rw [hk, ← Option.some.inj h]
      exact List.mem_cons_self
    · exact List.mem_cons_of_mem _ (ih h)

@[simp] theorem get?_set_self (d : List (κ × β)) (k : κ) (v : β) :
    get? (set d k v) k = some v := by
  induction d with
  | nil => simp [set, get?_cons]
  | cons kv d ih =>
    obtain ⟨l, w⟩ := kv
    by_cases h : l = k
    · simp [set, h, get?_cons]
    · simp [set, h, get?_cons, Ne.symm h, ih]

theorem get?_set_ne (d : List (κ × β)) {k l : κ} (h : l ≠ k) (v : β) :
    get? (set d k v) l = get? d l := by
  induction d with
  | nil => simp [set, get?_cons, h]
  | cons kv d ih =>
    obtain ⟨m, w⟩ := kv
    by_cases hm : m = k
    · subst hm; simp [set, get?_cons, h]
    · simp only [set, hm, ↓reduceIte, get?_cons, ih]

theorem length_set_le (d : List (κ × β)) (k : κ) (v : β) : (set d k v).length ≤ d.length + 1 := by
  induction d with
  | nil => simp [set]
  | cons lw d ih =>
    simp only [set]
    split_ifs <;> simp [ih]

theorem length_update_le (d e : List (κ × β)) : (update d e).length ≤ d.length + e.length := by
  induction e generalizing d with
  | nil => exact Nat.le_refl _
  | cons lv e ih =>
    have hset := length_set_le d lv.1 lv.2
    have hrest := ih (set d lv.1 lv.2)
    simp only [update, List.foldl_cons, List.length_cons] at hrest ⊢
    omega

theorem mem_set {d : List (κ × β)} {k : κ} {v : β} {kv : κ × β} (h : kv ∈ set d k v) :
    kv ∈ d ∨ kv = (k, v) := by
  induction d with
  | nil => simpa [set] using h
  | cons lw d ih =>
    by_cases hl : lw.1 = k
    · simp only [set, hl, ↓reduceIte, List.mem_cons] at h ⊢
      tauto
    · simp only [set, hl, ↓reduceIte, List.mem_cons] at h ⊢
      rcases h with h | h
      · exact Or.inl (Or.inl h)
      · exact (ih h).imp_left Or.inr

theorem keys_set (d : List (κ × β)) (k : κ) (v : β) :
    (set d k v).map Prod.fst = if k ∈ d.map Prod.fst then d.map Prod.fst
      else d.map Prod.fst ++ [k] := by
  induction d with
  | nil => simp [set]
  | cons lw d ih =>
    by_cases hl : lw.1 = k
    · simp [set, hl]
    · simp only [set, hl, ↓reduceIte, List.map_cons, ih, List.mem_cons, Ne.symm hl, false_or]
      split_ifs <;> simp

theorem set_of_notMem {d : List (κ × β)} {k : κ} (h : k ∉ d.map Prod.fst) (v : β) :
    set d k v = d ++ [(k, v)] := by
  induction d with
  | nil => rfl
  | cons lw d ih =>
    rw [List.map_cons, List.mem_cons, not_or] at h
    rw [set, if_neg (Ne.symm h.1), ih h.2, List.cons_append]

theorem filter_set (d : List (κ × β)) {k : κ} (v : β) {p : κ → Bool} (h : p k = false) :
    (set d k v).filter (fun kv => p kv.1) = d.filter fun kv => p kv.1 := by
  induction d with
  | nil => simp [set, h]
  | cons lw d ih =>
    obtain ⟨l, w⟩ := lw
    by_cases hl : l = k
    · simp [set, hl, h]
    · simp only [set, hl, ↓reduceIte, List.filter_cons, ih]

theorem nodup_keys_set {d : List (κ × β)} (h : (d.map Prod.fst).Nodup) (k : κ) (v : β) :
    ((set d k v).map Prod.fst).Nodup := by
  rw [keys_set]
  split_ifs with hk
  · exact h
  · rw [← List.concat_eq_append]
    exact List.Nodup.concat hk h

theorem nodup_keys_update {d : List (κ × β)} (h : (d.map Prod.fst).Nodup) (e : List (κ × β)) :
    ((update d e).map Prod.fst).Nodup := by
  induction e generalizing d with
  | nil => exact h
  | cons lv e ih => exact ih (nodup_keys_set h lv.1 lv.2)

theorem mem_update {d e : List (κ × β)} {kv : κ × β} (h : kv ∈ update d e) : kv ∈ d ∨ kv ∈ e := by
  induction e generalizing d with
  | nil => exact Or.inl h
  | cons lv e ih =>
    rcases ih h with h | h
    · exact (mem_set h).imp_right fun h => List.mem_cons.mpr (Or.inl h)
    · exact Or.inr (List.mem_cons_of_mem lv h)

theorem get?_eq_some_iff_mem {d : List (κ × β)} (h : (d.map Prod.fst).Nodup) {k : κ} {v : β} :
    get? d k = some v ↔ (k, v) ∈ d := by
  induction d with
  | nil => simp
  | cons lw d ih =>
    obtain ⟨l, w⟩ := lw
    rw [List.map_cons, List.nodup_cons] at h
    rw [get?_cons, List.mem_cons]
    split_ifs with hk
    · subst hk
      have hnot : (k, v) ∉ d := fun hmem => h.1 (List.mem_map.mpr ⟨(k, v), hmem, rfl⟩)
      simp [hnot, eq_comm]
    · simp [ih h.2, hk]

theorem get?_reverse {d : List (κ × β)} (h : (d.map Prod.fst).Nodup) (k : κ) :
    get? d.reverse k = get? d k := by
  have hrev : (d.reverse.map Prod.fst).Nodup := by
    rw [List.map_reverse, List.nodup_reverse]
    exact h
  refine Option.ext fun v => ?_
  rw [get?_eq_some_iff_mem hrev, get?_eq_some_iff_mem h, List.mem_reverse]

theorem get?_map {γ : Type*} (d : List (κ × β)) (f : β → γ) (k : κ) :
    get? (d.map fun kv => (kv.1, f kv.2)) k = (get? d k).map f := by
  induction d with
  | nil => rfl
  | cons lw d ih =>
    rw [List.map_cons, get?_cons, get?_cons, ih]
    split_ifs <;> rfl

theorem get?_append (d e : List (κ × β)) (k : κ) :
    get? (d ++ e) k = (get? d k).or (get? e k) := by
  induction d with
  | nil => simp
  | cons lw d ih =>
    rw [List.cons_append, get?_cons, get?_cons, ih]
    split_ifs <;> simp

/-- An update is read from the last entry of each key. -/
theorem get?_update (d e : List (κ × β)) (k : κ) :
    get? (update d e) k = (get? e.reverse k).or (get? d k) := by
  induction e generalizing d with
  | nil => simp [update]
  | cons lv e ih =>
    change get? (update (set d lv.1 lv.2) e) k = _
    rw [ih, List.reverse_cons, get?_append, Option.or_assoc, get?_cons]
    congr 1
    split_ifs with hk
    · rw [hk, get?_set_self, Option.some_or]
    · rw [get?_set_ne d hk, get?_nil, Option.none_or]

theorem get?_eq_none_of_notMem {d : List (κ × β)} {k : κ} (h : k ∉ d.map Prod.fst) :
    get? d k = none := by
  induction d with
  | nil => rfl
  | cons lw d ih =>
    rw [List.map_cons, List.mem_cons, not_or] at h
    rw [get?_cons, if_neg h.1, ih h.2]

theorem get?_update_of_notMem {e : List (κ × β)} {k : κ} (h : k ∉ e.map Prod.fst)
    (d : List (κ × β)) : get? (update d e) k = get? d k := by
  rw [get?_update, get?_eq_none_of_notMem, Option.none_or]
  rwa [List.map_reverse, List.mem_reverse]

theorem get?_update_of_mem {e : List (κ × β)} {k : κ} (h : (e.map Prod.fst).Nodup)
    (hk : k ∈ e.map Prod.fst) (d : List (κ × β)) : get? (update d e) k = get? e k := by
  obtain ⟨⟨l, v⟩, hmem, rfl⟩ := List.mem_map.mp hk
  rw [get?_update, get?_reverse h, (get?_eq_some_iff_mem h).mpr hmem, Option.some_or]

theorem mem_update_nil_iff (e : List (κ × β)) (k : κ) (v : β) :
    (k, v) ∈ update [] e ↔ get? e.reverse k = some v := by
  rw [← get?_eq_some_iff_mem (nodup_keys_update (d := []) List.nodup_nil e), get?_update, get?_nil,
    Option.or_none]

theorem update_of_nodup {d e : List (κ × β)} (h : ((d ++ e).map Prod.fst).Nodup) :
    update d e = d ++ e := by
  induction e generalizing d with
  | nil => exact (List.append_nil d).symm
  | cons lv e ih =>
    have hkey : lv.1 ∉ d.map Prod.fst := by
      rw [List.map_append, List.map_cons] at h
      exact fun hmem => (List.disjoint_of_nodup_append h) hmem List.mem_cons_self
    have hset : set d lv.1 lv.2 = d ++ [lv] := set_of_notMem hkey lv.2
    rw [List.append_cons] at h ⊢
    rw [← ih h, ← hset]
    rfl

theorem update_nil_of_nodup {e : List (κ × β)} (h : (e.map Prod.fst).Nodup) : update [] e = e :=
  update_of_nodup h

end Dict

import Mathlib.Data.Finset.Card
import Mathlib.Data.Finset.Range
import Mathlib.Data.List.Induction
import Mathlib.Data.List.Range
import Mathlib.Data.Nat.Find
import Mathlib.Order.Lattice

/-!
# What a trimmed log retains

Arrivals are processed in order. An arrival first drops the stored entries whose score its
cutoff reaches, or all of them when the log has expired, and may then be stored itself,
which renews the expiry of the log. `survivors` describes the content without running the
log: an arrival is stored as long as it lives through every later one.
-/

namespace Retention

theorem filter_sublist_filter {α : Type*} {p q : α → Bool} {xs : List α}
    (h : ∀ x ∈ xs, p x → q x) : (xs.filter p).Sublist (xs.filter q) := by
  have hboth : xs.filter p = (xs.filter q).filter p := by
    rw [List.filter_filter]
    refine List.filter_congr fun x hx => ?_
    by_cases hp : p x
    · rw [hp, h x hx hp, Bool.and_self]
    · simp [hp]
  rw [hboth]
  exact List.filter_sublist

theorem filter_drop_take_eq {α : Type*} (p : α → Bool) (as : List α) (j n : ℕ) :
    ((as.take n).drop j).filter p =
      ((List.range n).filter fun k => j ≤ k ∧ ∃ a ∈ as[k]?, p a).filterMap (as[·]?) := by
  induction n with
  | zero => rw [List.take_zero, List.drop_nil]; rfl
  | succ n ih =>
    rw [List.range_succ, List.filter_append, List.filterMap_append, ← ih, List.take_add_one]
    cases hb : as[n]? with
    | none => simp [hb]
    | some b =>
      obtain ⟨hn, -⟩ := List.getElem?_eq_some_iff.mp hb
      have hlen : (as.take n).length = n := List.length_take_of_le hn.le
      by_cases hj : j ≤ n
      · rw [Option.toList_some, List.drop_append_of_le_length (hj.trans_eq hlen.symm),
          List.filter_append]
        by_cases hp : p b <;> simp [hp, hj, hb]
      · have hdrop : (as.take n ++ [b]).drop j = [] := List.drop_eq_nil_of_le (by simp; omega)
        have hdrop' : (as.take n).drop j = [] := List.drop_eq_nil_of_le (by omega)
        simp [hdrop, hdrop', hj]

/-- How arrivals are read: whether one is stored, its score and cutoff, the instant it is
processed and the instant until which a stored one keeps the log. -/
structure Reading (α S T : Type*) where
  adds : α → Bool
  score : α → S
  cutoff : α → S
  clock : α → T
  expiry : α → T

namespace Reading

variable {α S T : Type*} (r : Reading α S T)

/-- The expiry of the log after some arrivals; `none` while nothing has been stored. -/
def expiryFrom (e : Option T) (as : List α) : Option T :=
  as.foldl (fun e a => if r.adds a then some (r.expiry a) else e) e

theorem expiryFrom_concat (e : Option T) (as : List α) (b : α) :
    r.expiryFrom e (as ++ [b]) = if r.adds b then some (r.expiry b) else r.expiryFrom e as := by
  rw [expiryFrom, List.foldl_append]
  rfl

theorem expiryFrom_eq_or (e : Option T) (as : List α) :
    r.expiryFrom e as = (r.expiryFrom none as).or e := by
  induction as using List.reverseRecOn with
  | nil => rfl
  | append_singleton as b ih =>
    rw [expiryFrom_concat, expiryFrom_concat, ih]
    split_ifs <;> rfl

variable [LinearOrder S] [LinearOrder T]

def keeps (e : Option T) (x : S) (a : α) : Bool := e.any (r.clock a ≤ ·) && r.cutoff a < x

def lives (e : Option T) (x : S) : List α → Bool
  | [] => true
  | a :: as => r.keeps e x a && lives (if r.adds a then some (r.expiry a) else e) x as

def survivors : List α → List α
  | [] => []
  | a :: as =>
    if r.adds a && r.lives (some (r.expiry a)) (r.score a) as then a :: survivors as
    else survivors as

variable {r}

theorem lives_append (e : Option T) (x : S) (as bs : List α) :
    r.lives e x (as ++ bs) = (r.lives e x as && r.lives (r.expiryFrom e as) x bs) := by
  induction as generalizing e with
  | nil => simp [lives, expiryFrom]
  | cons a as ih =>
    rw [List.cons_append, lives, lives, ih, Bool.and_assoc]
    rfl

theorem survivors_sublist (as : List α) : (r.survivors as).Sublist (as.filter r.adds) := by
  induction as with
  | nil => exact List.Sublist.slnil
  | cons a as ih =>
    rw [survivors]
    split_ifs with h
    · rw [List.filter_cons_of_pos (Bool.and_eq_true_iff.mp h).1]
      exact ih.cons_cons a
    · by_cases ha : r.adds a
      · rw [List.filter_cons_of_pos ha]
        exact ih.cons a
      · rwa [List.filter_cons_of_neg ha]

theorem survivors_eq_nil_of_expiryFrom {as : List α} (h : r.expiryFrom none as = none) :
    r.survivors as = [] := by
  induction as with
  | nil => rfl
  | cons a as ih =>
    have hsplit : r.expiryFrom none (a :: as) =
        r.expiryFrom (if r.adds a then some (r.expiry a) else none) as := rfl
    rw [hsplit, expiryFrom_eq_or, Option.or_eq_none_iff] at h
    have ha : ¬ r.adds a := by
      intro ha
      simp [ha] at h
    rw [survivors, if_neg (by simp [ha]), ih h.1]

/-- Later arrivals leave of the stored ones those that live through them. -/
theorem survivors_append (as bs : List α) :
    r.survivors (as ++ bs) =
      (r.survivors as).filter (fun a => r.lives (r.expiryFrom none as) (r.score a) bs) ++
        r.survivors bs := by
  induction as with
  | nil => rfl
  | cons a as ih =>
    -- what is stored behind `a` was stored after it, so its expiry does not depend on `a`
    have hrest : (r.survivors as).filter
          (fun c => r.lives (r.expiryFrom none (a :: as)) (r.score c) bs) =
        (r.survivors as).filter (fun c => r.lives (r.expiryFrom none as) (r.score c) bs) := by
      cases hlast : r.expiryFrom none as with
      | none => rw [survivors_eq_nil_of_expiryFrom hlast]; rfl
      | some e =>
        have he : r.expiryFrom none (a :: as) = some e := by
          change r.expiryFrom (if r.adds a then some (r.expiry a) else none) as = some e
          rw [expiryFrom_eq_or, hlast, Option.some_or]
        rw [he]
    rw [List.cons_append, survivors, survivors, ih, lives_append]
    by_cases ha : r.adds a
    · have hexp : r.expiryFrom none (a :: as) = r.expiryFrom (some (r.expiry a)) as := by
        simp [expiryFrom, ha]
      rw [← hrest, hexp]
      by_cases hlives : r.lives (some (r.expiry a)) (r.score a) as
      · by_cases hlater : r.lives (r.expiryFrom (some (r.expiry a)) as) (r.score a) bs <;>
          simp [ha, hlives, hlater]
      · simp [hlives]
    · simp [ha, hrest]

theorem survivors_concat (as : List α) (b : α) :
    r.survivors (as ++ [b]) =
      (r.survivors as).filter (fun a => r.keeps (r.expiryFrom none as) (r.score a) b) ++
      if r.adds b then [b] else [] := by
  rw [survivors_append]
  congr 1
  · simp [lives]
  · simp [survivors, lives]

theorem survivors_concat_sublist (as : List α) (b : α) :
    (r.survivors (as ++ [b])).Sublist
      (as.filter (fun a => r.adds a && decide (r.cutoff b < r.score a)) ++
        if r.adds b then [b] else []) := by
  rw [survivors_concat]
  refine List.Sublist.append ?_ (List.Sublist.refl _)
  have hkept := (survivors_sublist (r := r) as).filter
    fun a => decide (r.cutoff b < r.score a)
  rw [List.filter_filter] at hkept
  refine List.Sublist.trans (List.monotone_filter_right _ fun a ha => ?_) (hkept.trans ?_)
  · exact (Bool.and_eq_true_iff.mp ha).2
  · rw [List.filter_congr fun a _ => Bool.and_comm (decide (r.cutoff b < r.score a)) (r.adds a)]

theorem survivors_append_of_cut {as bs : List α} {b : α} (hb : b ∈ bs)
    (hcut : ∀ a ∈ as, r.adds a → r.score a ≤ r.cutoff b) :
    r.survivors (as ++ bs) = r.survivors bs := by
  obtain ⟨xs, ys, rfl⟩ := List.mem_iff_append.mp hb
  rw [survivors_append, List.append_left_eq_self]
  refine List.filter_eq_nil_iff.mpr fun a ha => ?_
  obtain ⟨hmem, hadds⟩ := List.mem_filter.mp ((r.survivors_sublist as).subset ha)
  have hreached := not_lt.mpr (hcut a hmem hadds)
  simp [lives_append, lives, keeps, hreached]

theorem survivors_cons_of_not_adds {b : α} (h : r.adds b = false) (bs : List α) :
    r.survivors (b :: bs) = r.survivors bs := by
  simp [survivors, h]

theorem survivors_eq_nil {as : List α} (h : ∀ a ∈ as, r.adds a = false) : r.survivors as = [] := by
  induction as with
  | nil => rfl
  | cons a as ih =>
    obtain ⟨ha, has⟩ := List.forall_mem_cons.mp h
    rw [survivors_cons_of_not_adds ha, ih has]

theorem survivors_append_sublist (as : List α) {bs : List α} (h : ∀ b ∈ bs, r.adds b = false) :
    (r.survivors (as ++ bs)).Sublist (r.survivors as) := by
  rw [survivors_append, survivors_eq_nil h, List.append_nil]
  exact List.filter_sublist

def comap {β : Type*} (f : β → α) (r : Reading α S T) : Reading β S T where
  adds b := r.adds (f b)
  score b := r.score (f b)
  cutoff b := r.cutoff (f b)
  clock b := r.clock (f b)
  expiry b := r.expiry (f b)

theorem lives_map {β : Type*} (f : β → α) (e : Option T) (x : S) (bs : List β) :
    r.lives e x (bs.map f) = (r.comap f).lives e x bs := by
  induction bs generalizing e with
  | nil => rfl
  | cons b bs ih =>
    rw [List.map_cons, lives, lives, ih]
    rfl

theorem survivors_map {β : Type*} (f : β → α) (bs : List β) :
    r.survivors (bs.map f) = ((r.comap f).survivors bs).map f := by
  induction bs with
  | nil => rfl
  | cons b bs ih =>
    have hsame : (r.adds (f b) && r.lives (some (r.expiry (f b))) (r.score (f b)) (bs.map f)) =
        ((r.comap f).adds b &&
          (r.comap f).lives (some ((r.comap f).expiry b)) ((r.comap f).score b) bs) := by
      rw [lives_map]
      rfl
    rw [List.map_cons, survivors, survivors, ih, hsame, apply_ite (List.map f), List.map_cons]

def Unexpired (r : Reading α S T) (e : Option T) : List α → Prop
  | [] => True
  | a :: as => (∀ t ∈ e, r.clock a ≤ t) ∧
      Unexpired r (if r.adds a then some (r.expiry a) else e) as

instance Unexpired.decidable (r : Reading α S T) : (e : Option T) → (as : List α) →
    Decidable (r.Unexpired e as)
  | _, [] => isTrue trivial
  | e, a :: as =>
    haveI := Unexpired.decidable r (if r.adds a then some (r.expiry a) else e) as
    inferInstanceAs (Decidable ((∀ t ∈ e, r.clock a ≤ t) ∧
      r.Unexpired (if r.adds a then some (r.expiry a) else e) as))

theorem Unexpired.lives_eq {t : T} {as : List α} (h : r.Unexpired (some t) as) (x : S) :
    r.lives (some t) x as = as.all fun a => r.cutoff a < x := by
  induction as generalizing t with
  | nil => rfl
  | cons a as ih =>
    have hclock : r.clock a ≤ t := h.1 t rfl
    have hrest := h.2
    rw [lives, keeps, List.all_cons]
    by_cases ha : r.adds a
    · rw [if_pos ha] at hrest ⊢
      rw [ih hrest]
      simp [hclock]
    · rw [if_neg ha] at hrest ⊢
      rw [ih hrest]
      simp [hclock]

omit [LinearOrder S] in
theorem unexpired_append {e : Option T} {as bs : List α} :
    r.Unexpired e (as ++ bs) ↔ r.Unexpired e as ∧ r.Unexpired (r.expiryFrom e as) bs := by
  induction as generalizing e with
  | nil => simp [Unexpired, expiryFrom]
  | cons a as ih =>
    rw [List.cons_append, Unexpired, Unexpired, ih, and_assoc]
    rfl

theorem Unexpired.survivors_cons {a : α} {as : List α} (h : r.Unexpired none (a :: as)) :
    r.survivors (a :: as) =
      (if r.adds a && as.all (fun b => r.cutoff b < r.score a) then [a] else []) ++
        r.survivors as := by
  have hrest := h.2
  rw [survivors]
  by_cases ha : r.adds a
  · rw [if_pos ha] at hrest
    rw [hrest.lives_eq]
    split_ifs <;> rfl
  · simp [ha]

omit [LinearOrder S] in
theorem Unexpired.mono_none {e : Option T} {as : List α} (h : r.Unexpired e as) :
    r.Unexpired none as := by
  induction as generalizing e with
  | nil => trivial
  | cons a as ih =>
    refine ⟨fun t ht => absurd ht (Option.not_mem_none t), ?_⟩
    have hrest := h.2
    split_ifs at hrest ⊢ with ha
    · exact hrest
    · exact ih hrest

omit [LinearOrder S] in
theorem Unexpired.tail {a : α} {as : List α} (h : r.Unexpired none (a :: as)) :
    r.Unexpired none as :=
  h.2.mono_none

omit [LinearOrder S] in
theorem unexpired_of_bound {e : Option T} {as : List α} (bound : T) (he : ∀ t ∈ e, bound ≤ t)
    (hclock : ∀ a ∈ as, r.clock a ≤ bound) (hexp : ∀ a ∈ as, r.adds a → bound ≤ r.expiry a) :
    r.Unexpired e as := by
  induction as generalizing e with
  | nil => trivial
  | cons a as ih =>
    obtain ⟨hca, hcas⟩ := List.forall_mem_cons.mp hclock
    obtain ⟨hea, heas⟩ := List.forall_mem_cons.mp hexp
    refine ⟨fun t ht => hca.trans (he t ht), ih (fun t ht => ?_) hcas heas⟩
    split_ifs at ht with ha
    · obtain rfl := Option.some.inj ht
      exact hea ha
    · exact he t ht

theorem Unexpired.survivors_concat_filter {as : List α} {b : α} (h : r.Unexpired none (as ++ [b]))
    (hb : r.adds b) (hdeep : ∀ xs a ys, as = xs ++ a :: ys → r.adds a → r.cutoff b < r.score a →
      ∀ c ∈ ys, r.cutoff c < r.score a) :
    r.survivors (as ++ [b]) =
      as.filter (fun a => r.adds a && decide (r.cutoff b < r.score a)) ++ [b] := by
  induction as with
  | nil => simp [survivors, lives, hb]
  | cons a as ih =>
    have htail := ih h.tail fun xs c ys heq => hdeep (a :: xs) c ys (by rw [heq]; rfl)
    have hall : r.adds a → r.cutoff b < r.score a →
        as.all (fun c => decide (r.cutoff c < r.score a)) = true := fun ha hlt =>
      List.all_eq_true.mpr fun c hc => decide_eq_true (hdeep [] a as rfl ha hlt c hc)
    have hcons : r.Unexpired none (a :: (as ++ [b])) := h
    rw [List.cons_append, hcons.survivors_cons, htail, List.all_append]
    by_cases ha : r.adds a
    · by_cases hlt : r.cutoff b < r.score a
      · simp [ha, hlt, hall ha hlt]
      · simp [ha, hlt]
    · simp [ha]

theorem Unexpired.survivors_append_of_idle {as bs : List α} (h : r.Unexpired none (as ++ bs))
    (hbs : ∀ b ∈ bs, r.adds b = false ∧ ∀ a ∈ as, r.cutoff b < r.score a) :
    r.survivors (as ++ bs) = r.survivors as := by
  rw [survivors_append, survivors_eq_nil fun b hb => (hbs b hb).1, List.append_nil]
  cases hexp : r.expiryFrom none as with
  | none => rw [survivors_eq_nil_of_expiryFrom hexp]; rfl
  | some t =>
    have hlater := (unexpired_append.mp h).2
    rw [hexp] at hlater
    refine List.filter_eq_self.mpr fun a ha => ?_
    have hmem : a ∈ as := (List.mem_filter.mp ((r.survivors_sublist as).subset ha)).1
    rw [hlater.lives_eq]
    exact List.all_eq_true.mpr fun b hb => decide_eq_true ((hbs b hb).2 a hmem)

/-- Of the arrivals of a stream that concern the log, the one at position `j` is stored, and
each later one before position `n` finds the log unexpired and cuts below it. -/
def Stands (r : Reading α S T) (q : α → Bool) (as : List α) (j n : ℕ) : Prop :=
  j < n ∧ ∃ a ∈ as[j]?, q a ∧ r.adds a ∧ ∀ k < n, j < k → ∀ b ∈ as[k]?, q b →
    r.cutoff b < r.score a ∧ ∀ e ∈ r.expiryFrom none ((as.take k).filter q), r.clock b ≤ e

instance (q : α → Bool) (as : List α) (j n : ℕ) : Decidable (r.Stands q as j n) :=
  inferInstanceAs (Decidable (_ ∧ _))

variable {q : α → Bool} {as : List α} {a b : α} {j n : ℕ}

omit [LinearOrder S] [LinearOrder T] in
theorem expiryFrom_ne_none (h : a ∈ as) (ha : r.adds a) : r.expiryFrom none as ≠ none := by
  induction as with
  | nil => exact absurd h List.not_mem_nil
  | cons b bs ih =>
    intro hnone
    have hsplit : r.expiryFrom none (b :: bs) =
        r.expiryFrom (if r.adds b then some (r.expiry b) else none) bs := rfl
    rw [hsplit, expiryFrom_eq_or, Option.or_eq_none_iff] at hnone
    rcases List.mem_cons.mp h with rfl | hmem
    · simp [ha] at hnone
    · exact ih hmem hnone.1

theorem keeps_iff {e : Option T} (he : e ≠ none) (x : S) (b : α) :
    r.keeps e x b ↔ r.cutoff b < x ∧ ∀ t ∈ e, r.clock b ≤ t := by
  obtain ⟨t, rfl⟩ := Option.ne_none_iff_exists'.mp he
  simp [keeps, and_comm]

theorem stands_succ_iff (ha : as[j]? = some a) (hj : j < n) : r.Stands q as j (n + 1) ↔
    r.Stands q as j n ∧ ∀ b ∈ as[n]?, q b →
      r.keeps (r.expiryFrom none ((as.take n).filter q)) (r.score a) b := by
  have hkeeps : q a → r.adds a → ∀ b,
      (r.keeps (r.expiryFrom none ((as.take n).filter q)) (r.score a) b ↔
        r.cutoff b < r.score a ∧
          ∀ e ∈ r.expiryFrom none ((as.take n).filter q), r.clock b ≤ e) := by
    intro hq hadds b
    refine keeps_iff (expiryFrom_ne_none (List.mem_filter.mpr ⟨?_, hq⟩) hadds) _ b
    exact List.mem_of_getElem? ((List.getElem?_take_of_lt hj).trans ha)
  constructor
  · rintro ⟨-, a', ha', hq, hadds, hlater⟩
    obtain rfl := Option.some.inj (ha'.symm.trans ha)
    exact ⟨⟨hj, a', ha', hq, hadds, fun k hk => hlater k (hk.trans n.lt_succ_self)⟩,
      fun b hb hqb => (hkeeps hq hadds b).mpr (hlater n n.lt_succ_self hj b hb hqb)⟩
  · rintro ⟨⟨-, a', ha', hq, hadds, hlater⟩, hlast⟩
    obtain rfl := Option.some.inj (ha'.symm.trans ha)
    refine ⟨hj.trans n.lt_succ_self, a', ha', hq, hadds, fun k hk hjk b hb hqb => ?_⟩
    rcases Nat.lt_succ_iff_lt_or_eq.mp hk with hlt | rfl
    · exact hlater k hlt hjk b hb hqb
    · exact (hkeeps hq hadds b).mp (hlast b hb hqb)

theorem stands_self_iff (hb : as[n]? = some b) : r.Stands q as n (n + 1) ↔ q b ∧ r.adds b := by
  constructor
  · rintro ⟨-, b', hb', hq, hadds, -⟩
    obtain rfl := Option.some.inj (hb'.symm.trans hb)
    exact ⟨hq, hadds⟩
  · rintro ⟨hq, hadds⟩
    exact ⟨n.lt_succ_self, b, hb, hq, hadds, fun k hk hnk => absurd hk (by omega)⟩

theorem filterMap_stands_succ (q : α → Bool) (as : List α) (n : ℕ) :
    ((List.range n).filter fun j => r.Stands q as j (n + 1)).filterMap (as[·]?) =
      (((List.range n).filter fun j => r.Stands q as j n).filterMap (as[·]?)).filter fun a =>
        ∀ b ∈ as[n]?, q b →
          r.keeps (r.expiryFrom none ((as.take n).filter q)) (r.score a) b := by
  rw [List.filterMap_filter, List.filterMap_filter, List.filter_filterMap]
  refine List.filterMap_congr fun j hj => ?_
  cases ha : as[j]? with
  | none => simp
  | some a =>
    rw [decide_eq_decide.mpr (stands_succ_iff ha (List.mem_range.mp hj)), Bool.decide_and]
    by_cases hstands : r.Stands q as j n <;> simp [hstands, Option.filter]

/-- What is stored before a position are the arrivals that stand there. -/
theorem survivors_take (q : α → Bool) (as : List α) (n : ℕ) :
    r.survivors ((as.take n).filter q) =
      ((List.range n).filter fun j => r.Stands q as j n).filterMap (as[·]?) := by
  induction n with
  | zero => rfl
  | succ n ih =>
    rw [List.range_succ, List.filter_append, List.filterMap_append, filterMap_stands_succ, ← ih,
      List.take_add_one, List.filter_append]
    cases hb : as[n]? with
    | none =>
      have hnot : ¬ r.Stands q as n (n + 1) := by
        rintro ⟨-, b, hmem, -⟩
        rw [hb] at hmem
        cases hmem
      simp [hnot]
    | some b =>
      have hself : r.Stands q as n (n + 1) ↔ q b ∧ r.adds b := stands_self_iff hb
      by_cases hq : q b
      · rw [Option.toList_some, List.filter_cons_of_pos hq, List.filter_nil, survivors_concat]
        by_cases hadds : r.adds b
        · simp [hself, hq, hadds, hb]
        · simp [hself, hq, hadds]
      · simp [hself, hq]

theorem length_survivors_take (q : α → Bool) (as : List α) (n : ℕ) :
    (r.survivors ((as.take n).filter q)).length =
      ((Finset.range n).filter fun j => r.Stands q as j n).card := by
  have hsome : ∀ j ∈ (List.range n).filter (fun j => r.Stands q as j n),
      (as[j]?).isSome := by
    intro j hj
    obtain ⟨-, a, ha, -⟩ := of_decide_eq_true (List.mem_filter.mp hj).2
    exact Option.isSome_of_mem ha
  rw [survivors_take, List.length_filterMap_eq_countP, List.countP_eq_length.mpr hsome]
  rfl

theorem Stands.of_le {k : ℕ} {c : α} (h : r.Stands q as j n) (hjk : j ≤ k) (hk : k < n)
    (hc : as[k]? = some c) (hq : q c) (hadds : r.adds c)
    (hle : ∀ a ∈ as[j]?, r.score a ≤ r.score c) : r.Stands q as k n := by
  obtain ⟨-, a, ha, -, -, hlater⟩ := h
  refine ⟨hk, c, hc, hq, hadds, fun m hm hkm b hb hqb => ?_⟩
  obtain ⟨hcut, hexp⟩ := hlater m hm (hjk.trans_lt hkm) b hb hqb
  exact ⟨hcut.trans_le (hle a ha), hexp⟩

def since (r : Reading α S T) (q : α → Bool) (as : List α) (j n : ℕ) : List α :=
  ((as.take n).drop j).filter fun a => q a && r.adds a

/-- In the order of their scores, all that is stored from a standing position on is kept. -/
theorem since_sublist_survivors (h : r.Stands q as j n)
    (hord : ∀ k a b, j ≤ k → as[j]? = some a → as[k]? = some b → q b → r.score a ≤ r.score b) :
    (r.since q as j n).Sublist (r.survivors ((as.take n).filter q)) := by
  rw [since, filter_drop_take_eq, survivors_take]
  refine List.Sublist.filterMap _ (filter_sublist_filter fun k hk hp => ?_)
  obtain ⟨hjk, b, hb, hboth⟩ := of_decide_eq_true hp
  obtain ⟨hq, hadds⟩ := Bool.and_eq_true_iff.mp hboth
  exact decide_eq_true (h.of_le hjk (List.mem_range.mp hk) hb hq hadds
    fun a ha => hord k a b hjk ha hb hq)

theorem exists_survivors_sublist_since (h : r.survivors ((as.take n).filter q) ≠ []) :
    ∃ j, r.Stands q as j n ∧
      (r.survivors ((as.take n).filter q)).Sublist (r.since q as j n) := by
  have hexists : ∃ j, r.Stands q as j n := by
    by_contra hnone
    refine h ?_
    rw [survivors_take, List.filter_eq_nil_iff.mpr fun j _ hj => hnone ⟨j, of_decide_eq_true hj⟩]
    rfl
  -- the first position that stands
  refine ⟨Nat.find hexists, Nat.find_spec hexists, ?_⟩
  rw [since, filter_drop_take_eq, survivors_take]
  refine List.Sublist.filterMap _ (filter_sublist_filter fun k _ hk => ?_)
  have hstands := of_decide_eq_true hk
  obtain ⟨a, ha, hq, hadds, -⟩ := hstands.2
  exact decide_eq_true
    ⟨Nat.find_min' hexists hstands, a, ha, Bool.and_eq_true_iff.mpr ⟨hq, hadds⟩⟩

end Reading

end Retention

import Mathlib.Data.List.Nodup
import Mathlib.Data.List.TakeWhile
import SiemEngine.Detection.BruteForceWindow

/-!
# Brute force on streams out of timestamp order

The window of an IP is trimmed relative to the event being evaluated, and producers date
their events up to a day ahead and without limit in the past. An event dated ahead
drops the failures of a running burst; an event dated behind is counted together with
newer failures that no trimming removes. Both rule answers are decided here by the
timestamps and processing times of the arrivals alone.
-/

namespace SiemEngine.BruteForce

variable {py : Python} {p : Params} {ip : String} {os : List Sighting}

def FiresAt (py : Python) (p : Params) (os : List Sighting) (i : ℕ) : Prop :=
  ∃ o, os[i]? = some o ∧ Fires py p (Sighting.after py p [] (os.take i)) o

theorem slot_nil (p : Params) (ip : String) :
    Dict.get? ([] : Windows) (Windows.key "bruteforce" ip) = slot p none [] := rfl

theorem take_succ_eq {i : ℕ} {o : Sighting} (h : os[i]? = some o) :
    os.take (i + 1) = os.take i ++ [o] := by
  rw [List.take_add_one, h]
  rfl

theorem arrivals_take_succ {i : ℕ} {o : Sighting} (h : os[i]? = some o) (hc : concerns ip o) :
    arrivals ip (os.take (i + 1)) = arrivals ip (os.take i) ++ [o] := by
  rw [take_succ_eq h, arrivals_concat, if_pos hc]

theorem firesAt_iff (hw : ∀ o ∈ os, o.Watched .bruteForce)
    (hd : DistinctMembers (arrivals ip os)) {i : ℕ} {o : Sighting} (ho : os[i]? = some o)
    (hc : concerns ip o) :
    FiresAt py p os i ↔ p.maxFailures ≤ (live p (arrivals ip (os.take (i + 1)))).length := by
  have hpre := take_succ_eq ho
  have hsub : (os.take i ++ [o]).Sublist os := hpre ▸ List.take_sublist _ _
  have hfires := @fires_after_iff p ip py o [] none (slot_nil p ip) (os.take i)
    (fun o' ho' => hw o' (hsub.subset ho')) hc (hd.sublist (hsub.filter _))
  rw [arrivals_take_succ ho hc, ← hfires]
  constructor
  · intro h
    obtain ⟨o', ho', hf⟩ := h
    obtain rfl := Option.some.inj (ho.symm.trans ho')
    exact hf
  · exact fun hf => ⟨o, ho, hf⟩

/-- More than `max_failures` failures of the IP, at increasing positions of the stream, in
timestamp order and within less than the window. -/
structure Burst (p : Params) (ip : String) (os : List Sighting) (is : List ℕ) : Prop where
  increasing : is.Pairwise (· < ·)
  failures : ∀ i ∈ is, ∃ o ∈ os[i]?, concerns ip o ∧ isFailure o
  ordered : ∀ i ∈ is, ∀ j ∈ is, i < j → ∀ a ∈ os[i]?, ∀ b ∈ os[j]?,
    a.event.timestamp ≤ b.event.timestamp
  within : ∀ i ∈ is, ∀ j ∈ is, ∀ a ∈ os[i]?, ∀ b ∈ os[j]?,
    b.event.timestamp - a.event.timestamp < p.bruteForceWindow * Datetime.microsPerSecond
  enough : p.maxFailures + 1 ≤ is.length

/-- The failure at position `j` is not lost at position `i`: no arrival of the IP behind it
has a cutoff that reaches its timestamp, or is processed after the last failure before it has
let the key expire. -/
def Stands (p : Params) (ip : String) (os : List Sighting) (j i : ℕ) : Prop :=
  (reading p).Stands (concerns ip) os j (i + 1)

instance (p : Params) (ip : String) (os : List Sighting) (j i : ℕ) :
    Decidable (Stands p ip os j i) :=
  inferInstanceAs (Decidable ((reading p).Stands _ _ _ _))

theorem length_live (p : Params) (ip : String) (os : List Sighting) (i : ℕ) :
    (live p (arrivals ip (os.take (i + 1)))).length =
      ((Finset.range (i + 1)).filter fun j => Stands p ip os j i).card :=
  Retention.Reading.length_survivors_take (concerns ip) os (i + 1)

/-- As many failures as the threshold asks for stand at once: some that follow each other in
the burst, the first of which stands at the last, and others that are not of the burst. -/
def StandTogether (p : Params) (ip : String) (os : List Sighting) (is : List ℕ) : Prop :=
  ∃ js i, js ++ [i] <:+: is ∧ (∀ j ∈ js.head?, Stands p ip os j i) ∧
    ∃ others : Finset ℕ, (∀ k ∈ others, k ∉ is ∧ Stands p ip os k i) ∧
      p.maxFailures ≤ js.length + 1 + others.card

/-- Between a first and a last failure no arrival of the IP outside the burst has a cutoff that
reaches the first one's timestamp, and none is processed after the key has expired. -/
structure Uninterrupted (p : Params) (ip : String) (os : List Sighting) (is : List ℕ)
    (first last : ℕ) : Prop where
  undropped : ∀ a ∈ os[first]?, ∀ k < last, first < k ∧ k ∉ is → ∀ b ∈ os[k]?, concerns ip b →
    (reading p).cutoff b < a.event.epoch
  unexpired : ∀ k < last + 1, first < k → ∀ b ∈ os[k]?, concerns ip b →
    ∀ e ∈ (reading p).expiryFrom none ((os.take k).filter (concerns ip)), (tick b).clock ≤ e

theorem Burst.stands_self {is : List ℕ} (hb : Burst p ip os is) {i : ℕ} (hi : i ∈ is) :
    Stands p ip os i i := by
  obtain ⟨o, ho, hc, hf⟩ := hb.failures i hi
  exact (Retention.Reading.stands_self_iff ho).mpr ⟨hc, hf⟩

theorem Burst.stands_of_le {is : List ℕ} (hb : Burst p ip os is) {i j k : ℕ} (hj : j ∈ is)
    (hk : k ∈ is) (hjk : j ≤ k) (hki : k ≤ i) (h : Stands p ip os j i) : Stands p ip os k i := by
  obtain ⟨o, ho, hc, hf⟩ := hb.failures k hk
  rcases hjk.eq_or_lt with rfl | hlt
  · exact h
  · exact h.of_le hjk (Nat.lt_succ_of_le hki) ho hc hf fun a ha =>
      SecurityEvent.epoch_mono (hb.ordered j hj k hk hlt a ha o ho)

theorem Burst.standing_subset {xs zs : List ℕ} {i : ℕ} (hb : Burst p ip os (xs ++ i :: zs)) :
    ((Finset.range (i + 1)).filter fun k => Stands p ip os k i ∧ k ∈ xs ++ i :: zs) ⊆
      (xs.dropWhile (fun k => ¬ Stands p ip os k i) ++ [i]).toFinset := by
  intro k hk
  rw [Finset.mem_filter, Finset.mem_range] at hk
  obtain ⟨hlt, hstands, hmem⟩ := hk
  rw [List.mem_toFinset, List.mem_append, List.mem_singleton]
  rcases List.mem_append.mp hmem with hxs | hzs
  · rw [← @List.takeWhile_append_dropWhile _ (fun k => ¬ Stands p ip os k i) xs] at hxs
    rcases List.mem_append.mp hxs with hlost | hkept
    · have hnot := List.mem_takeWhile_imp hlost
      exact absurd hstands (of_decide_eq_true hnot)
    · exact Or.inl hkept
  · rcases List.mem_cons.mp hzs with rfl | hzs
    · exact Or.inr rfl
    · have hafter := (List.pairwise_cons.mp (List.pairwise_append.mp hb.increasing).2.1).1 k hzs
      omega

theorem Burst.stands_of_head {is js : List ℕ} {i : ℕ} (hb : Burst p ip os is)
    (hsub : (js ++ [i]).Sublist is) (hhead : ∀ j ∈ js.head?, Stands p ip os j i) :
    ∀ k ∈ js ++ [i], Stands p ip os k i := by
  have hpair := hb.increasing.sublist hsub
  cases js with
  | nil =>
    intro k hk
    obtain rfl := List.mem_singleton.mp hk
    exact hb.stands_self (hsub.subset hk)
  | cons j js =>
    intro k hk
    have hjk : j ≤ k := (List.mem_cons.mp hk).elim (fun h => h.ge)
      fun h => ((List.pairwise_cons.mp hpair).1 k h).le
    have hki : k ≤ i := (List.mem_append.mp hk).elim
      (fun h => ((List.pairwise_append.mp hpair).2.2 k h i (List.mem_singleton_self i)).le)
      fun h => (List.mem_singleton.mp h).le
    exact hb.stands_of_le (hsub.subset List.mem_cons_self) (hsub.subset hk) hjk hki (hhead j rfl)

theorem Burst.le_card_of_standTogether {is : List ℕ} (hb : Burst p ip os is)
    (h : StandTogether p ip os is) : ∃ i ∈ is,
      p.maxFailures ≤ ((Finset.range (i + 1)).filter fun k => Stands p ip os k i).card := by
  obtain ⟨js, i, hinfix, hhead, others, hothers, hle⟩ := h
  have hsub : (js ++ [i]).Sublist is := hinfix.sublist
  refine ⟨i, hsub.subset (List.mem_append_right _ (List.mem_singleton_self i)), hle.trans ?_⟩
  have hstands := hb.stands_of_head hsub hhead
  have hdisjoint : Disjoint (js ++ [i]).toFinset others := by
    refine Finset.disjoint_left.mpr fun k hk hother => ?_
    exact (hothers k hother).1 (hsub.subset (List.mem_toFinset.mp hk))
  have hcard : ((js ++ [i]).toFinset ∪ others).card = js.length + 1 + others.card := by
    rw [Finset.card_union_of_disjoint hdisjoint, List.toFinset_card_of_nodup
      ((hb.increasing.sublist hsub).imp fun h => h.ne), List.length_append, List.length_singleton]
  have hall : (js ++ [i]).toFinset ∪ others ⊆
      (Finset.range (i + 1)).filter fun k => Stands p ip os k i := by
    intro k hk
    have hk' : Stands p ip os k i := (Finset.mem_union.mp hk).elim
      (fun h => hstands k (List.mem_toFinset.mp h)) fun h => (hothers k h).2
    exact Finset.mem_filter.mpr ⟨Finset.mem_range.mpr hk'.1, hk'⟩
  have hcount := Finset.card_le_card hall
  omega

theorem Burst.standTogether_of_le_card {xs zs : List ℕ} {i : ℕ}
    (hb : Burst p ip os (xs ++ i :: zs))
    (h : p.maxFailures ≤ ((Finset.range (i + 1)).filter fun k => Stands p ip os k i).card) :
    StandTogether p ip os (xs ++ i :: zs) := by
  refine ⟨xs.dropWhile fun k => ¬ Stands p ip os k i, i, ?_, ?_,
    (Finset.range (i + 1)).filter fun k => Stands p ip os k i ∧ k ∉ xs ++ i :: zs, ?_, ?_⟩
  · refine ⟨xs.takeWhile fun k => ¬ Stands p ip os k i, zs, ?_⟩
    rw [← List.append_assoc, List.takeWhile_append_dropWhile, List.append_assoc]
    rfl
  · intro j hj
    have hfirst := List.head?_dropWhile_not (fun k => decide (¬ Stands p ip os k i)) xs
    rw [Option.mem_def.mp hj] at hfirst
    simpa using hfirst
  · intro k hk
    exact (Finset.mem_filter.mp hk).2.symm
  · have hsplit := @Finset.card_filter_add_card_filter_not _
      ((Finset.range (i + 1)).filter fun k => Stands p ip os k i) (· ∈ xs ++ i :: zs) _ _
    have hown := (Finset.card_le_card hb.standing_subset).trans (List.toFinset_card_le _)
    rw [Finset.filter_filter, Finset.filter_filter] at hsplit
    rw [List.length_append, List.length_singleton] at hown
    omega

theorem Burst.standTogether_iff {is : List ℕ} (hb : Burst p ip os is) :
    StandTogether p ip os is ↔
      ∃ i ∈ is, p.maxFailures ≤ (live p (arrivals ip (os.take (i + 1)))).length := by
  simp only [length_live]
  refine ⟨hb.le_card_of_standTogether, ?_⟩
  rintro ⟨i, hi, hle⟩
  obtain ⟨xs, zs, rfl⟩ := List.append_of_mem hi
  exact hb.standTogether_of_le_card hle

theorem Burst.cutoff_lt {is : List ℕ} (hb : Burst p ip os is)
    (hdated : ∀ i ∈ is, ∀ o ∈ os[i]?, o.event.DatedFinely) {i k : ℕ} (hi : i ∈ is) (hk : k ∈ is)
    {a b : Sighting} (ha : a ∈ os[i]?) (hbk : b ∈ os[k]?) :
    (reading p).cutoff b < a.event.epoch := by
  obtain ⟨b', hb', -, hfail⟩ := hb.failures k hk
  obtain rfl := Option.some.inj (hb'.symm.trans hbk)
  have hpos : 0 ≤ p.bruteForceWindow := by
    have hself := hb.within k hk k hk b' hbk b' hbk
    rw [sub_self] at hself
    exact (pos_of_mul_pos_left hself (by decide)).le
  rw [cutoff_of_isFailure hfail]
  exact SecurityEvent.cutoff_lt_epoch (hdated i hi a ha) (hdated k hk b' hbk) hpos
    (hb.within i hi k hk a ha b' hbk)

/-- The failures of an uninterrupted burst all stand at its last one. -/
theorem Burst.standTogether_of_uninterrupted {is : List ℕ} (hb : Burst p ip os is)
    (hdated : ∀ i ∈ is, ∀ o ∈ os[i]?, o.event.DatedFinely) {i j : ℕ} (hi : i ∈ is.head?)
    (hj : j ∈ is.getLast?) (h : Uninterrupted p ip os is i j) : StandTogether p ip os is := by
  have hsplit : is.dropLast ++ [j] = is := List.dropLast_append_getLast? j hj
  have hmem : i ∈ is := List.mem_of_mem_head? hi
  have hlen : is.dropLast.length + 1 = is.length := by
    rw [← List.length_singleton (a := j), ← List.length_append, hsplit]
  refine ⟨is.dropLast, j, hsplit.symm ▸ List.infix_rfl, fun i' hi' => ?_, ∅, by simp, ?_⟩
  · obtain ⟨rest, hrest⟩ := List.head?_eq_some_iff.mp hi'
    have hhead : is.head? = some i' := by rw [← hsplit, hrest]; rfl
    obtain rfl := Option.some.inj (hi.symm.trans hhead)
    have hlt : i < j := by
      have hpair := hb.increasing
      rw [← hsplit] at hpair
      exact (List.pairwise_append.mp hpair).2.2 i (List.mem_of_mem_head? hi') j
        (List.mem_singleton_self j)
    obtain ⟨a, ha, hc, hf⟩ := hb.failures i hmem
    refine ⟨hlt.trans j.lt_succ_self, a, ha, hc, hf, fun k hk hik b hbk hcb => ?_⟩
    refine ⟨?_, h.unexpired k hk hik b hbk hcb⟩
    by_cases hburst : k ∈ is
    · exact hb.cutoff_lt hdated hmem hburst ha hbk
    · have hne : k ≠ j := fun heq => hburst (heq ▸ List.mem_of_getLast? hj)
      exact h.undropped a ha k (by omega) ⟨hik, hburst⟩ b hbk hcb
  · have henough := hb.enough
    rw [Finset.card_empty]
    omega

/-- The rule fires on a failure of a burst exactly when enough failures stand together at one
of them; for that it suffices that nothing interrupts the burst. -/
theorem burst_fires_iff (py : Python) (p : Params) (ip : String) (os : List Sighting)
    (is : List ℕ) (hw : ∀ o ∈ os, o.Watched .bruteForce) (hd : DistinctMembers (arrivals ip os))
    (hb : Burst p ip os is) :
    ((∃ i ∈ is, FiresAt py p os i) ↔ StandTogether p ip os is) ∧
      ((∀ i ∈ is, ∀ o ∈ os[i]?, o.event.DatedFinely) → ∀ first ∈ is.head?, ∀ last ∈ is.getLast?,
        Uninterrupted p ip os is first last → StandTogether p ip os is) := by
  refine ⟨?_, fun hdated _ hfirst _ hlast h =>
    hb.standTogether_of_uninterrupted hdated hfirst hlast h⟩
  rw [hb.standTogether_iff]
  refine exists_congr fun i => and_congr_right fun hi => ?_
  obtain ⟨o, ho, hc, -⟩ := hb.failures i hi
  exact firesAt_iff hw hd ho hc

def failures (ip : String) (attempts : List (String × ℤ)) : List Sighting :=
  attempts.map fun f => Sighting.auth f.1 .authFailure ip f.2 0

theorem watched_failures (ip : String) (attempts : List (String × ℤ)) :
    ∀ o ∈ failures ip attempts, o.Watched .bruteForce := by
  intro o ho
  obtain ⟨f, -, rfl⟩ := List.mem_map.mp ho
  exact ⟨List.not_mem_nil, rfl⟩

theorem burst_fires_iff_orderly :
    let os := failures "203.0.113.9" [("a", 0), ("b", 1), ("c", 2)]
    ∃ i ∈ [0, 1, 2], FiresAt Python.ascii { maxFailures := 2 } os i := by
  intro os
  have hb : Burst { maxFailures := 2 } "203.0.113.9" os [0, 1, 2] :=
    ⟨by decide, by decide +kernel, by decide +kernel, by decide +kernel, by decide⟩
  have hd : DistinctMembers (arrivals "203.0.113.9" os) := by
    decide +kernel
  have hdated : ∀ i ∈ [0, 1, 2], ∀ o ∈ os[i]?, o.event.DatedFinely := by decide +kernel
  have hfires := burst_fires_iff Python.ascii { maxFailures := 2 } "203.0.113.9" os [0, 1, 2]
    (watched_failures _ _) hd hb
  exact hfires.1.mpr (hfires.2 hdated 0 rfl 2 rfl ⟨by decide +kernel, by decide +kernel⟩)

/-- Behind the second and the third failure of a burst of four, an event dated an hour, then
two hours ahead: all are accepted and the rule fires on none. -/
theorem skewed_burst_missed :
    let attempts : List (String × ℤ) :=
      [("a", 0), ("b", 1), ("c", 3600), ("d", 2), ("e", 7200), ("f", 3)]
    let os := failures "203.0.113.9" attempts
    (∀ f ∈ attempts, SecurityEvent.fromRaw Python.ascii someReadings
        (Sighting.authRaw f.1 .authFailure "203.0.113.9" f.2) =
      .ok (Sighting.auth f.1 .authFailure "203.0.113.9" f.2 0).event) ∧
      DistinctMembers (arrivals "203.0.113.9" os) ∧
      Burst { maxFailures := 3 } "203.0.113.9" os [0, 1, 3, 5] ∧
      ¬ ∃ i ∈ [0, 1, 3, 5], FiresAt Python.ascii { maxFailures := 3 } os i := by
  intro attempts os
  have hd : DistinctMembers (arrivals "203.0.113.9" os) := by
    decide +kernel
  refine ⟨fun f hf => ?_, hd, ⟨by decide, by decide +kernel, by decide +kernel, by decide +kernel,
    by decide⟩, fun h => ?_⟩
  · have hday : ∀ f ∈ attempts, f.2 ≤ 86400 := by decide
    exact Sighting.fromRaw_auth f.1 .authFailure "203.0.113.9" (hday f hf) 0
  · obtain ⟨i, hi, hfires⟩ := h
    have hlive : ∀ i ∈ [0, 1, 3, 5],
        ((live { maxFailures := 3 } (arrivals "203.0.113.9" (os.take (i + 1)))).length : ℤ) <
          3 := by
      decide +kernel
    have hpos : ∀ i ∈ [0, 1, 3, 5], ∃ o ∈ os[i]?, concerns "203.0.113.9" o := by decide +kernel
    obtain ⟨o, ho, hc⟩ := hpos i hi
    exact absurd ((firesAt_iff (watched_failures _ _) hd ho hc).mp hfires) (not_le.mpr (hlive i hi))

def Near (p : Params) (x y : ℚ) : Prop :=
  Binary64.sub x y < p.bruteForceWindow ∧ Binary64.sub y x < p.bruteForceWindow

theorem spanSeconds_toResult_lt_iff {es : List (String × ℚ)} (h : es ≠ []) (now : ℚ) (w : ℤ) :
    (Windows.toResult es now).spanSeconds < w ↔
      ∀ a ∈ es, ∀ b ∈ es, Binary64.sub a.2 b.2 < w := by
  obtain ⟨⟨⟨b₀, hb₀, hold⟩, hleast⟩, ⟨a₀, ha₀, hnew⟩, hgreatest⟩ :=
    Windows.toResult_extrema h now
  rw [WindowResult.spanSeconds, max_lt_iff]
  constructor
  · intro hspan a ha b hb
    exact (Binary64.sub_mono (hgreatest ⟨a, ha, rfl⟩) (hleast ⟨b, hb, rfl⟩)).trans_lt hspan.2
  · intro hall
    refine ⟨?_, by rw [← hnew, ← hold]; exact hall a₀ ha₀ b₀ hb₀⟩
    have hself := hall a₀ ha₀ a₀ ha₀
    rwa [Binary64.sub_same] at hself

instance (p : Params) (x y : ℚ) : Decidable (Near p x y) := inferInstanceAs (Decidable (_ ∧ _))

/-- Enough failures of the IP have arrived up to a position whose timestamps lie in one
interval shorter than the window. -/
def Substantiated (p : Params) (ip : String) (os : List Sighting) (i : ℕ) : Prop :=
  ∃ fs : List Sighting, fs.Sublist (arrivals ip (os.take (i + 1))) ∧ (∀ f ∈ fs, isFailure f) ∧
    p.maxFailures ≤ fs.length ∧ ∀ f ∈ fs, ∀ g ∈ fs, Near p f.event.epoch g.event.epoch

def WindowSound (py : Python) (p : Params) (os : List Sighting) : Prop :=
  ∀ ip i, ∀ o ∈ os[i]?, concerns ip o →
    (FiresAt py p os i → Substantiated p ip os i) ∧
      (observe p (tick o) o.event ip (Sighting.after py p [] (os.take i))).2.spanSeconds <
        p.bruteForceWindow

def ArrivesNearLive (p : Params) (os : List Sighting) : Prop :=
  ∀ ip i, ∀ o ∈ os[i]?, concerns ip o → ∀ a ∈ live p (arrivals ip (os.take (i + 1))),
    Near p a.event.epoch o.event.epoch

theorem measured_at (hw : ∀ o ∈ os, o.Watched .bruteForce) (hd : DistinctMembers (arrivals ip os))
    {i : ℕ} {o : Sighting} (ho : os[i]? = some o) (hc : concerns ip o) :
    (observe p (tick o) o.event ip (Sighting.after py p [] (os.take i))).2 =
      Windows.toResult ((live p (arrivals ip (os.take (i + 1)))).map entry) (measuredAt o) := by
  have hsub : (os.take i).Sublist os := List.take_sublist _ _
  have hslot := @slot_after p ip py [] none (slot_nil p ip) (os.take i)
    (fun o' ho' => hw o' (hsub.subset ho')) (hd.sublist (hsub.filter _))
  have hdist := hd.sublist ((List.take_sublist (i + 1) os).filter (concerns ip))
  change DistinctMembers (arrivals ip (os.take (i + 1))) at hdist
  rw [arrivals_take_succ ho hc] at hdist ⊢
  exact (observe_eq hslot (member_notMem_live hdist)).1

theorem near_of_arrivesNearLive (h : ArrivesNearLive p os)
    (hf : ∀ o ∈ os, o.event.eventType = .authFailure) (i : ℕ) :
    ∀ a ∈ live p (arrivals ip (os.take i)), ∀ b ∈ live p (arrivals ip (os.take i)),
      Near p a.event.epoch b.event.epoch := by
  induction i with
  | zero => exact fun a ha => absurd ha List.not_mem_nil
  | succ i ih =>
    cases ho : os[i]? with
    | none =>
      have htake : os.take (i + 1) = os.take i := by
        rw [List.take_add_one, ho]
        exact List.append_nil _
      rw [htake]
      exact ih
    | some o =>
      by_cases hc : concerns ip o
      · have hnear := h ip i o ho hc
        rw [arrivals_take_succ ho hc] at hnear ⊢
        have hfail : isFailure o := by
          simp [isFailure, hf o (List.mem_of_getElem? ho)]
        have hcases : ∀ a ∈ live p (arrivals ip (os.take i) ++ [o]),
            a ∈ live p (arrivals ip (os.take i)) ∨ a = o := by
          intro a ha
          rw [live_concat, if_pos hfail, List.mem_append, List.mem_singleton] at ha
          exact ha.imp_left List.mem_of_mem_filter
        intro a ha b hb
        rcases hcases a ha with ha' | rfl
        · rcases hcases b hb with hb' | rfl
          · exact ih a ha' b hb'
          · exact hnear a ha
        · exact (hnear b hb).symm
      · have hskip : arrivals ip (os.take (i + 1)) = arrivals ip (os.take i) := by
          rw [take_succ_eq ho, arrivals_concat, if_neg hc, List.append_nil]
        rw [hskip]
        exact ih

/-- Along every stream of failures, all answers of the rule are sound exactly when no
failure arrives a window or more away from one that is still live. -/
theorem windowSound_iff (py : Python) (p : Params) (os : List Sighting)
    (hf : ∀ o ∈ os, o.event.eventType = .authFailure) (hw : ∀ o ∈ os, o.Watched .bruteForce)
    (hd : ∀ ip, DistinctMembers (arrivals ip os)) :
    WindowSound py p os ↔ ArrivesNearLive p os := by
  have hmem : ∀ {ip i o}, os[i]? = some o → concerns ip o →
      o ∈ live p (arrivals ip (os.take (i + 1))) := by
    intro ip i o ho hc
    have hfail : isFailure o := by simp [isFailure, hf o (List.mem_of_getElem? ho)]
    rw [arrivals_take_succ ho hc, live_concat, if_pos hfail]
    exact List.mem_append_right _ (List.mem_singleton_self o)
  have hspan : ∀ {ip i o}, os[i]? = some o → concerns ip o →
      ((observe p (tick o) o.event ip (Sighting.after py p [] (os.take i))).2.spanSeconds <
        p.bruteForceWindow ↔ ∀ a ∈ live p (arrivals ip (os.take (i + 1))),
          ∀ b ∈ live p (arrivals ip (os.take (i + 1))),
            Binary64.sub a.event.epoch b.event.epoch < p.bruteForceWindow) := by
    intro ip i o ho hc
    have hne : (live p (arrivals ip (os.take (i + 1)))).map entry ≠ [] :=
      List.ne_nil_of_mem (List.mem_map_of_mem (hmem ho hc))
    rw [measured_at hw (hd ip) ho hc, spanSeconds_toResult_lt_iff hne]
    simp only [List.forall_mem_map]
    rfl
  constructor
  · intro h ip i o ho hc a ha
    have hall := (hspan ho hc).mp (h ip i o ho hc).2
    exact ⟨hall a ha o (hmem ho hc), hall o (hmem ho hc) a ha⟩
  · intro h ip i o ho hc
    have hnear := @near_of_arrivesNearLive p ip _ h hf (i + 1)
    refine ⟨fun hfires => ?_, (hspan ho hc).mpr fun a ha b hb => (hnear a ha b hb).1⟩
    have hsub := (reading p).survivors_sublist (arrivals ip (os.take (i + 1)))
    refine ⟨live p (arrivals ip (os.take (i + 1))), hsub.trans List.filter_sublist,
      fun f hf' => (List.mem_filter.mp (hsub.subset hf')).2,
      (firesAt_iff hw (hd ip) ho hc).mp hfires, hnear⟩

theorem windowSound_iff_orderly :
    WindowSound Python.ascii { maxFailures := 2 }
      (failures "203.0.113.9" [("a", 0), ("b", 1), ("c", 2)]) := by
  let os := failures "203.0.113.9" [("a", 0), ("b", 1), ("c", 2)]
  have hd : DistinctMembers os := by
    decide +kernel
  have hnear : ∀ i < 3, ∀ o ∈ os[i]?, o.event.sourceText = some "203.0.113.9" ∧
      ∀ a ∈ live { maxFailures := 2 } (arrivals "203.0.113.9" (os.take (i + 1))),
        Near { maxFailures := 2 } a.event.epoch o.event.epoch := by
    decide +kernel
  refine (windowSound_iff Python.ascii { maxFailures := 2 } os (by decide +kernel)
    (watched_failures _ _) fun ip => hd.sublist List.filter_sublist).mpr fun ip i o ho hc => ?_
  obtain ⟨hi, -⟩ := List.getElem?_eq_some_iff.mp ho
  obtain ⟨hip, hall⟩ := hnear i hi o ho
  obtain rfl := Option.some.inj ((concerns_iff.mp hc).2.symm.trans hip)
  exact hall

/-- A failure dated a thousand seconds behind the first one is counted together with it. -/
theorem late_failure_counted :
    let os := failures "203.0.113.9" [("a", 1000), ("b", 0)]
    FiresAt Python.ascii { maxFailures := 2 } os 1 ∧
      ¬ Substantiated { maxFailures := 2 } "203.0.113.9" os 1 ∧
      ¬ WindowSound Python.ascii { maxFailures := 2 } os := by
  intro os
  have hd : DistinctMembers (arrivals "203.0.113.9" os) := by
    decide +kernel
  obtain ⟨o, ho, hc⟩ : ∃ o ∈ os[1]?, concerns "203.0.113.9" o := by decide +kernel
  have hfires : FiresAt Python.ascii { maxFailures := 2 } os 1 :=
    (firesAt_iff (watched_failures _ _) hd ho hc).mpr (by decide +kernel)
  have hnot : ¬ Substantiated { maxFailures := 2 } "203.0.113.9" os 1 := by
    intro h
    obtain ⟨fs, hsub, -, hlen, hnear⟩ := h
    have htwo : (arrivals "203.0.113.9" (os.take 2)).length = 2 := by decide +kernel
    have hle : 2 ≤ fs.length := Int.ofNat_le.mp hlen
    have heq : fs = arrivals "203.0.113.9" (os.take 2) :=
      hsub.eq_of_length_le (htwo.trans_le hle)
    have hfar : ∃ f ∈ arrivals "203.0.113.9" (os.take 2),
        ∃ g ∈ arrivals "203.0.113.9" (os.take 2),
          ¬ Near { maxFailures := 2 } f.event.epoch g.event.epoch := by
      decide +kernel
    obtain ⟨f, hf, g, hg, hfar⟩ := hfar
    exact hfar (hnear f (heq ▸ hf) g (heq ▸ hg))
  exact ⟨hfires, hnot, fun h => hnot ((h "203.0.113.9" 1 o ho hc).1 hfires)⟩

end SiemEngine.BruteForce

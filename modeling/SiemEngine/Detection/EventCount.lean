import Mathlib.Data.Set.Card
import SiemEngine.Detection.FoldedAlert
import SiemEngine.Detection.OutOfOrder
import SiemEngine.Lib.Snapshots

/-!
# The event count of a brute-force alert

Along a stream of failures of one IP, every firing of the rule folds the size of its window
into the alert: the count grows by one, or to the size of the window. It is the number of
failures that were in the window at some firing as long as each firing finds one new
failure in the window, or all that were counted before.
-/

namespace SiemEngine

namespace BruteForce

open AlertCorrelator Snapshots

def windowAt (p : Params) (os : List Sighting) (i : ℕ) : Finset ℕ :=
  ((((reading p).comap Prod.fst).survivors (os.zipIdx.take (i + 1))).map Prod.snd).toFinset

def counted (py : Python) (p : Params) (os : List Sighting) (n : ℕ) : Set ℕ :=
  {j | ∃ i < n, FiresAt py p os i ∧ j ∈ windowAt p os i}

def firings (py : Python) (p : Params) (os : List Sighting) (n : ℕ) : List Detection :=
  (Sighting.detections py p [] (os.take n)).filter fun d => d.ruleId = ruleId

/-- Whatever is correlated of the stream counts the failures of its firings. -/
def CountsFailures (py : Python) (p : Params) (os : List Sighting) (t : Alerts) : Prop :=
  ∀ n ≤ os.length, ∀ cs : List Correlation, cs ≠ [] →
    cs.map Correlation.detection = firings py p os n →
    ∃ a, Creates t cs a ∧ a.eventCount = (counted py p os n).ncard

variable {py : Python} {p : Params} {ip : String} {os : List Sighting} {t : Alerts}

theorem survivors_zipIdx (p : Params) (os : List Sighting) (n : ℕ) :
    (((reading p).comap Prod.fst).survivors (os.zipIdx.take n)).map Prod.fst =
      live p (os.take n) := by
  have hfst : (os.zipIdx.take n).map Prod.fst = os.take n := by
    rw [List.map_take, List.zipIdx_map_fst]
  rw [← Retention.Reading.survivors_map, hfst]

theorem positions_sublist (p : Params) (os : List Sighting) (n : ℕ) :
    ((((reading p).comap Prod.fst).survivors (os.zipIdx.take n)).map Prod.snd).Sublist
      (List.range n) := by
  have hsub := ((reading p).comap (@Prod.fst Sighting ℕ)).survivors_sublist (os.zipIdx.take n)
  refine ((hsub.trans List.filter_sublist).map Prod.snd).trans ?_
  rw [List.map_take, List.zipIdx_map_snd, ← List.range_eq_range', List.take_range]
  exact List.range_sublist.mpr (min_le_left _ _)

theorem card_windowAt (p : Params) (os : List Sighting) (i : ℕ) :
    (windowAt p os i).card = (live p (os.take (i + 1))).length := by
  have hnodup := List.nodup_range.sublist (positions_sublist p os (i + 1))
  rw [windowAt, List.toFinset_card_of_nodup hnodup, List.length_map, ← List.length_map Prod.fst,
    survivors_zipIdx]

theorem self_mem_windowAt {i : ℕ} {o : Sighting} (ho : os[i]? = some o) (hfail : isFailure o) :
    i ∈ windowAt p os i := by
  have hzip : os.zipIdx[i]? = some (o, i) := by
    rw [List.getElem?_zipIdx, ho]
    simp
  have hadds : ((reading p).comap (@Prod.fst Sighting ℕ)).adds (o, i) = true := hfail
  rw [windowAt, List.take_add_one, hzip, Option.toList_some,
    Retention.Reading.survivors_concat, if_pos hadds, List.mem_toFinset, List.map_append]
  exact List.mem_append_right _ (List.mem_singleton_self i)

theorem le_of_mem_windowAt {i j : ℕ} (h : j ∈ windowAt p os i) : j ≤ i := by
  have hmem := (positions_sublist p os (i + 1)).subset (List.mem_toFinset.mp h)
  exact Nat.le_of_lt_succ (List.mem_range.mp hmem)

theorem eventCount_folded (first : Correlation) (cs : List Correlation) :
    (Alert.folded first cs).eventCount =
      ((first :: cs).map fun c => c.detection.eventCountHint).foldl tally 0 := by
  induction cs using List.reverseRecOn with
  | nil => rfl
  | append_singleton cs c ih =>
    rw [Alert.folded_concat, ← List.cons_append, List.map_append, List.map_singleton,
      List.foldl_concat, ← ih]
    rfl

theorem arrivals_eq_self (h : ∀ o ∈ os, concerns ip o) : arrivals ip os = os :=
  List.filter_eq_self.mpr h

def reaches (p : Params) (os : List Sighting) (i : ℕ) : Bool :=
  i < os.length ∧ p.maxFailures ≤ (windowAt p os i).card

structure FailuresOf (ip : String) (os : List Sighting) : Prop where
  concerns : ∀ o ∈ os, concerns ip o
  failures : ∀ o ∈ os, isFailure o
  watched : ∀ o ∈ os, o.Watched .bruteForce
  distinct : DistinctMembers os

theorem FailuresOf.take (h : FailuresOf ip os) (n : ℕ) : FailuresOf ip (os.take n) where
  concerns o ho := h.concerns o (List.take_subset n os ho)
  failures o ho := h.failures o (List.take_subset n os ho)
  watched o ho := h.watched o (List.take_subset n os ho)
  distinct := h.distinct.sublist (List.take_sublist n os)

theorem firesAt_iff_reaches (h : FailuresOf ip os) (i : ℕ) :
    FiresAt py p os i ↔ reaches p os i := by
  by_cases hi : i < os.length
  · have hmem := List.getElem_mem hi
    have hd : DistinctMembers (arrivals ip os) := by
      rw [arrivals_eq_self h.concerns]
      exact h.distinct
    have hfires := @firesAt_iff py p ip os h.watched hd i _ (List.getElem?_eq_getElem hi)
      (h.concerns _ hmem)
    rw [hfires, arrivals_eq_self (h.take (i + 1)).concerns, ← card_windowAt]
    simp [reaches, hi]
  · refine iff_of_false (fun hfires => ?_) (by simp [reaches, hi])
    obtain ⟨o, ho, -⟩ := hfires
    exact hi (List.getElem?_eq_some_iff.mp ho).1

theorem counted_eq (h : FailuresOf ip os) (n : ℕ) :
    counted py p os n = union (taken (reaches p os) (windowAt p os) n) := by
  ext j
  simp only [counted, Set.mem_ofPred_eq, Finset.mem_coe, mem_union, taken, List.mem_map,
    List.mem_filter, List.mem_range, firesAt_iff_reaches h]
  constructor
  · rintro ⟨i, hi, hreach, hj⟩
    exact ⟨_, ⟨i, ⟨hi, hreach⟩, rfl⟩, hj⟩
  · rintro ⟨W, ⟨i, ⟨hi, hreach⟩, rfl⟩, hj⟩
    exact ⟨i, hi, hreach, hj⟩

/-- The step lemma: what the rule adds to its detections on one more event. -/
theorem firings_succ (h : FailuresOf ip os) {n : ℕ} (hn : n < os.length) :
    (firings py p os (n + 1)).map Detection.unstamped =
      (firings py p os n).map Detection.unstamped ++
        if reaches p os n then [(detection py p os[n].event ip
          (measured p ip (os.take n) os[n]) (os[n].event.eventType = .authSuccess)).unstamped]
        else [] := by
  have ho : os[n]? = some os[n] := List.getElem?_eq_getElem hn
  have hpre : os.take n ++ [os[n]] = os.take (n + 1) := (take_succ_eq ho).symm
  have htake := h.take (n + 1)
  have hdetect := @detectionsIn_after p ip py os[n] [] none (slot_nil p ip) (os.take n)
    (by rw [hpre]; exact htake.watched) (h.concerns _ (List.getElem_mem hn))
    (by rw [hpre, arrivals_eq_self htake.concerns]; exact htake.distinct)
  rw [arrivals_eq_self (h.take n).concerns, hpre, ← card_windowAt] at hdetect
  have hsplit : firings py p os (n + 1) = firings py p os n ++
      (os[n].evaluate py p (Sighting.after py p [] (os.take n))).2.filter
        (fun d => d.ruleId = ruleId) := by
    rw [firings, ← hpre, Sighting.detections_append, List.filter_append, firings,
      Sighting.detections, Sighting.detections, List.append_nil]
  rw [hsplit, List.map_append]
  congr 1
  refine hdetect.trans ?_
  by_cases hreach : p.maxFailures ≤ (windowAt p os n).card
  · simp [reaches, hn, hreach, not_lt.mpr hreach]
  · simp [reaches, hreach, not_le.mp hreach]

theorem hints_firings (h : FailuresOf ip os) {n : ℕ} (hn : n ≤ os.length) :
    (firings py p os n).map Detection.eventCountHint =
      (taken (reaches p os) (windowAt p os) n).map fun W => (W.card : ℤ) := by
  have hhint : ∀ ds : List Detection, ds.map Detection.eventCountHint =
      (ds.map Detection.unstamped).map Detection.eventCountHint := fun ds => by
    rw [List.map_map]
    rfl
  induction n with
  | zero => rfl
  | succ n ih =>
    have ho : os[n]? = some os[n] := List.getElem?_eq_getElem hn
    have hcount : (measured p ip (os.take n) os[n]).count = (windowAt p os n).card := by
      rw [count_measured, arrivals_eq_self (h.take n).concerns, card_windowAt, take_succ_eq ho]
    rw [hhint, firings_succ h hn, List.map_append, ← hhint, ih (Nat.le_of_succ_le hn), taken_succ,
      List.map_append]
    congr 1
    by_cases hreach : reaches p os n
    · rw [if_pos hreach, if_pos hreach, List.map_singleton, List.map_singleton, ← hcount]
      rfl
    · rw [if_neg hreach, if_neg hreach]
      rfl

theorem key_firings (h : FailuresOf ip os) {n : ℕ} (hn : n ≤ os.length) :
    ∀ d ∈ firings py p os n, d.key = (ruleId, "srcip:" ++ ip) := by
  suffices hkeys : ∀ d ∈ (firings py p os n).map Detection.unstamped,
      d.key = (ruleId, "srcip:" ++ ip) from
    fun d hd => hkeys d.unstamped (List.mem_map_of_mem hd)
  induction n with
  | zero => exact fun d hd => absurd hd List.not_mem_nil
  | succ n ih =>
    intro d hd
    rw [firings_succ h hn, List.mem_append] at hd
    rcases hd with hd | hd
    · exact ih (Nat.le_of_succ_le hn) d hd
    · split_ifs at hd with hreach
      · rw [List.mem_singleton.mp hd]
        rfl
      · exact absurd hd List.not_mem_nil

/-- The run lemma: correlating the firings on the first events makes one alert, whose count
is the tally of their windows. -/
theorem creates_tallied (h : FailuresOf ip os)
    (hnone : ∀ id, ¬ t.openAt (ruleId, "srcip:" ++ ip) id) {n : ℕ} (hn : n ≤ os.length)
    {cs : List Correlation} (hne : cs ≠ [])
    (hcs : cs.map Correlation.detection = firings py p os n) :
    ∃ a, Creates t cs a ∧
      a.eventCount = tallied (taken (reaches p os) (windowAt p os) n) := by
  have hkey : ∀ c ∈ cs, c.detection.key = (ruleId, "srcip:" ++ ip) := fun c hc =>
    key_firings h hn _ (hcs ▸ List.mem_map_of_mem hc)
  have hhints : (cs.map fun c => c.detection.eventCountHint) =
      (taken (reaches p os) (windowAt p os) n).map fun W => (W.card : ℤ) := by
    rw [← @hints_firings py p ip os h n hn, ← hcs, List.map_map]
    rfl
  obtain ⟨first, rest, rfl⟩ := List.exists_cons_of_ne_nil hne
  exact ⟨_, creates_folded hnone hkey, by rw [eventCount_folded, hhints, tallied]⟩

theorem newest_mem (h : FailuresOf ip os) (i : ℕ) (hi : reaches p os i) : (windowAt p os i \
    union (taken (reaches p os) (windowAt p os) i)).Nonempty := by
  have hlt : i < os.length := (of_decide_eq_true hi).1
  have hself := self_mem_windowAt (p := p) (List.getElem?_eq_getElem hlt)
    (h.failures _ (List.getElem_mem hlt))
  refine ⟨i, Finset.mem_sdiff.mpr ⟨hself, fun hold => ?_⟩⟩
  have hcounted : i ∈ counted Python.ascii p os i := by
    rw [counted_eq h]
    exact hold
  obtain ⟨j, hj, -, hij⟩ := hcounted
  exact absurd (le_of_mem_windowAt hij) (not_le.mpr hj)

theorem countsFailures_iff (h : FailuresOf ip os)
    (hnone : ∀ id, ¬ t.openAt (ruleId, "srcip:" ++ ip) id) :
    CountsFailures py p os t ↔ ∀ n ≤ os.length,
      tallied (taken (reaches p os) (windowAt p os) n) =
        (union (taken (reaches p os) (windowAt p os) n)).card := by
  constructor
  · intro hall n hn
    by_cases hnil : firings py p os n = []
    · have hhints := @hints_firings py p ip os h n hn
      rw [hnil, List.map_nil, eq_comm, List.map_eq_nil_iff] at hhints
      rw [hhints]
      rfl
    · obtain ⟨cs, hcs⟩ : ∃ cs : List Correlation,
          cs.map Correlation.detection = firings py p os n := ⟨_, Correlation.map_detection _⟩
      have hne : cs ≠ [] := fun heq => hnil (by rw [← hcs, heq]; rfl)
      obtain ⟨a, hcreates, hcount⟩ := hall n hn cs hne hcs
      obtain ⟨a', hcreates', hcount'⟩ := creates_tallied h hnone hn hne hcs
      rw [hcreates'.unique hcreates] at hcount'
      rw [← hcount', hcount, counted_eq h, Set.ncard_coe_finset]
  · intro hall n hn cs hne hcs
    obtain ⟨a, hcreates, hcount⟩ := creates_tallied h hnone hn hne hcs
    refine ⟨a, hcreates, ?_⟩
    rw [hcount, hall n hn, counted_eq h, Set.ncard_coe_finset]

/-- Along every stream of failures of one IP, the count of the alert is the number of
failures that were in the window at some firing exactly when each firing finds one of them
that is new, or all of them. -/
theorem event_count_exact_iff (py : Python) (p : Params) (ip : String) (os : List Sighting)
    (t : Alerts) (h : FailuresOf ip os) (hnone : ∀ id, ¬ t.openAt (ruleId, "srcip:" ++ ip) id) :
    CountsFailures py p os t ↔ ∀ i, FiresAt py p os i →
      (windowAt p os i \ counted py p os i : Set ℕ).ncard = 1 ∨
        counted py p os i ⊆ windowAt p os i := by
  rw [countsFailures_iff h hnone, tallied_eq_card_iff os.length (newest_mem h)]
  constructor
  · intro hall i hi
    have hreach := (firesAt_iff_reaches h i).mp hi
    rw [counted_eq h, ← Finset.coe_sdiff, Set.ncard_coe_finset, Finset.coe_subset]
    exact hall i (of_decide_eq_true hreach).1 hreach
  · intro hall i hi hreach
    have hcase := hall i ((firesAt_iff_reaches h i).mpr hreach)
    rwa [counted_eq h, ← Finset.coe_sdiff, Set.ncard_coe_finset, Finset.coe_subset] at hcase

theorem event_count_exact_iff_one_burst :
    let os := failures "203.0.113.9" [("a", 0), ("b", 1), ("c", 2)]
    CountsFailures Python.ascii { maxFailures := 2 } os Alerts.empty := by
  intro os
  have h : FailuresOf "203.0.113.9" os :=
    ⟨by decide +kernel, by decide +kernel, watched_failures _ _, by decide +kernel⟩
  refine (event_count_exact_iff Python.ascii { maxFailures := 2 } "203.0.113.9" os Alerts.empty h
    (Alerts.not_openAt_empty _)).mpr fun i hi => Or.inr fun j hj => ?_
  obtain ⟨o, ho, -⟩ := hi
  obtain ⟨i', hi', -, hmem⟩ := hj
  have hkeeps : ∀ i < 3, ∀ i' < i,
      windowAt { maxFailures := 2 } os i' ⊆ windowAt { maxFailures := 2 } os i := by
    decide +kernel
  exact hkeeps i (List.getElem?_eq_some_iff.mp ho).1 i' hi' hmem

/-- Two bursts of three failures with a lull between them leave a count of four. -/
theorem second_burst_undercounted :
    let os := failures "203.0.113.9"
      [("a", 0), ("b", 1), ("c", 2), ("d", 100), ("e", 101), ("f", 102)]
    os.Pairwise (fun a b => a.event.timestamp ≤ b.event.timestamp) ∧
      (∃ cs a, cs.map Correlation.detection = firings Python.ascii { maxFailures := 3 } os 6 ∧
        Creates Alerts.empty cs a ∧ a.eventCount = 4) ∧
      (counted Python.ascii { maxFailures := 3 } os 6).ncard = 6 ∧
      ¬ CountsFailures Python.ascii { maxFailures := 3 } os Alerts.empty := by
  intro os
  have h : FailuresOf "203.0.113.9" os :=
    ⟨by decide +kernel, by decide +kernel, watched_failures _ _, by decide +kernel⟩
  have hncard : (counted Python.ascii { maxFailures := 3 } os 6).ncard = 6 := by
    rw [counted_eq h, Set.ncard_coe_finset]
    decide +kernel
  have htally : tallied (taken (reaches { maxFailures := 3 } os)
      (windowAt { maxFailures := 3 } os) 6) = 4 := by
    decide +kernel
  have hcs : ((firings Python.ascii { maxFailures := 3 } os 6).map fun d =>
      ({ detection := d } : Correlation)).map Correlation.detection =
        firings Python.ascii { maxFailures := 3 } os 6 := Correlation.map_detection _
  have hne : firings Python.ascii { maxFailures := 3 } os 6 ≠ [] := by
    intro hnil
    have hhints := @hints_firings Python.ascii { maxFailures := 3 } _ os h 6 (by decide)
    rw [hnil, List.map_nil, eq_comm, List.map_eq_nil_iff] at hhints
    rw [hhints] at htally
    exact absurd htally (by decide)
  obtain ⟨a, hcreates, hcount⟩ := creates_tallied h (Alerts.not_openAt_empty _) (by decide)
    (fun hnil => hne (List.map_eq_nil_iff.mp hnil)) hcs
  rw [htally] at hcount
  refine ⟨by decide +kernel, ⟨_, a, hcs, hcreates, hcount⟩, hncard, fun hall => ?_⟩
  obtain ⟨a', hcreates', hcount'⟩ := hall 6 (by decide) _
    (fun hnil => hne (List.map_eq_nil_iff.mp hnil)) hcs
  rw [hcreates'.unique hcreates, hcount, hncard] at hcount'
  exact absurd hcount' (by decide)

end BruteForce

end SiemEngine

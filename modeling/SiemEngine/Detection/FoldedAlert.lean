import Mathlib.Order.Bounds.Basic
import SiemEngine.Detection.Folding
import SiemEngine.Lib.Smallest

/-!
# The closed form of a folded alert

While no status changes, the correlations of one key make one alert: the first creates it
and the others fold into it. Its severity, confidence and anomaly score are the greatest of
the detections, and its users and hosts the first of their union, although each fold
truncates what it stores.
-/

namespace SiemEngine

open Smallest

structure Correlation where
  detection : Detection
  pref : ℕ := 0
  clock : Time := 0

namespace Correlation

def now (c : Correlation) : Time := c.detection.triggeredAt.getD c.clock

theorem map_detection (ds : List Detection) :
    (ds.map fun d => ({ detection := d } : Correlation)).map Correlation.detection = ds := by
  rw [List.map_map]
  exact List.map_id ds

end Correlation

/-- The alert that the first detection creates and the others fold into. -/
def Alert.folded (first : Correlation) (cs : List Correlation) : Alert :=
  cs.foldl (fun a c => a.fold c.now c.detection) (Alert.ofDetection first.now first.detection)

theorem Alert.folded_concat (first : Correlation) (cs : List Correlation) (c : Correlation) :
    Alert.folded first (cs ++ [c]) = (Alert.folded first cs).fold c.now c.detection :=
  List.foldl_concat ..

namespace Alerts

theorem not_openAt_empty (key : String × String) (id : ℕ) : ¬ empty.openAt key id := by
  intro hopen
  obtain ⟨a, ha, -⟩ := openAt_iff.mp hopen
  exact absurd ha (by simp [get?, empty])

end Alerts

namespace AlertCorrelator

def applyAll (t : Alerts) (cs : List Correlation) : Option Alerts :=
  cs.foldlM (fun t c => apply t c.pref c.clock c.detection) t

def Creates (t : Alerts) (cs : List Correlation) (a : Alert) : Prop :=
  ∃ u, applyAll t cs = some u ∧ u.rows = t.rows ++ [a]

variable {t : Alerts} {key : String × String} {first c : Correlation} {cs : List Correlation}

theorem Creates.unique {a a' : Alert} (h : Creates t cs a) (h' : Creates t cs a') : a = a' := by
  obtain ⟨u, hu, hrows⟩ := h
  obtain ⟨u', hu', hrows'⟩ := h'
  obtain rfl := Option.some.inj (hu.symm.trans hu')
  exact List.singleton_inj.mp (List.append_cancel_left (hrows.symm.trans hrows'))

theorem applyAll_concat (t : Alerts) (cs : List Correlation) (c : Correlation) :
    applyAll t (cs ++ [c]) =
      (applyAll t cs).bind fun u => apply u c.pref c.clock c.detection := by
  rw [applyAll, List.foldlM_append]
  cases h : applyAll t cs with
  | none => simp [applyAll] at h; simp [h]
  | some u => simp [applyAll] at h; simp [h]

theorem slot_folded (first : Correlation) (cs : List Correlation) :
    (Alert.folded first cs).slot = (first.detection.key, .open) := by
  induction cs using List.reverseRecOn with
  | nil => rfl
  | append_singleton cs c ih => rw [Alert.folded_concat, Alert.fold_slot, ih]

theorem not_folds_of_not_openAt {d : Detection} (hnone : ∀ id, ¬ t.openAt key id)
    (hkey : d.key = key) : ∀ a ∈ t.rows, ¬ a.folds d := by
  intro a ha hfolds
  obtain ⟨id, hid⟩ := List.mem_iff_getElem?.mp ha
  obtain ⟨hak, hact⟩ := Bool.and_eq_true_iff.mp hfolds
  exact hnone id (Alerts.openAt_iff.mpr ⟨a, hid, (of_decide_eq_true hak).trans hkey, hact⟩)

theorem rows_apply_first {d : Detection} {pref : ℕ} {clock : Time}
    (hnone : ∀ id, ¬ t.openAt key id) (hkey : d.key = key) :
    ∃ u, apply t pref clock d = some u ∧
      u.rows = t.rows ++ [Alert.ofDetection (d.triggeredAt.getD clock) d] := by
  have hmiss := not_folds_of_not_openAt hnone hkey
  have hone : Upsert.AtMostOne Alert.folds d t.rows := by
    rw [Upsert.AtMostOne, List.filter_eq_nil_iff.mpr hmiss]
    exact Nat.zero_le 1
  obtain ⟨u, hu, -⟩ := apply_cases t pref clock d
  exact ⟨u, hu, (rows_apply hone hu).trans (Upsert.absorb_of_miss hmiss)⟩

theorem rows_apply_next {d : Detection} {pref : ℕ} {clock : Time} {u : Alerts} {a : Alert}
    (hnone : ∀ id, ¬ t.openAt key id) (hkey : d.key = key) (hu : u.rows = t.rows ++ [a])
    (hslot : a.slot = (key, .open)) : ∃ v, apply u pref clock d = some v ∧
      v.rows = t.rows ++ [a.fold (d.triggeredAt.getD clock) d] := by
  have hmiss := not_folds_of_not_openAt hnone hkey
  have hak : a.key = key := congrArg Prod.fst hslot
  have hopen : a.status = .open := congrArg Prod.snd hslot
  have hhit : a.folds d := by
    rw [Alert.folds, hak, hkey, hopen]
    simp [AlertStatus.isActive]
  have hone : Upsert.AtMostOne Alert.folds d u.rows := by
    rw [Upsert.AtMostOne, hu, List.filter_append, List.filter_eq_nil_iff.mpr hmiss,
      List.nil_append]
    exact List.length_filter_le _ [a]
  obtain ⟨v, hv, -⟩ := apply_cases u pref clock d
  refine ⟨v, hv, (rows_apply hone hv).trans ?_⟩
  rw [hu]
  exact Upsert.absorb_append_of_hit hmiss hhit

/-- The run lemma: from a table without an active alert of the key, the correlations create
one alert, which is the fold of their detections. -/
theorem creates_folded (hnone : ∀ id, ¬ t.openAt key id)
    (hkey : ∀ c ∈ first :: cs, c.detection.key = key) :
    Creates t (first :: cs) (Alert.folded first cs) := by
  obtain ⟨hfirst, hrest⟩ := List.forall_mem_cons.mp hkey
  induction cs using List.reverseRecOn with
  | nil =>
    obtain ⟨u, hu, hrows⟩ := @rows_apply_first t key first.detection first.pref first.clock hnone
      hfirst
    exact ⟨u, by simp [applyAll, hu], hrows⟩
  | append_singleton cs c ih =>
    have hcs : ∀ c ∈ cs, c.detection.key = key := fun c hc => hrest c (List.mem_append_left _ hc)
    obtain ⟨u, hu, hrows⟩ := ih (List.forall_mem_cons.mpr ⟨hfirst, hcs⟩) hcs
    have hslot : (Alert.folded first cs).slot = (key, .open) := by
      rw [slot_folded, hfirst]
    obtain ⟨v, hv, hrows'⟩ := @rows_apply_next t key c.detection c.pref c.clock u _ hnone
      (hrest c (List.mem_append_right _ (List.mem_singleton_self c))) hrows hslot
    refine ⟨v, ?_, by rw [hrows', Alert.folded_concat]; rfl⟩
    rw [← List.cons_append, applyAll_concat, hu, Option.bind_some, hv]

end AlertCorrelator

/-- A detection with sorted users without duplicates, at most one host, one evidence item
and no negative score. -/
structure Detection.Plain (d : Detection) : Prop where
  users : d.involvedUsers.Pairwise (· < ·)
  hosts : d.involvedHosts.length ≤ 1 ∧ "" ∉ d.involvedHosts
  evidence : d.evidence.length = 1
  score : ∀ score ∈ d.anomalyScore, 0 ≤ score

namespace Alert

def GreatestScore (scores : List (Option ℚ)) : Option ℚ → Prop
  | none => ∀ score ∈ scores, score = none
  | some m => IsGreatest {x | some x ∈ scores} m

structure ClosedForm (ds : List Detection) (a : Alert) : Prop where
  severity : IsGreatest {n | ∃ d ∈ ds, d.severity.rank = n} a.severity.rank
  confidence : IsGreatest {x | ∃ d ∈ ds, d.confidence = x} a.confidence
  anomalyScore : GreatestScore (ds.map Detection.anomalyScore) a.anomalyScore
  involvedUsers : a.involvedUsers = smallest maxInvolved (ds.flatMap Detection.involvedUsers)
  involvedHosts : a.involvedHosts = smallest maxInvolved (ds.flatMap Detection.involvedHosts)
  eventCount : ds.length ≤ a.eventCount ∧ ∀ d ∈ ds, d.eventCountHint ≤ a.eventCount
  evidence : a.evidence.length ≤ maxEvidence ∧ a.evidence.Nodup

variable {ds ds' : List Detection} {d : Detection} {a a' : Alert}

theorem isGreatest_singleton {α β : Type*} [Preorder β] (f : α → β) (x : α) :
    IsGreatest {y | ∃ x' ∈ [x], f x' = y} (f x) := by
  refine ⟨⟨x, List.mem_singleton_self x, rfl⟩, ?_⟩
  rintro y ⟨x', hx', rfl⟩
  rw [List.mem_singleton.mp hx']

theorem isGreatest_concat {α β : Type*} [LinearOrder β] {f : α → β} {xs : List α} {m : β}
    (h : IsGreatest {y | ∃ x ∈ xs, f x = y} m) (x : α) :
    IsGreatest {y | ∃ x' ∈ xs ++ [x], f x' = y} (max m (f x)) := by
  have hset : {y | ∃ x' ∈ xs ++ [x], f x' = y} = insert (f x) {y | ∃ x ∈ xs, f x = y} := by
    ext y
    simp only [List.mem_append, List.mem_singleton, Set.mem_ofPred_eq, Set.mem_insert_iff]
    constructor
    · rintro ⟨x', hx' | rfl, rfl⟩
      · exact Or.inr ⟨x', hx', rfl⟩
      · exact Or.inl rfl
    · rintro (rfl | ⟨x', hx', rfl⟩)
      · exact ⟨x, Or.inr rfl, rfl⟩
      · exact ⟨x', Or.inl hx', rfl⟩
  rw [hset, max_comm]
  exact h.insert (f x)

theorem pairwise_of_length_le_one {α : Type*} {r : α → α → Prop} {xs : List α}
    (h : xs.length ≤ 1) : xs.Pairwise r := by
  match xs with
  | [] => exact List.Pairwise.nil
  | [x] => exact List.pairwise_singleton r x

theorem greatestScore_singleton (score : Option ℚ) : GreatestScore [score] score := by
  cases score with
  | none => exact fun s hs => List.mem_singleton.mp hs
  | some m =>
    refine ⟨List.mem_singleton_self _, fun x hx => ?_⟩
    exact (Option.some.inj (List.mem_singleton.mp hx)).le

theorem greatestScore_concat {scores : List (Option ℚ)} {m score : Option ℚ}
    (h : GreatestScore scores m) (hscore : ∀ x ∈ score, 0 ≤ x) :
    GreatestScore (scores ++ [score]) (score.elim m fun x => some (max (m.getD 0) x)) := by
  have hmem : ∀ x : ℚ, some x ∈ scores ++ [score] ↔ some x ∈ scores ∨ score = some x := by
    simp [eq_comm]
  cases score with
  | none =>
    cases m with
    | none =>
      intro s hs
      rcases List.mem_append.mp hs with hs | hs
      · exact h s hs
      · exact List.mem_singleton.mp hs
    | some m => simpa [GreatestScore, hmem] using h
  | some x =>
    cases m with
    | none =>
      have hx : max 0 x = x := max_eq_right (hscore x rfl)
      refine ⟨(hmem _).mpr (Or.inr (by rw [Option.getD_none, hx])), fun y hy => ?_⟩
      rcases (hmem y).mp hy with hy | hy
      · exact absurd (h _ hy) (Option.some_ne_none y)
      · rw [Option.some.inj hy]
        exact le_max_right _ _
    | some m =>
      refine ⟨(hmem _).mpr ?_, fun y hy => ?_⟩
      · rcases max_choice m x with hmax | hmax
        · exact Or.inl (by rw [Option.getD_some, hmax]; exact h.1)
        · exact Or.inr (by rw [Option.getD_some, hmax])
      · rcases (hmem y).mp hy with hy | hy
        · exact (h.2 hy).trans (le_max_left _ _)
        · rw [Option.some.inj hy]
          exact le_max_right _ _

theorem closedForm_ofDetection (now : Time) (h : d.Plain) :
    ClosedForm [d] (ofDetection now d) where
  severity := isGreatest_singleton (fun d : Detection => d.severity.rank) d
  confidence := isGreatest_singleton Detection.confidence d
  anomalyScore := greatestScore_singleton d.anomalyScore
  involvedUsers := by
    rw [List.flatMap_singleton, smallest_of_pairwise h.users]
    rfl
  involvedHosts := by
    rw [List.flatMap_singleton, smallest_of_pairwise (pairwise_of_length_le_one h.hosts.1)]
    rfl
  eventCount := by
    refine ⟨le_max_left _ _, fun d' hd' => ?_⟩
    rw [List.mem_singleton.mp hd']
    exact le_max_right _ _
  evidence := by
    have hone := h.evidence
    refine ⟨List.length_take_le _ _, ?_⟩
    exact (pairwise_of_length_le_one hone.le).sublist (List.take_sublist _ _)

theorem rank_fold (now : Time) (a : Alert) (d : Detection) :
    (a.fold now d).severity.rank = max a.severity.rank d.severity.rank := by
  change (if a.severity.rank < d.severity.rank then d.severity else a.severity).rank = _
  split_ifs with h
  · exact (max_eq_right h.le).symm
  · exact (max_eq_left (not_lt.mp h)).symm

theorem evidence_fold (now : Time) (h : a.evidence.Nodup) (d : Detection) :
    (a.fold now d).evidence.length ≤ maxEvidence ∧ (a.fold now d).evidence.Nodup := by
  have hfold : (d.evidence.foldl addEvidence a.evidence).Nodup := by
    generalize a.evidence = acc at h
    induction d.evidence generalizing acc with
    | nil => exact h
    | cons item items ih =>
      refine ih _ ?_
      unfold addEvidence
      split_ifs with hmem
      · exact h
      · rw [← List.concat_eq_append]
        exact h.concat hmem
  change ((d.evidence.foldl addEvidence a.evidence).rtake maxEvidence).length ≤ _ ∧
    ((d.evidence.foldl addEvidence a.evidence).rtake maxEvidence).Nodup
  rw [List.rtake]
  refine ⟨?_, hfold.sublist (List.drop_sublist _ _)⟩
  rw [List.length_drop]
  omega

/-- The step lemma: a fold extends the closed form by its detection. -/
theorem ClosedForm.fold (h : ClosedForm ds a) (hd : d.Plain) (now : Time) :
    ClosedForm (ds ++ [d]) (a.fold now d) where
  severity := by
    rw [rank_fold]
    exact isGreatest_concat h.severity d
  confidence := isGreatest_concat h.confidence d
  anomalyScore := by
    have hfold : (a.fold now d).anomalyScore =
        d.anomalyScore.elim a.anomalyScore fun x => some (max (a.anomalyScore.getD 0) x) := by
      cases hscore : d.anomalyScore <;> simp [Alert.fold, hscore]
    rw [hfold, List.map_append, List.map_singleton]
    exact greatestScore_concat h.anomalyScore hd.score
  involvedUsers := by
    change smallest maxInvolved (a.involvedUsers ++ d.involvedUsers) = _
    rw [h.involvedUsers, smallest_append_smallest, List.flatMap_append, List.flatMap_singleton]
  involvedHosts := by
    have hnamed : d.involvedHosts.filter (· ≠ "") = d.involvedHosts :=
      List.filter_eq_self.mpr fun host hhost =>
        decide_eq_true fun heq => hd.hosts.2 (heq ▸ hhost)
    change smallest maxInvolved (a.involvedHosts ++ d.involvedHosts.filter (· ≠ "")) = _
    rw [hnamed, h.involvedHosts, smallest_append_smallest, List.flatMap_append,
      List.flatMap_singleton]
  eventCount := by
    obtain ⟨hlength, hhints⟩ := h.eventCount
    have hfold : (a.fold now d).eventCount = max (a.eventCount + 1) d.eventCountHint := rfl
    rw [hfold, List.length_append, List.length_singleton]
    refine ⟨?_, fun d' hd' => ?_⟩
    · push_cast
      omega
    · rcases List.mem_append.mp hd' with hd' | hd'
      · have hle := hhints d' hd'
        omega
      · rw [List.mem_singleton.mp hd']
        exact le_max_right _ _
  evidence := evidence_fold now h.evidence.2 d

theorem closedForm_folded {first : Correlation} {cs : List Correlation}
    (h : ∀ c ∈ first :: cs, c.detection.Plain) :
    ClosedForm ((first :: cs).map Correlation.detection) (folded first cs) := by
  obtain ⟨hfirst, hrest⟩ := List.forall_mem_cons.mp h
  induction cs using List.reverseRecOn with
  | nil => exact closedForm_ofDetection first.now hfirst
  | append_singleton cs c ih =>
    have hcs : ∀ c ∈ cs, c.detection.Plain := fun c hc => hrest c (List.mem_append_left _ hc)
    rw [folded_concat, ← List.cons_append, List.map_append, List.map_singleton]
    exact (ih (List.forall_mem_cons.mpr ⟨hfirst, hcs⟩) hcs).fold
      (hrest c (List.mem_append_right _ (List.mem_singleton_self c))) c.now

theorem GreatestScore.unique {scores : List (Option ℚ)} {m m' : Option ℚ}
    (h : GreatestScore scores m) (h' : GreatestScore scores m') : m = m' := by
  cases m with
  | none =>
    cases m' with
    | none => rfl
    | some x' => exact absurd (h _ h'.1) (Option.some_ne_none x')
  | some x =>
    cases m' with
    | none => exact absurd (h' _ h.1) (Option.some_ne_none x)
    | some x' => exact congrArg some (IsGreatest.unique h h')

theorem rank_injective : Function.Injective Severity.rank := by
  intro s s' h
  have hall : ∀ s ∈ Severity.all, ∀ s' ∈ Severity.all, s.rank = s'.rank → s = s' := by decide
  exact hall s (by cases s <;> decide) s' (by cases s' <;> decide) h

/-- The fields that do not depend on the order of the detections. -/
structure SameRecord (a a' : Alert) : Prop where
  severity : a.severity = a'.severity
  confidence : a.confidence = a'.confidence
  anomalyScore : a.anomalyScore = a'.anomalyScore
  involvedUsers : a.involvedUsers = a'.involvedUsers
  involvedHosts : a.involvedHosts = a'.involvedHosts

theorem ClosedForm.sameRecord (h : ClosedForm ds a) (h' : ClosedForm ds' a')
    (hperm : ds.Perm ds') : SameRecord a a' := by
  have hset : ∀ {β : Type} (f : Detection → β),
      {x | ∃ d ∈ ds, f d = x} = {x | ∃ d ∈ ds', f d = x} := by
    intro β f
    ext x
    simp only [hperm.mem_iff]
  have hflat : ∀ f : Detection → List String, ∀ x, x ∈ ds.flatMap f ↔ x ∈ ds'.flatMap f :=
    fun f x => (hperm.flatMap_right f).mem_iff
  refine ⟨rank_injective ?_, ?_, ?_, ?_, ?_⟩
  · have hgreatest := h'.severity
    rw [← hset] at hgreatest
    exact h.severity.unique hgreatest
  · have hgreatest := h'.confidence
    rw [← hset] at hgreatest
    exact h.confidence.unique hgreatest
  · have hscores := h'.anomalyScore
    have hmem : ∀ score, score ∈ ds'.map Detection.anomalyScore ↔
        score ∈ ds.map Detection.anomalyScore := fun score =>
      ((hperm.map Detection.anomalyScore).mem_iff).symm
    refine h.anomalyScore.unique ?_
    cases hscore : a'.anomalyScore with
    | none =>
      rw [hscore] at hscores
      exact fun score hin => hscores score ((hmem score).mpr hin)
    | some m =>
      rw [hscore] at hscores
      exact ⟨(hmem _).mp hscores.1, fun x hx => hscores.2 ((hmem _).mpr hx)⟩
  · rw [h.involvedUsers, h'.involvedUsers]
    exact smallest_congr (hflat _)
  · rw [h.involvedHosts, h'.involvedHosts]
    exact smallest_congr (hflat _)

end Alert

namespace AlertCorrelator

variable {t : Alerts} {key : String × String} {cs : List Correlation}

theorem eventCount_increases (hnone : ∀ id, ¬ t.openAt key id)
    (hkey : ∀ c ∈ cs, c.detection.key = key) {i : ℕ} (hpos : 0 < i) (hi : i < cs.length) :
    ∃ b b', Creates t (cs.take i) b ∧ Creates t (cs.take (i + 1)) b' ∧
      b.eventCount < b'.eventCount := by
  obtain ⟨first, rest, rfl⟩ := List.exists_cons_of_length_pos (hpos.trans hi)
  obtain ⟨i, rfl⟩ := Nat.exists_eq_add_of_le' hpos
  have hlt : i < rest.length := by simpa using hi
  have hpre : ∀ n, ∀ c ∈ first :: rest.take n, c.detection.key = key := fun n c hc =>
    hkey c (List.cons_subset_cons first (List.take_subset n rest) hc)
  have htake : rest.take (i + 1) = rest.take i ++ [rest[i]] := List.take_succ_eq_append_getElem hlt
  refine ⟨_, _, creates_folded hnone (hpre i), creates_folded hnone (hpre (i + 1)), ?_⟩
  rw [htake, Alert.folded_concat]
  exact Alert.eventCount_lt_fold _ _ _

/-- The correlations of one key create one alert in the closed form of its detections, the
same for any order of them, whose count increases with every fold. -/
theorem folding_closed_form (t : Alerts) (key : String × String) (cs : List Correlation)
    (hne : cs ≠ []) (hkey : ∀ c ∈ cs, c.detection.key = key)
    (hplain : ∀ c ∈ cs, c.detection.Plain) (hnone : ∀ id, ¬ t.openAt key id) :
    ∃ a, Creates t cs a ∧ Alert.ClosedForm (cs.map Correlation.detection) a ∧
      (∀ i, 0 < i → i < cs.length → ∃ b b', Creates t (cs.take i) b ∧
        Creates t (cs.take (i + 1)) b' ∧ b.eventCount < b'.eventCount) ∧
      ∀ cs' : List Correlation,
        (cs'.map Correlation.detection).Perm (cs.map Correlation.detection) →
        ∃ a', Creates t cs' a' ∧ Alert.SameRecord a' a := by
  have hclosed : ∀ cs : List Correlation, cs ≠ [] → (∀ c ∈ cs, c.detection.key = key) →
      (∀ c ∈ cs, c.detection.Plain) →
      ∃ a, Creates t cs a ∧ Alert.ClosedForm (cs.map Correlation.detection) a := by
    intro cs hne hkey hplain
    obtain ⟨first, rest, rfl⟩ := List.exists_cons_of_ne_nil hne
    exact ⟨_, creates_folded hnone hkey, Alert.closedForm_folded hplain⟩
  obtain ⟨a, hcreates, hform⟩ := hclosed cs hne hkey hplain
  refine ⟨a, hcreates, hform, fun i => eventCount_increases hnone hkey, fun cs' hperm => ?_⟩
  have hmem : ∀ c' ∈ cs', ∃ c ∈ cs, c.detection = c'.detection := fun c' hc' =>
    List.mem_map.mp (hperm.mem_iff.mp (List.mem_map_of_mem hc'))
  obtain ⟨a', hcreates', hform'⟩ := hclosed cs'
    (fun hnil => hne (List.length_eq_zero_iff.mp (by simpa [hnil] using hperm.length_eq.symm)))
    (fun c' hc' => by
      obtain ⟨c, hc, heq⟩ := hmem c' hc'
      exact heq ▸ hkey c hc)
    (fun c' hc' => by
      obtain ⟨c, hc, heq⟩ := hmem c' hc'
      exact heq ▸ hplain c hc)
  exact ⟨a', hcreates', hform'.sameRecord hform hperm⟩

theorem folding_closed_form_two :
    let detection (severity : Severity) (users : List String) (score : Option ℚ) : Detection :=
      { ruleId := "RULE-001", kind := .rule, title := "Brute-force login activity",
        description := "", severity, confidence := 3 / 5, correlationKey := "srcip:203.0.113.9",
        sourceIp := none, affectedHost := none, recommendedAction := "",
        evidence := [⟨0, 0, ""⟩], involvedUsers := users, involvedHosts := ["web-1"],
        anomalyScore := score }
    let ds := [detection .high ["bob"] none, detection .critical ["alice", "carol"] (some (1 / 2))]
    ∃ a, Creates Alerts.empty (ds.map fun d => { detection := d }) a ∧
      a.involvedUsers = ["alice", "bob", "carol"] := by
  intro detection ds
  have hplain : ∀ c ∈ ds.map fun d => ({ detection := d } : Correlation), c.detection.Plain := by
    intro c hc
    obtain ⟨d, hd, rfl⟩ := List.mem_map.mp hc
    have hall : ∀ d ∈ ds, d.involvedUsers.Pairwise (· < ·) ∧
        (d.involvedHosts.length ≤ 1 ∧ "" ∉ d.involvedHosts) ∧ d.evidence.length = 1 ∧
        ∀ score ∈ d.anomalyScore, 0 ≤ score := by
      decide +kernel
    obtain ⟨husers, hhosts, hevidence, hscore⟩ := hall d hd
    exact ⟨husers, hhosts, hevidence, hscore⟩
  obtain ⟨a, hcreates, hform, -, -⟩ := folding_closed_form Alerts.empty
    ("RULE-001", "srcip:203.0.113.9") (ds.map fun d => { detection := d }) (by decide)
    (by decide +kernel) hplain (Alerts.not_openAt_empty _)
  refine ⟨a, hcreates, hform.involvedUsers.trans ?_⟩
  decide +kernel

end AlertCorrelator

end SiemEngine

import Mathlib.Data.List.Induction
import SiemEngine.Detection.Isolation
import SiemEngine.Streaming.Accounting
import SiemEngine.Streaming.Retry

/-!
# What the pipeline writes into the alerts table

Every detection of a call comes from a rule that was run on a fresh event, or from the minute
rollover; a detection that is applied inserts a row or folds into one. What these two steps keep
is kept by transactions, rollovers and calls.
-/

namespace SiemEngine

theorem DetectionEngine.exists_of_mem_evaluate {py : Python} {engine : DetectionEngine}
    {ticks : Rule → Tick} {ev : SecurityEvent} {ws : Windows} {d : Detection}
    (h : d ∈ (engine.evaluate py ticks ev ws).2) :
    ∃ (rule : Rule) (ws ws' : Windows) (found : Detection),
      rule.evaluate py engine.params (ticks rule) ev ws = (ws', .ok (some found)) ∧
        d = { found with triggeredAt := some (ticks rule).triggeredAt } := by
  have hfold : ∀ (rules : List Rule) (acc : Windows × List Detection),
      d ∈ (rules.foldl (engine.runDetector py ticks ev) acc).2 → d ∈ acc.2 ∨
        ∃ (rule : Rule) (ws ws' : Windows) (found : Detection),
          rule.evaluate py engine.params (ticks rule) ev ws = (ws', .ok (some found)) ∧
            d = { found with triggeredAt := some (ticks rule).triggeredAt } := by
    intro rules
    induction rules with
    | nil => exact fun _ hd => Or.inl hd
    | cons rule rules ih =>
      intro acc hd
      rcases ih _ hd with hd | hfound
      · unfold runDetector at hd
        split_ifs at hd
        · exact Or.inl hd
        · split at hd
          · rename_i ws' found heval
            rcases List.mem_append.mp hd with hd | hd
            · exact Or.inl hd
            · exact Or.inr ⟨rule, acc.1, ws', found, heval, List.mem_singleton.mp hd⟩
          · exact Or.inl hd
          · exact Or.inl hd
      · exact Or.inr hfound
  exact (hfold Rule.all (ws, []) h).resolve_left List.not_mem_nil

namespace Pipeline

variable {cfg : Config} {s : Pipeline} {c : Call}

theorem exists_of_mem_detect {ws : Windows} {events : List (Arrival × SecurityEvent)}
    {d : Detection} (h : d ∈ (detect cfg ws events).2) : ∃ av ∈ events, ∃ ws',
      d ∈ (cfg.engine.evaluate cfg.py av.1.ticks av.2 ws').2 := by
  induction events using List.reverseRecOn with
  | nil => exact absurd h List.not_mem_nil
  | append_singleton events av ih =>
    have hsplit : (detect cfg ws (events ++ [av])).2 = (detect cfg ws events).2 ++
        (cfg.engine.evaluate cfg.py av.1.ticks av.2 (detect cfg ws events).1).2 := by
      rw [detect, List.foldl_append]
      rfl
    rw [hsplit] at h
    rcases List.mem_append.mp h with hd | hd
    · obtain ⟨av', hav, ws', hd⟩ := ih hd
      exact ⟨av', List.mem_append_left _ hav, ws', hd⟩
    · exact ⟨av, List.mem_append_right _ (List.mem_singleton_self av), _, hd⟩

theorem rolloverDetections_cases {d : Detection} (h : d ∈ rolloverDetections cfg s c) :
    (∃ res raisedAt, d = anomalyDetection res s.bucket raisedAt) ∨
      ∃ score reason raisedAt features,
        d = mlDetection score reason s.bucket raisedAt features := by
  rcases List.mem_append.mp h with hd | hd
  · obtain ⟨i, hi, rfl⟩ := List.mem_mapIdx.mp hd
    exact Or.inl ⟨_, _, rfl⟩
  · obtain ⟨out, -, rfl⟩ := List.mem_map.mp hd
    exact Or.inr ⟨_, _, _, _, rfl⟩

end Pipeline

/-- The detections of a rollover whose sessions have committed. -/
def Pipeline.committedStandalone (failAt : Option (ℕ × Bool)) (pref : ℕ → ℕ) (clock : Time)
    (db : Database) : List Detection → List Detection
  | [] => []
  | d :: ds =>
    let sessionFault := if failAt = some (0, false) then some 0 else none
    match Database.sessionScope sessionFault db [Database.applyDetection (pref 0) clock d] with
    | none => []
    | some db' => d ::
      if failAt = some (0, true) then []
      else committedStandalone (failAt.map fun f => (f.1 - 1, f.2)) (fun i => pref (i + 1)) clock
        db' ds

/-- The detections that a call commits: those of its batch, then one by one those of the minute
rollover, also when a later one raises. -/
def Pipeline.committed (cfg : Config) (s : Pipeline) (c : Call) : List Detection :=
  match commit? cfg s c with
  | none => []
  | some db => (detect cfg s.windows (freshOf cfg s c)).2 ++
    if c.fault = some .publish then []
    else committedStandalone (c.fault.bind Fault.alert?) c.rolloverPref c.clock db
      (rolledOver cfg s c (freshOf cfg s c))

/-- The detections that a call commits unless it raises. -/
def Pipeline.computed (cfg : Config) (s : Pipeline) (c : Call) : List Detection :=
  if commit? cfg s c = none then []
  else (detect cfg s.windows (freshOf cfg s c)).2 ++
    if c.fault = some .publish then [] else rolledOver cfg s c (freshOf cfg s c)

theorem Pipeline.mem_computed {cfg : Config} {s : Pipeline} {c : Call} {d : Detection}
    (h : d ∈ computed cfg s c) :
    commit? cfg s c ≠ none ∧ d ∈ (detect cfg s.windows (freshOf cfg s c)).2 ∨
      ∃ s', d ∈ rolloverDetections cfg s' c := by
  rw [computed] at h
  split_ifs at h with hcommit
  · exact absurd h List.not_mem_nil
  · rw [List.append_nil] at h
    exact Or.inl ⟨hcommit, h⟩
  · rcases List.mem_append.mp h with hd | hd
    · exact Or.inl ⟨hcommit, hd⟩
    · rw [rolledOver] at hd
      split_ifs at hd
      · exact absurd hd List.not_mem_nil
      · exact Or.inr ⟨_, hd⟩

theorem Pipeline.mem_committed_of_detect {cfg : Config} {s : Pipeline} {c : Call} {d : Detection}
    (hcommit : commit? cfg s c ≠ none) (h : d ∈ (detect cfg s.windows (freshOf cfg s c)).2) :
    d ∈ committed cfg s c := by
  obtain ⟨db, hdb⟩ := Option.ne_none_iff_exists'.mp hcommit
  simp only [committed, hdb]
  exact List.mem_append_left _ h

/-- A relation between the alerts before and after some detections are applied in turn. Each of
them satisfies `Q`, and inserts a row or folds into one. -/
structure Alerts.Writes (Q : Detection → Prop)
    (R : List Alert → List Detection → List Alert → Prop) : Prop where
  nil : ∀ rows, R rows [] rows
  append : ∀ {rows rows' rows'' ds ds'}, R rows ds rows' → R rows' ds' rows'' →
    R rows (ds ++ ds') rows''
  insert : ∀ {rows d} now, Q d → (Alert.ofDetection now d).Fits →
    R rows [d] (rows ++ [Alert.ofDetection now d])
  fold : ∀ {rows id a d} now, rows[id]? = some a → a.key = d.key → Q d → (a.fold now d).Fits →
    R rows [d] (rows.set id (a.fold now d))

namespace Alerts.Writes

variable {Q : Detection → Prop} {R : List Alert → List Detection → List Alert → Prop}
  {db db' : Database}

theorem applyDetection (h : Alerts.Writes Q R) {pref : ℕ} {clock : Time} {d : Detection}
    (hd : Q d) (happly : Database.applyDetection pref clock d db = some db') :
    R db.alerts.rows [d] db'.alerts.rows ∧ db'.events = db.events := by
  unfold Database.applyDetection at happly
  dsimp only at happly
  split_ifs at happly with hfits
  obtain ⟨alerts, hw, rfl⟩ := Option.map_eq_some_iff.mp happly
  refine ⟨?_, rfl⟩
  change R db.alerts.rows [d] alerts.rows
  rw [AlertCorrelator.plan] at hw hfits
  cases hopen : db.alerts.getOpenByKey pref d.key with
  | none =>
    rw [hopen] at hw hfits
    rw [Alerts.rows_insert? hw]
    exact h.insert _ hd hfits
  | some r =>
    obtain ⟨id, existing⟩ := r
    rw [hopen] at hw hfits
    obtain ⟨hget, hkey⟩ := Alerts.getOpenByKey_eq_some hopen
    simp only [Alerts.write?, hget, Option.bind_some, Alert.patch_self] at hw
    rw [Alerts.rows_update? hw]
    exact h.fold _ hget hkey.1 hd hfits

theorem detections (h : Alerts.Writes Q R) {failAt : Option ℕ} (pref : ℕ → ℕ) {clock : Time}
    {ds : List Detection} (hds : ∀ d ∈ ds, Q d)
    (hscope : Database.sessionScope failAt db
      (ds.mapIdx fun i d => Database.applyDetection (pref i) clock d) = some db') :
    R db.alerts.rows ds db'.alerts.rows ∧ db'.events = db.events := by
  induction ds generalizing failAt pref db with
  | nil =>
    rw [Database.sessionScope_nil hscope]
    exact ⟨h.nil _, rfl⟩
  | cons d ds ih =>
    obtain ⟨hd, hrest⟩ := List.forall_mem_cons.mp hds
    rw [List.mapIdx_cons] at hscope
    obtain ⟨db₁, happly, hscope⟩ := Database.sessionScope_cons hscope
    obtain ⟨hrows, hevents⟩ := h.applyDetection hd happly
    have hnext := @ih db₁ _ (fun i => pref (i + 1)) hrest hscope
    exact ⟨h.append hrows hnext.1, hnext.2.trans hevents⟩

theorem batch (h : Alerts.Writes Q R) {failAt : Option ℕ} {pref : ℕ → ℕ} {clock : Time}
    {events : List SecurityEvent} {ds : List Detection} (hds : ∀ d ∈ ds, Q d)
    (hscope : Database.sessionScope failAt db (Database.batchStatements pref clock events ds) =
      some db') :
    R db.alerts.rows ds db'.alerts.rows ∧
      db'.events = db.events.insertAll (events.map rowFromEvent) ∧
      ∀ ev ∈ events, (rowFromEvent ev).Fits := by
  obtain ⟨db₁, hins, hrest⟩ := Database.sessionScope_cons hscope
  unfold Database.bulkInsert at hins
  dsimp only at hins
  split_ifs at hins with hfits
  cases hins
  obtain ⟨hrows, hevents⟩ := h.detections pref hds hrest
  exact ⟨hrows, hevents, fun ev hev => hfits _ (List.mem_map_of_mem hev)⟩

theorem persistStandalone (h : Alerts.Writes Q R) (db : Database) (failAt : Option (ℕ × Bool))
    (pref : ℕ → ℕ) (clock : Time) {ds : List Detection} (hds : ∀ d ∈ ds, Q d) :
    R db.alerts.rows (Pipeline.committedStandalone failAt pref clock db ds)
      (Pipeline.persistStandalone failAt pref clock db ds).1.alerts.rows := by
  induction ds generalizing failAt pref db with
  | nil => exact h.nil _
  | cons d ds ih =>
    obtain ⟨hd, hrest⟩ := List.forall_mem_cons.mp hds
    rw [Pipeline.persistStandalone, Pipeline.committedStandalone]
    cases hdb : Database.sessionScope (if failAt = some (0, false) then some 0 else none) db
      [Database.applyDetection (pref 0) clock d] with
    | none => exact h.nil _
    | some db' =>
      have hrows : R db.alerts.rows [d] db'.alerts.rows := (h.detections (fun _ => pref 0)
        (List.forall_mem_singleton.mpr hd) hdb).1
      dsimp only
      split_ifs
      · exact hrows
      · exact h.append hrows
          (@ih db' (failAt.map fun f => (f.1 - 1, f.2)) (fun i => pref (i + 1)) hrest)

theorem processBatch (h : Alerts.Writes Q R) (cfg : Config) (s : Pipeline) (c : Call)
    (hcomputed : ∀ d ∈ Pipeline.computed cfg s c, Q d) :
    R s.db.alerts.rows (Pipeline.committed cfg s c)
      (Pipeline.processBatch cfg s c).1.db.alerts.rows := by
  unfold Pipeline.computed at hcomputed
  unfold Pipeline.committed
  cases hcommit : Pipeline.commit? cfg s c with
  | none =>
    rw [Pipeline.processBatch_of_not_commit hcommit]
    exact h.nil _
  | some db =>
    rw [hcommit, if_neg (Option.some_ne_none db)] at hcomputed
    rw [Pipeline.processBatch_of_commit hcommit]
    have hrows := (h.batch (fun d hd => hcomputed d (List.mem_append_left _ hd))
      (Pipeline.commit?_eq_some.mp hcommit).2).1
    dsimp only
    by_cases hpublish : c.fault = some .publish
    · rw [if_pos hpublish, if_pos hpublish, List.append_nil]
      exact hrows
    · rw [if_neg hpublish] at hcomputed
      rw [if_neg hpublish, if_neg hpublish]
      refine h.append hrows ?_
      unfold Pipeline.rolledOver at hcomputed ⊢
      unfold Pipeline.updateMetrics
      dsimp only [Pipeline.detected]
      by_cases hminute : Pipeline.minute c.now = s.bucket
      · rw [if_pos hminute, if_pos hminute]
        exact h.nil _
      · rw [if_neg hminute] at hcomputed
        rw [if_neg hminute, if_neg hminute]
        have hafter := h.persistStandalone db (c.fault.bind Fault.alert?) c.rolloverPref c.clock
          fun d hd => hcomputed d (List.mem_append_right _ hd)
        split_ifs
        · exact hafter
        · exact hafter

end Alerts.Writes

end SiemEngine

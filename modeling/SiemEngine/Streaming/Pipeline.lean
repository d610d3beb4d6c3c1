import Mathlib.Data.Finset.Basic
import SiemEngine.Detection.Anomaly
import SiemEngine.Storage.Session

/-!
# Stream-processing pipeline

`processBatch` validates a batch, drops the events whose id is in the seen-set, marks the
others as seen, evaluates them, persists them with their alerts in one transaction and
feeds the per-minute metrics. The seen-set, the windows and the baselines live in Redis
and are written before, or beside, the transaction. What the environment decides in one
call, failures included, are its `Circumstances` and what it reads with each message.
-/

namespace SiemEngine

/-- What is configured, and the library behind `IsolationForestDetector.observe`: the score
and the reason for the newest of the feature vectors seen, when it is an outlier. -/
structure Config where
  py : Python
  engine : DetectionEngine := {}
  anomaly : StatisticalAnomalyDetector := {}
  forest : List (List (String × ℚ)) → Option (ℚ × String) := fun _ => none

structure Arrival where
  raw : JsonDict
  readings : Readings
  ticks : Rule → Tick

/-- Where a call raises: at one of the two seen-set pipelines, the second before or after
it was applied, at a statement of the transaction, when publishing, or at an alert of the
minute rollover, before or after its session committed. The five-second window and the
baselines of a rollover do not fail here; `RollingMetrics` and `Flush` have their failures. -/
inductive Fault
  | check
  | mark (applied : Bool)
  | txn (statement : ℕ)
  | publish
  | rollover (alert : ℕ) (committed : Bool)
  deriving DecidableEq

structure Circumstances where
  fault : Option Fault
  pref : ℕ → ℕ
  clock : Time
  now : Time
  rolloverPref : ℕ → ℕ
  raisedAt : ℕ → Time

structure Call extends Circumstances where
  arrivals : List Arrival

def Fault.statement? : Fault → Option ℕ
  | .txn k => some k
  | _ => none

def Fault.alert? : Fault → Option (ℕ × Bool)
  | .rollover k committed => some (k, committed)
  | _ => none

structure MinuteCounter where
  events : ℕ := 0
  authFailures : ℕ := 0
  dbErrors : ℕ := 0
  firewallDenies : ℕ := 0
  bytesOut : ℕ := 0
  ips : List String := []

namespace MinuteCounter

def count (c : MinuteCounter) (ev : SecurityEvent) : MinuteCounter where
  events := c.events + 1
  authFailures := c.authFailures + if ev.eventType = .authFailure then 1 else 0
  dbErrors := c.dbErrors + if ev.eventType = .dbError then 1 else 0
  firewallDenies := c.firewallDenies + if ev.eventType = .firewallDeny then 1 else 0
  bytesOut := c.bytesOut + ev.bytesOut.val
  ips := (ev.sourceText.toList ++ c.ips).dedup

def features (c : MinuteCounter) : List (String × ℚ) :=
  [("events_per_min", Binary64.nearest c.events),
    ("auth_failures_per_min", Binary64.nearest c.authFailures),
    ("unique_source_ips", Binary64.nearest c.ips.length),
    ("outbound_mib_per_min", Binary64.roundTo 3 (Binary64.div c.bytesOut (1024 * 1024))),
    ("db_errors_per_min", Binary64.nearest c.dbErrors),
    ("firewall_denies_per_min", Binary64.nearest c.firewallDenies)]

end MinuteCounter

structure Pipeline where
  seen : Finset UUID
  windows : Windows
  db : Database
  bucket : Time
  counter : MinuteCounter := {}
  baselines : Baselines := []
  history : List (List (String × ℚ)) := []

namespace Pipeline

def minute (t : Time) : Time := t - t % (60 * Datetime.microsPerSecond)

def init (now : Time) : Pipeline where
  seen := ∅
  windows := []
  db := Database.empty
  bucket := minute now

def validate (py : Python) (arrivals : List Arrival) : List (Arrival × SecurityEvent) :=
  arrivals.filterMap fun a => match SecurityEvent.fromRaw py a.readings a.raw with
    | .ok ev => some (a, ev)
    | .error _ => none

def fresh (seen : Finset UUID) (valid : List (Arrival × SecurityEvent)) :
    List (Arrival × SecurityEvent) :=
  valid.filter fun av => av.2.eventId ∉ seen

def ids (events : List (Arrival × SecurityEvent)) : List UUID := events.map fun av => av.2.eventId

def detect (cfg : Config) (ws : Windows) (events : List (Arrival × SecurityEvent)) :
    Windows × List Detection :=
  events.foldl (fun acc av =>
    let out := cfg.engine.evaluate cfg.py av.1.ticks av.2 acc.1
    (out.1, acc.2 ++ out.2)) (ws, [])

def anomalyDetection (res : AnomalyResult) (minute raisedAt : Time) : Detection where
  ruleId := "ANOM-001"
  kind := .anomaly
  title := "Statistical anomaly: " ++ res.metric
  description := res.anomalyReason
  severity := if res.anomalyScore < Binary64.nearest (17 / 20) then .medium else .high
  confidence := Binary64.roundTo 2 (min (Binary64.nearest (19 / 20)) res.anomalyScore)
  correlationKey := "anomaly:" ++ res.metric ++ ":" ++ Datetime.isoformat minute
  sourceIp := none
  affectedHost := none
  recommendedAction := "Review what changed in the environment during this minute. " ++
    "Correlate with rule-based alerts and simulator activity."
  anomalyScore := some res.anomalyScore
  metadata := [("metric", .str res.metric), ("value", .float res.value),
    ("baseline_mean", .float res.baselineMean), ("baseline_std", .float res.baselineStd),
    ("z_score", .float res.zScore)]
  triggeredAt := some raisedAt

def mlDetection (score : ℚ) (reason : String) (minute raisedAt : Time)
    (features : List (String × ℚ)) : Detection where
  ruleId := "ML-001"
  kind := .ml
  title := "Isolation Forest flagged an anomalous minute"
  description := reason
  severity := .medium
  confidence := Binary64.roundTo 2 (min (Binary64.nearest (9 / 10)) score)
  correlationKey := "ml:" ++ Datetime.isoformat minute
  sourceIp := none
  affectedHost := none
  recommendedAction := "Demo/research model. Treat as a hint to inspect this minute's " ++
    "traffic mix; confirm with deterministic rules before acting."
  anomalyScore := some score
  metadata := [("features", .obj (features.map fun f => (f.1, .float f.2))),
    ("model", .str "IsolationForest")]
  triggeredAt := some raisedAt

/-- What a minute counts is far below the values on which an observation raises. -/
def observeAll (cfg : Config) (clock : Time) (bs : Baselines) (features : List (String × ℚ)) :
    Baselines × List AnomalyResult :=
  features.foldl (fun acc f =>
    let out := cfg.anomaly.observe cfg.py clock acc.1 f.1 f.2
    (out.1, acc.2 ++ out.2.toList)) (bs, [])

def rolloverDetections (cfg : Config) (s : Pipeline) (c : Call) : List Detection :=
  let features := s.counter.features
  let anomalies := (observeAll cfg c.now s.baselines features).2
  anomalies.mapIdx (fun i res => anomalyDetection res s.bucket (c.raisedAt i)) ++
    (cfg.forest (s.history ++ [features])).toList.map fun out =>
      mlDetection out.1 out.2 s.bucket (c.raisedAt anomalies.length) features

/-- `_persist_standalone_alert` for each detection, in a session of its own; whether one of
them raised. -/
def persistStandalone (failAt : Option (ℕ × Bool)) (pref : ℕ → ℕ) (clock : Time)
    (db : Database) : List Detection → Database × Bool
  | [] => (db, false)
  | d :: ds =>
    let sessionFault := if failAt = some (0, false) then some 0 else none
    match Database.sessionScope sessionFault db [Database.applyDetection (pref 0) clock d] with
    | none => (db, true)
    | some db' =>
      if failAt = some (0, true) then (db', true)
      else persistStandalone (failAt.map fun f => (f.1 - 1, f.2)) (fun i => pref (i + 1)) clock
        db' ds

def flushMinute (cfg : Config) (s : Pipeline) (c : Call) : Pipeline × Bool :=
  let features := s.counter.features
  let persisted := persistStandalone (c.fault.bind Fault.alert?) c.rolloverPref c.clock s.db
    (rolloverDetections cfg s c)
  ({ s with
      db := persisted.1
      baselines := (observeAll cfg c.now s.baselines features).1
      history := s.history ++ [features] }, persisted.2)

def updateMetrics (cfg : Config) (s : Pipeline) (c : Call) (events : List SecurityEvent) :
    Pipeline × Bool :=
  let counted := { s with counter := events.foldl MinuteCounter.count s.counter }
  if minute c.now = counted.bucket then (counted, false)
  else
    let out := flushMinute cfg counted c
    if out.2 then out
    else ({ out.1 with bucket := minute c.now, counter := {} }, false)

def detected (cfg : Config) (s : Pipeline) (events : List (Arrival × SecurityEvent)) : Pipeline :=
  { s with
    seen := s.seen ∪ (ids events).toFinset
    windows := (detect cfg s.windows events).1 }

/-- The transaction of a batch, `none` when it fails. -/
def persist (cfg : Config) (s : Pipeline) (c : Call) (events : List (Arrival × SecurityEvent)) :
    Option Database :=
  Database.sessionScope (c.fault.bind Fault.statement?) s.db
    (Database.batchStatements c.pref c.clock (events.map Prod.snd)
      (detect cfg s.windows events).2)

/-- `process_batch` from the detection on; whether it raised. -/
def processFresh (cfg : Config) (s : Pipeline) (c : Call)
    (events : List (Arrival × SecurityEvent)) : Pipeline × Bool :=
  match persist cfg s c events with
  | none => (detected cfg s events, true)
  | some db =>
    let stored := { detected cfg s events with db }
    if c.fault = some .publish then (stored, true)
    else updateMetrics cfg stored c (events.map Prod.snd)

/-- `process_batch`; whether it raised. -/
def processBatch (cfg : Config) (s : Pipeline) (c : Call) : Pipeline × Bool :=
  let valid := validate cfg.py c.arrivals
  if valid.isEmpty then (s, false)
  else if c.fault = some .check then (s, true)
  else
    let events := fresh s.seen valid
    if events.isEmpty then (s, false)
    else if c.fault = some (.mark false) then (s, true)
    else if c.fault = some (.mark true) then
      ({ s with seen := s.seen ∪ (ids events).toFinset }, true)
    else processFresh cfg s c events

def atZero (fault : Option Fault) : Circumstances where
  fault := fault
  pref := id
  clock := 0
  now := 0
  rolloverPref := id
  raisedAt := fun _ => 0

def callAtZero (raws : List JsonDict) (fault : Option Fault) : Call where
  toCircumstances := atZero fault
  arrivals := raws.map fun raw => ⟨raw, someReadings, fun _ => ⟨0, "", 0⟩⟩

def requestOf (eventId : String) : JsonDict :=
  [("event_id", .str eventId), ("event_type", .str "http_request")]

def escalationRaw : JsonDict :=
  [("event_type", .str "privilege_escalation"), ("source", .str "db-1"), ("username", .str "root")]

def freshOf (cfg : Config) (s : Pipeline) (c : Call) : List (Arrival × SecurityEvent) :=
  fresh s.seen (validate cfg.py c.arrivals)

section

variable {cfg : Config} {s : Pipeline} {c : Call}

theorem mem_ids_validate {py : Python} {arrivals : List Arrival} {id : UUID} :
    id ∈ ids (validate py arrivals) ↔ ∃ a ∈ arrivals, ∃ ev,
      SecurityEvent.fromRaw py a.readings a.raw = .ok ev ∧ ev.eventId = id := by
  simp only [ids, validate, List.mem_map, List.mem_filterMap]
  constructor
  · intro h
    obtain ⟨av, ⟨a, ha, hav⟩, rfl⟩ := h
    split at hav
    · rename_i ev hev
      cases hav
      exact ⟨a, ha, ev, hev, rfl⟩
    · cases hav
  · intro h
    obtain ⟨a, ha, ev, hev, rfl⟩ := h
    exact ⟨(a, ev), ⟨a, ha, by rw [hev]⟩, rfl⟩

theorem mem_ids_freshOf {id : UUID} :
    id ∈ ids (freshOf cfg s c) ↔ id ∈ ids (validate cfg.py c.arrivals) ∧ id ∉ s.seen := by
  simp only [freshOf, fresh, ids, List.mem_map, List.mem_filter, decide_eq_true_eq]
  constructor
  · intro h
    obtain ⟨av, ⟨hav, hseen⟩, rfl⟩ := h
    exact ⟨⟨av, hav, rfl⟩, hseen⟩
  · intro h
    obtain ⟨⟨av, hav, rfl⟩, hseen⟩ := h
    exact ⟨av, ⟨hav, hseen⟩, rfl⟩

theorem persistStandalone_events (failAt : Option (ℕ × Bool)) (pref : ℕ → ℕ) (clock : Time)
    (db : Database) (ds : List Detection) :
    (persistStandalone failAt pref clock db ds).1.events = db.events := by
  induction ds generalizing failAt pref db with
  | nil => rfl
  | cons d ds ih =>
    simp only [persistStandalone]
    split
    · rfl
    · rename_i db' hdb
      obtain ⟨db₁, hd, hrest⟩ := Database.sessionScope_cons hdb
      have hev : db'.events = db.events := by
        rw [Database.sessionScope_nil hrest, (Database.applyDetection_eq_some hd).1]
      split
      · exact hev
      · rw [ih, hev]

theorem totalEvents_persistStandalone {failAt : Option (ℕ × Bool)} {pref : ℕ → ℕ} {clock : Time}
    {db : Database} {ds : List Detection}
    (h : (persistStandalone failAt pref clock db ds).2 = false) :
    db.alerts.totalEvents + ds.length ≤
      (persistStandalone failAt pref clock db ds).1.alerts.totalEvents := by
  induction ds generalizing failAt pref db with
  | nil => simp [persistStandalone]
  | cons d ds ih =>
    simp only [persistStandalone] at h ⊢
    split at h
    · cases h
    · rename_i db' hdb
      obtain ⟨db₁, hd, hrest⟩ := Database.sessionScope_cons hdb
      have hlt := (Database.applyDetection_eq_some hd).2
      rw [← Database.sessionScope_nil hrest] at hlt
      split_ifs at h ⊢ with hfail
      have hle := ih h
      rw [List.length_cons]
      push_cast
      omega

theorem updateMetrics_seen (events : List SecurityEvent) :
    (updateMetrics cfg s c events).1.seen = s.seen := by
  unfold updateMetrics flushMinute
  dsimp only
  split_ifs <;> rfl

theorem updateMetrics_events (events : List SecurityEvent) :
    (updateMetrics cfg s c events).1.db.events = s.db.events := by
  unfold updateMetrics flushMinute
  dsimp only
  split_ifs <;> first | rfl | exact persistStandalone_events ..

theorem processFresh_seen (events : List (Arrival × SecurityEvent)) :
    (processFresh cfg s c events).1.seen = s.seen ∪ (ids events).toFinset := by
  unfold processFresh
  split
  · rfl
  · dsimp only
    split
    · rfl
    · exact updateMetrics_seen _

theorem processFresh_events (events : List (Arrival × SecurityEvent)) :
    (processFresh cfg s c events).1.db.events =
        s.db.events.insertAll (events.map fun av => rowFromEvent av.2) ∨
      (processFresh cfg s c events).2 = true ∧
        (processFresh cfg s c events).1.db.events = s.db.events := by
  unfold processFresh
  split
  · exact Or.inr ⟨rfl, rfl⟩
  · rename_i db hdb
    have hev := (Database.sessionScope_batch hdb).1
    rw [List.map_map] at hev
    left
    dsimp only
    split
    · exact hev
    · rw [updateMetrics_events]
      exact hev

theorem processBatch_seen (cfg : Config) (s : Pipeline) (c : Call) :
    (processBatch cfg s c).1.seen ⊆ s.seen ∪ (ids (freshOf cfg s c)).toFinset := by
  have hleft : s.seen ⊆ s.seen ∪ (ids (freshOf cfg s c)).toFinset := Finset.subset_union_left
  unfold processBatch
  dsimp only
  split_ifs
  · exact hleft
  · exact hleft
  · exact hleft
  · exact hleft
  · exact subset_rfl
  · exact (processFresh_seen _).subset

theorem processBatch_events (cfg : Config) (s : Pipeline) (c : Call) :
    (processBatch cfg s c).1.db.events =
        s.db.events.insertAll ((freshOf cfg s c).map fun av => rowFromEvent av.2) ∨
      (processBatch cfg s c).2 = true ∧ (processBatch cfg s c).1.db.events = s.db.events := by
  unfold processBatch
  dsimp only
  split_ifs with hvalid _ hfresh
  · left
    rw [freshOf, List.isEmpty_iff.mp hvalid]
    rfl
  · exact Or.inr ⟨rfl, rfl⟩
  · left
    rw [freshOf, List.isEmpty_iff.mp hfresh]
    rfl
  · exact Or.inr ⟨rfl, rfl⟩
  · exact Or.inr ⟨rfl, rfl⟩
  · exact processFresh_events _

theorem mem_ids_processBatch_of_mem {id : UUID} (h : id ∈ s.db.events.ids) :
    id ∈ (processBatch cfg s c).1.db.events.ids := by
  rcases processBatch_events cfg s c with hev | ⟨-, hev⟩
  · rw [hev, SecurityEvents.mem_ids_insertAll]
    exact Or.inl h
  · rwa [hev]

theorem mem_ids_processBatch {id : UUID} (h : (processBatch cfg s c).2 = false) :
    id ∈ (processBatch cfg s c).1.db.events.ids ↔
      id ∈ s.db.events.ids ∨ id ∈ ids (freshOf cfg s c) := by
  rcases processBatch_events cfg s c with hev | ⟨hraised, -⟩
  · rw [hev, SecurityEvents.mem_ids_insertAll, List.map_map]
    rfl
  · rw [h] at hraised
    cases hraised

end

end Pipeline

end SiemEngine

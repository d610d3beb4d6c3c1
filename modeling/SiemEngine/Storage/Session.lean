import SiemEngine.Detection.Storable

/-!
# Database sessions

A session runs its statements on a working copy and commits it at the end. A statement
fails by itself, on a value its column does not accept, or because the database does:
`failAt` is the statement at which it does so, the commit being the last one. Nothing is
kept of a session that fails.
-/

namespace SiemEngine

structure Database where
  events : SecurityEvents
  alerts : Alerts

namespace Database

def empty : Database := ⟨SecurityEvents.empty, Alerts.empty⟩

abbrev Statement := Database → Option Database

def sessionScope (failAt : Option ℕ) (db : Database) : List Statement → Option Database
  | [] => if failAt = some 0 then none else some db
  | s :: rest =>
    if failAt = some 0 then none
    else (s db).bind fun db' => sessionScope (failAt.map Nat.pred) db' rest

def bulkInsert (events : List SecurityEvent) : Statement := fun db =>
  let rows := events.map rowFromEvent
  if ∀ row ∈ rows, row.Fits then some { db with events := db.events.insertAll rows } else none

/-- `AlertCorrelator.apply` with its flush and the validation of the row it returns. -/
def applyDetection (pref : ℕ) (clock : Time) (d : Detection) : Statement := fun db =>
  let write := AlertCorrelator.plan db.alerts pref clock d
  if write.row.Fits then
    (db.alerts.write? write).map fun alerts => { db with alerts }
  else none

def batchStatements (pref : ℕ → ℕ) (clock : Time) (events : List SecurityEvent)
    (detections : List Detection) : List Statement :=
  bulkInsert events :: detections.mapIdx fun i d => applyDetection (pref i) clock d

end Database

def Alerts.totalEvents (t : Alerts) : ℤ := (t.rows.map Alert.eventCount).sum

theorem Alerts.totalEvents_insert? {t u : Alerts} {a : Alert} (h : t.insert? a = some u) :
    u.totalEvents = t.totalEvents + a.eventCount := by
  simp [totalEvents, rows_insert? h]

theorem Alerts.totalEvents_update? {t u : Alerts} {id : ℕ} {a b : Alert}
    (hb : t.get? id = some b) (h : t.update? id a = some u) :
    u.totalEvents = t.totalEvents + (a.eventCount - b.eventCount) := by
  obtain ⟨hid, hget⟩ := List.getElem?_eq_some_iff.mp hb
  have hset := List.sum_set' (t.rows.map Alert.eventCount) id a.eventCount
  simp only [List.length_map, hid, ↓reduceDIte, List.getElem_map, hget] at hset
  rw [totalEvents, rows_update? h, List.map_set, hset, totalEvents]
  ring

theorem AlertCorrelator.totalEvents_lt_apply {t u : Alerts} {pref : ℕ} {clock : Time}
    {d : Detection} (h : apply t pref clock d = some u) : t.totalEvents < u.totalEvents := by
  obtain ⟨v, hv, ⟨-, hins⟩ | ⟨id, a, ha, -, -, hupd⟩⟩ := apply_cases t pref clock d
  · cases hv.symm.trans h
    have hone : 1 ≤ (Alert.ofDetection (d.triggeredAt.getD clock) d).eventCount := le_max_left _ _
    rw [Alerts.totalEvents_insert? hins]
    omega
  · cases hv.symm.trans h
    have hlt := a.eventCount_lt_fold (d.triggeredAt.getD clock) d
    rw [Alerts.totalEvents_update? ha hupd]
    omega

namespace Database

variable {failAt : Option ℕ} {pref : ℕ → ℕ} {clock : Time} {db db' : Database}

theorem applyDetection_eq_some {pref : ℕ} {d : Detection}
    (h : applyDetection pref clock d db = some db') :
    db'.events = db.events ∧ db.alerts.totalEvents < db'.alerts.totalEvents := by
  unfold applyDetection at h
  dsimp only at h
  split_ifs at h
  obtain ⟨alerts, hw, rfl⟩ := Option.map_eq_some_iff.mp h
  exact ⟨rfl, AlertCorrelator.totalEvents_lt_apply hw⟩

theorem sessionScope_cons {s : Statement} {rest : List Statement}
    (h : sessionScope failAt db (s :: rest) = some db') :
    ∃ db₁, s db = some db₁ ∧ sessionScope (failAt.map Nat.pred) db₁ rest = some db' := by
  simp only [sessionScope] at h
  split_ifs at h
  exact Option.bind_eq_some_iff.mp h

theorem sessionScope_nil (h : sessionScope failAt db [] = some db') : db' = db := by
  simp only [sessionScope] at h
  split_ifs at h
  exact (Option.some.inj h).symm

theorem sessionScope_detections {ds : List Detection}
    (h : sessionScope failAt db (ds.mapIdx fun i d => applyDetection (pref i) clock d) =
      some db') :
    db'.events = db.events ∧ db.alerts.totalEvents + ds.length ≤ db'.alerts.totalEvents := by
  induction ds generalizing failAt pref db with
  | nil =>
    rw [sessionScope_nil h]
    simp
  | cons d ds ih =>
    rw [List.mapIdx_cons] at h
    obtain ⟨db₁, hd, hrest⟩ := sessionScope_cons h
    obtain ⟨hev₁, hlt⟩ := applyDetection_eq_some hd
    obtain ⟨hev, hle⟩ := @ih _ (fun i => pref (i + 1)) _ hrest
    refine ⟨hev.trans hev₁, ?_⟩
    rw [List.length_cons]
    push_cast
    omega

theorem sessionScope_batch {events : List SecurityEvent} {ds : List Detection}
    (h : sessionScope failAt db (batchStatements pref clock events ds) = some db') :
    db'.events = db.events.insertAll (events.map rowFromEvent) ∧
      db.alerts.totalEvents + ds.length ≤ db'.alerts.totalEvents ∧
      (ds = [] → db'.alerts = db.alerts) := by
  obtain ⟨db₁, hins, hrest⟩ := sessionScope_cons h
  unfold bulkInsert at hins
  dsimp only at hins
  split_ifs at hins
  cases hins
  obtain ⟨hev, hle⟩ := sessionScope_detections hrest
  refine ⟨hev, hle, ?_⟩
  intro h
  obtain rfl := h
  rw [sessionScope_nil hrest]

end Database

end SiemEngine

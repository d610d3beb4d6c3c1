import SiemEngine.Detection.Correlation
import SiemEngine.Python.Datetime

/-!
# Alert triage: state transitions with an audit trail

`update_alert_status` reads the alert, validates the move against the transition table,
and writes the new status, the history entry and the audit row in one commit. `plan` is
what a request decides from its read; `updateAlertStatus` is a request that runs alone.
-/

namespace SiemEngine

def allowedTransitions : AlertStatus → List AlertStatus
  | .open => [.acknowledged, .investigating, .resolved, .falsePositive]
  | .acknowledged => [.investigating, .resolved, .falsePositive, .open]
  | .investigating => [.acknowledged, .resolved, .falsePositive, .open]
  | .resolved => [.open]
  | .falsePositive => [.open]

structure StatusRequest where
  alertId : ℕ
  newStatus : AlertStatus
  actor : String := "analyst"
  note : Option String := none
  requestId : Option String := none

structure AuditLog where
  actor : String
  action : String
  targetType : String
  targetId : ℕ
  requestId : Option String
  detailFrom : AlertStatus
  detailTo : AlertStatus
  note : Option String
  deriving DecidableEq

structure AlertDb where
  alerts : Alerts
  auditLogs : List AuditLog

inductive TriageError
  | invalidTransition (message : String)
  | typeError
  | integrityError
  deriving DecidableEq

inductive Triage
  | notFound
  | unchanged (alert : Alert)
  | raised (error : TriageError)
  | change (id : ℕ) (loaded changed : Alert) (log : AuditLog)

namespace Alert

/-- `list(meta.get("status_history", []))`, `none` where `list` raises `TypeError`. -/
def statusHistory (a : Alert) : Option (List Json) :=
  match Dict.get? a.alertMetadata "status_history" with
  | none => some []
  | some value => value.toList?

def historyEntry (current new : AlertStatus) (now : Time) (actor : String) : Json :=
  .obj [("from", .str current.value), ("to", .str new.value),
    ("at", .str (Datetime.isoformat now)), ("by", .str actor)]

def moved (a : Alert) (history : List Json) (new : AlertStatus) (now : Time)
    (actor : String) : Alert :=
  { a with
    status := new
    alertMetadata := Dict.set a.alertMetadata "status_history"
      (.arr ((history ++ [historyEntry a.status new now actor]).rtake 25)) }

@[simp] theorem moved_status (a : Alert) (history : List Json) (new : AlertStatus) (now : Time)
    (actor : String) : (a.moved history new now actor).status = new := rfl

@[simp] theorem moved_key (a : Alert) (history : List Json) (new : AlertStatus) (now : Time)
    (actor : String) : (a.moved history new now actor).key = a.key := rfl

@[simp] theorem moved_slot (a : Alert) (history : List Json) (new : AlertStatus) (now : Time)
    (actor : String) : (a.moved history new now actor).slot = (a.key, new) := rfl

end Alert

namespace StatusRequest

def auditLog (r : StatusRequest) (current : AlertStatus) : AuditLog where
  actor := r.actor
  action := "alert_status_change"
  targetType := "alert"
  targetId := r.alertId
  requestId := r.requestId
  detailFrom := current
  detailTo := r.newStatus
  note := r.note

def plan (t : Alerts) (now : Time) (r : StatusRequest) : Triage :=
  match t.get? r.alertId with
  | none => .notFound
  | some alert =>
    if alert.status = r.newStatus then .unchanged alert
    else if r.newStatus ∉ allowedTransitions alert.status then
      .raised (.invalidTransition
        ("cannot move alert from " ++ alert.status.value ++ " to " ++ r.newStatus.value))
    else match alert.statusHistory with
      | none => .raised .typeError
      | some history =>
        .change r.alertId alert (alert.moved history r.newStatus now r.actor)
          (r.auditLog alert.status)

/-- What a planned change says: the alert was found, the move is allowed, the history
could be read, and the new row is the alert moved. -/
theorem plan_eq_change {t : Alerts} {now : Time} {r : StatusRequest} {id : ℕ}
    {loaded changed : Alert} {log : AuditLog} (h : r.plan t now = .change id loaded changed log) :
    id = r.alertId ∧ t.get? id = some loaded ∧ r.newStatus ∈ allowedTransitions loaded.status ∧
      loaded.status ≠ r.newStatus ∧ log = r.auditLog loaded.status ∧
      ∃ history, loaded.statusHistory = some history ∧
        changed = loaded.moved history r.newStatus now r.actor := by
  unfold plan at h
  split at h
  · cases h
  · rename_i alert halert
    split_ifs at h with hsame hallowed
    split at h
    · cases h
    · rename_i history hhistory
      cases h
      exact ⟨rfl, halert, hallowed, hsame, rfl, history, hhistory, rfl⟩

theorem plan_of_allowed {t : Alerts} {now : Time} {r : StatusRequest} {a : Alert}
    (ha : t.get? r.alertId = some a) (hs : r.newStatus ∈ allowedTransitions a.status)
    (hne : a.status ≠ r.newStatus) {history : List Json}
    (hh : a.statusHistory = some history) :
    r.plan t now = .change r.alertId a (a.moved history r.newStatus now r.actor)
      (r.auditLog a.status) := by
  simp only [plan, ha, if_neg hne, hs, not_true_eq_false, ↓reduceIte, hh]

end StatusRequest

namespace AlertDb

def empty : AlertDb := ⟨Alerts.empty, []⟩

def commitTriage (db : AlertDb) : Triage → Except TriageError AlertDb
  | .notFound | .unchanged _ => .ok db
  | .raised e => .error e
  | .change id loaded changed log =>
    match db.alerts.write? (.update id loaded changed) with
    | none => .error .integrityError
    | some alerts => .ok ⟨alerts, db.auditLogs ++ [log]⟩

def updateAlertStatus (db : AlertDb) (now : Time) (r : StatusRequest) :
    Except TriageError AlertDb :=
  db.commitTriage (r.plan db.alerts now)

theorem updateAlertStatus_of_change {db : AlertDb} {now : Time} {r : StatusRequest} {id : ℕ}
    {loaded changed : Alert} {log : AuditLog}
    (h : r.plan db.alerts now = .change id loaded changed log) :
    db.updateAlertStatus now r = match db.alerts.update? id changed with
      | none => .error .integrityError
      | some alerts => .ok ⟨alerts, db.auditLogs ++ [log]⟩ := by
  obtain ⟨rfl, hget, -⟩ := StatusRequest.plan_eq_change h
  simp only [updateAlertStatus, h, commitTriage, Alerts.write?, hget, Option.bind_some,
    Alert.patch_self]

end AlertDb

end SiemEngine

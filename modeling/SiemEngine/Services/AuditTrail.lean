import SiemEngine.Lib.Trail
import SiemEngine.Services.Workflow
import SiemEngine.Streaming.Pipeline

/-!
# The audit trail over whole histories

Every committed move of an alert leaves two records: a row of `audit_logs`, and an entry
of the list under `status_history`, truncated to the last 25, in a JSON column that the
correlator merges the metadata of each detection into. No detector writes that key, so
the two records agree.
-/

namespace SiemEngine

/-- What a rule detector returns, also stamped by the engine, and the minute alerts. -/
inductive Detection.Built : Detection → Prop
  | rule {py : Python} {p : Params} {tick : Tick} {ev : SecurityEvent} {ws ws' : Windows}
      {rule : Rule} {d : Detection} (h : rule.evaluate py p tick ev ws = (ws', .ok (some d))) :
      Built d
  | stamped {d : Detection} (h : Built d) (t : Time) : Built { d with triggeredAt := some t }
  | anomaly (res : AnomalyResult) (minute raisedAt : Time) :
      Built (Pipeline.anomalyDetection res minute raisedAt)
  | ml (score : ℚ) (reason : String) (minute raisedAt : Time) (features : List (String × ℚ)) :
      Built (Pipeline.mlDetection score reason minute raisedAt features)

theorem Rule.status_history_notMem {py : Python} {p : Params} {tick : Tick} {ev : SecurityEvent}
    {ws ws' : Windows} {rule : Rule} {d : Detection}
    (h : rule.evaluate py p tick ev ws = (ws', .ok (some d))) :
    "status_history" ∉ d.metadata.map Prod.fst := by
  cases rule with
  | bruteForce =>
    obtain ⟨ip, res, breached, -, -, rfl⟩ := BruteForce.evaluate_some h
    simp [BruteForce.detection]
  | passwordSpray =>
    obtain ⟨ip, res, -, -, rfl⟩ := PasswordSpray.evaluate_some h
    simp [PasswordSpray.detection]
  | portScan =>
    obtain ⟨ip, res, -, -, rfl⟩ := PortScan.evaluate_some h
    simp [PortScan.detection]
  | privilegeEscalation =>
    have hev : PrivilegeEscalation.evaluate py p tick ev ws = (ws', .ok (some d)) := h
    obtain rfl := PrivilegeEscalation.evaluate_some hev
    simp [PrivilegeEscalation.detection]
  | suspiciousSql =>
    have hev : SuspiciousSql.evaluate py p tick ev ws = (ws', .ok (some d)) := h
    obtain ⟨rows, found, rfl⟩ := SuspiciousSql.evaluate_some hev
    simp [SuspiciousSql.detection]
  | dataExfiltration =>
    obtain ⟨ip, total, -, -, rfl⟩ := DataExfiltration.evaluate_some h
    simp [DataExfiltration.detection]
  | authAnomaly =>
    obtain ⟨user, ip, res, -, -, -, rfl⟩ := AuthAnomaly.evaluate_some h
    simp [AuthAnomaly.detection]

theorem Detection.Built.status_history_notMem {d : Detection} (h : d.Built) :
    "status_history" ∉ d.metadata.map Prod.fst := by
  induction h with
  | rule h => exact Rule.status_history_notMem h
  | stamped _ _ ih => exact ih
  | anomaly => simp [Pipeline.anomalyDetection]
  | ml => simp [Pipeline.mlDetection]

namespace AlertDb

def status (db : AlertDb) (id : ℕ) : Option AlertStatus := (db.alerts.get? id).map Alert.status

def moves (db : AlertDb) (id : ℕ) : List (AlertStatus × AlertStatus) :=
  (db.auditLogs.filter fun l => l.targetId = id).map fun l => (l.detailFrom, l.detailTo)

end AlertDb

/-- The request finds no alert, or one that is in the new status or may not move to it. -/
def StatusRequest.Declined (r : StatusRequest) (t : Alerts) : Prop :=
  ∀ a, t.get? r.alertId = some a →
    a.status = r.newStatus ∨ r.newStatus ∉ allowedTransitions a.status

namespace Alert

def fromTo : Json → Json × Json
  | .obj entry => ((Dict.get? entry "from").getD .null, (Dict.get? entry "to").getD .null)
  | _ => (.null, .null)

def shownMove (m : AlertStatus × AlertStatus) : Json × Json := (.str m.1.value, .str m.2.value)

/-- The alert has made these moves since it was created, and remembers the last ones. -/
structure Remembers (a : Alert) (moves : List (AlertStatus × AlertStatus)) : Prop where
  path : Run.Path (fun s s' => s' ∈ allowedTransitions s) .open moves a.status
  history : ∃ entries, Dict.get? a.alertMetadata "status_history" =
      (if moves = [] then none else some (.arr entries)) ∧
    entries.map fromTo = (moves.rtake 25).map shownMove

namespace Remembers

variable {a : Alert} {moves : List (AlertStatus × AlertStatus)}

theorem ofDetection {d : Detection} (hd : d.Built) (now : Time) :
    (Alert.ofDetection now d).Remembers [] where
  path := rfl
  history := ⟨[], Dict.get?_eq_none_of_notMem hd.status_history_notMem, rfl⟩

theorem fold (h : a.Remembers moves) {d : Detection} (hd : d.Built) (now : Time) :
    (a.fold now d).Remembers moves where
  path := h.path
  history := by
    obtain ⟨entries, hget, hpairs⟩ := h.history
    exact ⟨entries, (Dict.get?_update_of_notMem hd.status_history_notMem _).trans hget, hpairs⟩

theorem statusHistory (h : a.Remembers moves) :
    ∃ history, a.statusHistory = some history ∧
      history.map fromTo = (moves.rtake 25).map shownMove := by
  obtain ⟨entries, hget, hpairs⟩ := h.history
  by_cases hmoves : moves = []
  · rw [if_pos hmoves] at hget
    exact ⟨[], by simp only [Alert.statusHistory, hget], by rw [hmoves]; rfl⟩
  · rw [if_neg hmoves] at hget
    exact ⟨entries, by simp only [Alert.statusHistory, hget, Json.toList?], hpairs⟩

theorem moved (h : a.Remembers moves) {history : List Json}
    (hhistory : a.statusHistory = some history) {new : AlertStatus}
    (hnew : new ∈ allowedTransitions a.status) (now : Time) (actor : String) :
    (a.moved history new now actor).Remembers (moves ++ [(a.status, new)]) where
  path := h.path.concat hnew
  history := by
    obtain ⟨history', hhistory', hpairs⟩ := h.statusHistory
    cases hhistory.symm.trans hhistory'
    refine ⟨(history ++ [historyEntry a.status new now actor]).rtake 25, ?_, ?_⟩
    · rw [if_neg (List.append_ne_nil_of_right_ne_nil _ (List.cons_ne_nil _ _))]
      exact Dict.get?_set_self ..
    · have hentry : fromTo (historyEntry a.status new now actor) = shownMove (a.status, new) := rfl
      calc ((history ++ [historyEntry a.status new now actor]).rtake 25).map fromTo
          = ((moves.rtake 25 ++ [(a.status, new)]).map shownMove).rtake 25 := by
            rw [Run.map_rtake, List.map_append, List.map_append, hpairs, List.map_singleton,
              List.map_singleton, hentry]
        _ = ((moves ++ [(a.status, new)]).rtake 25).map shownMove := by
            rw [← Run.map_rtake, Run.rtake_concat_rtake]

end Remembers

end Alert

namespace AuditTrail

open Workflow (Op)

structure Call where
  op : Op
  fails : Bool := false

def Call.Built (c : Call) : Prop := ∀ pref clock d, c.op = .apply pref clock d → d.Built

def step (db : AlertDb) (c : Call) : AlertDb := if c.fails then db else Workflow.step db c.op

def run (calls : List Call) : AlertDb := Run.exec step AlertDb.empty calls

/-- What a call can do: nothing, create or fold an alert, or move one and log the move. -/
theorem step_cases (db : AlertDb) (c : Call) :
    step db c = db ∨
    (∃ pref clock d now alerts, c.op = .apply pref clock d ∧
      db.alerts.insert? (Alert.ofDetection now d) = some alerts ∧
      step db c = ⟨alerts, db.auditLogs⟩) ∨
    (∃ pref clock d now id a alerts, c.op = .apply pref clock d ∧
      db.alerts.get? id = some a ∧ db.alerts.update? id (a.fold now d) = some alerts ∧
      step db c = ⟨alerts, db.auditLogs⟩) ∨
    ∃ (now : Time) (r : StatusRequest) (a : Alert) (history : List Json) (alerts : Alerts),
      db.alerts.get? r.alertId = some a ∧ r.newStatus ∈ allowedTransitions a.status ∧
      a.statusHistory = some history ∧
      db.alerts.update? r.alertId (a.moved history r.newStatus now r.actor) = some alerts ∧
      step db c = ⟨alerts, db.auditLogs ++ [r.auditLog a.status]⟩ := by
  obtain ⟨op, fails⟩ := c
  cases fails with
  | true => exact Or.inl rfl
  | false =>
    change Workflow.step db op = db ∨ _
    cases op with
    | apply pref clock d =>
      obtain ⟨u, hu, hcase⟩ := AlertCorrelator.apply_cases db.alerts pref clock d
      have hstep : step db ⟨.apply pref clock d, false⟩ = ⟨u, db.auditLogs⟩ := by
        change Workflow.step db (.apply pref clock d) = _
        simp only [Workflow.step, hu]
      right
      rcases hcase with ⟨-, hins⟩ | ⟨id, a, ha, -, -, hupd⟩
      · exact Or.inl ⟨pref, clock, d, _, u, rfl, hins, hstep⟩
      · exact Or.inr (Or.inl ⟨pref, clock, d, _, id, a, u, rfl, ha, hupd, hstep⟩)
    | updateStatus now r =>
      rcases Workflow.step_updateStatus_cases db now r with hsame | hmoved
      · exact Or.inl hsame
      · obtain ⟨a, history, alerts, hmoved⟩ := hmoved
        exact Or.inr (Or.inr (Or.inr ⟨now, r, a, history, alerts, hmoved⟩))

theorem moves_move {db : AlertDb} {alerts : Alerts} (r : StatusRequest) (s : AlertStatus) (id : ℕ) :
    (⟨alerts, db.auditLogs ++ [r.auditLog s]⟩ : AlertDb).moves id =
      db.moves id ++ if id = r.alertId then [(s, r.newStatus)] else [] := by
  have htarget : (r.auditLog s).targetId = r.alertId := rfl
  simp only [AlertDb.moves, List.filter_append, List.map_append, List.filter_singleton, htarget,
    eq_comm (a := id)]
  split_ifs with h <;> simp [h, StatusRequest.auditLog]

theorem status_insert {t u : Alerts} {a : Alert} (h : t.insert? a = some u)
    (logs : List AuditLog) (id : ℕ) : AlertDb.status ⟨u, logs⟩ id =
      if id = t.rows.length then some a.status else (t.get? id).map Alert.status := by
  rw [AlertDb.status, Alerts.get?_insert? h]
  split_ifs <;> rfl

theorem status_update {t u : Alerts} {i : ℕ} {a b : Alert} (hb : t.get? i = some b)
    (h : t.update? i a = some u) (logs : List AuditLog) (id : ℕ) : AlertDb.status ⟨u, logs⟩ id =
      if id = i then some a.status else (t.get? id).map Alert.status := by
  rw [AlertDb.status, Alerts.get?_update? hb h]
  split_ifs <;> rfl

theorem moves_step (db : AlertDb) (c : Call) (id : ℕ) :
    (step db c).moves id =
      db.moves id ++ Run.move (db.status id) ((step db c).status id) := by
  rcases step_cases db c with hstep | ⟨_, _, d, now, alerts, -, hins, hstep⟩ |
    ⟨_, _, d, now, i, a, alerts, -, ha, hupd, hstep⟩ |
    ⟨now, r, a, history, alerts, ha, hallowed, -, hupd, hstep⟩ <;> rw [hstep]
  · rw [Run.move_self, List.append_nil]
  · have hmove : Run.move (db.status id) (AlertDb.status ⟨alerts, db.auditLogs⟩ id) = [] := by
      rw [status_insert hins]
      split_ifs with hid
      · rw [AlertDb.status, hid, Alerts.get?, List.getElem?_eq_none le_rfl]
        rfl
      · exact Run.move_self _
    rw [hmove, List.append_nil]
    rfl
  · have hsame : AlertDb.status ⟨alerts, db.auditLogs⟩ id = db.status id := by
      rw [status_update ha hupd, AlertDb.status]
      split_ifs with hid
      · rw [hid, ha, Option.map_some, Alert.fold_status]
      · rfl
    rw [hsame, Run.move_self, List.append_nil]
    rfl
  · rw [moves_move, status_update ha hupd, AlertDb.status]
    split_ifs with hid
    · rw [hid, ha, Option.map_some, Alert.moved_status,
        Run.move_of_ne (Workflow.allowed_ne hallowed)]
    · rw [Run.move_self]

/-- The invariant: the rows of an alert are its moves, and no rows are kept of others. -/
structure Audited (db : AlertDb) : Prop where
  remembers : ∀ id a, db.alerts.get? id = some a → a.Remembers (db.moves id)
  unknown : ∀ id, db.alerts.get? id = none → db.moves id = []

theorem audited_empty : Audited AlertDb.empty where
  remembers _ _ ha := by cases ha
  unknown _ _ := rfl

theorem Audited.insert {db : AlertDb} (h : Audited db) {a : Alert} {alerts : Alerts}
    (hins : db.alerts.insert? a = some alerts) (hnew : a.Remembers []) :
    Audited ⟨alerts, db.auditLogs⟩ where
  remembers id b hb := by
    rw [Alerts.get?_insert? hins] at hb
    split_ifs at hb with hid
    · cases hb
      have hmoves : db.moves id = [] := h.unknown id (hid ▸ List.getElem?_eq_none le_rfl)
      exact hmoves.symm ▸ hnew
    · exact h.remembers id b hb
  unknown id hnone := by
    rw [Alerts.get?_insert? hins] at hnone
    split_ifs at hnone
    exact h.unknown id hnone

theorem Audited.update {db : AlertDb} (h : Audited db) {i : ℕ} {a b : Alert} {alerts : Alerts}
    {logs : List AuditLog} (hb : db.alerts.get? i = some b)
    (hupd : db.alerts.update? i a = some alerts)
    (hothers : ∀ id, id ≠ i → AlertDb.moves ⟨alerts, logs⟩ id = db.moves id)
    (hnew : a.Remembers (AlertDb.moves ⟨alerts, logs⟩ i)) : Audited ⟨alerts, logs⟩ where
  remembers id c hc := by
    rw [Alerts.get?_update? hb hupd] at hc
    split_ifs at hc with hid
    · cases hc
      exact hid ▸ hnew
    · exact (hothers id hid).symm ▸ h.remembers id c hc
  unknown id hnone := by
    rw [Alerts.get?_update? hb hupd] at hnone
    split_ifs at hnone with hid
    exact (hothers id hid).trans (h.unknown id hnone)

theorem audited_step {db : AlertDb} (h : Audited db) {c : Call} (hc : c.Built) :
    Audited (step db c) := by
  rcases step_cases db c with hstep | ⟨pref, clock, d, now, alerts, hop, hins, hstep⟩ |
    ⟨pref, clock, d, now, i, a, alerts, hop, ha, hupd, hstep⟩ |
    ⟨now, r, a, history, alerts, ha, hallowed, hhistory, hupd, hstep⟩ <;> rw [hstep]
  · exact h
  · exact h.insert hins (Alert.Remembers.ofDetection (hc pref clock d hop) now)
  · exact h.update ha hupd (fun _ _ => rfl) ((h.remembers i a ha).fold (hc pref clock d hop) now)
  · refine h.update ha hupd (fun id hid => ?_) ?_
    · rw [moves_move, if_neg hid, List.append_nil]
    · rw [moves_move, if_pos rfl]
      exact (h.remembers r.alertId a ha).moved hhistory hallowed now r.actor

theorem audited_run {calls : List Call} (hbuilt : ∀ c ∈ calls, c.Built) : Audited (run calls) :=
  (Run.holds_of_guarded (I := Audited) (fun _ _ h hc => audited_step h hc) audited_empty
    (Run.guarded_of_forall hbuilt)).last

theorem step_of_declined {db : AlertDb} (now : Time) {r : StatusRequest} (fails : Bool)
    (h : r.Declined db.alerts) : step db ⟨.updateStatus now r, fails⟩ = db := by
  cases fails with
  | true => rfl
  | false =>
    rcases Workflow.step_updateStatus_cases db now r with hsame | ⟨a, _, _, ha, hallowed, -⟩
    · exact hsame
    · rcases h a ha with hsame | hnot
      · exact absurd hsame (Workflow.allowed_ne hallowed)
      · exact absurd hallowed hnot

/-- After every sequence of calls the audit rows of an alert are the changes of its status,
they lead from `open` to the current one by allowed transitions, and the status history
holds the last 25 of them; a declined request changes nothing. -/
theorem audit_eq_history (calls : List Call) (hbuilt : ∀ c ∈ calls, c.Built) :
    let db := run calls
    (∀ id a, db.alerts.get? id = some a →
      db.moves id = Run.changes step (fun db => db.status id) AlertDb.empty calls ∧
        a.Remembers (db.moves id)) ∧
    (∀ id, db.alerts.get? id = none → db.moves id = []) ∧
    ∀ now r fails, r.Declined db.alerts → step db ⟨.updateStatus now r, fails⟩ = db := by
  intro db
  have haudited : Audited db := audited_run hbuilt
  refine ⟨fun id a ha => ⟨?_, haudited.remembers id a ha⟩, haudited.unknown,
    fun now r fails => step_of_declined now fails⟩
  have hlog := @Run.log_eq_changes _ _ _ _ step (fun db => db.status id) (fun db => db.moves id)
    (fun db c => moves_step db c id) AlertDb.empty calls
  exact hlog

def incident : List Call :=
  let d := Pipeline.anomalyDetection ⟨"events_per_min", 9, 1, 1, 8, 1, "", 20⟩ 0 60
  [⟨.apply 0 0 d, false⟩,
    ⟨.updateStatus 1 { alertId := 0, newStatus := .acknowledged }, false⟩,
    ⟨.updateStatus 2 { alertId := 0, newStatus := .acknowledged }, false⟩,
    ⟨.apply 0 3 d, false⟩,
    ⟨.updateStatus 4 { alertId := 0, newStatus := .resolved }, true⟩,
    ⟨.updateStatus 5 { alertId := 0, newStatus := .resolved }, false⟩,
    ⟨.updateStatus 6 { alertId := 0, newStatus := .investigating }, false⟩]

theorem audit_eq_history_incident : ∃ a, (run incident).alerts.get? 0 = some a ∧
    (run incident).moves 0 = [(.open, .acknowledged), (.acknowledged, .resolved)] ∧
    a.Remembers [(.open, .acknowledged), (.acknowledged, .resolved)] := by
  have hbuilt : ∀ c ∈ incident, c.Built := by
    intro c hc pref clock d hop
    simp only [incident, List.mem_cons, List.not_mem_nil, or_false] at hc
    rcases hc with rfl | rfl | rfl | rfl | rfl | rfl | rfl <;> cases hop <;>
      exact Detection.Built.anomaly ..
  have hmoves : (run incident).moves 0 = [(.open, .acknowledged), (.acknowledged, .resolved)] := by
    decide +kernel
  obtain ⟨a, ha⟩ := Option.isSome_iff_exists.mp
    (show ((run incident).alerts.get? 0).isSome by decide +kernel)
  have hremembers := ((audit_eq_history incident hbuilt).1 0 a ha).2
  exact ⟨a, ha, hmoves, hmoves ▸ hremembers⟩

end AuditTrail

end SiemEngine

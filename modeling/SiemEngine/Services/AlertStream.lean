import SiemEngine.Lib.Replica
import SiemEngine.Services.Workflow
import SiemEngine.Storage.Session

/-!
# The live alert stream

The workers and the triage service commit first and publish the rows they wrote afterwards, one
message at a time, so what one of them publishes can be overtaken by what another commits. The
dashboard keeps the last message about each alert. A worker folds into what its SELECT returned,
refreshes the row that its flush leaves and keeps it locked until it commits; a status request
publishes the object that it had read, as it changed it. Transactions and messages take turns in
any order, and a publisher that fails loses the messages it has left.
-/

namespace SiemEngine.AlertStream

/-- What the SELECT of a detection goes by: the table as it was then, or as it still is at the
flush, and the row that the database prefers. -/
structure Select where
  view : Option Alerts := none
  pref : ℕ

def plan (t : Alerts) (q : Select) (clock : Time) (d : Detection) : Write :=
  AlertCorrelator.plan (q.view.getD t) q.pref clock d

def applyDetection (q : Select) (clock : Time) (d : Detection) : Database.Statement := fun db =>
  let write := plan db.alerts q clock d
  if write.row.Fits then
    (db.alerts.write? write).map fun alerts => { db with alerts }
  else none

def batchStatements (selects : ℕ → Select) (clock : Time) (events : List SecurityEvent)
    (detections : List Detection) : List Database.Statement :=
  Database.bulkInsert events :: detections.mapIdx fun i d => applyDetection (selects i) clock d

def written (t : Alerts) : Write → ℕ × Alert
  | .insert a => (t.rows.length, a)
  | .update id loaded changed => (id, (t.get? id).elim changed (Alert.patch loaded changed))

/-- `alert_payloads`: the row after each detection of a transaction. -/
def payloads (selects : ℕ → Select) (clock : Time) (t : Alerts) : List Detection → List (ℕ × Alert)
  | [] => []
  | d :: ds =>
    let write := plan t (selects 0) clock d
    written t write :: match t.write? write with
      | none => []
      | some t' => payloads (fun i => selects (i + 1)) clock t' ds

def alertPayloads (pref : ℕ → ℕ) : Time → Alerts → List Detection → List (ℕ × Alert) :=
  payloads fun i => { pref := pref i }

theorem alertPayloads_singleton (pref : ℕ → ℕ) (clock : Time) (t : Alerts) (d : Detection) :
    alertPayloads pref clock t [d] = [written t (AlertCorrelator.plan t (pref 0) clock d)] := by
  simp only [alertPayloads, payloads]
  split <;> rfl

structure Change where
  alertId : ℕ
  loaded : Alert
  changed : Alert
  log : AuditLog

structure State where
  db : Database := Database.empty
  auditLogs : List AuditLog := []
  requests : List Change := []
  outboxes : List (List (ℕ × Alert)) := []
  channel : List (ℕ × Alert) := []

/-- The transaction of a batch, that of a standalone alert, the read and the commit of a status
request, the next message of a publisher, and a publisher that fails. -/
inductive Act
  | batch (failAt : Option ℕ) (selects : ℕ → Select) (clock : Time) (events : List SecurityEvent)
      (detections : List Detection)
  | standalone (failAt : Option ℕ) (select : Select) (clock : Time) (d : Detection)
  | read (now : Time) (r : StatusRequest)
  | commit (k : ℕ)
  | send (i : ℕ)
  | lose (i : ℕ)

def persisted (s : State) (db : Database) (payloads : List (ℕ × Alert)) : State :=
  { s with db, outboxes := s.outboxes ++ [payloads] }

/-- The read of `patch_alert`, which publishes the alert also when there is nothing to change. -/
def readPatch (s : State) (now : Time) (r : StatusRequest) : State :=
  match r.plan s.db.alerts now with
  | .notFound | .raised _ => s
  | .unchanged alert => persisted s s.db [(r.alertId, alert)]
  | .change id loaded changed log =>
    { s with requests := s.requests ++ [⟨id, loaded, changed, log⟩] }

def Change.commit? (c : Change) (s : State) : Option Alerts :=
  s.db.alerts.write? (.update c.alertId c.loaded c.changed)

def commitPatch (s : State) (k : ℕ) (c : Change) : State :=
  let answered := { s with requests := s.requests.eraseIdx k }
  match c.commit? s with
  | none => answered
  | some alerts =>
    { persisted answered { s.db with alerts } [(c.alertId, c.changed)] with
      auditLogs := s.auditLogs ++ [c.log] }

def step (s : State) : Act → State
  | .batch failAt selects clock events detections =>
    match Database.sessionScope failAt s.db (batchStatements selects clock events detections) with
    | none => s
    | some db => persisted s db (payloads selects clock s.db.alerts detections)
  | .standalone failAt select clock d =>
    match Database.sessionScope failAt s.db [applyDetection select clock d] with
    | none => s
    | some db => persisted s db (payloads (fun _ => select) clock s.db.alerts [d])
  | .read now r => readPatch s now r
  | .commit k => match s.requests[k]? with
    | none => s
    | some c => commitPatch s k c
  | .send i =>
    match s.outboxes[i]? with
    | some (m :: rest) =>
      { s with outboxes := s.outboxes.set i rest, channel := s.channel ++ [m] }
    | _ => s
  | .lose i => { s with outboxes := s.outboxes.set i [] }

/-- The table as a store of rows whose writers publish them. -/
def State.replica (s : State) : Replica.State ℕ Alert where
  row := s.db.alerts.get?
  outboxes := s.outboxes
  log := s.channel

def truthful (rows : List (ℕ × Alert)) : List (ℕ × Alert × Alert) :=
  rows.map fun x => (x.1, x.2, x.2)

def replicaAct (s : State) : Act → Option (Replica.Act ℕ Alert)
  | .batch failAt selects clock events detections =>
    (Database.sessionScope failAt s.db (batchStatements selects clock events detections)).map
      fun _ => .commit (truthful (payloads selects clock s.db.alerts detections))
  | .standalone failAt select clock d =>
    (Database.sessionScope failAt s.db [applyDetection select clock d]).map fun _ =>
      .commit (truthful (payloads (fun _ => select) clock s.db.alerts [d]))
  | .read now r => match r.plan s.db.alerts now with
    | .unchanged alert => some (.commit (truthful [(r.alertId, alert)]))
    | .notFound | .raised _ | .change .. => none
  | .commit k => s.requests[k]?.bind fun c => (c.commit? s).map fun alerts =>
      .commit ((alerts.get? c.alertId).toList.map fun row => (c.alertId, row, c.changed))
  | .send i => some (.send i)
  | .lose i => some (.lose i)

def Settled (id : ℕ) (s : State) : Prop := Replica.Settled id s.replica

/-- However the publishers take turns from here, the last message about the alert will be the
stored row. -/
def Converges (id : ℕ) (s : State) : Prop := Replica.Converges id s.replica

/-- A row is not written while a message with another version of it waits, a status request
publishes the row that its commit leaves, and a message that is lost would have changed
nothing. -/
def Orderly (id : ℕ) (s : State) (a : Act) : Prop :=
  ∀ b ∈ replicaAct s a, Replica.Allowed id s.replica b

section

variable {t u : Alerts} {clock : Time} {d : Detection}

theorem get?_written {w : Write} (h : t.write? w = some u) (id : ℕ) :
    u.get? id = (Replica.last id [written t w]).or (t.get? id) := by
  rw [Replica.last_singleton]
  cases w with
  | insert a =>
    rw [Alerts.get?_insert? h, written]
    split_ifs <;> rfl
  | update i loaded changed =>
    obtain ⟨stored, hstored, hupd⟩ := Option.bind_eq_some_iff.mp h
    rw [Alerts.get?_update? hstored hupd, written, hstored]
    split_ifs <;> rfl

theorem get?_payloads (selects : ℕ → Select) {failAt : Option ℕ} {db db' : Database}
    (ds : List Detection)
    (h : Database.sessionScope failAt db
      (ds.mapIdx fun i d => applyDetection (selects i) clock d) = some db') (id : ℕ) :
    db'.alerts.get? id =
      (Replica.last id (payloads selects clock db.alerts ds)).or (db.alerts.get? id) := by
  induction ds generalizing failAt selects db with
  | nil =>
    rw [Database.sessionScope_nil h]
    rfl
  | cons d ds ih =>
    rw [List.mapIdx_cons] at h
    obtain ⟨db₁, hd, hrest⟩ := Database.sessionScope_cons h
    unfold applyDetection at hd
    dsimp only at hd
    split_ifs at hd
    obtain ⟨alerts, hw, rfl⟩ := Option.map_eq_some_iff.mp hd
    have hsplit : payloads selects clock db.alerts (d :: ds) =
        [written db.alerts (plan db.alerts (selects 0) clock d)] ++
          payloads (fun i => selects (i + 1)) clock alerts ds := by
      simp only [payloads, hw, List.singleton_append]
    rw [@ih (fun i => selects (i + 1)) _ _ hrest, hsplit, Replica.last_append, Option.or_assoc]
    exact congrArg _ (get?_written hw id)

theorem get?_batchStatements (selects : ℕ → Select) {failAt : Option ℕ} {db db' : Database}
    {events : List SecurityEvent} {ds : List Detection}
    (h : Database.sessionScope failAt db (batchStatements selects clock events ds) = some db')
    (id : ℕ) : db'.alerts.get? id =
      (Replica.last id (payloads selects clock db.alerts ds)).or (db.alerts.get? id) := by
  obtain ⟨db₁, hins, hrest⟩ := Database.sessionScope_cons h
  unfold Database.bulkInsert at hins
  dsimp only at hins
  split_ifs at hins
  cases hins
  exact get?_payloads selects ds hrest id

theorem get?_batch {pref : ℕ → ℕ} {failAt : Option ℕ} {db db' : Database}
    {events : List SecurityEvent} {ds : List Detection}
    (h : Database.sessionScope failAt db (Database.batchStatements pref clock events ds) =
      some db') (id : ℕ) :
    db'.alerts.get? id =
      (Replica.last id (alertPayloads pref clock db.alerts ds)).or (db.alerts.get? id) :=
  get?_batchStatements (fun i => { pref := pref i }) h id

theorem truthful_messages (rows : List (ℕ × Alert)) : Replica.messages (truthful rows) = rows := by
  rw [Replica.messages, truthful, List.map_map]
  exact List.map_id' rows

theorem last_truthful (id : ℕ) (rows : List (ℕ × Alert)) :
    (Replica.last id (truthful rows)).map Prod.fst = Replica.last id rows := by
  rw [truthful, Replica.last_map (fun a => (a, a)), Option.map_map]
  exact Option.map_id'

theorem unchanged_of_plan {now : Time} {r : StatusRequest} {a : Alert}
    (h : r.plan t now = .unchanged a) : t.get? r.alertId = some a := by
  unfold StatusRequest.plan at h
  split at h
  · cases h
  · rename_i alert halert
    split_ifs at h
    · cases h
      exact halert
    · split at h <;> cases h

end

theorem replica_persisted (s : State) {db : Database} {rows : List (ℕ × Alert)}
    (h : ∀ id, db.alerts.get? id = (Replica.last id rows).or (s.db.alerts.get? id)) :
    (persisted s db rows).replica = Replica.step s.replica (.commit (truthful rows)) := by
  rw [Replica.step, truthful_messages]
  refine congrArg (fun row => Replica.State.mk row _ _) (funext fun id => ?_)
  rw [last_truthful]
  exact h id

theorem replica_commitPatch (s : State) (k : ℕ) (c : Change) :
    (commitPatch s k c).replica = match c.commit? s with
      | none => s.replica
      | some alerts => Replica.step s.replica (.commit
          ((alerts.get? c.alertId).toList.map fun row => (c.alertId, row, c.changed))) := by
  rw [commitPatch]
  cases hw : c.commit? s with
  | none => rfl
  | some alerts =>
    obtain ⟨stored, hstored, hupd⟩ := Option.bind_eq_some_iff.mp hw
    have hget := Alerts.get?_update? hstored hupd
    have hrow := (hget c.alertId).trans (if_pos rfl)
    dsimp only
    rw [hrow]
    refine congrArg (fun row => Replica.State.mk row _ _) (funext fun id => ?_)
    change alerts.get? id = ((Replica.last id [(c.alertId, _, c.changed)]).map Prod.fst).or
      (s.db.alerts.get? id)
    rw [hget, Replica.last_singleton]
    split_ifs <;> rfl

theorem replica_step (s : State) (a : Act) : (step s a).replica =
    match replicaAct s a with
    | none => s.replica
    | some b => Replica.step s.replica b := by
  cases a with
  | batch failAt selects clock events detections =>
    rw [step, replicaAct]
    cases hdb : Database.sessionScope failAt s.db
      (batchStatements selects clock events detections) with
    | none => rfl
    | some db => exact replica_persisted s (get?_batchStatements selects hdb)
  | standalone failAt select clock d =>
    rw [step, replicaAct]
    cases hdb : Database.sessionScope failAt s.db [applyDetection select clock d] with
    | none => rfl
    | some db => exact replica_persisted s (get?_payloads (fun _ => select) [d] hdb)
  | read now r =>
    rw [step, replicaAct, readPatch]
    cases hplan : r.plan s.db.alerts now with
    | notFound | raised e | change id loaded changed log => rfl
    | unchanged a =>
      refine replica_persisted s fun id => ?_
      rw [Replica.last_singleton]
      split_ifs with hid
      · rw [hid, unchanged_of_plan hplan, Option.some_or]
      · rw [Option.none_or]
  | commit k =>
    rw [step, replicaAct]
    cases hk : s.requests[k]? with
    | none => rfl
    | some c =>
      rw [Option.bind_some]
      refine (replica_commitPatch s k c).trans ?_
      cases c.commit? s <;> rfl
  | send i =>
    change (step s (.send i)).replica = Replica.send s.replica i
    cases ho : s.outboxes[i]? with
    | none => simp only [step, Replica.send, State.replica, ho]
    | some o =>
      cases o with
      | nil => simp only [step, Replica.send, State.replica, ho]
      | cons m rest => simp only [step, Replica.send, State.replica, ho]
  | lose i => rfl

theorem tracks_step {id : ℕ} {s : State} (a : Act) (h : Replica.Tracks id s.replica)
    (ha : Orderly id s a) : Replica.Tracks id (step s a).replica := by
  rw [replica_step]
  cases hact : replicaAct s a with
  | none => exact h
  | some b => exact Replica.tracks_step b h (ha b hact)

theorem orderly_of_converges {id : ℕ} {s : State} (a : Act) (h : Converges id (step s a)) :
    Orderly id s a := by
  intro b hb
  rw [Converges, replica_step, Option.mem_def.mp hb] at h
  exact Replica.allowed_of_converges b h

theorem tracks_start (id : ℕ) : Replica.Tracks id ({} : State).replica :=
  ⟨fun _ ho => absurd ho List.not_mem_nil, fun _ => rfl⟩

/-- However the transactions of workers and analysts and their messages take turns: it is certain
at every moment that the last message about an alert will be the stored row exactly when no row
was written while a message with another version of it waited, every status request published the
row that its commit left, and nothing was lost that made a difference. -/
theorem alert_stream_converges_iff (id : ℕ) (as : List Act) :
    Run.Holds step (Converges id) ({} : State) as ↔ Run.Guarded step (Orderly id) ({} : State) as :=
  Run.holds_iff_guarded (I := fun s : State => Replica.Tracks id s.replica)
    (fun _ h => h.converges) (fun _ a h ha => tracks_step a h ha)
    (fun _ a _ hc => orderly_of_converges a hc) (tracks_start id) as

def maxAlerts : ℕ := 80

def dashboard (s : State) : List (ℕ × Alert) := s.channel.foldl (Replica.upsert maxAlerts) []

/-- A page shows the eighty alerts with the newest messages. Along a run that is orderly for
every alert, each one that no message waits about is shown as it is stored. -/
theorem dashboard_shows_stored (as : List Act)
    (h : ∀ id, Run.Guarded step (Orderly id) ({} : State) as) :
    let s := Run.exec step ({} : State) as
    dashboard s = (Replica.newest s.channel).take maxAlerts ∧
      ∀ x ∈ dashboard s, Settled x.1 s → s.db.alerts.get? x.1 = some x.2 := by
  intro s
  have hshown : dashboard s = (Replica.newest s.channel).take maxAlerts :=
    Replica.foldl_upsert maxAlerts s.channel
  refine ⟨hshown, fun x hx hs => ?_⟩
  rw [hshown] at hx
  have hlast : Replica.last x.1 s.channel = some x.2 :=
    Replica.mem_newest.mp (List.mem_of_mem_take hx)
  have htracks : Replica.Tracks x.1 s.replica :=
    (Run.holds_of_guarded (I := fun s : State => Replica.Tracks x.1 s.replica)
      (fun _ a h ha => tracks_step a h ha) (tracks_start x.1) (h x.1)).last
  exact (htracks.settled hs).symm.trans hlast

def acknowledgement : StatusRequest := { alertId := 0, newStatus := .acknowledged }

def raisedAndAcknowledged : List Act :=
  [.standalone none { pref := 0 } 0 Workflow.bruteForce, .send 0, .read 1 acknowledgement,
    .commit 0, .send 1]

theorem allowed_of_empty {id : ℕ} {s : State} (h : ∀ o ∈ s.outboxes, o = [])
    (rows : List (ℕ × Alert)) : Replica.Allowed id s.replica (.commit (truthful rows)) := by
  intro v hv
  rw [truthful, Replica.last_map (fun a => (a, a)), Option.mem_def, Option.map_eq_some_iff] at hv
  obtain ⟨a, -, rfl⟩ := hv
  refine ⟨rfl, fun o ho w hw => ?_⟩
  rw [h o ho] at hw
  cases hw

theorem allowed_of_leaves {id : ℕ} {s : State} (h : ∀ o ∈ s.outboxes, o = []) {c : Change}
    {row : Option Alert} (hrow : row = some c.changed) : Replica.Allowed id s.replica
      (.commit (row.toList.map fun row => (c.alertId, row, c.changed))) := by
  intro v hv
  rw [hrow, Option.toList_some, List.map_singleton, Replica.last_singleton] at hv
  split_ifs at hv
  · cases hv
    refine ⟨rfl, fun o ho w hw => ?_⟩
    rw [h o ho] at hw
    cases hw
  · cases hv

theorem orderly_raisedAndAcknowledged (id : ℕ) :
    Run.Guarded step (Orderly id) ({} : State) raisedAndAcknowledged := by
  refine ⟨fun b hb => ?raised, fun b hb => ?_, fun b hb => ?read, fun b hb => ?committed,
    fun b hb => ?_, trivial⟩
  case raised =>
    rw [replicaAct, Option.mem_def, Option.map_eq_some_iff] at hb
    obtain ⟨db, -, rfl⟩ := hb
    exact allowed_of_empty (by decide) _
  case read =>
    have hnone : (replicaAct (Run.exec step {} (raisedAndAcknowledged.take 2))
      (.read 1 acknowledgement)).isNone := by decide +kernel
    exact absurd (Option.mem_def.mp hb) (Option.isNone_iff_eq_none.mp hnone ▸ nofun)
  case committed =>
    rw [replicaAct, Option.mem_def, Option.bind_eq_some_iff] at hb
    obtain ⟨c, hc, hb⟩ := hb
    obtain ⟨alerts, hw, rfl⟩ := Option.map_eq_some_iff.mp hb
    refine allowed_of_leaves (by decide +kernel) ?_
    have hleaves : ∀ c ∈ (Run.exec step {} (raisedAndAcknowledged.take 3)).requests,
        ∀ alerts ∈ c.commit? (Run.exec step {} (raisedAndAcknowledged.take 3)),
          alerts.get? c.alertId = some c.changed := by
      decide +kernel
    exact hleaves c (List.mem_of_getElem? hc) alerts hw
  all_goals
    cases hb
    trivial

theorem dashboard_shows_stored_acknowledged :
    let s := Run.exec step ({} : State) raisedAndAcknowledged
    (dashboard s).map (fun x => (x.1, x.2.status)) = [(0, .acknowledged)] ∧
      ∀ x ∈ dashboard s, s.db.alerts.get? x.1 = some x.2 := by
  refine ⟨by decide +kernel, fun x hx => ?_⟩
  refine (dashboard_shows_stored raisedAndAcknowledged orderly_raisedAndAcknowledged).2 x hx ?_
  intro o ho
  have hempty : ∀ o ∈ (Run.exec step ({} : State) raisedAndAcknowledged).outboxes, o = [] := by
    decide +kernel
  rw [hempty o ho]
  rfl

/-- Published in the other order, the two messages leave the alert open on the page. -/
example :
    let s := Run.exec step ({} : State)
      [.standalone none { pref := 0 } 0 Workflow.bruteForce, .read 1 acknowledgement, .commit 0,
        .send 1, .send 0]
    (dashboard s).map (fun x => x.2.status) = [.open] ∧
      (s.db.alerts.get? 0).map Alert.status = some .acknowledged := by
  decide +kernel

/-- An alert that is folded between the read and the commit of a status request. -/
example :
    let s := Run.exec step ({} : State)
      [.standalone none { pref := 0 } 0 Workflow.bruteForce, .send 0, .read 1 acknowledgement,
        .standalone none { pref := 0 } 0 Workflow.bruteForce, .send 1, .commit 0, .send 2]
    (dashboard s).map (fun x => x.2.eventCount) = [1] ∧
      (s.db.alerts.get? 0).map Alert.eventCount = some 2 := by
  decide +kernel

end SiemEngine.AlertStream

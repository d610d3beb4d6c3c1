import Mathlib.Data.List.Chain
import SiemEngine.Services.Workflow

/-!
# Concurrent sessions on the alerts table

Worker transactions and status requests run concurrently under READ COMMITTED with no
row lock on the read. Each is a read step, which plans its writes from the row it loaded,
and a later commit step, which flushes the plan into whatever is stored by then. A worker
transaction folds detections of one correlation key; here its first read and its commit
stand for it, and `Transactions` has its SELECTs and flushes one by one.
-/

namespace SiemEngine.Sessions

structure WorkerTxn where
  clock : Time
  first : Detection
  rest : List Detection
  oneKey : ∀ d ∈ rest, d.key = first.key

namespace WorkerTxn

def foldAll (clock : Time) (a : Alert) (ds : List Detection) : Alert :=
  ds.foldl (fun a d => a.fold (d.triggeredAt.getD clock) d) a

def plan (t : Alerts) (pref : ℕ) (w : WorkerTxn) : Write :=
  match t.getOpenByKey pref w.first.key with
  | none => .insert
      (foldAll w.clock (Alert.ofDetection (w.first.triggeredAt.getD w.clock) w.first) w.rest)
  | some (id, a) => .update id a (foldAll w.clock a (w.first :: w.rest))

@[simp] theorem foldAll_slot (clock : Time) (a : Alert) (ds : List Detection) :
    (foldAll clock a ds).slot = a.slot := by
  induction ds generalizing a with
  | nil => rfl
  | cons d ds ih => exact (ih _).trans (a.fold_slot _ d)

theorem eventCount_le_foldAll (clock : Time) (a : Alert) (ds : List Detection) :
    a.eventCount ≤ (foldAll clock a ds).eventCount := by
  induction ds generalizing a with
  | nil => exact le_rfl
  | cons d ds ih => exact (a.eventCount_lt_fold _ d).le.trans (ih _)

theorem eventCount_lt_foldAll (clock : Time) (a : Alert) (d : Detection) (ds : List Detection) :
    a.eventCount < (foldAll clock a (d :: ds)).eventCount :=
  (a.eventCount_lt_fold _ d).trans_le (eventCount_le_foldAll clock _ ds)

end WorkerTxn

inductive Txn
  | worker (w : WorkerTxn)
  | triage (now : Time) (r : StatusRequest)

structure Session where
  txn : Txn
  write : Write
  log : Option AuditLog

/-- The read step; `none` when the transaction is answered without writing. -/
def Txn.read (t : Alerts) (pref : ℕ) : Txn → Option Session
  | .worker w => some ⟨.worker w, w.plan t pref, none⟩
  | .triage now r => match r.plan t now with
    | .change id loaded changed log => some ⟨.triage now r, .update id loaded changed, some log⟩
    | .notFound | .unchanged _ | .raised _ => none

def commit? (db : AlertDb) (s : Session) : Option AlertDb :=
  (db.alerts.write? s.write).map fun alerts => ⟨alerts, db.auditLogs ++ s.log.toList⟩

def committedStatus (db : AlertDb) (s : Session) : List (ℕ × AlertStatus) :=
  match s.write, s.log with
  | .insert a, _ => [(db.alerts.rows.length, a.status)]
  | .update id _ changed, some _ => [(id, changed.status)]
  | .update _ _ _, none => []

structure State where
  db : AlertDb
  pending : List Session := []
  statuses : List (ℕ × AlertStatus) := []

inductive Act
  | read (pref : ℕ) (txn : Txn)
  | commit (k : ℕ)

def step (st : State) : Act → State
  | .read pref txn => { st with pending := st.pending ++ (txn.read st.db.alerts pref).toList }
  | .commit k => match st.pending[k]? with
    | none => st
    | some s => match commit? st.db s with
      | none => { st with pending := st.pending.eraseIdx k }
      | some db => ⟨db, st.pending.eraseIdx k, st.statuses ++ committedStatus st.db s⟩

def Session.Planned (s : Session) : Prop := ∃ t pref, s.txn.read t pref = some s

/-- What a read can plan: a new open alert of a key without an active one, a fold of an
active alert, or an allowed move of the alert of the request. -/
theorem read_cases {t : Alerts} {pref : ℕ} {txn : Txn} {s : Session}
    (h : txn.read t pref = some s) :
    s.txn = txn ∧
    ((∃ w, txn = .worker w ∧ s.log = none ∧ (∀ id, ¬ t.openAt w.first.key id) ∧
        s.write = .insert (WorkerTxn.foldAll w.clock
          (Alert.ofDetection (w.first.triggeredAt.getD w.clock) w.first) w.rest)) ∨
      (∃ w id a, txn = .worker w ∧ s.log = none ∧ t.get? id = some a ∧ a.key = w.first.key ∧
        a.status.isActive ∧
        s.write = .update id a (WorkerTxn.foldAll w.clock a (w.first :: w.rest))) ∨
      ∃ now r a history, txn = .triage now r ∧ s.log = some (r.auditLog a.status) ∧
        t.get? r.alertId = some a ∧ r.newStatus ∈ allowedTransitions a.status ∧
        a.statusHistory = some history ∧
        s.write = .update r.alertId a (a.moved history r.newStatus now r.actor)) := by
  cases txn with
  | worker w =>
    simp only [Txn.read, Option.some.injEq] at h
    subst h
    refine ⟨rfl, ?_⟩
    cases hopen : t.getOpenByKey pref w.first.key with
    | none =>
      exact Or.inl ⟨w, rfl, rfl, Alerts.getOpenByKey_eq_none.mp hopen,
        by simp only [WorkerTxn.plan, hopen]⟩
    | some ia =>
      obtain ⟨ha, hkey, hact⟩ := Alerts.getOpenByKey_eq_some hopen
      exact Or.inr (Or.inl ⟨w, ia.1, ia.2, rfl, rfl, ha, hkey, hact,
        by simp only [WorkerTxn.plan, hopen]⟩)
  | triage now r =>
    simp only [Txn.read] at h
    split at h
    · rename_i id loaded changed log hplan
      obtain ⟨rfl, hget, hallowed, -, rfl, history, hhistory, rfl⟩ :=
        StatusRequest.plan_eq_change hplan
      cases h
      exact ⟨rfl, Or.inr (Or.inr
        ⟨now, r, loaded, history, rfl, rfl, hget, hallowed, hhistory, rfl⟩)⟩
    all_goals cases h

theorem commit?_cases {db db' : AlertDb} {s : Session} (hp : s.Planned)
    (h : commit? db s = some db') :
    db'.auditLogs = db.auditLogs ++ s.log.toList ∧
    ((∃ a, s.write = .insert a ∧ s.log = none ∧ a.status = .open ∧
        db.alerts.insert? a = some db'.alerts) ∨
      (∃ id loaded changed stored, s.write = .update id loaded changed ∧ s.log = none ∧
        db.alerts.get? id = some stored ∧ changed.slot = loaded.slot ∧
        db.alerts.update? id (Alert.patch loaded changed stored) = some db'.alerts) ∨
      ∃ id loaded changed stored log, s.write = .update id loaded changed ∧ s.log = some log ∧
        db.alerts.get? id = some stored ∧ log.targetId = id ∧ log.detailFrom = loaded.status ∧
        log.detailTo = changed.status ∧ changed.status ∈ allowedTransitions loaded.status ∧
        changed.key = loaded.key ∧
        db.alerts.update? id (Alert.patch loaded changed stored) = some db'.alerts) := by
  obtain ⟨alerts, hw, rfl⟩ := Option.map_eq_some_iff.mp h
  refine ⟨rfl, ?_⟩
  obtain ⟨t, pref, hread⟩ := hp
  obtain ⟨-, ⟨w, -, hlog, -, hwrite⟩ | ⟨w, id, a, -, hlog, -, -, -, hwrite⟩ |
    ⟨now, r, a, history, -, hlog, -, hallowed, -, hwrite⟩⟩ := read_cases hread
  · refine Or.inl ⟨_, hwrite, hlog, congrArg Prod.snd (WorkerTxn.foldAll_slot _ _ _), ?_⟩
    rwa [hwrite] at hw
  · rw [hwrite] at hw
    obtain ⟨stored, hget, hupd⟩ := Option.bind_eq_some_iff.mp hw
    exact Or.inr (Or.inl ⟨id, _, _, stored, hwrite, hlog, hget, WorkerTxn.foldAll_slot _ _ _, hupd⟩)
  · rw [hwrite] at hw
    obtain ⟨stored, hget, hupd⟩ := Option.bind_eq_some_iff.mp hw
    exact Or.inr (Or.inr
      ⟨_, _, _, stored, _, hwrite, hlog, hget, rfl, rfl, rfl, hallowed, rfl, hupd⟩)

def State.statusesOf (st : State) (id : ℕ) : List AlertStatus :=
  (st.statuses.filter (·.1 = id)).map Prod.snd

def State.logsOf (st : State) (id : ℕ) : List AuditLog :=
  st.db.auditLogs.filter (·.targetId = id)

/-- The committed statuses of every alert form a path of allowed transitions, and each
audit row of it starts where the previous one ended. -/
def WorkflowKept (st : State) : Prop :=
  ∀ id, (st.statusesOf id).IsChain (fun s s' => s' ∈ allowedTransitions s) ∧
    (st.logsOf id).IsChain (fun l l' => l'.detailFrom = l.detailTo)

def CommitsOnRead (st : State) : Act → Prop
  | .read _ _ => True
  | .commit k => ∀ s id loaded changed log stored, st.pending[k]? = some s →
      s.write = .update id loaded changed → s.log = some log →
      st.db.alerts.get? id = some stored → (commit? st.db s).isSome →
      stored.status = loaded.status

def Linked : AlertStatus → List AuditLog → Prop
  | _, [] => True
  | s, l :: ls => l.detailFrom = s ∧ l.detailTo ∈ allowedTransitions s ∧ Linked l.detailTo ls

def endOf (s : AlertStatus) (ls : List AuditLog) : AlertStatus :=
  ls.foldl (fun _ l => l.detailTo) s

theorem linked_concat {s : AlertStatus} {ls : List AuditLog} {l : AuditLog} :
    Linked s (ls ++ [l]) ↔
      Linked s ls ∧ l.detailFrom = endOf s ls ∧ l.detailTo ∈ allowedTransitions (endOf s ls) := by
  induction ls generalizing s with
  | nil => simp [Linked, endOf]
  | cons l' ls ih =>
    simp only [List.cons_append, Linked, ih, endOf, List.foldl_cons]
    tauto

theorem Linked.statuses {s : AlertStatus} {ls : List AuditLog} (h : Linked s ls) :
    (s :: ls.map AuditLog.detailTo).IsChain (fun s s' => s' ∈ allowedTransitions s) := by
  induction ls generalizing s with
  | nil => exact List.IsChain.singleton _
  | cons l ls ih => exact List.isChain_cons_cons.mpr ⟨h.2.1, ih h.2.2⟩

theorem Linked.logs {s : AlertStatus} {ls : List AuditLog} (h : Linked s ls) :
    ls.IsChain (fun l l' => l'.detailFrom = l.detailTo) := by
  induction ls generalizing s with
  | nil => exact List.IsChain.nil
  | cons l ls ih =>
    cases ls with
    | nil => exact List.IsChain.singleton _
    | cons l' ls => exact List.isChain_cons_cons.mpr ⟨h.2.2.1, ih h.2.2⟩

/-- The inductive invariant: the audit rows of an alert lead from `open` to its status and
repeat its committed statuses, and a request that has read an alert without audit rows has
read it open. -/
structure Audited (st : State) : Prop where
  planned : ∀ s ∈ st.pending, s.Planned
  linked : ∀ id, Linked .open (st.logsOf id)
  current : ∀ id a, st.db.alerts.get? id = some a → a.status = endOf .open (st.logsOf id)
  statuses : ∀ id, st.statusesOf id = if (st.db.alerts.get? id).isSome
    then .open :: (st.logsOf id).map AuditLog.detailTo else []
  absent : ∀ id, st.db.alerts.get? id = none → st.logsOf id = []
  fresh : ∀ s ∈ st.pending, ∀ id loaded changed log, s.write = .update id loaded changed →
    s.log = some log → st.logsOf id = [] → loaded.status = .open

theorem Audited.workflowKept {st : State} (h : Audited st) : WorkflowKept st := by
  intro id
  refine ⟨?_, (h.linked id).logs⟩
  rw [h.statuses id]
  split_ifs
  · exact (h.linked id).statuses
  · exact List.IsChain.nil

theorem Audited.erase {st : State} (h : Audited st) (k : ℕ) :
    Audited { st with pending := st.pending.eraseIdx k } where
  planned s hs := h.planned s (List.mem_of_mem_eraseIdx hs)
  linked := h.linked
  current := h.current
  statuses := h.statuses
  absent := h.absent
  fresh s hs := h.fresh s (List.mem_of_mem_eraseIdx hs)

theorem audited_read {st : State} (h : Audited st) (pref : ℕ) (txn : Txn) :
    Audited (step st (.read pref txn)) := by
  have hmem : ∀ s ∈ (step st (.read pref txn)).pending,
      s ∈ st.pending ∨ txn.read st.db.alerts pref = some s := by
    intro s hs
    simpa [step] using hs
  refine ⟨fun s hs => ?_, h.linked, h.current, h.statuses, h.absent,
    fun s hs id loaded changed log hwrite hlog hnil => ?_⟩
  · rcases hmem s hs with hold | hread
    · exact h.planned s hold
    · have htxn : s.txn = txn := (read_cases hread).1
      exact ⟨st.db.alerts, pref, by rw [htxn]; exact hread⟩
  · rcases hmem s hs with hold | hread
    · exact h.fresh s hold id loaded changed log hwrite hlog hnil
    · obtain ⟨-, ⟨w, -, hl, -⟩ | ⟨w, i, a, -, hl, -⟩ | ⟨now, r, a, history, -, hl, hget, -, -, hw⟩⟩ :=
        read_cases hread
      · rw [hl] at hlog; cases hlog
      · rw [hl] at hlog; cases hlog
      · rw [hw] at hwrite
        cases hwrite
        have hcur := h.current _ _ hget
        rwa [show st.logsOf r.alertId = [] from hnil] at hcur

theorem logsOf_commit (st : State) (db : AlertDb) (pending : List Session)
    (statuses : List (ℕ × AlertStatus)) {logs : List AuditLog}
    (hlogs : db.auditLogs = st.db.auditLogs ++ logs) (id : ℕ) :
    State.logsOf ⟨db, pending, statuses⟩ id =
      st.logsOf id ++ logs.filter (·.targetId = id) := by
  simp only [State.logsOf, hlogs, List.filter_append]

theorem statusesOf_commit (st : State) (db : AlertDb) (pending : List Session)
    (new : List (ℕ × AlertStatus)) (id : ℕ) :
    State.statusesOf ⟨db, pending, st.statuses ++ new⟩ id =
      st.statusesOf id ++ (new.filter (·.1 = id)).map Prod.snd := by
  simp only [State.statusesOf, List.filter_append, List.map_append]

theorem Audited.insert {st : State} (h : Audited st) {db : AlertDb} {a : Alert}
    (hlogs : db.auditLogs = st.db.auditLogs) (hopen : a.status = .open)
    (hins : st.db.alerts.insert? a = some db.alerts) :
    Audited ⟨db, st.pending, st.statuses ++ [(st.db.alerts.rows.length, a.status)]⟩ := by
  have hl (id : ℕ) : State.logsOf ⟨db, st.pending,
      st.statuses ++ [(st.db.alerts.rows.length, a.status)]⟩ id = st.logsOf id := by
    simp only [State.logsOf, hlogs]
  have hnone : st.db.alerts.get? st.db.alerts.rows.length = none :=
    List.getElem?_eq_none le_rfl
  refine ⟨h.planned, fun id => ?_, fun id b hb => ?_, fun id => ?_, fun id hid => ?_,
    fun s hs id loaded changed log hw hlog hnil => ?_⟩
  · rw [hl]; exact h.linked id
  · rw [hl]
    rw [Alerts.get?_insert? hins] at hb
    split_ifs at hb with hid
    · cases hb
      rw [hid, h.absent _ hnone]
      exact hopen
    · exact h.current id b hb
  · rw [hl, statusesOf_commit, h.statuses id, Alerts.get?_insert? hins]
    by_cases hid : id = st.db.alerts.rows.length
    · subst hid
      simp [hnone, h.absent _ hnone, hopen]
    · simp [hid, Ne.symm hid]
  · rw [hl]
    rw [Alerts.get?_insert? hins] at hid
    split_ifs at hid
    exact h.absent id hid
  · rw [hl] at hnil
    exact h.fresh s hs id loaded changed log hw hlog hnil

theorem Audited.fold {st : State} (h : Audited st) {db : AlertDb} {id : ℕ} {stored new : Alert}
    (hlogs : db.auditLogs = st.db.auditLogs) (hget : st.db.alerts.get? id = some stored)
    (hslot : new.slot = stored.slot) (hupd : st.db.alerts.update? id new = some db.alerts) :
    Audited ⟨db, st.pending, st.statuses⟩ := by
  have hl (i : ℕ) : State.logsOf ⟨db, st.pending, st.statuses⟩ i = st.logsOf i := by
    simp only [State.logsOf, hlogs]
  have hsome (i : ℕ) : (db.alerts.get? i).isSome = (st.db.alerts.get? i).isSome := by
    rw [Alerts.get?_update? hget hupd]
    split_ifs with hi
    · rw [hi, hget]; rfl
    · rfl
  refine ⟨h.planned, fun i => ?_, fun i b hb => ?_, fun i => ?_, fun i hi => ?_,
    fun s hs i loaded changed log hw hlog hnil => ?_⟩
  · rw [hl]; exact h.linked i
  · rw [hl]
    rw [Alerts.get?_update? hget hupd] at hb
    split_ifs at hb with hi
    · have hstatus : new.status = stored.status := congrArg Prod.snd hslot
      cases hb
      rw [hi, hstatus]
      exact h.current id stored hget
    · exact h.current i b hb
  · rw [hl, hsome]; exact h.statuses i
  · rw [hl]
    refine h.absent i ?_
    rw [← Option.not_isSome_iff_eq_none, ← hsome, hi]
    simp
  · rw [hl] at hnil
    exact h.fresh s hs i loaded changed log hw hlog hnil

theorem Audited.move {st : State} (h : Audited st) {db : AlertDb} {id : ℕ} {stored new : Alert}
    {log : AuditLog} (hlogs : db.auditLogs = st.db.auditLogs ++ [log]) (hid : log.targetId = id)
    (hfrom : log.detailFrom = stored.status) (hto : log.detailTo = new.status)
    (hallowed : new.status ∈ allowedTransitions stored.status)
    (hget : st.db.alerts.get? id = some stored)
    (hupd : st.db.alerts.update? id new = some db.alerts) :
    Audited ⟨db, st.pending, st.statuses ++ [(id, new.status)]⟩ := by
  have hl (i : ℕ) := logsOf_commit st db st.pending (st.statuses ++ [(id, new.status)]) hlogs i
  have hcur : stored.status = endOf .open (st.logsOf id) := h.current id stored hget
  have hself : [log].filter (·.targetId = id) = [log] := by simp [hid]
  have hother {i : ℕ} (hi : i ≠ id) : [log].filter (·.targetId = i) = [] := by
    simp [hid, hi.symm]
  refine ⟨h.planned, fun i => ?_, fun i b hb => ?_, fun i => ?_, fun i hi => ?_,
    fun s hs i loaded changed log' hw hlog hnil => ?_⟩
  · rw [hl]
    by_cases hi : i = id
    · rw [hi, hself, linked_concat, hfrom, hto, ← hcur]
      exact ⟨h.linked id, rfl, hallowed⟩
    · rw [hother hi, List.append_nil]
      exact h.linked i
  · rw [hl]
    rw [Alerts.get?_update? hget hupd] at hb
    split_ifs at hb with hi
    · cases hb
      rw [hi, hself]
      simp only [endOf, List.foldl_append, List.foldl_cons, List.foldl_nil, hto]
    · rw [hother hi, List.append_nil]
      exact h.current i b hb
  · rw [hl, statusesOf_commit, h.statuses i, Alerts.get?_update? hget hupd]
    by_cases hi : i = id
    · rw [hi, hself, hget]
      simp [hto]
    · rw [hother hi]
      simp [hi, Ne.symm hi]
  · rw [Alerts.get?_update? hget hupd] at hi
    split_ifs at hi with hne
    rw [hl, hother hne, List.append_nil]
    exact h.absent i hi
  · rw [hl, List.append_eq_nil_iff] at hnil
    exact h.fresh s hs i loaded changed log' hw hlog hnil.1

theorem audited_commit {st : State} (h : Audited st) (k : ℕ) (hg : CommitsOnRead st (.commit k)) :
    Audited (step st (.commit k)) := by
  cases hk : st.pending[k]? with
  | none => simpa only [step, hk] using h
  | some s =>
    cases hc : commit? st.db s with
    | none => simpa only [step, hk, hc] using h.erase k
    | some db =>
      simp only [step, hk, hc]
      have hp : s.Planned := h.planned s (List.mem_of_getElem? hk)
      obtain ⟨hlogs, ⟨a, hw, hlog, hopen, hins⟩ |
        ⟨id, loaded, changed, stored, hw, hlog, hget, hslot, hupd⟩ |
        ⟨id, loaded, changed, stored, log, hw, hlog, hget, hid, hfrom, hto, hallowed, hkey, hupd⟩⟩ :=
          commit?_cases hp hc
      · rw [hlog, Option.toList_none, List.append_nil] at hlogs
        simpa only [committedStatus, hw] using (h.erase k).insert hlogs hopen hins
      · rw [hlog, Option.toList_none, List.append_nil] at hlogs
        have hmoved := (h.erase k).fold hlogs hget (Alert.patch_slot hslot stored) hupd
        simpa only [committedStatus, hw, hlog, List.append_nil] using hmoved
      · rw [hlog, Option.toList_some] at hlogs
        have hread : stored.status = loaded.status :=
          hg s id loaded changed log stored hk hw hlog hget (by rw [hc]; rfl)
        have hnew : (Alert.patch loaded changed stored).status = changed.status :=
          Alert.patch_status_of_ne (Workflow.allowed_ne hallowed).symm stored
        have hmoved := (h.erase k).move hlogs hid (hfrom.trans hread.symm) (hto.trans hnew.symm)
          (by rw [hnew, hread]; exact hallowed) hget hupd
        simpa only [committedStatus, hw, hlog, hnew] using hmoved

theorem commitsOnRead_of_workflowKept {st : State} (h : Audited st) (act : Act)
    (hnext : WorkflowKept (step st act)) : CommitsOnRead st act := by
  cases act with
  | read pref txn => trivial
  | commit k =>
    intro s id loaded changed log stored hk hw hlog hget hsome
    obtain ⟨db, hc⟩ := Option.isSome_iff_exists.mp hsome
    have hs : s ∈ st.pending := List.mem_of_getElem? hk
    have hcur := h.current id stored hget
    obtain ⟨hlogs, ⟨a, hw', -⟩ | ⟨i, l, c, -, -, hlog', -⟩ |
      ⟨i, l, c, -, log', hw', hlog', -, hid, hfrom, -⟩⟩ := commit?_cases (h.planned s hs) hc
    · rw [hw'] at hw; cases hw
    · rw [hlog'] at hlog; cases hlog
    · rw [hw'] at hw
      rw [hlog'] at hlog
      cases hw
      cases hlog
      rcases List.eq_nil_or_concat (st.logsOf id) with hnil | ⟨ls, last, hlast⟩
      · rw [hcur, hnil, h.fresh s hs id loaded changed log hw' hlog' hnil]
        rfl
      · have hchain := (hnext id).2
        rw [List.concat_eq_append] at hlast
        simp only [step, hk, hc] at hchain
        rw [hlog', Option.toList_some] at hlogs
        rw [logsOf_commit st db _ _ hlogs, hlast, List.append_assoc,
          show [log].filter (·.targetId = id) = [log] by simp [hid]] at hchain
        have hstep : log.detailFrom = last.detailTo :=
          (List.isChain_append_cons_cons.mp hchain).2.1
        rw [hcur, hlast, ← hfrom, hstep]
        simp only [endOf, List.foldl_append, List.foldl_cons, List.foldl_nil]

def initial : State := { db := AlertDb.empty }

theorem audited_initial : Audited initial := by
  have hget (id : ℕ) : initial.db.alerts.get? id = none := rfl
  refine ⟨fun s hs => ?_, fun id => trivial, fun id a ha => ?_, fun id => rfl, fun id _ => rfl,
    fun s hs => ?_⟩
  · cases hs
  · rw [hget] at ha; cases ha
  · cases hs

/-- Along every interleaving of reads and commits, the committed statuses of every alert
form a path of allowed transitions and its audit rows a chain, exactly when every status
request that commits finds the status it had read still stored. -/
theorem workflow_kept_iff (acts : List Act) :
    Run.Holds step WorkflowKept initial acts ↔ Run.Guarded step CommitsOnRead initial acts := by
  refine Run.holds_iff_guarded (I := Audited) (fun _ h => h.workflowKept) (fun st act h hg => ?_)
    (fun _ act h hnext => commitsOnRead_of_workflowKept h act hnext) audited_initial acts
  cases act with
  | read pref txn => exact audited_read h pref txn
  | commit k => exact audited_commit h k hg

/-- Two analysts close and acknowledge the same open alert: both moves are validated
against `open`, and the second to commit takes a resolved alert to acknowledged. -/
theorem resolved_then_acknowledged :
    let acts : List Act :=
      [.read 0 (.worker ⟨0, Workflow.bruteForce, [], by simp⟩), .commit 0,
        .read 0 (.triage 1 { alertId := 0, newStatus := .resolved }),
        .read 0 (.triage 2 { alertId := 0, newStatus := .acknowledged }), .commit 0, .commit 0]
    ¬ Run.Holds step WorkflowKept initial acts := by
  intro acts h
  have hlast : (State.statusesOf (Run.exec step initial acts) 0).IsChain
      (fun s s' => s' ∈ allowedTransitions s) := (h.last 0).1
  have hstatuses : State.statusesOf (Run.exec step initial acts) 0 =
      [.open, .resolved, .acknowledged] := by decide +kernel
  rw [hstatuses] at hlast
  exact absurd hlast (by decide)

end SiemEngine.Sessions

import Mathlib.Data.List.Perm.Basic
import SiemEngine.Services.Sessions

/-!
# Serial orders of concurrent sessions

`alone` is a transaction that reads and commits with nothing in between, and a serial
order a list of transactions run alone, each with the row the database prefers. A fold
that only changes attributes no status request reads can be moved back to the place of
its read, past everything that does not fold the same row; every other session has to
find at its commit what it had read.
-/

namespace SiemEngine.Sessions

def alone (db : AlertDb) (x : ℕ × Txn) : AlertDb :=
  match x.2.read db.alerts x.1 with
  | none => db
  | some s => (commit? db s).getD db

def modify (db : AlertDb) (id : ℕ) (h : Alert → Alert) (hslot : ∀ a, (h a).slot = a.slot) :
    AlertDb :=
  { db with alerts := db.alerts.modify id h hslot }

def WorkerTxn.folded (w : WorkerTxn) (loaded : Alert) : Alert → Alert :=
  Alert.patch loaded (foldAll w.clock loaded (w.first :: w.rest))

theorem WorkerTxn.folded_slot (w : WorkerTxn) (loaded stored : Alert) :
    (w.folded loaded stored).slot = stored.slot :=
  Alert.patch_slot (foldAll_slot w.clock loaded _) stored

theorem WorkerTxn.folded_self (w : WorkerTxn) (loaded : Alert) :
    w.folded loaded loaded = foldAll w.clock loaded (w.first :: w.rest) :=
  Alert.patch_self loaded _

theorem alone_insert {db : AlertDb} {pref : ℕ} {w : WorkerTxn}
    (hopen : db.alerts.getOpenByKey pref w.first.key = none) :
    ∃ u, db.alerts.insert? (WorkerTxn.foldAll w.clock
        (Alert.ofDetection (w.first.triggeredAt.getD w.clock) w.first) w.rest) = some u ∧
      alone db (pref, .worker w) = { db with alerts := u } := by
  obtain ⟨u, hu⟩ : ∃ u, db.alerts.insert? (WorkerTxn.foldAll w.clock
      (Alert.ofDetection (w.first.triggeredAt.getD w.clock) w.first) w.rest) = some u := by
    rw [← Option.ne_none_iff_exists', Ne, Alerts.insert?_eq_none_iff]
    intro h
    obtain ⟨j, b, hj, hs⟩ := h
    rw [WorkerTxn.foldAll_slot, Alert.ofDetection_slot] at hs
    have hb : b.status = .open := congrArg Prod.snd hs
    exact Alerts.getOpenByKey_eq_none.mp hopen j
      (Alerts.openAt_iff.mpr ⟨b, hj, congrArg Prod.fst hs, by rw [hb]; rfl⟩)
  refine ⟨u, hu, ?_⟩
  simp only [alone, Txn.read, WorkerTxn.plan, hopen, commit?, Alerts.write?, hu, Option.map_some,
    Option.getD_some, Option.toList_none, List.append_nil]

theorem alone_fold {db : AlertDb} {pref id : ℕ} {w : WorkerTxn} {a : Alert}
    (hopen : db.alerts.getOpenByKey pref w.first.key = some (id, a)) :
    alone db (pref, .worker w) = modify db id (w.folded a) (w.folded_slot a) := by
  have ha := (Alerts.getOpenByKey_eq_some hopen).1
  have hupd := Alerts.update?_eq_modify (w.folded_slot a) ha
  rw [w.folded_self] at hupd
  simp only [alone, Txn.read, WorkerTxn.plan, hopen, commit?, Alerts.write?, ha, Option.bind_some,
    Alert.patch_self, hupd, Option.map_some, Option.getD_some, Option.toList_none,
    List.append_nil]
  rfl

theorem alone_triage (db : AlertDb) (pref : ℕ) (now : Time) (r : StatusRequest) :
    alone db (pref, .triage now r) = Workflow.step db (.updateStatus now r) := by
  cases hplan : r.plan db.alerts now with
  | notFound | unchanged a | raised e =>
    simp only [alone, Txn.read, hplan, Workflow.step, AlertDb.updateAlertStatus,
      AlertDb.commitTriage]
  | change id loaded changed log =>
    simp only [alone, Txn.read, hplan, Workflow.step, AlertDb.updateAlertStatus,
      AlertDb.commitTriage, commit?]
    cases db.alerts.write? (.update id loaded changed) <;> rfl

def Folds (db : AlertDb) (id : ℕ) (x : ℕ × Txn) : Prop :=
  ∃ w a, x.2 = .worker w ∧ db.alerts.getOpenByKey x.1 w.first.key = some (id, a)

theorem folds_worker_iff {db : AlertDb} {id pref : ℕ} {w : WorkerTxn} :
    Folds db id (pref, .worker w) ↔
      ∃ a, db.alerts.getOpenByKey pref w.first.key = some (id, a) := by
  constructor
  · intro h
    obtain ⟨w', a, hw, ha⟩ := h
    cases hw
    exact ⟨a, ha⟩
  · intro h
    obtain ⟨a, ha⟩ := h
    exact ⟨w, a, rfl, ha⟩

theorem not_folds_triage {db : AlertDb} {id pref : ℕ} {now : Time} {r : StatusRequest} :
    ¬ Folds db id (pref, .triage now r) := by
  intro h
  obtain ⟨w, a, hw, -⟩ := h
  cases hw

theorem eventCount_worker {db : AlertDb} {id : ℕ} {a : Alert}
    (ha : db.alerts.get? id = some a) (pref : ℕ) (w : WorkerTxn) :
    ∃ b, (alone db (pref, .worker w)).alerts.get? id = some b ∧ a.eventCount ≤ b.eventCount ∧
      (Folds db id (pref, .worker w) → a.eventCount < b.eventCount) := by
  rw [folds_worker_iff]
  cases hopen : db.alerts.getOpenByKey pref w.first.key with
  | none =>
    obtain ⟨u, hu, halone⟩ := alone_insert hopen
    have hid : id < db.alerts.rows.length := (List.getElem?_eq_some_iff.mp ha).1
    refine ⟨a, ?_, le_rfl, fun h => ?_⟩
    · rw [halone, Alerts.get?_insert? hu, if_neg hid.ne, ha]
    · obtain ⟨b, hb⟩ := h
      cases hb
  | some jb =>
    obtain ⟨j, b⟩ := jb
    have hb := (Alerts.getOpenByKey_eq_some hopen).1
    rw [alone_fold hopen]
    by_cases hj : id = j
    · subst hj
      cases ha.symm.trans hb
      have hlt : a.eventCount < (w.folded a a).eventCount := by
        rw [w.folded_self]
        exact WorkerTxn.eventCount_lt_foldAll _ a _ _
      exact ⟨w.folded a a, by rw [modify, Alerts.get?_modify, if_pos rfl, ha]; rfl, hlt.le,
        fun _ => hlt⟩
    · refine ⟨a, by rw [modify, Alerts.get?_modify, if_neg hj, ha], le_rfl, fun h => ?_⟩
      obtain ⟨c, hc⟩ := h
      cases hc
      exact absurd rfl hj

theorem eventCount_triage {db : AlertDb} {id : ℕ} {a : Alert}
    (ha : db.alerts.get? id = some a) (pref : ℕ) (now : Time) (r : StatusRequest) :
    ∃ b, (alone db (pref, .triage now r)).alerts.get? id = some b ∧
      a.eventCount ≤ b.eventCount := by
  rw [alone_triage]
  rcases Workflow.step_updateStatus_cases db now r with heq |
    ⟨b, history, u, hb, -, -, hu, heq⟩
  · exact ⟨a, by rw [heq, ha], le_rfl⟩
  · rw [heq]
    by_cases hid : id = r.alertId
    · subst hid
      cases ha.symm.trans hb
      exact ⟨a.moved history r.newStatus now r.actor,
        by rw [Alerts.get?_update? ha hu, if_pos rfl], le_rfl⟩
    · exact ⟨a, by rw [Alerts.get?_update? hb hu, if_neg hid, ha], le_rfl⟩

theorem eventCount_alone {db : AlertDb} {id : ℕ} {a : Alert} (ha : db.alerts.get? id = some a)
    (x : ℕ × Txn) : ∃ b, (alone db x).alerts.get? id = some b ∧ a.eventCount ≤ b.eventCount ∧
      (Folds db id x → a.eventCount < b.eventCount) := by
  obtain ⟨pref, w | ⟨now, r⟩⟩ := x
  · exact eventCount_worker ha pref w
  · obtain ⟨b, hb, hle⟩ := eventCount_triage ha pref now r
    exact ⟨b, hb, hle, fun h => absurd h not_folds_triage⟩

theorem not_folded_of_eventCount (order : List (ℕ × Txn)) {id : ℕ} {db : AlertDb} {a : Alert}
    (ha : db.alerts.get? id = some a) :
    ∃ b, (Run.exec alone db order).alerts.get? id = some b ∧ a.eventCount ≤ b.eventCount ∧
      (b.eventCount = a.eventCount → Run.Guarded alone (fun db x => ¬ Folds db id x) db order) := by
  induction order generalizing db a with
  | nil => exact ⟨a, ha, le_rfl, fun _ => trivial⟩
  | cons x order ih =>
    obtain ⟨b, hb, hle, hlt⟩ := eventCount_alone ha x
    obtain ⟨c, hc, hle', hguard⟩ := ih hb
    refine ⟨c, hc, hle.trans hle', fun heq => ⟨fun hf => ?_, hguard (by omega)⟩⟩
    have hstrict := hlt hf
    omega

structure Inert (h : Alert → Alert) : Prop where
  slot : ∀ a, (h a).slot = a.slot
  metadata : ∀ a, (h a).alertMetadata = a.alertMetadata
  moved : ∀ a status metadata, h { a with status := status, alertMetadata := metadata } =
    { h a with status := status, alertMetadata := metadata }

theorem inert_patch {loaded changed : Alert} (hslot : changed.slot = loaded.slot)
    (hmeta : changed.alertMetadata = loaded.alertMetadata) :
    Inert (Alert.patch loaded changed) where
  slot := Alert.patch_slot hslot
  metadata a := by simp only [Alert.patch, Alert.flushed, hmeta, ↓reduceIte]
  moved a status metadata := by
    have hs : changed.status = loaded.status := congrArg Prod.snd hslot
    simp only [Alert.patch, Alert.flushed, hmeta, hs, ↓reduceIte]

theorem Inert.id : Inert (fun a => a) := ⟨fun _ => rfl, fun _ => rfl, fun _ _ _ => rfl⟩

theorem Inert.status {h : Alert → Alert} (hh : Inert h) (a : Alert) : (h a).status = a.status :=
  congrArg Prod.snd (hh.slot a)

theorem Inert.statusHistory {h : Alert → Alert} (hh : Inert h) (a : Alert) :
    (h a).statusHistory = a.statusHistory := by
  simp only [Alert.statusHistory, hh.metadata]

theorem Inert.moved_comm {h : Alert → Alert} (hh : Inert h) (a : Alert) (history : List Json)
    (new : AlertStatus) (now : Time) (actor : String) :
    (h a).moved history new now actor = h (a.moved history new now actor) := by
  rw [Alert.moved, hh.metadata, hh.status]
  exact (hh.moved a _ _).symm

theorem openAt_modify (t : Alerts) {id : ℕ} {h : Alert → Alert}
    {hslot : ∀ a, (h a).slot = a.slot} (key : String × String) (j : ℕ) :
    (t.modify id h hslot).openAt key j = t.openAt key j := by
  have hmap (o : Option Alert) : (o.any fun a => a.key = key && a.status.isActive) =
      (o.map Alert.slot).any fun s => s.1 = key && s.2.isActive := by
    cases o <;> rfl
  simp only [Alerts.openAt, hmap, Alerts.map_slot_get?_modify]

theorem getOpenByKey_modify (t : Alerts) (id : ℕ) {h : Alert → Alert}
    (hslot : ∀ a, (h a).slot = a.slot) (pref : ℕ) (key : String × String) :
    (t.modify id h hslot).getOpenByKey pref key =
      (t.getOpenByKey pref key).map fun ja => (ja.1, if ja.1 = id then h ja.2 else ja.2) := by
  have hlen : (t.modify id h hslot).rows.length = t.rows.length := List.length_modify ..
  have hopen : (t.modify id h hslot).openAt key = t.openAt key :=
    funext fun j => openAt_modify t key j
  simp only [Alerts.getOpenByKey, hopen, hlen, Option.map_bind]
  congr 1
  funext j
  rw [Function.comp_apply, Alerts.get?_modify]
  by_cases hj : j = id
  · cases hg : t.get? j <;> simp [hj]
  · cases hg : t.get? j <;> simp [hj]

section

variable {db : AlertDb} {id : ℕ} {h : Alert → Alert}

theorem updateStatus_modify (hh : Inert h) (now : Time) (r : StatusRequest) :
    Workflow.step (modify db id h hh.slot) (.updateStatus now r) =
      modify (Workflow.step db (.updateStatus now r)) id h hh.slot := by
  cases ha : db.alerts.get? r.alertId with
  | none =>
    have ha' : (db.alerts.modify id h hh.slot).get? r.alertId = none := by
      rw [Alerts.get?_modify, ha]
      split_ifs <;> rfl
    simp only [Workflow.step, AlertDb.updateAlertStatus, StatusRequest.plan, modify, ha, ha',
      AlertDb.commitTriage]
  | some a =>
    -- on row `id` the request sees the changed row, elsewhere the same one
    obtain ⟨g, hg, hget, hupd⟩ : ∃ g, Inert g ∧
        (db.alerts.modify id h hh.slot).get? r.alertId = some (g a) ∧
        ∀ b, (db.alerts.modify id h hh.slot).update? r.alertId (g b) =
          (db.alerts.update? r.alertId b).map fun u => u.modify id h hh.slot := by
      by_cases hid : r.alertId = id
      · subst hid
        exact ⟨h, hh, by rw [Alerts.get?_modify, if_pos rfl, ha]; rfl,
          Alerts.update?_modify_self ha⟩
      · exact ⟨_, Inert.id, by rw [Alerts.get?_modify, if_neg hid, ha],
          Alerts.update?_modify_of_ne ha hid⟩
    by_cases hsame : a.status = r.newStatus
    · simp only [Workflow.step, AlertDb.updateAlertStatus, StatusRequest.plan, modify, ha, hget,
        hg.status, if_pos hsame, AlertDb.commitTriage]
    by_cases hallowed : r.newStatus ∈ allowedTransitions a.status
    · cases hhistory : a.statusHistory with
      | none =>
        simp only [Workflow.step, AlertDb.updateAlertStatus, StatusRequest.plan, modify, ha, hget,
          hg.status, hg.statusHistory, if_neg hsame, hallowed, not_true_eq_false, ↓reduceIte,
          hhistory, AlertDb.commitTriage]
      | some history =>
        have h₁ := Workflow.updateAlertStatus_of_allowed now ha hallowed hhistory
        have hget' : (modify db id h hh.slot).alerts.get? r.alertId = some (g a) := hget
        have h₂ := Workflow.updateAlertStatus_of_allowed now hget'
          (by rw [hg.status]; exact hallowed) (by rw [hg.statusHistory]; exact hhistory)
        rw [hg.moved_comm, hg.status, show (modify db id h hh.slot).alerts.update? _ _ = _ from
          hupd _] at h₂
        simp only [Workflow.step, h₁, h₂]
        cases db.alerts.update? r.alertId (a.moved history r.newStatus now r.actor) <;> rfl
    · simp only [Workflow.step, AlertDb.updateAlertStatus, StatusRequest.plan, modify, ha, hget,
        hg.status, if_neg hsame, hallowed, not_false_eq_true, ↓reduceIte, AlertDb.commitTriage]

/-- An inert change of a row can be made before or after a transaction that does not fold
the row. -/
theorem alone_modify (hh : Inert h) (hid : id < db.alerts.rows.length) {x : ℕ × Txn}
    (hx : ¬ Folds db id x) :
    alone (modify db id h hh.slot) x = modify (alone db x) id h hh.slot := by
  obtain ⟨pref, w | ⟨now, r⟩⟩ := x
  · have hread : (modify db id h hh.slot).alerts.getOpenByKey pref w.first.key = _ :=
      getOpenByKey_modify db.alerts id hh.slot pref w.first.key
    cases hopen : db.alerts.getOpenByKey pref w.first.key with
    | none =>
      rw [hopen] at hread
      obtain ⟨u, hu, halone⟩ := alone_insert hopen
      obtain ⟨v, hv, halone'⟩ := alone_insert hread
      rw [modify, Alerts.insert?_modify hid, hu, Option.map_some, Option.some.injEq] at hv
      rw [halone, halone', ← hv]
      rfl
    | some jb =>
      obtain ⟨j, b⟩ := jb
      have hj : j ≠ id := fun hj => hx (folds_worker_iff.mpr ⟨b, by rw [← hj]; exact hopen⟩)
      rw [hopen, Option.map_some, if_neg hj] at hread
      rw [alone_fold hopen, alone_fold hread]
      simp only [modify, AlertDb.mk.injEq, and_true]
      apply Alerts.ext_get?
      intro i
      simp only [Alerts.get?_modify]
      split_ifs with hi hi' <;> first | rfl | omega
  · rw [alone_triage, alone_triage]
    exact updateStatus_modify hh now r

theorem length_alone_le (db : AlertDb) (x : ℕ × Txn) (hid : id < db.alerts.rows.length) :
    id < (alone db x).alerts.rows.length := by
  obtain ⟨b, hb, -⟩ := eventCount_alone (List.getElem?_eq_getElem hid) x
  exact (List.getElem?_eq_some_iff.mp hb).1

theorem exec_alone_modify (hh : Inert h) (hid : id < db.alerts.rows.length)
    {order : List (ℕ × Txn)} (hx : Run.Guarded alone (fun db x => ¬ Folds db id x) db order) :
    Run.exec alone (modify db id h hh.slot) order =
      modify (Run.exec alone db order) id h hh.slot := by
  induction order generalizing db with
  | nil => rfl
  | cons x order ih =>
    rw [Run.exec_cons, Run.exec_cons, alone_modify hh hid hx.1]
    exact ih (length_alone_le db x hid) hx.2

end

/-- A session whose commit can be moved to a serial place: a new alert finds its key still
without an active one; a fold finds the row it had read, or one with the same event count
while it leaves the metadata alone; a status change that commits finds the status and the
metadata it had read. -/
def Undisturbed (st : State) : Act → Prop
  | .read _ _ => True
  | .commit k => ∀ s, st.pending[k]? = some s →
    match s.write, s.log with
    | .insert a, _ => ∀ id, ¬ st.db.alerts.openAt a.key id
    | .update id loaded changed, none => ∀ stored, st.db.alerts.get? id = some stored →
      stored = loaded ∨
        (stored.eventCount = loaded.eventCount ∧ changed.alertMetadata = loaded.alertMetadata)
    | .update id loaded changed, some _ => ∀ stored, st.db.alerts.get? id = some stored →
      ¬ st.db.alerts.Taken id (stored.key, changed.status) →
      stored.status = loaded.status ∧ stored.alertMetadata = loaded.alertMetadata

/-- A fold of row `id` that read `loaded` has a place in the order, unless the event count
of the row has moved since. -/
def Placed (db₀ : AlertDb) (order : List (ℕ × Txn)) (id : ℕ) (loaded : Alert) : Prop :=
  ∃ stored, (Run.exec alone db₀ order).alerts.get? id = some stored ∧
    loaded.eventCount ≤ stored.eventCount ∧
    (stored.eventCount = loaded.eventCount →
      ∃ pre, pre <+: order ∧ (Run.exec alone db₀ pre).alerts.get? id = some loaded)

structure Serialized (db₀ : AlertDb) (st : State) (order : List (ℕ × Txn)) : Prop where
  db : Run.exec alone db₀ order = st.db
  planned : ∀ s ∈ st.pending, s.Planned
  folds : ∀ s ∈ st.pending, s.log = none → ∀ id loaded changed,
    s.write = .update id loaded changed → Placed db₀ order id loaded

def Act.submitted : Act → List Txn
  | .read _ txn => [txn]
  | .commit _ => []

def Covers (st : State) (order : List (ℕ × Txn)) (done : List Txn) : Prop :=
  (order.map Prod.snd ++ st.pending.map Session.txn).Perm done

theorem Placed.append {db₀ : AlertDb} {order : List (ℕ × Txn)} {id : ℕ} {loaded : Alert}
    (h : Placed db₀ order id loaded) (x : ℕ × Txn) : Placed db₀ (order ++ [x]) id loaded := by
  obtain ⟨stored, hget, hle, hplace⟩ := h
  obtain ⟨b, hb, hle', -⟩ := eventCount_alone hget x
  refine ⟨b, by rw [Run.exec_append]; exact hb, hle.trans hle', fun heq => ?_⟩
  obtain ⟨pre, hpre, hloaded⟩ := hplace (by omega)
  exact ⟨pre, hpre.trans (List.prefix_append order [x]), hloaded⟩

theorem exec_insert_fold {db₀ : AlertDb} {o₁ o₂ : List (ℕ × Txn)} {id : ℕ} {w : WorkerTxn}
    {loaded stored : Alert} (hloaded : (Run.exec alone db₀ o₁).alerts.get? id = some loaded)
    (hkey : loaded.key = w.first.key) (hact : loaded.status.isActive)
    (hinert : Inert (w.folded loaded))
    (hstored : (Run.exec alone db₀ (o₁ ++ o₂)).alerts.get? id = some stored)
    (hcount : stored.eventCount = loaded.eventCount) {q : List (ℕ × Txn)} (hq : q <+: o₂) :
    Run.exec alone db₀ (o₁ ++ (id, .worker w) :: q) =
      modify (Run.exec alone db₀ (o₁ ++ q)) id (w.folded loaded) hinert.slot := by
  have hid : id < (Run.exec alone db₀ o₁).alerts.rows.length :=
    (List.getElem?_eq_some_iff.mp hloaded).1
  obtain ⟨r, rfl⟩ := hq
  have hguard : Run.Guarded alone (fun db x => ¬ Folds db id x) (Run.exec alone db₀ o₁) q := by
    obtain ⟨b, hb, hle, hg⟩ := not_folded_of_eventCount q hloaded
    obtain ⟨c, hc, hle', -⟩ := not_folded_of_eventCount r hb
    rw [Run.exec_append, Run.exec_append, hc] at hstored
    cases hstored
    exact hg (by omega)
  rw [Run.exec_append, Run.exec_cons,
    alone_fold (Alerts.getOpenByKey_of_openAt hloaded hkey hact), Run.exec_append]
  exact exec_alone_modify hinert hid hguard

theorem Placed.insert {db₀ : AlertDb} {o₁ o₂ : List (ℕ × Txn)} {id : ℕ} {w : WorkerTxn}
    {loaded stored : Alert} (hloaded : (Run.exec alone db₀ o₁).alerts.get? id = some loaded)
    (hkey : loaded.key = w.first.key) (hact : loaded.status.isActive)
    (hinert : Inert (w.folded loaded))
    (hstored : (Run.exec alone db₀ (o₁ ++ o₂)).alerts.get? id = some stored)
    (hcount : stored.eventCount = loaded.eventCount) {j : ℕ} {other : Alert}
    (h : Placed db₀ (o₁ ++ o₂) j other) :
    Placed db₀ (o₁ ++ (id, .worker w) :: o₂) j other := by
  have hexec {q : List (ℕ × Txn)} (hq : q <+: o₂) :=
    exec_insert_fold hloaded hkey hact hinert hstored hcount hq
  obtain ⟨b, hb, hle, hplace⟩ := h
  by_cases hj : j = id
  · subst hj
    cases hb.symm.trans hstored
    have hlt : stored.eventCount < (w.folded loaded stored).eventCount := by
      have hraised := WorkerTxn.eventCount_lt_foldAll w.clock loaded w.first w.rest
      simp only [WorkerTxn.folded, Alert.patch, Alert.flushed, if_neg hraised.ne']
      omega
    refine ⟨w.folded loaded stored, ?_, by omega, fun heq => absurd heq (by omega)⟩
    rw [hexec (List.prefix_refl o₂), modify, Alerts.get?_modify, if_pos rfl, hstored]
    rfl
  · refine ⟨b, ?_, hle, fun heq => ?_⟩
    · rw [hexec (List.prefix_refl o₂), modify, Alerts.get?_modify, if_neg hj, hb]
    · obtain ⟨pre, hpre, hother⟩ := hplace heq
      rcases List.prefix_or_prefix_of_prefix hpre (List.prefix_append o₁ o₂) with hpre | ⟨q, rfl⟩
      · exact ⟨pre, hpre.trans (List.prefix_append o₁ _), hother⟩
      · have hq : q <+: o₂ := (List.prefix_append_right_inj o₁).mp hpre
        refine ⟨o₁ ++ (id, .worker w) :: q, ?_, ?_⟩
        · exact (List.prefix_append_right_inj o₁).mpr (List.cons_prefix_cons.mpr ⟨rfl, hq⟩)
        · rw [hexec hq, modify, Alerts.get?_modify, if_neg hj, hother]

theorem Covers.append {st st' : State} {order : List (ℕ × Txn)} {done : List Txn}
    (h : Covers st order done) {k : ℕ} {s : Session} (hk : st.pending[k]? = some s)
    (hpending : st'.pending = st.pending.eraseIdx k) {o₁ o₂ : List (ℕ × Txn)}
    (horder : order = o₁ ++ o₂) {x : ℕ × Txn} (hx : x.2 = s.txn) :
    Covers st' (o₁ ++ x :: o₂) done := by
  obtain ⟨hlt, rfl⟩ := List.getElem?_eq_some_iff.mp hk
  refine List.Perm.trans ?_ h
  rw [hpending, horder, List.map_append, List.map_cons, hx, List.map_append, List.append_assoc,
    List.append_assoc]
  refine List.Perm.append_left _ ?_
  have hmid := (List.getElem_cons_eraseIdx_perm hlt).map Session.txn
  exact List.perm_middle.symm.trans (List.Perm.append_left (o₂.map Prod.snd) hmid)

theorem Serialized.append {db₀ : AlertDb} {st st' : State} {order : List (ℕ × Txn)}
    (h : Serialized db₀ st order) {k : ℕ} {x : ℕ × Txn}
    (hpending : st'.pending = st.pending.eraseIdx k) (hdb : st'.db = alone st.db x) :
    Serialized db₀ st' (order ++ [x]) where
  db := by rw [Run.exec_append, h.db, hdb]; rfl
  planned s hs := h.planned s (List.mem_of_mem_eraseIdx (hpending ▸ hs))
  folds s hs hlog id loaded changed hw :=
    (h.folds s (List.mem_of_mem_eraseIdx (hpending ▸ hs)) hlog id loaded changed hw).append x

theorem pending_commit {st : State} {k : ℕ} {s : Session} (hk : st.pending[k]? = some s) :
    (step st (.commit k)).pending = st.pending.eraseIdx k := by
  simp only [step, hk]
  cases commit? st.db s <;> rfl

theorem db_commit {st : State} {k : ℕ} {s : Session} (hk : st.pending[k]? = some s) :
    (step st (.commit k)).db = (commit? st.db s).getD st.db := by
  simp only [step, hk]
  cases commit? st.db s <;> rfl

theorem commit_insert {db : AlertDb} {w : WorkerTxn} {s : Session} (hlog : s.log = none)
    (hw : s.write = .insert (WorkerTxn.foldAll w.clock
      (Alert.ofDetection (w.first.triggeredAt.getD w.clock) w.first) w.rest))
    (hfree : ∀ id, ¬ db.alerts.openAt w.first.key id) :
    (commit? db s).getD db = alone db (0, .worker w) := by
  have hnone : db.alerts.getOpenByKey 0 w.first.key = none :=
    Alerts.getOpenByKey_eq_none.mpr hfree
  obtain ⟨u, hu, halone⟩ := alone_insert hnone
  rw [halone]
  simp only [commit?, hw, Alerts.write?, hu, hlog, Option.map_some, Option.getD_some,
    Option.toList_none, List.append_nil]

theorem commit_fold {db : AlertDb} {w : WorkerTxn} {s : Session} {id : ℕ} {loaded stored : Alert}
    (hlog : s.log = none)
    (hw : s.write = .update id loaded (WorkerTxn.foldAll w.clock loaded (w.first :: w.rest)))
    (hget : db.alerts.get? id = some stored) :
    (commit? db s).getD db = modify db id (w.folded loaded) (w.folded_slot loaded) := by
  have hupd : db.alerts.update? id (Alert.patch loaded
      (WorkerTxn.foldAll w.clock loaded (w.first :: w.rest)) stored) = _ :=
    Alerts.update?_eq_modify (w.folded_slot loaded) hget
  simp only [commit?, hw, Alerts.write?, hget, Option.bind_some, hupd, hlog, Option.map_some,
    Option.getD_some, Option.toList_none, List.append_nil]
  rfl

theorem commit_move {db : AlertDb} {now : Time} {r : StatusRequest} {s : Session} {loaded : Alert}
    {history : List Json} (hlog : s.log = some (r.auditLog loaded.status))
    (hallowed : r.newStatus ∈ allowedTransitions loaded.status)
    (hhistory : loaded.statusHistory = some history)
    (hw : s.write = .update r.alertId loaded (loaded.moved history r.newStatus now r.actor))
    (hread : ∀ stored, db.alerts.get? r.alertId = some stored →
      ¬ db.alerts.Taken r.alertId (stored.key, r.newStatus) →
      stored.status = loaded.status ∧ stored.alertMetadata = loaded.alertMetadata) :
    (commit? db s).getD db = alone db (0, .triage now r) := by
  rw [alone_triage]
  cases hget : db.alerts.get? r.alertId with
  | none =>
    simp only [commit?, hw, Alerts.write?, hget, Option.bind_none, Option.map_none,
      Option.getD_none, Workflow.step, AlertDb.updateAlertStatus, StatusRequest.plan,
      AlertDb.commitTriage]
  | some stored =>
    have hstatus : (Alert.patch loaded (loaded.moved history r.newStatus now r.actor)
        stored).status = r.newStatus :=
      Alert.patch_status_of_ne (Workflow.allowed_ne hallowed).symm stored
    by_cases htaken : db.alerts.Taken r.alertId (stored.key, r.newStatus)
    · have hnone : db.alerts.update? r.alertId (Alert.patch loaded
          (loaded.moved history r.newStatus now r.actor) stored) = none := by
        rw [Alerts.update?_eq_none_iff, Alert.slot, hstatus, Alert.patch_key (by rfl)]
        exact htaken
      have hkept : Workflow.step db (.updateStatus now r) = db := by
        rcases Workflow.step_updateStatus_cases db now r with heq |
          ⟨a, hist, u, ha, -, -, hu, -⟩
        · exact heq
        · cases hget.symm.trans ha
          rw [Alerts.update?_eq_none_iff.mpr htaken] at hu
          cases hu
      simp only [commit?, hw, Alerts.write?, hget, Option.bind_some, hnone, Option.map_none,
        Option.getD_none, hkept]
    · obtain ⟨hs, hm⟩ := hread stored hget htaken
      have hmoved : Alert.patch loaded (loaded.moved history r.newStatus now r.actor) stored =
          stored.moved history r.newStatus now r.actor := by
        have hne : r.newStatus ≠ loaded.status := (Workflow.allowed_ne hallowed).symm
        simp only [Alert.patch, Alert.moved, Alert.flushed_same, Alert.flushed_of_ne hne, hs, hm,
          Alert.flushed_self]
      have hupd := Workflow.updateAlertStatus_of_allowed now hget (hs.symm ▸ hallowed)
        (show stored.statusHistory = some history by rw [Alert.statusHistory, hm]; exact hhistory)
      simp only [commit?, hw, Alerts.write?, hget, Option.bind_some, hmoved, Workflow.step, hupd,
        hlog, hs]
      cases db.alerts.update? r.alertId (stored.moved history r.newStatus now r.actor) <;> rfl

theorem serialized_read {db₀ : AlertDb} {st : State} {order : List (ℕ × Txn)} {done : List Txn}
    (h : Serialized db₀ st order) (hc : Covers st order done) (pref : ℕ) (txn : Txn) :
    ∃ order', Serialized db₀ (step st (.read pref txn)) order' ∧
      Covers (step st (.read pref txn)) order' (done ++ [txn]) := by
  cases hread : txn.read st.db.alerts pref with
  | none =>
    -- answered without writing: alone it has no effect at this place either
    have hpending : (step st (.read pref txn)).pending = st.pending := by simp [step, hread]
    have hdb : alone st.db (pref, txn) = st.db := by simp only [alone, hread]
    refine ⟨order ++ [(pref, txn)], ⟨?_, fun s hs => h.planned s (hpending ▸ hs),
      fun s hs hlog id loaded changed hw => ?_⟩, ?_⟩
    · rw [Run.exec_append, h.db]
      exact hdb
    · exact (h.folds s (hpending ▸ hs) hlog id loaded changed hw).append (pref, txn)
    · rw [Covers, hpending, List.map_append, List.append_assoc]
      refine (List.Perm.append_left _ List.perm_append_comm).trans ?_
      rw [← List.append_assoc]
      exact List.Perm.append_right _ hc
  | some s =>
    have hpending : (step st (.read pref txn)).pending = st.pending ++ [s] := by
      simp [step, hread]
    have htxn : s.txn = txn := (read_cases hread).1
    refine ⟨order, ⟨h.db, fun s' hs => ?_, fun s' hs hlog id loaded changed hw => ?_⟩, ?_⟩
    · rw [hpending, List.mem_append, List.mem_singleton] at hs
      rcases hs with hs | rfl
      · exact h.planned s' hs
      · exact ⟨st.db.alerts, pref, by rw [htxn]; exact hread⟩
    · rw [hpending, List.mem_append, List.mem_singleton] at hs
      rcases hs with hs | rfl
      · exact h.folds s' hs hlog id loaded changed hw
      · obtain ⟨-, ⟨w, -, -, -, hw'⟩ | ⟨w, i, a, -, -, hget, -, -, hw'⟩ |
          ⟨now, r, a, history, -, hlog', -⟩⟩ := read_cases hread
        · rw [hw'] at hw; cases hw
        · rw [hw'] at hw
          cases hw
          rw [← h.db] at hget
          exact ⟨loaded, hget, le_rfl, fun _ => ⟨order, List.prefix_refl order, hget⟩⟩
        · rw [hlog'] at hlog; cases hlog
    · rw [Covers, hpending, List.map_append, ← List.append_assoc, List.map_singleton, htxn]
      exact List.Perm.append_right _ hc

theorem serialized_commit {db₀ : AlertDb} {st : State} {order : List (ℕ × Txn)} {done : List Txn}
    (h : Serialized db₀ st order) (hc : Covers st order done) (k : ℕ)
    (hg : Undisturbed st (.commit k)) :
    ∃ order', Serialized db₀ (step st (.commit k)) order' ∧
      Covers (step st (.commit k)) order' done := by
  cases hk : st.pending[k]? with
  | none =>
    have hsame : step st (.commit k) = st := by simp only [step, hk]
    exact ⟨order, by rwa [hsame], by rwa [hsame]⟩
  | some s =>
    have hpending := pending_commit hk
    have hmem : s ∈ st.pending := List.mem_of_getElem? hk
    have hguard := hg s hk
    -- at the end of the order when the transaction would do the same now
    have hlast (x : ℕ × Txn) (hx : x.2 = s.txn)
        (hdb : (commit? st.db s).getD st.db = alone st.db x) :
        ∃ order', Serialized db₀ (step st (.commit k)) order' ∧
          Covers (step st (.commit k)) order' done :=
      ⟨order ++ [x], h.append hpending ((db_commit hk).trans hdb),
        hc.append hk hpending (List.append_nil order).symm hx⟩
    obtain ⟨t, pref, hread⟩ := h.planned s hmem
    obtain ⟨-, ⟨w, htxn, hlog, -, hw⟩ | ⟨w, id, loaded, htxn, hlog, -, hkey, hact, hw⟩ |
      ⟨now, r, loaded, history, htxn, hlog, -, hallowed, hhistory, hw⟩⟩ := read_cases hread
    · rw [hw] at hguard
      refine hlast (0, .worker w) htxn.symm (commit_insert hlog hw fun id => ?_)
      have hfree := hguard id
      have hkey : (WorkerTxn.foldAll w.clock (Alert.ofDetection
          (w.first.triggeredAt.getD w.clock) w.first) w.rest).key = w.first.key :=
        congrArg Prod.fst (WorkerTxn.foldAll_slot w.clock _ w.rest)
      rwa [hkey] at hfree
    · rw [hw, hlog] at hguard
      obtain ⟨stored, hget, hle, hplace⟩ := h.folds s hmem hlog id loaded _ hw
      have hstored : st.db.alerts.get? id = some stored := by rwa [← h.db]
      have hdb := commit_fold hlog hw hstored
      rcases hguard stored hstored with rfl | ⟨hcount, hmeta⟩
      · refine hlast (id, .worker w) htxn.symm (hdb.trans ?_)
        rw [alone_fold (Alerts.getOpenByKey_of_openAt hstored hkey hact)]
      · obtain ⟨o₁, ⟨o₂, rfl⟩, hloaded⟩ := hplace hcount
        have hinert : Inert (w.folded loaded) :=
          inert_patch (WorkerTxn.foldAll_slot w.clock loaded _) hmeta
        refine ⟨o₁ ++ (id, .worker w) :: o₂, ⟨?_, fun s' hs' => ?_,
          fun s' hs' hlog' j other changed hw' => ?_⟩, hc.append hk hpending rfl htxn.symm⟩
        · rw [exec_insert_fold hloaded hkey hact hinert hget hcount (List.prefix_refl o₂), h.db,
            db_commit hk, hdb]
        · exact h.planned s' (List.mem_of_mem_eraseIdx (hpending ▸ hs'))
        · exact (h.folds s' (List.mem_of_mem_eraseIdx (hpending ▸ hs')) hlog' j other changed
            hw').insert hloaded hkey hact hinert hget hcount
    · rw [hw, hlog] at hguard
      exact hlast (0, .triage now r) htxn.symm (commit_move hlog hallowed hhistory hw hguard)

theorem serialized_run {db₀ : AlertDb} {st : State} {order : List (ℕ × Txn)} {done : List Txn}
    (h : Serialized db₀ st order) (hc : Covers st order done) {acts : List Act}
    (hg : Run.Guarded step Undisturbed st acts) :
    ∃ order', Serialized db₀ (Run.exec step st acts) order' ∧
      Covers (Run.exec step st acts) order' (done ++ acts.flatMap Act.submitted) := by
  induction acts generalizing st order done with
  | nil => exact ⟨order, h, by simpa using hc⟩
  | cons act acts ih =>
    have hstep : ∃ order', Serialized db₀ (step st act) order' ∧
        Covers (step st act) order' (done ++ act.submitted) := by
      cases act with
      | read pref txn => exact serialized_read h hc pref txn
      | commit k => simpa only [Act.submitted, List.append_nil] using serialized_commit h hc k hg.1
    obtain ⟨order', h', hc'⟩ := hstep
    rw [List.flatMap_cons, ← List.append_assoc]
    exact ih h' hc' hg.2

/-- However reads and commits of worker transactions and status requests interleave, when
every commit is undisturbed and every transaction has ended, the tables are those of some
serial order of the same transactions. -/
theorem order_of_undisturbed (db₀ : AlertDb) (acts : List Act)
    (hg : Run.Guarded step Undisturbed { db := db₀ } acts)
    (hdone : (Run.exec step { db := db₀ } acts).pending = []) :
    ∃ order, (order.map Prod.snd).Perm (acts.flatMap Act.submitted) ∧
      Run.exec alone db₀ order = (Run.exec step { db := db₀ } acts).db := by
  have h : Serialized db₀ { db := db₀ } [] :=
    ⟨rfl, fun s hs => (List.not_mem_nil hs).elim, fun s hs => (List.not_mem_nil hs).elim⟩
  have hc : Covers { db := db₀ } [] [] := List.Perm.refl _
  obtain ⟨order, hserial, hcovers⟩ := serialized_run h hc hg
  refine ⟨order, ?_, hserial.db⟩
  simpa only [Covers, hdone, List.map_nil, List.append_nil, List.nil_append] using hcovers

end SiemEngine.Sessions

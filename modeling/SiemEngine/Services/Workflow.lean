import SiemEngine.Lib.Run
import SiemEngine.Services.Alerts

/-!
# The incident workflow over whole histories

The alerts table is written by two parties, the correlator and the triage service. A
history is a list of their calls, executed one at a time from the empty table; a call
whose commit fails leaves the tables as they were. The unique constraint separates equal
statuses only, so two alerts of one key can coexist, and both the permitted transitions
and the single active alert of a key depend on what the other alerts of the key are.
-/

namespace SiemEngine.Workflow

inductive Op
  | apply (pref : ℕ) (clock : Time) (d : Detection)
  | updateStatus (now : Time) (r : StatusRequest)

def step (db : AlertDb) : Op → AlertDb
  | .apply pref clock d => match AlertCorrelator.apply db.alerts pref clock d with
    | none => db
    | some alerts => { db with alerts }
  | .updateStatus now r => match db.updateAlertStatus now r with
    | .error _ => db
    | .ok db' => db'

def run (ops : List Op) : AlertDb := Run.exec step AlertDb.empty ops

def Commits (db : AlertDb) (now : Time) (r : StatusRequest) : Prop :=
  ∃ db' a, db.updateAlertStatus now r = .ok db' ∧ db'.alerts.get? r.alertId = some a ∧
    a.status = r.newStatus

theorem allowed_ne {s s' : AlertStatus} (h : s' ∈ allowedTransitions s) : s ≠ s' := by
  cases s <;> cases s' <;> simp_all [allowedTransitions]

theorem open_of_allowed_of_terminal {s s' : AlertStatus} (h : s' ∈ allowedTransitions s)
    (hs : ¬ s.isActive) : s' = .open := by
  cases s <;> cases s' <;> simp_all [allowedTransitions, AlertStatus.isActive]

theorem step_updateStatus_cases (db : AlertDb) (now : Time) (r : StatusRequest) :
    step db (.updateStatus now r) = db ∨
    ∃ a history alerts, db.alerts.get? r.alertId = some a ∧
      r.newStatus ∈ allowedTransitions a.status ∧ a.statusHistory = some history ∧
      db.alerts.update? r.alertId (a.moved history r.newStatus now r.actor) = some alerts ∧
      step db (.updateStatus now r) = ⟨alerts, db.auditLogs ++ [r.auditLog a.status]⟩ := by
  cases h : r.plan db.alerts now with
  | notFound | unchanged a | raised e =>
    left
    simp only [step, AlertDb.updateAlertStatus, h, AlertDb.commitTriage]
  | change id loaded changed log =>
    have hupd := AlertDb.updateAlertStatus_of_change h
    obtain ⟨rfl, hget, hallowed, -, rfl, history, hhistory, rfl⟩ := StatusRequest.plan_eq_change h
    cases hu : db.alerts.update? r.alertId (loaded.moved history r.newStatus now r.actor) with
    | none =>
      left
      simp only [step, hupd, hu]
    | some alerts =>
      right
      exact ⟨loaded, history, alerts, hget, hallowed, hhistory, hu, by simp only [step, hupd, hu]⟩

theorem updateAlertStatus_of_allowed {db : AlertDb} (now : Time) {r : StatusRequest} {a : Alert}
    {history : List Json} (ha : db.alerts.get? r.alertId = some a)
    (hs : r.newStatus ∈ allowedTransitions a.status) (hh : a.statusHistory = some history) :
    db.updateAlertStatus now r =
      match db.alerts.update? r.alertId (a.moved history r.newStatus now r.actor) with
      | none => .error .integrityError
      | some alerts => .ok ⟨alerts, db.auditLogs ++ [r.auditLog a.status]⟩ :=
  AlertDb.updateAlertStatus_of_change (StatusRequest.plan_of_allowed ha hs (allowed_ne hs) hh)

theorem commits_iff {db : AlertDb} {now : Time} {r : StatusRequest} {a : Alert}
    (ha : db.alerts.get? r.alertId = some a)
    (hs : r.newStatus ∈ allowedTransitions a.status) :
    Commits db now r ↔
      ¬ db.alerts.Taken r.alertId (a.key, r.newStatus) ∧ a.statusHistory.isSome := by
  cases hh : a.statusHistory with
  | none =>
    have hplan : r.plan db.alerts now = .raised .typeError := by
      simp only [StatusRequest.plan, ha, if_neg (allowed_ne hs), hs, not_true_eq_false,
        ↓reduceIte, hh]
    refine iff_of_false ?_ (fun h => Bool.false_ne_true h.2)
    intro h
    obtain ⟨db', b, hok, -⟩ := h
    simp only [AlertDb.updateAlertStatus, hplan, AlertDb.commitTriage, reduceCtorEq] at hok
  | some history =>
    have hupd := updateAlertStatus_of_allowed now ha hs hh
    have htaken : db.alerts.update? r.alertId (a.moved history r.newStatus now r.actor) = none ↔
        db.alerts.Taken r.alertId (a.key, r.newStatus) := Alerts.update?_eq_none_iff
    cases hu : db.alerts.update? r.alertId (a.moved history r.newStatus now r.actor) with
    | none =>
      refine iff_of_false ?_ (fun h => h.1 (htaken.mp hu))
      intro h
      obtain ⟨db', b, hok, -⟩ := h
      simp only [hupd, hu, reduceCtorEq] at hok
    | some alerts =>
      have hget : alerts.get? r.alertId = some (a.moved history r.newStatus now r.actor) := by
        rw [Alerts.get?_update? ha hu, if_pos rfl]
      refine iff_of_true ⟨_, _, by rw [hupd, hu], hget, rfl⟩ ⟨fun ht => ?_, rfl⟩
      rw [htaken.mpr ht] at hu
      cases hu

/-- In every reachable table, a permitted transition commits exactly when no other alert
of the same rule and correlation key already has the target status (and the stored
history, which no detector writes, can be read as a list). -/
theorem permitted_transition_commits_iff (ops : List Op) (now : Time) (r : StatusRequest)
    (a : Alert) (ha : (run ops).alerts.get? r.alertId = some a)
    (hs : r.newStatus ∈ allowedTransitions a.status) :
    Commits (run ops) now r ↔
      ¬ (run ops).alerts.Taken r.alertId (a.key, r.newStatus) ∧ a.statusHistory.isSome :=
  commits_iff ha hs

def bruteForce : Detection where
  ruleId := "RULE-001"
  kind := .rule
  title := "Brute-force login activity from 203.0.113.9"
  description := ""
  severity := .high
  confidence := 1
  correlationKey := "srcip:203.0.113.9"
  sourceIp := some "203.0.113.9"
  affectedHost := some "ssh-server-01"
  recommendedAction := ""

def recurrence : List Op :=
  [.apply 0 0 bruteForce, .updateStatus 1 { alertId := 0, newStatus := .resolved },
    .apply 0 2 bruteForce]

theorem permitted_transition_commits_iff_recurrence :
    Commits (run recurrence) 3 { alertId := 1, newStatus := .acknowledged } := by
  have hget : (run recurrence).alerts.get? 1 = some (Alert.ofDetection 2 bruteForce) := by
    decide +kernel
  exact (permitted_transition_commits_iff recurrence 3
    { alertId := 1, newStatus := .acknowledged } _ hget (by decide)).mpr (by decide +kernel)

theorem second_resolution_fails :
    ((run recurrence).alerts.get? 1).map Alert.status = some .open ∧
      AlertStatus.resolved ∈ allowedTransitions .open ∧
      ¬ Commits (run recurrence) 3 { alertId := 1, newStatus := .resolved } := by
  let r : StatusRequest := { alertId := 1, newStatus := .resolved }
  refine ⟨by decide +kernel, by decide, fun hc => ?_⟩
  have hget : (run recurrence).alerts.get? r.alertId = some (Alert.ofDetection 2 bruteForce) := by
    decide +kernel
  have htaken : (run recurrence).alerts.Taken r.alertId
      ((Alert.ofDetection 2 bruteForce).key, r.newStatus) := by
    decide +kernel
  exact ((commits_iff hget (by decide)).mp hc).1 htaken

def OneActive (t : Alerts) : Prop :=
  ∀ i j a b, t.get? i = some a → t.get? j = some b → a.key = b.key → a.status.isActive →
    b.status.isActive → i = j

/-- Whenever a terminal alert is re-opened, no other alert of its key is acknowledged or
under investigation. An open one needs no mention: the unique constraint stops the commit. -/
def ReopensAlone (db : AlertDb) : Op → Prop
  | .apply _ _ _ => True
  | .updateStatus _ r => ∀ a, db.alerts.get? r.alertId = some a → ¬ a.status.isActive →
      r.newStatus = .open → a.statusHistory.isSome →
      ∀ j b, j ≠ r.alertId → db.alerts.get? j = some b → b.key = a.key →
        b.status ≠ .acknowledged ∧ b.status ≠ .investigating

theorem oneActive_update {t u : Alerts} (h : OneActive t) {i : ℕ} {a a' : Alert}
    (ha : t.get? i = some a) (hkey : a'.key = a.key) (hu : t.update? i a' = some u)
    (hothers : a'.status.isActive → ∀ j b, j ≠ i → t.get? j = some b → b.key = a.key →
      ¬ b.status.isActive) : OneActive u := by
  intro j k b c hb hc hbc hbact hcact
  rw [Alerts.get?_update? ha hu] at hb hc
  split_ifs at hb hc with hj hk hk
  · rw [hj, hk]
  · cases hb
    exact absurd hcact (hothers hbact k c hk hc (by rw [← hbc, hkey]))
  · cases hc
    exact absurd hbact (hothers hcact j b hj hb (by rw [hbc, hkey]))
  · exact h j k b c hb hc hbc hbact hcact

theorem oneActive_insert {t u : Alerts} (h : OneActive t) {a : Alert}
    (hu : t.insert? a = some u) (hnone : ∀ id, ¬ t.openAt a.key id) : OneActive u := by
  intro j k b c hb hc hbc hbact hcact
  rw [Alerts.get?_insert? hu] at hb hc
  split_ifs at hb hc with hj hk hk
  · rw [hj, hk]
  · cases hb
    exact absurd (Alerts.openAt_iff.mpr ⟨c, hc, hbc.symm, hcact⟩) (hnone k)
  · cases hc
    exact absurd (Alerts.openAt_iff.mpr ⟨b, hb, hbc, hbact⟩) (hnone j)
  · exact h j k b c hb hc hbc hbact hcact

theorem oneActive_apply {db : AlertDb} (h : OneActive db.alerts) (pref : ℕ) (clock : Time)
    (d : Detection) : OneActive (step db (.apply pref clock d)).alerts := by
  obtain ⟨u, hu, hcase⟩ := AlertCorrelator.apply_cases db.alerts pref clock d
  simp only [step, hu]
  rcases hcase with ⟨hnone, hins⟩ | ⟨id, a, ha, -, hact, hupd⟩
  · exact oneActive_insert h hins hnone
  · refine oneActive_update h ha (a.fold_key _ d) hupd fun _ j b hj hb hkey hbact => ?_
    exact hj (h j id b a hb ha hkey hbact hact)

theorem active_cases {s : AlertStatus} (h : s.isActive) (h₁ : s ≠ .acknowledged)
    (h₂ : s ≠ .investigating) : s = .open := by
  cases s <;> simp_all [AlertStatus.isActive]

theorem oneActive_updateStatus {db : AlertDb} (h : OneActive db.alerts) (now : Time)
    (r : StatusRequest) (hg : ReopensAlone db (.updateStatus now r)) :
    OneActive (step db (.updateStatus now r)).alerts := by
  rcases step_updateStatus_cases db now r with heq |
    ⟨a, history, alerts, ha, hallowed, hhistory, hu, heq⟩
  · rwa [heq]
  rw [heq]
  refine oneActive_update h ha (a.moved_key _ _ _ _) hu fun hnew j b hj hb hkey hbact => ?_
  by_cases hact : a.status.isActive
  · exact hj (h j r.alertId b a hb ha hkey hbact hact)
  · -- a terminal alert only re-opens, so another open alert would have stopped the commit
    have hopen : r.newStatus = .open := open_of_allowed_of_terminal hallowed hact
    obtain ⟨hack, hinv⟩ := hg a ha hact hopen (by rw [hhistory]; rfl) j b hj hb hkey
    have htaken : db.alerts.Taken r.alertId (a.moved history r.newStatus now r.actor).slot :=
      ⟨j, b, hj, hb, by rw [Alert.moved_slot, hopen, ← hkey, ← active_cases hbact hack hinv]; rfl⟩
    rw [Alerts.update?_eq_none_iff.mpr htaken] at hu
    cases hu

theorem reopensAlone_of_oneActive {db : AlertDb} (h : OneActive db.alerts) (op : Op)
    (hnext : OneActive (step db op).alerts) : ReopensAlone db op := by
  cases op with
  | apply pref clock d => trivial
  | updateStatus now r =>
    intro a ha hact hopen hhistory j b hj hb hkey
    have hallowed : r.newStatus ∈ allowedTransitions a.status := by
      rw [hopen]
      cases hs : a.status <;> simp_all [AlertStatus.isActive, allowedTransitions]
    by_contra hbusy
    have hbact : b.status.isActive := by
      cases hs : b.status <;> simp_all [AlertStatus.isActive]
    -- no third alert of the key is open, so the re-opening commits beside the busy one
    have hfree : ¬ db.alerts.Taken r.alertId (a.key, r.newStatus) := by
      intro h
      obtain ⟨k, c, hk, hc, hs⟩ := h
      have hckey : c.key = a.key := congrArg Prod.fst hs
      have hcopen : c.status = .open := (congrArg Prod.snd hs).trans hopen
      have hkj : k = j := h k j c b hc hb (hckey.trans hkey.symm) (by rw [hcopen]; rfl) hbact
      subst hkj
      cases hc.symm.trans hb
      exact hbusy ⟨by rw [hcopen]; decide, by rw [hcopen]; decide⟩
    obtain ⟨history, hhistory⟩ := Option.isSome_iff_exists.mp hhistory
    have hupd := updateAlertStatus_of_allowed now ha hallowed hhistory
    cases hu : db.alerts.update? r.alertId (a.moved history r.newStatus now r.actor) with
    | none => exact hfree (Alerts.update?_eq_none_iff.mp hu)
    | some alerts =>
      simp only [step, hupd, hu] at hnext
      refine hj (hnext j r.alertId b (a.moved history r.newStatus now r.actor) ?_ ?_ hkey hbact ?_)
      · rw [Alerts.get?_update? ha hu, if_neg hj, hb]
      · rw [Alerts.get?_update? ha hu, if_pos rfl]
      · rw [Alert.moved_status, hopen]; rfl

/-- Along every history, at most one alert of a key is active in every state exactly when
every re-opening of a terminal alert finds no other alert of its key being worked. -/
theorem one_active_iff (ops : List Op) :
    Run.Holds step (fun db => OneActive db.alerts) AlertDb.empty ops ↔
      Run.Guarded step ReopensAlone AlertDb.empty ops := by
  refine Run.holds_iff_guarded (fun _ h => h) ?_ (fun db op h hnext => ?_) ?_ ops
  · intro db op h hg
    cases op with
    | apply pref clock d => exact oneActive_apply h pref clock d
    | updateStatus now r => exact oneActive_updateStatus h now r hg
  · exact reopensAlone_of_oneActive h op hnext
  · intro i j a b ha
    simp [AlertDb.empty, Alerts.empty, Alerts.get?] at ha

/-- The resolved alert is re-opened while its successor is acknowledged. -/
theorem two_active_after_reopening :
    let ops := recurrence ++ [.updateStatus 3 { alertId := 1, newStatus := .acknowledged },
      .updateStatus 4 { alertId := 0, newStatus := .open }]
    ¬ Run.Holds step (fun db => OneActive db.alerts) AlertDb.empty ops := by
  intro ops h
  have hlast : OneActive (run ops).alerts := h.last
  have h0 : ((run ops).alerts.get? 0).map Alert.slot = some (bruteForce.key, .open) := by
    decide +kernel
  have h1 : ((run ops).alerts.get? 1).map Alert.slot = some (bruteForce.key, .acknowledged) := by
    decide +kernel
  obtain ⟨a, ha, hsa⟩ := Option.map_eq_some_iff.mp h0
  obtain ⟨b, hb, hsb⟩ := Option.map_eq_some_iff.mp h1
  have hka : a.key = bruteForce.key := congrArg Prod.fst hsa
  have hkb : b.key = bruteForce.key := congrArg Prod.fst hsb
  have hacta : a.status = .open := congrArg Prod.snd hsa
  have hactb : b.status = .acknowledged := congrArg Prod.snd hsb
  exact absurd (hlast 0 1 a b ha hb (hka.trans hkb.symm) (by rw [hacta]; rfl)
    (by rw [hactb]; rfl)) (by decide)

end SiemEngine.Workflow

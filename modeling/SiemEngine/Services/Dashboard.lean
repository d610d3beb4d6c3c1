import SiemEngine.Services.ActiveAlerts
import SiemEngine.Storage.Aggregates
import SiemEngine.Streaming.Growth
import SiemEngine.Streaming.RollingMetrics

/-!
# The dashboard

`dashboard_metrics` reads what the stream processor measured, unless it is stale, and counts in
the tables with three queries, each of which sees the tables of its own moment.
-/

namespace SiemEngine.Dashboard

open ActiveAlerts (Counts Groups countsByStatusSeverity splitKey)

structure Tally where
  active : Counts := [("critical", 0), ("high", 0), ("medium", 0), ("low", 0), ("info", 0)]
  totalActive : ℕ := 0
  resolved : ℕ := 0
  falsePositive : ℕ := 0
  investigating : ℕ := 0
  acknowledged : ℕ := 0

def Tally.add (acc : Tally) (status : AlertStatus) (sev : String) (n : ℕ) : Tally :=
  if status.isActive then
    { acc with
      active := Dict.set acc.active sev ((Dict.get? acc.active sev).getD 0 + n)
      totalActive := acc.totalActive + n
      investigating := acc.investigating + if status = .investigating then n else 0
      acknowledged := acc.acknowledged + if status = .acknowledged then n else 0 }
  else
    { acc with
      resolved := acc.resolved + if status = .resolved then n else 0
      falsePositive := acc.falsePositive + if status = .falsePositive then n else 0 }

/-- The loop over the counts; `none` when a key does not split or names no status. -/
def tally (counts : Counts) : Option Tally :=
  counts.foldlM (fun acc kn => (splitKey kn.1).bind fun statusSev =>
    (ofValue? AlertStatus.all AlertStatus.value statusSev.1).map fun status =>
      acc.add status statusSev.2 kn.2) {}

structure Metrics where
  generatedAt : Time
  workerOnline : Bool
  /-- `none` stands for the nulls that are shown for a stale hash -/
  rolling : Option Payload
  eventsLastHour : ℕ
  eventsLast24h : ℕ
  activeAlertsTotal : ℕ
  activeAlertsBySeverity : Counts
  criticalAlerts : ℕ
  highAlerts : ℕ
  acknowledgedAlerts : ℕ
  investigatingAlerts : ℕ
  resolvedAlerts : ℕ
  falsePositiveAlerts : ℕ
  totalAlerts : ℕ
  detectionRate : ℚ
  falsePositiveRate : ℚ

def hours (n : ℤ) : Time := n * 3600 * Datetime.microsPerSecond

def workerFresh (workerSeen : Option ℚ) (time : ℚ) : Bool :=
  workerSeen.any fun seen => Binary64.sub time seen < 20

def rollingFresh (rolling : Option Payload) (time : ℚ) : Bool :=
  rolling.any fun payload => Binary64.sub time payload.updatedAt < 30

/-- `dashboard_metrics`; `db i` is what its query `i` sees. -/
def dashboardMetrics (db : ℕ → Database) (now : Time) (workerSeen : Option ℚ)
    (rolling : Option Payload) (workerTime rollingTime : ℚ)
    (groups : Groups (db 2).alerts) : Option Metrics :=
  let counts := countsByStatusSeverity groups
  let workerOnline := workerFresh workerSeen workerTime
  let events1h := EventRepository.countSince (db 0).events (now - hours 1)
  let events24h := EventRepository.countSince (db 1).events (now - hours 24)
  let totalAlerts := (counts.map Prod.snd).sum
  (tally counts).map fun t =>
    { generatedAt := now
      workerOnline
      rolling := if workerOnline && rollingFresh rolling rollingTime then rolling else none
      eventsLastHour := events1h
      eventsLast24h := events24h
      activeAlertsTotal := t.totalActive
      activeAlertsBySeverity := t.active
      criticalAlerts := (Dict.get? t.active "critical").getD 0
      highAlerts := (Dict.get? t.active "high").getD 0
      acknowledgedAlerts := t.acknowledged
      investigatingAlerts := t.investigating
      resolvedAlerts := t.resolved
      falsePositiveAlerts := t.falsePositive
      totalAlerts
      detectionRate :=
        if events24h = 0 then 0 else Binary64.roundTo 5 (Binary64.div totalAlerts events24h)
      falsePositiveRate :=
        if totalAlerts = 0 then 0
        else Binary64.roundTo 3 (Binary64.div t.falsePositive totalAlerts) }

/-- The numbers of the dashboard go together, and its active alerts are those the alerts page
lists. -/
structure Consistent (db : ℕ → Database) (doc : Metrics) : Prop where
  events : doc.eventsLastHour ≤ doc.eventsLast24h
  total : doc.totalAlerts = (db 2).alerts.rows.length
  partition : doc.totalAlerts =
    doc.activeAlertsTotal + doc.resolvedAlerts + doc.falsePositiveAlerts
  severities : (ActiveAlerts.severities.map fun sev =>
    (Dict.get? doc.activeAlertsBySeverity sev.value).getD 0).sum = doc.activeAlertsTotal
  worked : doc.acknowledgedAlerts + doc.investigatingAlerts ≤ doc.activeAlertsTotal
  listed : doc.activeAlertsTotal =
    (AlertRepository.filtered (db 2).alerts { activeOnly := true }).length
  falsePositiveRate : 0 ≤ doc.falsePositiveRate ∧ doc.falsePositiveRate ≤ 1

def ofStatus (alerts : List Alert) (p : AlertStatus → Bool) : ℕ :=
  alerts.countP fun a => p a.status

theorem ofStatus_cons (a : Alert) (alerts : List Alert) (p : AlertStatus → Bool) :
    ofStatus (a :: alerts) p = ofStatus alerts p + if p a.status then 1 else 0 :=
  List.countP_cons ..

def sumOf (p : AlertStatus → Bool) (rows : List ((AlertStatus × Severity) × ℕ)) : ℕ :=
  ((rows.filter fun gn => p gn.1.1).map Prod.snd).sum

theorem sumOf_cons (p : AlertStatus → Bool) (gn : (AlertStatus × Severity) × ℕ)
    (rows : List ((AlertStatus × Severity) × ℕ)) :
    sumOf p (gn :: rows) = (if p gn.1.1 then gn.2 else 0) + sumOf p rows := by
  rw [sumOf, List.filter_cons]
  split_ifs
  · rw [List.map_cons, List.sum_cons, sumOf]
  · rw [Nat.zero_add, sumOf]

theorem sumOf_groups {t : Alerts} (groups : Groups t) (p : AlertStatus → Bool) :
    sumOf p groups.rows = ofStatus t.rows p := by
  have hsize : ∀ g, t.rows.countP (fun a => ActiveAlerts.group a = g) =
      Grouping.size ActiveAlerts.group t.rows g := fun g => List.countP_eq_length_filter
  have hsum := Grouping.sum_finer (fun g : AlertStatus × Severity => p g.1)
    (List.Perm.refl (Grouping.keys ActiveAlerts.group t.rows)) true
  have hperm := ((groups.perm.filter fun gn => p gn.1.1).map Prod.snd).sum_eq
  simp only [List.filter_map, List.map_map, hsize] at hperm
  rw [sumOf, hperm, ofStatus, List.countP_eq_length_filter]
  have hsize' : Grouping.size ((fun g : AlertStatus × Severity => p g.1) ∘ ActiveAlerts.group)
      t.rows true = (t.rows.filter fun a => p a.status).length := by
    rw [Grouping.size, Grouping.group]
    refine congrArg List.length (List.filter_congr fun a _ => ?_)
    change decide (p a.status = true) = p a.status
    cases p a.status <;> rfl
  rw [← hsize', ← hsum]
  refine congrArg List.sum (congrArg₂ List.map rfl (List.filter_congr fun g _ => ?_))
  simp

theorem foldl_add (acc : Tally) (rows : List ((AlertStatus × Severity) × ℕ)) :
    rows.foldl (fun acc gn => acc.add gn.1.1 gn.1.2.value gn.2) acc =
      { active := rows.foldl (ActiveAlerts.addGroup AlertStatus.isActive) acc.active
        totalActive := acc.totalActive + sumOf AlertStatus.isActive rows
        resolved := acc.resolved + sumOf (· = .resolved) rows
        falsePositive := acc.falsePositive + sumOf (· = .falsePositive) rows
        investigating := acc.investigating + sumOf (· = .investigating) rows
        acknowledged := acc.acknowledged + sumOf (· = .acknowledged) rows } := by
  induction rows generalizing acc with
  | nil => rfl
  | cons gn rows ih =>
    obtain ⟨⟨status, sev⟩, n⟩ := gn
    rw [List.foldl_cons, ih, List.foldl_cons]
    simp only [sumOf_cons]
    cases status <;>
      simp [Tally.add, ActiveAlerts.addGroup, AlertStatus.isActive, Nat.add_assoc]

theorem tally_countsByStatusSeverity {t : Alerts} (groups : Groups t) :
    tally (countsByStatusSeverity groups) =
      some (groups.rows.foldl (fun acc gn => acc.add gn.1.1 gn.1.2.value gn.2) {}) := by
  have hloop : ∀ (rows : List ((AlertStatus × Severity) × ℕ)) (acc : Tally),
      (rows.map fun gn => (ActiveAlerts.key gn.1, gn.2)).foldlM
        (fun acc kn => (splitKey kn.1).bind fun statusSev =>
          (ofValue? AlertStatus.all AlertStatus.value statusSev.1).map fun status =>
            acc.add status statusSev.2 kn.2) acc =
        some (rows.foldl (fun acc gn => acc.add gn.1.1 gn.1.2.value gn.2) acc) := by
    intro rows
    induction rows with
    | nil => exact fun _ => rfl
    | cons gn rows ih =>
      intro acc
      have hvalue : ofValue? AlertStatus.all AlertStatus.value gn.1.1.value = some gn.1.1 := by
        cases gn.1.1 <;> rfl
      rw [List.map_cons, List.foldlM_cons, ActiveAlerts.splitKey_key, Option.bind_some, hvalue]
      exact ih _
  rw [tally, ActiveAlerts.countsByStatusSeverity_eq]
  exact hloop groups.rows {}

theorem countSince_le {t u : SecurityEvents} (h : t.rows <+: u.rows) {since since' : Time}
    (hsince : since' ≤ since) :
    EventRepository.countSince t since ≤ EventRepository.countSince u since' := by
  refine (List.countP_mono_left fun row _ hrow => ?_).trans (h.sublist.countP_le)
  exact decide_eq_true (hsince.trans (of_decide_eq_true hrow))

theorem sum_activeCount (t : Alerts) :
    (ActiveAlerts.severities.map (ActiveAlerts.activeCount t)).sum =
      ofStatus t.rows AlertStatus.isActive := by
  unfold ActiveAlerts.activeCount
  induction t.rows with
  | nil => rfl
  | cons a rows ih =>
    have hone : (ActiveAlerts.severities.map fun sev =>
        if (a.status.isActive && decide (a.severity = sev)) = true then 1 else 0).sum =
          if a.status.isActive then 1 else 0 := by
      cases a.status.isActive <;> cases a.severity <;> rfl
    rw [ofStatus_cons, ← ih, ← hone, ← List.sum_map_add]
    exact congrArg List.sum (List.map_congr_left fun sev _ => List.countP_cons ..)

theorem total_countsByStatusSeverity {t : Alerts} (groups : Groups t) :
    ((countsByStatusSeverity groups).map Prod.snd).sum = t.rows.length := by
  have hall := sumOf_groups groups fun _ => true
  rw [sumOf, List.filter_true, ofStatus, List.countP_true] at hall
  rw [ActiveAlerts.countsByStatusSeverity_eq, List.map_map]
  exact hall

theorem partition_ofStatus (alerts : List Alert) :
    alerts.length = ofStatus alerts AlertStatus.isActive + ofStatus alerts (· = .resolved) +
        ofStatus alerts (· = .falsePositive) ∧
      ofStatus alerts (· = .acknowledged) + ofStatus alerts (· = .investigating) ≤
        ofStatus alerts AlertStatus.isActive := by
  induction alerts with
  | nil => exact ⟨rfl, le_rfl⟩
  | cons a alerts ih =>
    obtain ⟨hparts, hworked⟩ := ih
    simp only [ofStatus_cons, List.length_cons]
    cases a.status <;> simp [AlertStatus.isActive] <;> omega

theorem passes_activeOnly (a : Alert) :
    AlertRepository.passes { activeOnly := true } a = a.status.isActive := by
  have hgiven : given none = none := rfl
  simp [AlertRepository.passes, hgiven, AlertRepository.activeStatuses, AlertStatus.isActive]

theorem share_mem_unit {k n : ℕ} (hn : n ≠ 0) (hk : k ≤ n) (places : ℕ) :
    0 ≤ Binary64.roundTo places (Binary64.div k n) ∧
      Binary64.roundTo places (Binary64.div k n) ≤ 1 := by
  have hnonneg : (0 : ℚ) ≤ k / n := by positivity
  have hone : (k : ℚ) / n ≤ 1 := by
    rw [div_le_one (by positivity)]
    exact_mod_cast hk
  exact Binary64.roundTo_mem_unit (Binary64.nearest_nonneg hnonneg)
    (Binary64.nearest_le_one hnonneg hone)

/-- Whatever the pipeline and the analysts do while the dashboard is put together, it succeeds
and its numbers go together. -/
theorem dashboard_consistent (cfg : Config) (start : Time) (between : ℕ → List Tables.Act)
    (now : Time) (workerSeen : Option ℚ) (rolling : Option Payload) (workerTime rollingTime : ℚ)
    (groups : Groups (Tables.seenBy cfg start between 2).alerts) :
    ∃ doc, dashboardMetrics (Tables.seenBy cfg start between) now workerSeen rolling workerTime
      rollingTime groups = some doc ∧ Consistent (Tables.seenBy cfg start between) doc := by
  have hevents : (Tables.seenBy cfg start between 0).events.rows <+:
      (Tables.seenBy cfg start between 1).events.rows := Tables.events_seenBy (by decide)
  have htally := tally_countsByStatusSeverity groups
  rw [foldl_add] at htally
  simp only [sumOf_groups, Nat.zero_add] at htally
  have htotal := total_countsByStatusSeverity groups
  have hparts := partition_ofStatus (Tables.seenBy cfg start between 2).alerts.rows
  have hlate : now - hours 24 ≤ now - hours 1 := sub_le_sub_left (by decide) now
  rw [dashboardMetrics, htally]
  refine ⟨_, rfl,
    { events := countSince_le hevents hlate
      total := htotal
      partition := htotal.trans hparts.1
      severities := ?_
      worked := hparts.2
      listed := ?_
      falsePositiveRate := ?_ }⟩
  · have hsev : ∀ sev : Severity, (Dict.get? (groups.rows.foldl
        (ActiveAlerts.addGroup AlertStatus.isActive) ({} : Tally).active) sev.value).getD 0 =
          ActiveAlerts.activeCount (Tables.seenBy cfg start between 2).alerts sev := by
      intro sev
      have hstart : (Dict.get? ({} : Tally).active sev.value).getD 0 = 0 := by cases sev <;> rfl
      rw [ActiveAlerts.getD_foldl_addGroup, ActiveAlerts.sum_groups, hstart, Nat.zero_add]
      rfl
    rw [← sum_activeCount]
    exact congrArg List.sum (List.map_congr_left fun sev _ => hsev sev)
  · rw [AlertRepository.filtered, ← List.countP_eq_length_filter]
    exact List.countP_congr fun a _ => by rw [passes_activeOnly]
  · dsimp only
    rw [htotal]
    split_ifs with hzero
    · exact ⟨le_rfl, zero_le_one⟩
    · exact share_mem_unit hzero (by omega) 3

theorem dashboard_consistent_escalation :
    let db := Tables.seenBy { py := .ascii } 0 fun _ =>
      [.call (Pipeline.callAtZero [Pipeline.escalationRaw] none)]
    ∃ doc, dashboardMetrics db 0 none none 0 0 (Groups.ofTable (db 2).alerts) = some doc ∧
      (doc.eventsLastHour, doc.totalAlerts, doc.highAlerts) = (1, 1, 1) ∧ Consistent db doc := by
  intro db
  obtain ⟨doc, hdoc, hconsistent⟩ := dashboard_consistent { py := .ascii } 0 _ 0 none none 0 0
    (Groups.ofTable (db 2).alerts)
  have hnumbers : (dashboardMetrics db 0 none none 0 0 (Groups.ofTable (db 2).alerts)).map
      (fun doc => (doc.eventsLastHour, doc.totalAlerts, doc.highAlerts)) = some (1, 1, 1) := by
    decide +kernel
  rw [hdoc, Option.map_some, Option.some.injEq] at hnumbers
  exact ⟨doc, hdoc, hnumbers, hconsistent⟩

end SiemEngine.Dashboard

import SiemEngine.Lib.Grouping
import SiemEngine.Storage.Search

/-!
# Aggregates of the two tables

Each method is one grouping query. A `Grouping.Groups`, `Grouping.Largest`, `Earliest` or
`Pages.Ordered` argument is the order in which the database returned the groups: it is free where
the query does not sort, and among groups that the query sorts alike.
-/

namespace SiemEngine

open Grouping (group keys size Groups Largest)

/-- `floor(extract(epoch, ·) / bucket_seconds) * bucket_seconds`. -/
@[irreducible] def bucket (bucketSeconds : ℕ) (t : Time) : Time :=
  t / (bucketSeconds * Datetime.microsPerSecond) * (bucketSeconds * Datetime.microsPerSecond)

structure Earliest {κ : Type*} (time : κ → Time) (ks : List κ) where
  list : List κ
  perm : list.Perm ks
  sorted : (list.map time).Pairwise (· ≤ ·)

def Earliest.sort {κ : Type*} (time : κ → Time) (ks : List κ) : Earliest time ks where
  list := ks.insertionSort fun a b => time a ≤ time b
  perm := List.perm_insertionSort _ _
  sorted := List.pairwise_map.mpr (List.pairwise_insertionSort (Order.Preimage time (· ≤ ·)) ks)

namespace EventRepository

def countSince (t : SecurityEvents) (since : Time) : ℕ :=
  t.rows.countP fun row => since ≤ row.ingestedAt

def recent (t : SecurityEvents) (since : Time) : List SecurityEventRow :=
  t.rows.filter fun row => since ≤ row.timestamp

structure SourceIp where
  sourceIp : String
  eventCount : ℕ
  authFailures : ℕ

def withIp (t : SecurityEvents) (since : Time) : List (String × SecurityEventRow) :=
  (recent t since).filterMap fun row => row.sourceIp.map fun ip => (ip, row)

def topSourceIps {t : SecurityEvents} {since : Time}
    (result : Largest Prod.fst (withIp t since)) (limit : ℕ) : List SourceIp :=
  (result.list.take (min limit 50)).map fun ip =>
    { sourceIp := ip
      eventCount := size Prod.fst (withIp t since) ip
      authFailures := (group Prod.fst (withIp t since) ip).countP fun row =>
        row.2.eventType = "authentication_failure" }

def eventTypeBreakdown {t : SecurityEvents} {since : Time}
    (result : Largest SecurityEventRow.eventType (recent t since)) : List (String × ℕ) :=
  result.list.map fun eventType => (eventType, size SecurityEventRow.eventType (recent t since)
    eventType)

def bucketOf (bucketSeconds : ℕ) (row : SecurityEventRow) : Time :=
  bucket bucketSeconds row.timestamp

def timeseries {t : SecurityEvents} {since : Time} {bucketSeconds : ℕ}
    (result : Earliest id (keys (bucketOf bucketSeconds) (recent t since))) : List (Time × ℕ) :=
  result.list.map fun b => (b, size (bucketOf bucketSeconds) (recent t since) b)

structure Host where
  host : String
  sourceType : String
  eventCount : ℕ
  highSeverityEvents : ℕ

def hostOf (row : SecurityEventRow) : String × String := (row.source, row.sourceType)

def topHosts {t : SecurityEvents} {since : Time} (result : Largest hostOf (recent t since))
    (limit : ℕ) : List Host :=
  (result.list.take (min limit 50)).map fun host =>
    { host := host.1
      sourceType := host.2
      eventCount := size hostOf (recent t since) host
      highSeverityEvents := (group hostOf (recent t since) host).countP fun row =>
        row.severity = "high" || row.severity = "critical" }

def severityBreakdown {t : SecurityEvents} {since : Time}
    (result : Groups SecurityEventRow.severity (recent t since)) : List (String × ℕ) :=
  result.list.map fun severity => (severity, size SecurityEventRow.severity (recent t since)
    severity)

end EventRepository

namespace AlertRepository

def recent (t : Alerts) (since : Time) : List Alert := t.rows.filter fun a => since ≤ a.firstSeen

def cellOf (bucketSeconds : ℕ) (a : Alert) : Time × Severity :=
  (bucket bucketSeconds a.firstSeen, a.severity)

def timeseries {t : Alerts} {since : Time} {bucketSeconds : ℕ}
    (result : Earliest Prod.fst (keys (cellOf bucketSeconds) (recent t since))) :
    List ((Time × Severity) × ℕ) :=
  result.list.map fun cell => (cell, size (cellOf bucketSeconds) (recent t since) cell)

structure Activity where
  triggerCount : ℕ
  activeCount : ℕ
  lastTriggered : Option Time

def ruleActivity {t : Alerts} (result : Groups Alert.ruleId t.rows) : List (String × Activity) :=
  result.list.map fun ruleId =>
    let alerts := group Alert.ruleId t.rows ruleId
    (ruleId,
      { triggerCount := alerts.length
        activeCount := alerts.countP fun a => a.status ∈ activeStatuses
        lastTriggered := (alerts.map Alert.lastSeen).max? })

structure AffectedHost where
  host : String
  alertCount : ℕ
  eventCount : ℤ
  criticalAlerts : ℕ

def withHost (t : Alerts) (since : Time) : List (String × Alert) :=
  (recent t since).filterMap fun a => a.affectedHost.map fun host => (host, a)

def affectedHosts {t : Alerts} {since : Time} (result : Largest Prod.fst (withHost t since))
    (limit : ℕ) : List AffectedHost :=
  (result.list.take (min limit 50)).map fun host =>
    let alerts := group Prod.fst (withHost t since) host
    { host := host
      alertCount := alerts.length
      eventCount := (alerts.map fun a => a.2.eventCount).sum
      criticalAlerts := alerts.countP fun a => a.2.severity = .critical }

def ofKind (t : Alerts) (kind : DetectionKind) : List (Alert × ℕ) :=
  t.rows.zipIdx.filter fun row => row.1.detectionKind = kind

def lastSeen (row : Alert × ℕ) : Time := row.1.lastSeen

def recentByKind {t : Alerts} {kind : DetectionKind}
    (result : Pages.Ordered lastSeen (ofKind t kind)) (limit : ℕ) : List (Alert × ℕ) :=
  result.list.take (min limit 200)

end AlertRepository

section

variable {n m : ℕ}

theorem width_pos (hn : 0 < n) : (0 : ℤ) < n * Datetime.microsPerSecond :=
  mul_pos (Int.natCast_pos.mpr hn) (by decide)

theorem bucket_mono (hn : 0 < n) {t u : Time} (h : t ≤ u) : bucket n t ≤ bucket n u := by
  rw [bucket, bucket]
  exact mul_le_mul_of_nonneg_right (Int.ediv_le_ediv (width_pos hn) h) (width_pos hn).le

theorem bucket_bucket (hn : 0 < n) (m : ℕ) (t : Time) :
    bucket (m * n) (bucket n t) = bucket (m * n) t := by
  have hwidth : ((m * n : ℕ) : ℤ) * Datetime.microsPerSecond =
      n * Datetime.microsPerSecond * m := by
    rw [Nat.cast_mul, mul_assoc, mul_comm]
  simp only [bucket, hwidth]
  rw [mul_comm (n * Datetime.microsPerSecond : ℤ) m,
    Int.mul_ediv_mul_of_pos_left _ _ (width_pos hn), mul_comm (m : ℤ),
    Int.ediv_ediv_of_nonneg (width_pos hn).le]

end

namespace EventRepository

/-- A timeline with wider buckets made of one with narrower buckets. -/
def coarsen (bucketSeconds : ℕ) (series : List (Time × ℕ)) : List (Time × ℕ) :=
  (series.map fun point => bucket bucketSeconds point.1).dedup.map fun b =>
    (b, ((series.filter fun point => bucket bucketSeconds point.1 = b).map Prod.snd).sum)

/-- Drawn with buckets `m` times as wide, the timeline is the sum of the narrow one, whatever the
events and whatever order the database worked in. -/
theorem timeseries_coarser {t : SecurityEvents} {since : Time} {n : ℕ} (hn : 0 < n) (m : ℕ)
    (hm : 0 < m) (fine : Earliest id (keys (bucketOf n) (recent t since)))
    (coarse : Earliest id (keys (bucketOf (m * n)) (recent t since))) :
    timeseries coarse = coarsen (m * n) (timeseries fine) := by
  have hbucket : bucket (m * n) ∘ bucketOf n = bucketOf (m * n) :=
    funext fun row => bucket_bucket hn m row.timestamp
  have hkeys : ((timeseries fine).map fun point => bucket (m * n) point.1) =
      fine.list.map (bucket (m * n)) := by
    rw [timeseries, List.map_map]
    rfl
  have hmem : ∀ b, b ∈ coarse.list ↔ b ∈ fine.list.map (bucket (m * n)) := by
    intro b
    rw [coarse.perm.mem_iff, Grouping.mem_keys, List.mem_map]
    constructor
    · rintro ⟨row, hrow, rfl⟩
      refine ⟨bucketOf n row, ?_, congrFun hbucket row⟩
      exact fine.perm.mem_iff.mpr (Grouping.mem_keys.mpr ⟨row, hrow, rfl⟩)
    · rintro ⟨c, hc, rfl⟩
      obtain ⟨row, hrow, rfl⟩ := Grouping.mem_keys.mp (fine.perm.mem_iff.mp hc)
      exact ⟨row, hrow, (congrFun hbucket row).symm⟩
  have hsorted : (fine.list.map (bucket (m * n))).dedup.Pairwise (· ≤ ·) := by
    refine List.Pairwise.sublist (List.dedup_sublist _) (List.pairwise_map.mpr ?_)
    exact (List.pairwise_map.mp fine.sorted).imp (bucket_mono (Nat.mul_pos hm hn))
  have hlist : coarse.list = (fine.list.map (bucket (m * n))).dedup := by
    have hnodup : coarse.list.Nodup := coarse.perm.nodup_iff.mpr (Grouping.nodup_keys _ _)
    have hperm := (List.perm_ext_iff_of_nodup hnodup (List.nodup_dedup _)).mpr fun b =>
      (hmem b).trans List.mem_dedup.symm
    exact hperm.eq_of_pairwise (fun a b _ _ hab hba => le_antisymm hab hba)
      (List.pairwise_map.mp coarse.sorted) hsorted
  rw [coarsen, hkeys, ← hlist, timeseries]
  refine List.map_congr_left fun b _ => Prod.ext rfl ?_
  -- the narrow buckets that fall into `b` hold its events
  have hsum := Grouping.sum_finer (bucket (m * n)) fine.perm b
  rw [hbucket] at hsum
  rw [timeseries, List.filter_map, List.map_map]
  exact hsum.symm

def threeEvents (first second third : UUID) (h : [first, second, third].Nodup) :
    SecurityEvents where
  rows := [eventAt first 0, eventAt second 60000000, eventAt third 90000000]
  primaryKey := h

/-- By minute the timeline has two points, by five minutes one that counts all three events. -/
theorem timeseries_coarser_minutes :
    let t := threeEvents 0 1 2 (by decide)
    let fine : Earliest id (keys (bucketOf 60) (recent t 0)) :=
      ⟨[0, 60000000], by decide +kernel, by decide +kernel⟩
    let coarse : Earliest id (keys (bucketOf (5 * 60)) (recent t 0)) :=
      ⟨[0], by decide +kernel, by decide +kernel⟩
    timeseries fine = [(0, 1), (60000000, 2)] ∧ timeseries coarse = [(0, 3)] ∧
      timeseries coarse = coarsen (5 * 60) (timeseries fine) := by
  intro t fine coarse
  refine ⟨?_, ?_, timeseries_coarser (by decide) 5 (by decide) fine coarse⟩
  · decide +kernel
  · decide +kernel

end EventRepository

end SiemEngine

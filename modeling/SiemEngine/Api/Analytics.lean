import SiemEngine.Storage.Aggregates
import SiemEngine.Streaming.Growth

/-!
# The analytics pages

A page bundles the results of several queries, each of which sees the tables of its own moment.
`db i` is what query `i` sees; the arguments of the queries that the database is free to order
are their results.
-/

namespace SiemEngine.Analytics

open Grouping (keys size Groups Largest)

/-- The queries of `threat_activity`, in the order in which they are made. -/
structure Results (db : ℕ → Database) (since : Time) (bucketSeconds : ℕ) where
  ips : Largest Prod.fst (EventRepository.withIp (db 0).events since)
  times : Earliest id (keys (EventRepository.bucketOf bucketSeconds)
    (EventRepository.recent (db 1).events since))
  cells : Earliest Prod.fst (keys (AlertRepository.cellOf (max bucketSeconds 300))
    (AlertRepository.recent (db 2).alerts since))
  severities : Groups SecurityEventRow.severity (EventRepository.recent (db 3).events since)
  types : Largest SecurityEventRow.eventType (EventRepository.recent (db 4).events since)
  rules : Groups Alert.ruleId (db 5).alerts.rows
  hosts : Largest Prod.fst (AlertRepository.withHost (db 6).alerts since)
  sources : Largest EventRepository.hostOf (EventRepository.recent (db 7).events since)

def Results.sorted (db : ℕ → Database) (since : Time) (bucketSeconds : ℕ) :
    Results db since bucketSeconds where
  ips := Pages.Ordered.sort _ _
  times := Earliest.sort _ _
  cells := Earliest.sort _ _
  severities := Groups.ofRows _ _
  types := Pages.Ordered.sort _ _
  rules := Groups.ofRows _ _
  hosts := Pages.Ordered.sort _ _
  sources := Pages.Ordered.sort _ _

structure RuleFrequency where
  ruleId : String
  triggerCount : ℕ
  lastTriggered : Option Time

structure ThreatActivity where
  windowMinutes : ℕ
  eventsTimeseries : List (Time × ℕ)
  alertsTimeseries : List ((Time × Severity) × ℕ)
  eventSeverity : List (String × ℕ)
  eventTypes : List (String × ℕ)
  ruleFrequency : List RuleFrequency
  topSourceIps : List EventRepository.SourceIp
  topAttackedHosts : List AlertRepository.AffectedHost
  topEventSources : List EventRepository.Host

def sinceMinutes (now : Time) (minutes : ℕ) : Time :=
  now - minutes * 60 * Datetime.microsPerSecond

/-- `sorted(…, key=lambda kv: -kv[1]["trigger_count"])`. -/
def ruleFrequency (activity : List (String × AlertRepository.Activity)) : List RuleFrequency :=
  (activity.mergeSort fun a b => b.2.triggerCount ≤ a.2.triggerCount).map fun a =>
    ⟨a.1, a.2.triggerCount, a.2.lastTriggered⟩

def threatActivity {db : ℕ → Database} {now : Time} {minutes bucketSeconds : ℕ}
    (results : Results db (sinceMinutes now minutes) bucketSeconds) : ThreatActivity where
  windowMinutes := minutes
  eventsTimeseries := EventRepository.timeseries results.times
  alertsTimeseries := AlertRepository.timeseries results.cells
  eventSeverity := EventRepository.severityBreakdown results.severities
  eventTypes := EventRepository.eventTypeBreakdown results.types
  ruleFrequency := ruleFrequency (AlertRepository.ruleActivity results.rules)
  topSourceIps := EventRepository.topSourceIps results.ips 10
  topAttackedHosts := AlertRepository.affectedHosts results.hosts 10
  topEventSources := EventRepository.topHosts results.sources 10

/-- The panels count the events and alerts of their moments, each once; a later panel counts at
least what an earlier one did; and no ten other addresses, sources or hosts lead the ones in the
top lists. -/
structure Accounts (db : ℕ → Database) (since : Time) (doc : ThreatActivity) : Prop where
  timeline : (doc.eventsTimeseries.map Prod.snd).sum =
    (EventRepository.recent (db 1).events since).length
  severities : (doc.eventSeverity.map Prod.snd).sum =
    (EventRepository.recent (db 3).events since).length
  types : (doc.eventTypes.map Prod.snd).sum =
    (EventRepository.recent (db 4).events since).length
  grows : (doc.eventsTimeseries.map Prod.snd).sum ≤ (doc.eventSeverity.map Prod.snd).sum ∧
    (doc.eventSeverity.map Prod.snd).sum ≤ (doc.eventTypes.map Prod.snd).sum
  alerts : (doc.alertsTimeseries.map Prod.snd).sum =
    (AlertRepository.recent (db 2).alerts since).length
  rules : (doc.ruleFrequency.map RuleFrequency.triggerCount).sum = (db 5).alerts.rows.length
  raised : (doc.alertsTimeseries.map Prod.snd).sum ≤
    (doc.ruleFrequency.map RuleFrequency.triggerCount).sum
  ips : ∀ ips : List String, ips.Nodup → ips.length ≤ 10 →
    (ips.map (size Prod.fst (EventRepository.withIp (db 0).events since))).sum ≤
      (doc.topSourceIps.map EventRepository.SourceIp.eventCount).sum
  hosts : ∀ hosts : List String, hosts.Nodup → hosts.length ≤ 10 →
    (hosts.map (size Prod.fst (AlertRepository.withHost (db 6).alerts since))).sum ≤
      (doc.topAttackedHosts.map AlertRepository.AffectedHost.alertCount).sum
  sources : ∀ sources : List (String × String), sources.Nodup → sources.length ≤ 10 →
    (sources.map (size EventRepository.hostOf (EventRepository.recent (db 7).events since))).sum ≤
      (doc.topEventSources.map EventRepository.Host.eventCount).sum

theorem sum_listing {ρ κ : Type*} [DecidableEq κ] {key : ρ → κ} {rows : List ρ} {ks : List κ}
    (h : ks.Perm (keys key rows)) :
    ((ks.map fun k => (k, size key rows k)).map Prod.snd).sum = rows.length := by
  rw [List.map_map]
  exact Grouping.sum_size h

theorem sum_ruleFrequency {t : Alerts} (result : Groups Alert.ruleId t.rows) :
    ((ruleFrequency (AlertRepository.ruleActivity result)).map RuleFrequency.triggerCount).sum =
      t.rows.length := by
  have hperm : ((ruleFrequency (AlertRepository.ruleActivity result)).map
      RuleFrequency.triggerCount).Perm
        ((AlertRepository.ruleActivity result).map fun a => a.2.triggerCount) := by
    rw [ruleFrequency, List.map_map]
    exact (List.mergeSort_perm _ _).map _
  rw [hperm.sum_eq, AlertRepository.ruleActivity, List.map_map]
  exact Grouping.sum_size result.perm

theorem length_recent_le {t u : SecurityEvents} (h : t.rows <+: u.rows) (since : Time) :
    (EventRepository.recent t since).length ≤ (EventRepository.recent u since).length :=
  (h.sublist.filter _).length_le

/-- Whatever the pipeline and the analysts do while a page is put together, and whatever order
the database returns ties in, the page adds up. -/
theorem threat_activity_accounts (cfg : Config) (start : Time) (between : ℕ → List Tables.Act)
    {now : Time} {minutes bucketSeconds : ℕ}
    (results : Results (Tables.seenBy cfg start between) (sinceMinutes now minutes)
      bucketSeconds) :
    Accounts (Tables.seenBy cfg start between) (sinceMinutes now minutes)
      (threatActivity results) := by
  have htimeline := sum_listing results.times.perm
  have hseverities := sum_listing results.severities.perm
  have htypes := sum_listing results.types.perm
  have halerts := sum_listing results.cells.perm
  have hrules := sum_ruleFrequency results.rules
  have hraised : (Tables.seenBy cfg start between 2).alerts.rows.length ≤
      (Tables.seenBy cfg start between 5).alerts.rows.length := by
    have hle := (Tables.origins_seenBy cfg start between (show 2 ≤ 5 by decide)).length_le
    rwa [Database.origins, Database.origins, List.length_map, List.length_map] at hle
  refine
    { timeline := htimeline
      severities := hseverities
      types := htypes
      grows := ⟨?_, ?_⟩
      alerts := halerts
      rules := hrules
      raised := ?_
      ips := fun ips hnodup hlen => ?_
      hosts := fun hosts hnodup hlen => ?_
      sources := fun sources hnodup hlen => ?_ }
  · exact htimeline.trans_le ((length_recent_le (Tables.events_seenBy (by decide)) _).trans
      hseverities.ge)
  · exact hseverities.trans_le ((length_recent_le (Tables.events_seenBy (by decide)) _).trans
      htypes.ge)
  · exact halerts.trans_le ((List.length_filter_le _ _).trans (hraised.trans hrules.ge))
  · rw [threatActivity, EventRepository.topSourceIps, List.map_map]
    exact results.ips.sum_le hnodup hlen
  · rw [threatActivity, AlertRepository.affectedHosts, List.map_map]
    exact results.hosts.sum_le hnodup hlen
  · rw [threatActivity, EventRepository.topHosts, List.map_map]
    exact results.sources.sum_le hnodup hlen

def escalationThenRequest : ℕ → List Tables.Act
  | 0 => [.call (Pipeline.callAtZero [Pipeline.escalationRaw] none)]
  | 3 => [.call (Pipeline.callAtZero [Pipeline.requestOf "7"] none)]
  | _ => []

/-- The request that is stored behind the third query shows in the later panels only. -/
theorem threat_activity_accounts_between :
    let db := Tables.seenBy { py := .ascii } 0 escalationThenRequest
    let page := threatActivity (Results.sorted db (sinceMinutes 0 60) 60)
    page.eventsTimeseries = [(0, 1)] ∧ page.alertsTimeseries = [((0, .high), 1)] ∧
      page.eventTypes = [("privilege_escalation", 1), ("http_request", 1)] ∧
      Accounts db (sinceMinutes 0 60) page := by
  intro db page
  refine ⟨by decide +kernel, by decide +kernel, by decide +kernel, ?_⟩
  exact threat_activity_accounts { py := .ascii } 0 escalationThenRequest
    (Results.sorted db (sinceMinutes 0 60) 60)

end SiemEngine.Analytics

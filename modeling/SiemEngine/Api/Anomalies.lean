import SiemEngine.Storage.Aggregates
import SiemEngine.Streaming.Growth

/-!
# The list of anomalies

The page lists the newest alerts of the two statistical detectors. It asks for them kind by kind,
merges what the two queries return and cuts the merged list; the tables can change between the
queries.
-/

namespace SiemEngine.Anomalies

open AlertRepository (ofKind lastSeen recentByKind)

abbrev Limit := {n : ℕ // 1 ≤ n ∧ n ≤ 200}

variable {db : ℕ → Database}

def listAnomalies (anomaly : Pages.Ordered lastSeen (ofKind (db 0).alerts .anomaly))
    (ml : Pages.Ordered lastSeen (ofKind (db 1).alerts .ml)) (limit : Limit) :
    List (Alert × ℕ) :=
  let alerts := Pages.Ordered.sort lastSeen (recentByKind anomaly limit ++ recentByKind ml limit)
  alerts.list.take limit

/-- The page shows the newest `limit` of all alerts of the two kinds, as one query for both
could return them, and none of them twice. -/
structure Newest (db : ℕ → Database) (limit : Limit) (items : List (Alert × ℕ)) : Prop where
  newest : ∃ all : Pages.Ordered lastSeen (ofKind (db 0).alerts .anomaly ++
    ofKind (db 1).alerts .ml), items = all.list.take limit
  once : (items.map Prod.snd).Nodup

theorem nodup_ofKind (t : Alerts) (kind : DetectionKind) :
    ((ofKind t kind).map Prod.snd).Nodup := by
  have hids : (t.rows.zipIdx.map Prod.snd).Nodup := by
    rw [List.zipIdx_map_snd]
    exact List.nodup_range'
  exact hids.sublist ((List.filter_sublist).map _)

theorem get?_of_mem_ofKind {t : Alerts} {kind : DetectionKind} {row : Alert × ℕ}
    (h : row ∈ ofKind t kind) : t.rows[row.2]? = some row.1 ∧ row.1.detectionKind = kind := by
  obtain ⟨hrow, hkind⟩ := List.mem_filter.mp h
  exact ⟨List.mem_zipIdx_iff_getElem?.mp hrow, of_decide_eq_true hkind⟩

/-- However the two queries break ties, and whatever happens between them. -/
theorem anomalies_newest (cfg : Config) (start : Time) (between : ℕ → List Tables.Act)
    (anomaly : Pages.Ordered lastSeen
      (ofKind (Tables.seenBy cfg start between 0).alerts .anomaly))
    (ml : Pages.Ordered lastSeen (ofKind (Tables.seenBy cfg start between 1).alerts .ml))
    (limit : Limit) :
    Newest (Tables.seenBy cfg start between) limit (listAnomalies anomaly ml limit) := by
  have horigins : (Tables.seenBy cfg start between 0).origins <+:
      (Tables.seenBy cfg start between 1).origins :=
    Tables.origins_seenBy cfg start between (by decide)
  generalize Tables.seenBy cfg start between = db at *
  have hcut : ∀ rows : List (Alert × ℕ), rows.take limit = rows.take (min limit 200) := by
    rw [min_eq_left limit.2.2]
    exact fun _ => rfl
  obtain ⟨all, hall⟩ := Pages.exists_ordered_append anomaly ml
    (Pages.Ordered.sort lastSeen (recentByKind anomaly limit ++ recentByKind ml limit))
  have hitems : listAnomalies anomaly ml limit = all.list.take limit := by
    rw [listAnomalies, hcut, hcut, hall]
  refine ⟨⟨all, hitems⟩, ?_⟩
  have hids : ((ofKind (db 0).alerts .anomaly ++ ofKind (db 1).alerts .ml).map Prod.snd).Nodup := by
    rw [List.map_append, List.nodup_append]
    refine ⟨nodup_ofKind _ _, nodup_ofKind _ _, fun id hid id' hid' heq => ?_⟩
    obtain ⟨row, hrow, rfl⟩ := List.mem_map.mp hid
    obtain ⟨row', hrow', hsame⟩ := List.mem_map.mp hid'
    obtain ⟨hget, hkind⟩ := get?_of_mem_ofKind hrow
    obtain ⟨hget', hkind'⟩ := get?_of_mem_ofKind hrow'
    -- an alert keeps its kind
    have hbefore : (db 0).origins[row.2]? = some row.1.origin := by
      rw [Database.origins, List.getElem?_map, hget, Option.map_some]
    have hafter : (db 1).origins[row.2]? = some row'.1.origin := by
      rw [heq, ← hsame, Database.origins, List.getElem?_map, hget', Option.map_some]
    obtain ⟨new, hnew⟩ := horigins
    rw [← hnew, List.getElem?_append_left (List.getElem?_eq_some_iff.mp hbefore).1, hbefore,
      Option.some.injEq] at hafter
    have hsamekind : row.1.detectionKind = row'.1.detectionKind := congrArg Origin.kind hafter
    rw [hkind, hkind'] at hsamekind
    cases hsamekind
  rw [hitems]
  exact ((all.perm.map _).nodup_iff.mpr hids).sublist ((List.take_sublist _ _).map _)

def closing (eventId : String) (clock : Time) : Tables.Act :=
  .call { Pipeline.callAtZero [Pipeline.requestOf eventId] none with
    now := clock, raisedAt := fun _ => clock }

def minuteByMinute : ℕ → List Tables.Act
  | 0 => [closing "1" (60 * Datetime.microsPerSecond)]
  | 1 => [closing "2" (120 * Datetime.microsPerSecond)]
  | _ => []

/-- The forest flags every minute, one of them between the two queries. -/
theorem anomalies_newest_between :
    let cfg : Config := { py := .ascii, forest := fun _ => some (1 / 2, "isolated") }
    let db := Tables.seenBy cfg 0 minuteByMinute
    let anomaly := Pages.Ordered.sort lastSeen (ofKind (db 0).alerts .anomaly)
    let ml := Pages.Ordered.sort lastSeen (ofKind (db 1).alerts .ml)
    let items := listAnomalies anomaly ml ⟨1, by decide⟩
    items.map (fun item => (item.1.ruleId, item.1.lastSeen)) = [("ML-001", 120000000)] ∧
      Newest db ⟨1, by decide⟩ items := by
  intro cfg db anomaly ml items
  refine ⟨by decide +kernel, ?_⟩
  exact anomalies_newest cfg 0 minuteByMinute anomaly ml ⟨1, by decide⟩

end SiemEngine.Anomalies

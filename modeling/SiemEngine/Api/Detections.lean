import SiemEngine.Services.Dashboard

/-!
# The catalogue of rules with their activity

Every rule of the engine and the two statistical detectors, with the alerts they raised.
-/

namespace SiemEngine.Detections

open Grouping (Groups size group)

def catalogue (engine : DetectionEngine) : List (String × Bool) :=
  Rule.all.map fun rule => (rule.ruleId, rule ∉ engine.disabled)

def statisticalRules (enableMl : Bool) : List (String × Bool) :=
  [("ANOM-001", true), ("ML-001", enableMl)]

def slug (ruleId : String) : String :=
  (Dict.get? [("RULE-001", "SSH_BRUTE_FORCE"), ("RULE-002", "PASSWORD_SPRAY"),
    ("RULE-003", "PORT_SCAN"), ("RULE-004", "PRIVILEGE_ESCALATION"),
    ("RULE-005", "SUSPICIOUS_SQL"), ("RULE-006", "DATA_EXFILTRATION"),
    ("RULE-007", "AUTH_ANOMALY"), ("ANOM-001", "TRAFFIC_ANOMALY"),
    ("ML-001", "ISOLATION_FOREST")] ruleId).getD
      (ruleId.map fun c => if c = '-' then '_' else c)

structure Entry where
  ruleId : String
  enabled : Bool
  handle : String
  triggerCount : ℕ
  activeCount : ℕ
  lastTriggered : Option Time

def withActivity (activity : List (String × AlertRepository.Activity)) (entry : String × Bool) :
    Entry :=
  let act := Dict.get? activity entry.1
  { ruleId := entry.1
    enabled := entry.2
    handle := slug entry.1
    triggerCount := (act.map AlertRepository.Activity.triggerCount).getD 0
    activeCount := (act.map AlertRepository.Activity.activeCount).getD 0
    lastTriggered := act.bind AlertRepository.Activity.lastTriggered }

/-- The API builds an engine of its own, in which no rule is disabled. -/
def catalogueWithActivity (enableMl : Bool) {t : Alerts} (result : Groups Alert.ruleId t.rows) :
    List Entry :=
  (catalogue {} ++ statisticalRules enableMl).map
    (withActivity (AlertRepository.ruleActivity result))

structure Listing where
  rules : List Entry
  count : ℕ
  totalTriggers : ℕ

def listDetections (enableMl : Bool) {t : Alerts} (result : Groups Alert.ruleId t.rows) :
    Listing :=
  let rules := catalogueWithActivity enableMl result
  { rules, count := rules.length, totalTriggers := (rules.map Entry.triggerCount).sum }

/-- The catalogue has every alert under one rule, as the alerts page has it. -/
structure Accounts (t : Alerts) (listing : Listing) : Prop where
  total : listing.totalTriggers = t.rows.length
  active : (listing.rules.map Entry.activeCount).sum =
    (AlertRepository.filtered t { activeOnly := true }).length
  rules : ∀ entry ∈ listing.rules, entry.triggerCount =
    (AlertRepository.filtered t { ruleId := some entry.ruleId }).length
  latest : ∀ entry ∈ listing.rules, entry.lastTriggered =
    ((AlertRepository.filtered t { ruleId := some entry.ruleId }).map Alert.lastSeen).max?

theorem get?_map_mk {κ β : Type*} [DecidableEq κ] (ks : List κ) (f : κ → β) (k : κ) :
    Dict.get? (ks.map fun k => (k, f k)) k = if k ∈ ks then some (f k) else none := by
  induction ks with
  | nil => rfl
  | cons l ks ih =>
    rw [List.map_cons, Dict.get?_cons, ih]
    by_cases hk : k = l
    · simp [hk]
    · simp [hk]

theorem ids_catalogue (enableMl : Bool) :
    (catalogue {} ++ statisticalRules enableMl).map Prod.fst = detectorIds := by
  rw [List.map_append, catalogue, List.map_map]
  rfl

theorem activity_of_rule {t : Alerts} (result : Groups Alert.ruleId t.rows) (ruleId : String) :
    let act := Dict.get? (AlertRepository.ruleActivity result) ruleId
    let alerts := group Alert.ruleId t.rows ruleId
    (act.map AlertRepository.Activity.triggerCount).getD 0 = alerts.length ∧
      (act.map AlertRepository.Activity.activeCount).getD 0 =
        alerts.countP (fun a => a.status ∈ AlertRepository.activeStatuses) ∧
      act.bind AlertRepository.Activity.lastTriggered = (alerts.map Alert.lastSeen).max? := by
  intro act alerts
  have hact : act = if ruleId ∈ result.list then some
      { triggerCount := alerts.length
        activeCount := alerts.countP fun a => a.status ∈ AlertRepository.activeStatuses
        lastTriggered := (alerts.map Alert.lastSeen).max? } else none := get?_map_mk _ _ _
  rw [hact]
  split_ifs with hmem
  · exact ⟨rfl, rfl, rfl⟩
  · have hnone : alerts = [] := List.length_eq_zero_iff.mp
      (Grouping.size_eq_zero fun h => hmem (result.perm.mem_iff.mpr h))
    rw [hnone]
    exact ⟨rfl, rfl, rfl⟩

theorem map_rules {β : Type*} {enableMl : Bool} {t : Alerts}
    {result : Groups Alert.ruleId t.rows} {f : Entry → β} {g : String → β}
    (h : ∀ rule, f (withActivity (AlertRepository.ruleActivity result) rule) = g rule.1) :
    (listDetections enableMl result).rules.map f = detectorIds.map g := by
  change (catalogueWithActivity enableMl result).map f = _
  rw [catalogueWithActivity, List.map_map, ← ids_catalogue enableMl, List.map_map]
  exact List.map_congr_left fun rule _ => h rule

theorem filtered_ruleId (t : Alerts) {ruleId : String} (h : ruleId ≠ "") :
    AlertRepository.filtered t { ruleId := some ruleId } = group Alert.ruleId t.rows ruleId := by
  have hnone : given none = none := rfl
  have hsome : given (some ruleId) = some ruleId := Option.filter_some_pos (by simpa using h)
  refine List.filter_congr fun a _ => ?_
  simp [AlertRepository.passes, hnone, hsome]

/-- Whatever the pipeline and the analysts have done, the catalogue leaves no alert out: its
totals are those of the alerts page. -/
theorem catalogue_accounts (cfg : Config) (start : Time) (between : ℕ → List Tables.Act) (i : ℕ)
    (enableMl : Bool)
    (result : Groups Alert.ruleId (Tables.seenBy cfg start between i).alerts.rows) :
    Accounts (Tables.seenBy cfg start between i).alerts (listDetections enableMl result) := by
  have hknown : ∀ a ∈ (Tables.seenBy cfg start between i).alerts.rows, a.ruleId ∈ detectorIds :=
    fun a ha => Tables.ruleId_seenBy i a.origin (List.mem_map_of_mem ha)
  generalize (Tables.seenBy cfg start between i).alerts = t at *
  have hnodup : detectorIds.Nodup := by decide
  have hnonempty : ∀ ruleId ∈ detectorIds, ruleId ≠ "" := by decide
  have hentry : ∀ entry ∈ (listDetections enableMl result).rules,
      AlertRepository.filtered t { ruleId := some entry.ruleId } =
        group Alert.ruleId t.rows entry.ruleId := by
    intro entry hentry
    obtain ⟨rule, hrule, rfl⟩ := List.mem_map.mp hentry
    have hmem : rule.1 ∈ detectorIds := ids_catalogue enableMl ▸ List.mem_map_of_mem hrule
    exact filtered_ruleId t (hnonempty _ hmem)
  refine ⟨?_, ?_, fun entry hmem => ?_, fun entry hmem => ?_⟩
  · have hcounts : (listDetections enableMl result).rules.map Entry.triggerCount =
        detectorIds.map fun ruleId => (group Alert.ruleId t.rows ruleId).length :=
      map_rules fun rule => (activity_of_rule result rule.1).1
    have hsum := Grouping.sum_countP_of_cover (fun _ => true) hnodup hknown
    simp only [List.countP_true] at hsum
    exact (congrArg List.sum hcounts).trans hsum
  · have hcounts : (listDetections enableMl result).rules.map Entry.activeCount =
        detectorIds.map fun ruleId => (group Alert.ruleId t.rows ruleId).countP fun a =>
          a.status ∈ AlertRepository.activeStatuses :=
      map_rules fun rule => (activity_of_rule result rule.1).2.1
    rw [hcounts, Grouping.sum_countP_of_cover _ hnodup hknown, AlertRepository.filtered,
      ← List.countP_eq_length_filter]
    exact List.countP_congr fun a _ => by rw [Dashboard.passes_activeOnly]; rfl
  · rw [hentry entry hmem]
    obtain ⟨rule, -, rfl⟩ := List.mem_map.mp hmem
    exact (activity_of_rule result rule.1).1
  · rw [hentry entry hmem]
    obtain ⟨rule, -, rfl⟩ := List.mem_map.mp hmem
    exact (activity_of_rule result rule.1).2.2

theorem catalogue_accounts_escalation :
    let reported : ℕ → List Tables.Act := fun _ =>
      [.call (Pipeline.callAtZero [Pipeline.escalationRaw] none)]
    let t := (Tables.seenBy { py := .ascii } 0 reported 0).alerts
    let listing := listDetections true (Groups.ofRows Alert.ruleId t.rows)
    (listing.rules.filter fun entry => entry.triggerCount ≠ 0).map
        (fun entry => (entry.handle, entry.activeCount)) = [("PRIVILEGE_ESCALATION", 1)] ∧
      Accounts t listing := by
  intro reported t listing
  refine ⟨by decide +kernel, ?_⟩
  exact catalogue_accounts { py := .ascii } 0 reported 0 true (Groups.ofRows Alert.ruleId t.rows)

end SiemEngine.Detections

import Mathlib.Algebra.BigOperators.Group.List.Lemmas
import SiemEngine.Lib.Run
import SiemEngine.Models.Alert

/-!
# Views of the active alerts

The dashboard counts the alerts that are still being worked; the worker refreshes a gauge and
a hash in Redis that are to show the same numbers. A refresh writes only the severities it
counted into the hash, over what an earlier refresh left there.
-/

namespace SiemEngine

theorem Severity.value_injective : Function.Injective Severity.value := by
  intro s t h
  cases s <;> cases t <;> first | rfl | exact absurd h (by decide)

theorem AlertStatus.value_injective : Function.Injective AlertStatus.value := by
  intro s t h
  cases s <;> cases t <;> first | rfl | exact absurd h (by decide)

def AlertStatus.all : List AlertStatus :=
  [.open, .acknowledged, .investigating, .resolved, .falsePositive]

namespace ActiveAlerts

abbrev Counts := List (String × ℕ)

def group (a : Alert) : AlertStatus × Severity := (a.status, a.severity)

/-- The rows of `GROUP BY status, severity`, in some order. -/
structure Groups (t : Alerts) where
  rows : List ((AlertStatus × Severity) × ℕ)
  perm : rows.Perm (((t.rows.map group).dedup).map fun g =>
    (g, t.rows.countP fun a => group a = g))

def key (g : AlertStatus × Severity) : String := g.1.value ++ ":" ++ g.2.value

def countsByStatusSeverity {t : Alerts} (groups : Groups t) : Counts :=
  Dict.update [] (groups.rows.map fun gn => (key gn.1, gn.2))

/-- `status, sev = key.split(":")`. -/
def splitKey (key : String) : Option (String × String) :=
  match key.toList.splitOn ':' with
  | [status, sev] => some (String.ofList status, String.ofList sev)
  | _ => none

/-- The loop of both views: the counts of the statuses that are admitted, by severity; `none`
when a key does not split or a status is rejected. -/
def tally (admits : String → Option Bool) (start : Counts) (counts : Counts) : Option Counts :=
  counts.foldlM (fun acc kn => (splitKey kn.1).bind fun statusSev =>
    (admits statusSev.1).map fun admitted =>
      if admitted then
        Dict.set acc statusSev.2 ((Dict.get? acc statusSev.2).getD 0 + kn.2)
      else acc) start

/-- The dashboard's `AlertStatus(status).is_active`. -/
def isActive (status : String) : Option Bool :=
  (ofValue? AlertStatus.all AlertStatus.value status).map AlertStatus.isActive

/-- The worker's `status in {AlertStatus.OPEN, AlertStatus.ACKNOWLEDGED}`. -/
def isOpenOrAcknowledged (status : String) : Option Bool :=
  some (status = AlertStatus.open.value || status = AlertStatus.acknowledged.value)

def activeAlertsBySeverity (counts : Counts) : Option Counts :=
  tally isActive [("critical", 0), ("high", 0), ("medium", 0), ("low", 0), ("info", 0)] counts

structure RedisHash where
  fields : List (String × String)
  expiresAt : Option Time

namespace RedisHash

def alive (h : RedisHash) (clock : Time) : Bool := h.expiresAt.all (clock ≤ ·)

def hset (stored : Option RedisHash) (clock : Time) (mapping : List (String × String)) :
    RedisHash :=
  match stored.filter (·.alive clock) with
  | none => ⟨Dict.update [] mapping, none⟩
  | some h => { h with fields := Dict.update h.fields mapping }

def expire (h : RedisHash) (clock : Time) (seconds : ℤ) : Option RedisHash :=
  if h.alive clock then
    some { h with expiresAt := some (clock + seconds * Datetime.microsPerSecond) }
  else none

end RedisHash

structure Metrics where
  activeAlerts : Counts
  hash : Option RedisHash

/-- One call: the table it reads, and the clock of Redis at its two commands. -/
structure Refresh where
  table : Alerts
  groups : Groups table
  writtenAt : Time
  renewedAt : Time
  written_le : writtenAt ≤ renewedAt

def severities : List Severity := [.info, .low, .medium, .high, .critical]

def setGauge (gauge : Counts) (active : Counts) : Counts :=
  severities.foldl (fun acc sev =>
    Dict.set acc sev.value ((Dict.get? active sev.value).getD 0)) gauge

def mapping (active : Counts) : List (String × String) :=
  if active = [] then [("none", "0")] else active.map fun kn => (kn.1, kn.2.repr)

def refreshActiveAlertGauge (m : Metrics) (c : Refresh) : Metrics :=
  match tally isOpenOrAcknowledged [] (countsByStatusSeverity c.groups) with
  | none => m
  | some active =>
    { activeAlerts := setGauge m.activeAlerts active
      hash := (RedisHash.hset m.hash c.writtenAt (mapping active)).expire c.renewedAt 120 }

def gaugeNumber (m : Metrics) (sev : Severity) : ℕ :=
  (Dict.get? m.activeAlerts sev.value).getD 0

def RedisHash.number (h : RedisHash) (sev : Severity) : ℕ :=
  ((Dict.get? h.fields sev.value).bind fun text => Text.unsigned 10 text.toList).getD 0

def hashNumber (m : Metrics) (sev : Severity) : ℕ := (m.hash.map (·.number sev)).getD 0

def dashboardNumber {t : Alerts} (groups : Groups t) (sev : Severity) : Option ℕ :=
  (activeAlertsBySeverity (countsByStatusSeverity groups)).map fun active =>
    (Dict.get? active sev.value).getD 0

def activeCount (t : Alerts) (sev : Severity) : ℕ :=
  t.rows.countP fun a => a.status.isActive && a.severity = sev

theorem splitKey_key (g : AlertStatus × Severity) :
    splitKey (key g) = some (g.1.value, g.2.value) := by
  obtain ⟨status, sev⟩ := g
  cases status <;> cases sev <;> decide +kernel

theorem key_injective : Function.Injective key := by
  intro g g' h
  have hsplit := splitKey_key g
  rw [h, splitKey_key g', Option.some.injEq, Prod.mk.injEq] at hsplit
  exact Prod.ext (AlertStatus.value_injective hsplit.1.symm)
    (Severity.value_injective hsplit.2.symm)

theorem countsByStatusSeverity_eq {t : Alerts} (groups : Groups t) :
    countsByStatusSeverity groups = groups.rows.map fun gn => (key gn.1, gn.2) := by
  refine Dict.update_nil_of_nodup ?_
  have hrows : (groups.rows.map Prod.fst).Nodup := by
    refine (groups.perm.map Prod.fst).nodup_iff.mpr ?_
    rw [List.map_map]
    exact (List.nodup_dedup _).map_on fun g _ g' _ h => h
  have hkeys : (groups.rows.map fun gn => (key gn.1, gn.2)).map Prod.fst =
      (groups.rows.map Prod.fst).map key := by
    rw [List.map_map, List.map_map]
    rfl
  rw [hkeys]
  exact hrows.map key_injective

def addGroup (admitted : AlertStatus → Bool) (acc : Counts)
    (gn : (AlertStatus × Severity) × ℕ) : Counts :=
  if admitted gn.1.1 then
    Dict.set acc gn.1.2.value ((Dict.get? acc gn.1.2.value).getD 0 + gn.2)
  else acc

theorem tally_eq {admits : String → Option Bool} {admitted : AlertStatus → Bool}
    (h : ∀ status, admits status.value = some (admitted status)) (start : Counts)
    (rows : List ((AlertStatus × Severity) × ℕ)) :
    tally admits start (rows.map fun gn => (key gn.1, gn.2)) =
      some (rows.foldl (addGroup admitted) start) := by
  induction rows generalizing start with
  | nil => rfl
  | cons gn rows ih =>
    have hstep : ((splitKey (key gn.1)).bind fun statusSev =>
        (admits statusSev.1).map fun admitted =>
          if admitted then
            Dict.set start statusSev.2 ((Dict.get? start statusSev.2).getD 0 + gn.2)
          else start) = some (addGroup admitted start gn) := by
      rw [splitKey_key, Option.bind_some, h, Option.map_some]
      rfl
    have hrest := ih (addGroup admitted start gn)
    unfold tally at hrest ⊢
    rw [List.map_cons, List.foldlM_cons, hstep]
    exact hrest

theorem getD_foldl_addGroup (admitted : AlertStatus → Bool) (start : Counts)
    (rows : List ((AlertStatus × Severity) × ℕ)) (sev : Severity) :
    (Dict.get? (rows.foldl (addGroup admitted) start) sev.value).getD 0 =
      (Dict.get? start sev.value).getD 0 +
        ((rows.filter fun gn => admitted gn.1.1 && gn.1.2 = sev).map Prod.snd).sum := by
  induction rows generalizing start with
  | nil => rfl
  | cons gn rows ih =>
    have hadd : (Dict.get? (addGroup admitted start gn) sev.value).getD 0 =
        (Dict.get? start sev.value).getD 0 +
          (if admitted gn.1.1 && gn.1.2 = sev then gn.2 else 0) := by
      unfold addGroup
      by_cases hstatus : admitted gn.1.1 = true
      · by_cases hsev : gn.1.2 = sev
        · simp [hstatus, hsev]
        · have hne : sev.value ≠ gn.1.2.value := fun heq =>
            hsev (Severity.value_injective heq).symm
          simp [hstatus, hsev, Dict.get?_set_ne _ hne]
      · simp [hstatus]
    rw [List.foldl_cons, ih, hadd, List.filter_cons]
    split_ifs <;> simp [Nat.add_assoc]

theorem sum_groups {t : Alerts} (groups : Groups t) (admitted : AlertStatus → Bool)
    (sev : Severity) :
    ((groups.rows.filter fun gn => admitted gn.1.1 && gn.1.2 = sev).map Prod.snd).sum =
      t.rows.countP fun a => admitted a.status && a.severity = sev := by
  have hsum := List.sum_map_count_dedup_filter_eq_countP
    (fun g : AlertStatus × Severity => admitted g.1 && decide (g.2 = sev)) (t.rows.map group)
  have hcount : ∀ g, @List.count _ instBEqOfDecidableEq g (t.rows.map group) =
      t.rows.countP fun a => group a = g := by
    intro g
    unfold List.count
    rw [List.countP_map]
    exact List.countP_congr fun a _ => by simp
  have hperm := ((groups.perm.filter fun gn => admitted gn.1.1 && gn.1.2 = sev).map Prod.snd).sum_eq
  simp only [List.countP_map, hcount] at hsum
  rw [hperm, List.filter_map, List.map_map]
  exact hsum

theorem pos_of_mem_rows {t : Alerts} (groups : Groups t) :
    ∀ gn ∈ groups.rows, 0 < gn.2 := by
  intro gn hgn
  obtain ⟨g, hg, rfl⟩ := List.mem_map.mp (groups.perm.mem_iff.mp hgn)
  obtain ⟨a, ha, hga⟩ := List.mem_map.mp (List.mem_dedup.mp hg)
  exact List.countP_pos_iff.mpr ⟨a, ha, decide_eq_true hga⟩

theorem pos_of_foldl_addGroup {admitted : AlertStatus → Bool} {start : Counts}
    {rows : List ((AlertStatus × Severity) × ℕ)} (hrows : ∀ gn ∈ rows, 0 < gn.2)
    (hstart : ∀ k n, Dict.get? start k = some n → 0 < n) :
    ∀ k n, Dict.get? (rows.foldl (addGroup admitted) start) k = some n → 0 < n := by
  induction rows generalizing start with
  | nil => exact hstart
  | cons gn rows ih =>
    obtain ⟨hgn, hrest⟩ := List.forall_mem_cons.mp hrows
    refine ih hrest fun k n hk => ?_
    unfold addGroup at hk
    split_ifs at hk
    · by_cases hkey : k = gn.1.2.value
      · rw [hkey, Dict.get?_set_self, Option.some.injEq] at hk
        omega
      · rw [Dict.get?_set_ne _ hkey] at hk
        exact hstart k n hk
    · exact hstart k n hk

theorem nodup_keys_foldl_addGroup {admitted : AlertStatus → Bool} {start : Counts}
    (hstart : (start.map Prod.fst).Nodup) (rows : List ((AlertStatus × Severity) × ℕ)) :
    ((rows.foldl (addGroup admitted) start).map Prod.fst).Nodup := by
  induction rows generalizing start with
  | nil => exact hstart
  | cons gn rows ih =>
    refine ih ?_
    unfold addGroup
    split_ifs
    · exact Dict.nodup_keys_set hstart _ _
    · exact hstart

def workedCount (t : Alerts) (sev : Severity) : ℕ :=
  t.rows.countP fun a => (a.status = .open || a.status = .acknowledged) && a.severity = sev

def worked (status : AlertStatus) : Bool := status = .open || status = .acknowledged

theorem dashboardNumber_eq {t : Alerts} (groups : Groups t) (sev : Severity) :
    dashboardNumber groups sev = some (activeCount t sev) := by
  have hadmits : ∀ status : AlertStatus, isActive status.value = some status.isActive := by
    intro status
    cases status <;> rfl
  have hstart : (Dict.get? ([("critical", 0), ("high", 0), ("medium", 0), ("low", 0),
      ("info", 0)] : Counts) sev.value).getD 0 = 0 := by
    cases sev <;> rfl
  unfold dashboardNumber activeAlertsBySeverity
  rw [countsByStatusSeverity_eq, tally_eq hadmits, Option.map_some, getD_foldl_addGroup, hstart,
    sum_groups, Nat.zero_add]
  rfl

structure Counted (t : Alerts) (active : Counts) : Prop where
  nodup : (active.map Prod.fst).Nodup
  get? : ∀ sev : Severity, Dict.get? active sev.value =
    if workedCount t sev = 0 then none else some (workedCount t sev)

theorem exists_counted {t : Alerts} (groups : Groups t) : ∃ active,
    tally isOpenOrAcknowledged [] (countsByStatusSeverity groups) = some active ∧
      Counted t active := by
  have hadmits : ∀ status : AlertStatus, isOpenOrAcknowledged status.value =
      some (worked status) := by
    intro status
    cases status <;> decide
  refine ⟨groups.rows.foldl (addGroup worked) [], ?_, ?_, fun sev => ?_⟩
  · rw [countsByStatusSeverity_eq, tally_eq hadmits]
  · exact @nodup_keys_foldl_addGroup worked [] List.nodup_nil _
  · have hvalue := getD_foldl_addGroup worked [] groups.rows sev
    have hpos := @pos_of_foldl_addGroup worked [] _ (pos_of_mem_rows groups)
      (fun k n hk => by cases hk) sev.value
    rw [sum_groups, Dict.get?_nil, Option.getD_none, Nat.zero_add] at hvalue
    change _ = workedCount t sev at hvalue
    cases hget : Dict.get? (groups.rows.foldl (addGroup worked) []) sev.value with
    | none =>
      rw [hget, Option.getD_none] at hvalue
      rw [if_pos hvalue.symm]
    | some n =>
      have hn := hpos n hget
      rw [hget, Option.getD_some] at hvalue
      rw [← hvalue, if_neg hn.ne']

variable {t : Alerts} {active : Counts}

theorem getD_setGauge (gauge : Counts) (active : Counts) (sev : Severity) :
    (Dict.get? (setGauge gauge active) sev.value).getD 0 =
      (Dict.get? active sev.value).getD 0 := by
  unfold setGauge severities
  simp only [List.foldl_cons, List.foldl_nil]
  cases sev <;> simp [Dict.get?_set_ne, Severity.value]

theorem get?_mapping (h : Counted t active) (sev : Severity) :
    Dict.get? (mapping active) sev.value =
      if workedCount t sev = 0 then none else some (workedCount t sev).repr := by
  have hget := h.get? sev
  unfold mapping
  by_cases hempty : active = []
  · rw [hempty, Dict.get?_nil] at hget
    have hzero : workedCount t sev = 0 := by
      by_contra hne
      rw [if_neg hne] at hget
      cases hget
    rw [if_pos hempty, if_pos hzero]
    cases sev <;> rfl
  · rw [if_neg hempty, Dict.get?_map, hget]
    split_ifs <;> rfl

theorem nodup_keys_mapping (h : Counted t active) : ((mapping active).map Prod.fst).Nodup := by
  unfold mapping
  split_ifs
  · exact List.nodup_singleton _
  · rw [List.map_map]
    exact h.nodup

theorem number_update (h : Counted t active) (old : RedisHash) (sev : Severity) :
    RedisHash.number { old with fields := Dict.update old.fields (mapping active) } sev =
      if workedCount t sev = 0 then old.number sev else workedCount t sev := by
  unfold RedisHash.number
  dsimp only
  rw [Dict.get?_update, Dict.get?_reverse (nodup_keys_mapping h), get?_mapping h]
  split_ifs with hzero
  · rw [Option.none_or]
  · rw [Option.some_or, Option.bind_some, Nat.toList_repr, Text.unsigned_toDigits,
      Option.getD_some]

theorem refreshActiveAlertGauge_eq (m : Metrics) (c : Refresh) : ∃ active,
    Counted c.table active ∧ refreshActiveAlertGauge m c =
      { activeAlerts := setGauge m.activeAlerts active
        hash := (RedisHash.hset m.hash c.writtenAt (mapping active)).expire c.renewedAt 120 } := by
  obtain ⟨active, htally, hcounted⟩ := exists_counted c.groups
  refine ⟨active, hcounted, ?_⟩
  unfold refreshActiveAlertGauge
  rw [htally]

theorem gaugeNumber_refresh (m : Metrics) (c : Refresh) (sev : Severity) :
    gaugeNumber (refreshActiveAlertGauge m c) sev = workedCount c.table sev := by
  obtain ⟨active, hcounted, heq⟩ := refreshActiveAlertGauge_eq m c
  rw [heq, gaugeNumber, getD_setGauge, hcounted.get?]
  split_ifs with hzero
  · exact hzero.symm
  · rfl

theorem hashNumber_expire (h : RedisHash) (clock : Time) (gauge : Counts) (sev : Severity) :
    hashNumber ⟨gauge, h.expire clock 120⟩ sev = if h.alive clock then h.number sev else 0 := by
  unfold hashNumber RedisHash.expire
  split_ifs <;> rfl

theorem hashNumber_refresh (m : Metrics) (c : Refresh) (sev : Severity) :
    hashNumber (refreshActiveAlertGauge m c) sev =
      match m.hash.filter (·.alive c.writtenAt) with
      | none => workedCount c.table sev
      | some h =>
        if h.alive c.renewedAt then
          if workedCount c.table sev = 0 then h.number sev else workedCount c.table sev
        else 0 := by
  obtain ⟨active, hcounted, heq⟩ := refreshActiveAlertGauge_eq m c
  rw [heq, hashNumber_expire]
  unfold RedisHash.hset
  cases m.hash.filter (·.alive c.writtenAt) with
  | none =>
    have hnumber := number_update hcounted ⟨[], none⟩ sev
    have hempty : RedisHash.number ⟨[], none⟩ sev = 0 := rfl
    dsimp only at hnumber ⊢
    rw [hnumber, hempty, if_pos (show RedisHash.alive ⟨_, none⟩ c.renewedAt = true from rfl)]
    split_ifs with hzero
    · exact hzero.symm
    · rfl
  | some h =>
    dsimp only
    rw [number_update hcounted]
    rfl

def ViewsAgree (t : Alerts) (m : Metrics) : Prop :=
  ∀ sev, gaugeNumber m sev = activeCount t sev ∧ hashNumber m sev = activeCount t sev ∧
    ∀ groups : Groups t, dashboardNumber groups sev = some (activeCount t sev)

/-- No alert is under investigation, a severity that the hash still shows has active alerts, and
the hash does not run out between the two commands while there is something to show. -/
structure Steady (m : Metrics) (c : Refresh) : Prop where
  not_investigating : ∀ a ∈ c.table.rows, a.status ≠ .investigating
  kept : ∀ h ∈ m.hash, h.alive c.renewedAt → ∀ sev, h.number sev ≠ 0 →
    activeCount c.table sev ≠ 0
  renewed : ∀ h ∈ m.hash, h.alive c.writtenAt → ¬ h.alive c.renewedAt → ∀ sev,
    activeCount c.table sev = 0

theorem activeCount_eq (t : Alerts) (sev : Severity) : activeCount t sev =
    workedCount t sev + t.rows.countP fun a => a.status = .investigating && a.severity = sev := by
  unfold activeCount workedCount
  induction t.rows with
  | nil => rfl
  | cons a rows ih =>
    rw [List.countP_cons, List.countP_cons, List.countP_cons, ih]
    cases hstatus : a.status <;> simp [AlertStatus.isActive] <;> omega

theorem workedCount_eq_iff (t : Alerts) : (∀ sev, workedCount t sev = activeCount t sev) ↔
    ∀ a ∈ t.rows, a.status ≠ .investigating := by
  constructor
  · intro h a ha hstatus
    have hcount := activeCount_eq t a.severity
    have hzero : (t.rows.countP fun b => b.status = .investigating && b.severity = a.severity) =
        0 := by
      have hsame := h a.severity
      omega
    exact List.countP_eq_zero.mp hzero a ha (by simp [hstatus])
  · intro h sev
    have hzero : (t.rows.countP fun a => a.status = .investigating && a.severity = sev) = 0 :=
      List.countP_eq_zero.mpr fun a ha => by simp [h a ha]
    rw [activeCount_eq, hzero, Nat.add_zero]

theorem RedisHash.alive_of_le {h : RedisHash} {clock clock' : Time} (hle : clock ≤ clock')
    (halive : h.alive clock') : h.alive clock := by
  unfold RedisHash.alive at halive ⊢
  cases hexpires : h.expiresAt with
  | none => rfl
  | some t =>
    rw [hexpires] at halive
    exact decide_eq_true (hle.trans (of_decide_eq_true halive))

theorem hashNumber_refresh_of_mem {m : Metrics} {c : Refresh} {h : RedisHash} (hh : h ∈ m.hash)
    (hwritten : h.alive c.writtenAt) (sev : Severity) :
    hashNumber (refreshActiveAlertGauge m c) sev =
      if h.alive c.renewedAt then
        if workedCount c.table sev = 0 then h.number sev else workedCount c.table sev
      else 0 := by
  have hstored : m.hash.filter (·.alive c.writtenAt) = some h := by
    rw [Option.mem_def.mp hh]
    exact Option.filter_some_pos hwritten
  rw [hashNumber_refresh, hstored]

/-- The gauge is written whole, so it is right exactly when nothing is under investigation. -/
theorem viewsAgree_iff_hashNumber (m : Metrics) (c : Refresh) :
    ViewsAgree c.table (refreshActiveAlertGauge m c) ↔
      (∀ a ∈ c.table.rows, a.status ≠ .investigating) ∧
        ∀ sev, hashNumber (refreshActiveAlertGauge m c) sev = activeCount c.table sev := by
  rw [← workedCount_eq_iff]
  refine ⟨fun h => ⟨fun sev => ?_, fun sev => (h sev).2.1⟩, fun h sev => ?_⟩
  · rw [← gaugeNumber_refresh m c]
    exact (h sev).1
  · refine ⟨?_, h.2 sev, fun groups => dashboardNumber_eq groups sev⟩
    rw [gaugeNumber_refresh]
    exact h.1 sev

theorem viewsAgree_refresh_iff (m : Metrics) (c : Refresh) :
    ViewsAgree c.table (refreshActiveAlertGauge m c) ↔ Steady m c := by
  rw [viewsAgree_iff_hashNumber]
  have hcount := workedCount_eq_iff c.table
  constructor
  · rintro ⟨hnone, hhash⟩
    have hworked := hcount.mpr hnone
    refine ⟨hnone, fun h hh halive sev hshown hzero => ?_, fun h hh hwritten hrenewed sev => ?_⟩
    · have hwritten := RedisHash.alive_of_le c.written_le halive
      have hnumber := hhash sev
      rw [hashNumber_refresh_of_mem hh hwritten, if_pos halive, hworked, if_pos hzero,
        hzero] at hnumber
      exact hshown hnumber
    · have hnumber := hhash sev
      rw [hashNumber_refresh_of_mem hh hwritten, if_neg hrenewed] at hnumber
      exact hnumber.symm
  · intro h
    have hworked := hcount.mpr h.not_investigating
    refine ⟨h.not_investigating, fun sev => ?_⟩
    rw [hashNumber_refresh, hworked]
    cases hstored : m.hash.filter (·.alive c.writtenAt) with
    | none => rfl
    | some old =>
      obtain ⟨hold, hwritten⟩ := Option.filter_eq_some_iff.mp hstored
      dsimp only
      split_ifs with halive hzero
      · by_contra hne
        rw [hzero] at hne
        exact h.kept old hold halive sev hne hzero
      · rfl
      · exact (h.renewed old hold hwritten halive sev).symm

def observe (r : Metrics × Option Alerts) (c : Refresh) : Metrics × Option Alerts :=
  (refreshActiveAlertGauge r.1 c, some c.table)

def Observed (r : Metrics × Option Alerts) : Prop := ∀ t ∈ r.2, ViewsAgree t r.1

/-- The views agree after every refresh exactly when every refresh was steady. -/
theorem observed_iff_steady (m : Metrics) (calls : List Refresh) :
    Run.Holds observe Observed (m, none) calls ↔
      Run.Guarded refreshActiveAlertGauge Steady m calls := by
  have hobserved : ∀ (r : Metrics × Option Alerts) (c : Refresh),
      Observed (observe r c) ↔ Steady r.1 c := by
    intro r c
    refine Iff.trans ⟨fun h => h c.table rfl, fun h t ht => ?_⟩ (viewsAgree_refresh_iff r.1 c)
    cases ht
    exact h
  have hrun : Run.Holds observe Observed (m, none) calls ↔
      Run.Guarded observe (fun r c => Steady r.1 c) (m, none) calls :=
    Run.holds_iff_guarded (I := Observed) (fun _ h => h)
      (fun r c _ hsteady => (hobserved r c).mpr hsteady)
      (fun r c _ h => (hobserved r c).mp h) (fun t ht => by cases ht) calls
  have hmap : ∀ r c, (observe r c).1 = refreshActiveAlertGauge r.1 c := fun _ _ => rfl
  exact hrun.trans (Run.guarded_map_iff hmap (m, none) calls)

def Groups.ofTable (t : Alerts) : Groups t := ⟨_, List.Perm.refl _⟩

def oneAlert (status : AlertStatus) : Alerts where
  rows :=
    [{ ruleId := "brute-force", detectionKind := .rule, title := "", description := "",
       severity := .high, confidence := 1, status := status, firstSeen := 0, lastSeen := 0,
       sourceIp := none, affectedHost := none, eventCount := 1, involvedUsers := [],
       involvedHosts := [], evidence := [], recommendedAction := "", correlationKey := "ip:-",
       anomalyScore := none, alertMetadata := [] }]
  uqAlertOpenWindow := List.nodup_singleton _

def refreshOf (status : AlertStatus) (clock : Time) : Refresh where
  table := oneAlert status
  groups := Groups.ofTable _
  writtenAt := clock
  renewedAt := clock
  written_le := le_refl _

/-- The only alert is resolved between two refreshes ten seconds apart. -/
theorem not_observed_resolved : ¬ Run.Holds observe Observed (⟨[], none⟩, none)
    [refreshOf .open 0, refreshOf .resolved (10 * Datetime.microsPerSecond)] := by
  intro h
  have hshown := (h.2.2 (oneAlert .resolved) rfl .high).2.1
  exact absurd hshown (by decide +kernel)

end ActiveAlerts

end SiemEngine

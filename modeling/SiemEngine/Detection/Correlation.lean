import Mathlib.Data.List.DropRight
import Mathlib.Data.List.Sort
import Mathlib.Data.String.Basic
import Mathlib.Algebra.Order.Ring.Rat
import SiemEngine.Models.Alert

/-!
# Alert correlation

A detector fires once per contributing event; the correlator folds those firings into
one alert per `(rule_id, correlation_key)` while an alert for that key is still in a
non-terminal state. Where several rows match, the query of `get_open_by_key` has no
`ORDER BY`: `pref` is the row the database returns if it matches, so every matching row
can be the answer. A flush writes the attributes whose value differs from the one
loaded, which is what `Write` and `patch` keep apart from the row that is stored.
-/

namespace SiemEngine

def maxEvidence : ℕ := 25
def maxInvolved : ℕ := 50

def sortedUnion (xs ys : List String) : List String :=
  (xs ++ ys).dedup.insertionSort (· ≤ ·)

def addEvidence (acc : List Evidence) (item : Evidence) : List Evidence :=
  if item ∈ acc then acc else acc ++ [item]

namespace Alert

def ofDetection (now : Time) (d : Detection) : Alert where
  ruleId := d.ruleId
  detectionKind := d.kind
  title := d.title
  description := d.description
  severity := d.severity
  confidence := d.confidence
  status := .open
  firstSeen := now
  lastSeen := now
  sourceIp := d.sourceIp
  affectedHost := d.affectedHost
  eventCount := max 1 d.eventCountHint
  involvedUsers := d.involvedUsers.take maxInvolved
  involvedHosts := d.involvedHosts.take maxInvolved
  evidence := d.evidence.take maxEvidence
  recommendedAction := d.recommendedAction
  correlationKey := d.correlationKey
  anomalyScore := d.anomalyScore
  alertMetadata := d.metadata

def fold (now : Time) (existing : Alert) (d : Detection) : Alert :=
  let worse := existing.severity.rank < d.severity.rank
  { existing with
    lastSeen := now
    eventCount := max (existing.eventCount + 1) d.eventCountHint
    confidence := max existing.confidence d.confidence
    severity := if worse then d.severity else existing.severity
    title := if worse then d.title else existing.title
    description := if worse then d.description else existing.description
    involvedUsers := (sortedUnion existing.involvedUsers d.involvedUsers).take maxInvolved
    involvedHosts := (sortedUnion existing.involvedHosts
      (d.involvedHosts.filter (· ≠ ""))).take maxInvolved
    evidence := (d.evidence.foldl addEvidence existing.evidence).rtake maxEvidence
    alertMetadata := Dict.update existing.alertMetadata d.metadata
    anomalyScore := match d.anomalyScore with
      | none => existing.anomalyScore
      | some score => some (max (existing.anomalyScore.getD 0) score) }

@[simp] theorem fold_key (now : Time) (a : Alert) (d : Detection) :
    (a.fold now d).key = a.key := rfl

@[simp] theorem fold_status (now : Time) (a : Alert) (d : Detection) :
    (a.fold now d).status = a.status := rfl

@[simp] theorem fold_slot (now : Time) (a : Alert) (d : Detection) :
    (a.fold now d).slot = a.slot := rfl

theorem eventCount_lt_fold (now : Time) (a : Alert) (d : Detection) :
    a.eventCount < (a.fold now d).eventCount :=
  lt_of_lt_of_le (Int.lt_succ a.eventCount) (le_max_left _ _)

@[simp] theorem ofDetection_slot (now : Time) (d : Detection) :
    (ofDetection now d).slot = (d.key, .open) := rfl

/-- An attribute after a flush: overwritten when it was changed since it was loaded. -/
def flushed {α : Type*} [DecidableEq α] (loaded changed stored : α) : α :=
  if changed = loaded then stored else changed

@[simp] theorem flushed_self {α : Type*} [DecidableEq α] (loaded changed : α) :
    flushed loaded changed loaded = changed :=
  ite_eq_right_iff.mpr Eq.symm

@[simp] theorem flushed_same {α : Type*} [DecidableEq α] (loaded stored : α) :
    flushed loaded loaded stored = stored :=
  if_pos rfl

theorem flushed_of_ne {α : Type*} [DecidableEq α] {loaded changed : α} (h : changed ≠ loaded)
    (stored : α) : flushed loaded changed stored = changed :=
  if_neg h

def patch (loaded changed stored : Alert) : Alert where
  ruleId := flushed loaded.ruleId changed.ruleId stored.ruleId
  detectionKind := flushed loaded.detectionKind changed.detectionKind stored.detectionKind
  title := flushed loaded.title changed.title stored.title
  description := flushed loaded.description changed.description stored.description
  severity := flushed loaded.severity changed.severity stored.severity
  confidence := flushed loaded.confidence changed.confidence stored.confidence
  status := flushed loaded.status changed.status stored.status
  firstSeen := flushed loaded.firstSeen changed.firstSeen stored.firstSeen
  lastSeen := flushed loaded.lastSeen changed.lastSeen stored.lastSeen
  sourceIp := flushed loaded.sourceIp changed.sourceIp stored.sourceIp
  affectedHost := flushed loaded.affectedHost changed.affectedHost stored.affectedHost
  eventCount := flushed loaded.eventCount changed.eventCount stored.eventCount
  involvedUsers := flushed loaded.involvedUsers changed.involvedUsers stored.involvedUsers
  involvedHosts := flushed loaded.involvedHosts changed.involvedHosts stored.involvedHosts
  evidence := flushed loaded.evidence changed.evidence stored.evidence
  recommendedAction :=
    flushed loaded.recommendedAction changed.recommendedAction stored.recommendedAction
  correlationKey := flushed loaded.correlationKey changed.correlationKey stored.correlationKey
  anomalyScore := flushed loaded.anomalyScore changed.anomalyScore stored.anomalyScore
  alertMetadata := flushed loaded.alertMetadata changed.alertMetadata stored.alertMetadata

@[simp] theorem patch_self (loaded changed : Alert) : patch loaded changed loaded = changed := by
  cases changed
  simp only [patch, flushed_self]

theorem patch_key {loaded changed : Alert} (h : changed.key = loaded.key) (stored : Alert) :
    (patch loaded changed stored).key = stored.key := by
  have hr : changed.ruleId = loaded.ruleId := congrArg Prod.fst h
  have hc : changed.correlationKey = loaded.correlationKey := congrArg Prod.snd h
  simp only [key, patch, flushed, hr, hc, ↓reduceIte]

theorem patch_slot {loaded changed : Alert} (h : changed.slot = loaded.slot) (stored : Alert) :
    (patch loaded changed stored).slot = stored.slot := by
  have hs : changed.status = loaded.status := congrArg Prod.snd h
  refine Prod.ext (patch_key (congrArg Prod.fst h) stored) ?_
  simp only [slot, patch, flushed, hs, ↓reduceIte]

theorem patch_status_of_ne {loaded changed : Alert} (h : changed.status ≠ loaded.status)
    (stored : Alert) : (patch loaded changed stored).status = changed.status := by
  simp only [patch, flushed_of_ne h]

end Alert

inductive Write
  | insert (a : Alert)
  | update (id : ℕ) (loaded changed : Alert)

def Write.row : Write → Alert
  | .insert a => a
  | .update _ _ changed => changed

namespace Alerts

def openAt (t : Alerts) (key : String × String) (id : ℕ) : Bool :=
  (t.get? id).any fun a => a.key = key && a.status.isActive

def getOpenByKey (t : Alerts) (pref : ℕ) (key : String × String) : Option (ℕ × Alert) :=
  let id := if t.openAt key pref then some pref
    else (List.range t.rows.length).find? (t.openAt key)
  id.bind fun id => (t.get? id).map (Prod.mk id)

def write? (t : Alerts) : Write → Option Alerts
  | .insert a => t.insert? a
  | .update id loaded changed =>
    (t.get? id).bind fun stored => t.update? id (Alert.patch loaded changed stored)

theorem openAt_iff {t : Alerts} {key : String × String} {id : ℕ} : t.openAt key id ↔
    ∃ a, t.get? id = some a ∧ a.key = key ∧ a.status.isActive := by
  cases h : t.get? id <;> simp [openAt, h]

theorem getOpenByKey_eq_some {t : Alerts} {pref id : ℕ} {key : String × String} {a : Alert}
    (h : t.getOpenByKey pref key = some (id, a)) :
    t.get? id = some a ∧ a.key = key ∧ a.status.isActive := by
  have hget : t.openAt key id ∧ t.get? id = some a := by
    simp only [getOpenByKey, Option.bind_eq_some_iff, Option.map_eq_some_iff,
      Prod.mk.injEq] at h
    obtain ⟨i, hi, b, hb, rfl, rfl⟩ := h
    refine ⟨?_, hb⟩
    split_ifs at hi with hp
    · rwa [← Option.some.inj hi]
    · exact List.find?_some hi
  obtain ⟨b, hb, hkey⟩ := openAt_iff.mp hget.1
  cases hb.symm.trans hget.2
  exact ⟨hb, hkey⟩

theorem getOpenByKey_eq_none {t : Alerts} {pref : ℕ} {key : String × String} :
    t.getOpenByKey pref key = none ↔ ∀ id, ¬ t.openAt key id := by
  constructor
  · intro h id hid
    obtain ⟨a, ha, hkey⟩ := openAt_iff.mp hid
    have hlt : id < t.rows.length := (List.getElem?_eq_some_iff.mp ha).1
    simp only [getOpenByKey, Option.bind_eq_none_iff, Option.map_eq_none_iff] at h
    split_ifs at h with hp
    · obtain ⟨b, hb, -⟩ := openAt_iff.mp hp
      exact absurd hb (by simp [h pref rfl])
    · cases hf : (List.range t.rows.length).find? (t.openAt key) with
      | none => exact List.find?_eq_none.mp hf id (List.mem_range.mpr hlt) hid
      | some j =>
        obtain ⟨b, hb, -⟩ := openAt_iff.mp (List.find?_some hf)
        exact absurd hb (by simp [h j hf])
  · intro h
    have hf : (List.range t.rows.length).find? (t.openAt key) = none :=
      List.find?_eq_none.mpr fun id _ => h id
    simp only [getOpenByKey, if_neg (h pref), hf, Option.bind_none]

theorem getOpenByKey_of_openAt {t : Alerts} {id : ℕ} {key : String × String} {a : Alert}
    (ha : t.get? id = some a) (hkey : a.key = key) (hact : a.status.isActive) :
    t.getOpenByKey id key = some (id, a) := by
  have hopen : t.openAt key id := openAt_iff.mpr ⟨a, ha, hkey, hact⟩
  simp only [getOpenByKey, if_pos hopen, Option.bind_some, ha, Option.map_some]

end Alerts

namespace AlertCorrelator

/-- The part of `apply` up to the flush: the object added, or the one loaded and folded. -/
def plan (t : Alerts) (pref : ℕ) (clock : Time) (d : Detection) : Write :=
  let now := d.triggeredAt.getD clock
  match t.getOpenByKey pref d.key with
  | none => .insert (Alert.ofDetection now d)
  | some (id, existing) => .update id existing (existing.fold now d)

def apply (t : Alerts) (pref : ℕ) (clock : Time) (d : Detection) : Option Alerts :=
  t.write? (plan t pref clock d)

/-- What `apply` can do: create an alert when the key has no active one, or fold into an
active one. It never fails. -/
theorem apply_cases (t : Alerts) (pref : ℕ) (clock : Time) (d : Detection) :
    ∃ u, apply t pref clock d = some u ∧
      (((∀ id, ¬ t.openAt d.key id) ∧
        t.insert? (Alert.ofDetection (d.triggeredAt.getD clock) d) = some u) ∨
      ∃ id a, t.get? id = some a ∧ a.key = d.key ∧ a.status.isActive ∧
        t.update? id (a.fold (d.triggeredAt.getD clock) d) = some u) := by
  cases h : t.getOpenByKey pref d.key with
  | none =>
    have hnone := Alerts.getOpenByKey_eq_none.mp h
    obtain ⟨u, hu⟩ : ∃ u, t.insert? (Alert.ofDetection (d.triggeredAt.getD clock) d) = some u := by
      rw [← Option.ne_none_iff_exists', Ne, Alerts.insert?_eq_none_iff]
      intro h
      obtain ⟨j, b, hj, hs⟩ := h
      rw [Alert.ofDetection_slot] at hs
      have hk : b.key = d.key := congrArg Prod.fst hs
      have ho : b.status = .open := congrArg Prod.snd hs
      exact hnone j (Alerts.openAt_iff.mpr ⟨b, hj, hk, by rw [ho]; rfl⟩)
    exact ⟨u, by simp only [apply, plan, h, Alerts.write?, hu], Or.inl ⟨hnone, hu⟩⟩
  | some r =>
    obtain ⟨id, a⟩ := r
    obtain ⟨ha, hkey, hact⟩ := Alerts.getOpenByKey_eq_some h
    obtain ⟨u, hu⟩ := Option.isSome_iff_exists.mp
      (Alerts.update?_isSome_of_slot_eq ha (a.fold_slot (d.triggeredAt.getD clock) d))
    refine ⟨u, ?_, Or.inr ⟨id, a, ha, hkey, hact, hu⟩⟩
    simp only [apply, plan, h, ha, Alerts.write?, Option.bind_some, Alert.patch_self, hu]

end AlertCorrelator

end SiemEngine

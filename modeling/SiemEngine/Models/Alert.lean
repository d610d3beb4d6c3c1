import Mathlib.Data.List.Nodup
import SiemEngine.Detection.Base

/-!
# The alerts table

A row is identified by its place in the table, which stands for the generated
`alert_id`: rows are only appended and never deleted. The table carries the unique
constraint `uq_alert_open_window`, so a table that violates it cannot be built;
`insert?` and `update?` fail where PostgreSQL answers with an integrity error.
-/

namespace SiemEngine

structure Alert where
  ruleId : String
  detectionKind : DetectionKind
  title : String
  description : String
  severity : Severity
  confidence : ℚ
  status : AlertStatus
  firstSeen : Time
  lastSeen : Time
  sourceIp : Option String
  affectedHost : Option String
  eventCount : ℤ
  involvedUsers : List String
  involvedHosts : List String
  evidence : List Evidence
  recommendedAction : String
  correlationKey : String
  anomalyScore : Option ℚ
  alertMetadata : JsonDict
  deriving DecidableEq

namespace Alert

def key (a : Alert) : String × String := (a.ruleId, a.correlationKey)

/-- The columns of `uq_alert_open_window`. -/
def slot (a : Alert) : (String × String) × AlertStatus := (a.key, a.status)

end Alert

structure Alerts where
  rows : List Alert
  uqAlertOpenWindow : (rows.map Alert.slot).Nodup

namespace Alerts

def empty : Alerts := ⟨[], List.nodup_nil⟩

instance : Inhabited Alerts := ⟨empty⟩

@[ext] theorem ext {t u : Alerts} (h : t.rows = u.rows) : t = u := by
  cases t; cases u; cases h; rfl

def get? (t : Alerts) (id : ℕ) : Option Alert := t.rows[id]?

theorem ext_get? {t u : Alerts} (h : ∀ id, t.get? id = u.get? id) : t = u :=
  ext (List.ext_getElem? h)

def insert? (t : Alerts) (a : Alert) : Option Alerts :=
  if h : a.slot ∈ t.rows.map Alert.slot then none
  else some ⟨t.rows ++ [a], by
    rw [List.map_append, List.map_singleton, ← List.concat_eq_append]
    exact List.Nodup.concat h t.uqAlertOpenWindow⟩

def Taken (t : Alerts) (id : ℕ) (slot : (String × String) × AlertStatus) : Prop :=
  ∃ j a, j ≠ id ∧ t.get? j = some a ∧ a.slot = slot

theorem taken_iff (t : Alerts) (id : ℕ) (slot : (String × String) × AlertStatus) :
    t.Taken id slot ↔ ∃ j ∈ List.range t.rows.length,
      j ≠ id ∧ (t.rows[j]?.map Alert.slot) = some slot := by
  constructor
  · intro h
    obtain ⟨j, a, hj, ha, rfl⟩ := h
    have hlt : j < t.rows.length := (List.getElem?_eq_some_iff.mp ha).1
    exact ⟨j, List.mem_range.mpr hlt, hj, by rw [show t.rows[j]? = some a from ha]; rfl⟩
  · intro h
    obtain ⟨j, -, hj, hs⟩ := h
    obtain ⟨a, ha, rfl⟩ := Option.map_eq_some_iff.mp hs
    exact ⟨j, a, hj, ha, rfl⟩

instance (t : Alerts) (id : ℕ) (slot : (String × String) × AlertStatus) :
    Decidable (t.Taken id slot) :=
  decidable_of_iff _ (t.taken_iff id slot).symm

theorem unique (t : Alerts) {i j : ℕ} {a b : Alert} (ha : t.get? i = some a)
    (hb : t.get? j = some b) (h : a.slot = b.slot) : i = j := by
  by_contra hij
  have hn := List.nodup_iff_getElem?_ne_getElem?.mp t.uqAlertOpenWindow
  have hi : (t.rows.map Alert.slot)[i]? = some a.slot := by
    rw [List.getElem?_map, show t.rows[i]? = some a from ha]; rfl
  have hj : (t.rows.map Alert.slot)[j]? = some a.slot := by
    rw [List.getElem?_map, show t.rows[j]? = some b from hb, h]; rfl
  rcases lt_or_gt_of_ne hij with hlt | hlt
  · exact hn i j hlt (List.getElem?_eq_some_iff.mp hj).1 (hi.trans hj.symm)
  · exact hn j i hlt (List.getElem?_eq_some_iff.mp hi).1 (hj.trans hi.symm)

theorem nodup_set (t : Alerts) {id : ℕ} {a : Alert} (h : ¬ t.Taken id a.slot) :
    ((t.rows.set id a).map Alert.slot).Nodup := by
  rw [List.nodup_iff_getElem?_ne_getElem?]
  intro i j hij hj heq
  rw [List.length_map, List.length_set] at hj
  have hget (k : ℕ) (hk : k < t.rows.length) : t.get? k = some t.rows[k] :=
    List.getElem?_eq_getElem hk
  have hset (k : ℕ) (hk : k < t.rows.length) :
      (t.rows.set id a)[k]? = some (if id = k then a else t.rows[k]) := by
    rw [List.getElem?_set]
    split_ifs <;> simp_all
  rw [List.getElem?_map, List.getElem?_map, hset i (by omega), hset j hj, Option.map_some,
    Option.map_some, Option.some.injEq] at heq
  split_ifs at heq with hi hj' hj'
  · omega
  · exact h ⟨j, t.rows[j], by omega, hget j hj, heq.symm⟩
  · exact h ⟨i, t.rows[i], by omega, hget i (by omega), heq⟩
  · exact hij.ne (t.unique (hget i (by omega)) (hget j hj) heq)

def update? (t : Alerts) (id : ℕ) (a : Alert) : Option Alerts :=
  if h : t.Taken id a.slot then none else some ⟨t.rows.set id a, t.nodup_set h⟩

theorem insert?_eq_none_iff {t : Alerts} {a : Alert} :
    t.insert? a = none ↔ ∃ j b, t.get? j = some b ∧ b.slot = a.slot := by
  unfold insert?
  split_ifs with h
  · obtain ⟨b, hb, hs⟩ := List.mem_map.mp h
    obtain ⟨j, hj⟩ := List.mem_iff_getElem?.mp hb
    simp only [true_iff]
    exact ⟨j, b, hj, hs⟩
  · simp only [false_iff]
    intro h
    obtain ⟨j, b, hj, hs⟩ := h
    exact h (List.mem_map.mpr ⟨b, List.mem_iff_getElem?.mpr ⟨j, hj⟩, hs⟩)

theorem rows_insert? {t u : Alerts} {a : Alert} (h : t.insert? a = some u) :
    u.rows = t.rows ++ [a] := by
  unfold insert? at h
  split_ifs at h
  rw [← Option.some.inj h]

theorem get?_insert? {t u : Alerts} {a : Alert} (h : t.insert? a = some u) (j : ℕ) :
    u.get? j = if j = t.rows.length then some a else t.get? j := by
  simp only [get?, rows_insert? h]
  rcases lt_trichotomy j t.rows.length with hj | rfl | hj
  · rw [List.getElem?_append_left hj, if_neg hj.ne]
  · simp
  · rw [if_neg hj.ne', List.getElem?_eq_none (by simp; omega), List.getElem?_eq_none (by omega)]

theorem update?_eq_none_iff {t : Alerts} {id : ℕ} {a : Alert} :
    t.update? id a = none ↔ t.Taken id a.slot := by
  unfold update?
  split_ifs with h <;> simp [h]

theorem rows_update? {t u : Alerts} {id : ℕ} {a : Alert} (h : t.update? id a = some u) :
    u.rows = t.rows.set id a := by
  unfold update? at h
  split_ifs at h
  rw [← Option.some.inj h]

theorem get?_update? {t u : Alerts} {id : ℕ} {a b : Alert} (hb : t.get? id = some b)
    (h : t.update? id a = some u) (j : ℕ) :
    u.get? j = if j = id then some a else t.get? j := by
  have hid : id < t.rows.length := (List.getElem?_eq_some_iff.mp hb).1
  simp only [get?, rows_update? h]
  rcases eq_or_ne j id with rfl | hj
  · rw [List.getElem?_set_self hid, if_pos rfl]
  · rw [List.getElem?_set_ne hj.symm, if_neg hj]

theorem update?_isSome_of_slot_eq {t : Alerts} {id : ℕ} {a b : Alert}
    (hb : t.get? id = some b) (h : a.slot = b.slot) : (t.update? id a).isSome := by
  rw [Option.isSome_iff_ne_none, Ne, update?_eq_none_iff]
  intro h
  obtain ⟨j, c, hj, hc, hs⟩ := h
  exact hj (t.unique hc hb (hs.trans h))

theorem map_slot_modify (rows : List Alert) (id : ℕ) {h : Alert → Alert}
    (hslot : ∀ a, (h a).slot = a.slot) :
    (rows.modify id h).map Alert.slot = rows.map Alert.slot := by
  induction rows generalizing id with
  | nil => simp
  | cons a rows ih => cases id <;> simp [hslot, ih]

def modify (t : Alerts) (id : ℕ) (h : Alert → Alert) (hslot : ∀ a, (h a).slot = a.slot) :
    Alerts where
  rows := t.rows.modify id h
  uqAlertOpenWindow := by
    rw [map_slot_modify t.rows id hslot]
    exact t.uqAlertOpenWindow

section

variable {id : ℕ} {h : Alert → Alert} {hslot : ∀ a, (h a).slot = a.slot}

theorem get?_modify (t : Alerts) (j : ℕ) :
    (t.modify id h hslot).get? j = if j = id then (t.get? j).map h else t.get? j := by
  by_cases hj : j = id
  · subst hj
    simp only [modify, get?, List.getElem?_modify_eq, ↓reduceIte]
    rfl
  · simp only [modify, get?, List.getElem?_modify_ne _ _ (Ne.symm hj), if_neg hj]

@[simp] theorem map_slot_get?_modify (t : Alerts) (j : ℕ) :
    ((t.modify id h hslot).get? j).map Alert.slot = (t.get? j).map Alert.slot := by
  rw [get?_modify]
  split_ifs
  · rw [Option.map_map, show Alert.slot ∘ h = Alert.slot from funext hslot]
  · rfl

theorem taken_modify (t : Alerts) (j : ℕ) (slot : (String × String) × AlertStatus) :
    (t.modify id h hslot).Taken j slot ↔ t.Taken j slot := by
  rw [taken_iff, taken_iff]
  have hlen : (t.modify id h hslot).rows.length = t.rows.length := List.length_modify ..
  have hget (k : ℕ) : (t.modify id h hslot).rows[k]?.map Alert.slot = t.rows[k]?.map Alert.slot :=
    t.map_slot_get?_modify k
  simp only [hlen, hget]

theorem update?_eq_modify (hslot : ∀ a, (h a).slot = a.slot) {t : Alerts} {a : Alert}
    (ha : t.get? id = some a) : t.update? id (h a) = some (t.modify id h hslot) := by
  obtain ⟨u, hu⟩ := Option.isSome_iff_exists.mp (update?_isSome_of_slot_eq ha (hslot a))
  rw [hu, Option.some.injEq]
  apply ext_get?
  intro j
  rw [get?_update? ha hu, get?_modify]
  split_ifs with hj
  · rw [hj, ha]; rfl
  · rfl

theorem insert?_modify {t : Alerts} (hid : id < t.rows.length) (a : Alert) :
    (t.modify id h hslot).insert? a = (t.insert? a).map fun u => u.modify id h hslot := by
  have hslots : a.slot ∈ (t.modify id h hslot).rows.map Alert.slot ↔
      a.slot ∈ t.rows.map Alert.slot := by
    rw [show (t.modify id h hslot).rows.map Alert.slot = t.rows.map Alert.slot from
      map_slot_modify t.rows id hslot]
  cases hu : t.insert? a with
  | none =>
    unfold insert? at hu ⊢
    split_ifs at hu with hmem
    rw [dif_pos (hslots.mpr hmem)]
    rfl
  | some u =>
    have hlen : (t.modify id h hslot).rows.length = t.rows.length := List.length_modify ..
    obtain ⟨v, hv⟩ : ∃ v, (t.modify id h hslot).insert? a = some v := by
      unfold insert? at hu ⊢
      split_ifs at hu with hmem
      exact ⟨_, dif_neg (fun hm => hmem (hslots.mp hm))⟩
    rw [hv, Option.map_some, Option.some.injEq]
    apply ext_get?
    intro j
    rw [get?_insert? hv, get?_modify, get?_modify, get?_insert? hu, hlen]
    split_ifs with hj hi
    · omega
    · rfl
    · rfl
    · rfl

theorem update?_modify_of_ne {t : Alerts} {j : ℕ} {b : Alert} (hb : t.get? j = some b)
    (hj : j ≠ id) (a : Alert) :
    (t.modify id h hslot).update? j a = (t.update? j a).map fun u => u.modify id h hslot := by
  have hb' : (t.modify id h hslot).get? j = some b := by rw [get?_modify, if_neg hj, hb]
  cases hu : t.update? j a with
  | none => exact update?_eq_none_iff.mpr ((t.taken_modify j _).mpr (update?_eq_none_iff.mp hu))
  | some u =>
    obtain ⟨v, hv⟩ : ∃ v, (t.modify id h hslot).update? j a = some v := by
      rw [← Option.ne_none_iff_exists', Ne, update?_eq_none_iff, taken_modify,
        ← update?_eq_none_iff, hu]
      exact Option.some_ne_none u
    rw [hv, Option.map_some, Option.some.injEq]
    apply ext_get?
    intro i
    rw [get?_update? hb' hv, get?_modify, get?_modify, get?_update? hb hu]
    split_ifs with hi hid
    · omega
    · rfl
    · rfl
    · rfl

theorem update?_modify_self {t : Alerts} {b : Alert} (hb : t.get? id = some b) (a : Alert) :
    (t.modify id h hslot).update? id (h a) =
      (t.update? id a).map fun u => u.modify id h hslot := by
  have hb' : (t.modify id h hslot).get? id = some (h b) := by
    rw [get?_modify, if_pos rfl, hb]; rfl
  cases hu : t.update? id a with
  | none =>
    refine update?_eq_none_iff.mpr ((t.taken_modify id _).mpr ?_)
    rw [hslot]
    exact update?_eq_none_iff.mp hu
  | some u =>
    obtain ⟨v, hv⟩ : ∃ v, (t.modify id h hslot).update? id (h a) = some v := by
      rw [← Option.ne_none_iff_exists', Ne, update?_eq_none_iff, taken_modify, hslot,
        ← update?_eq_none_iff, hu]
      exact Option.some_ne_none u
    rw [hv, Option.map_some, Option.some.injEq]
    apply ext_get?
    intro i
    rw [get?_update? hb' hv, get?_modify, get?_modify, get?_update? hb hu]
    split_ifs <;> rfl

end

end Alerts

end SiemEngine

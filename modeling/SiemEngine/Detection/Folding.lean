import SiemEngine.Lib.Upsert
import SiemEngine.Storage.Session

/-!
# Correlation as an upsert

While a key has at most one active alert, which row the lookup returns is determined, and
a correlation absorbs the detection into the rows. What it does to the alerts of some
keys is what the detections of these keys do, whatever is correlated in between.
-/

namespace SiemEngine

namespace Alert

def folds (d : Detection) (a : Alert) : Bool := a.key = d.key && a.status.isActive

end Alert

namespace Alerts

def absorb (clock : Time) : List Alert → Detection → List Alert :=
  Upsert.absorb Alert.folds (fun a d => a.fold (d.triggeredAt.getD clock) d)
    (fun d => Alert.ofDetection (d.triggeredAt.getD clock) d)

def OneActive (key : String × String) (t : Alerts) : Prop :=
  (t.rows.filter fun a => a.key = key && a.status.isActive).length ≤ 1

instance (key : String × String) (t : Alerts) : Decidable (t.OneActive key) :=
  inferInstanceAs (Decidable (_ ≤ _))

def selected (P : String × String → Bool) (t : Alerts) : List Alert :=
  t.rows.filter fun a => P a.key

variable {t u : Alerts} {pref : ℕ} {clock : Time} {d : Detection} {key : String × String}
  {P : String × String → Bool}

theorem absorb_clock (h : d.triggeredAt.isSome) (clock clock' : Time) (rows : List Alert) :
    absorb clock rows d = absorb clock' rows d := by
  obtain ⟨t, ht⟩ := Option.isSome_iff_exists.mp h
  simp only [absorb, Upsert.absorb, ht, Option.getD_some]

theorem filter_active_of_slots {rows rows' : List Alert}
    (h : rows.map Alert.slot = rows'.map Alert.slot) (key : String × String) :
    (rows.filter fun a => a.key = key && a.status.isActive).length =
      (rows'.filter fun a => a.key = key && a.status.isActive).length := by
  have hslots : ∀ as : List Alert, (as.filter fun a => a.key = key && a.status.isActive).length =
      ((as.map Alert.slot).filter fun s => s.1 = key && s.2.isActive).length := by
    intro as
    rw [List.filter_map, List.length_map]
    rfl
  rw [hslots, hslots, h]

theorem map_slot_set {rows : List Alert} {i : ℕ} {a b : Alert} (ha : rows[i]? = some a)
    (hslot : b.slot = a.slot) : (rows.set i b).map Alert.slot = rows.map Alert.slot := by
  induction rows generalizing i with
  | nil => rfl
  | cons c rows ih =>
    cases i with
    | zero =>
      obtain rfl : c = a := Option.some.inj ha
      rw [List.set_cons_zero, List.map_cons, List.map_cons, hslot]
    | succ i => rw [List.set_cons_succ, List.map_cons, List.map_cons, ih (by simpa using ha)]

end Alerts

namespace AlertCorrelator

open Alerts

variable {t u : Alerts} {pref : ℕ} {clock : Time} {d : Detection} {key : String × String}
  {P : String × String → Bool}

theorem oneActive_apply (h : t.OneActive key) (hu : apply t pref clock d = some u) :
    u.OneActive key := by
  obtain ⟨v, hv, ⟨hnone, hins⟩ | ⟨id, a, ha, -, -, hupd⟩⟩ := apply_cases t pref clock d
  · cases hv.symm.trans hu
    rw [OneActive, rows_insert? hins, List.filter_append]
    by_cases hkey : d.key = key
    · have hempty : t.rows.filter (fun a => a.key = key && a.status.isActive) = [] := by
        refine List.filter_eq_nil_iff.mpr fun a ha hact => ?_
        obtain ⟨j, hj⟩ := List.mem_iff_getElem?.mp ha
        obtain ⟨hak, hact⟩ := Bool.and_eq_true_iff.mp hact
        exact hnone j (openAt_iff.mpr ⟨a, hj, (of_decide_eq_true hak).trans hkey.symm, hact⟩)
      rw [hempty, List.nil_append]
      exact List.length_filter_le _ _
    · have hother : (Alert.ofDetection (d.triggeredAt.getD clock) d).key ≠ key := hkey
      rw [List.filter_cons_of_neg (by simp [hother]), List.filter_nil, List.append_nil]
      exact h
  · cases hv.symm.trans hu
    have hslots := @map_slot_set t.rows _ _ _ ha (a.fold_slot (d.triggeredAt.getD clock) d)
    rw [OneActive, rows_update? hupd, filter_active_of_slots hslots]
    exact h

theorem rows_apply (h : t.OneActive d.key) (hu : apply t pref clock d = some u) :
    u.rows = absorb clock t.rows d := by
  obtain ⟨v, hv, ⟨hnone, hins⟩ | ⟨id, a, ha, hkey, hact, hupd⟩⟩ := apply_cases t pref clock d
  · cases hv.symm.trans hu
    rw [rows_insert? hins, absorb, Upsert.absorb_of_miss]
    intro a ha hfolds
    obtain ⟨j, hj⟩ := List.mem_iff_getElem?.mp ha
    obtain ⟨hak, hact⟩ := Bool.and_eq_true_iff.mp hfolds
    exact hnone j (openAt_iff.mpr ⟨a, hj, of_decide_eq_true hak, hact⟩)
  · cases hv.symm.trans hu
    have hfolds : a.folds d := Bool.and_eq_true_iff.mpr ⟨decide_eq_true hkey, hact⟩
    rw [rows_update? hupd]
    have hone : Upsert.AtMostOne Alert.folds d t.rows := h
    exact (Upsert.absorb_of_hit hone ha hfolds).symm

theorem selected_apply (h : t.OneActive d.key) (hP : P d.key)
    (hu : apply t pref clock d = some u) :
    u.selected P = absorb clock (t.selected P) d := by
  rw [selected, rows_apply h hu]
  refine Upsert.filter_absorb (fun a => rfl) (fun a ha => ?_) hP
  obtain ⟨hkey, -⟩ := Bool.and_eq_true_iff.mp ha
  rwa [of_decide_eq_true hkey]

theorem selected_apply_of_not (hP : ¬ P d.key) (hu : apply t pref clock d = some u) :
    u.selected P = t.selected P := by
  obtain ⟨v, hv, ⟨-, hins⟩ | ⟨id, a, ha, hkey, -, hupd⟩⟩ := apply_cases t pref clock d
  · cases hv.symm.trans hu
    have hnew : ¬ P (Alert.ofDetection (d.triggeredAt.getD clock) d).key := hP
    rw [selected, rows_insert? hins, List.filter_append,
      List.filter_cons_of_neg (p := fun a : Alert => P a.key) hnew, List.filter_nil,
      List.append_nil, selected]
  · cases hv.symm.trans hu
    have hold : ¬ P a.key := hkey ▸ hP
    rw [selected, rows_update? hupd, selected]
    exact Upsert.filter_set_of_not (P := fun a : Alert => P a.key) ha hold hold

end AlertCorrelator

namespace Database

open Alerts

variable {failAt : Option ℕ} {pref : ℕ → ℕ} {clock : Time} {db db' : Database}
  {P : String × String → Bool}

theorem apply_of_applyDetection {pref : ℕ} {d : Detection}
    (h : applyDetection pref clock d db = some db') :
    AlertCorrelator.apply db.alerts pref clock d = some db'.alerts := by
  unfold applyDetection at h
  dsimp only at h
  split_ifs at h
  obtain ⟨alerts, hw, rfl⟩ := Option.map_eq_some_iff.mp h
  exact hw

/-- What the committed detections of a session leave of the alerts of some keys. -/
theorem selected_detections {ds : List Detection} (hone : ∀ key, P key → db.alerts.OneActive key)
    (h : sessionScope failAt db (ds.mapIdx fun i d => applyDetection (pref i) clock d) =
      some db') :
    (∀ key, P key → db'.alerts.OneActive key) ∧
      db'.alerts.selected P =
        (ds.filter fun d => P d.key).foldl (absorb clock) (db.alerts.selected P) := by
  induction ds generalizing failAt pref db with
  | nil =>
    rw [sessionScope_nil h]
    exact ⟨hone, rfl⟩
  | cons d ds ih =>
    rw [List.mapIdx_cons] at h
    obtain ⟨db₁, hd, hrest⟩ := sessionScope_cons h
    have happly := apply_of_applyDetection hd
    have hone₁ : ∀ key, P key → db₁.alerts.OneActive key := fun key hkey =>
      AlertCorrelator.oneActive_apply (hone key hkey) happly
    obtain ⟨hone', hsel⟩ := @ih _ (fun i => pref (i + 1)) _ hone₁ hrest
    refine ⟨hone', hsel.trans ?_⟩
    by_cases hP : P d.key
    · rw [List.filter_cons_of_pos (p := fun d : Detection => P d.key) hP, List.foldl_cons,
        AlertCorrelator.selected_apply (hone d.key hP) hP happly]
    · rw [List.filter_cons_of_neg (p := fun d : Detection => P d.key) hP,
        AlertCorrelator.selected_apply_of_not hP happly]

theorem selected_batch {events : List SecurityEvent} {ds : List Detection}
    (hone : ∀ key, P key → db.alerts.OneActive key)
    (h : sessionScope failAt db (batchStatements pref clock events ds) = some db') :
    (∀ key, P key → db'.alerts.OneActive key) ∧
      db'.alerts.selected P =
        (ds.filter fun d => P d.key).foldl (absorb clock) (db.alerts.selected P) := by
  obtain ⟨db₁, hins, hrest⟩ := sessionScope_cons h
  unfold bulkInsert at hins
  dsimp only at hins
  split_ifs at hins
  cases hins
  exact @selected_detections _ pref clock
    ⟨db.events.insertAll (events.map rowFromEvent), db.alerts⟩ db' P ds hone hrest

end Database

end SiemEngine

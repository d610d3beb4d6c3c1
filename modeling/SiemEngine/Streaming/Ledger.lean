import SiemEngine.Streaming.Growth

/-!
# Detections on record

What a detection says is not lost once it is committed: from then on there is an alert of its
key that is at least as severe, as confident and as large, whatever is folded into it and
whatever the analysts decide. And no alert says what no committed detection said. The
detections that calls commit are recorded beside the tables, those of a rollover also when a
later one raises.
-/

namespace SiemEngine

structure Alert.Records (a : Alert) (d : Detection) : Prop where
  key : a.key = d.key
  severity : d.severity.rank ≤ a.severity.rank
  confidence : d.confidence ≤ a.confidence
  eventCount : d.eventCountHint ≤ a.eventCount

structure Alert.Backed (a : Alert) (d : Detection) : Prop where
  key : a.key = d.key
  severity : a.severity = d.severity
  title : a.title = d.title
  description : a.description = d.description

/-- What becomes of an alert: its status may change, but it is never played down. -/
structure Alert.Escalates (a b : Alert) : Prop where
  key : b.key = a.key
  severity : a.severity.rank ≤ b.severity.rank
  confidence : a.confidence ≤ b.confidence
  eventCount : a.eventCount ≤ b.eventCount

def Alerts.Escalated (rows rows' : List Alert) : Prop :=
  ∀ (i : ℕ) (a : Alert), rows[i]? = some a → ∃ b, rows'[i]? = some b ∧ a.Escalates b

namespace Alert

variable {a b c : Alert} {d : Detection}

theorem escalates_refl (a : Alert) : a.Escalates a := ⟨rfl, le_rfl, le_rfl, le_rfl⟩

theorem Escalates.trans (h : a.Escalates b) (h' : b.Escalates c) : a.Escalates c :=
  ⟨h'.key.trans h.key, h.severity.trans h'.severity, h.confidence.trans h'.confidence,
    h.eventCount.trans h'.eventCount⟩

theorem Records.mono (h : a.Records d) (h' : a.Escalates b) : b.Records d :=
  ⟨h'.key.trans h.key, h.severity.trans h'.severity, h.confidence.trans h'.confidence,
    h.eventCount.trans h'.eventCount⟩

theorem escalates_fold (a : Alert) (now : Time) (d : Detection) : a.Escalates (a.fold now d) where
  key := rfl
  severity := by
    rw [rank_fold]
    exact le_max_left _ _
  confidence := le_max_left _ _
  eventCount := (a.eventCount_lt_fold now d).le

theorem escalates_moved (a : Alert) (history : List Json) (new : AlertStatus) (now : Time)
    (actor : String) : a.Escalates (a.moved history new now actor) :=
  ⟨rfl, le_rfl, le_rfl, le_rfl⟩

theorem records_ofDetection (now : Time) (d : Detection) : (ofDetection now d).Records d :=
  ⟨rfl, le_rfl, le_rfl, le_max_right _ _⟩

theorem records_fold (now : Time) (hkey : a.key = d.key) : (a.fold now d).Records d where
  key := hkey
  severity := by
    rw [rank_fold]
    exact le_max_right _ _
  confidence := le_max_right _ _
  eventCount := le_max_right _ _

theorem backed_ofDetection (now : Time) (d : Detection) : (ofDetection now d).Backed d :=
  ⟨rfl, rfl, rfl, rfl⟩

theorem backed_fold {e : Detection} (now : Time) (h : a.Backed e) (hkey : a.key = d.key) :
    (a.fold now d).Backed e ∨ (a.fold now d).Backed d := by
  by_cases hworse : a.severity.rank < d.severity.rank
  · exact Or.inr ⟨hkey, if_pos hworse, if_pos hworse, if_pos hworse⟩
  · exact Or.inl ⟨h.key, (if_neg hworse).trans h.severity, (if_neg hworse).trans h.title,
      (if_neg hworse).trans h.description⟩

end Alert

namespace Alerts

theorem Escalated.refl (rows : List Alert) : Escalated rows rows := fun _ a ha =>
  ⟨a, ha, a.escalates_refl⟩

theorem Escalated.trans {rows rows' rows'' : List Alert} (h : Escalated rows rows')
    (h' : Escalated rows' rows'') : Escalated rows rows'' := by
  intro i a ha
  obtain ⟨b, hb, hab⟩ := h i a ha
  obtain ⟨c, hc, hbc⟩ := h' i b hb
  exact ⟨c, hc, hab.trans hbc⟩

theorem escalated_append (rows new : List Alert) : Escalated rows (rows ++ new) := by
  intro i a ha
  refine ⟨a, ?_, a.escalates_refl⟩
  rw [List.getElem?_append_left (List.getElem?_eq_some_iff.mp ha).1, ha]

theorem escalated_set {rows : List Alert} {i : ℕ} {a b : Alert} (ha : rows[i]? = some a)
    (h : a.Escalates b) : Escalated rows (rows.set i b) := by
  intro j c hc
  rw [List.getElem?_set]
  split_ifs with hij hlt
  · rw [← hij, ha, Option.some.injEq] at hc
    exact ⟨b, rfl, hc ▸ h⟩
  · exact absurd (List.getElem?_eq_some_iff.mp ha).1 hlt
  · exact ⟨c, hc, c.escalates_refl⟩

theorem Escalated.records {rows rows' : List Alert} (h : Escalated rows rows') {d : Detection}
    (hd : ∃ a ∈ rows, a.Records d) : ∃ a ∈ rows', a.Records d := by
  obtain ⟨a, ha, hrecords⟩ := hd
  obtain ⟨i, hi⟩ := List.mem_iff_getElem?.mp ha
  obtain ⟨b, hb, hab⟩ := h i a hi
  exact ⟨b, List.mem_of_getElem? hb, hrecords.mono hab⟩

theorem writes_records : Writes (fun _ => True) fun rows ds rows' =>
    Escalated rows rows' ∧ (∀ d ∈ ds, ∃ a ∈ rows', a.Records d) ∧
      ∀ es : List Detection, (∀ a ∈ rows, ∃ d ∈ es, a.Backed d) →
        ∀ a ∈ rows', ∃ d ∈ es ++ ds, a.Backed d where
  nil rows := ⟨Escalated.refl rows, by simp, fun es h => by rwa [List.append_nil]⟩
  append h h' := by
    refine ⟨h.1.trans h'.1, List.forall_mem_append.mpr
      ⟨fun d hd => h'.1.records (h.2.1 d hd), h'.2.1⟩, fun es hes => ?_⟩
    rw [← List.append_assoc]
    exact h'.2.2 _ (h.2.2 es hes)
  insert {rows d} now _ _ := by
    refine ⟨escalated_append _ _, List.forall_mem_singleton.mpr
      ⟨_, List.mem_append_right _ (List.mem_singleton_self _), Alert.records_ofDetection now d⟩,
      fun es hes => List.forall_mem_append.mpr ⟨fun a ha => ?_, List.forall_mem_singleton.mpr
        ⟨d, List.mem_append_right _ (List.mem_singleton_self d), Alert.backed_ofDetection now d⟩⟩⟩
    obtain ⟨e, he, hbacked⟩ := hes a ha
    exact ⟨e, List.mem_append_left _ he, hbacked⟩
  fold {rows id a d} now hget hkey _ _ := by
    refine ⟨escalated_set hget (Alert.escalates_fold _ now _), List.forall_mem_singleton.mpr
      ⟨_, List.mem_set (List.getElem?_eq_some_iff.mp hget).1 _, Alert.records_fold now hkey⟩,
      fun es hes b hb => ?_⟩
    rcases List.mem_or_eq_of_mem_set hb with hold | rfl
    · obtain ⟨e, he, hbacked⟩ := hes b hold
      exact ⟨e, List.mem_append_left _ he, hbacked⟩
    · obtain ⟨e, he, hbacked⟩ := hes a (List.mem_of_getElem? hget)
      rcases Alert.backed_fold now hbacked hkey with hbacked | hbacked
      · exact ⟨e, List.mem_append_left _ he, hbacked⟩
      · exact ⟨d, List.mem_append_right _ (List.mem_singleton_self d), hbacked⟩

end Alerts

theorem Tables.escalated_step (cfg : Config) (s : State) (a : Act) :
    Alerts.Escalated s.pipeline.db.alerts.rows (step cfg s a).pipeline.db.alerts.rows := by
  cases a with
  | call c =>
    exact (Alerts.writes_records.processBatch cfg s.pipeline c fun _ _ => trivial).1
  | expire => exact Alerts.Escalated.refl _
  | triage now r =>
    rcases triage_cases cfg s now r with hsame | ⟨a, history, hget, hset⟩
    · rw [hsame]
      exact Alerts.Escalated.refl _
    · rw [hset]
      exact Alerts.escalated_set hget (a.escalates_moved history _ now _)

namespace Ledger

open Tables (Act)

structure State where
  tables : Tables.State
  committed : List Detection := []

def step (cfg : Config) (s : State) (a : Act) : State :=
  let tables := Tables.step cfg s.tables a
  match a with
  | .call c => ⟨tables, s.committed ++ Pipeline.committed cfg s.tables.pipeline c⟩
  | .expire | .triage _ _ => { s with tables }

def start (now : Time) : State where
  tables := Tables.start now

def alerts (s : State) : List Alert := s.tables.pipeline.db.alerts.rows

/-- What was committed is on record, and what is on record was committed. -/
structure Faithful (s : State) : Prop where
  recorded : ∀ d ∈ s.committed, ∃ a ∈ alerts s, a.Records d
  backed : ∀ a ∈ alerts s, ∃ d ∈ s.committed, a.Backed d

variable {cfg : Config} {s : State}

theorem escalated_step (cfg : Config) (s : State) (a : Act) :
    Alerts.Escalated (alerts s) (alerts (step cfg s a)) := by
  have hrows : alerts (step cfg s a) = (Tables.step cfg s.tables a).pipeline.db.alerts.rows := by
    cases a <;> rfl
  rw [hrows]
  exact Tables.escalated_step cfg s.tables a

theorem faithful_step (a : Act) (h : Faithful s) : Faithful (step cfg s a) := by
  have hescalated := escalated_step cfg s a
  cases a with
  | call c =>
    obtain ⟨-, hrecords, hbacked⟩ := Alerts.writes_records.processBatch cfg s.tables.pipeline c
      fun _ _ => trivial
    exact ⟨List.forall_mem_append.mpr
      ⟨fun d hd => hescalated.records (h.recorded d hd), hrecords⟩, hbacked _ h.backed⟩
  | expire => exact ⟨h.recorded, h.backed⟩
  | triage now r =>
    refine ⟨fun d hd => hescalated.records (h.recorded d hd), fun b hb => ?_⟩
    rw [alerts, step] at hb
    rcases Tables.triage_cases cfg s.tables now r with hsame | ⟨a, history, hget, hset⟩
    · rw [hsame] at hb
      exact h.backed b hb
    · rw [hset] at hb
      rcases List.mem_or_eq_of_mem_set hb with hold | rfl
      · exact h.backed b hold
      · obtain ⟨d, hd, had⟩ := h.backed a (List.mem_of_getElem? hget)
        exact ⟨d, hd, had.key, had.severity, had.title, had.description⟩

/-- In every state of every run the alerts are a faithful record of the detections, and no alert
is ever removed or played down, whichever faults the calls have, whatever expires and whatever
the analysts do. -/
theorem alerts_faithful (cfg : Config) (now : Time) (as : List Act) :
    Run.Holds (step cfg) Faithful (start now) as ∧
      ∀ bs, Alerts.Escalated (alerts (Run.exec (step cfg) (start now) as))
        (alerts (Run.exec (step cfg) (start now) (as ++ bs))) := by
  constructor
  · exact Run.holds_of_step (I := Faithful) (fun _ a h => faithful_step a h)
      ⟨fun _ hd => absurd hd List.not_mem_nil, fun _ ha => absurd ha List.not_mem_nil⟩ as
  · intro bs
    rw [Run.exec_append]
    generalize Run.exec (step cfg) (start now) as = s
    induction bs generalizing s with
    | nil => exact Alerts.Escalated.refl _
    | cons b bs ih => exact (escalated_step cfg s b).trans (ih _)

end Ledger

end SiemEngine

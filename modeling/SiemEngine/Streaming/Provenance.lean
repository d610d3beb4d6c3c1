import SiemEngine.Detection.FoldedAlert
import SiemEngine.Services.Workflow
import SiemEngine.Streaming.AlertWrites

/-!
# Where the rows of the tables come from

The pipeline and the triage service write the two tables; calls fail, the seen-set expires and
the arrivals of a run are recorded for the statements. Events are only appended, and each row
is that of an accepted arrival. An alert keeps within its bounds, and every event it names as
evidence is stored: the two are written in one transaction.
-/

namespace SiemEngine

namespace SecurityEvents

theorem exists_append_insertAll (t : SecurityEvents) (rows : List SecurityEventRow) :
    ∃ new, (t.insertAll rows).rows = t.rows ++ new ∧ ∀ row ∈ new, row ∈ rows := by
  induction rows generalizing t with
  | nil => exact ⟨[], (List.append_nil _).symm, by simp⟩
  | cons row rows ih =>
    obtain ⟨new, hrows, hnew⟩ := ih (t.insert row)
    have hinsert : (t.insertAll (row :: rows)).rows = (t.insert row).rows ++ new := hrows
    have hlater : ∀ r ∈ new, r ∈ row :: rows := fun r hr => List.mem_cons_of_mem _ (hnew r hr)
    by_cases hmem : row.eventId ∈ t.ids
    · rw [insert_of_mem hmem] at hinsert
      exact ⟨new, hinsert, hlater⟩
    · have happend : (t.insert row).rows = t.rows ++ [row] := by
        exact congrArg SecurityEvents.rows (dif_neg hmem)
      rw [happend, List.append_assoc, List.singleton_append] at hinsert
      exact ⟨row :: new, hinsert, List.forall_mem_cons.mpr ⟨List.mem_cons_self, hlater⟩⟩

end SecurityEvents

/-- At most one item of evidence, about a stored event. -/
structure Detection.Grounded (stored : List UUID) (d : Detection) : Prop where
  evidence : d.evidence.length ≤ 1
  stored : ∀ item ∈ d.evidence, item.eventId ∈ stored

structure Alert.Sound (stored : List UUID) (a : Alert) : Prop where
  bounded : a.Bounded
  stored : ∀ item ∈ a.evidence, item.eventId ∈ stored
  evidence : a.evidence.length ≤ maxEvidence ∧ a.evidence.Nodup
  involvedUsers : a.involvedUsers.length ≤ maxInvolved
  involvedHosts : a.involvedHosts.length ≤ maxInvolved
  eventCount : 1 ≤ a.eventCount

theorem evidence_evaluate {py : Python} {p : Params} {tick : Tick} {ev : SecurityEvent}
    {ws ws' : Windows} {d : Detection} {rule : Rule}
    (h : rule.evaluate py p tick ev ws = (ws', .ok (some d))) :
    ∃ item, d.evidence = [item] ∧ item.eventId = ev.eventId := by
  cases rule with
  | bruteForce => obtain ⟨_, _, _, -, -, rfl⟩ := BruteForce.evaluate_some h; exact ⟨_, rfl, rfl⟩
  | passwordSpray => obtain ⟨_, _, -, -, rfl⟩ := PasswordSpray.evaluate_some h; exact ⟨_, rfl, rfl⟩
  | portScan => obtain ⟨_, _, -, -, rfl⟩ := PortScan.evaluate_some h; exact ⟨_, rfl, rfl⟩
  | privilegeEscalation =>
    obtain rfl := @PrivilegeEscalation.evaluate_some _ _ tick _ _ _ _ h
    exact ⟨_, rfl, rfl⟩
  | suspiciousSql =>
    obtain ⟨_, _, rfl⟩ := @SuspiciousSql.evaluate_some _ _ tick _ _ _ _ h
    exact ⟨_, rfl, rfl⟩
  | dataExfiltration =>
    obtain ⟨_, _, -, -, rfl⟩ := DataExfiltration.evaluate_some h
    exact ⟨_, rfl, rfl⟩
  | authAnomaly =>
    obtain ⟨_, _, _, -, -, -, rfl⟩ := AuthAnomaly.evaluate_some h
    exact ⟨_, rfl, rfl⟩

theorem DetectionEngine.grounded_evaluate {py : Python} {engine : DetectionEngine}
    {ticks : Rule → Tick} {ev : SecurityEvent} {ws : Windows} :
    ∀ d ∈ (engine.evaluate py ticks ev ws).2, d.Grounded [ev.eventId] := by
  intro d hd
  obtain ⟨rule, ws, ws', found, heval, rfl⟩ := exists_of_mem_evaluate hd
  obtain ⟨item, hitem, hid⟩ := evidence_evaluate heval
  constructor
  · change found.evidence.length ≤ 1
    rw [hitem, List.length_singleton]
  · change ∀ item ∈ found.evidence, _
    rw [hitem]
    exact List.forall_mem_singleton.mpr (hid ▸ List.mem_singleton_self _)

namespace Detection.Grounded

variable {ids ids' : List UUID} {d : Detection}

theorem mono (h : d.Grounded ids) (hsub : ids ⊆ ids') : d.Grounded ids' :=
  ⟨h.evidence, fun item hitem => hsub (h.stored item hitem)⟩

end Detection.Grounded

namespace Alert

variable {ids ids' : List UUID} {a : Alert} {d : Detection}

theorem Sound.mono (h : a.Sound ids) (hsub : ids ⊆ ids') : a.Sound ids' :=
  { h with stored := fun item hitem => hsub (h.stored item hitem) }

theorem sound_ofDetection {now : Time} (hd : d.Grounded ids) (hfits : (ofDetection now d).Fits) :
    (ofDetection now d).Sound ids where
  bounded := hfits.toBounded
  stored item hitem := hd.stored item (List.mem_of_mem_take hitem)
  evidence := by
    refine ⟨List.length_take_le _ _, ?_⟩
    exact (pairwise_of_length_le_one hd.evidence).sublist (List.take_sublist _ _)
  involvedUsers := List.length_take_le _ _
  involvedHosts := List.length_take_le _ _
  eventCount := le_max_left _ _

theorem mem_foldl_addEvidence {item : Evidence} (items acc : List Evidence) :
    item ∈ items.foldl addEvidence acc → item ∈ acc ∨ item ∈ items := by
  induction items generalizing acc with
  | nil => exact Or.inl
  | cons i items ih =>
    intro h
    rcases ih (addEvidence acc i) h with hacc | hitems
    · rw [addEvidence] at hacc
      split_ifs at hacc
      · exact Or.inl hacc
      · rcases List.mem_append.mp hacc with hacc | hi
        · exact Or.inl hacc
        · exact Or.inr (List.mem_singleton.mp hi ▸ List.mem_cons_self)
    · exact Or.inr (List.mem_cons_of_mem _ hitems)

theorem sound_fold {now : Time} (h : a.Sound ids) (hd : d.Grounded ids)
    (hfits : (a.fold now d).Fits) : (a.fold now d).Sound ids where
  bounded := hfits.toBounded
  stored item hitem := by
    have hmem : item ∈ d.evidence.foldl addEvidence a.evidence := List.mem_of_mem_drop hitem
    rcases mem_foldl_addEvidence _ _ hmem with hold | hnew
    · exact h.stored item hold
    · exact hd.stored item hnew
  evidence := evidence_fold now h.evidence.2 d
  involvedUsers := List.length_take_le _ _
  involvedHosts := List.length_take_le _ _
  eventCount := h.eventCount.trans (a.eventCount_lt_fold now d).le

theorem sound_moved (h : a.Sound ids) (history : List Json) (new : AlertStatus) (now : Time)
    (actor : String) : (a.moved history new now actor).Sound ids where
  bounded := ⟨h.bounded.ruleId, h.bounded.title, h.bounded.correlationKey,
    h.bounded.affectedHost, h.bounded.sourceIp, h.bounded.confidence⟩
  stored := h.stored
  evidence := h.evidence
  involvedUsers := h.involvedUsers
  involvedHosts := h.involvedHosts
  eventCount := h.eventCount

end Alert

def Database.Sound (db : Database) : Prop := ∀ a ∈ db.alerts.rows, a.Sound db.events.ids

theorem Alerts.writes_sound (ids : List UUID) : Alerts.Writes (Detection.Grounded ids)
    fun rows _ rows' => (∀ a ∈ rows, a.Sound ids) → ∀ a ∈ rows', a.Sound ids where
  nil _ h := h
  append h h' hrows := h' (h hrows)
  insert now hd hfits hrows := List.forall_mem_append.mpr
    ⟨hrows, List.forall_mem_singleton.mpr (Alert.sound_ofDetection hd hfits)⟩
  fold now hget _ hd hfits hrows b hb := by
    rcases List.mem_or_eq_of_mem_set hb with hold | rfl
    · exact hrows b hold
    · exact Alert.sound_fold (hrows _ (List.mem_of_getElem? hget)) hd hfits

namespace Pipeline

variable {cfg : Config} {s : Pipeline} {c : Call}

theorem grounded_detect (ws : Windows) (events : List (Arrival × SecurityEvent)) :
    ∀ d ∈ (detect cfg ws events).2, d.Grounded (ids events) := by
  intro d hd
  obtain ⟨av, hav, ws', hd⟩ := exists_of_mem_detect hd
  have hid : av.2.eventId ∈ ids events := List.mem_map_of_mem (f := fun av => av.2.eventId) hav
  exact (DetectionEngine.grounded_evaluate d hd).mono fun id hone =>
    List.mem_singleton.mp hone ▸ hid

theorem evidence_rolloverDetections : ∀ d ∈ rolloverDetections cfg s c, d.evidence = [] := by
  intro d hd
  rcases rolloverDetections_cases hd with ⟨_, _, rfl⟩ | ⟨_, _, _, _, rfl⟩ <;> rfl

theorem events_processBatch (cfg : Config) (s : Pipeline) (c : Call) :
    ∃ new, (processBatch cfg s c).1.db.events.rows = s.db.events.rows ++ new ∧
      (∀ row ∈ new, row.Fits ∧ ∃ av ∈ freshOf cfg s c, row = rowFromEvent av.2) ∧
      (commit? cfg s c ≠ none →
        ids (freshOf cfg s c) ⊆ (processBatch cfg s c).1.db.events.ids) := by
  cases hcommit : commit? cfg s c with
  | none =>
    rw [processBatch_of_not_commit hcommit]
    exact ⟨[], (List.append_nil _).symm, by simp, fun h => absurd rfl h⟩
  | some db =>
    have hevents : (processBatch cfg s c).1.db.events = db.events := by
      rw [processBatch_of_commit hcommit]
      split_ifs
      · rfl
      · rw [updateMetrics_events]
    obtain ⟨-, hdb, hfits⟩ := (Alerts.writes_sound (ids (freshOf cfg s c))).batch
      (grounded_detect s.windows _) (commit?_eq_some.mp hcommit).2
    obtain ⟨new, hrows, hmem⟩ := s.db.events.exists_append_insertAll
      (((freshOf cfg s c).map Prod.snd).map rowFromEvent)
    rw [hevents, hdb]
    refine ⟨new, hrows, fun row hrow => ?_, fun _ id hid => ?_⟩
    · obtain ⟨ev, hev, rfl⟩ := List.mem_map.mp (hmem row hrow)
      obtain ⟨av, hav, rfl⟩ := List.mem_map.mp hev
      exact ⟨hfits av.2 hev, av, hav, rfl⟩
    · rw [SecurityEvents.mem_ids_insertAll, List.map_map, List.map_map]
      exact Or.inr hid

theorem sound_processBatch (h : s.db.Sound) : (processBatch cfg s c).1.db.Sound := by
  obtain ⟨new, hrows, -, hstored⟩ := events_processBatch cfg s c
  have hold : s.db.events.ids ⊆ (processBatch cfg s c).1.db.events.ids := by
    rw [SecurityEvents.ids, SecurityEvents.ids, hrows, List.map_append]
    exact List.subset_append_left _ _
  have hcomputed : ∀ d ∈ computed cfg s c,
      d.Grounded (processBatch cfg s c).1.db.events.ids := by
    intro d hd
    rcases mem_computed hd with ⟨hcommit, hd⟩ | ⟨s', hd⟩
    · exact (grounded_detect s.windows _ d hd).mono (hstored hcommit)
    · have hnone := evidence_rolloverDetections d hd
      exact ⟨by rw [hnone]; exact Nat.zero_le 1, by simp [hnone]⟩
  exact (Alerts.writes_sound _).processBatch cfg s c hcomputed fun a ha => (h a ha).mono hold

end Pipeline

namespace Tables

structure State where
  pipeline : Pipeline
  auditLogs : List AuditLog := []
  arrivals : List Arrival := []

inductive Act
  | call (c : Call)
  | expire
  | triage (now : Time) (r : StatusRequest)

def step (cfg : Config) (s : State) : Act → State
  | .call c =>
    { s with
      pipeline := (Pipeline.processBatch cfg s.pipeline c).1
      arrivals := s.arrivals ++ c.arrivals }
  | .expire => { s with pipeline := { s.pipeline with seen := ∅ } }
  | .triage now r =>
    let db := Workflow.step ⟨s.pipeline.db.alerts, s.auditLogs⟩ (.updateStatus now r)
    { s with
      pipeline := { s.pipeline with db := { s.pipeline.db with alerts := db.alerts } }
      auditLogs := db.auditLogs }

def start (now : Time) : State where
  pipeline := Pipeline.init now

/-- Each event is a row that the schema takes of an arrival that was accepted, and each alert is
within its bounds and names stored events only. -/
structure Sound (cfg : Config) (s : State) : Prop where
  events : ∀ row ∈ s.pipeline.db.events.rows, row.Fits ∧ ∃ a ∈ s.arrivals, ∃ ev,
    SecurityEvent.fromRaw cfg.py a.readings a.raw = .ok ev ∧ row = rowFromEvent ev
  alerts : s.pipeline.db.Sound

variable {cfg : Config} {s : State}

theorem accepted_of_fresh {p : Pipeline} {c : Call} {av : Arrival × SecurityEvent}
    (h : av ∈ Pipeline.freshOf cfg p c) :
    av.1 ∈ c.arrivals ∧ SecurityEvent.fromRaw cfg.py av.1.readings av.1.raw = .ok av.2 := by
  obtain ⟨a, ha, hav⟩ := List.mem_filterMap.mp (List.mem_of_mem_filter h)
  cases hraw : SecurityEvent.fromRaw cfg.py a.readings a.raw with
  | error e => simp [hraw] at hav
  | ok ev =>
    simp only [hraw, Option.some.injEq] at hav
    rw [← hav]
    exact ⟨ha, hraw⟩

theorem sound_call (h : Sound cfg s) (c : Call) : Sound cfg (step cfg s (.call c)) := by
  obtain ⟨new, hrows, hnew, -⟩ := Pipeline.events_processBatch cfg s.pipeline c
  refine ⟨?_, Pipeline.sound_processBatch h.alerts⟩
  change ∀ row ∈ (Pipeline.processBatch cfg s.pipeline c).1.db.events.rows, _
  rw [hrows]
  refine List.forall_mem_append.mpr ⟨fun row hrow => ?_, fun row hrow => ?_⟩
  · obtain ⟨hfits, a, ha, hev⟩ := h.events row hrow
    exact ⟨hfits, a, List.mem_append_left _ ha, hev⟩
  · obtain ⟨hfits, av, hav, rfl⟩ := hnew row hrow
    obtain ⟨ha, hraw⟩ := accepted_of_fresh hav
    exact ⟨hfits, av.1, List.mem_append_right _ ha, av.2, hraw, rfl⟩

theorem triage_cases (cfg : Config) (s : State) (now : Time) (r : StatusRequest) :
    (step cfg s (.triage now r)).pipeline.db.alerts = s.pipeline.db.alerts ∨
      ∃ a history, s.pipeline.db.alerts.rows[r.alertId]? = some a ∧
        (step cfg s (.triage now r)).pipeline.db.alerts.rows =
          s.pipeline.db.alerts.rows.set r.alertId (a.moved history r.newStatus now r.actor) := by
  rcases Workflow.step_updateStatus_cases ⟨s.pipeline.db.alerts, s.auditLogs⟩ now r with
    hstep | ⟨a, history, alerts, hget, -, -, hupdate, hstep⟩
  · exact Or.inl (congrArg AlertDb.alerts hstep)
  · refine Or.inr ⟨a, history, hget, ?_⟩
    exact (congrArg (fun db : AlertDb => db.alerts.rows) hstep).trans (Alerts.rows_update? hupdate)

theorem sound_triage (h : Sound cfg s) (now : Time) (r : StatusRequest) :
    Sound cfg (step cfg s (.triage now r)) := by
  refine ⟨h.events, ?_⟩
  change ∀ a ∈ (step cfg s (.triage now r)).pipeline.db.alerts.rows,
    a.Sound s.pipeline.db.events.ids
  rcases triage_cases cfg s now r with hsame | ⟨a, history, hget, hset⟩
  · rw [hsame]
    exact h.alerts
  · rw [hset]
    intro b hb
    rcases List.mem_or_eq_of_mem_set hb with hold | rfl
    · exact h.alerts b hold
    · exact Alert.sound_moved (h.alerts a (List.mem_of_getElem? hget)) history _ now _

theorem sound_step (a : Act) (h : Sound cfg s) : Sound cfg (step cfg s a) := by
  cases a with
  | call c => exact sound_call h c
  | expire => exact ⟨h.events, h.alerts⟩
  | triage now r => exact sound_triage h now r

theorem rows_step (s : State) (a : Act) :
    s.pipeline.db.events.rows <+: (step cfg s a).pipeline.db.events.rows := by
  cases a with
  | call c =>
    obtain ⟨new, hrows, -⟩ := Pipeline.events_processBatch cfg s.pipeline c
    exact ⟨new, hrows.symm⟩
  | expire => exact List.prefix_refl _
  | triage now r => exact List.prefix_refl _

theorem rows_exec (s : State) (as : List Act) :
    s.pipeline.db.events.rows <+: (Run.exec (step cfg) s as).pipeline.db.events.rows := by
  induction as generalizing s with
  | nil => exact List.prefix_refl _
  | cons a as ih => exact (rows_step s a).trans (ih _)

theorem sound_exec (cfg : Config) (now : Time) (as : List Act) :
    Run.Holds (step cfg) (Sound cfg) (start now) as :=
  Run.holds_of_step (I := Sound cfg) (fun _ a h => sound_step a h)
    ⟨fun _ hrow => absurd hrow List.not_mem_nil, fun _ ha => absurd ha List.not_mem_nil⟩ as

/-- Whichever faults the calls have and whatever the analysts do, in every state of every run each
event is the row of an arrival that was accepted, each alert is within its bounds and names stored
events only, and the events of a state are still there, unchanged, in every later one. -/
theorem tables_sound (cfg : Config) (now : Time) (as : List Act) :
    Run.Holds (step cfg) (Sound cfg) (start now) as ∧
      ∀ bs, (Run.exec (step cfg) (start now) as).pipeline.db.events.rows <+:
        (Run.exec (step cfg) (start now) (as ++ bs)).pipeline.db.events.rows := by
  refine ⟨sound_exec cfg now as, fun bs => ?_⟩
  rw [Run.exec_append]
  exact rows_exec _ bs

end Tables

end SiemEngine

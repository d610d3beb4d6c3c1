import SiemEngine.Detection.Injection
import SiemEngine.Schemas.Idempotence
import SiemEngine.Streaming.Batching
import SiemEngine.Streaming.Ledger

/-!
# Events that need no history

Some rules fire on an event by itself, whatever is in the windows. No such event is stored
without its alert: the row and the alert are written in one transaction, and the alert stays.
-/

namespace SiemEngine

structure Rule.Fires (py : Python) (p : Params) (ev : SecurityEvent) (rule : Rule)
    (d : Detection) : Prop where
  applies : rule.appliesTo py ev
  found : ∀ tick ws, (rule.evaluate py p tick ev ws).2 = .ok (some d)

theorem DetectionEngine.mem_evaluate_of_fires {py : Python} {engine : DetectionEngine}
    {ev : SecurityEvent} {rule : Rule} {d : Detection} (henabled : rule ∉ engine.disabled)
    (h : rule.Fires py engine.params ev d) (ticks : Rule → Tick) (ws : Windows) :
    d.stamped (ticks rule) ∈ (engine.evaluate py ticks ev ws).2 := by
  let o : Sighting := { event := ev, ticks := ticks, disabled := engine.disabled }
  have hattempt : (o.attempt py engine.params rule ws).2 = some d := by
    rw [Sighting.attempt_of_watched ⟨henabled, rfl⟩, if_pos h.applies, h.found]
    rfl
  rw [← show o.evaluate py engine.params ws = engine.evaluate py ticks ev ws from
    Sighting.evaluate_eq_engine rfl ws]
  exact ((Sighting.mem_evaluate_iff o rule ws).mpr ⟨d, hattempt, rfl⟩).1

/-- The alerts record what each enabled rule finds in the event alone. -/
def SecurityEvent.OnRecord (cfg : Config) (alerts : List Alert) (ev : SecurityEvent) : Prop :=
  ∀ rule ∉ cfg.engine.disabled, ∀ d, rule.Fires cfg.py cfg.engine.params ev d →
    ∃ a ∈ alerts, a.Records d

theorem SecurityEvent.OnRecord.mono {cfg : Config} {alerts alerts' : List Alert}
    {ev : SecurityEvent} (h : ev.OnRecord cfg alerts) (hlater : Alerts.Escalated alerts alerts') :
    ev.OnRecord cfg alerts' :=
  fun rule henabled d hfires => hlater.records (h rule henabled d hfires)

theorem Pipeline.mem_detect_of_fires {cfg : Config} {ev : SecurityEvent} {rule : Rule}
    {d : Detection} (henabled : rule ∉ cfg.engine.disabled)
    (h : rule.Fires cfg.py cfg.engine.params ev d) {events : List (Arrival × SecurityEvent)}
    {a : Arrival} (hmem : (a, ev) ∈ events) (ws : Windows) :
    d.stamped (a.ticks rule) ∈ (detect cfg ws events).2 := by
  obtain ⟨before, after, rfl⟩ := List.append_of_mem hmem
  rw [detect_append, detect_cons]
  exact List.mem_append_right _ (List.mem_append_left _
    (DetectionEngine.mem_evaluate_of_fires henabled h a.ticks _))

namespace Tables

variable {cfg : Config} {s : State}

def Covered (cfg : Config) (s : State) : Prop :=
  ∀ row ∈ s.pipeline.db.events.rows, ∃ ev, row = rowFromEvent ev ∧
    ev.OnRecord cfg s.pipeline.db.alerts.rows

theorem onRecord_of_fresh {c : Call} {av : Arrival × SecurityEvent}
    (hcommit : Pipeline.commit? cfg s.pipeline c ≠ none)
    (hav : av ∈ Pipeline.freshOf cfg s.pipeline c) :
    av.2.OnRecord cfg (step cfg s (.call c)).pipeline.db.alerts.rows := by
  intro rule henabled d hfires
  have hrows := Alerts.writes_records.processBatch cfg s.pipeline c fun _ _ => trivial
  have hdetect := Pipeline.mem_committed_of_detect hcommit
    (Pipeline.mem_detect_of_fires henabled hfires hav s.pipeline.windows)
  -- the stamp is no part of what the alert records
  obtain ⟨a, ha, hrecords⟩ := hrows.2.1 _ hdetect
  exact ⟨a, ha, hrecords.key, hrecords.severity, hrecords.confidence, hrecords.eventCount⟩

theorem covered_step (a : Act) (h : Covered cfg s) : Covered cfg (step cfg s a) := by
  have hlater := escalated_step cfg s a
  have hold : ∀ row ∈ s.pipeline.db.events.rows, ∃ ev, row = rowFromEvent ev ∧
      ev.OnRecord cfg (step cfg s a).pipeline.db.alerts.rows := by
    intro row hrow
    obtain ⟨ev, hev, hrecord⟩ := h row hrow
    exact ⟨ev, hev, hrecord.mono hlater⟩
  cases a with
  | expire => exact hold
  | triage now r => exact hold
  | call c =>
    intro row hrow
    change row ∈ (Pipeline.processBatch cfg s.pipeline c).1.db.events.rows at hrow
    by_cases hcommit : Pipeline.commit? cfg s.pipeline c = none
    · rw [Pipeline.processBatch_of_not_commit hcommit] at hrow
      exact hold row hrow
    · obtain ⟨new, hrows, hnew, -⟩ := Pipeline.events_processBatch cfg s.pipeline c
      rw [hrows] at hrow
      rcases List.mem_append.mp hrow with hrow | hrow
      · exact hold row hrow
      · obtain ⟨-, av, hav, rfl⟩ := hnew row hrow
        exact ⟨av.2, rfl, onRecord_of_fresh hcommit hav⟩

theorem covered_exec (cfg : Config) (now : Time) (as : List Act) :
    Run.Holds (step cfg) (Covered cfg) (start now) as :=
  Run.holds_of_step (I := Covered cfg) (fun _ a h => covered_step a h)
    (fun _ hrow => absurd hrow List.not_mem_nil) as

end Tables

theorem PrivilegeEscalation.fires (py : Python) (p : Params) {ev : SecurityEvent}
    (h : ev.eventType = .privilegeEscalation) : Rule.privilegeEscalation.Fires py p ev
      (detection py ev (reasons py p ev ++ failed ev)) where
  applies := by simp [Rule.appliesTo, appliesTo, h]
  found tick ws := by
    have hreasons : reasons py p ev ≠ [] := by simp [reasons, h]
    rw [Rule.evaluate, evaluate, if_neg fun hother => hother.1 h, if_neg hreasons]

theorem EventType.value_injective : Function.Injective EventType.value := by
  intro s t h
  have hlookup := readable.ofValue s
  rw [h, readable.ofValue] at hlookup
  exact (Option.some.inj hlookup).symm

/-- In no state of any run is a privilege escalation that a host has reported stored without an
alert of high severity for its host and user, whichever faults the calls had. -/
theorem escalations_alerted (cfg : Config) (henabled : .privilegeEscalation ∉ cfg.engine.disabled)
    (now : Time) (as : List Tables.Act) :
    Run.Holds (Tables.step cfg) (fun s => ∀ row ∈ s.pipeline.db.events.rows,
      row.eventType = "privilege_escalation" → ∃ a ∈ s.pipeline.db.alerts.rows,
        a.key = ("RULE-004",
          "host:" ++ row.source ++ ":user:" ++ shown row.username ++ ":privesc") ∧
          Severity.high.rank ≤ a.severity.rank) (Tables.start now) as := by
  refine (Tables.covered_exec cfg now as).mono fun s hcovered row hrow htype => ?_
  obtain ⟨ev, rfl, hrecord⟩ := hcovered row hrow
  have hescalation : ev.eventType = .privilegeEscalation := EventType.value_injective htype
  have hfires := PrivilegeEscalation.fires cfg.py cfg.engine.params hescalation
  obtain ⟨a, ha, hrecords⟩ := hrecord _ henabled _ hfires
  exact ⟨a, ha, hrecords.key, hrecords.severity⟩

theorem escalations_alerted_root :
    let s := Run.exec (Tables.step { py := .ascii }) (Tables.start 0)
      [.call (Pipeline.callAtZero [Pipeline.escalationRaw] none)]
    s.pipeline.db.events.rows.map SecurityEventRow.eventType = ["privilege_escalation"] ∧
      ∃ a ∈ s.pipeline.db.alerts.rows, a.key = ("RULE-004", "host:db-1:user:root:privesc") ∧
        Severity.high.rank ≤ a.severity.rank := by
  intro s
  have hstored : s.pipeline.db.events.rows.map
      (fun row => (row.eventType, row.source, row.username)) =
        [("privilege_escalation", "db-1", some "root")] := by decide +kernel
  obtain ⟨row, hrow, hfields⟩ := List.mem_map.mp (hstored ▸ List.mem_cons_self)
  obtain ⟨htype, hsource, husername⟩ := by simpa only [Prod.mk.injEq] using hfields
  refine ⟨by decide +kernel, ?_⟩
  have halerted := (escalations_alerted { py := .ascii } List.not_mem_nil 0
    [.call (Pipeline.callAtZero [Pipeline.escalationRaw] none)]).last row hrow htype
  rw [hsource, husername] at halerted
  exact halerted

namespace SuspiciousSql

variable {py : Python} {p : Params} {ev ev' : SecurityEvent}

theorem exists_fires (h : Suspicious py ev) (hrows : RowsReadable py ev) : ∃ d,
    Rule.suspiciousSql.Fires py p ev d ∧ d.severity = matchedSeverity py ev ∧
      d.key = ("RULE-005", "db:" ++ ev.source.val ++ ":user:" ++ shown (ev.user.or ev.sourceText) ++
        ":sqli") := by
  obtain ⟨d, hd, hseverity⟩ := (evaluate_of_suspicious h p ⟨0, "", 0⟩ []).1 hrows
  obtain ⟨rows, found, rfl⟩ := @evaluate_some _ _ ⟨0, "", 0⟩ _ _ _ _ hd
  refine ⟨_, ⟨h.applies, fun tick ws => ?_⟩, hseverity, rfl⟩
  -- the rule looks neither at the clock nor at the windows
  have hsame : (evaluate py p tick ev ws).2 = (evaluate py p ⟨0, "", 0⟩ ev []).2 := by
    unfold evaluate
    split_ifs
    · rfl
    · cases rowsReturned py ev with
      | none => rfl
      | some rows =>
        dsimp only
        cases hits py p (query py ev) rows with
        | nil => rfl
        | cons hit rest => rfl
  rw [Rule.evaluate, hsame, hd]

theorem reads_of_row (h : rowFromEvent ev = rowFromEvent ev') : ev.eventType = ev'.eventType ∧
    query py ev = query py ev' ∧ ev.metadata.get? "rows_returned" =
      ev'.metadata.get? "rows_returned" := by
  have hmetadata : ev.metadata.items = ev'.metadata.items :=
    congrArg SecurityEventRow.eventMetadata h
  have hmessage : ev.message.map Subtype.val = ev'.message.map Subtype.val :=
    congrArg SecurityEventRow.message h
  refine ⟨EventType.value_injective (congrArg SecurityEventRow.eventType h), ?_, ?_⟩
  · rw [query, query, Metadata.get?, Metadata.get?, hmetadata, hmessage]
  · rw [Metadata.get?, Metadata.get?, hmetadata]

theorem suspicious_of_row (h : rowFromEvent ev = rowFromEvent ev') (hev : Suspicious py ev) :
    Suspicious py ev' := by
  obtain ⟨htype, hquery, -⟩ := @reads_of_row py _ _ h
  have happlies : appliesTo ev' = appliesTo ev := by rw [appliesTo, appliesTo, htype]
  have hmatched : matched py ev' = matched py ev := by rw [matched, matched, hquery]
  exact ⟨happlies ▸ hev.applies, hquery ▸ hev.query, hmatched ▸ hev.matched⟩

end SuspiciousSql

open SuspiciousSql in
/-- Nor is a query that a pattern matches, with the severity of the patterns, as long as the row
count that is reported with it can be read. -/
theorem injections_alerted (cfg : Config) (henabled : .suspiciousSql ∉ cfg.engine.disabled)
    (now : Time) (as : List Tables.Act) :
    Run.Holds (Tables.step cfg) (fun s => ∀ ev, rowFromEvent ev ∈ s.pipeline.db.events.rows →
      Suspicious cfg.py ev → RowsReadable cfg.py ev → ∃ a ∈ s.pipeline.db.alerts.rows,
        a.key = ("RULE-005", "db:" ++ ev.source.val ++ ":user:" ++
          shown (ev.user.or ev.sourceText) ++ ":sqli") ∧
        (matchedSeverity cfg.py ev).rank ≤ a.severity.rank) (Tables.start now) as := by
  refine (Tables.covered_exec cfg now as).mono fun s hcovered ev hrow hsuspicious hreadable => ?_
  obtain ⟨ev', hev, hrecord⟩ := hcovered _ hrow
  obtain ⟨-, hquery, hcount⟩ := @reads_of_row cfg.py _ _ hev
  have hreadable' : RowsReadable cfg.py ev' := by rwa [RowsReadable, ← hcount]
  obtain ⟨d, hfires, hseverity, hkey⟩ := exists_fires (p := cfg.engine.params)
    (suspicious_of_row hev hsuspicious) hreadable'
  obtain ⟨a, ha, hrecords⟩ := hrecord _ henabled _ hfires
  have hmatched : matchedSeverity cfg.py ev' = matchedSeverity cfg.py ev := by
    rw [matchedSeverity, matchedSeverity, matched, matched, hquery]
  have hsource : ev'.source.val = ev.source.val := (congrArg SecurityEventRow.source hev).symm
  have huser : ev'.user = ev.user := (congrArg SecurityEventRow.username hev).symm
  have hip : ev'.sourceText = ev.sourceText := (congrArg SecurityEventRow.sourceIp hev).symm
  rw [hsource, huser, hip] at hkey
  rw [hmatched] at hseverity
  exact ⟨a, ha, hrecords.key.trans hkey, hseverity ▸ hrecords.severity⟩

open SuspiciousSql in
theorem injections_alerted_tautology :
    let s := Run.exec (Tables.step { py := tautologySearch }) (Tables.start 0)
      [.call (Pipeline.callAtZero [tautologyRaw (.int 3)] none)]
    rowFromEvent (tautology (.int 3)) ∈ s.pipeline.db.events.rows ∧
      ∃ a ∈ s.pipeline.db.alerts.rows, a.key = ("RULE-005", "db:unknown:user:None:sqli") ∧
        Severity.high.rank ≤ a.severity.rank := by
  intro s
  have hrow : rowFromEvent (tautology (.int 3)) ∈ s.pipeline.db.events.rows := by decide +kernel
  have hreadable : RowsReadable tautologySearch (tautology (.int 3)) :=
    rowsReturned_isSome_iff.mp (by decide +kernel)
  have halerted := (injections_alerted { py := tautologySearch } List.not_mem_nil 0
    [.call (Pipeline.callAtZero [tautologyRaw (.int 3)] none)]).last (tautology (.int 3)) hrow
      (suspicious_tautology List.mem_cons_self) hreadable
  have hhigh : matchedSeverity tautologySearch (tautology (.int 3)) = .high := by decide +kernel
  rw [hhigh] at halerted
  exact ⟨hrow, halerted⟩

end SiemEngine

import SiemEngine.Services.AlertStream
import SiemEngine.Streaming.Accounting
import SiemEngine.Streaming.Batching

/-!
# What a call publishes

After its transaction `process_batch` publishes at most a hundred of the fresh events and the
row each detection has left, and every alert of a minute rollover after its own session. A call
that raises when publishing has sent a part of its messages, from the front.
-/

namespace SiemEngine.Pipeline

open AlertStream (alertPayloads)

def maxPublished : ℕ := 100

/-- `_publish_events`, where `sent` counts the messages of a call that raises when publishing. -/
def publishedEvents (cfg : Config) (s : Pipeline) (c : Call) (sent : ℕ) : List SecurityEvent :=
  if (commit? cfg s c).isNone then []
  else
    let events := ((freshOf cfg s c).map Prod.snd).take maxPublished
    if c.fault = some .publish then events.take sent else events

/-- The messages of `_persist_standalone_alert`; one that raises after its commit may have
published. -/
def standalonePayloads (failAt : Option (ℕ × Bool)) (pref : ℕ → ℕ) (clock : Time) (sent : ℕ)
    (db : Database) : List Detection → List (ℕ × Alert)
  | [] => []
  | d :: ds =>
    let sessionFault := if failAt = some (0, false) then some 0 else none
    match Database.sessionScope sessionFault db [Database.applyDetection (pref 0) clock d] with
    | none => []
    | some db' =>
      let payload := AlertStream.written db.alerts (AlertCorrelator.plan db.alerts (pref 0) clock d)
      if failAt = some (0, true) then [payload].take sent
      else payload :: standalonePayloads (failAt.map fun f => (f.1 - 1, f.2))
        (fun i => pref (i + 1)) clock sent db' ds

def countedIn (cfg : Config) (s : Pipeline) (c : Call) (db : Database) : Pipeline :=
  { detected cfg s (freshOf cfg s c) with
    db
    counter := ((freshOf cfg s c).map Prod.snd).foldl MinuteCounter.count s.counter }

def publishedAlerts (cfg : Config) (s : Pipeline) (c : Call) (sent : ℕ) : List (ℕ × Alert) :=
  match commit? cfg s c with
  | none => []
  | some db =>
    let payloads := alertPayloads c.pref c.clock s.db.alerts
      (detect cfg s.windows (freshOf cfg s c)).2
    if c.fault = some .publish then payloads.take (sent - min maxPublished (freshOf cfg s c).length)
    else if minute c.now = s.bucket then payloads
    else payloads ++ standalonePayloads (c.fault.bind Fault.alert?) c.rolloverPref c.clock sent db
      (rolloverDetections cfg (countedIn cfg s c db) c)

section

variable {cfg : Config} {s : Pipeline} {c : Call} {db : Database}

theorem persist_alerts (h : persist cfg s c (freshOf cfg s c) = some db) (id : ℕ) :
    db.alerts.get? id = (Replica.last id (alertPayloads c.pref c.clock s.db.alerts
      (detect cfg s.windows (freshOf cfg s c)).2)).or (s.db.alerts.get? id) :=
  AlertStream.get?_batch h id

theorem get?_persistStandalone {failAt : Option (ℕ × Bool)} {pref : ℕ → ℕ} {clock : Time}
    (sent : ℕ) {ds : List Detection} (hfail : ∀ f ∈ failAt, f.2 = false) (id : ℕ) :
    (persistStandalone failAt pref clock db ds).1.alerts.get? id =
      (Replica.last id (standalonePayloads failAt pref clock sent db ds)).or
        (db.alerts.get? id) := by
  induction ds generalizing failAt pref db with
  | nil => rfl
  | cons d ds ih =>
    rw [persistStandalone, standalonePayloads]
    dsimp only
    cases hdb : Database.sessionScope (if failAt = some (0, false) then some 0 else none) db
      [Database.applyDetection (pref 0) clock d] with
    | none => rfl
    | some db' =>
      have hnot : ¬ failAt = some (0, true) := fun h => Bool.noConfusion (hfail _ h)
      simp only [if_neg hnot]
      have hnext : ∀ f ∈ failAt.map fun f => (f.1 - 1, f.2), f.2 = false := by
        intro f hf
        obtain ⟨g, hg, rfl⟩ := Option.map_eq_some_iff.mp hf
        exact hfail g hg
      rw [ih hnext, ← List.singleton_append, Replica.last_append, Option.or_assoc]
      have happly := AlertStream.get?_payloads (fun _ => { pref := pref 0 }) [d] hdb id
      rw [happly, ← AlertStream.alertPayloads_singleton]
      rfl

theorem updateMetrics_detected_db (db : Database) : (updateMetrics cfg
    { detected cfg s (freshOf cfg s c) with db } c ((freshOf cfg s c).map Prod.snd)).1.db =
      if minute c.now = s.bucket then db
      else (persistStandalone (c.fault.bind Fault.alert?) c.rolloverPref c.clock db
        (rolloverDetections cfg (countedIn cfg s c db) c)).1 := by
  unfold updateMetrics
  dsimp only [detected]
  split_ifs <;> rfl

/-- The call is not interrupted between a commit and its publication. -/
def Announced (c : Call) : Prop := c.fault ≠ some .publish ∧ ∀ k, c.fault ≠ some (.rollover k true)

theorem get?_processBatch (h : Announced c) (sent : ℕ) (id : ℕ) :
    (processBatch cfg s c).1.db.alerts.get? id =
      (Replica.last id (publishedAlerts cfg s c sent)).or (s.db.alerts.get? id) := by
  rw [publishedAlerts]
  cases hcommit : commit? cfg s c with
  | none =>
    rw [processBatch_of_not_commit hcommit]
    rfl
  | some db =>
    have hpersist := persist_alerts (commit?_eq_some.mp hcommit).2 id
    rw [processBatch_of_commit hcommit, if_neg h.1, updateMetrics_detected_db]
    simp only [if_neg h.1]
    split_ifs with hminute
    · exact hpersist
    · have hfail : ∀ f ∈ c.fault.bind Fault.alert?, f.2 = false := by
        intro f hf
        obtain ⟨fault, hfault, hf⟩ := Option.bind_eq_some_iff.mp hf
        cases fault with
        | rollover k committed =>
          cases hf
          cases committed with
          | false => rfl
          | true => exact absurd hfault (h.2 k)
        | check | mark | txn | publish => cases hf
      rw [get?_persistStandalone sent hfail, hpersist, Replica.last_append,
        Option.or_assoc]

theorem eventId_of_published {sent : ℕ} {ev : SecurityEvent}
    (h : ev ∈ publishedEvents cfg s c sent) :
    (commit? cfg s c).isSome ∧ ev.eventId ∈ ids (freshOf cfg s c) := by
  rw [publishedEvents] at h
  cases hcommit : commit? cfg s c with
  | none => simp [hcommit] at h
  | some db =>
    refine ⟨rfl, ?_⟩
    have hmem : ev ∈ (freshOf cfg s c).map Prod.snd := by
      simp only [hcommit, Option.isNone_some, Bool.false_eq_true, if_false] at h
      split_ifs at h
      · exact List.mem_of_mem_take (List.mem_of_mem_take h)
      · exact List.mem_of_mem_take h
    obtain ⟨av, hav, rfl⟩ := List.mem_map.mp hmem
    exact List.mem_map_of_mem hav

/-- What is published has been committed. -/
theorem stored_of_published {sent : ℕ} {ev : SecurityEvent}
    (h : ev ∈ publishedEvents cfg s c sent) :
    ev.eventId ∈ (processBatch cfg s c).1.db.events.ids := by
  obtain ⟨hsome, hid⟩ := eventId_of_published h
  obtain ⟨db, hcommit⟩ := Option.isSome_iff_exists.mp hsome
  obtain ⟨hreached, hpersist⟩ := commit?_eq_some.mp hcommit
  rw [hreached.processBatch_eq, processFresh_rows, hpersist]
  dsimp only
  rw [SecurityEvents.mem_ids_insertAll, List.map_map, List.map_map]
  exact Or.inr hid

end

structure Feed where
  pipeline : Pipeline
  alerts : List (ℕ × Alert) := []

def Feed.step (cfg : Config) (f : Feed) (a : Call × ℕ) : Feed where
  pipeline := (processBatch cfg f.pipeline a.1).1
  alerts := f.alerts ++ publishedAlerts cfg f.pipeline a.1 a.2

def Feed.Replays (before : Alerts) (f : Feed) : Prop :=
  ∀ id, f.pipeline.db.alerts.get? id = (Replica.last id f.alerts).or (before.get? id)

theorem Feed.replays_step {cfg : Config} {before : Alerts} {f : Feed} (a : Call × ℕ)
    (h : f.Replays before) (ha : Announced a.1) : (f.step cfg a).Replays before := by
  intro id
  change (processBatch cfg f.pipeline a.1).1.db.alerts.get? id = _
  rw [get?_processBatch ha a.2 id, h id, Feed.step, Replica.last_append, Option.or_assoc]

/-- Along every run of calls that are not interrupted between a commit and its publication,
whichever other faults they have, a page that has been connected from the start shows the eighty
alerts written last, each as the table has it. -/
theorem dashboard_after_calls (cfg : Config) (s : Pipeline) (as : List (Call × ℕ))
    (h : ∀ a ∈ as, Announced a.1) :
    let f := Run.exec (Feed.step cfg) { pipeline := s } as
    let shown := f.alerts.foldl (Replica.upsert AlertStream.maxAlerts) []
    shown = (Replica.newest f.alerts).take AlertStream.maxAlerts ∧
      (∀ x ∈ shown, f.pipeline.db.alerts.get? x.1 = some x.2) ∧
      ∀ id, f.pipeline.db.alerts.get? id ≠ s.db.alerts.get? id →
        ∃ a, (id, a) ∈ Replica.newest f.alerts := by
  intro f shown
  have hreplays : f.Replays s.db.alerts :=
    (Run.holds_of_guarded (I := Feed.Replays s.db.alerts) (G := fun _ a => Announced a.1)
      (fun _ a h ha => Feed.replays_step a h ha) (fun _ => rfl) (Run.guarded_of_forall h)).last
  have hshown : shown = (Replica.newest f.alerts).take AlertStream.maxAlerts :=
    Replica.foldl_upsert AlertStream.maxAlerts f.alerts
  refine ⟨hshown, fun x hx => ?_, fun id hid => ?_⟩
  · rw [hshown] at hx
    rw [hreplays x.1, Replica.mem_newest.mp (List.mem_of_mem_take hx), Option.some_or]
  · cases hlast : Replica.last id f.alerts with
    | none =>
      rw [hreplays id, hlast, Option.none_or] at hid
      exact absurd rfl hid
    | some a => exact ⟨a, Replica.mem_newest.mpr hlast⟩

theorem dashboard_after_calls_two :
    let f := Run.exec (Feed.step strict) { pipeline := init 0 }
      [(failedLogins id "x" ["a"], 0), (failedLogins id "y" ["b"], 0)]
    let shown := f.alerts.foldl (Replica.upsert AlertStream.maxAlerts) []
    shown.map (fun x => (x.2.ruleId, x.2.eventCount)) = [("RULE-001", 2)] ∧
      ∀ x ∈ shown, f.pipeline.db.alerts.get? x.1 = some x.2 := by
  refine ⟨by decide +kernel, (dashboard_after_calls strict (init 0)
    [(failedLogins id "x" ["a"], 0), (failedLogins id "y" ["b"], 0)] ?_).2.1⟩
  intro a ha
  rcases List.mem_pair.mp ha with rfl | rfl
  · exact ⟨by decide, fun k => by simp [failedLogins, atZero]⟩
  · exact ⟨by decide, fun k => by simp [failedLogins, atZero]⟩

end SiemEngine.Pipeline

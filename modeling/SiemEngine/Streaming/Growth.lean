import SiemEngine.Streaming.Provenance

/-!
# What later queries see

A request runs several queries, and calls and triage go on between them. A later query sees the
rows of an earlier one again, the events unchanged, the alerts with what is fixed when they are
raised: the rule, the kind and the time they were first seen.
-/

namespace SiemEngine

structure Origin where
  ruleId : String
  kind : DetectionKind
  firstSeen : Time
  deriving DecidableEq

def Alert.origin (a : Alert) : Origin := ⟨a.ruleId, a.detectionKind, a.firstSeen⟩

theorem Alert.origin_fold (a : Alert) (now : Time) (d : Detection) :
    (a.fold now d).origin = a.origin := by
  simp only [origin, fold]

def detectorIds : List String := Rule.all.map Rule.ruleId ++ ["ANOM-001", "ML-001"]

def Origin.Extends (before after : List Origin) : Prop :=
  ∃ new, after = before ++ new ∧ ∀ o ∈ new, o.ruleId ∈ detectorIds

theorem Origin.Extends.refl (os : List Origin) : Origin.Extends os os :=
  ⟨[], (List.append_nil os).symm, by simp⟩

theorem Origin.Extends.trans {os os' os'' : List Origin} (h : Origin.Extends os os')
    (h' : Origin.Extends os' os'') : Origin.Extends os os'' := by
  obtain ⟨new, rfl, hnew⟩ := h
  obtain ⟨new', rfl, hnew'⟩ := h'
  exact ⟨new ++ new', List.append_assoc _ _ _, List.forall_mem_append.mpr ⟨hnew, hnew'⟩⟩

theorem map_set_of_eq {α β : Type*} {f : α → β} {xs : List α} {i : ℕ} {a b : α}
    (ha : xs[i]? = some a) (h : f b = f a) : (xs.set i b).map f = xs.map f := by
  apply List.ext_getElem?
  intro j
  rw [List.getElem?_map, List.getElem?_map, List.getElem?_set]
  split_ifs with hij hlt
  · rw [← hij, ha, Option.map_some, Option.map_some, h]
  · rw [← hij, List.getElem?_eq_none (by omega)]
  · rfl

def Database.origins (db : Database) : List Origin := db.alerts.rows.map Alert.origin

theorem Alerts.writes_origins : Alerts.Writes (fun d => d.ruleId ∈ detectorIds)
    fun rows _ rows' => Origin.Extends (rows.map Alert.origin) (rows'.map Alert.origin) where
  nil rows := Origin.Extends.refl _
  append h h' := h.trans h'
  insert now hd _ := ⟨[_], List.map_append, List.forall_mem_singleton.mpr hd⟩
  fold now hget _ _ _ := by
    rw [map_set_of_eq hget (Alert.origin_fold _ now _)]
    exact Origin.Extends.refl _

theorem Pipeline.ruleId_computed {cfg : Config} {s : Pipeline} {c : Call} {d : Detection}
    (h : d ∈ computed cfg s c) : d.ruleId ∈ detectorIds := by
  rcases mem_computed h with ⟨-, hd⟩ | ⟨s', hd⟩
  · obtain ⟨av, -, ws', hd⟩ := exists_of_mem_detect hd
    obtain ⟨rule, _, _, found, heval, rfl⟩ := DetectionEngine.exists_of_mem_evaluate hd
    change found.ruleId ∈ detectorIds
    rw [Rule.ruleId_evaluate heval]
    exact List.mem_append_left _ (List.mem_map_of_mem rule.mem_all)
  · rcases rolloverDetections_cases hd with ⟨_, _, rfl⟩ | ⟨_, _, _, _, rfl⟩
    · exact List.mem_append_right _ List.mem_cons_self
    · exact List.mem_append_right _ (List.mem_cons_of_mem _ List.mem_cons_self)

namespace Tables

variable {cfg : Config} {s : State}

theorem origins_step (cfg : Config) (s : State) (a : Act) :
    Origin.Extends s.pipeline.db.origins (step cfg s a).pipeline.db.origins := by
  cases a with
  | call c =>
    exact Alerts.writes_origins.processBatch cfg s.pipeline c
      fun _ hd => Pipeline.ruleId_computed hd
  | expire => exact Origin.Extends.refl _
  | triage now r =>
    rw [Database.origins, Database.origins]
    rcases triage_cases cfg s now r with hsame | ⟨a, history, hget, hset⟩
    · rw [hsame]
      exact Origin.Extends.refl _
    · have horigin : (a.moved history r.newStatus now r.actor).origin = a.origin := rfl
      rw [hset, map_set_of_eq hget horigin]
      exact Origin.Extends.refl _

theorem origins_exec (cfg : Config) (s : State) (as : List Act) :
    Origin.Extends s.pipeline.db.origins (Run.exec (step cfg) s as).pipeline.db.origins := by
  induction as generalizing s with
  | nil => exact Origin.Extends.refl _
  | cons a as ih => exact (origins_step cfg s a).trans (ih _)

/-- What query `i` of a request sees, when the acts of `between i` come before it and after the
query before. -/
def seenBy (cfg : Config) (now : Time) (between : ℕ → List Act) (i : ℕ) : Database :=
  (Run.exec (step cfg) (start now) ((List.range (i + 1)).flatMap between)).pipeline.db

variable {now : Time} {between : ℕ → List Act}

theorem exists_later (cfg : Config) (now : Time) (between : ℕ → List Act) {i j : ℕ}
    (hij : i ≤ j) : ∃ s as,
    seenBy cfg now between i = s.pipeline.db ∧
      seenBy cfg now between j = (Run.exec (step cfg) s as).pipeline.db := by
  obtain ⟨k, rfl⟩ := Nat.exists_eq_add_of_le hij
  refine ⟨_, ((List.range k).map fun n => i + 1 + n).flatMap between, rfl, ?_⟩
  rw [seenBy, Nat.add_right_comm, List.range_add, List.flatMap_append, Run.exec_append]

theorem events_seenBy {i j : ℕ} (hij : i ≤ j) :
    (seenBy cfg now between i).events.rows <+: (seenBy cfg now between j).events.rows := by
  obtain ⟨s, as, hi, hj⟩ := exists_later cfg now between hij
  rw [hi, hj]
  exact rows_exec s as

theorem origins_seenBy (cfg : Config) (now : Time) (between : ℕ → List Act) {i j : ℕ}
    (hij : i ≤ j) :
    (seenBy cfg now between i).origins <+: (seenBy cfg now between j).origins := by
  obtain ⟨s, as, hi, hj⟩ := exists_later cfg now between hij
  rw [hi, hj]
  obtain ⟨new, hnew, -⟩ := origins_exec cfg s as
  exact ⟨new, hnew.symm⟩

theorem ruleId_seenBy (i : ℕ) :
    ∀ o ∈ (seenBy cfg now between i).origins, o.ruleId ∈ detectorIds := by
  obtain ⟨new, hnew, hids⟩ := origins_exec cfg (start now)
    ((List.range (i + 1)).flatMap between)
  rw [seenBy, hnew]
  exact hids

end Tables

end SiemEngine

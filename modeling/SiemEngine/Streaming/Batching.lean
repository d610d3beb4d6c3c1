import SiemEngine.Detection.Folding
import SiemEngine.Detection.Tokens
import SiemEngine.Lib.Run
import SiemEngine.Streaming.Pipeline

/-!
# Runs of batches

A batch is detected event by event and then folded alert by alert. Where batches end is
therefore not visible in what clean calls leave, the alerts of the minute rollover apart:
windows, rows and the alerts of the rules depend on the sequence of fresh events only.
-/

namespace SiemEngine.Pipeline

def step (cfg : Config) (s : Pipeline) (c : Call) : Pipeline := (processBatch cfg s c).1

def Returns (cfg : Config) (s : Pipeline) (c : Call) : Prop := (processBatch cfg s c).2 = false

instance (cfg : Config) (s : Pipeline) (c : Call) : Decidable (Returns cfg s c) :=
  inferInstanceAs (Decidable (_ = _))

def byRule (key : String × String) : Bool := key.1 ≠ "ANOM-001" && key.1 ≠ "ML-001"

/-- What clean calls with these fresh events leave, of the alerts those of some keys. -/
structure Advanced (cfg : Config) (P : String × String → Bool) (s : Pipeline)
    (events : List (Arrival × SecurityEvent)) (s' : Pipeline) : Prop where
  windows : s'.windows = (detect cfg s.windows events).1
  seen : s'.seen = s.seen ∪ (ids events).toFinset
  rows : s'.db.events = s.db.events.insertAll (events.map fun av => rowFromEvent av.2)
  selected : s'.db.alerts.selected P =
    ((detect cfg s.windows events).2.filter fun d => P d.key).foldl (Alerts.absorb 0)
      (s.db.alerts.selected P)
  oneActive : ∀ key, P key → s'.db.alerts.OneActive key

variable {cfg : Config} {P : String × String → Bool} {s s' : Pipeline} {c : Call}
  {events events' : List (Arrival × SecurityEvent)}

theorem detect_append (ws : Windows) (xs ys : List (Arrival × SecurityEvent)) :
    detect cfg ws (xs ++ ys) = ((detect cfg (detect cfg ws xs).1 ys).1,
      (detect cfg ws xs).2 ++ (detect cfg (detect cfg ws xs).1 ys).2) := by
  have hfold : ∀ (ys : List (Arrival × SecurityEvent)) (ws : Windows) (ds : List Detection),
      ys.foldl (fun acc av =>
        let out := cfg.engine.evaluate cfg.py av.1.ticks av.2 acc.1
        (out.1, acc.2 ++ out.2)) (ws, ds) = ((detect cfg ws ys).1, ds ++ (detect cfg ws ys).2) := by
    intro ys
    induction ys with
    | nil => intro ws ds; simp [detect]
    | cons av ys ih =>
      intro ws ds
      rw [List.foldl_cons, detect, List.foldl_cons, ih, ih]
      simp only [List.append_assoc, List.nil_append]
  rw [detect, List.foldl_append]
  exact hfold ys _ _

theorem detect_cons (ws : Windows) (av : Arrival × SecurityEvent)
    (ys : List (Arrival × SecurityEvent)) :
    detect cfg ws (av :: ys) =
      ((detect cfg (cfg.engine.evaluate cfg.py av.1.ticks av.2 ws).1 ys).1,
        (cfg.engine.evaluate cfg.py av.1.ticks av.2 ws).2 ++
          (detect cfg (cfg.engine.evaluate cfg.py av.1.ticks av.2 ws).1 ys).2) :=
  detect_append ws [av] ys

theorem stamped_evaluate (ticks : Rule → Tick) (ev : SecurityEvent) (ws : Windows) :
    ∀ d ∈ (cfg.engine.evaluate cfg.py ticks ev ws).2, d.triggeredAt.isSome := by
  have hfold : ∀ (rules : List Rule) (acc : Windows × List Detection),
      (∀ d ∈ acc.2, d.triggeredAt.isSome) →
      ∀ d ∈ (rules.foldl (cfg.engine.runDetector cfg.py ticks ev) acc).2, d.triggeredAt.isSome := by
    intro rules
    induction rules with
    | nil => exact fun _ h => h
    | cons rule rules ih =>
      intro acc h
      refine ih _ fun d hd => ?_
      unfold DetectionEngine.runDetector at hd
      split_ifs at hd
      · exact h d hd
      · split at hd
        · rcases List.mem_append.mp hd with hd | hd
          · exact h d hd
          · rw [List.mem_singleton.mp hd]
            rfl
        · exact h d hd
        · exact h d hd
  exact hfold Rule.all (ws, []) fun d hd => absurd hd List.not_mem_nil

theorem stamped_detect (ws : Windows) (events : List (Arrival × SecurityEvent)) :
    ∀ d ∈ (detect cfg ws events).2, d.triggeredAt.isSome := by
  induction events generalizing ws with
  | nil => exact fun d hd => absurd hd List.not_mem_nil
  | cons av events ih =>
    intro d hd
    rw [detect_cons] at hd
    rcases List.mem_append.mp hd with hd | hd
    · exact stamped_evaluate _ _ _ d hd
    · exact ih _ d hd

theorem Advanced.trans {s'' : Pipeline} (h : Advanced cfg P s events s')
    (h' : Advanced cfg P s' events' s'') : Advanced cfg P s (events ++ events') s'' where
  windows := by rw [h'.windows, h.windows, detect_append]
  seen := by rw [h'.seen, h.seen, ids, ids, ids, List.map_append, List.toFinset_append,
    Finset.union_assoc]
  rows := by
    rw [h'.rows, h.rows, List.map_append]
    exact (List.foldl_append ..).symm
  selected := by
    rw [h'.selected, h.selected, h.windows, detect_append, List.filter_append, List.foldl_append]
  oneActive := h'.oneActive

theorem Advanced.nil (h : ∀ key, P key → s.db.alerts.OneActive key) : Advanced cfg P s [] s where
  windows := rfl
  seen := (Finset.union_empty s.seen).symm
  rows := rfl
  selected := rfl
  oneActive := h

theorem minuteRule_of_mem {d : Detection} (h : d ∈ rolloverDetections cfg s c) :
    byRule d.key = false := by
  rcases List.mem_append.mp h with h | h
  · obtain ⟨i, hi, rfl⟩ := List.mem_mapIdx.mp h
    rfl
  · obtain ⟨out, -, rfl⟩ := List.mem_map.mp h
    rfl

theorem persistStandalone_selected {failAt : Option (ℕ × Bool)} {pref : ℕ → ℕ} {clock : Time}
    {db : Database} {ds : List Detection} (hP : ∀ d ∈ ds, ¬ P d.key)
    (hone : ∀ key, P key → db.alerts.OneActive key) :
    (persistStandalone failAt pref clock db ds).1.alerts.selected P = db.alerts.selected P ∧
      ∀ key, P key → (persistStandalone failAt pref clock db ds).1.alerts.OneActive key := by
  induction ds generalizing failAt pref db with
  | nil => exact ⟨rfl, hone⟩
  | cons d ds ih =>
    obtain ⟨hd, hds⟩ := List.forall_mem_cons.mp hP
    simp only [persistStandalone]
    split
    · exact ⟨rfl, hone⟩
    · rename_i db' hdb
      obtain ⟨db₁, happly, hrest⟩ := Database.sessionScope_cons hdb
      rw [← Database.sessionScope_nil hrest] at happly
      have halerts := Database.apply_of_applyDetection happly
      have hone' : ∀ key, P key → db'.alerts.OneActive key := fun key hkey =>
        AlertCorrelator.oneActive_apply (hone key hkey) halerts
      have hsel := AlertCorrelator.selected_apply_of_not hd halerts
      split
      · exact ⟨hsel, hone'⟩
      · obtain ⟨hsel', hone''⟩ := ih hds hone'
        exact ⟨hsel'.trans hsel, hone''⟩

theorem updateMetrics_windows (events : List SecurityEvent) :
    (updateMetrics cfg s c events).1.windows = s.windows := by
  unfold updateMetrics flushMinute
  dsimp only
  split_ifs <;> rfl

theorem updateMetrics_selected (hP : ∀ key, P key → byRule key)
    (hone : ∀ key, P key → s.db.alerts.OneActive key) (events : List SecurityEvent) :
    (updateMetrics cfg s c events).1.db.alerts.selected P = s.db.alerts.selected P ∧
      ∀ key, P key → (updateMetrics cfg s c events).1.db.alerts.OneActive key := by
  have hflush : ∀ counted : Pipeline, counted.db = s.db →
      (flushMinute cfg counted c).1.db.alerts.selected P = s.db.alerts.selected P ∧
        ∀ key, P key → (flushMinute cfg counted c).1.db.alerts.OneActive key := by
    intro counted hdb
    rw [← hdb] at hone ⊢
    refine persistStandalone_selected (fun d hd hPd => ?_) hone
    exact absurd (hP _ hPd) (by simp [minuteRule_of_mem hd])
  unfold updateMetrics
  dsimp only
  split_ifs
  · exact ⟨rfl, hone⟩
  · exact hflush _ rfl
  · exact hflush _ rfl

/-- The step lemma: a clean call advances by its fresh events. -/
theorem advanced_of_returns (hP : ∀ key, P key → byRule key)
    (hone : ∀ key, P key → s.db.alerts.OneActive key) (h : Returns cfg s c) :
    Advanced cfg P s (freshOf cfg s c) (step cfg s c) := by
  have hnil : freshOf cfg s c = [] → Advanced cfg P s (freshOf cfg s c) s := by
    intro hfresh
    rw [hfresh]
    exact Advanced.nil hone
  unfold Returns at h
  unfold step
  by_cases hvalid : (validate cfg.py c.arrivals).isEmpty
  · simp only [processBatch, if_pos hvalid]
    exact hnil (by rw [freshOf, List.isEmpty_iff.mp hvalid]; rfl)
  simp only [processBatch, if_neg hvalid] at h ⊢
  split_ifs at h ⊢ with _ hfresh
  · exact hnil (List.isEmpty_iff.mp hfresh)
  simp only [processFresh] at h ⊢
  split at h
  · cases h
  rename_i db hdb
  split_ifs at h
  have hbatch := Database.selected_batch hone hdb
  have hstored : ∀ key, P key → db.alerts.OneActive key := hbatch.1
  simp only [freshOf]
  rw [if_neg (by assumption)]
  have hmetrics := @updateMetrics_selected cfg P
    { detected cfg s (fresh s.seen (validate cfg.py c.arrivals)) with db } c hP hstored
    ((fresh s.seen (validate cfg.py c.arrivals)).map Prod.snd)
  refine ⟨updateMetrics_windows _, updateMetrics_seen _, ?_, ?_, hmetrics.2⟩
  · rw [updateMetrics_events]
    have hev := (Database.sessionScope_batch hdb).1
    rwa [List.map_map] at hev
  · refine hmetrics.1.trans (hbatch.2.trans ?_)
    refine List.foldl_ext _ _ _ fun rows d hd => ?_
    exact Alerts.absorb_clock (stamped_detect _ _ d (List.mem_of_mem_filter hd)) _ _ _

theorem validate_append (py : Python) (as bs : List Arrival) :
    validate py (as ++ bs) = validate py as ++ validate py bs := List.filterMap_append ..

theorem fresh_eq_self {seen : Finset UUID} {valid : List (Arrival × SecurityEvent)}
    (h : ∀ id ∈ ids valid, id ∉ seen) : fresh seen valid = valid :=
  List.filter_eq_self.mpr fun _ hav => decide_eq_true (h _ (List.mem_map_of_mem hav))

/-- The run lemma: of distinct unseen events every call finds its own ones fresh. -/
theorem advanced_run (hP : ∀ key, P key → byRule key) {cs : List Call}
    (hclean : Run.Guarded (step cfg) (Returns cfg) s cs)
    (hdistinct : (ids (validate cfg.py (cs.flatMap Call.arrivals))).Nodup)
    (hunseen : ∀ id ∈ ids (validate cfg.py (cs.flatMap Call.arrivals)), id ∉ s.seen)
    (hone : ∀ key, P key → s.db.alerts.OneActive key) :
    Advanced cfg P s (validate cfg.py (cs.flatMap Call.arrivals)) (Run.exec (step cfg) s cs) := by
  induction cs generalizing s with
  | nil => exact Advanced.nil hone
  | cons c cs ih =>
    obtain ⟨hc, hcs⟩ := hclean
    rw [List.flatMap_cons, validate_append] at hdistinct hunseen ⊢
    have hsplit : ids (validate cfg.py c.arrivals ++ validate cfg.py (cs.flatMap Call.arrivals)) =
        ids (validate cfg.py c.arrivals) ++ ids (validate cfg.py (cs.flatMap Call.arrivals)) :=
      List.map_append ..
    rw [hsplit] at hdistinct hunseen
    have hfirst := advanced_of_returns hP hone hc
    rw [freshOf, fresh_eq_self fun id hid => hunseen id (List.mem_append_left _ hid)] at hfirst
    refine hfirst.trans (ih hcs (List.nodup_append.mp hdistinct).2.1 ?_ hfirst.oneActive)
    intro id hid hseen
    rw [hfirst.seen, Finset.mem_union, List.mem_toFinset] at hseen
    rcases hseen with hseen | hearlier
    · exact hunseen id (List.mem_append_right _ hid) hseen
    · exact (List.disjoint_of_nodup_append hdistinct) hearlier hid

end SiemEngine.Pipeline

namespace SiemEngine

open Windows DetectionEngine

def Arrival.tokens (a : Arrival) : List String := DetectionEngine.tokens a.ticks

/-- The same message, evaluated at the same instants; the tokens may differ. -/
structure Arrival.Same (a a' : Arrival) : Prop where
  raw : a.raw = a'.raw
  readings : a.readings = a'.readings
  ticks : ∀ rule, SameTick (a.ticks rule) (a'.ticks rule)

theorem DetectionEngine.Fresh.sublist {ts ts' : List String} {ws : Windows} (h : Fresh ts' ws)
    (hsub : ts.Sublist ts') : Fresh ts ws :=
  ⟨h.nodup.sublist hsub, fun t ht => h.separator t (hsub.subset ht),
    fun t ht => h.unused t (hsub.subset ht)⟩

namespace Pipeline

variable {cfg : Config}

theorem validate_same (py : Python) {as bs : List Arrival} (h : List.Forall₂ Arrival.Same as bs) :
    List.Forall₂ (fun x y => x.1.Same y.1 ∧ x.2 = y.2) (validate py as) (validate py bs) := by
  refine List.rel_filterMap (fun a b hab => ?_) h
  rw [← hab.raw, ← hab.readings]
  cases SecurityEvent.fromRaw py a.readings a.raw with
  | error e => exact Option.Rel.none
  | ok ev => exact Option.Rel.some ⟨hab, rfl⟩

theorem tokens_validate (py : Python) (as : List Arrival) :
    ((validate py as).flatMap fun av => av.1.tokens).Sublist (as.flatMap Arrival.tokens) := by
  induction as with
  | nil => exact List.Sublist.slnil
  | cons a as ih =>
    rw [validate, List.filterMap_cons, List.flatMap_cons]
    cases SecurityEvent.fromRaw py a.readings a.raw with
    | error e => exact ih.trans (List.sublist_append_right _ _)
    | ok ev => exact (List.Sublist.refl _).append ih

theorem detect_same {xs ys : List (Arrival × SecurityEvent)}
    (h : List.Forall₂ (fun x y => x.1.Same y.1 ∧ x.2 = y.2) xs ys) {ws ws' : Windows}
    (hws : UpToTokens ws ws') (hf : Fresh (xs.flatMap fun av => av.1.tokens) ws)
    (hf' : Fresh (ys.flatMap fun av => av.1.tokens) ws') :
    (detect cfg ws xs).2 = (detect cfg ws' ys).2 ∧
      UpToTokens (detect cfg ws xs).1 (detect cfg ws' ys).1 := by
  induction h generalizing ws ws' with
  | nil => exact ⟨rfl, hws⟩
  | @cons x y xs ys hxy _ ih =>
    rw [List.flatMap_cons] at hf hf'
    rw [detect_cons, detect_cons, ← hxy.2]
    obtain ⟨hds, hws'⟩ := @evaluate_same cfg.py cfg.engine x.2 _ _ hxy.1.ticks _ _ _ _ hws hf hf'
    obtain ⟨hrest, hlast⟩ := ih hws' hf.evaluate hf'.evaluate
    exact ⟨by rw [hds, hrest], hlast⟩

/-- However the same events are cut into batches, clean calls leave the same rows, the same
windows up to tokens, and the same alerts of all rules. -/
theorem batches_equivalent (cfg : Config) (s : Pipeline) (cs cs' : List Call)
    (hsame : List.Forall₂ Arrival.Same (cs.flatMap Call.arrivals) (cs'.flatMap Call.arrivals))
    (hdistinct : (ids (validate cfg.py (cs.flatMap Call.arrivals))).Nodup)
    (hunseen : ∀ id ∈ ids (validate cfg.py (cs.flatMap Call.arrivals)), id ∉ s.seen)
    (htokens : Fresh ((cs.flatMap Call.arrivals).flatMap Arrival.tokens) s.windows)
    (htokens' : Fresh ((cs'.flatMap Call.arrivals).flatMap Arrival.tokens) s.windows)
    (hone : ∀ key, byRule key → s.db.alerts.OneActive key)
    (hclean : Run.Guarded (step cfg) (Returns cfg) s cs)
    (hclean' : Run.Guarded (step cfg) (Returns cfg) s cs') :
    let t := Run.exec (step cfg) s cs
    let t' := Run.exec (step cfg) s cs'
    t.db.events = t'.db.events ∧ UpToTokens t.windows t'.windows ∧
      t.db.alerts.selected byRule = t'.db.alerts.selected byRule := by
  intro t t'
  have hvalid := validate_same cfg.py hsame
  have hevents : (validate cfg.py (cs.flatMap Call.arrivals)).map Prod.snd =
      (validate cfg.py (cs'.flatMap Call.arrivals)).map Prod.snd := by
    generalize validate cfg.py (cs.flatMap Call.arrivals) = xs at hvalid
    generalize validate cfg.py (cs'.flatMap Call.arrivals) = ys at hvalid
    induction hvalid with
    | nil => rfl
    | cons hxy _ ih => rw [List.map_cons, List.map_cons, hxy.2, ih]
  have hmap : ∀ {α : Type} (f : SecurityEvent → α),
      ((validate cfg.py (cs.flatMap Call.arrivals)).map fun av => f av.2) =
        (validate cfg.py (cs'.flatMap Call.arrivals)).map fun av => f av.2 := by
    intro α f
    have h := congrArg (List.map f) hevents
    rwa [List.map_map, List.map_map] at h
  have hids : ids (validate cfg.py (cs.flatMap Call.arrivals)) =
      ids (validate cfg.py (cs'.flatMap Call.arrivals)) := hmap SecurityEvent.eventId
  have hrun := advanced_run (fun _ h => h) hclean hdistinct hunseen hone
  have hrun' := advanced_run (fun _ h => h) hclean' (hids ▸ hdistinct) (hids ▸ hunseen) hone
  obtain ⟨hds, hws⟩ := @detect_same cfg _ _ hvalid s.windows s.windows (UpToTokens.refl _)
    (htokens.sublist (tokens_validate cfg.py _)) (htokens'.sublist (tokens_validate cfg.py _))
  refine ⟨?_, ?_, ?_⟩
  · rw [hrun.rows, hrun'.rows, hmap rowFromEvent]
  · rw [hrun.windows, hrun'.windows]
    exact hws
  · rw [hrun.selected, hrun'.selected, hds]

def failedLogin (draw eventId : String) : Arrival where
  raw := Sighting.authRaw eventId .authFailure "203.0.113.9" 0
  readings := someReadings
  ticks rule := ⟨0, draw ++ eventId ++ rule.ruleId, 0⟩

def failedLogins (pref : ℕ → ℕ) (draw : String) (eventIds : List String) : Call where
  toCircumstances := { atZero none with now := 60 * Datetime.microsPerSecond, pref }
  arrivals := eventIds.map (failedLogin draw)

def strict : Config where
  py := Python.ascii
  engine := { params := { maxFailures := 1 } }

theorem batches_equivalent_two :
    let t := Run.exec (step strict) (init 0) [failedLogins id "x" ["a", "b"]]
    let t' := Run.exec (step strict) (init 0)
      [failedLogins id "y" ["a"], failedLogins id "y" ["b"]]
    t.db.events = t'.db.events ∧ UpToTokens t.windows t'.windows ∧
      t.db.alerts.selected byRule = t'.db.alerts.selected byRule := by
  have hfresh : ∀ draw ∈ ["x", "y"], Fresh
      (([failedLogins id draw ["a", "b"]].flatMap Call.arrivals).flatMap Arrival.tokens) [] := by
    intro draw hdraw
    refine ⟨?_, ?_, fun t _ key set hset => by cases hset⟩
    · revert draw
      decide +kernel
    · revert draw
      decide +kernel
  refine batches_equivalent strict (init 0) [failedLogins id "x" ["a", "b"]]
    [failedLogins id "y" ["a"], failedLogins id "y" ["b"]] ?_ (by decide +kernel)
    (fun id _ hid => absurd hid (Finset.notMem_empty id)) (hfresh "x" (by decide))
    (hfresh "y" (by decide)) (fun _ _ => Nat.zero_le 1)
    ⟨by decide +kernel, trivial⟩ ⟨by decide +kernel, by decide +kernel, trivial⟩
  exact List.Forall₂.cons ⟨rfl, rfl, fun _ => ⟨rfl, rfl⟩⟩
    (List.Forall₂.cons ⟨rfl, rfl, fun _ => ⟨rfl, rfl⟩⟩ List.Forall₂.nil)

def warmed : Pipeline :=
  { init 0 with
    baselines := [("events_per_min", ⟨1 / 2, 1, 20, StatisticalAnomalyDetector.weekInMicros⟩)] }

def contested : Pipeline :=
  let a := Alert.ofDetection 0 (BruteForce.detection Python.ascii { maxFailures := 1 }
    (Sighting.auth "x" .authFailure "203.0.113.9" 0 0).event "203.0.113.9" ⟨1, ["-"], 0, 0⟩ false)
  let alerts := (Alerts.empty.insert? { a with status := .acknowledged }).bind fun t => t.insert? a
  { init 0 with db := { Database.empty with alerts := alerts.getD Alerts.empty } }

/-- Four events in one batch make the minute an anomaly that two batches of two do not make;
and where two alerts of a key are active, a later batch may fold into the other one. -/
theorem batch_cuts_visible :
    let cfg : Config := { py := { Python.ascii with exp := fun _ => 1 } }
    let one := [failedLogins id "x" ["a", "b", "c", "d"]]
    let two := [failedLogins id "x" ["a", "b"], failedLogins id "x" ["c", "d"]]
    let both := [failedLogins (fun _ => 0) "x" ["a", "b"]]
    let each := [failedLogins (fun _ => 0) "x" ["a"], failedLogins (fun _ => 1) "x" ["b"]]
    (one.flatMap Call.arrivals = two.flatMap Call.arrivals ∧
      (ids (validate cfg.py (one.flatMap Call.arrivals))).Nodup ∧
      Run.Guarded (step cfg) (Returns cfg) warmed one ∧
      Run.Guarded (step cfg) (Returns cfg) warmed two ∧
      (Run.exec (step cfg) warmed one).db.alerts.rows.length = 1 ∧
      (Run.exec (step cfg) warmed two).db.alerts.rows.length = 0) ∧
    (both.flatMap Call.arrivals = each.flatMap Call.arrivals ∧
      (ids (validate strict.py (both.flatMap Call.arrivals))).Nodup ∧
      Run.Guarded (step strict) (Returns strict) contested both ∧
      Run.Guarded (step strict) (Returns strict) contested each ∧
      (Run.exec (step strict) contested both).db.alerts.rows.map Alert.eventCount = [3, 1] ∧
      (Run.exec (step strict) contested each).db.alerts.rows.map Alert.eventCount = [2, 2]) := by
  intro cfg one two both each
  refine ⟨⟨rfl, by decide +kernel⟩, rfl, by decide +kernel⟩

end Pipeline

end SiemEngine

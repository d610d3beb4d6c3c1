import SiemEngine.Streaming.Batching

/-!
# Which batches a minute's observation is made of

`_update_metrics` adds a batch to the counters before it compares the clock with the
minute they belong to, and nothing but a batch with fresh events makes it compare. The
record beside the pipeline keeps the batches behind the counters and behind each
observation that the baselines have received.
-/

namespace SiemEngine

namespace Pipeline

variable {cfg : Config} {s s' : Pipeline} {c : Call} {events : List SecurityEvent}

/-- What `_update_metrics` is called with, where a call gets that far. -/
def metricsInput (cfg : Config) (s : Pipeline) (c : Call) :
    Option (Pipeline × List SecurityEvent) :=
  let events := freshOf cfg s c
  if events.isEmpty ∨ c.fault = some .check ∨ c.fault = some (.mark false) ∨
      c.fault = some (.mark true) then none
  else match persist cfg s c events with
    | none => none
    | some db =>
      if c.fault = some .publish then none
      else some ({ detected cfg s events with db }, events.map Prod.snd)

structure SameMetrics (s s' : Pipeline) : Prop where
  bucket : s'.bucket = s.bucket
  counter : s'.counter = s.counter
  baselines : s'.baselines = s.baselines
  history : s'.history = s.history

theorem SameMetrics.refl (s : Pipeline) : SameMetrics s s := ⟨rfl, rfl, rfl, rfl⟩

theorem validate_ne_nil_of_freshOf (h : freshOf cfg s c ≠ []) :
    validate cfg.py c.arrivals ≠ [] := by
  intro hvalid
  rw [freshOf, hvalid] at h
  exact h rfl

theorem metricsInput_eq_some (h : metricsInput cfg s c = some (s', events)) :
    freshOf cfg s c ≠ [] ∧ events = (freshOf cfg s c).map Prod.snd ∧ SameMetrics s s' ∧
      processBatch cfg s c = updateMetrics cfg s' c events := by
  unfold metricsInput at h
  by_cases hearly : (freshOf cfg s c).isEmpty ∨ c.fault = some .check ∨
      c.fault = some (.mark false) ∨ c.fault = some (.mark true)
  · rw [if_pos hearly] at h
    cases h
  rw [if_neg hearly] at h
  obtain ⟨hfresh, hcheck, hmark, hmark'⟩ : ¬ (freshOf cfg s c).isEmpty ∧
      ¬ c.fault = some .check ∧ ¬ c.fault = some (.mark false) ∧ ¬ c.fault = some (.mark true) := by
    simpa only [not_or] using hearly
  split at h
  · cases h
  rename_i db hdb
  split_ifs at h with hpublish
  cases h
  have hne : freshOf cfg s c ≠ [] := fun h => hfresh (List.isEmpty_iff.mpr h)
  have hvalid : ¬ (validate cfg.py c.arrivals).isEmpty := fun h =>
    validate_ne_nil_of_freshOf hne (List.isEmpty_iff.mp h)
  refine ⟨hne, rfl, ⟨rfl, rfl, rfl, rfl⟩, ?_⟩
  simp only [processBatch, if_neg hvalid, if_neg hcheck, if_neg hmark, if_neg hmark']
  rw [← freshOf, if_neg hfresh]
  simp only [processFresh, hdb, if_neg hpublish]

theorem processBatch_of_metricsInput_eq_none (h : metricsInput cfg s c = none) :
    SameMetrics s (processBatch cfg s c).1 ∧ (Returns cfg s c → freshOf cfg s c = []) := by
  by_cases hfresh : freshOf cfg s c = []
  · refine ⟨?_, fun _ => hfresh⟩
    rw [freshOf] at hfresh
    simp only [processBatch, hfresh, List.isEmpty_nil, ↓reduceIte]
    split_ifs <;> exact SameMetrics.refl s
  · have hvalid : ¬ (validate cfg.py c.arrivals).isEmpty := fun h =>
      validate_ne_nil_of_freshOf hfresh (List.isEmpty_iff.mp h)
    have hne : ¬ (freshOf cfg s c).isEmpty := fun h => hfresh (List.isEmpty_iff.mp h)
    suffices hraised : SameMetrics s (processBatch cfg s c).1 ∧ (processBatch cfg s c).2 = true by
      exact ⟨hraised.1, fun h => absurd (hraised.2.symm.trans h) Bool.noConfusion⟩
    simp only [processBatch, if_neg hvalid]
    rw [← freshOf, if_neg hne]
    split_ifs with hcheck hmark hmark'
    · exact ⟨SameMetrics.refl s, rfl⟩
    · exact ⟨SameMetrics.refl s, rfl⟩
    · exact ⟨⟨rfl, rfl, rfl, rfl⟩, rfl⟩
    · have hearly : ¬ ((freshOf cfg s c).isEmpty ∨ c.fault = some .check ∨
          c.fault = some (.mark false) ∨ c.fault = some (.mark true)) := by
        simp only [not_or]
        exact ⟨hne, hcheck, hmark, hmark'⟩
      unfold metricsInput at h
      rw [if_neg hearly] at h
      unfold processFresh
      split
      · exact ⟨⟨rfl, rfl, rfl, rfl⟩, rfl⟩
      · rename_i db hdb
        rw [hdb] at h
        dsimp only at h
        split_ifs at h ⊢
        exact ⟨⟨rfl, rfl, rfl, rfl⟩, rfl⟩

theorem updateMetrics_within (h : minute c.now = s.bucket) (events : List SecurityEvent) :
    updateMetrics cfg s c events =
      ({ s with counter := events.foldl MinuteCounter.count s.counter }, false) := by
  simp only [updateMetrics, if_pos h]

theorem updateMetrics_over (h : minute c.now ≠ s.bucket)
    (hret : (updateMetrics cfg s c events).2 = false) :
    let counter := events.foldl MinuteCounter.count s.counter
    let s' := (updateMetrics cfg s c events).1
    s'.bucket = minute c.now ∧ s'.counter = {} ∧
      s'.baselines = (observeAll cfg c.now s.baselines counter.features).1 := by
  simp only [updateMetrics, if_neg h] at hret ⊢
  split_ifs at hret ⊢ with hraised
  · exact absurd hret (by simp [hraised])
  · exact ⟨rfl, rfl, rfl⟩

end Pipeline

structure Batch where
  clock : Time
  events : List SecurityEvent

structure Observation where
  minute : Time
  clock : Time
  batches : List Batch

/-- The observation is of batches of its minute and of one that closed it, from another. -/
def Observation.Closed (o : Observation) : Prop :=
  ∃ batches last, o.batches = batches ++ [last] ∧
    (∀ b ∈ batches, Pipeline.minute b.clock = o.minute) ∧ Pipeline.minute last.clock ≠ o.minute

structure Rollup where
  pipeline : Pipeline
  counted : List Batch := []
  observed : List Observation := []
  processed : List Batch := []

namespace Rollup

open Pipeline (minute Returns)

variable {cfg : Config} {r : Rollup} {c : Call}

def counterOf (batches : List Batch) : MinuteCounter :=
  (batches.flatMap Batch.events).foldl MinuteCounter.count {}

def feed (cfg : Config) (bs : Baselines) (o : Observation) : Baselines :=
  (Pipeline.observeAll cfg o.clock bs (counterOf o.batches).features).1

def step (cfg : Config) (r : Rollup) (c : Call) : Rollup :=
  let batch : Batch := ⟨c.now, (Pipeline.freshOf cfg r.pipeline c).map Prod.snd⟩
  let pipeline := Pipeline.step cfg r.pipeline c
  if batch.events = [] then { r with pipeline }
  else if minute c.now = r.pipeline.bucket then
    { r with pipeline, counted := r.counted ++ [batch], processed := r.processed ++ [batch] }
  else
    { pipeline
      counted := []
      observed := r.observed ++ [⟨r.pipeline.bucket, c.now, r.counted ++ [batch]⟩]
      processed := r.processed ++ [batch] }

def run (cfg : Config) (start : Time) (cs : List Call) : Rollup :=
  Run.exec (step cfg) { pipeline := Pipeline.init start } cs

/-- The record is that of the counters and of the baselines, and every processed batch is
in it once, most of them under their minute. -/
structure Recorded (cfg : Config) (r : Rollup) : Prop where
  counter : r.pipeline.counter = counterOf r.counted
  counted : ∀ b ∈ r.counted, minute b.clock = r.pipeline.bucket
  baselines : r.pipeline.baselines = r.observed.foldl (feed cfg) []
  observed : ∀ o ∈ r.observed, o.Closed
  processed : r.observed.flatMap Observation.batches ++ r.counted = r.processed

theorem recorded_init (start : Time) : Recorded cfg { pipeline := Pipeline.init start } where
  counter := rfl
  counted _ h := absurd h List.not_mem_nil
  baselines := rfl
  observed _ h := absurd h List.not_mem_nil
  processed := rfl

theorem step_pipeline (r : Rollup) (c : Call) :
    (step cfg r c).pipeline = Pipeline.step cfg r.pipeline c := by
  unfold step
  dsimp only
  split_ifs <;> rfl

theorem counterOf_concat (batches : List Batch) (b : Batch) :
    counterOf (batches ++ [b]) = b.events.foldl MinuteCounter.count (counterOf batches) := by
  rw [counterOf, List.flatMap_append, List.foldl_append, List.flatMap_singleton]
  rfl

theorem recorded_step (h : Recorded cfg r) (hret : Returns cfg r.pipeline c) :
    Recorded cfg (step cfg r c) := by
  cases hinput : Pipeline.metricsInput cfg r.pipeline c with
  | none =>
    obtain ⟨hsame, hfresh⟩ := Pipeline.processBatch_of_metricsInput_eq_none hinput
    have hnil : (Pipeline.freshOf cfg r.pipeline c).map Prod.snd = [] := by
      rw [hfresh hret, List.map_nil]
    simp only [step, if_pos hnil]
    exact ⟨hsame.counter.trans h.counter, fun b hb => (h.counted b hb).trans hsame.bucket.symm,
      hsame.baselines.trans h.baselines, h.observed, h.processed⟩
  | some input =>
    obtain ⟨s', events⟩ := input
    obtain ⟨hfresh, rfl, hsame, hcall⟩ := Pipeline.metricsInput_eq_some hinput
    have hne : (Pipeline.freshOf cfg r.pipeline c).map Prod.snd ≠ [] := by
      rwa [Ne, List.map_eq_nil_iff]
    simp only [step, if_neg hne]
    unfold Pipeline.step
    by_cases hminute : minute c.now = r.pipeline.bucket
    · rw [if_pos hminute, hcall, Pipeline.updateMetrics_within (hminute.trans hsame.bucket.symm)]
      refine ⟨?_, fun b hb => ?_, hsame.baselines.trans h.baselines, h.observed, ?_⟩
      · rw [counterOf_concat, ← h.counter, ← hsame.counter]
      · refine Eq.trans ?_ hsame.bucket.symm
        rcases List.mem_append.mp hb with hold | hnew
        · exact h.counted b hold
        · exact List.mem_singleton.mp hnew ▸ hminute
      · rw [← h.processed, List.append_assoc]
    · have hover : minute c.now ≠ s'.bucket := fun heq => hminute (heq.trans hsame.bucket)
      rw [Returns, hcall] at hret
      obtain ⟨-, hcounter, hbaselines⟩ := Pipeline.updateMetrics_over hover hret
      rw [if_neg hminute, hcall]
      refine ⟨hcounter, fun b hb => absurd hb List.not_mem_nil, ?_, fun o ho => ?_, ?_⟩
      · rw [hbaselines, List.foldl_append, List.foldl_cons, List.foldl_nil, ← h.baselines, feed,
          counterOf_concat, ← h.counter, hsame.counter, hsame.baselines]
      · rcases List.mem_append.mp ho with hold | hnew
        · exact h.observed o hold
        · rw [List.mem_singleton.mp hnew]
          exact ⟨r.counted, _, rfl, h.counted, hminute⟩
      · rw [← h.processed, List.flatMap_append, List.flatMap_singleton, List.append_nil,
          List.append_assoc]

/-- The minute's baselines have received one observation, made of exactly the batches that
were processed during the minute. -/
def Exact (r : Rollup) (m : Time) : Prop :=
  ∃ o, r.observed.filter (fun o => o.minute = m) = [o] ∧
    o.batches = r.processed.filter fun b => minute b.clock = m

def Complete (start : Time) (cs : List Call) (m : Time) : Prop :=
  minute m = m ∧ start ≤ m ∧ ∃ c ∈ cs.getLast?, m + 60 * Datetime.microsPerSecond ≤ c.now

theorem Recorded.not_exact (h : Recorded cfg r) (m : Time) : ¬ r.Exact m := by
  intro hexact
  obtain ⟨o, hone, hbatches⟩ := hexact
  have ho : o ∈ r.observed ∧ o.minute = m := by
    have hmem : o ∈ r.observed.filter fun o => o.minute = m := by
      rw [hone]
      exact List.mem_singleton_self o
    simpa only [List.mem_filter, decide_eq_true_eq] using hmem
  obtain ⟨batches, last, hsplit, -, hlast⟩ := h.observed o ho.1
  have hmem : last ∈ o.batches := by
    rw [hsplit]
    exact List.mem_append_right _ (List.mem_singleton_self last)
  rw [hbatches, List.mem_filter, decide_eq_true_eq] at hmem
  exact hlast (hmem.2.trans ho.2.symm)

theorem recorded_run (start : Time) {cs : List Call}
    (hclean : Run.Guarded (Pipeline.step cfg) (Returns cfg) (Pipeline.init start) cs) :
    Recorded cfg (run cfg start cs) := by
  have hguarded : Run.Guarded (step cfg) (fun r c => Returns cfg r.pipeline c)
      { pipeline := Pipeline.init start } cs := (Run.guarded_map_iff step_pipeline _ cs).mpr hclean
  exact (Run.holds_of_guarded (I := Recorded cfg) (fun _ _ h hret => recorded_step h hret)
    (recorded_init start) hguarded).last

/-- Along every run without failures the baselines receive one observation for each flush,
and every processed batch is counted once. But each observation has the batch that closed
it from a later minute: attribution is exact only where no minute is complete. -/
theorem attribution_exact_iff (cfg : Config) (start : Time) (cs : List Call)
    (hclean : Run.Guarded (Pipeline.step cfg) (Returns cfg) (Pipeline.init start) cs) :
    (run cfg start cs).pipeline =
        Run.exec (Pipeline.step cfg) (Pipeline.init start) cs ∧
      Recorded cfg (run cfg start cs) ∧
      ((∀ m, Complete start cs m → (run cfg start cs).Exact m) ↔ ∀ m, ¬ Complete start cs m) := by
  have hrecorded := recorded_run start hclean
  refine ⟨Run.exec_map step_pipeline _ cs, hrecorded, ?_⟩
  exact ⟨fun h m hm => hrecorded.not_exact m (h m hm), fun h m hm => absurd hm (h m)⟩

def plain : Config where
  py := Python.ascii

def loginsAt (second : ℕ) (eventIds : List String) : Call :=
  { Pipeline.failedLogins id "x" eventIds with now := second * Datetime.microsPerSecond }

theorem attribution_exact_iff_early :
    Recorded plain (run plain 0 [loginsAt 30 ["a"]]) ∧
      ∀ m, Complete 0 [loginsAt 30 ["a"]] m → (run plain 0 [loginsAt 30 ["a"]]).Exact m := by
  obtain ⟨-, hrecorded, hiff⟩ :=
    attribution_exact_iff plain 0 [loginsAt 30 ["a"]] ⟨by decide +kernel, trivial⟩
  refine ⟨hrecorded, hiff.mpr fun m hm => ?_⟩
  obtain ⟨-, hstart, c, hc, hlast⟩ := hm
  cases hc
  have hlate : m + 60000000 ≤ 0 + 30000000 := hlast
  exact absurd hlate (not_le.mpr (add_lt_add_of_le_of_lt hstart (by decide)))

/-- The first minute gets the batch of the second one, and the minute after that none. -/
theorem minutes_misattributed :
    let cs := [loginsAt 10 ["a"], loginsAt 60 ["b"], loginsAt 240 ["c"]]
    let second := Datetime.microsPerSecond
    Run.Guarded (Pipeline.step plain) (Returns plain) (Pipeline.init 0) cs ∧
      (run plain 0 cs).observed.map (fun o => (o.minute, o.batches.map Batch.clock)) =
        [(0, [10 * second, 60 * second]), (60 * second, [240 * second])] ∧
      ¬ ∀ m, Complete 0 cs m → (run plain 0 cs).Exact m := by
  intro cs second
  have hclean : Run.Guarded (Pipeline.step plain) (Returns plain) (Pipeline.init 0) cs :=
    ⟨by decide +kernel, by decide +kernel, by decide +kernel, trivial⟩
  refine ⟨hclean, by decide +kernel, fun h => ?_⟩
  have hcomplete : Complete 0 cs 0 := ⟨by decide, le_rfl, loginsAt 240 ["c"], rfl, by decide⟩
  exact (recorded_run 0 hclean).not_exact 0 (h 0 hcomplete)

end Rollup

end SiemEngine

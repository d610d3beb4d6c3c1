import SiemEngine.Streaming.Rollup

/-!
# Flushing a minute when Redis or the database fail

`_flush_minute` issues its Redis commands and its transactions one after another, and the
minute and its counters are reset only after it has returned. Where one of them raises,
the next batch is counted into the same counters and flushes them again. The trace keeps
what was counted, when a flush was begun and what the baselines have received of it; the
minutes are numbered by the flushes that returned.
-/

namespace SiemEngine

/-- Where a Redis command of the flush raises: one that publishes the last minute, the GET
of a metric, or its SET, before or after it was applied. -/
inductive RedisFault
  | hset
  | expire
  | get (metric : Fin 6)
  | set (metric : Fin 6) (applied : Bool)

def RedisFault.observed : RedisFault → ℕ
  | .hset | .expire => 0
  | .get i => i
  | .set i applied => if applied then i + 1 else i

/-- A call with a Redis failure of its flush, if it comes to one; what fails of the alerts
of the flush is the `rollover` fault of the call. -/
structure Attempt extends Call where
  redis : Option RedisFault := none

def Attempt.observed (a : Attempt) : ℕ := (a.redis.map RedisFault.observed).getD 6

namespace Flush

open Pipeline (minute observeAll flushMinute updateMetrics metricsInput processBatch)

variable {cfg : Config} {s : Pipeline} {a : Attempt}

def flushMinuteAt (cfg : Config) (s : Pipeline) (a : Attempt) : Pipeline × Bool :=
  match a.redis with
  | none => flushMinute cfg s a.toCall
  | some fault =>
    let observed := s.counter.features.take fault.observed
    ({ s with baselines := (observeAll cfg a.now s.baselines observed).1 }, true)

def updateMetricsAt (cfg : Config) (s : Pipeline) (a : Attempt) (events : List SecurityEvent) :
    Pipeline × Bool :=
  let counted := { s with counter := events.foldl MinuteCounter.count s.counter }
  if minute a.now = counted.bucket then (counted, false)
  else
    let out := flushMinuteAt cfg counted a
    if out.2 then out
    else ({ out.1 with bucket := minute a.now, counter := {} }, false)

def processBatchAt (cfg : Config) (s : Pipeline) (a : Attempt) : Pipeline × Bool :=
  match metricsInput cfg s a.toCall with
  | none => processBatch cfg s a.toCall
  | some (s', events) => updateMetricsAt cfg s' a events

/-- Without a Redis failure in the flush this is the call. -/
theorem processBatchAt_of_none (h : a.redis = none) :
    processBatchAt cfg s a = processBatch cfg s a.toCall := by
  unfold processBatchAt
  cases hinput : metricsInput cfg s a.toCall with
  | none => rfl
  | some input =>
    rw [(Pipeline.metricsInput_eq_some hinput).2.2.2]
    simp only [updateMetricsAt, flushMinuteAt, h, updateMetrics]

theorem length_features (c : MinuteCounter) : c.features.length = 6 := rfl

theorem flushMinuteAt_fst (s : Pipeline) (a : Attempt) :
    (flushMinuteAt cfg s a).1.counter = s.counter ∧ (flushMinuteAt cfg s a).1.baselines =
      (observeAll cfg a.now s.baselines (s.counter.features.take a.observed)).1 := by
  unfold flushMinuteAt Attempt.observed
  cases a.redis with
  | none =>
    refine ⟨rfl, ?_⟩
    rw [Option.map_none, Option.getD_none, ← length_features s.counter, List.take_length]
    rfl
  | some fault => exact ⟨rfl, rfl⟩

theorem updateMetricsAt_within (h : minute a.now = s.bucket) (events : List SecurityEvent) :
    updateMetricsAt cfg s a events =
      ({ s with counter := events.foldl MinuteCounter.count s.counter }, false) := by
  simp only [updateMetricsAt, if_pos h]

theorem updateMetricsAt_over (h : minute a.now ≠ s.bucket) (events : List SecurityEvent) :
    let counter := events.foldl MinuteCounter.count s.counter
    let out := updateMetricsAt cfg s a events
    out.1.counter = (if out.2 then counter else {}) ∧ out.1.baselines =
      (observeAll cfg a.now s.baselines (counter.features.take a.observed)).1 := by
  obtain ⟨hcounter, hbaselines⟩ := @flushMinuteAt_fst cfg
    { s with counter := events.foldl MinuteCounter.count s.counter } a
  simp only [updateMetricsAt, if_neg h]
  by_cases hraised : (flushMinuteAt cfg
      { s with counter := events.foldl MinuteCounter.count s.counter } a).2
  · simp only [if_pos hraised]
    exact ⟨hcounter, hbaselines⟩
  · simp only [if_neg hraised]
    exact ⟨rfl, hbaselines⟩

inductive Entry
  | counted (period : ℕ) (batch : Batch)
  | attempted (period : ℕ)
  | observed (period : ℕ) (clock : Time) (metric : String) (value : ℚ)

namespace Entry

def period : Entry → ℕ
  | .counted p _ | .attempted p | .observed p _ _ _ => p

def batch? (p : ℕ) : Entry → Option Batch
  | .counted q b => if q = p then some b else none
  | .attempted _ | .observed _ _ _ _ => none

theorem batch?_counted_self (p : ℕ) (b : Batch) : batch? p (.counted p b) = some b := if_pos rfl

def observation? : Entry → Option (ℕ × String)
  | .observed p _ metric _ => some (p, metric)
  | .counted _ _ | .attempted _ => none

def feed (cfg : Config) (bs : Baselines) : Entry → Baselines
  | .observed _ clock metric value => (cfg.anomaly.observe cfg.py clock bs metric value).1
  | .counted _ _ | .attempted _ => bs

end Entry

structure Traced where
  pipeline : Pipeline
  period : ℕ := 0
  trace : List Entry := []

def flushEntries (p : ℕ) (a : Attempt) (counter : MinuteCounter) : List Entry :=
  .attempted p :: (counter.features.take a.observed).map fun f => .observed p a.now f.1 f.2

def step (cfg : Config) (t : Traced) (a : Attempt) : Traced :=
  let out := processBatchAt cfg t.pipeline a
  match metricsInput cfg t.pipeline a.toCall with
  | none => { t with pipeline := out.1 }
  | some (s', events) =>
    let counted := t.trace ++ [.counted t.period ⟨a.now, events⟩]
    if minute a.now = s'.bucket then { t with pipeline := out.1, trace := counted }
    else
      { pipeline := out.1
        period := if out.2 then t.period else t.period + 1
        trace := counted ++
          flushEntries t.period a (events.foldl MinuteCounter.count s'.counter) }

def run (cfg : Config) (start : Time) (as : List Attempt) : Traced :=
  Run.exec (step cfg) { pipeline := Pipeline.init start } as

structure Recorded (cfg : Config) (t : Traced) : Prop where
  counter : t.pipeline.counter = Rollup.counterOf (t.trace.filterMap (Entry.batch? t.period))
  baselines : t.pipeline.baselines = t.trace.foldl (Entry.feed cfg) []
  period : ∀ e ∈ t.trace, e.period ≤ t.period
  attempted : ∀ x ∈ t.trace.filterMap Entry.observation?, Entry.attempted x.1 ∈ t.trace

theorem recorded_init (start : Time) : Recorded cfg { pipeline := Pipeline.init start } where
  counter := rfl
  baselines := rfl
  period _ h := absurd h List.not_mem_nil
  attempted _ h := absurd h List.not_mem_nil

def OnceOnly (trace : List Entry) : Prop := (trace.filterMap Entry.observation?).Nodup

def Unmixed (trace : List Entry) : Prop :=
  trace.Pairwise fun e e' => ∀ p b, e = .attempted p → e' ≠ .counted p b

theorem observeAll_fst (clock : Time) (bs : Baselines) (features : List (String × ℚ)) :
    (observeAll cfg clock bs features).1 =
      features.foldl (fun bs f => (cfg.anomaly.observe cfg.py clock bs f.1 f.2).1) bs := by
  have hfold : ∀ (features : List (String × ℚ)) (acc : Baselines × List AnomalyResult),
      (features.foldl (fun acc f =>
        let out := cfg.anomaly.observe cfg.py clock acc.1 f.1 f.2
        (out.1, acc.2 ++ out.2.toList)) acc).1 =
      features.foldl (fun bs f => (cfg.anomaly.observe cfg.py clock bs f.1 f.2).1) acc.1 := by
    intro features
    induction features with
    | nil => exact fun _ => rfl
    | cons f features ih => exact fun acc => ih _
  exact hfold features (bs, [])

theorem foldl_feed_flushEntries (p : ℕ) (counter : MinuteCounter) (bs : Baselines) :
    (flushEntries p a counter).foldl (Entry.feed cfg) bs =
      (observeAll cfg a.now bs (counter.features.take a.observed)).1 := by
  rw [flushEntries, List.foldl_cons, List.foldl_map, observeAll_fst]
  rfl

theorem filterMap_batch?_flushEntries (q p : ℕ) (counter : MinuteCounter) :
    (flushEntries p a counter).filterMap (Entry.batch? q) = [] := by
  rw [List.filterMap_eq_nil_iff]
  intro e he
  rcases List.mem_cons.mp he with rfl | he
  · rfl
  · obtain ⟨f, -, rfl⟩ := List.mem_map.mp he
    rfl

theorem filterMap_observation?_flushEntries (p : ℕ) (counter : MinuteCounter) :
    (flushEntries p a counter).filterMap Entry.observation? =
      (counter.features.take a.observed).map fun f => (p, f.1) := by
  rw [flushEntries, List.filterMap_cons_none rfl, List.filterMap_map]
  exact congrFun (List.filterMap_eq_map (f := fun f : String × ℚ => (p, f.1))) _

theorem period_flushEntries {p : ℕ} {counter : MinuteCounter} {e : Entry}
    (he : e ∈ flushEntries p a counter) : e.period = p := by
  rcases List.mem_cons.mp he with rfl | he
  · rfl
  · obtain ⟨f, -, rfl⟩ := List.mem_map.mp he
    rfl

theorem filterMap_batch?_of_lt {p : ℕ} {trace : List Entry} (h : ∀ e ∈ trace, e.period < p) :
    trace.filterMap (Entry.batch? p) = [] := by
  rw [List.filterMap_eq_nil_iff]
  intro e he
  cases e with
  | counted q b => exact if_neg (h _ he).ne
  | attempted q => rfl
  | observed q clock metric value => rfl

theorem step_cases (cfg : Config) (t : Traced) (a : Attempt) :
    (metricsInput cfg t.pipeline a.toCall = none ∧ ∃ s, Pipeline.SameMetrics t.pipeline s ∧
      step cfg t a = { t with pipeline := s }) ∨
    ∃ (b : Batch) (out : Pipeline × Bool), (metricsInput cfg t.pipeline a.toCall).isSome ∧
      let counter := b.events.foldl MinuteCounter.count t.pipeline.counter
      (out.1.counter = counter ∧ out.1.baselines = t.pipeline.baselines ∧
        step cfg t a =
          { t with pipeline := out.1, trace := t.trace ++ [.counted t.period b] }) ∨
      (out.1.counter = (if out.2 then counter else {}) ∧
        out.1.baselines = (observeAll cfg a.now t.pipeline.baselines
          (counter.features.take a.observed)).1 ∧
        step cfg t a =
          { pipeline := out.1
            period := if out.2 then t.period else t.period + 1
            trace := t.trace ++ [.counted t.period b] ++ flushEntries t.period a counter }) := by
  unfold step processBatchAt
  cases hinput : metricsInput cfg t.pipeline a.toCall with
  | none =>
    exact Or.inl ⟨rfl, _, (Pipeline.processBatch_of_metricsInput_eq_none hinput).1, rfl⟩
  | some input =>
    obtain ⟨s', events⟩ := input
    obtain ⟨-, -, hsame, -⟩ := Pipeline.metricsInput_eq_some hinput
    refine Or.inr ⟨⟨a.now, events⟩, updateMetricsAt cfg s' a events, rfl, ?_⟩
    dsimp only
    rw [← hsame.counter, ← hsame.baselines]
    by_cases hminute : minute a.now = s'.bucket
    · left
      rw [if_pos hminute, updateMetricsAt_within hminute]
      exact ⟨rfl, rfl, rfl⟩
    · right
      obtain ⟨hcounter, hbaselines⟩ := @updateMetricsAt_over cfg _ _ hminute events
      rw [if_neg hminute]
      exact ⟨hcounter, hbaselines, rfl⟩

theorem Recorded.counted {t : Traced} (h : Recorded cfg t) (b : Batch) {s : Pipeline}
    (hcounter : s.counter = b.events.foldl MinuteCounter.count t.pipeline.counter)
    (hbaselines : s.baselines = t.pipeline.baselines) :
    Recorded cfg { t with pipeline := s, trace := t.trace ++ [.counted t.period b] } where
  counter := by
    rw [List.filterMap_append, List.filterMap_cons_some (Entry.batch?_counted_self _ b),
      List.filterMap_nil, Rollup.counterOf_concat, ← h.counter]
    exact hcounter
  baselines := by
    rw [List.foldl_append, ← h.baselines]
    exact hbaselines
  period e he := by
    rcases List.mem_append.mp he with hold | hnew
    · exact h.period e hold
    · rw [List.mem_singleton.mp hnew]
      exact le_rfl
  attempted x hx := by
    rw [List.filterMap_append, List.filterMap_cons_none rfl, List.filterMap_nil,
      List.append_nil] at hx
    exact List.mem_append_left _ (h.attempted x hx)

/-- A flush that raises leaves the counters for the next attempt of the same period. -/
theorem Recorded.flushed {t : Traced} (h : Recorded cfg t) (a : Attempt) {s : Pipeline}
    (raised : Bool) (hcounter : s.counter = if raised then t.pipeline.counter else {})
    (hbaselines : s.baselines = (observeAll cfg a.now t.pipeline.baselines
      (t.pipeline.counter.features.take a.observed)).1) :
    Recorded cfg
      { pipeline := s
        period := if raised then t.period else t.period + 1
        trace := t.trace ++ flushEntries t.period a t.pipeline.counter } where
  counter := by
    dsimp only
    rw [hcounter, List.filterMap_append, filterMap_batch?_flushEntries, List.append_nil]
    split_ifs
    · exact h.counter
    · rw [filterMap_batch?_of_lt fun e he => Nat.lt_succ_of_le (h.period e he)]
      rfl
  baselines := by
    rw [List.foldl_append, ← h.baselines, foldl_feed_flushEntries]
    exact hbaselines
  period e he := by
    have hle : e.period ≤ t.period := by
      rcases List.mem_append.mp he with hold | hnew
      · exact h.period e hold
      · exact (period_flushEntries hnew).le
    refine hle.trans ?_
    dsimp only
    split_ifs
    · exact le_rfl
    · exact Nat.le_succ _
  attempted x hx := by
    rw [List.filterMap_append, filterMap_observation?_flushEntries] at hx
    rcases List.mem_append.mp hx with hold | hnew
    · exact List.mem_append_left _ (h.attempted x hold)
    · obtain ⟨f, -, rfl⟩ := List.mem_map.mp hnew
      exact List.mem_append_right _ List.mem_cons_self

theorem recorded_step (t : Traced) (a : Attempt) (h : Recorded cfg t) :
    Recorded cfg (step cfg t a) := by
  rcases step_cases cfg t a with ⟨-, s, hsame, hstep⟩ | ⟨b, out, -, hcase⟩
  · rw [hstep]
    exact ⟨hsame.counter.trans h.counter, hsame.baselines.trans h.baselines, h.period, h.attempted⟩
  rcases hcase with ⟨hcounter, hbaselines, hstep⟩ | ⟨hcounter, hbaselines, hstep⟩
  · rw [hstep]
    exact h.counted b hcounter hbaselines
  · have hcounted := @Recorded.counted cfg t h b
      { t.pipeline with counter := b.events.foldl MinuteCounter.count t.pipeline.counter } rfl rfl
    rw [hstep]
    exact hcounted.flushed a out.2 hcounter hbaselines

/-- A batch with fresh events reaches `_update_metrics` only while the counters have not
yet been through a flush that raised. -/
def Untried (cfg : Config) (t : Traced) (a : Attempt) : Prop :=
  (metricsInput cfg t.pipeline a.toCall).isSome → Entry.attempted t.period ∉ t.trace

theorem unmixed_append_counted {trace : List Entry} {p : ℕ} {b : Batch} :
    Unmixed (trace ++ [.counted p b]) ↔ Unmixed trace ∧ .attempted p ∉ trace := by
  rw [Unmixed, List.pairwise_append]
  constructor
  · intro h
    obtain ⟨htrace, -, hcross⟩ := h
    exact ⟨htrace, fun hp => hcross _ hp _ (List.mem_singleton_self _) p b rfl rfl⟩
  · intro h
    obtain ⟨htrace, hp⟩ := h
    refine ⟨htrace, List.pairwise_singleton _ _, fun e he e' he' q b' hq heq => ?_⟩
    rw [List.mem_singleton.mp he'] at heq
    cases heq
    exact hp (hq ▸ he)

theorem unmixed_append_flushEntries {trace : List Entry} {p : ℕ} {counter : MinuteCounter} :
    Unmixed (trace ++ flushEntries p a counter) ↔ Unmixed trace := by
  have hnot : ∀ e ∈ flushEntries p a counter, ∀ q b, e ≠ .counted q b := by
    intro e he q b heq
    have hbatch := List.filterMap_eq_nil_iff.mp
      (filterMap_batch?_flushEntries (a := a) q p counter) e he
    rw [heq] at hbatch
    exact Option.some_ne_none b ((Entry.batch?_counted_self q b).symm.trans hbatch)
  rw [Unmixed, List.pairwise_append]
  refine ⟨fun h => h.1, fun h => ⟨h, ?_, fun e _ e' he' q b _ => hnot e' he' q b⟩⟩
  exact List.pairwise_of_forall_mem_list fun e _ e' he' q b _ => hnot e' he' q b

theorem nodup_features (c : MinuteCounter) : (c.features.map Prod.fst).Nodup := by
  change ["events_per_min", "auth_failures_per_min", "unique_source_ips", "outbound_mib_per_min",
    "db_errors_per_min", "firewall_denies_per_min"].Nodup
  decide

theorem onceOnly_append_flushEntries {trace : List Entry} {p : ℕ} {counter : MinuteCounter}
    (h : ∀ x ∈ trace.filterMap Entry.observation?, x.1 ≠ p) (htrace : OnceOnly trace) :
    OnceOnly (trace ++ flushEntries p a counter) := by
  rw [OnceOnly, List.filterMap_append, filterMap_observation?_flushEntries]
  refine List.Nodup.append htrace ?_ ?_
  · have hnames : ((counter.features.take a.observed).map Prod.fst).Nodup :=
      ((List.take_sublist _ _).map Prod.fst).nodup (nodup_features counter)
    have hpairs := hnames.map (Prod.mk_right_injective p)
    rwa [List.map_map] at hpairs
  · intro x hx hnew
    obtain ⟨f, -, rfl⟩ := List.mem_map.mp hnew
    exact h _ hx rfl

def ExactlyOnce (t : Traced) : Prop := OnceOnly t.trace ∧ Unmixed t.trace

theorem exactlyOnce_step_iff (t : Traced) (a : Attempt) (h : Recorded cfg t) :
    ExactlyOnce (step cfg t a) ↔ ExactlyOnce t ∧ Untried cfg t a := by
  rcases step_cases cfg t a with ⟨hnone, s, -, hstep⟩ | ⟨b, out, hsome, hcase⟩
  · have hun : Untried cfg t a := fun hsome => by
      rw [hnone] at hsome
      cases hsome
    rw [hstep, and_iff_left hun]
    exact Iff.rfl
  have hun : Untried cfg t a ↔ Entry.attempted t.period ∉ t.trace :=
    ⟨fun hu => hu hsome, fun hp _ => hp⟩
  have hobserved : OnceOnly (t.trace ++ [.counted t.period b]) ↔ OnceOnly t.trace := by
    rw [OnceOnly, List.filterMap_append, List.filterMap_cons_none rfl, List.filterMap_nil,
      List.append_nil]
    exact Iff.rfl
  rw [hun]
  rcases hcase with ⟨-, -, hstep⟩ | ⟨-, -, hstep⟩
  · rw [hstep, ExactlyOnce, hobserved, unmixed_append_counted, ← and_assoc]
    exact Iff.rfl
  · rw [hstep, ExactlyOnce, unmixed_append_flushEntries, unmixed_append_counted]
    constructor
    · intro hall
      obtain ⟨honce, hmixed, hp⟩ := hall
      refine ⟨⟨?_, hmixed⟩, hp⟩
      rw [OnceOnly, List.filterMap_append] at honce
      exact hobserved.mp (List.Nodup.of_append_left honce)
    · intro hall
      obtain ⟨⟨honce, hmixed⟩, hp⟩ := hall
      refine ⟨onceOnly_append_flushEntries (fun x hx heq => hp ?_) (hobserved.mpr honce),
        hmixed, hp⟩
      -- what was observed of a minute was observed in an attempt to flush it
      rw [List.filterMap_append, List.filterMap_cons_none rfl, List.filterMap_nil,
        List.append_nil] at hx
      exact heq ▸ h.attempted x hx

/-- Whatever fails, the trace is that of the counters and baselines; and each minute is
observed at most once and not mixed with later events exactly when no batch with fresh
events reaches `_update_metrics` after a flush of the counters has raised. -/
theorem exactlyOnce_iff (cfg : Config) (start : Time) (as : List Attempt) :
    Recorded cfg (run cfg start as) ∧
      (ExactlyOnce (run cfg start as) ↔
        Run.Guarded (step cfg) (Untried cfg) { pipeline := Pipeline.init start } as) := by
  have hinit : ExactlyOnce { pipeline := Pipeline.init start } :=
    ⟨List.nodup_nil, List.Pairwise.nil⟩
  refine ⟨(Run.holds_of_step recorded_step (recorded_init start) as).last, ?_⟩
  exact (Run.last_iff_guarded recorded_step exactlyOnce_step_iff (recorded_init start) as).trans
    (and_iff_right hinit)

/-- The SET of the second metric raises; the next batch flushes the same minute again. -/
theorem minute_observed_twice :
    let as : List Attempt :=
      [⟨Rollup.loginsAt 60 ["a"], some (.set 1 false)⟩, ⟨Rollup.loginsAt 61 ["b"], none⟩]
    (run Rollup.plain 0 as).trace.filterMap Entry.observation? =
        [(0, "events_per_min"), (0, "events_per_min"), (0, "auth_failures_per_min"),
          (0, "unique_source_ips"), (0, "outbound_mib_per_min"), (0, "db_errors_per_min"),
          (0, "firewall_denies_per_min")] ∧
      ((run Rollup.plain 0 as).trace.filterMap (Entry.batch? 0)).map Batch.clock =
        [60 * Datetime.microsPerSecond, 61 * Datetime.microsPerSecond] ∧
      ¬ ExactlyOnce (run Rollup.plain 0 as) := by
  intro as
  have htwice : (run Rollup.plain 0 as).trace.filterMap Entry.observation? =
      [(0, "events_per_min"), (0, "events_per_min"), (0, "auth_failures_per_min"),
        (0, "unique_source_ips"), (0, "outbound_mib_per_min"), (0, "db_errors_per_min"),
        (0, "firewall_denies_per_min")] := by
    decide +kernel
  refine ⟨htwice, by decide +kernel, fun h => ?_⟩
  have honce := h.1
  rw [OnceOnly, htwice] at honce
  exact absurd honce (by decide)

end Flush

end SiemEngine

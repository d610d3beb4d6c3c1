import SiemEngine.Lib.Rolling
import SiemEngine.Streaming.Accounting

/-!
# The five-second measurement window

`process_batch` counts into `_w`; after a batch that went through, `_update_metrics` turns a
window of five seconds or more into one payload, writes it to the rolling hash, publishes it,
pushes it on the history list and only then resets the window. Each of the four Redis commands
can fail before or after it was carried out. Every payload pushed, and the totals of the run,
are recorded for the statements.
-/

namespace SiemEngine

/-- `_w` and the two sums of seconds. -/
structure Window where
  ingested : ℕ := 0
  invalid : ℕ := 0
  duplicate : ℕ := 0
  persisted : ℕ := 0
  batches : ℕ := 0
  alertsCreated : ℕ := 0
  alertsCorrelated : ℕ := 0
  batchSecs : ℚ := 0
  detectSecs : ℚ := 0

structure Payload where
  eventsPerSecond : ℚ
  eventsProcessedPerSecond : ℚ
  pipelineLatencyMs : ℚ
  detectionLatencyMs : ℚ
  alertsPerMinute : ℚ
  invalidEventsWindow : ℕ
  duplicateEventsWindow : ℕ
  batchesWindow : ℕ
  pipelineHealthPct : ℚ
  windowSeconds : ℚ
  updatedAt : ℚ

namespace Window

open Binary64

def rejectRate (w : Window) : ℚ := div w.invalid (max w.ingested 1 : ℕ)

def health (w : Window) : ℚ := roundTo 2 (mul (max 0 (sub 1 w.rejectRate)) 100)

def payload (w : Window) (elapsed time : ℚ) : Payload where
  eventsPerSecond := roundTo 2 (div w.ingested elapsed)
  eventsProcessedPerSecond := roundTo 2 (div w.persisted elapsed)
  pipelineLatencyMs := roundTo 3 (mul (div w.batchSecs (max w.persisted 1 : ℕ)) 1000)
  detectionLatencyMs := roundTo 3 (mul (div w.detectSecs (max w.persisted 1 : ℕ)) 1000)
  alertsPerMinute := roundTo 2 (mul (div w.alertsCreated elapsed) 60)
  invalidEventsWindow := w.invalid
  duplicateEventsWindow := w.duplicate
  batchesWindow := max w.batches 1
  pipelineHealthPct := w.health
  windowSeconds := roundTo 1 elapsed
  updatedAt := time

def counted (w : Window) (counts : Pipeline.Counts) (alertsCreated alertsCorrelated : ℕ)
    (detect : ℚ) : Window :=
  { w with
    ingested := w.ingested + counts.ingested
    invalid := w.invalid + counts.invalid
    duplicate := w.duplicate + counts.duplicate
    persisted := w.persisted + counts.persisted
    alertsCreated := w.alertsCreated + alertsCreated
    alertsCorrelated := w.alertsCorrelated + alertsCorrelated
    detectSecs := add w.detectSecs detect }

def finished (w : Window) (batch : ℚ) : Window :=
  { w with batches := w.batches + 1, batchSecs := add w.batchSecs batch }

end Window

/-- The four commands that publish a window. -/
inductive WindowCommand
  | hset | expire | publish | history
  deriving DecidableEq

def WindowCommand.index : WindowCommand → ℕ
  | .hset => 0
  | .expire => 1
  | .publish => 2
  | .history => 3

/-- What a call reads and how its window commands end: the one that raises, if any, and
whether Redis had carried it out. -/
structure Reading where
  alertsCreated : ℕ
  alertsCorrelated : ℕ
  detectSecs : ℚ
  batchSecs : ℚ
  monotonic : ℚ
  restarted : ℚ
  time : ℚ
  clock : ℤ
  fault : Option (WindowCommand × Bool)

def Reading.carriedOut (r : Reading) (command : WindowCommand) : Prop :=
  ∀ f ∈ r.fault, command.index < f.1.index ∨ f = (command, true)

instance (r : Reading) (command : WindowCommand) : Decidable (r.carriedOut command) :=
  inferInstanceAs (Decidable (∀ f ∈ r.fault, _))

structure RollingHash where
  payload : Payload
  expiresAt : Option ℤ

structure Metrics where
  pipeline : Pipeline
  window : Window := {}
  windowStarted : ℚ := 0
  rolling : Option RollingHash := none
  history : List Payload := []
  historyExpiresAt : ℤ := 0
  published : List Payload := []
  /-- what was pushed, and when, oldest first -/
  logged : List (ℤ × Payload) := []
  rejected : ℕ := 0
  duplicates : ℕ := 0

namespace Metrics

def historyTtl : ℤ := 1800 * Datetime.microsPerSecond

def historyBound : ℕ := 241

def rollingTtl : ℤ := 300 * Datetime.microsPerSecond

def setRolling (s : Metrics) (r : Reading) (p : Payload) : Metrics :=
  let kept := match s.rolling with
    | some hash => if hash.expiresAt.all fun e => r.clock ≤ e then hash.expiresAt else none
    | none => none
  { s with rolling := some ⟨p, kept⟩ }

def expireRolling (s : Metrics) (r : Reading) : Metrics :=
  { s with
    rolling := s.rolling.map fun hash => { hash with expiresAt := some (r.clock + rollingTtl) } }

/-- `LRANGE`: an expired list is gone. -/
def liveHistory (s : Metrics) (clock : ℤ) : List Payload :=
  if s.historyExpiresAt < clock then [] else s.history

def pushHistory (s : Metrics) (r : Reading) (p : Payload) : Metrics :=
  { s with
    history := (p :: s.liveHistory r.clock).take historyBound
    historyExpiresAt := r.clock + historyTtl
    logged := s.logged ++ [(r.clock, p)] }

def announce (s : Metrics) (r : Reading) (p : Payload) : Metrics :=
  let s := if r.carriedOut .hset then s.setRolling r p else s
  let s := if r.carriedOut .expire then s.expireRolling r else s
  if r.carriedOut .publish then { s with published := s.published ++ [p] } else s

def elapsed (s : Metrics) (r : Reading) : ℚ := Binary64.sub r.monotonic s.windowStarted

/-- The window part of `_update_metrics`; whether it raised. -/
def measure (s : Metrics) (r : Reading) : Metrics × Bool :=
  if s.elapsed r < 5 then (s, false)
  else
    let p := s.window.payload (s.elapsed r) r.time
    let s := s.announce r p
    let s := if r.carriedOut .history then s.pushHistory r p else s
    if r.fault.isSome then (s, true)
    else ({ s with window := {}, windowStarted := r.restarted }, false)

def measures (cfg : Config) (s : Pipeline) (c : Call) : Bool :=
  (Pipeline.commit? cfg s c).isSome && c.fault ≠ some .publish

/-- The pipeline after a call that raises in its window: the batch is stored and counted into
the minute, and there is no rollover. -/
def interrupted (cfg : Config) (s : Pipeline) (c : Call) : Pipeline :=
  let events := Pipeline.freshOf cfg s c
  { Pipeline.detected cfg s events with
    db := (Pipeline.commit? cfg s c).getD s.db
    counter := (events.map Prod.snd).foldl MinuteCounter.count s.counter }

def counted (cfg : Config) (s : Metrics) (a : Call × Reading) : Metrics :=
  let counts := Pipeline.counts cfg s.pipeline a.1
  { s with
    window := s.window.counted counts a.2.alertsCreated a.2.alertsCorrelated a.2.detectSecs
    rejected := s.rejected + counts.invalid
    duplicates := s.duplicates + counts.duplicate }

def finished (cfg : Config) (s : Metrics) (a : Call × Reading) : Metrics :=
  { counted cfg s a with window := (counted cfg s a).window.finished a.2.batchSecs }

/-- `process_batch` with its measurement window. -/
def step (cfg : Config) (s : Metrics) (a : Call × Reading) : Metrics :=
  let processed := (Pipeline.processBatch cfg s.pipeline a.1).1
  if measures cfg s.pipeline a.1 then
    let out := (finished cfg s a).measure a.2
    { out.1 with pipeline := if out.2 then interrupted cfg s.pipeline a.1 else processed }
  else { counted cfg s a with pipeline := processed }

def loggedInvalid (s : Metrics) : ℕ := (s.logged.map fun x => x.2.invalidEventsWindow).sum

def loggedDuplicate (s : Metrics) : ℕ := (s.logged.map fun x => x.2.duplicateEventsWindow).sum

/-- The pushed windows and the open one together have what the run has rejected and dropped. -/
structure Balanced (s : Metrics) : Prop where
  rejected : s.loggedInvalid + s.window.invalid = s.rejected
  duplicates : s.loggedDuplicate + s.window.duplicate = s.duplicates

/-- No push that Redis carries out is reported as failed, or it has nothing to count twice. -/
def PushedOnce (cfg : Config) (s : Metrics) (a : Call × Reading) : Prop :=
  measures cfg s.pipeline a.1 = true → 5 ≤ s.elapsed a.2 → a.2.fault = some (.history, true) →
    (finished cfg s a).window.invalid = 0 ∧ (finished cfg s a).window.duplicate = 0

section

variable {cfg : Config} {s : Metrics} {a : Call × Reading} {r : Reading} {p : Payload}

theorem carriedOut_history : r.carriedOut .history ↔ r.fault = none ∨
    r.fault = some (.history, true) := by
  rw [Reading.carriedOut]
  cases r.fault with
  | none => simp
  | some f =>
    obtain ⟨command, applied⟩ := f
    cases command <;> simp [WindowCommand.index]

def core (s : Metrics) := (s.window, s.history, s.historyExpiresAt, s.logged, s.rejected,
  s.duplicates)

theorem core_announce : (s.announce r p).core = s.core := by
  rw [announce]
  split_ifs <;> rfl

theorem core_pushHistory {s' : Metrics} (h : s'.core = s.core) :
    (s'.pushHistory r p).core = (s.pushHistory r p).core := by
  simp only [core, Prod.mk.injEq] at h
  obtain ⟨hwindow, hhistory, hexpires, hlogged, hrejected, hduplicates⟩ := h
  simp only [core, pushHistory, liveHistory, hwindow, hhistory, hexpires, hlogged, hrejected,
    hduplicates]

theorem measure_cases (s : Metrics) (r : Reading) :
    (s.measure r).1.core = s.core ∧
        ¬ (5 ≤ s.elapsed r ∧ (r.fault = none ∨ r.fault = some (.history, true))) ∨
      5 ≤ s.elapsed r ∧ ∃ p, p = s.window.payload (s.elapsed r) r.time ∧
        ((s.measure r).1.core = { s.pushHistory r p with window := {} }.core ∧ r.fault = none ∨
          (s.measure r).1.core = (s.pushHistory r p).core ∧
            r.fault = some (.history, true)) := by
  rw [measure]
  by_cases hearly : s.elapsed r < 5
  · rw [if_pos hearly]
    exact Or.inl ⟨rfl, fun h => absurd h.1 (not_le.mpr hearly)⟩
  · rw [if_neg hearly]
    have hcore := core_announce (s := s) (r := r) (p := s.window.payload (s.elapsed r) r.time)
    by_cases hpush : r.carriedOut .history
    · simp only [if_pos hpush]
      have hpushed := core_pushHistory (r := r) (p := s.window.payload (s.elapsed r) r.time) hcore
      refine Or.inr ⟨not_lt.mp hearly, _, rfl, ?_⟩
      rcases carriedOut_history.mp hpush with hnone | hsome
      · refine Or.inl ⟨?_, hnone⟩
        rw [hnone, Option.isSome_none, if_neg Bool.false_ne_true]
        simp only [core, Prod.mk.injEq] at hpushed ⊢
        exact ⟨trivial, hpushed.2⟩
      · refine Or.inr ⟨?_, hsome⟩
        rw [hsome, Option.isSome_some, if_pos rfl]
        exact hpushed
    · simp only [if_neg hpush]
      have hfail := mt carriedOut_history.mpr hpush
      refine Or.inl ⟨?_, fun h => hfail h.2⟩
      cases hfault : r.fault with
      | none => exact absurd (Or.inl hfault) hfail
      | some f => exact hcore

structure Excess (s : Metrics) (rejected duplicates : ℕ) : Prop where
  rejected : s.loggedInvalid + s.window.invalid = s.rejected + rejected
  duplicates : s.loggedDuplicate + s.window.duplicate = s.duplicates + duplicates

theorem Excess.balanced_iff {x y : ℕ} (h : s.Excess x y) : s.Balanced ↔ x = 0 ∧ y = 0 := by
  obtain ⟨hrejected, hduplicates⟩ := h
  constructor
  · intro hb
    obtain ⟨hr, hd⟩ := hb
    omega
  · intro hz
    exact ⟨by omega, by omega⟩

theorem Excess.congr {s' : Metrics} {x y : ℕ} (h : s.Excess x y) (hcore : s'.core = s.core) :
    s'.Excess x y := by
  simp only [core, Prod.mk.injEq] at hcore
  obtain ⟨hwindow, -, -, hlogged, hrejected, hduplicates⟩ := hcore
  refine ⟨?_, ?_⟩
  · rw [loggedInvalid, hlogged, hwindow, hrejected]
    exact h.rejected
  · rw [loggedDuplicate, hlogged, hwindow, hduplicates]
    exact h.duplicates

theorem Excess.counted {x y : ℕ} (h : s.Excess x y) (cfg : Config) (a : Call × Reading) :
    (counted cfg s a).Excess x y := by
  obtain ⟨hrejected, hduplicates⟩ := h
  refine ⟨?_, ?_⟩
  · change s.loggedInvalid + (s.window.invalid + _) = s.rejected + _ + x
    omega
  · change s.loggedDuplicate + (s.window.duplicate + _) = s.duplicates + _ + y
    omega

theorem Excess.pushed {x y : ℕ} (h : s.Excess x y) (elapsed time : ℚ) :
    (s.pushHistory r (s.window.payload elapsed time)).Excess (x + s.window.invalid)
      (y + s.window.duplicate) := by
  obtain ⟨hrejected, hduplicates⟩ := h
  refine ⟨?_, ?_⟩
  · simp only [loggedInvalid, pushHistory, List.map_append, List.map_singleton, List.sum_append,
      List.sum_singleton] at hrejected ⊢
    change _ + s.window.invalid + s.window.invalid = _
    omega
  · simp only [loggedDuplicate, pushHistory, List.map_append, List.map_singleton, List.sum_append,
      List.sum_singleton] at hduplicates ⊢
    change _ + s.window.duplicate + s.window.duplicate = _
    omega

theorem Excess.measure {x y : ℕ} (h : s.Excess x y) (r : Reading) :
    ∃ x' y', (s.measure r).1.Excess (x + x') (y + y') ∧
      ((5 ≤ s.elapsed r → r.fault = some (.history, true) →
        s.window.invalid = 0 ∧ s.window.duplicate = 0) ↔ x' = 0 ∧ y' = 0) := by
  rcases measure_cases s r with ⟨hcore, hkept⟩ | ⟨hlate, p, rfl, ⟨hcore, hnone⟩ | ⟨hcore, hsome⟩⟩
  · refine ⟨0, 0, h.congr hcore, iff_of_true (fun hlate hsome => ?_) ⟨rfl, rfl⟩⟩
    exact absurd ⟨hlate, Or.inr hsome⟩ hkept
  · refine ⟨0, 0, Excess.congr ?_ hcore, iff_of_true (fun _ hsome => ?_) ⟨rfl, rfl⟩⟩
    · obtain ⟨hrejected, hduplicates⟩ := h.pushed (r := r) (s.elapsed r) r.time
      simp only [loggedInvalid, loggedDuplicate, pushHistory] at hrejected hduplicates
      refine ⟨?_, ?_⟩
      · simp only [loggedInvalid, pushHistory]
        omega
      · simp only [loggedDuplicate, pushHistory]
        omega
    · rw [hnone] at hsome
      cases hsome
  · refine ⟨s.window.invalid, s.window.duplicate, (h.pushed _ _).congr hcore, ?_⟩
    exact ⟨fun hzero => hzero hlate hsome, fun hzero _ _ => hzero⟩

theorem Excess.step {x y : ℕ} (h : s.Excess x y) (cfg : Config) (a : Call × Reading) :
    ∃ x' y', (step cfg s a).Excess (x + x') (y + y') ∧
      (PushedOnce cfg s a ↔ x' = 0 ∧ y' = 0) := by
  rw [Metrics.step, PushedOnce]
  by_cases hmeasures : measures cfg s.pipeline a.1 = true
  · have hcounted := h.counted cfg a
    have hfinished : (finished cfg s a).Excess x y := ⟨hcounted.rejected, hcounted.duplicates⟩
    obtain ⟨x', y', hexcess, hiff⟩ := hfinished.measure a.2
    simp only [hmeasures, if_true, true_imp_iff]
    exact ⟨x', y', ⟨hexcess.rejected, hexcess.duplicates⟩, hiff⟩
  · have hcounted := h.counted cfg a
    rw [if_neg hmeasures]
    exact ⟨0, 0, ⟨hcounted.rejected, hcounted.duplicates⟩,
      iff_of_true (fun htrue => absurd htrue hmeasures) ⟨rfl, rfl⟩⟩

end

variable {cfg : Config}

/-- Along every run, whatever fails, the pushed windows and the open one have every rejected
and every dropped event, and none twice exactly when no window with such an event was pushed
by a command that then raised. -/
theorem windows_balanced_iff (cfg : Config) (s : Pipeline) (as : List (Call × Reading)) :
    let m := Run.exec (step cfg) { pipeline := s } as
    m.rejected ≤ m.loggedInvalid + m.window.invalid ∧
      m.duplicates ≤ m.loggedDuplicate + m.window.duplicate ∧
      (m.Balanced ↔ Run.Guarded (step cfg) (PushedOnce cfg) { pipeline := s } as) := by
  intro m
  have hkeep : ∀ m a, (∃ x y, m.Excess x y) → ∃ x y, (step cfg m a).Excess x y := by
    intro m a h
    obtain ⟨x, y, h⟩ := h
    obtain ⟨x', y', h', -⟩ := h.step cfg a
    exact ⟨_, _, h'⟩
  have hinit : ∃ x y, ({ pipeline := s } : Metrics).Excess x y := ⟨0, 0, rfl, rfl⟩
  obtain ⟨x, y, h⟩ := (Run.holds_of_step (I := fun m : Metrics => ∃ x y, m.Excess x y) hkeep hinit
    as).last
  refine ⟨?_, ?_, ?_⟩
  · have hrejected := h.rejected
    simp only [m]
    omega
  · have hduplicates := h.duplicates
    simp only [m]
    omega
  · refine (Run.last_iff_guarded (J := fun m : Metrics => ∃ x y, m.Excess x y) hkeep ?_ hinit
      as).trans (and_iff_right ⟨rfl, rfl⟩)
    intro m a hm
    obtain ⟨x, y, hm⟩ := hm
    obtain ⟨x', y', h', hiff⟩ := hm.step cfg a
    rw [h'.balanced_iff, hm.balanced_iff, hiff]
    omega

theorem nearest_hundred : Binary64.nearest 100 = 100 := by decide +kernel

theorem health_bounds (w : Window) :
    0 ≤ w.health ∧ w.health ≤ 100 := by
  have hrate₀ : 0 ≤ w.rejectRate := Binary64.nearest_nonneg (by positivity)
  have hsub : Binary64.sub 1 w.rejectRate ≤ 1 := by
    calc Binary64.sub 1 w.rejectRate ≤ Binary64.sub 1 0 := Binary64.sub_mono le_rfl hrate₀
      _ = 1 := by decide +kernel
  have hgood₀ : 0 ≤ max 0 (Binary64.sub 1 w.rejectRate) := le_max_left _ _
  have hgood₁ : max 0 (Binary64.sub 1 w.rejectRate) ≤ 1 := max_le zero_le_one hsub
  have hpct₀ : 0 ≤ Binary64.mul (max 0 (Binary64.sub 1 w.rejectRate)) 100 :=
    Binary64.nearest_nonneg (by positivity)
  have hpct₁ : Binary64.mul (max 0 (Binary64.sub 1 w.rejectRate)) 100 ≤ 100 := by
    calc Binary64.mul (max 0 (Binary64.sub 1 w.rejectRate)) 100
        ≤ Binary64.nearest 100 := Binary64.nearest_mono (by linarith)
      _ = 100 := nearest_hundred
  have hround : Binary64.halfEven
      (Binary64.mul (max 0 (Binary64.sub 1 w.rejectRate)) 100 * 10 ^ 2) ≤ 10000 :=
    Binary64.halfEven_le (by push_cast; linarith)
  have hround' : (Binary64.halfEven (Binary64.mul (max 0 (Binary64.sub 1 w.rejectRate)) 100 *
      10 ^ 2) : ℚ) ≤ 10000 := by exact_mod_cast hround
  constructor
  · apply Binary64.nearest_nonneg
    have hnonneg := Binary64.halfEven_nonneg
      (q := Binary64.mul (max 0 (Binary64.sub 1 w.rejectRate)) 100 * 10 ^ 2) (by positivity)
    positivity
  · calc w.health ≤ Binary64.nearest 100 :=
        Binary64.nearest_mono ((div_le_iff₀ (by positivity)).mpr (by linarith))
      _ = 100 := nearest_hundred

/-- `performance`: the list as the page shows it, oldest first. -/
def performance (s : Metrics) (clock : ℤ) : List Payload :=
  ((s.liveHistory clock).take historyBound).reverse

def within (clock : ℤ) (last : Option (ℤ × Payload)) : Prop :=
  ∃ y ∈ last, clock ≤ y.1 + historyTtl

instance (clock : ℤ) (last : Option (ℤ × Payload)) : Decidable (within clock last) :=
  inferInstanceAs (Decidable (∃ y ∈ last, _))

def sincePause (logged : List (ℤ × Payload)) : List (ℤ × Payload) :=
  logged.foldl (fun kept x => if within x.1 kept.getLast? then kept ++ [x] else [x]) []

theorem sincePause_concat (logged : List (ℤ × Payload)) (x : ℤ × Payload) :
    sincePause (logged ++ [x]) =
      if within x.1 (sincePause logged).getLast? then sincePause logged ++ [x] else [x] := by
  rw [sincePause, List.foldl_append]
  rfl

theorem getLast?_sincePause (logged : List (ℤ × Payload)) :
    (sincePause logged).getLast? = logged.getLast? := by
  induction logged using List.reverseRecOn with
  | nil => rfl
  | append_singleton logged x ih =>
    rw [sincePause_concat]
    split_ifs <;> simp

theorem mem_of_mem_sincePause {logged : List (ℤ × Payload)} :
    ∀ x ∈ sincePause logged, x ∈ logged := by
  induction logged using List.reverseRecOn with
  | nil => simp [sincePause]
  | append_singleton logged x ih =>
    rw [sincePause_concat]
    intro y hy
    split_ifs at hy
    · rcases List.mem_append.mp hy with hy | hy
      · exact List.mem_append_left _ (ih y hy)
      · exact List.mem_append_right _ hy
    · exact List.mem_append_right _ hy

/-- The list holds the newest pushes since the last pause, and is due half an hour after the
last of them. -/
structure Listed (s : Metrics) : Prop where
  history : s.history =
    ((Rolling.latest historyBound (sincePause s.logged)).map Prod.snd).reverse
  due : ∀ y ∈ s.logged.getLast?, s.historyExpiresAt = y.1 + historyTtl
  healths : ∀ x ∈ s.logged, 0 ≤ x.2.pipelineHealthPct ∧ x.2.pipelineHealthPct ≤ 100

section

variable {s : Metrics} {r : Reading} {p : Payload} {clock : ℤ}

theorem Listed.liveHistory (h : s.Listed) (clock : ℤ) :
    s.liveHistory clock =
      if within clock s.logged.getLast? then
        ((Rolling.latest historyBound (sincePause s.logged)).map Prod.snd).reverse
      else [] := by
  rw [Metrics.liveHistory]
  cases hlast : s.logged.getLast? with
  | none =>
    rw [List.getLast?_eq_none_iff] at hlast
    have hempty : s.history = [] := by
      rw [h.history, hlast]
      rfl
    have hnone : ¬ within clock none := by simp [within]
    rw [if_neg hnone, hempty, ite_self]
  | some y =>
    have hdue := h.due y hlast
    rcases lt_or_ge (y.1 + historyTtl) clock with hgone | hlive
    · have hpaused : ¬ within clock (some y) := by simpa [within] using hgone
      rw [if_pos (hdue ▸ hgone), if_neg hpaused]
    · rw [if_neg (hdue ▸ not_lt.mpr hlive), if_pos ⟨y, rfl, hlive⟩, h.history]

theorem Listed.pushHistory (h : s.Listed)
    (hp : 0 ≤ p.pipelineHealthPct ∧ p.pipelineHealthPct ≤ 100) : (s.pushHistory r p).Listed where
  history := by
    change (p :: s.liveHistory r.clock).take historyBound = _
    change _ = ((Rolling.latest historyBound (sincePause (s.logged ++ [(r.clock, p)]))).map
      Prod.snd).reverse
    rw [h.liveHistory, sincePause_concat, getLast?_sincePause, ← Rolling.latest_map,
      ← Rolling.latest_map]
    split_ifs
    · rw [List.map_append, List.map_singleton]
      exact Rolling.take_cons_reverse_latest historyBound _ p
    · have hfirst := Rolling.take_cons_reverse_latest historyBound [] p
      rwa [Rolling.latest_nil, List.nil_append] at hfirst
  due := by
    intro y hy
    have hlast : (s.pushHistory r p).logged.getLast? = some (r.clock, p) := by
      simp [Metrics.pushHistory]
    rw [hlast, Option.mem_some_iff] at hy
    rw [← hy]
    rfl
  healths := List.forall_mem_append.mpr ⟨h.healths, List.forall_mem_singleton.mpr hp⟩

theorem Listed.congr {s' : Metrics} (h : s.Listed) (hcore : s'.core = s.core) : s'.Listed := by
  simp only [core, Prod.mk.injEq] at hcore
  obtain ⟨-, hhistory, hexpires, hlogged, -, -⟩ := hcore
  refine ⟨?_, ?_, ?_⟩
  · rw [hhistory, hlogged]
    exact h.history
  · rw [hexpires, hlogged]
    exact h.due
  · rw [hlogged]
    exact h.healths

theorem Listed.measure (h : s.Listed) (r : Reading) : (s.measure r).1.Listed := by
  rcases measure_cases s r with ⟨hcore, -⟩ | ⟨-, p, rfl, ⟨hcore, -⟩ | ⟨hcore, -⟩⟩
  · exact h.congr hcore
  · have hpush := h.pushHistory (r := r) (p := s.window.payload (s.elapsed r) r.time)
      (health_bounds s.window)
    exact Listed.congr (s := { s.pushHistory r _ with window := {} })
      ⟨hpush.history, hpush.due, hpush.healths⟩ hcore
  · exact Listed.congr (h.pushHistory (health_bounds s.window)) hcore

theorem Listed.step (h : s.Listed) (a : Call × Reading) : (step cfg s a).Listed := by
  rw [Metrics.step]
  split_ifs
  · have hmeasure := Listed.measure (s := finished cfg s a) ⟨h.history, h.due, h.healths⟩ a.2
    exact ⟨hmeasure.history, hmeasure.due, hmeasure.healths⟩
  · exact ⟨h.history, h.due, h.healths⟩

/-- What the performance page shows at any time of any run: the newest 241 windows that were
pushed since the last pause of more than half an hour, oldest first, each with a health between 0
and 100 percent. -/
theorem performance_eq (cfg : Config) (s : Pipeline) (as : List (Call × Reading)) (clock : ℤ) :
    let m := Run.exec (Metrics.step cfg) { pipeline := s } as
    m.performance clock =
        (if within clock m.logged.getLast? then
          (Rolling.latest historyBound (sincePause m.logged)).map Prod.snd
        else []) ∧
      ∀ p ∈ m.performance clock, 0 ≤ p.pipelineHealthPct ∧ p.pipelineHealthPct ≤ 100 := by
  intro m
  have h : m.Listed := (Run.holds_of_step (I := Listed) (fun _ a h => h.step a)
    ⟨by simp [sincePause], by simp, by simp⟩ as).last
  have hsubset : ∀ x ∈ sincePause m.logged, x ∈ m.logged := mem_of_mem_sincePause
  have hperformance : m.performance clock = if within clock m.logged.getLast? then
      (Rolling.latest historyBound (sincePause m.logged)).map Prod.snd else [] := by
    rw [performance, h.liveHistory]
    split_ifs
    · rw [List.take_of_length_le (by simp), List.reverse_reverse]
    · rfl
  refine ⟨hperformance, ?_⟩
  rw [hperformance]
  split_ifs
  · intro p hp
    obtain ⟨x, hx, rfl⟩ := List.mem_map.mp hp
    exact h.healths x (hsubset x (List.mem_of_mem_drop hx))
  · simp

end

end Metrics

end SiemEngine

import SiemEngine.Lib.Pacing
import SiemEngine.Services.SimulatorControl
import SiemEngine.Simulator.Engine

/-!
# The loop of the simulator

`run` makes ten ticks a second. A tick may first follow the control document, every second
second; then, when the simulator runs, it may launch a scenario and hands its share of the rate
to the producer. The newest scenario that was launched is recorded for the statements.
-/

namespace SiemEngine.SimulatorLoop

open SimulatorControl (Control Engine)
open SimulatorEngine (State emit emitRounds emitTick enqueueScenario)

variable {ε : Type*}

def ticksPerSecond : ℕ := 10

/-- `_SCENARIO_ALIASES.get`: `none` launches nothing, `mixed` any scenario. -/
def scenarioAlias (scenario : String) : Option String :=
  if scenario ∈ ["mixed", "ssh_brute_force", "port_scan", "credential_attack",
    "privilege_escalation", "data_exfiltration", "web_attack", "sql_attack"] then some scenario
  else none

/-- What a tick reads: the document that a sync gets, if it gets one, the clock when the burst
is looked at, the draws, the events the generator makes, and which sends raise. -/
structure Tick (ε : Type*) where
  synced : Option (Time × Control) := none
  clock : Time
  draw : ℚ
  choice : String
  events : List ε
  fails : ℕ → Bool := fun _ => false

structure Loop (ε : Type*) where
  engine : Engine
  queue : State ε := {}
  tick : ℕ := 0
  newest : List ε := []

/-- `_sync_from_redis`, every second second. -/
def sync (l : Loop ε) (t : Tick ε) : Loop ε :=
  if l.tick % (ticksPerSecond * 2) = 0 then
    match t.synced with
    | none => l
    | some (clock, data) => { l with engine := l.engine.follow clock data }
  else l

def launchChance (e : Engine) : ℚ :=
  min (Binary64.nearest (9 / 10)) (Binary64.div (Binary64.div
    (Binary64.mul e.attackRatio e.rate) 20) ticksPerSecond)

def launched (l : Loop ε) (t : Tick ε) : Option String :=
  (scenarioAlias l.engine.scenario).bind fun scenario =>
    if scenario = "mixed" then
      if t.draw < launchChance l.engine then some t.choice else none
    else if l.queue.attackQueue.isEmpty && t.draw < Binary64.nearest (3 / 20) then some scenario
    else none

def launch (l : Loop ε) (t : Tick ε) : Loop ε :=
  match launched l t with
  | none => l
  | some name =>
    { l with
      queue := enqueueScenario name t.events l.queue
      newest := if name ∈ SimulatorEngine.scenarios then t.events else l.newest }

def rateAt (e : Engine) (clock : Time) : ℤ :=
  if e.running ∧ 0 < e.rate then if clock < e.burstUntil then e.rate * 10 else e.rate else 0

def budget (rate : ℤ) (tick : ℕ) : ℤ :=
  rate / ticksPerSecond +
    if ((tick % ticksPerSecond : ℕ) : ℤ) < rate % ticksPerSecond then 1 else 0

def step (l : Loop ε) (t : Tick ε) : Loop ε :=
  let l := sync l t
  let rate := rateAt l.engine t.clock
  let l := if rate = 0 then l
    else
      let l := launch l t
      { l with queue := emitTick (budget rate l.tick) t.fails l.queue }
  { l with tick := l.tick + 1 }

def nextRate (l : Loop ε) (t : Tick ε) : ℤ := rateAt (sync l t).engine t.clock

section

variable {l : Loop ε} {t : Tick ε} {s : State ε}

theorem rateAt_nonneg (e : Engine) (clock : Time) : 0 ≤ rateAt e clock := by
  rw [rateAt]
  split_ifs with hruns
  · exact mul_nonneg hruns.2.le (by norm_num)
  · exact hruns.2.le
  · exact le_rfl

theorem toNat_budget {rate : ℤ} (h : 0 ≤ rate) (tick : ℕ) :
    (budget rate tick).toNat = Pacing.share ticksPerSecond rate.toNat tick := by
  obtain ⟨r, rfl⟩ := Int.eq_ofNat_of_zero_le h
  have hfirst : ((tick % ticksPerSecond : ℕ) : ℤ) < (r : ℤ) % ticksPerSecond ↔
      tick % ticksPerSecond < r % ticksPerSecond := by
    rw [← Int.natCast_mod, Int.ofNat_lt]
  rw [budget, Pacing.share, Int.toNat_natCast]
  simp only [hfirst, ← Int.natCast_div]
  generalize r / ticksPerSecond = base
  split_ifs <;> omega

theorem nextRate_nonneg (l : Loop ε) (t : Tick ε) : 0 ≤ nextRate l t := rateAt_nonneg _ _

@[simp] theorem tick_sync (l : Loop ε) (t : Tick ε) : (sync l t).tick = l.tick := by
  rw [sync]
  split_ifs
  · cases t.synced <;> rfl
  · rfl

@[simp] theorem queue_sync (l : Loop ε) (t : Tick ε) : (sync l t).queue = l.queue := by
  rw [sync]
  split_ifs
  · cases t.synced <;> rfl
  · rfl

theorem newest_sync (l : Loop ε) (t : Tick ε) : (sync l t).newest = l.newest := by
  rw [sync]
  split_ifs
  · cases t.synced <;> rfl
  · rfl

@[simp] theorem tick_launch (l : Loop ε) (t : Tick ε) : (launch l t).tick = l.tick := by
  rw [launch]
  cases launched l t <;> rfl

theorem enqueueScenario_sent (name : String) (events : List ε) (s : State ε) :
    (enqueueScenario name events s).sentTotal = s.sentTotal ∧
      (enqueueScenario name events s).sentAttack = s.sentAttack ∧
      s.attackQueue.length ≤ (enqueueScenario name events s).attackQueue.length := by
  rw [enqueueScenario]
  split_ifs
  · refine ⟨rfl, rfl, ?_⟩
    rw [List.length_append]
    exact Nat.le_add_right _ _
  · exact ⟨rfl, rfl, le_rfl⟩

theorem queue_launch (l : Loop ε) (t : Tick ε) :
    (launch l t).queue.sentTotal = l.queue.sentTotal ∧
      (launch l t).queue.sentAttack = l.queue.sentAttack ∧
      l.queue.attackQueue.length ≤ (launch l t).queue.attackQueue.length := by
  rw [launch]
  cases launched l t with
  | none => exact ⟨rfl, rfl, le_rfl⟩
  | some name => exact enqueueScenario_sent name t.events l.queue

/-- What a tick does: it follows the document, and unless it is idle launches what it may and
spends its share. -/
theorem step_cases (l : Loop ε) (t : Tick ε) :
    (step l t).tick = l.tick + 1 ∧ (step l t).engine = (sync l t).engine ∧
      ((nextRate l t = 0 ∧ (step l t).queue = l.queue ∧ (step l t).newest = (sync l t).newest) ∨
        (step l t).queue = emitRounds (Pacing.share ticksPerSecond (nextRate l t).toNat l.tick)
            t.fails (launch (sync l t) t).queue ∧
          (step l t).newest = (launch (sync l t) t).newest) := by
  have hengine : (launch (sync l t) t).engine = (sync l t).engine := by
    rw [launch]
    cases launched (sync l t) t <;> rfl
  rw [step]
  dsimp only
  rw [← nextRate]
  split_ifs with hidle
  · exact ⟨congrArg (· + 1) (tick_sync l t), rfl, Or.inl ⟨hidle, queue_sync l t, rfl⟩⟩
  · refine ⟨?_, hengine, Or.inr ⟨?_, rfl⟩⟩
    · simp
    · change emitTick (budget (nextRate l t) (launch (sync l t) t).tick) t.fails
        (launch (sync l t) t).queue = _
      rw [emitTick, toNat_budget (nextRate_nonneg l t), tick_launch, tick_sync]

theorem sentTotal_emitRounds_le (n : ℕ) (fails : ℕ → Bool) (s : State ε) :
    s.sentTotal ≤ (emitRounds n fails s).sentTotal ∧
      (emitRounds n fails s).sentTotal ≤ s.sentTotal + n := by
  induction n generalizing fails s with
  | zero => exact ⟨le_rfl, le_rfl⟩
  | succ n ih =>
    have hone : s.sentTotal ≤ (emit (fails 0) s).1.sentTotal ∧
        (emit (fails 0) s).1.sentTotal ≤ s.sentTotal + 1 := by
      rcases SimulatorEngine.emit_cases (fails 0) s with ⟨-, hemit⟩ | ⟨event, rest, -, hemit⟩ <;>
        rw [hemit] <;> dsimp only <;> split_ifs <;> omega
    simp only [emitRounds]
    split_ifs
    · omega
    · obtain ⟨hle, hbound⟩ := ih (fun i => fails (i + 1)) (emit (fails 0) s).1
      omega

theorem emitRounds_of_sends (n : ℕ) {fails : ℕ → Bool} (hfails : ∀ i, fails i = false)
    (s : State ε) : (emitRounds n fails s).sentTotal = s.sentTotal + n ∧
      (emitRounds n fails s).sentAttack = s.sentAttack + min n s.attackQueue.length ∧
      (emitRounds n fails s).attackQueue = s.attackQueue.drop n := by
  induction n generalizing fails s with
  | zero => exact ⟨rfl, by rw [Nat.zero_min]; rfl, rfl⟩
  | succ n ih =>
    simp only [emitRounds]
    rcases SimulatorEngine.emit_cases (fails 0) s with
      ⟨hqueue, hemit⟩ | ⟨event, rest, hqueue, hemit⟩
    · rw [hemit, hfails 0]
      obtain ⟨htotal, hattack, hrest⟩ := ih (fun i => hfails (i + 1))
        { s with sentTotal := s.sentTotal + 1 }
      refine ⟨htotal.trans (Nat.add_right_comm _ _ _), hattack.trans ?_, hrest.trans ?_⟩
      · simp [hqueue]
      · simp [hqueue]
    · rw [hemit, hfails 0]
      obtain ⟨htotal, hattack, hrest⟩ := ih (fun i => hfails (i + 1))
        { s with
          attackQueue := rest
          sentAttack := s.sentAttack + 1
          sentTotal := s.sentTotal + 1
          handed := s.handed ++ [event] }
      refine ⟨htotal.trans (Nat.add_right_comm _ _ _), hattack.trans ?_, hrest.trans ?_⟩
      · rw [hqueue, List.length_cons]
        dsimp only
        omega
      · rw [hqueue, List.drop_succ_cons]

/-- A tick sends at most its share of the rate, whatever raises. -/
theorem sentTotal_step_le (l : Loop ε) (t : Tick ε) :
    (step l t).queue.sentTotal ≤
      l.queue.sentTotal + Pacing.share ticksPerSecond (nextRate l t).toNat l.tick := by
  obtain ⟨-, -, ⟨-, hqueue, -⟩ | ⟨hqueue, -⟩⟩ := step_cases l t
  · rw [hqueue]
    exact Nat.le_add_right _ _
  · rw [hqueue]
    have hlaunch := (queue_launch (sync l t) t).1
    rw [queue_sync] at hlaunch
    rw [← hlaunch]
    exact (sentTotal_emitRounds_le _ t.fails _).2

theorem step_of_sends (l : Loop ε) {t : Tick ε} (hfails : ∀ i, t.fails i = false) :
    (step l t).queue.sentTotal =
        l.queue.sentTotal + Pacing.share ticksPerSecond (nextRate l t).toNat l.tick ∧
      ∃ depth, l.queue.attackQueue.length ≤ depth ∧
        (step l t).queue.sentAttack = l.queue.sentAttack +
          min (Pacing.share ticksPerSecond (nextRate l t).toNat l.tick) depth ∧
        (step l t).queue.attackQueue.length =
          depth - Pacing.share ticksPerSecond (nextRate l t).toNat l.tick := by
  obtain ⟨-, -, ⟨hidle, hqueue, -⟩ | ⟨hqueue, -⟩⟩ := step_cases l t
  · have hshare : Pacing.share ticksPerSecond (nextRate l t).toNat l.tick = 0 := by
      rw [hidle, Int.toNat_zero, Pacing.share_zero]
    rw [hqueue, hshare]
    exact ⟨rfl, l.queue.attackQueue.length, le_rfl, by rw [Nat.zero_min]; rfl, rfl⟩
  · obtain ⟨htotal, hattack, hdepth⟩ := queue_launch (sync l t) t
    rw [queue_sync] at htotal hattack hdepth
    obtain ⟨hsent, htaken, hrest⟩ := emitRounds_of_sends
      (Pacing.share ticksPerSecond (nextRate l t).toNat l.tick) hfails
      (launch (sync l t) t).queue
    rw [← hqueue] at hsent htaken hrest
    refine ⟨hsent.trans (by rw [htotal]), _, hdepth, htaken.trans (by rw [hattack]), ?_⟩
    rw [hrest, List.length_drop]

end

def due (r : ℕ) (l : Loop ε) (ticks : List (Tick ε)) : ℕ :=
  ∑ i ∈ Finset.range ticks.length, Pacing.share ticksPerSecond r (l.tick + i)

theorem due_cons (r : ℕ) (l : Loop ε) (t : Tick ε) (ticks : List (Tick ε)) :
    due r l (t :: ticks) = Pacing.share ticksPerSecond r l.tick + due r (step l t) ticks := by
  rw [due, due, List.length_cons, Finset.sum_range_succ', Nat.add_comm, (step_cases l t).1]
  simp only [Nat.add_zero, Nat.add_assoc, Nat.add_comm 1]

theorem share_mono {r r' : ℕ} (h : r ≤ r') (tick : ℕ) :
    Pacing.share ticksPerSecond r tick ≤ Pacing.share ticksPerSecond r' tick := by
  rw [Pacing.share, Pacing.share, ticksPerSecond]
  by_cases hmore : tick % 10 < r % 10
  · by_cases hmore' : tick % 10 < r' % 10
    · rw [if_pos hmore, if_pos hmore']
      omega
    · rw [if_pos hmore, if_neg hmore']
      omega
  · rw [if_neg hmore]
    omega

theorem sentTotal_exec_le {r : ℕ} {ticks : List (Tick ε)} {l : Loop ε}
    (hrate : Run.Guarded step (fun l t => nextRate l t ≤ r) l ticks) :
    (Run.exec step l ticks).queue.sentTotal ≤ l.queue.sentTotal + due r l ticks := by
  induction ticks generalizing l with
  | nil => exact Nat.le_add_right _ _
  | cons t ticks ih =>
    obtain ⟨ht, hrest⟩ := hrate
    have hstep := sentTotal_step_le l t
    have hshare := share_mono (Int.toNat_le.mpr ht) l.tick
    have hle := ih hrest
    rw [Run.exec_cons, due_cons]
    omega

theorem le_exec_of_sends {r : ℕ} {ticks : List (Tick ε)} {l : Loop ε}
    (hrate : Run.Guarded step (fun l t => r ≤ nextRate l t) l ticks)
    (hfails : ∀ t ∈ ticks, ∀ i, t.fails i = false) :
    l.queue.sentTotal + due r l ticks ≤ (Run.exec step l ticks).queue.sentTotal ∧
      l.queue.sentAttack + min (due r l ticks) l.queue.attackQueue.length ≤
        (Run.exec step l ticks).queue.sentAttack := by
  induction ticks generalizing l with
  | nil => exact ⟨le_rfl, by simp [due]⟩
  | cons t ticks ih =>
    obtain ⟨ht, hrest⟩ := hrate
    obtain ⟨hfirst, hfails⟩ := List.forall_mem_cons.mp hfails
    obtain ⟨hsent, depth, hdepth, htaken, hleft⟩ := step_of_sends l hfirst
    have hshare := share_mono ((Int.le_toNat (nextRate_nonneg l t)).mpr ht) l.tick
    obtain ⟨htotal, hattack⟩ := ih hrest hfails
    rw [Run.exec_cons, due_cons]
    -- what a tick leaves on the queue is there for the budget of the others
    constructor <;> omega

theorem due_seconds {n : ℕ} {ticks : List (Tick ε)} (hlength : ticks.length = ticksPerSecond * n)
    (r : ℕ) (l : Loop ε) : due r l ticks = n * r := by
  rw [due, hlength]
  exact Pacing.sum_share_periods (by decide) r l.tick n

/-- The tick that comes next works for a simulator that is set to `r` events a second. -/
def SetTo (r : ℕ) (l : Loop ε) (t : Tick ε) : Prop :=
  (sync l t).engine.running = true ∧ (sync l t).engine.rate = r

instance (r : ℕ) (l : Loop ε) (t : Tick ε) : Decidable (SetTo r l t) :=
  inferInstanceAs (Decidable (_ ∧ _))

def bursts (l : Loop ε) (t : Tick ε) : Bool := t.clock < (sync l t).engine.burstUntil

def burstRate (burst : Bool) (r : ℕ) : ℕ := if burst then r * 10 else r

theorem nextRate_of_setTo {r : ℕ} {l : Loop ε} {t : Tick ε} (h : SetTo r l t) :
    nextRate l t = burstRate (bursts l t) r := by
  obtain ⟨hrunning, hrate⟩ := h
  rw [nextRate, rateAt, burstRate, bursts, hrate]
  by_cases hr : 0 < r
  · rw [if_pos ⟨hrunning, Int.natCast_pos.mpr hr⟩]
    by_cases hburst : t.clock < (sync l t).engine.burstUntil <;> simp [hburst]
  · obtain rfl : r = 0 := by omega
    simp

/-- A simulator that is set to `r` events a second hands at most ten times `r` to the producer in
each second, whichever tick the second starts at, whatever raises and whatever bursts come and
go; without a failure at least `r`, those of the queued scenarios before any other. Outside a
burst it hands on at most `r` and, without a failure, exactly `r`, in a burst ten times as
many. -/
theorem sent_per_second {r n : ℕ} {l : Loop ε} {ticks : List (Tick ε)}
    (hlength : ticks.length = ticksPerSecond * n)
    (hset : Run.Guarded step (SetTo r) l ticks) :
    (Run.exec step l ticks).queue.sentTotal ≤ l.queue.sentTotal + n * (r * 10) ∧
      ((∀ t ∈ ticks, ∀ i, t.fails i = false) →
        l.queue.sentTotal + n * r ≤ (Run.exec step l ticks).queue.sentTotal ∧
          l.queue.sentAttack + min (n * r) l.queue.attackQueue.length ≤
            (Run.exec step l ticks).queue.sentAttack) ∧
      ∀ burst, Run.Guarded step (fun l t => bursts l t = burst) l ticks →
        (Run.exec step l ticks).queue.sentTotal ≤ l.queue.sentTotal + n * burstRate burst r ∧
          ((∀ t ∈ ticks, ∀ i, t.fails i = false) →
            (Run.exec step l ticks).queue.sentTotal = l.queue.sentTotal + n * burstRate burst r) := by
  have hbounds (burst : Bool) : r ≤ burstRate burst r ∧ burstRate burst r ≤ r * 10 := by
    cases burst <;> simp only [burstRate] <;> split_ifs <;> omega
  refine ⟨?_, fun hfails => ?_, fun burst hburst => ?_⟩
  · rw [← due_seconds hlength (r * 10) l]
    refine sentTotal_exec_le (hset.mono fun l t h => ?_)
    rw [nextRate_of_setTo h]
    exact_mod_cast (hbounds _).2
  · rw [← due_seconds hlength r l]
    refine le_exec_of_sends (hset.mono fun l t h => ?_) hfails
    rw [nextRate_of_setTo h]
    exact_mod_cast (hbounds _).1
  · have hrate : Run.Guarded step (fun l t => nextRate l t = burstRate burst r) l ticks :=
      (hset.and hburst).mono fun l t h => h.2 ▸ nextRate_of_setTo h.1
    rw [← due_seconds hlength (burstRate burst r) l]
    have hle := sentTotal_exec_le (hrate.mono fun _ _ h => h.le)
    exact ⟨hle, fun hfails => hle.antisymm (le_exec_of_sends (hrate.mono fun _ _ h => h.ge)
      hfails).1⟩

/-- 13 events a second, in the second that starts at the fourth tick, and 130 in a burst. -/
theorem sent_per_second_thirteen :
    let l (burstUntil : Time) : Loop ℕ := { engine := ⟨true, 13, "normal", 0, burstUntil⟩, tick := 3 }
    let quiet : Tick ℕ := { clock := 1, draw := 0, choice := "", events := [] }
    let ticks : List (Tick ℕ) := List.replicate 10 quiet
    (Run.exec step (l 0) ticks).queue.sentTotal = 13 ∧
      (Run.exec step (l 5) ticks).queue.sentTotal = 130 := by
  intro l quiet ticks
  have hlength : ticks.length = ticksPerSecond * 1 := by decide
  have hfails : ∀ t ∈ ticks, ∀ i, t.fails i = false := fun t ht i => by
    rw [List.eq_of_mem_replicate ht]
  have hset : Run.Guarded step (SetTo 13) (l 0) ticks ∧ Run.Guarded step (SetTo 13) (l 5) ticks :=
    ⟨by decide +kernel, by decide +kernel⟩
  constructor
  · exact (((sent_per_second hlength hset.1).2.2 false (by decide +kernel)).2 hfails).trans
      (by decide)
  · exact (((sent_per_second hlength hset.2).2.2 true (by decide +kernel)).2 hfails).trans
      (by decide)

theorem emitRounds_suffix (n : ℕ) (fails : ℕ → Bool) (s : State ε) :
    (emitRounds n fails s).attackQueue <:+ s.attackQueue := by
  induction n generalizing fails s with
  | zero => exact List.suffix_rfl
  | succ n ih =>
    have hone : (emit (fails 0) s).1.attackQueue <:+ s.attackQueue := by
      rcases SimulatorEngine.emit_cases (fails 0) s with
        ⟨-, hemit⟩ | ⟨event, rest, hqueue, hemit⟩
      · rw [hemit]
      · rw [hemit, hqueue]
        exact List.suffix_cons event rest
    simp only [emitRounds]
    split_ifs
    · exact hone
    · exact (ih _ _).trans hone

def Single (l : Loop ε) : Prop := l.queue.attackQueue <:+ l.newest

theorem single_launch {l : Loop ε} {t : Tick ε} (h : Single l)
    (hscenario : l.engine.scenario ≠ "mixed") : Single (launch l t) := by
  rw [launch]
  cases hlaunched : launched l t with
  | none => exact h
  | some name =>
    rw [launched, Option.bind_eq_some_iff] at hlaunched
    obtain ⟨scenario, halias, hlaunched⟩ := hlaunched
    have hname : scenario = l.engine.scenario := by
      rw [scenarioAlias] at halias
      split_ifs at halias
      exact (Option.some.inj halias).symm
    rw [if_neg (hname ▸ hscenario)] at hlaunched
    split_ifs at hlaunched with hempty
    rw [Bool.and_eq_true, List.isEmpty_iff] at hempty
    dsimp only [Single, enqueueScenario]
    split_ifs
    · rw [hempty.1]
      exact List.suffix_rfl
    · exact h

theorem single_step {l : Loop ε} {t : Tick ε} (h : Single l)
    (hscenario : (sync l t).engine.scenario ≠ "mixed") : Single (step l t) := by
  have hsync : Single (sync l t) := by
    rw [Single, queue_sync, newest_sync]
    exact h
  obtain ⟨-, -, ⟨-, hqueue, hnewest⟩ | ⟨hqueue, hnewest⟩⟩ := step_cases l t
  · rw [Single, hqueue, hnewest, newest_sync]
    exact h
  · rw [Single, hqueue, hnewest]
    exact (emitRounds_suffix _ _ _).trans (single_launch hsync hscenario)

/-- As long as the mixed mode is not asked for, two scenarios never mix: what waits on the
queue is always the end of the newest one, whatever is drawn and whatever raises. -/
theorem one_scenario_at_a_time {l : Loop ε} (h : Single l) {ticks : List (Tick ε)}
    (hscenario : Run.Guarded step (fun l t => (sync l t).engine.scenario ≠ "mixed") l ticks) :
    Run.Holds step Single l ticks :=
  Run.holds_of_guarded (fun _ _ h hs => single_step h hs) h hscenario

/-- Two ticks at 20 events a second: the first launches a scan of three events and sends two
of them, so the second launches nothing. -/
theorem one_scenario_at_a_time_scan :
    let l : Loop ℕ := { engine := ⟨true, 20, "port_scan", 0, 0⟩ }
    let scan : Tick ℕ := { clock := 1, draw := 0, choice := "", events := [1, 2, 3] }
    (Run.exec step l [scan]).queue.attackQueue = [3] ∧
      Run.Holds step Single l [scan, scan, scan] := by
  intro l scan
  have hstart : Single l := List.suffix_rfl
  exact ⟨by decide +kernel, one_scenario_at_a_time hstart (by decide +kernel)⟩

end SiemEngine.SimulatorLoop

import Mathlib.Algebra.Order.Ring.Rat
import Mathlib.Logic.Function.Basic
import SiemEngine.Lib.Binary64
import SiemEngine.Lib.Run
import SiemEngine.Python.Datetime

/-!
# Simulator control plane

The API publishes the desired state of the simulator as one document; the simulator polls
it and writes it back to clear the one-shot burst flag. `set_state` and `_sync_from_redis`
both read the document with one Redis command and write it with another, so their commands
interleave. What was commanded, and which bursts began, is recorded for the statements only.
-/

namespace SiemEngine.SimulatorControl

def scenarios : List String :=
  ["normal", "ssh_brute_force", "port_scan", "credential_attack", "privilege_escalation",
    "data_exfiltration", "web_attack", "mixed"]

structure Control where
  running : Bool
  rate : ℤ
  scenario : String
  attackRatio : ℚ
  burst : Bool
  updatedAt : Time
  updatedBy : String

structure Settings where
  simulatorAutostart : Bool := false
  eventsPerSecond : ℤ := 50
  simulatorScenario : String := "normal"
  simulatorAttackRatio : ℚ := Binary64.nearest (1 / 20)

def defaultState (settings : Settings) (clock : Time) : Control where
  running := settings.simulatorAutostart
  rate := settings.eventsPerSecond
  scenario := settings.simulatorScenario
  attackRatio := settings.simulatorAttackRatio
  burst := false
  updatedAt := clock
  updatedBy := "config"

/-- The document has every field, so it replaces the defaults. -/
def getState (settings : Settings) (clock : Time) (stored : Option Control) : Control :=
  stored.getD (defaultState settings clock)

structure Patch where
  running : Option Bool := none
  rate : Option ℤ := none
  scenario : Option String := none
  attackRatio : Option ℚ := none
  burst : Option Bool := none
  deriving DecidableEq

def Patch.clamped (p : Patch) : Patch :=
  { p with
    rate := p.rate.map fun rate => max 0 (min rate 20000)
    attackRatio := p.attackRatio.map fun ratio => max 0 (min ratio 1) }

/-- `set_state` between its two commands; `none` when it raises. -/
def setState (p : Patch) (actor : String) (clock : Time) (state : Control) : Option Control :=
  if p.scenario.any (· ∉ scenarios) then none
  else some {
    running := p.running.getD state.running
    rate := p.clamped.rate.getD state.rate
    scenario := p.scenario.getD state.scenario
    attackRatio := p.clamped.attackRatio.getD state.attackRatio
    burst := p.burst.getD state.burst
    updatedAt := clock
    updatedBy := actor }

structure SimulatorConfig where
  rate : Option {n : ℤ // 0 ≤ n ∧ n ≤ 20000} := none
  scenario : Option String := none
  attackRatio : Option {q : ℚ // 0 ≤ q ∧ q ≤ 1} := none
  burst : Option Bool := none

def SimulatorConfig.patch (cfg : SimulatorConfig) : Patch where
  rate := cfg.rate.map Subtype.val
  scenario := cfg.scenario
  attackRatio := cfg.attackRatio.map Subtype.val
  burst := cfg.burst

inductive Request
  | start (cfg : Option SimulatorConfig)
  | stop
  | configure (cfg : SimulatorConfig)

def checked (p : Patch) : Except String Patch :=
  match p.scenario with
  | none => .ok p
  | some name => if name ∈ scenarios then .ok p else .error ("unknown scenario: " ++ name)

def Request.patch : Request → Except String Patch
  | .start none => checked { running := some true }
  | .start (some cfg) => checked { cfg.patch with running := some true }
  | .stop => .ok { running := some false }
  | .configure cfg =>
    if cfg.patch = {} then .error "no configuration supplied" else checked cfg.patch

theorem Request.patch_accepted {r : Request} {p : Patch} (h : r.patch = .ok p) :
    p.clamped = p ∧ ∀ name ∈ p.scenario, name ∈ scenarios := by
  have hcfg : ∀ cfg : SimulatorConfig, cfg.patch.clamped = cfg.patch := by
    intro cfg
    have hrate : ∀ n : {n : ℤ // 0 ≤ n ∧ n ≤ 20000}, max 0 (min n.val 20000) = n.val :=
      fun n => by rw [min_eq_left n.2.2, max_eq_right n.2.1]
    have hratio : ∀ q : {q : ℚ // 0 ≤ q ∧ q ≤ 1}, max 0 (min q.val 1) = q.val :=
      fun q => by rw [min_eq_left q.2.2, max_eq_right q.2.1]
    simp only [SimulatorConfig.patch, Patch.clamped, Option.map_map, Function.comp_def, hrate,
      hratio]
  have hchecked : ∀ q : Patch, checked q = .ok p → q.clamped = q →
      p.clamped = p ∧ ∀ name ∈ p.scenario, name ∈ scenarios := by
    intro q hq hclamped
    unfold checked at hq
    split at hq
    · rename_i hnone
      cases hq
      exact ⟨hclamped, by simp [hnone]⟩
    · rename_i name hname
      split_ifs at hq with hmem
      cases hq
      exact ⟨hclamped, by simpa [hname] using hmem⟩
  cases r with
  | start cfg =>
    simp only [Request.patch] at h
    cases cfg with
    | none => exact hchecked _ h rfl
    | some cfg =>
      refine hchecked _ h ?_
      have hclamped := hcfg cfg
      rw [Patch.clamped, Patch.mk.injEq] at hclamped ⊢
      exact ⟨rfl, hclamped.2.1, rfl, hclamped.2.2.2.1, rfl⟩
  | stop =>
    cases h
    exact ⟨rfl, by simp⟩
  | configure cfg =>
    simp only [Request.patch] at h
    split_ifs at h
    exact hchecked _ h (hcfg cfg)

structure Call where
  read : Control
  patch : Patch
  actor : String

structure Engine where
  running : Bool
  rate : ℤ
  scenario : String
  attackRatio : ℚ
  burstUntil : Time := 0

def Engine.follow (e : Engine) (clock : Time) (data : Control) : Engine where
  running := data.running
  rate := data.rate
  scenario := data.scenario
  attackRatio := data.attackRatio
  burstUntil := if data.burst then clock + 8 * Datetime.microsPerSecond else e.burstUntil

/-- The key, the simulator, the calls under way and the document whose burst flag the
simulator is about to clear; then the patches in the order they were stored, the bursts asked
for and those begun. -/
structure State where
  stored : Option Control
  engine : Engine
  calls : ℕ → Option Call := fun _ => none
  clearing : Option Control := none
  accepted : List Patch := []
  requested : ℕ := 0
  begun : ℕ := 0

/-- The commands. A call that reads again has given up its first attempt, and so has a
simulator whose SET failed. -/
inductive Act
  | get (call : ℕ) (request : Request) (actor : String) (clock : Time)
  | set (call : ℕ) (clock : Time)
  | syncGet (clock : Time)
  | syncSet

def step (settings : Settings) (s : State) : Act → State
  | .get i request actor clock => match request.patch with
    | .error _ => s
    | .ok patch =>
      { s with calls :=
          Function.update s.calls i (some ⟨getState settings clock s.stored, patch, actor⟩) }
  | .set i clock => match s.calls i with
    | none => s
    | some call => match setState call.patch call.actor clock call.read with
      | none => { s with calls := Function.update s.calls i none }
      | some control =>
        { s with
          stored := some control
          calls := Function.update s.calls i none
          accepted := s.accepted ++ [call.patch]
          requested := s.requested + if call.patch.burst = some true then 1 else 0 }
  | .syncGet clock => match s.stored with
    | none => { s with clearing := none }
    | some data =>
      { s with
        engine := s.engine.follow clock data
        clearing := if data.burst then some data else none
        begun := s.begun + if data.burst then 1 else 0 }
  | .syncSet => match s.clearing with
    | none => s
    | some data => { s with stored := some { data with burst := false }, clearing := none }

def outstanding (s : State) : Bool := s.stored.any Control.burst

def start (stored : Option Control) (engine : Engine) : State where
  stored := stored
  engine := engine
  requested := if stored.any Control.burst then 1 else 0

def settle (settings : Settings) (s : State) : State :=
  Run.exec (step settings) s [.syncSet, .syncGet 0, .syncSet]

structure Field (α : Type) where
  get : Control → α
  ask : Patch → Option α
  get_default : ∀ settings clock clock',
    get (defaultState settings clock) = get (defaultState settings clock')
  get_cleared : ∀ data : Control, get { data with burst := false } = get data
  ask_empty : ask {} = none
  get_setState : ∀ {p actor clock state control}, p.clamped = p →
    setState p actor clock state = some control → get control = (ask p).getD (get state)

theorem setState_eq_some {p : Patch} {actor : String} {clock : Time} {state control : Control}
    (h : setState p actor clock state = some control) :
    control.running = p.running.getD state.running ∧
      control.rate = p.clamped.rate.getD state.rate ∧
      control.scenario = p.scenario.getD state.scenario ∧
      control.attackRatio = p.clamped.attackRatio.getD state.attackRatio ∧
      control.burst = p.burst.getD state.burst := by
  unfold setState at h
  split_ifs at h
  cases h
  exact ⟨rfl, rfl, rfl, rfl, rfl⟩

theorem setState_isSome {p : Patch} (h : ∀ name ∈ p.scenario, name ∈ scenarios) (actor : String)
    (clock : Time) (state : Control) : ∃ control, setState p actor clock state = some control := by
  have hknown : ¬ p.scenario.any (· ∉ scenarios) := by
    cases hs : p.scenario with
    | none => simp
    | some name => simp [h name hs]
  exact ⟨_, if_neg hknown⟩

def running : Field Bool where
  get := Control.running
  ask := Patch.running
  get_default _ _ _ := rfl
  get_cleared _ := rfl
  ask_empty := rfl
  get_setState _ h := (setState_eq_some h).1

def rate : Field ℤ where
  get := Control.rate
  ask := Patch.rate
  get_default _ _ _ := rfl
  get_cleared _ := rfl
  ask_empty := rfl
  get_setState hp h := by
    have hrate := (setState_eq_some h).2.1
    rwa [hp] at hrate

def scenario : Field String where
  get := Control.scenario
  ask := Patch.scenario
  get_default _ _ _ := rfl
  get_cleared _ := rfl
  ask_empty := rfl
  get_setState _ h := (setState_eq_some h).2.2.1

def attackRatio : Field ℚ where
  get := Control.attackRatio
  ask := Patch.attackRatio
  get_default _ _ _ := rfl
  get_cleared _ := rfl
  ask_empty := rfl
  get_setState hp h := by
    have hratio := (setState_eq_some h).2.2.2.1
    rwa [hp] at hratio

def current (settings : Settings) (s : State) : Control := getState settings 0 s.stored

namespace Field

variable {α : Type} {f : Field α} {settings : Settings} {s : State} {base : α}

def last (f : Field α) (s : State) : Option α := (s.accepted.filterMap f.ask).getLast?

def Kept (f : Field α) (s : State) : Prop := ∀ v ∈ f.last s, s.stored.map f.get = some v

/-- A write of what was read does not undo a change of the field made since. -/
def Undisturbed (settings : Settings) (f : Field α) (s : State) (patch : Patch)
    (read : Control) : Prop :=
  f.ask patch = none → f.get read = f.get (current settings s)

/-- The field has the value last asked for, or that of the start, which every copy of the
document has while nothing was asked for. -/
structure Tracked (settings : Settings) (base : α) (f : Field α) (s : State) : Prop where
  current : f.get (current settings s) = (f.last s).getD base
  stored : (f.last s).isSome → s.stored.isSome
  calls : ∀ i, ∀ call ∈ s.calls i, f.last s = none → f.get call.read = base
  clearing : ∀ data ∈ s.clearing, f.last s = none → f.get data = base

theorem get_getState (f : Field α) (settings : Settings) (clock : Time) (s : State) :
    f.get (getState settings clock s.stored) = f.get (SimulatorControl.current settings s) := by
  unfold SimulatorControl.current getState
  cases s.stored with
  | none => exact f.get_default settings clock 0
  | some control => rfl

theorem last_concat {s' : State} {p : Patch} (h : s'.accepted = s.accepted ++ [p]) :
    f.last s' = (f.ask p).or (f.last s) := by
  rw [last, last, h, List.filterMap_append, List.getLast?_append]
  cases hask : f.ask p <;> simp [hask]

theorem Tracked.kept (h : f.Tracked settings base s) : f.Kept s := by
  intro v hv
  obtain ⟨control, hcontrol⟩ := Option.isSome_iff_exists.mp
    (h.stored (Option.isSome_iff_exists.mpr ⟨v, hv⟩))
  have hcurrent := h.current
  rw [hv, SimulatorControl.current, hcontrol] at hcurrent
  rw [hcontrol, Option.map_some]
  exact congrArg some hcurrent

theorem Tracked.undisturbed {s' : State} {patch : Patch} {read control : Control}
    (h : f.Tracked settings base s) (hread : f.last s = none → f.get read = base)
    (hlast : f.last s' = (f.ask patch).or (f.last s)) (hstored : s'.stored = some control)
    (hget : f.get control = (f.ask patch).getD (f.get read)) (hkept : f.Kept s') :
    f.Undisturbed settings s patch read := by
  intro hask
  rw [hask, Option.none_or] at hlast
  rw [hask, Option.getD_none] at hget
  cases hv : f.last s with
  | none => rw [hread hv, h.current, hv, Option.getD_none]
  | some v =>
    have hvalue := hkept v (hlast.trans hv)
    rw [hstored, Option.map_some, Option.some.injEq] at hvalue
    rw [h.current, hv, Option.getD_some, ← hget, hvalue]

theorem Tracked.written {s' : State} {patch : Patch} {read control : Control}
    (h : f.Tracked settings base s) (hlast : f.last s' = (f.ask patch).or (f.last s))
    (hstored : s'.stored = some control)
    (hget : f.get control = (f.ask patch).getD (f.get read))
    (hcalls : ∀ i, ∀ call ∈ s'.calls i, ∃ j, s.calls j = some call)
    (hclearing : ∀ data ∈ s'.clearing, s.clearing = some data)
    (hquiet : f.Undisturbed settings s patch read) : f.Tracked settings base s' := by
  have hnone : f.last s' = none → f.last s = none := fun hn =>
    (Option.or_eq_none_iff.mp (hlast.symm.trans hn)).2
  refine ⟨?_, fun _ => by rw [hstored]; rfl, fun i call hcall hn => ?_, fun data hdata hn =>
    h.clearing data (hclearing data hdata) (hnone hn)⟩
  · rw [SimulatorControl.current, hstored, getState, Option.getD_some, hget, hlast]
    cases hask : f.ask patch with
    | none => rw [Option.getD_none, Option.none_or, hquiet hask, h.current]
    | some v => rfl
  · obtain ⟨j, hj⟩ := hcalls i call hcall
    exact h.calls j call hj (hnone hn)

theorem Tracked.read {s' : State} (h : f.Tracked settings base s) (hstored : s'.stored = s.stored)
    (haccepted : s'.accepted = s.accepted)
    (hcalls : ∀ i, ∀ call ∈ s'.calls i, (∃ j, s.calls j = some call) ∨
      f.get call.read = f.get (SimulatorControl.current settings s))
    (hclearing : ∀ data ∈ s'.clearing, s.clearing = some data ∨ s.stored = some data) :
    f.Tracked settings base s' := by
  have hlast : f.last s' = f.last s := by rw [last, last, haccepted]
  have hcurrent : SimulatorControl.current settings s' = SimulatorControl.current settings s := by
    rw [SimulatorControl.current, SimulatorControl.current, hstored]
  refine ⟨by rw [hcurrent, hlast, h.current], by rw [hlast, hstored]; exact h.stored,
    fun i call hcall hn => ?_, fun data hdata hn => ?_⟩
  · rw [hlast] at hn
    rcases hcalls i call hcall with ⟨j, hj⟩ | hread
    · exact h.calls j call hj hn
    · rw [hread, h.current, hn, Option.getD_none]
  · rw [hlast] at hn
    rcases hclearing data hdata with hold | hnew
    · exact h.clearing data hold hn
    · have hdoc : SimulatorControl.current settings s = data := by
        rw [SimulatorControl.current, hnew]
        rfl
      rw [← hdoc, h.current, hn, Option.getD_none]

end Field

structure Kept (settings : Settings) (s : State) : Prop where
  running : running.Kept s
  rate : rate.Kept s
  scenario : scenario.Kept s
  attackRatio : attackRatio.Kept s
  bursts : (settle settings s).begun = s.requested

structure Undisturbed (settings : Settings) (s : State) (patch : Patch) (read : Control) :
    Prop where
  running : running.Undisturbed settings s patch read
  rate : rate.Undisturbed settings s patch read
  scenario : scenario.Undisturbed settings s patch read
  attackRatio : attackRatio.Undisturbed settings s patch read

/-- The call asks for no burst while one is outstanding or being cleared, and otherwise
writes back the flag as it is. -/
def BurstUndisturbed (s : State) (call : Call) : Prop :=
  if s.clearing.isSome then call.patch.burst ≠ some true
  else match call.patch.burst with
    | none => call.read.burst = outstanding s
    | some _ => outstanding s = false

def Allowed (settings : Settings) (s : State) : Act → Prop
  | .get .. => True
  | .set i _ => ∀ call ∈ s.calls i,
      Undisturbed settings s call.patch call.read ∧ BurstUndisturbed s call
  | .syncGet _ => ¬ (s.clearing.isSome ∧ outstanding s)
  | .syncSet => ∀ data ∈ s.clearing, Undisturbed settings s {} data

theorem begun_settle (settings : Settings) (s : State) : (settle settings s).begun =
    s.begun + if s.clearing.isNone && outstanding s then 1 else 0 := by
  cases hclearing : s.clearing with
  | none =>
    cases hstored : s.stored with
    | none => simp [settle, step, hclearing, hstored, outstanding]
    | some data => cases hburst : data.burst <;>
        simp [settle, step, hclearing, hstored, hburst, outstanding]
  | some data => simp [settle, step, hclearing]

structure Invariant (settings : Settings) (base : Control) (s : State) : Prop where
  running : running.Tracked settings base.running s
  rate : rate.Tracked settings base.rate s
  scenario : scenario.Tracked settings base.scenario s
  attackRatio : attackRatio.Tracked settings base.attackRatio s
  calls : ∀ i, ∀ call ∈ s.calls i, call.patch.clamped = call.patch ∧
    ∀ name ∈ call.patch.scenario, name ∈ scenarios
  bursts : (settle settings s).begun = s.requested

section

variable {settings : Settings} {base : Control} {s : State}

theorem Invariant.kept (h : Invariant settings base s) : Kept settings s :=
  ⟨h.running.kept, h.rate.kept, h.scenario.kept, h.attackRatio.kept, h.bursts⟩

theorem tracked_start (settings : Settings) (stored : Option Control) (engine : Engine)
    {α : Type} (f : Field α) : f.Tracked settings
      (f.get (current settings (start stored engine))) (start stored engine) where
  current := rfl
  stored h := absurd h Bool.false_ne_true
  calls _ _ h := absurd h (Option.not_mem_none _)
  clearing _ h := absurd h (Option.not_mem_none _)

theorem invariant_start (settings : Settings) (stored : Option Control) (engine : Engine) :
    Invariant settings (current settings (start stored engine)) (start stored engine) where
  running := tracked_start settings stored engine running
  rate := tracked_start settings stored engine rate
  scenario := tracked_start settings stored engine scenario
  attackRatio := tracked_start settings stored engine attackRatio
  calls _ _ h := absurd h (Option.not_mem_none _)
  bursts := by
    rw [begun_settle]
    simp [start, outstanding]

def written (s : State) (i : ℕ) (call : Call) (control : Control) : State :=
  { s with
    stored := some control
    calls := Function.update s.calls i none
    accepted := s.accepted ++ [call.patch]
    requested := s.requested + if call.patch.burst = some true then 1 else 0 }

theorem step_set (h : Invariant settings base s) {i : ℕ} {call : Call}
    (hcall : s.calls i = some call) (clock : Time) : ∃ control,
      setState call.patch call.actor clock call.read = some control ∧
      step settings s (.set i clock) = written s i call control := by
  obtain ⟨control, hcontrol⟩ :=
    setState_isSome (h.calls i call hcall).2 call.actor clock call.read
  refine ⟨control, hcontrol, ?_⟩
  simp only [step, hcall, hcontrol, written]

theorem mem_update_none {calls : ℕ → Option Call} {i j : ℕ} {call : Call}
    (h : call ∈ Function.update calls i none j) : calls j = some call := by
  rcases eq_or_ne j i with rfl | hj
  · rw [Function.update_self] at h
    cases h
  · rwa [Function.update_of_ne hj] at h

theorem bursts_written_iff (h : (settle settings s).begun = s.requested) {i : ℕ} {call : Call}
    {control : Control} (hburst : control.burst = call.patch.burst.getD call.read.burst) :
    (settle settings (written s i call control)).begun = (written s i call control).requested ↔
      BurstUndisturbed s call := by
  rw [begun_settle] at h ⊢
  change s.begun + (if s.clearing.isNone && control.burst then 1 else 0) =
    s.requested + (if call.patch.burst = some true then 1 else 0) ↔ _
  rw [hburst, BurstUndisturbed]
  cases hclearing : s.clearing with
  | some data =>
    simp only [hclearing, Option.isNone_some, Bool.false_and, Bool.false_eq_true, ↓reduceIte,
      add_zero, Option.isSome_some] at h ⊢
    cases hask : call.patch.burst with
    | none => simp [h]
    | some b => cases b <;> simp [h]
  | none =>
    simp only [hclearing, Option.isNone_none, Bool.true_and, Option.isSome_none,
      Bool.false_eq_true, ↓reduceIte] at h ⊢
    rw [← h]
    cases hask : call.patch.burst with
    | none => cases hread : call.read.burst <;> cases hout : outstanding s <;> simp
    | some b => cases b <;> cases hout : outstanding s <;> simp

theorem invariant_set (h : Invariant settings base s) {i : ℕ} {clock : Time}
    (ha : Allowed settings s (.set i clock)) :
    Invariant settings base (step settings s (.set i clock)) := by
  cases hcall : s.calls i with
  | none => simpa only [step, hcall] using h
  | some call =>
    obtain ⟨control, hcontrol, hstep⟩ := step_set h hcall clock
    obtain ⟨hquiet, hburst⟩ := ha call hcall
    have hpatch := (h.calls i call hcall).1
    have htracked : ∀ {α : Type} (f : Field α) {v : α}, f.Tracked settings v s →
        f.Undisturbed settings s call.patch call.read →
        f.Tracked settings v (written s i call control) := fun f _ hf hq =>
      hf.written (Field.last_concat rfl) rfl (f.get_setState hpatch hcontrol)
        (fun j c hc => ⟨j, mem_update_none hc⟩) (fun data hdata => hdata) hq
    rw [hstep]
    exact ⟨htracked _ h.running hquiet.running, htracked _ h.rate hquiet.rate,
      htracked _ h.scenario hquiet.scenario, htracked _ h.attackRatio hquiet.attackRatio,
      fun j c hc => h.calls j c (mem_update_none hc),
      (bursts_written_iff h.bursts (setState_eq_some hcontrol).2.2.2.2).mpr hburst⟩

theorem allowed_set (h : Invariant settings base s) {i : ℕ} {clock : Time}
    (hk : Kept settings (step settings s (.set i clock))) : Allowed settings s (.set i clock) := by
  intro call hcall
  obtain ⟨control, hcontrol, hstep⟩ := step_set h hcall clock
  rw [hstep] at hk
  have hpatch := (h.calls i call hcall).1
  have hquiet : ∀ {α : Type} (f : Field α) {v : α}, f.Tracked settings v s →
      f.Kept (written s i call control) → f.Undisturbed settings s call.patch call.read :=
    fun f _ hf hkept => hf.undisturbed (hf.calls i call hcall) (Field.last_concat rfl) rfl
      (f.get_setState hpatch hcontrol) hkept
  exact ⟨⟨hquiet _ h.running hk.running, hquiet _ h.rate hk.rate,
    hquiet _ h.scenario hk.scenario, hquiet _ h.attackRatio hk.attackRatio⟩,
    (bursts_written_iff h.bursts (setState_eq_some hcontrol).2.2.2.2).mp hk.bursts⟩

theorem invariant_get (h : Invariant settings base s) (i : ℕ) (request : Request)
    (actor : String) (clock : Time) :
    Invariant settings base (step settings s (.get i request actor clock)) := by
  cases hpatch : request.patch with
  | error detail => simpa only [step, hpatch] using h
  | ok patch =>
    have hcalls : ∀ j, ∀ call ∈ (step settings s (.get i request actor clock)).calls j,
        s.calls j = some call ∨ call = ⟨getState settings clock s.stored, patch, actor⟩ := by
      intro j call hcall
      simp only [step, hpatch, Function.update_apply] at hcall
      split_ifs at hcall
      · exact Or.inr (Option.some.inj hcall).symm
      · exact Or.inl hcall
    have htracked : ∀ {α : Type} (f : Field α) {v : α}, f.Tracked settings v s →
        f.Tracked settings v (step settings s (.get i request actor clock)) := by
      intro α f v hf
      refine hf.read (by simp only [step, hpatch]) (by simp only [step, hpatch])
        (fun j call hcall => ?_) (fun data hdata => ?_)
      · rcases hcalls j call hcall with hold | rfl
        · exact Or.inl ⟨j, hold⟩
        · exact Or.inr (f.get_getState settings clock s)
      · simp only [step, hpatch] at hdata
        exact Or.inl hdata
    refine ⟨htracked _ h.running, htracked _ h.rate, htracked _ h.scenario,
      htracked _ h.attackRatio, fun j call hcall => ?_, ?_⟩
    · rcases hcalls j call hcall with hold | rfl
      · exact h.calls j call hold
      · exact Request.patch_accepted hpatch
    · have hbursts := h.bursts
      rw [begun_settle, outstanding] at hbursts ⊢
      simp only [step, hpatch]
      exact hbursts

theorem bursts_syncGet_iff (h : (settle settings s).begun = s.requested) (clock : Time) :
    (settle settings (step settings s (.syncGet clock))).begun =
      (step settings s (.syncGet clock)).requested ↔ Allowed settings s (.syncGet clock) := by
  rw [begun_settle] at h ⊢
  rw [Allowed]
  cases hstored : s.stored with
  | none =>
    simp only [outstanding, hstored, Option.any_none, Bool.and_false] at h
    simpa [step, hstored, outstanding] using h
  | some data =>
    simp only [outstanding, hstored, Option.any_some] at h
    cases hburst : data.burst <;> cases hclearing : s.clearing <;>
      simp_all [step, outstanding]

theorem invariant_syncGet (h : Invariant settings base s) {clock : Time}
    (ha : Allowed settings s (.syncGet clock)) :
    Invariant settings base (step settings s (.syncGet clock)) := by
  have hstored : (step settings s (.syncGet clock)).stored = s.stored := by
    simp only [step]
    split <;> simp only [*]
  have haccepted : (step settings s (.syncGet clock)).accepted = s.accepted := by
    simp only [step]
    split <;> rfl
  have hcalls : (step settings s (.syncGet clock)).calls = s.calls := by
    simp only [step]
    split <;> rfl
  have hclearing : ∀ data ∈ (step settings s (.syncGet clock)).clearing,
      s.stored = some data := by
    intro data hdata
    cases hs : s.stored with
    | none =>
      simp only [step, hs] at hdata
      cases hdata
    | some doc =>
      simp only [step, hs] at hdata
      split_ifs at hdata
      · exact hdata
      · cases hdata
  have htracked : ∀ {α : Type} (f : Field α) {v : α}, f.Tracked settings v s →
      f.Tracked settings v (step settings s (.syncGet clock)) := fun f _ hf =>
    hf.read hstored haccepted (fun i call hcall => Or.inl ⟨i, by rwa [hcalls] at hcall⟩)
      (fun data hdata => Or.inr (hclearing data hdata))
  refine ⟨htracked _ h.running, htracked _ h.rate, htracked _ h.scenario,
    htracked _ h.attackRatio, ?_, (bursts_syncGet_iff h.bursts clock).mpr ha⟩
  rw [hcalls]
  exact h.calls

theorem last_syncSet {α : Type} (f : Field α) : f.last (step settings s .syncSet) =
    (f.ask {}).or (f.last s) := by
  have haccepted : (step settings s .syncSet).accepted = s.accepted := by
    simp only [step]
    split <;> rfl
  rw [f.ask_empty, Option.none_or, Field.last, Field.last, haccepted]

theorem get_syncSet {α : Type} (f : Field α) (data : Control) :
    f.get { data with burst := false } = (f.ask {}).getD (f.get data) := by
  rw [f.ask_empty, Option.getD_none, f.get_cleared]

theorem invariant_syncSet (h : Invariant settings base s) (ha : Allowed settings s .syncSet) :
    Invariant settings base (step settings s .syncSet) := by
  cases hclearing : s.clearing with
  | none => simpa only [step, hclearing] using h
  | some data =>
    have hstored : (step settings s .syncSet).stored = some { data with burst := false } := by
      simp only [step, hclearing]
    have hcleared : (step settings s .syncSet).clearing = none := by simp only [step, hclearing]
    have hcalls : (step settings s .syncSet).calls = s.calls := by simp only [step, hclearing]
    have hquiet := ha data hclearing
    have htracked : ∀ {α : Type} (f : Field α) {v : α}, f.Tracked settings v s →
        f.Undisturbed settings s {} data → f.Tracked settings v (step settings s .syncSet) :=
      fun f _ hf hq => hf.written (last_syncSet f) hstored (get_syncSet f data)
        (fun i call hcall => ⟨i, by rwa [hcalls] at hcall⟩)
        (fun data' hdata => by rw [hcleared] at hdata; cases hdata) hq
    refine ⟨htracked _ h.running hquiet.running, htracked _ h.rate hquiet.rate,
      htracked _ h.scenario hquiet.scenario, htracked _ h.attackRatio hquiet.attackRatio,
      by rw [hcalls]; exact h.calls, ?_⟩
    have hbursts := h.bursts
    rw [begun_settle, hclearing] at hbursts
    rw [begun_settle, outstanding, hstored]
    simpa [step, hclearing] using hbursts

theorem allowed_syncSet (h : Invariant settings base s)
    (hk : Kept settings (step settings s .syncSet)) : Allowed settings s .syncSet := by
  intro data hdata
  have hstored : (step settings s .syncSet).stored = some { data with burst := false } := by
    have hclearing : s.clearing = some data := hdata
    simp only [step, hclearing]
  have hquiet : ∀ {α : Type} (f : Field α) {v : α}, f.Tracked settings v s →
      f.Kept (step settings s .syncSet) → f.Undisturbed settings s {} data := fun f _ hf hkept =>
    hf.undisturbed (hf.clearing data hdata) (last_syncSet f) hstored (get_syncSet f data) hkept
  exact ⟨hquiet _ h.running hk.running, hquiet _ h.rate hk.rate, hquiet _ h.scenario hk.scenario,
    hquiet _ h.attackRatio hk.attackRatio⟩

theorem invariant_step (a : Act) (h : Invariant settings base s) (ha : Allowed settings s a) :
    Invariant settings base (step settings s a) := by
  cases a with
  | get i request actor clock => exact invariant_get h i request actor clock
  | set i clock => exact invariant_set h ha
  | syncGet clock => exact invariant_syncGet h ha
  | syncSet => exact invariant_syncSet h ha

theorem allowed_of_kept (a : Act) (h : Invariant settings base s)
    (hk : Kept settings (step settings s a)) : Allowed settings s a := by
  cases a with
  | get i request actor clock => trivial
  | set i clock => exact allowed_set h hk
  | syncGet clock => exact (bursts_syncGet_iff h.bursts clock).mp hk.bursts
  | syncSet => exact allowed_syncSet h hk

end

/-- Along every interleaving the document has the last value asked for in each field and
every burst asked for begins once, exactly as long as no SET writes back a field that has
changed since its GET and no burst is asked for, revoked or read again over another. -/
theorem control_kept_iff (settings : Settings) (stored : Option Control) (engine : Engine)
    (acts : List Act) :
    Run.Holds (step settings) (Kept settings) (start stored engine) acts ↔
      Run.Guarded (step settings) (Allowed settings) (start stored engine) acts :=
  Run.holds_iff_guarded (I := Invariant settings (current settings (start stored engine)))
    (fun _ h => h.kept) (fun _ a h ha => invariant_step a h ha)
    (fun _ a h hk => allowed_of_kept a h hk) (invariant_start settings stored engine) acts

/-- The simulator reads a burst, `stop` is stored, and clearing the flag brings `running`
back. -/
theorem stop_overwritten :
    let stored : Control := ⟨true, 50, "normal", 1 / 20, false, 0, "config"⟩
    let burst : Request := .configure { burst := some true }
    let acts : List Act := [.get 0 burst "analyst" 0, .set 0 0, .syncGet 0,
      .get 1 .stop "analyst" 1, .set 1 1, .syncSet]
    let s := Run.exec (step {}) (start (some stored) ⟨true, 50, "normal", 1 / 20, 0⟩) acts
    running.last s = some false ∧ s.stored.map Control.running = some true ∧
      ¬ Run.Holds (step {}) (Kept {}) (start (some stored) ⟨true, 50, "normal", 1 / 20, 0⟩)
        acts := by
  intro stored burst acts s
  have hlast : running.last s = some false := by decide +kernel
  have hrunning : s.stored.map Control.running = some true := by decide +kernel
  refine ⟨hlast, hrunning, fun h => ?_⟩
  have hkept := h.last.running false hlast
  exact absurd (hrunning.symm.trans hkept) (by decide)

end SiemEngine.SimulatorControl

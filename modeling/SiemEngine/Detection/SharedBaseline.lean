import Mathlib.Logic.Function.Basic
import SiemEngine.Detection.Anomaly
import SiemEngine.Lib.Run

/-!
# A baseline shared by several workers

`observe` reads the baseline of a metric with one Redis command and writes it back with
another. The workers share the key, so their commands interleave; a state keeps, beside
the baselines, what each worker has read and not yet written back. Which calls have
completed, in the order of their writes, and when the last write was, is recorded for the
statements only.
-/

namespace SiemEngine

def Baseline.stats (b : Baseline) : ℚ × ℚ × ℕ := (b.mean, b.var, b.n)

namespace StatisticalAnomalyDetector

variable {py : Python} {det : StatisticalAnomalyDetector} {metric : String}

def stored (bs : Baselines) (clock : Time) (metric : String) : Option Baseline :=
  match Dict.get? bs metric with
  | none => none
  | some b => if b.expiresAt < clock then none else some b

theorem baseline_eq_getD (bs : Baselines) (clock : Time) (metric : String) (value : ℚ) :
    baseline bs clock metric value = (stored bs clock metric).getD ⟨value, 0, 0, 0⟩ := by
  unfold baseline stored
  cases Dict.get? bs metric with
  | none => rfl
  | some b =>
    dsimp only
    split_ifs <;> rfl

theorem stored_of_expired {bs : Baselines} {clock : Time} {b : Baseline}
    (hb : Dict.get? bs metric = some b) (h : b.expiresAt < clock) :
    stored bs clock metric = none := by
  simp only [stored, hb, if_pos h]

theorem stored_of_alive {bs : Baselines} {clock : Time}
    (h : ∀ b, Dict.get? bs metric = some b → clock ≤ b.expiresAt) :
    stored bs clock metric = Dict.get? bs metric := by
  unfold stored
  cases hb : Dict.get? bs metric with
  | none => rfl
  | some b => exact if_neg (h b hb).not_gt

def entryCount (bs : Baselines) (metric : String) : ℕ :=
  ((Dict.get? bs metric).map Baseline.n).getD 0

theorem count_stored_le (bs : Baselines) (clock : Time) :
    ((stored bs clock metric).map Baseline.n).getD 0 ≤ entryCount bs metric := by
  unfold stored entryCount
  cases Dict.get? bs metric with
  | none => exact le_rfl
  | some b =>
    dsimp only
    split_ifs
    · exact Nat.zero_le _
    · exact le_rfl

theorem n_baseline (bs : Baselines) (clock : Time) (value : ℚ) :
    (baseline bs clock metric value).n = ((stored bs clock metric).map Baseline.n).getD 0 := by
  rw [baseline_eq_getD]
  cases stored bs clock metric <;> rfl

theorem stats_updated {b b' : Baseline} (h : b.stats = b'.stats) (clock clock' : Time)
    (value : ℚ) :
    (det.updated py b clock value).stats = (det.updated py b' clock' value).stats := by
  have hmean : b.mean = b'.mean := congrArg Prod.fst h
  have hvar : b.var = b'.var := congrArg (fun x => x.2.1) h
  have hn : b.n = b'.n := congrArg (fun x => x.2.2) h
  simp only [Baseline.stats, updated, hmean, hvar, hn]

end StatisticalAnomalyDetector

namespace SharedBaseline

open StatisticalAnomalyDetector

/-- What a worker has read, for which observation and when, and after how many writes. -/
structure Reading where
  read : Baseline
  value : ℚ
  clock : Time
  behind : ℕ

structure State where
  baselines : Baselines := []
  pending : ℕ → Option Reading := fun _ => none
  completed : List ℚ := []
  lastSet : Option Time := none

/-- The two commands of a worker's call; a worker that reads again has given up its call. -/
inductive Act
  | get (worker : ℕ) (clock : Time) (value : ℚ)
  | set (worker : ℕ) (clock : Time)

variable (py : Python) (det : StatisticalAnomalyDetector) (metric : String)

def step (s : State) : Act → State
  | .get w clock value =>
    let r : Reading :=
      ⟨baseline s.baselines clock metric value, value, clock, s.completed.length⟩
    { s with pending := Function.update s.pending w (some r) }
  | .set w clock => match s.pending w with
    | none => s
    | some r =>
      { baselines := Dict.set s.baselines metric (det.updated py r.read clock r.value)
        pending := Function.update s.pending w none
        completed := s.completed ++ [r.value]
        lastSet := some clock }

def run (acts : List Act) : State := Run.exec (step py det metric) {} acts

/-- A call whose commands are not separated is `observe`. -/
theorem step_set_get (s : State) (w : ℕ) (clock : Time) (value : ℚ) :
    (step py det metric (step py det metric s (.get w clock value)) (.set w clock)).baselines =
      (det.observe py clock s.baselines metric value).1 := by
  simp only [step, Function.update_self, observe]

/-- The calls one after the other, all within the time to live of the key. -/
def serial (values : List ℚ) : Baselines :=
  values.foldl (fun bs value => (det.observe py 0 bs metric value).1) []

/-- The stored count is the number of completed calls, and the stored mean and variance
are those of the calls in some order. -/
structure Faithful (s : State) (now : Time) : Prop where
  count : ((stored s.baselines now metric).map Baseline.n).getD 0 = s.completed.length
  serial : ∃ order : List ℚ, order.Perm s.completed ∧
    (stored s.baselines now metric).map (fun b => (b.mean, b.var)) =
      (stored (serial py det metric order) 0 metric).map fun b => (b.mean, b.var)

def Kept (s : State) (now : Time) : Prop := ∀ t, s.lastSet = some t → now ≤ t + weekInMicros

/-- A worker writes back while nobody has written since it read, and it read a key that
was still there. -/
def Undisturbed (s : State) : Act → Prop
  | .get _ _ _ => True
  | .set w _ => ∀ r, s.pending w = some r → r.behind = s.completed.length ∧ Kept s r.clock

section

variable {py det metric} {s : State}

/-- A reading counts no more observations than there were writes before it, and is still
what the key holds if no write has followed. -/
structure Reading.Sound (metric : String) (s : State) (r : Reading) : Prop where
  behind : r.behind ≤ s.completed.length
  read : r.read.n ≤ r.behind
  current : r.behind = s.completed.length →
    r.read = baseline s.baselines r.clock metric r.value

structure Consistent (metric : String) (s : State) : Prop where
  unwritten : s.lastSet = none → Dict.get? s.baselines metric = none ∧ s.completed = []
  written : ∀ t, s.lastSet = some t → s.completed ≠ [] ∧
    ∃ b, Dict.get? s.baselines metric = some b ∧ b.expiresAt = t + weekInMicros
  count : entryCount s.baselines metric ≤ s.completed.length
  pending : ∀ w r, s.pending w = some r → r.Sound metric s

theorem consistent_init : Consistent metric {} where
  unwritten _ := ⟨rfl, rfl⟩
  written _ h := by cases h
  count := le_rfl
  pending _ _ h := by cases h

theorem entryCount_set (bs : Baselines) (b : Baseline) :
    entryCount (Dict.set bs metric b) metric = b.n := by
  rw [entryCount, Dict.get?_set_self]
  rfl

theorem of_update_eq_some {pending : ℕ → Option Reading} {w v : ℕ} {x : Option Reading}
    {r : Reading} (h : Function.update pending w x v = some r) :
    x = some r ∨ pending v = some r := by
  by_cases hv : v = w
  · subst hv
    exact Or.inl ((Function.update_self v x pending).symm.trans h)
  · exact Or.inr ((Function.update_of_ne hv x pending).symm.trans h)

theorem consistent_step (s : State) (a : Act) (h : Consistent metric s) :
    Consistent metric (step py det metric s a) := by
  cases a with
  | get w clock value =>
    refine ⟨h.unwritten, h.written, h.count, fun v r hr => ?_⟩
    rcases of_update_eq_some hr with hnew | hold
    · cases hnew
      refine ⟨le_rfl, ?_, fun _ => rfl⟩
      rw [n_baseline]
      exact (count_stored_le s.baselines clock).trans h.count
    · obtain ⟨hbehind, hread, hcurrent⟩ := h.pending v r hold
      exact ⟨hbehind, hread, hcurrent⟩
  | set w clock =>
    simp only [step]
    cases hw : s.pending w with
    | none => exact h
    | some r =>
      obtain ⟨hbehind, hread, -⟩ := h.pending w r hw
      refine ⟨nofun, fun t hlast => ?_, ?_, fun v r' hr' => ?_⟩
      · cases hlast
        exact ⟨List.append_ne_nil_of_right_ne_nil _ (List.cons_ne_nil _ _), _,
          Dict.get?_set_self .., rfl⟩
      · rw [entryCount_set, List.length_append, List.length_singleton]
        exact Nat.succ_le_succ (hread.trans hbehind)
      · rcases of_update_eq_some hr' with hnew | hold
        · cases hnew
        · obtain ⟨hbehind', hread', -⟩ := h.pending v r' hold
          have hlen : (s.completed ++ [r.value]).length = s.completed.length + 1 :=
            List.length_append
          refine ⟨hlen ▸ hbehind'.trans (Nat.le_succ _), hread', fun heq => ?_⟩
          -- no earlier reading has seen the new write
          exact absurd (heq.trans hlen) (Nat.lt_succ_of_le hbehind').ne

theorem consistent_run (acts : List Act) : Consistent metric (run py det metric acts) :=
  (Run.holds_of_step consistent_step consistent_init acts).last

def Full (metric : String) (s : State) : Prop :=
  entryCount s.baselines metric = s.completed.length

theorem n_baseline_eq_iff (h : Consistent metric s) (clock : Time) (value : ℚ) :
    (baseline s.baselines clock metric value).n = s.completed.length ↔
      Full metric s ∧ Kept s clock := by
  rw [n_baseline]
  cases hlast : s.lastSet with
  | none =>
    obtain ⟨hget, hnil⟩ := h.unwritten hlast
    refine iff_of_true ?_ ⟨?_, fun t ht => by rw [hlast] at ht; cases ht⟩
    · simp only [stored, hget, hnil]
      rfl
    · simp only [Full, entryCount, hget, hnil]
      rfl
  | some t =>
    obtain ⟨hne, b, hget, hexp⟩ := h.written t hlast
    have hkept : Kept s clock ↔ clock ≤ b.expiresAt := by
      rw [hexp]
      refine ⟨fun hk => hk t hlast, fun hle u hu => ?_⟩
      cases hlast.symm.trans hu
      exact hle
    rw [hkept]
    by_cases halive : clock ≤ b.expiresAt
    · have hstored : stored s.baselines clock metric = Dict.get? s.baselines metric :=
        stored_of_alive fun b' hb' => by
          cases hget.symm.trans hb'
          exact halive
      rw [hstored]
      exact (and_iff_left halive).symm
    · rw [stored_of_expired hget (not_le.mp halive)]
      refine iff_of_false (fun hzero => hne ?_) fun hk => halive hk.2
      exact List.length_eq_zero_iff.mp hzero.symm

theorem full_step_iff (s : State) (a : Act) (h : Consistent metric s) :
    Full metric (step py det metric s a) ↔ Full metric s ∧ Undisturbed s a := by
  cases a with
  | get w clock value => exact (and_iff_left trivial).symm
  | set w clock =>
    cases hw : s.pending w with
    | none =>
      have hund : Undisturbed s (.set w clock) := fun r hr => by
        rw [hw] at hr
        cases hr
      have hstep : step py det metric s (.set w clock) = s := by simp only [step, hw]
      rw [hstep, and_iff_left hund]
    | some r =>
      obtain ⟨hbehind, hread, hcurrent⟩ := h.pending w r hw
      have hund : Undisturbed s (.set w clock) ↔
          r.behind = s.completed.length ∧ Kept s r.clock := by
        refine ⟨fun hu => hu r hw, fun hr r' hr' => ?_⟩
        cases hw.symm.trans hr'
        exact hr
      have hfull : Full metric (step py det metric s (.set w clock)) ↔
          r.read.n = s.completed.length := by
        simp only [Full, step, hw, entryCount_set, List.length_append, List.length_singleton]
        exact Nat.succ_inj
      rw [hfull, hund]
      constructor
      · intro hn
        have hsame : r.behind = s.completed.length := le_antisymm hbehind (hn ▸ hread)
        rw [hcurrent hsame] at hn
        obtain ⟨hf, hk⟩ := (n_baseline_eq_iff h r.clock r.value).mp hn
        exact ⟨hf, hsame, hk⟩
      · intro hall
        obtain ⟨hf, hsame, hk⟩ := hall
        rw [hcurrent hsame]
        exact (n_baseline_eq_iff h r.clock r.value).mpr ⟨hf, hk⟩

theorem serial_concat (values : List ℚ) (value : ℚ) :
    serial py det metric (values ++ [value]) =
      (det.observe py 0 (serial py det metric values) metric value).1 := by
  rw [serial, List.foldl_append]
  rfl

theorem stored_serial (values : List ℚ) :
    stored (serial py det metric values) 0 metric =
      Dict.get? (serial py det metric values) metric := by
  refine stored_of_alive fun b hb => ?_
  cases values using List.reverseRecOn with
  | nil => cases hb
  | append_singleton values value =>
    rw [serial_concat, observe, Dict.get?_set_self] at hb
    cases hb
    change 0 ≤ 0 + weekInMicros
    decide

/-- The entry is what the calls in the order of their writes leave. -/
def InOrder (py : Python) (det : StatisticalAnomalyDetector) (metric : String) (s : State) : Prop :=
  (Dict.get? s.baselines metric).map Baseline.stats =
    (Dict.get? (serial py det metric s.completed) metric).map Baseline.stats

theorem stored_of_kept (h : Consistent metric s) {now : Time} (hk : Kept s now) :
    stored s.baselines now metric = Dict.get? s.baselines metric := by
  refine stored_of_alive fun b hb => ?_
  cases hlast : s.lastSet with
  | none =>
    rw [(h.unwritten hlast).1] at hb
    cases hb
  | some t =>
    obtain ⟨-, b', hget, hexp⟩ := h.written t hlast
    cases hget.symm.trans hb
    rw [hexp]
    exact hk t hlast

theorem stats_getD {x y : Option Baseline} (h : x.map Baseline.stats = y.map Baseline.stats)
    (b : Baseline) : (x.getD b).stats = (y.getD b).stats := by
  cases x <;> cases y <;> simp_all

theorem inOrder_step (s : State) (a : Act) (h : Consistent metric s ∧ InOrder py det metric s)
    (ha : Undisturbed s a) : Consistent metric (step py det metric s a) ∧
      InOrder py det metric (step py det metric s a) := by
  obtain ⟨hc, ho⟩ := h
  refine ⟨consistent_step s a hc, ?_⟩
  cases a with
  | get w clock value => exact ho
  | set w clock =>
    simp only [step]
    cases hw : s.pending w with
    | none => exact ho
    | some r =>
      obtain ⟨hsame, hk⟩ := ha r hw
      simp only [InOrder]
      rw [serial_concat, observe, Dict.get?_set_self, Dict.get?_set_self, Option.map_some,
        Option.map_some, stats_updated]
      rw [(hc.pending w r hw).current hsame, baseline_eq_getD, baseline_eq_getD,
        stored_of_kept hc hk, stored_serial]
      exact stats_getD ho _

theorem inOrder_run {acts : List Act}
    (h : Run.Guarded (step py det metric) Undisturbed {} acts) :
    InOrder py det metric (run py det metric acts) :=
  (Run.holds_of_guarded (I := fun s => Consistent metric s ∧ InOrder py det metric s)
    inOrder_step ⟨consistent_init, rfl⟩ h).last.2

theorem map_meanVar {x y : Option Baseline} (h : x.map Baseline.stats = y.map Baseline.stats) :
    x.map (fun b => (b.mean, b.var)) = y.map fun b => (b.mean, b.var) := by
  have hcomp : (fun b : Baseline => (b.mean, b.var)) =
      (fun st : ℚ × ℚ × ℕ => (st.1, st.2.1)) ∘ Baseline.stats := rfl
  rw [hcomp, ← Option.map_map, ← Option.map_map, h]

/-- Whatever the interleaving, the stored baseline counts every completed call and is that
of some serial order exactly when no worker writes back after another has written since it
read, or after the key it read had expired, and the key is still there at the end. -/
theorem faithful_iff (py : Python) (det : StatisticalAnomalyDetector) (metric : String)
    (acts : List Act) (now : Time) :
    Faithful py det metric (run py det metric acts) now ↔
      Run.Guarded (step py det metric) Undisturbed {} acts ∧
        Kept (run py det metric acts) now := by
  have hc : Consistent metric (run py det metric acts) := consistent_run acts
  have hfull : Full metric (run py det metric acts) ↔
      Run.Guarded (step py det metric) Undisturbed {} acts :=
    (Run.last_iff_guarded consistent_step full_step_iff consistent_init acts).trans
      (and_iff_right rfl)
  have hcount := n_baseline_eq_iff hc now 0
  rw [n_baseline] at hcount
  rw [← hfull]
  refine ⟨fun h => hcount.mp h.count, fun h => ⟨hcount.mpr h, _, List.Perm.refl _, ?_⟩⟩
  rw [stored_of_kept hc h.2, stored_serial]
  exact map_meanVar (inOrder_run (hfull.mp h.1))

/-- Two workers read before either has written back. -/
theorem update_lost :
    let acts : List Act := [.get 0 0 5, .get 1 0 7, .set 0 0, .set 1 0]
    (run Python.ascii {} "events_per_min" acts).completed = [5, 7] ∧
      entryCount (run Python.ascii {} "events_per_min" acts).baselines "events_per_min" = 1 ∧
      ¬ Faithful Python.ascii {} "events_per_min"
        (run Python.ascii {} "events_per_min" acts) 0 := by
  intro acts
  refine ⟨by decide +kernel, by decide +kernel, fun h => ?_⟩
  exact absurd h.count (by decide +kernel)

end

end SharedBaseline

end SiemEngine

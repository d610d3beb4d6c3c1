import Mathlib.Data.List.DropRight
import SiemEngine.Lib.Run

/-!
# Recorded changes

A run changes a value that is read off its states, and a log of moves records the
changes. `changes` are the ones that happened, `Path` says that a list of moves leads from
one value to another by allowed moves, and `log_eq_changes` is the rule that a log kept
step by step is the record of the whole run.
-/

namespace Run

variable {σ α ν : Type*}

def Path (allowed : ν → ν → Prop) : ν → List (ν × ν) → ν → Prop
  | v, [], w => v = w
  | v, m :: ms, w => m.1 = v ∧ allowed v m.2 ∧ Path allowed m.2 ms w

theorem Path.concat {allowed : ν → ν → Prop} {u v w : ν} {ms : List (ν × ν)}
    (h : Path allowed u ms v) (hvw : allowed v w) : Path allowed u (ms ++ [(v, w)]) w := by
  induction ms generalizing u with
  | nil =>
    cases h
    exact ⟨rfl, hvw, rfl⟩
  | cons m ms ih =>
    obtain ⟨hm, hallowed, hrest⟩ := h
    exact ⟨hm, hallowed, ih hrest⟩

variable [DecidableEq ν]

/-- The move between two readings; a value that appears has not moved. -/
def move : Option ν → Option ν → List (ν × ν)
  | some v, some w => if v = w then [] else [(v, w)]
  | _, _ => []

@[simp] theorem move_self (v : Option ν) : move v v = [] := by
  cases v <;> simp [move]

theorem move_of_ne {v w : ν} (h : v ≠ w) : move (some v) (some w) = [(v, w)] := if_neg h

def changes (step : σ → α → σ) (view : σ → Option ν) : σ → List α → List (ν × ν)
  | _, [] => []
  | s, a :: as => move (view s) (view (step s a)) ++ changes step view (step s a) as

theorem log_eq_changes {step : σ → α → σ} {view : σ → Option ν} {log : σ → List (ν × ν)}
    (hstep : ∀ s a, log (step s a) = log s ++ move (view s) (view (step s a))) (s : σ)
    (as : List α) : log (exec step s as) = log s ++ changes step view s as := by
  induction as generalizing s with
  | nil => rw [changes, List.append_nil, exec_nil]
  | cons a as ih => rw [exec_cons, ih, hstep, changes, List.append_assoc]

theorem rtake_concat_rtake {μ : Type*} (n : ℕ) (xs : List μ) (x : μ) :
    (xs.rtake n ++ [x]).rtake n = (xs ++ [x]).rtake n := by
  cases n with
  | zero => rw [List.rtake_zero, List.rtake_zero]
  | succ n =>
    rw [List.rtake_concat_succ, List.rtake_concat_succ, List.rtake_eq_reverse_take_reverse,
      List.rtake_eq_reverse_take_reverse, List.rtake_eq_reverse_take_reverse, List.reverse_reverse,
      List.take_take, min_eq_left n.le_succ]

theorem map_rtake {μ ρ : Type*} (f : μ → ρ) (xs : List μ) (n : ℕ) :
    (xs.rtake n).map f = (xs.map f).rtake n := by
  rw [List.rtake, List.rtake, List.map_drop, List.length_map]

end Run

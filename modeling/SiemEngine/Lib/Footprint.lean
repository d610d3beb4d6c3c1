import Mathlib.Data.Set.Defs
import Mathlib.Logic.Function.Basic

/-!
# Parties on a shared keyed store

Several parties operate on one store, each on keys of its own. `LocalTo` says that an
operation changes no key outside a set and that what it returns and writes depends on the
set only. Where the sets of different parties are disjoint, a run of all parties is, for
each of them, the run of its own operations.
-/

namespace Footprint

variable {σ κ β ρ τ ι : Type*} (get : σ → κ → β)

def Agree (K : Set κ) (s t : σ) : Prop := ∀ k ∈ K, get s k = get t k

structure LocalTo (K : Set κ) (op : σ → σ × ρ) : Prop where
  frame : ∀ s k, k ∉ K → get (op s).1 k = get s k
  congr : ∀ s t, Agree get K s t → (op s).2 = (op t).2 ∧ Agree get K (op s).1 (op t).1

variable {get} {K L : Set κ} {op : σ → σ × ρ}

theorem Agree.refl (s : σ) : Agree get K s s := fun _ _ => rfl

theorem Agree.mono {s t : σ} (h : Agree get L s t) (hKL : ∀ k ∈ K, k ∈ L) : Agree get K s t :=
  fun k hk => h k (hKL k hk)

theorem localTo_const (K : Set κ) (r : ρ) : LocalTo get K fun s => (s, r) :=
  ⟨fun _ _ _ => rfl, fun _ _ h => ⟨rfl, h⟩⟩

theorem LocalTo.map (h : LocalTo get K op) (f : ρ → τ) :
    LocalTo get K fun s => ((op s).1, f (op s).2) :=
  ⟨h.frame, fun s t hst => ⟨congrArg f (h.congr s t hst).1, (h.congr s t hst).2⟩⟩

theorem LocalTo.of_map (h : LocalTo get K op) (f : ρ → τ) {op' : σ → σ × τ}
    (heq : ∀ s, op' s = ((op s).1, f (op s).2)) : LocalTo get K op' := by
  rw [funext heq]
  exact h.map f

theorem LocalTo.mono (h : LocalTo get K op) (hKL : ∀ k ∈ K, k ∈ L) : LocalTo get L op := by
  refine ⟨fun s k hk => h.frame s k fun hmem => hk (hKL k hmem), fun s t hst => ?_⟩
  obtain ⟨hres, hagree⟩ := h.congr s t (hst.mono hKL)
  refine ⟨hres, fun k hk => ?_⟩
  by_cases hmem : k ∈ K
  · exact hagree k hmem
  · rw [h.frame s k hmem, h.frame t k hmem, hst k hk]

def run (s : σ) : List (ι × (σ → σ × ρ)) → List (ι × ρ)
  | [] => []
  | io :: ops => (io.1, (io.2 s).2) :: run (io.2 s).1 ops

def final (s : σ) (ops : List (ι × (σ → σ × ρ))) : σ := ops.foldl (fun s io => (io.2 s).1) s

@[simp] theorem final_nil (s : σ) : final s ([] : List (ι × (σ → σ × ρ))) = s := rfl

@[simp] theorem final_cons (s : σ) (io : ι × (σ → σ × ρ)) (ops : List (ι × (σ → σ × ρ))) :
    final s (io :: ops) = final (io.2 s).1 ops := rfl

theorem mem_run {s : σ} {ops : List (ι × (σ → σ × ρ))} {ir : ι × ρ} (h : ir ∈ run s ops) :
    ∃ io ∈ ops, ∃ t, io.1 = ir.1 ∧ (io.2 t).2 = ir.2 := by
  induction ops generalizing s with
  | nil => exact absurd h List.not_mem_nil
  | cons io ops ih =>
    rcases List.mem_cons.mp h with rfl | h
    · exact ⟨io, List.mem_cons_self, s, rfl, rfl⟩
    · obtain ⟨jo, hjo, t, heq⟩ := ih h
      exact ⟨jo, List.mem_cons_of_mem _ hjo, t, heq⟩

section

variable [DecidableEq ι] {K : ι → Set κ} {ops : List (ι × (σ → σ × ρ))}

theorem agree_final_filter (hK : ∀ i j, i ≠ j → ∀ k ∈ K i, k ∉ K j)
    (hops : ∀ io ∈ ops, LocalTo get (K io.1) io.2) (i : ι) {s t : σ}
    (h : Agree get (K i) s t) :
    Agree get (K i) (final s ops) (final t (ops.filter fun io => io.1 = i)) := by
  induction ops generalizing s t with
  | nil => exact h
  | cons io ops ih =>
    obtain ⟨hio, hrest⟩ := List.forall_mem_cons.mp hops
    by_cases hi : io.1 = i
    · rw [List.filter_cons_of_pos (by simp [hi]), final_cons, final_cons]
      exact ih hrest (hi ▸ hio.congr s t (hi ▸ h)).2
    · rw [List.filter_cons_of_neg (by simp [hi]), final_cons]
      refine ih hrest fun k hk => ?_
      rw [hio.frame s k (hK i io.1 (Ne.symm hi) k hk), h k hk]

/-- No party notices the others: its results are those of its own operations run alone. -/
theorem run_filter (hK : ∀ i j, i ≠ j → ∀ k ∈ K i, k ∉ K j)
    (hops : ∀ io ∈ ops, LocalTo get (K io.1) io.2) (i : ι) {s t : σ}
    (h : Agree get (K i) s t) :
    (run s ops).filter (fun ir => ir.1 = i) = run t (ops.filter fun io => io.1 = i) := by
  induction ops generalizing s t with
  | nil => rfl
  | cons io ops ih =>
    obtain ⟨hio, hrest⟩ := List.forall_mem_cons.mp hops
    by_cases hi : io.1 = i
    · obtain ⟨hres, hagree⟩ := hio.congr s t (hi ▸ h)
      rw [run, List.filter_cons_of_pos (by simp [hi]), List.filter_cons_of_pos (by simp [hi]), run,
        hres, ih hrest (hi ▸ hagree)]
    · rw [run, List.filter_cons_of_neg (by simp [hi]), List.filter_cons_of_neg (by simp [hi])]
      refine ih hrest fun k hk => ?_
      rw [hio.frame s k (hK i io.1 (Ne.symm hi) k hk), h k hk]

end

end Footprint

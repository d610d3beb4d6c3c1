import Mathlib.Data.List.Basic

/-!
# Runs of a labelled step function

A system is a total step function on states; the label of a step fixes everything
the environment decides in it (a clock reading, a failure, a database choice), so a
run is a list of labels. `Holds` says that a property is true in every state a run
passes through, `Guarded` that every label of it was taken in a state that allowed it.
The rule `holds_iff_guarded` turns a one-step analysis in both directions into an
exact condition on whole runs.
-/

namespace Run

variable {σ α : Type*} (step : σ → α → σ)

def exec (s : σ) (as : List α) : σ := as.foldl step s

@[simp] theorem exec_nil (s : σ) : exec step s [] = s := rfl

@[simp] theorem exec_cons (s : σ) (a : α) (as : List α) :
    exec step s (a :: as) = exec step (step s a) as := rfl

theorem exec_append (s : σ) (as bs : List α) :
    exec step s (as ++ bs) = exec step (exec step s as) bs := by
  simp only [exec, List.foldl_append]

def Holds (Q : σ → Prop) : σ → List α → Prop
  | s, [] => Q s
  | s, a :: as => Q s ∧ Holds Q (step s a) as

def Guarded (G : σ → α → Prop) : σ → List α → Prop
  | _, [] => True
  | s, a :: as => G s a ∧ Guarded G (step s a) as

instance Guarded.decidable {G : σ → α → Prop} [∀ s a, Decidable (G s a)] :
    (s : σ) → (as : List α) → Decidable (Guarded step G s as)
  | _, [] => inferInstanceAs (Decidable True)
  | s, a :: as =>
    haveI := Guarded.decidable (G := G) (step s a) as
    inferInstanceAs (Decidable (G s a ∧ Guarded step G (step s a) as))

variable {step}

theorem Holds.head {Q : σ → Prop} {s : σ} {as : List α} (h : Holds step Q s as) : Q s := by
  cases as with
  | nil => exact h
  | cons a as => exact h.1

theorem Holds.mono {Q R : σ → Prop} (hQR : ∀ s, Q s → R s) {s : σ} {as : List α}
    (h : Holds step Q s as) : Holds step R s as := by
  induction as generalizing s with
  | nil => exact hQR s h
  | cons a as ih => exact ⟨hQR s h.1, ih h.2⟩

theorem holds_iff_prefix {Q : σ → Prop} {s : σ} {as : List α} :
    Holds step Q s as ↔ ∀ pre, pre <+: as → Q (exec step s pre) := by
  induction as generalizing s with
  | nil => simp [Holds]
  | cons a as ih =>
    constructor
    · intro h pre hpre
      obtain ⟨hs, hrest⟩ := h
      cases pre with
      | nil => exact hs
      | cons b pre =>
        obtain ⟨rfl, hp⟩ := List.cons_prefix_cons.mp hpre
        exact ih.mp hrest pre hp
    · intro h
      refine ⟨h [] List.nil_prefix, ih.mpr fun pre hpre => ?_⟩
      exact h (a :: pre) (List.cons_prefix_cons.mpr ⟨rfl, hpre⟩)

theorem Holds.last {Q : σ → Prop} {s : σ} {as : List α} (h : Holds step Q s as) :
    Q (exec step s as) :=
  holds_iff_prefix.mp h as (List.prefix_refl as)

/-- The invariant rule: what the first state satisfies and every allowed step
preserves is true all along a run of allowed steps. -/
theorem holds_of_guarded {I : σ → Prop} {G : σ → α → Prop}
    (hstep : ∀ s a, I s → G s a → I (step s a)) {s : σ} (hs : I s) {as : List α}
    (hg : Guarded step G s as) : Holds step I s as := by
  induction as generalizing s with
  | nil => exact hs
  | cons a as ih => exact ⟨hs, ih (hstep s a hs hg.1) hg.2⟩

theorem holds_of_step {I : σ → Prop} (hstep : ∀ s a, I s → I (step s a)) {s : σ} (hs : I s)
    (as : List α) : Holds step I s as := by
  induction as generalizing s with
  | nil => exact hs
  | cons a as ih => exact ⟨hs, ih (hstep s a hs)⟩

theorem guarded_of_forall {P : α → Prop} {as : List α} (h : ∀ a ∈ as, P a) {s : σ} :
    Guarded step (fun _ => P) s as := by
  induction as generalizing s with
  | nil => trivial
  | cons a as ih =>
    obtain ⟨ha, has⟩ := List.forall_mem_cons.mp h
    exact ⟨ha, ih has⟩

theorem Guarded.mono {G G' : σ → α → Prop} {s : σ} {as : List α} (h : Guarded step G s as)
    (hGG : ∀ s a, G s a → G' s a) : Guarded step G' s as := by
  induction as generalizing s with
  | nil => trivial
  | cons a as ih => exact ⟨hGG s a h.1, ih h.2⟩

theorem Guarded.and {G G' : σ → α → Prop} {s : σ} {as : List α} (h : Guarded step G s as)
    (h' : Guarded step G' s as) : Guarded step (fun s a => G s a ∧ G' s a) s as := by
  induction as generalizing s with
  | nil => trivial
  | cons a as ih => exact ⟨⟨h.1, h'.1⟩, ih h.2 h'.2⟩

theorem Guarded.append {G : σ → α → Prop} {s : σ} {as bs : List α} (h : Guarded step G s as)
    (h' : Guarded step G (exec step s as) bs) : Guarded step G s (as ++ bs) := by
  induction as generalizing s with
  | nil => exact h'
  | cons a as ih => exact ⟨h.1, ih h.2 h'⟩

/-- The exact-condition rule. `I` carries the argument, `Q` is what is claimed of every
state: if allowed steps keep `I`, and a step out of `I` that still satisfies `Q` must
have been allowed, then `Q` holds along a run exactly when all its steps were allowed. -/
theorem holds_iff_guarded {I Q : σ → Prop} {G : σ → α → Prop} (hIQ : ∀ s, I s → Q s)
    (hstep : ∀ s a, I s → G s a → I (step s a))
    (hback : ∀ s a, I s → Q (step s a) → G s a) {s : σ} (hs : I s) (as : List α) :
    Holds step Q s as ↔ Guarded step G s as := by
  refine ⟨fun h => ?_, fun h => (holds_of_guarded hstep hs h).mono hIQ⟩
  induction as generalizing s with
  | nil => trivial
  | cons a as ih =>
    have hg : G s a := hback s a hs h.2.head
    exact ⟨hg, ih (hstep s a hs hg) h.2⟩

/-- The rule for a property that, once lost, stays lost: under an invariant `J` of all
steps, a step ends with `Q` exactly when it was allowed and started with it. -/
theorem last_iff_guarded {J Q : σ → Prop} {G : σ → α → Prop} (hJ : ∀ s a, J s → J (step s a))
    (hQ : ∀ s a, J s → (Q (step s a) ↔ Q s ∧ G s a)) {s : σ} (hs : J s) (as : List α) :
    Q (exec step s as) ↔ Q s ∧ Guarded step G s as := by
  induction as generalizing s with
  | nil => simp [Guarded]
  | cons a as ih => rw [exec_cons, ih (hJ s a hs), hQ s a hs, and_assoc, Guarded]

/-- The rule for a breach that only shows later: a step that is not allowed leads to a state
in `D`, runs stay in `D`, and they cannot end there. -/
theorem guarded_and_last_iff {I D F : σ → Prop} {G H : σ → α → Prop}
    (hkeep : ∀ s a, I s → G s a → H s a ∧ I (step s a)) (hend : ∀ s, I s → F s)
    (hbreach : ∀ s a, I s → H s a → ¬ G s a → D (step s a))
    (hstay : ∀ s a, D s → H s a → D (step s a)) (hlost : ∀ s, D s → ¬ F s)
    {s : σ} (hs : I s) (as : List α) :
    Guarded step H s as ∧ F (exec step s as) ↔ Guarded step G s as := by
  induction as generalizing s with
  | nil => exact iff_of_true ⟨trivial, hend s hs⟩ trivial
  | cons a as ih =>
    constructor
    · intro h
      obtain ⟨⟨ha, has⟩, hlast⟩ := h
      have hg : G s a := by
        by_contra hg
        exact hlost _ (holds_of_guarded hstay (hbreach s a hs ha hg) has).last hlast
      exact ⟨hg, (ih (hkeep s a hs hg).2).mp ⟨has, hlast⟩⟩
    · intro h
      obtain ⟨hg, hrest⟩ := h
      obtain ⟨ha, hI⟩ := hkeep s a hs hg
      obtain ⟨has, hlast⟩ := (ih hI).mpr hrest
      exact ⟨⟨ha, has⟩, hlast⟩

/-- The rule of forward simulation: when each step is matched by some steps of a second
system, every state of a run is matched by a state that the second system reaches. -/
theorem holds_of_simulates {τ β : Type*} {step' : τ → β → τ} {R : σ → τ → Prop}
    (hsim : ∀ s t a, R s t → ∃ bs, R (step s a) (exec step' t bs)) {s : σ} {t : τ} (hst : R s t)
    (as : List α) : Holds step (fun s => ∃ bs, R s (exec step' t bs)) s as := by
  refine holds_of_step (fun s a h => ?_) ⟨[], hst⟩ as
  obtain ⟨bs, hR⟩ := h
  obtain ⟨cs, hR⟩ := hsim s _ a hR
  exact ⟨bs ++ cs, by rwa [exec_append]⟩

section

variable {τ : Type*} {step' : τ → α → τ} {π : τ → σ}

theorem exec_map (hπ : ∀ r a, π (step' r a) = step (π r) a) (r : τ) (as : List α) :
    π (exec step' r as) = exec step (π r) as := by
  induction as generalizing r with
  | nil => rfl
  | cons a as ih => rw [exec_cons, exec_cons, ih, hπ]

theorem guarded_map_iff (hπ : ∀ r a, π (step' r a) = step (π r) a) {G : σ → α → Prop} (r : τ)
    (as : List α) : Guarded step' (fun r a => G (π r) a) r as ↔ Guarded step G (π r) as := by
  induction as generalizing r with
  | nil => exact Iff.rfl
  | cons a as ih => rw [Guarded, Guarded, ih, hπ]

end

end Run

import SiemEngine.Lib.Binary64
import SiemEngine.Lib.Run

/-!
# Simulator engine

Scenarios put their events on the attack queue; a tick hands queued events, and normal ones
when the queue is empty, to the producer until its budget is spent or a send raises. What was
enqueued and which attack events the producer took is recorded for the statements only.
-/

namespace SiemEngine.SimulatorEngine

def scenarios : List String :=
  ["ssh_brute_force", "port_scan", "credential_attack", "privilege_escalation",
    "data_exfiltration", "sql_attack", "web_attack"]

variable {ε : Type*}

structure State (ε : Type*) where
  attackQueue : List ε := []
  sentTotal : ℕ := 0
  sentAttack : ℕ := 0
  scenarioRuns : ℕ := 0
  enqueued : List ε := []
  handed : List ε := []

structure Stats where
  sentTotal : ℕ
  sentAttackEvents : ℕ
  scenarioRuns : ℕ
  effectiveEps : ℚ
  queueDepth : ℕ
  uptimeSeconds : ℚ

def State.stats (s : State ε) (sinceStart : ℚ) : Stats :=
  let elapsed := max sinceStart (Binary64.nearest (1 / 1000000))
  { sentTotal := s.sentTotal
    sentAttackEvents := s.sentAttack
    scenarioRuns := s.scenarioRuns
    effectiveEps := Binary64.roundTo 2 (Binary64.div s.sentTotal elapsed)
    queueDepth := s.attackQueue.length
    uptimeSeconds := Binary64.roundTo 1 elapsed }

/-- `events` is what the generator of the scenario makes. -/
def enqueueScenario (name : String) (events : List ε) (s : State ε) : State ε :=
  if name ∈ scenarios then
    { s with
      attackQueue := s.attackQueue ++ events
      scenarioRuns := s.scenarioRuns + 1
      enqueued := s.enqueued ++ events }
  else s

/-- One round of `_emit_tick`; whether its send raised. -/
def emit (fails : Bool) (s : State ε) : State ε × Bool :=
  match s.attackQueue with
  | event :: rest =>
    let taken := { s with attackQueue := rest, sentAttack := s.sentAttack + 1 }
    if fails then (taken, true)
    else ({ taken with sentTotal := s.sentTotal + 1, handed := s.handed ++ [event] }, false)
  | [] => if fails then (s, true) else ({ s with sentTotal := s.sentTotal + 1 }, false)

/-- The rounds of a tick; `fails i` says that the send of round `i` raises. -/
def emitRounds : ℕ → (fails : ℕ → Bool) → State ε → State ε
  | 0, _, s => s
  | budget + 1, fails, s =>
    let out := emit (fails 0) s
    if out.2 then out.1 else emitRounds budget (fun i => fails (i + 1)) out.1

/-- `range(budget)` is empty for a negative budget. -/
def emitTick (budget : ℤ) (fails : ℕ → Bool) (s : State ε) : State ε :=
  emitRounds budget.toNat fails s

inductive Act (ε : Type*)
  | enqueue (name : String) (events : List ε)
  | tick (budget : ℤ) (fails : ℕ → Bool)

def step (s : State ε) : Act ε → State ε
  | .enqueue name events => enqueueScenario name events s
  | .tick budget fails => emitTick budget fails s

/-- No attack event is lost, the producer gets them in order, and the statistics count what
it got. -/
structure Conserved (s : State ε) : Prop where
  conserved : s.enqueued.length = s.handed.length + s.attackQueue.length
  counted : ∀ sinceStart, (s.stats sinceStart).sentAttackEvents = s.handed.length
  ordered : s.handed.Sublist s.enqueued
  bounded : ∀ sinceStart, (s.stats sinceStart).sentAttackEvents ≤ (s.stats sinceStart).sentTotal

def Delivered (s : State ε) : Act ε → Prop
  | .enqueue _ _ => True
  | .tick budget fails => ∀ i : ℕ, i < budget → i < s.attackQueue.length → fails i = false

/-- What holds after every sequence of calls: the attack counter counts what left the queue,
and what the producer got, followed by the queue, keeps the order. -/
structure Taken (s : State ε) : Prop where
  counted : s.enqueued.length = s.sentAttack + s.attackQueue.length
  ordered : (s.handed ++ s.attackQueue).Sublist s.enqueued

theorem emit_cases (fails : Bool) (s : State ε) :
    (s.attackQueue = [] ∧ emit fails s =
      ({ s with sentTotal := s.sentTotal + if fails then 0 else 1 }, fails)) ∨
    ∃ event rest, s.attackQueue = event :: rest ∧ emit fails s =
      ({ s with
        attackQueue := rest
        sentAttack := s.sentAttack + 1
        sentTotal := s.sentTotal + if fails then 0 else 1
        handed := s.handed ++ if fails then [] else [event] }, fails) := by
  unfold emit
  split
  · rename_i event rest hqueue
    refine Or.inr ⟨event, rest, hqueue, ?_⟩
    cases fails <;> simp
  · rename_i hqueue
    refine Or.inl ⟨hqueue, ?_⟩
    cases fails <;> simp

theorem taken_emit {s : State ε} (h : Taken s) (fails : Bool) : Taken (emit fails s).1 := by
  rcases emit_cases fails s with ⟨hqueue, hemit⟩ | ⟨event, rest, hqueue, hemit⟩
  · rw [hemit]
    exact ⟨h.counted, h.ordered⟩
  · have hcounted := h.counted
    have hordered := h.ordered
    rw [hqueue] at hcounted hordered
    rw [List.length_cons] at hcounted
    rw [hemit]
    refine ⟨by dsimp only; omega, ?_⟩
    cases fails with
    | true =>
      -- the event that was lost is missing between the two parts
      have hsub : (s.handed ++ rest).Sublist (s.handed ++ event :: rest) :=
        (List.Sublist.refl s.handed).append (List.sublist_cons_self event rest)
      simpa using hsub.trans hordered
    | false => simpa using hordered

theorem taken_emitRounds {s : State ε} (h : Taken s) (budget : ℕ) (fails : ℕ → Bool) :
    Taken (emitRounds budget fails s) := by
  induction budget generalizing fails s with
  | zero => exact h
  | succ budget ih =>
    have hemit := taken_emit h (fails 0)
    simp only [emitRounds]
    split_ifs
    · exact hemit
    · exact ih hemit _

theorem taken_step {s : State ε} (h : Taken s) (a : Act ε) : Taken (step s a) := by
  cases a with
  | tick budget fails => exact taken_emitRounds h budget.toNat fails
  | enqueue name events =>
    simp only [step, enqueueScenario]
    split_ifs
    · refine ⟨?_, ?_⟩
      · have hcounted := h.counted
        simp only [List.length_append]
        omega
      · rw [← List.append_assoc]
        exact h.ordered.append_right events
    · exact h

theorem taken_init : Taken ({} : State ε) := ⟨rfl, List.Sublist.refl []⟩

/-- Whatever raises, the counter of attack events counts what was taken from the queue, and
those the producer got are in enqueue order. -/
theorem taken_run (acts : List (Act ε)) : Run.Holds step Taken {} acts :=
  Run.holds_of_step (I := Taken) (fun _ a h => taken_step h a) taken_init acts

theorem conserved_iff {s : State ε} (h : Taken s) :
    Conserved s ↔ s.sentAttack = s.handed.length ∧ s.sentAttack ≤ s.sentTotal := by
  constructor
  · intro hs
    exact ⟨hs.counted 0, hs.bounded 0⟩
  · intro hs
    obtain ⟨hcounted, hbounded⟩ := hs
    have hordered : s.handed.Sublist s.enqueued :=
      (List.sublist_append_left s.handed s.attackQueue).trans h.ordered
    exact ⟨hcounted ▸ h.counted, fun _ => hcounted, hordered, fun _ => hbounded⟩

theorem counted_of_delivered {s : State ε} {budget : ℕ} {fails : ℕ → Bool}
    (hdelivered : ∀ i < budget, i < s.attackQueue.length → fails i = false)
    (h : s.sentAttack = s.handed.length ∧ s.sentAttack ≤ s.sentTotal) :
    (emitRounds budget fails s).sentAttack = (emitRounds budget fails s).handed.length ∧
      (emitRounds budget fails s).sentAttack ≤ (emitRounds budget fails s).sentTotal := by
  induction budget generalizing s fails with
  | zero => exact h
  | succ budget ih =>
    obtain ⟨hcounted, hbounded⟩ := h
    simp only [emitRounds]
    rcases emit_cases (fails 0) s with ⟨hqueue, hemit⟩ | ⟨event, rest, hqueue, hemit⟩
    · rw [hemit]
      split_ifs
      · exact ⟨hcounted, hbounded.trans (Nat.le_add_right _ _)⟩
      · refine ih ?_ ⟨hcounted, hbounded.trans (Nat.le_add_right _ _)⟩
        intro i _ hi
        rw [hqueue] at hi
        exact absurd hi (Nat.not_lt_zero i)
    · have hfirst : fails 0 = false := by
        apply hdelivered 0 (Nat.succ_pos budget)
        rw [hqueue]
        exact Nat.succ_pos rest.length
      rw [hemit, hfirst]
      refine ih ?_ ⟨?_, Nat.succ_le_succ hbounded⟩
      · intro i hi hrest
        apply hdelivered (i + 1) (Nat.succ_lt_succ hi)
        rw [hqueue]
        exact Nat.succ_lt_succ hrest
      · simp [hcounted]

theorem lost_of_fails {s : State ε} (budget : ℕ) {i : ℕ} {fails : ℕ → Bool} (hi : i < budget)
    (hqueued : i < s.attackQueue.length) (hfails : fails i = true)
    (h : s.handed.length ≤ s.sentAttack) :
    (emitRounds budget fails s).handed.length < (emitRounds budget fails s).sentAttack := by
  induction budget generalizing s fails i with
  | zero => exact absurd hi (Nat.not_lt_zero i)
  | succ budget ih =>
    simp only [emitRounds]
    rcases emit_cases (fails 0) s with ⟨hqueue, -⟩ | ⟨event, rest, hqueue, hemit⟩
    · rw [hqueue] at hqueued
      exact absurd hqueued (Nat.not_lt_zero i)
    · rw [hemit]
      cases hfirst : fails 0 with
      | true => simpa using Nat.lt_succ_of_le h
      | false =>
        cases i with
        | zero => rw [hfirst] at hfails; cases hfails
        | succ i =>
          rw [hqueue] at hqueued
          refine ih (Nat.lt_of_succ_lt_succ hi) (Nat.lt_of_succ_lt_succ hqueued) hfails ?_
          simpa using h

theorem conserved_step {s : State ε} (a : Act ε) (hI : Taken s ∧ Conserved s)
    (hg : Delivered s a) : Taken (step s a) ∧ Conserved (step s a) := by
  obtain ⟨htaken, hs⟩ := hI
  have htaken' := taken_step htaken a
  refine ⟨htaken', (conserved_iff htaken').mpr ?_⟩
  have hs := (conserved_iff htaken).mp hs
  cases a with
  | tick budget fails => exact counted_of_delivered (fun i hi => hg i (by omega)) hs
  | enqueue name events =>
    simp only [step, enqueueScenario]
    split_ifs <;> exact hs

theorem delivered_of_conserved {s : State ε} (a : Act ε) (hI : Taken s ∧ Conserved s)
    (h : Conserved (step s a)) : Delivered s a := by
  cases a with
  | enqueue name events => trivial
  | tick budget fails =>
    intro i hi hqueued
    by_contra hfails
    have hle : s.handed.length ≤ s.sentAttack := (hI.2.counted 0).ge
    have hlost := lost_of_fails budget.toNat (by omega) hqueued
      (Bool.not_eq_false _ ▸ hfails) hle
    exact absurd (h.counted 0) (ne_of_gt hlost)

/-- No attack event is lost exactly when no send of one raises. -/
theorem conserved_iff_delivered (acts : List (Act ε)) :
    Run.Holds step Conserved {} acts ↔ Run.Guarded step Delivered {} acts := by
  have hinit : Taken ({} : State ε) ∧ Conserved ({} : State ε) :=
    ⟨taken_init, (conserved_iff taken_init).mpr ⟨rfl, le_rfl⟩⟩
  exact Run.holds_iff_guarded (I := fun s => Taken s ∧ Conserved s) (fun _ hI => hI.2)
    (fun _ a => conserved_step a) (fun _ a => delivered_of_conserved a) hinit acts

/-- The only event of a scenario is taken from the queue and counted, then its send raises. -/
theorem failed_send_loses_event : ¬ Run.Holds step Conserved ({} : State ℕ)
    [.enqueue "port_scan" [0], .tick 1 fun _ => true] := by
  intro h
  exact absurd h.last.conserved (by decide)

end SiemEngine.SimulatorEngine

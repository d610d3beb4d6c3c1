import SiemEngine.Lib.Run
import SiemEngine.Streaming.Pipeline

/-!
# Deduplication across workers

The workers share the seen-set and the windows. A worker checks a whole batch against the
seen-set in one round trip, adds the fresh ids in a second one and evaluates the events
afterwards, one by one; the steps of different workers interleave.
-/

namespace SiemEngine.Dedup

open Pipeline (ids validate fresh detect detected)

inductive Worker
  | idle
  | checked (events : List (Arrival × SecurityEvent))
  | marked (events : List (Arrival × SecurityEvent))

def Worker.waiting : Worker → List UUID
  | .marked events => ids events
  | .idle | .checked _ => []

/-- `evaluated` are the ids passed to `DetectionEngine.evaluate` while in the seen-set,
since it was last emptied. -/
structure State where
  seen : Finset UUID
  windows : Windows
  workers : ℕ → Worker := fun _ => .idle
  evaluated : List UUID := []

inductive Act
  | check (w : ℕ) (batch : List Arrival)
  | mark (w : ℕ)
  | evaluate (w : ℕ)
  | fail (w : ℕ)
  | expire

namespace State

variable (cfg : Config) (st : State)

def set (w : ℕ) (worker : Worker) : State :=
  { st with workers := Function.update st.workers w worker }

def check (w : ℕ) (batch : List Arrival) : State :=
  match st.workers w with
  | .idle => st.set w (.checked (fresh st.seen (validate cfg.py batch)))
  | .checked _ | .marked _ => st

def mark (w : ℕ) : State :=
  match st.workers w with
  | .checked events => { st.set w (.marked events) with seen := st.seen ∪ (ids events).toFinset }
  | .idle | .marked _ => st

def evaluate (w : ℕ) : State :=
  match st.workers w with
  | .marked (av :: rest) =>
    { st.set w (.marked rest) with
      windows := (cfg.engine.evaluate cfg.py av.1.ticks av.2 st.windows).1
      evaluated := if av.2.eventId ∈ st.seen then st.evaluated ++ [av.2.eventId] else st.evaluated }
  | .marked [] => st.set w .idle
  | .idle | .checked _ => st

end State

def step (cfg : Config) (st : State) : Act → State
  | .check w batch => st.check cfg w batch
  | .mark w => st.mark w
  | .evaluate w => st.evaluate cfg w
  | .fail w => st.set w .idle
  | .expire => { st with seen := ∅, evaluated := [] }

theorem windows_detect (cfg : Config) (ws : Windows) (events : List (Arrival × SecurityEvent)) :
    (detect cfg ws events).1 =
      events.foldl (fun ws av => (cfg.engine.evaluate cfg.py av.1.ticks av.2 ws).1) ws :=
  (List.foldl_hom Prod.fst fun _ _ => rfl).symm

theorem exec_evaluate (cfg : Config) (w : ℕ) (events : List (Arrival × SecurityEvent)) (st : State)
    (hw : st.workers w = .marked events) (hseen : ∀ id ∈ ids events, id ∈ st.seen) :
    let st' := Run.exec (step cfg) st (List.replicate events.length (.evaluate w))
    st'.seen = st.seen ∧ st'.windows = (detect cfg st.windows events).1 ∧
      st'.evaluated = st.evaluated ++ ids events := by
  induction events generalizing st with
  | nil => exact ⟨rfl, rfl, (List.append_nil _).symm⟩
  | cons av rest ih =>
    have hmem : av.2.eventId ∈ st.seen := hseen _ List.mem_cons_self
    have hnext : (st.evaluate cfg w).workers w = .marked rest := by
      simp [State.evaluate, hw, State.set]
    obtain ⟨hs, hws, hev⟩ := ih (st.evaluate cfg w) hnext (fun id hid => by
      simpa [State.evaluate, hw, State.set] using hseen id (List.mem_cons_of_mem _ hid))
    rw [List.length_cons, List.replicate_succ, Run.exec_cons]
    refine ⟨hs.trans (by simp [State.evaluate, hw, State.set]), hws.trans ?_, hev.trans ?_⟩
    · rw [windows_detect, windows_detect, List.foldl_cons]
      simp only [State.evaluate, hw]
    · simp [State.evaluate, hw, hmem, ids]

/-- The steps of one batch, taken without interruption, are those of `process_batch`. -/
theorem exec_batch (cfg : Config) (s : Pipeline) (w : ℕ) (batch : List Arrival) :
    let events := fresh s.seen (validate cfg.py batch)
    let st := Run.exec (step cfg) ⟨s.seen, s.windows, fun _ => .idle, []⟩
      (.check w batch :: .mark w :: List.replicate events.length (.evaluate w))
    st.seen = (detected cfg s events).seen ∧ st.windows = (detected cfg s events).windows ∧
      st.evaluated = ids events := by
  intro events st
  let marked : State := ⟨s.seen ∪ (ids events).toFinset, s.windows,
    Function.update (fun _ => .idle) w (.marked events), []⟩
  have hmarked : step cfg (step cfg ⟨s.seen, s.windows, fun _ => .idle, []⟩ (.check w batch))
      (.mark w) = marked := by
    simp [step, State.check, State.mark, State.set, events, marked]
  have hrun := exec_evaluate cfg w events marked
    (Function.update_self w (Worker.marked events) fun _ => Worker.idle)
    (fun id hid => Finset.mem_union_right _ (List.mem_toFinset.mpr hid))
  simp only [st, Run.exec_cons, hmarked]
  exact hrun

def AtMostOnce (st : State) : Prop := st.evaluated.Nodup

instance : DecidablePred AtMostOnce := fun st => inferInstanceAs (Decidable st.evaluated.Nodup)

/-- When a worker adds its ids to the seen-set they are pairwise different, and none of
them was evaluated since the set was last emptied or is still to be evaluated by a worker. -/
def MarksUnclaimed (st : State) : Act → Prop
  | .mark w => ∀ events, st.workers w = .checked events → (ids events).Nodup ∧
    ∀ id ∈ ids events, id ∉ st.evaluated ∧ ∀ w', id ∉ (st.workers w').waiting
  | _ => True

structure Invariant (st : State) : Prop where
  evaluated : st.evaluated.Nodup
  waiting : ∀ w, (st.workers w).waiting.Nodup
  unevaluated : ∀ w, ∀ id ∈ (st.workers w).waiting, id ∉ st.evaluated
  exclusive : ∀ w w', w ≠ w' → ∀ id ∈ (st.workers w).waiting, id ∉ (st.workers w').waiting

section

variable {st : State} {w : ℕ}

theorem waiting_set (worker : Worker) (w' : ℕ) : ((st.set w worker).workers w').waiting =
    if w' = w then worker.waiting else (st.workers w').waiting := by
  simp only [State.set, Function.update_apply]
  split_ifs <;> rfl

theorem invariant_set (hI : Invariant st) {worker : Worker} (hnodup : worker.waiting.Nodup)
    (hfree : ∀ id ∈ worker.waiting,
      id ∉ st.evaluated ∧ ∀ w', w' ≠ w → id ∉ (st.workers w').waiting) :
    Invariant (st.set w worker) where
  evaluated := hI.evaluated
  waiting w' := by
    rw [waiting_set]
    split_ifs
    · exact hnodup
    · exact hI.waiting w'
  unevaluated w' id := by
    rw [waiting_set]
    split_ifs
    · exact fun hid => (hfree id hid).1
    · exact hI.unevaluated w' id
  exclusive w₁ w₂ hne id := by
    rw [waiting_set, waiting_set]
    split_ifs with h₁ h₂ h₂
    · exact absurd (h₁.trans h₂.symm) hne
    · exact fun hid => (hfree id hid).2 w₂ h₂
    · exact fun hid hid' => (hfree id hid').2 w₁ h₁ hid
    · exact hI.exclusive w₁ w₂ hne id

theorem invariant_mark (hI : Invariant st) (hg : MarksUnclaimed st (.mark w)) :
    Invariant (st.mark w) := by
  unfold State.mark
  split
  · rename_i events hw
    obtain ⟨hnodup, hfree⟩ := hg events hw
    have hset : Invariant (st.set w (.marked events)) :=
      invariant_set hI hnodup fun id hid => ⟨(hfree id hid).1, fun w' _ => (hfree id hid).2 w'⟩
    exact ⟨hset.evaluated, hset.waiting, hset.unevaluated, hset.exclusive⟩
  · exact hI
  · exact hI

theorem invariant_evaluate (cfg : Config) (hI : Invariant st) :
    Invariant (st.evaluate cfg w) := by
  unfold State.evaluate
  split
  · rename_i av rest hw
    have hwaiting : (st.workers w).waiting = av.2.eventId :: ids rest := by
      rw [hw]
      rfl
    have hnodup := hI.waiting w
    have hun := hI.unevaluated w
    have hex := hI.exclusive w
    rw [hwaiting] at hnodup hun hex
    obtain ⟨hhead, hrest⟩ := List.nodup_cons.mp hnodup
    have hset : Invariant (st.set w (.marked rest)) := invariant_set hI hrest fun id hid =>
      ⟨hun id (List.mem_cons_of_mem _ hid),
        fun w' hne => hex w' hne.symm id (List.mem_cons_of_mem _ hid)⟩
    refine ⟨?_, hset.waiting, fun w' id hid => ?_, hset.exclusive⟩
    · dsimp only
      split_ifs
      · rw [← List.concat_eq_append]
        exact hI.evaluated.concat (hun _ List.mem_cons_self)
      · exact hI.evaluated
    · have hne : id ≠ av.2.eventId := by
        intro h
        obtain rfl := h
        rw [waiting_set] at hid
        split_ifs at hid with h
        · exact hhead hid
        · exact hex w' (Ne.symm h) _ List.mem_cons_self hid
      have hnot := hset.unevaluated w' id hid
      dsimp only
      split_ifs
      · rw [List.mem_append, List.mem_singleton, not_or]
        exact ⟨hnot, hne⟩
      · exact hnot
  · exact invariant_set hI List.nodup_nil fun id hid => absurd hid List.not_mem_nil
  · exact hI
  · exact hI

theorem invariant_step (cfg : Config) (a : Act) (hI : Invariant st) (hg : MarksUnclaimed st a) :
    Invariant (step cfg st a) := by
  have hidle (worker : Worker) (h : worker.waiting = []) (w : ℕ) : Invariant (st.set w worker) :=
    invariant_set hI (h ▸ List.nodup_nil) fun id hid => absurd (h ▸ hid) List.not_mem_nil
  cases a with
  | check w batch =>
    simp only [step, State.check]
    split
    · exact hidle _ rfl w
    · exact hI
    · exact hI
  | mark w => exact invariant_mark hI hg
  | evaluate w => exact invariant_evaluate cfg hI
  | fail w => exact hidle _ rfl w
  | expire =>
    exact ⟨List.nodup_nil, hI.waiting, fun _ _ _ => List.not_mem_nil, hI.exclusive⟩

end

def start (s : Pipeline) : State := ⟨s.seen, s.windows, fun _ => .idle, []⟩

/-- No id is evaluated twice while it stays in the seen-set, along any interleaving in
which the workers add only unclaimed ids. -/
theorem evaluated_at_most_once (cfg : Config) (s : Pipeline) (as : List Act)
    (h : Run.Guarded (step cfg) MarksUnclaimed (start s) as) :
    Run.Holds (step cfg) AtMostOnce (start s) as := by
  have hstart : Invariant (start s) :=
    ⟨List.nodup_nil, fun _ => List.nodup_nil, fun _ _ h => absurd h List.not_mem_nil,
      fun _ _ _ _ h => absurd h List.not_mem_nil⟩
  exact (Run.holds_of_guarded (fun _ a hI hg => invariant_step cfg a hI hg) hstart h).mono
    fun _ hI => hI.evaluated

def requests (eventIds : List String) : List Arrival :=
  eventIds.map fun eventId =>
    ⟨Pipeline.requestOf eventId, someReadings, fun _ => ⟨0, "", 0⟩⟩

theorem evaluated_at_most_once_two_workers : Run.Holds (step { py := Python.ascii }) AtMostOnce
    (start (Pipeline.init 0)) [.check 0 (requests ["request-1"]), .check 1 (requests ["request-2"]),
      .mark 1, .mark 0, .evaluate 0, .evaluate 1] := by
  have hdisjoint : ((ids (fresh ∅ (validate Python.ascii (requests ["request-1"])))).all fun id =>
      decide (id ∉ ids (fresh ∅ (validate Python.ascii (requests ["request-2"]))))) = true := by
    decide +kernel
  refine evaluated_at_most_once { py := Python.ascii } (Pipeline.init 0) _
    ⟨trivial, trivial, ?_, ?_, trivial, trivial, trivial⟩
  · intro events h
    cases h
    refine ⟨by decide +kernel, fun id _ => ⟨List.not_mem_nil, fun w' => ?_⟩⟩
    rcases w' with _ | _ | w' <;> exact List.not_mem_nil
  · intro events h
    cases h
    refine ⟨by decide +kernel, fun id hid => ⟨List.not_mem_nil, fun w' => ?_⟩⟩
    rcases w' with _ | _ | w'
    · exact List.not_mem_nil
    · exact of_decide_eq_true (List.all_eq_true.mp hdisjoint id hid)
    · exact List.not_mem_nil

/-- One id twice in a batch is evaluated twice. -/
theorem duplicate_evaluated_twice : ¬ Run.Holds (step { py := Python.ascii }) AtMostOnce
    (start (Pipeline.init 0)) [.check 0 (requests ["request-1", "request-1"]), .mark 0,
      .evaluate 0, .evaluate 0] := by
  intro h
  exact absurd h.last (by decide +kernel)

end SiemEngine.Dedup

import SiemEngine.Detection.Ml
import SiemEngine.Streaming.Pipeline

/-!
# The pipeline with its ML layer

`Pipeline` takes the forest's verdict as a function of the minutes so far. The code has a
detector with a buffer and a model instead, which it asks once in each rollover. The two agree
call by call.
-/

namespace SiemEngine

open IsolationForestDetector

variable {μ : Type*}

def MlResult.verdict (res : MlResult) : ℚ × String := (res.score, res.reason)

def newestVerdict (py : Python) (sk : Sklearn μ) (det : IsolationForestDetector) (ml : State μ)
    (history : List (List (String × ℚ))) : Option (ℚ × String) :=
  history.getLast?.bind fun feats => (observe py sk det ml feats).2.map MlResult.verdict

/-- The verdict on the newest minute as a function of all the minutes. -/
def forest (py : Python) (sk : Sklearn μ) (det : IsolationForestDetector)
    (history : List (List (String × ℚ))) : Option (ℚ × String) :=
  newestVerdict py sk det (after py sk det history.dropLast) history

structure LayeredPipeline (μ : Type*) where
  pipeline : Pipeline
  ml : State μ

namespace LayeredPipeline

/-- `process_batch` with the detector in the state `ml`; the minute that a rollover closes is
what it observes. -/
def processBatch (cfg : Config) (sk : Sklearn μ) (det : IsolationForestDetector)
    (s : LayeredPipeline μ) (c : Call) : LayeredPipeline μ × Bool :=
  let out := Pipeline.processBatch { cfg with forest := newestVerdict cfg.py sk det s.ml }
    s.pipeline c
  let closed := out.1.history.drop s.pipeline.history.length
  (⟨out.1, Run.exec (fun ml feats => (observe cfg.py sk det ml feats).1) s.ml closed⟩, out.2)

end LayeredPipeline

namespace Pipeline

section

variable {cfg : Config} {s : Pipeline} {c : Call}
  {f g : List (List (String × ℚ)) → Option (ℚ × String)}

theorem rolloverDetections_congr
    (h : ∀ feats, f (s.history ++ [feats]) = g (s.history ++ [feats])) :
    rolloverDetections { cfg with forest := f } s c =
      rolloverDetections { cfg with forest := g } s c := by
  rw [rolloverDetections, rolloverDetections]
  simp only [h]
  rfl

theorem flushMinute_congr (h : ∀ feats, f (s.history ++ [feats]) = g (s.history ++ [feats])) :
    flushMinute { cfg with forest := f } s c = flushMinute { cfg with forest := g } s c := by
  rw [flushMinute, flushMinute, rolloverDetections_congr h]
  rfl

theorem updateMetrics_congr (h : ∀ feats, f (s.history ++ [feats]) = g (s.history ++ [feats]))
    (events : List SecurityEvent) :
    updateMetrics { cfg with forest := f } s c events =
      updateMetrics { cfg with forest := g } s c events := by
  have hflush : ∀ counter, flushMinute { cfg with forest := f } { s with counter } c =
      flushMinute { cfg with forest := g } { s with counter } c := fun _ => flushMinute_congr h
  rw [updateMetrics, updateMetrics]
  simp only [hflush]

theorem processBatch_congr (h : ∀ feats, f (s.history ++ [feats]) = g (s.history ++ [feats])) :
    processBatch { cfg with forest := f } s c = processBatch { cfg with forest := g } s c := by
  have hfresh : ∀ events, processFresh { cfg with forest := f } s c events =
      processFresh { cfg with forest := g } s c events := by
    intro events
    have hpersist : persist { cfg with forest := f } s c events =
        persist { cfg with forest := g } s c events := rfl
    rw [processFresh, processFresh, hpersist]
    cases persist { cfg with forest := g } s c events with
    | none => rfl
    | some db =>
      dsimp only
      split_ifs
      · rfl
      · exact updateMetrics_congr (s := { detected { cfg with forest := f } s events with db }) h _
  rw [processBatch, processBatch]
  simp only [hfresh]

theorem processBatch_history (cfg : Config) (s : Pipeline) (c : Call) :
    (processBatch cfg s c).1.history = s.history ∨
      ∃ feats, (processBatch cfg s c).1.history = s.history ++ [feats] := by
  have hupdate : ∀ (s : Pipeline) events, (updateMetrics cfg s c events).1.history = s.history ∨
      ∃ feats, (updateMetrics cfg s c events).1.history = s.history ++ [feats] := by
    intro s events
    rw [updateMetrics]
    dsimp only
    split_ifs
    · exact Or.inl rfl
    · exact Or.inr ⟨_, rfl⟩
    · exact Or.inr ⟨_, rfl⟩
  rw [processBatch]
  dsimp only
  split_ifs
  · exact Or.inl rfl
  · exact Or.inl rfl
  · exact Or.inl rfl
  · exact Or.inl rfl
  · exact Or.inl rfl
  · rw [processFresh]
    split
    · exact Or.inl rfl
    · dsimp only
      split_ifs
      · exact Or.inl rfl
      · exact hupdate _ _

end

end Pipeline

/-- The stateful detector and the function of the minutes lead the pipeline through the same
states, and raise in the same calls. -/
theorem ml_layer_refines (cfg : Config) (sk : Sklearn μ) (det : IsolationForestDetector)
    (now : Time) (calls : List Call) :
    let layered := Run.exec (fun s c => (LayeredPipeline.processBatch cfg sk det s c).1)
      ⟨Pipeline.init now, {}⟩ calls
    let plain := Run.exec
      (fun s c => (Pipeline.processBatch { cfg with forest := forest cfg.py sk det } s c).1)
      (Pipeline.init now) calls
    layered = ⟨plain, after cfg.py sk det plain.history⟩ ∧
      ∀ c, (LayeredPipeline.processBatch cfg sk det layered c).2 =
        (Pipeline.processBatch { cfg with forest := forest cfg.py sk det } plain c).2 := by
  intro layered plain
  have hstep : ∀ s c, Pipeline.processBatch
      { cfg with forest := newestVerdict cfg.py sk det (after cfg.py sk det s.history) } s c =
      Pipeline.processBatch { cfg with forest := forest cfg.py sk det } s c := by
    intro s c
    apply Pipeline.processBatch_congr
    intro feats
    rw [forest, List.dropLast_concat]
  have hstate : layered = ⟨plain, after cfg.py sk det plain.history⟩ := by
    simp only [layered, plain]
    induction calls using List.reverseRecOn with
    | nil => rfl
    | append_singleton calls c ih =>
      rw [Run.exec_append, Run.exec_append, Run.exec_cons, Run.exec_cons, Run.exec_nil,
        Run.exec_nil, ih]
      generalize Run.exec _ (Pipeline.init now) calls = s
      simp only [LayeredPipeline.processBatch, hstep]
      rcases Pipeline.processBatch_history { cfg with forest := forest cfg.py sk det } s c with
        h | ⟨feats, h⟩
      · rw [h, List.drop_length]
        rfl
      · rw [h, List.drop_left, after_concat]
        rfl
  refine ⟨hstate, fun c => ?_⟩
  rw [hstate, LayeredPipeline.processBatch]
  exact congrArg Prod.snd (hstep plain c)

end SiemEngine

import SiemEngine.Detection.WindowOps

/-!
# Windows that have lapsed

A key past its time to live reads as empty. Two windows that differ in lapsed keys only answer
every evaluation alike, and differ in lapsed keys only after it.
-/

namespace SiemEngine

namespace Windows

def Lapsed (ws : Windows) (key : String) (clock : Time) : Prop :=
  ∀ set ∈ Dict.get? ws key, set.expiresAt < clock

def AgreeAt (clocks : Set Time) (ws ws' : Windows) : Prop :=
  ∀ key, Dict.get? ws key = Dict.get? ws' key ∨
    ∀ clock ∈ clocks, Lapsed ws key clock ∧ Lapsed ws' key clock

section

variable {clocks : Set Time} {clock : Time} {ws ws' : Windows} {key : String}

theorem trimmed_of_lapsed (h : Lapsed ws key clock) (cutoff : ℚ) :
    trimmed ws clock key cutoff = [] := by
  rw [trimmed]
  split
  · rfl
  · rename_i set hset
    exact if_pos (h set hset)

theorem AgreeAt.trimmed (h : AgreeAt clocks ws ws') (hclock : clock ∈ clocks) (key : String)
    (cutoff : ℚ) : Windows.trimmed ws clock key cutoff = Windows.trimmed ws' clock key cutoff := by
  rcases h key with hsame | hlapsed
  · rw [Windows.trimmed, Windows.trimmed, hsame]
  · obtain ⟨hl, hl'⟩ := hlapsed clock hclock
    rw [trimmed_of_lapsed hl, trimmed_of_lapsed hl']

theorem AgreeAt.set (h : AgreeAt clocks ws ws') (key : String) (s : SortedSet) :
    AgreeAt clocks (Dict.set ws key s) (Dict.set ws' key s) := by
  intro k
  by_cases hk : k = key
  · rw [hk]
    exact Or.inl ((Dict.get?_set_self ..).trans (Dict.get?_set_self ..).symm)
  · simp only [Lapsed, Dict.get?_set_ne ws hk, Dict.get?_set_ne ws' hk]
    exact h k

theorem AgreeAt.add (h : AgreeAt clocks ws ws') {tick : Tick} (ht : tick.clock ∈ clocks)
    (key value : String) (w : ℤ) (now : ℚ) :
    (ws.add tick key value w now).2 = (ws'.add tick key value w now).2 ∧
      AgreeAt clocks (ws.add tick key value w now).1 (ws'.add tick key value w now).1 := by
  rw [Windows.add, Windows.add, h.trimmed ht]
  exact ⟨rfl, h.set _ _⟩

theorem get?_measure (ws : Windows) (tick : Tick) (name entity : String) (w : ℤ) (k : String) :
    Dict.get? (ws.measure tick name entity w).1 k =
      if k = Windows.key name entity then
        (Dict.get? ws k).map fun set => { set with
          members := Windows.trimmed ws tick.clock k
            (Binary64.sub (Datetime.timestamp tick.clock) w) }
      else Dict.get? ws k := by
  simp only [measure]
  split_ifs with hk
  · subst hk
    cases hget : Dict.get? ws (Windows.key name entity) with
    | none => rw [hget, Option.map_none]
    | some set => rw [Dict.get?_set_self, Option.map_some]
  · cases Dict.get? ws (Windows.key name entity) with
    | none => rfl
    | some set => exact Dict.get?_set_ne ws hk _

theorem AgreeAt.measure (h : AgreeAt clocks ws ws') {tick : Tick} (ht : tick.clock ∈ clocks)
    (name entity : String) (w : ℤ) :
    (ws.measure tick name entity w).2 = (ws'.measure tick name entity w).2 ∧
      AgreeAt clocks (ws.measure tick name entity w).1 (ws'.measure tick name entity w).1 := by
  refine ⟨by simp only [Windows.measure, h.trimmed ht], fun k => ?_⟩
  simp only [Lapsed, get?_measure]
  split_ifs with hk
  · rcases h k with hsame | hlapsed
    · left
      rw [hsame, h.trimmed ht]
    · right
      intro clock hclock
      obtain ⟨hl, hl'⟩ := hlapsed clock hclock
      simp only [Option.mem_map, forall_exists_index, and_imp]
      refine ⟨?_, ?_⟩
      · rintro _ set hset rfl
        exact hl set hset
      · rintro _ set hset rfl
        exact hl' set hset
  · exact h k

end

end Windows

open Windows

theorem WindowOp.agree {ρ : Type} {op : Tick → Windows → Windows × ρ} (h : WindowOp op)
    {clocks : Set Time} {tick : Tick} (ht : tick.clock ∈ clocks) {ws ws' : Windows}
    (hws : AgreeAt clocks ws ws') :
    (op tick ws).2 = (op tick ws').2 ∧ AgreeAt clocks (op tick ws).1 (op tick ws').1 := by
  induction h with
  | const r => exact ⟨rfl, hws⟩
  | addAndMeasure name entity value w now =>
    obtain ⟨hres, hws'⟩ := hws.add ht (key name entity) value w now
    refine ⟨?_, hws'⟩
    simp only [Windows.addAndMeasure]
    rw [hres]
  | incrSum py name entity amount w now =>
    obtain ⟨hres, hws'⟩ := hws.add ht (key name entity) (toString amount) w now
    refine ⟨?_, hws'⟩
    simp only [Windows.incrSum]
    rw [hres]
  | measure name entity w => exact hws.measure ht name entity w
  | map _ f ih => exact ⟨congrArg f ih.1, ih.2⟩

namespace DetectionEngine

variable {py : Python} {engine : DetectionEngine} {ev : SecurityEvent} {ticks : Rule → Tick}
  {clocks : Set Time} {ws ws' : Windows}

theorem runDetector_agree (rule : Rule) (ht : (ticks rule).clock ∈ clocks)
    (hws : AgreeAt clocks ws ws') (ds : List Detection) :
    (engine.runDetector py ticks ev (ws, ds) rule).2 =
        (engine.runDetector py ticks ev (ws', ds) rule).2 ∧
      AgreeAt clocks (engine.runDetector py ticks ev (ws, ds) rule).1
        (engine.runDetector py ticks ev (ws', ds) rule).1 := by
  obtain ⟨hres, hws₁⟩ := (rule.windowOp_evaluate py engine.params ev).agree ht hws
  unfold runDetector
  split_ifs
  · exact ⟨rfl, hws⟩
  · dsimp only at hres hws₁ ⊢
    generalize rule.evaluate py engine.params (ticks rule) ev ws = out at hres hws₁ ⊢
    generalize rule.evaluate py engine.params (ticks rule) ev ws' = out' at hres hws₁ ⊢
    obtain ⟨w, r⟩ := out
    obtain ⟨w', r'⟩ := out'
    cases hres
    cases r with
    | error e => exact ⟨rfl, hws₁⟩
    | ok d? => cases d? <;> exact ⟨rfl, hws₁⟩

theorem foldl_agree {rules : List Rule} (ht : ∀ r ∈ rules, (ticks r).clock ∈ clocks)
    (hws : AgreeAt clocks ws ws') (ds : List Detection) :
    (rules.foldl (engine.runDetector py ticks ev) (ws, ds)).2 =
        (rules.foldl (engine.runDetector py ticks ev) (ws', ds)).2 ∧
      AgreeAt clocks (rules.foldl (engine.runDetector py ticks ev) (ws, ds)).1
        (rules.foldl (engine.runDetector py ticks ev) (ws', ds)).1 := by
  induction rules generalizing ws ws' ds with
  | nil => exact ⟨rfl, hws⟩
  | cons rule rules ih =>
    obtain ⟨hrule, hrules⟩ := List.forall_mem_cons.mp ht
    obtain ⟨hres, hnext⟩ := @runDetector_agree py engine ev _ _ _ _ rule hrule hws ds
    have hpair : engine.runDetector py ticks ev (ws', ds) rule =
        ((engine.runDetector py ticks ev (ws', ds) rule).1,
          (engine.runDetector py ticks ev (ws, ds) rule).2) := Prod.ext rfl hres.symm
    rw [List.foldl_cons, List.foldl_cons, hpair]
    exact ih hrules hnext _

theorem evaluate_agree (ht : ∀ r, (ticks r).clock ∈ clocks) (hws : AgreeAt clocks ws ws') :
    (engine.evaluate py ticks ev ws).2 = (engine.evaluate py ticks ev ws').2 ∧
      AgreeAt clocks (engine.evaluate py ticks ev ws).1 (engine.evaluate py ticks ev ws').1 :=
  foldl_agree (fun r _ => ht r) hws []

end DetectionEngine

end SiemEngine

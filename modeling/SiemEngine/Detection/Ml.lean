import SiemEngine.Detection.Anomaly
import SiemEngine.Lib.Dict
import SiemEngine.Lib.Rolling
import SiemEngine.Lib.Run

/-!
# Isolation Forest detector

`IsolationForestDetector.observe` keeps the last feature vectors and a model fitted on them.
The forest itself is a library's and a parameter here: its random state is fixed, so what `fit`
makes depends on the data alone, and each of its calls may raise.
-/

namespace SiemEngine

structure Sklearn (μ : Type*) where
  fit : ℚ → List (List ℚ) → Option μ
  decisionFunction : μ → List ℚ → Option ℚ
  predict : μ → List ℚ → Option ℤ

structure MlResult where
  isAnomaly : Bool
  score : ℚ
  features : List (String × ℚ)
  reason : String

structure IsolationForestDetector where
  enabled : Bool
  contamination : ℚ := Binary64.nearest (1 / 20)
  bufferSize : ℕ := 720

namespace IsolationForestDetector

def featureNames : List String :=
  ["events_per_min", "auth_failures_per_min", "unique_source_ips", "outbound_mib_per_min",
    "db_errors_per_min", "firewall_denies_per_min"]

structure State (μ : Type*) where
  buffer : List (List ℚ) := []
  model : Option μ := none

def vectorize (feats : List (String × ℚ)) : List ℚ :=
  featureNames.map fun name => (Dict.get? feats name).getD 0

def minLength (det : IsolationForestDetector) : ℕ := max 60 (det.bufferSize / 6)

/-- The contributors that the reason names: the three largest, earlier names first. -/
def top (feats : List (String × ℚ)) : List (String × ℚ) :=
  (feats.mergeSort fun a b => b.2 ≤ a.2).take 3

def reason (py : Python) (feats : List (String × ℚ)) : String :=
  "Isolation Forest flagged this minute as an outlier; largest contributors: " ++
    ", ".intercalate ((top feats).map fun kv => kv.1 ++ "=" ++ py.formatFixed 1 kv.2)

variable {μ : Type*}

def judge (py : Python) (sk : Sklearn μ) (model : μ) (feats : List (String × ℚ)) :
    Option MlResult :=
  match sk.decisionFunction model (vectorize feats), sk.predict model (vectorize feats) with
  | some raw, some pred =>
    let score := max 0 (min 1 (Binary64.sub (1 / 2) raw))
    if pred = -1 then
      some
        { isAnomaly := true
          score := Binary64.roundTo 3 score
          features := feats
          reason := reason py feats }
    else none
  | _, _ => none

/-- The model after the detector has, or has not, retrained on all but the newest vector. -/
def fitted (sk : Sklearn μ) (det : IsolationForestDetector) (s : State μ)
    (buffer : List (List ℚ)) : Option μ :=
  if s.model.isNone ∨ buffer.length % 30 = 0 then sk.fit det.contamination buffer.dropLast
  else s.model

def observe (py : Python) (sk : Sklearn μ) (det : IsolationForestDetector) (s : State μ)
    (feats : List (String × ℚ)) : State μ × Option MlResult :=
  if det.enabled = false then (s, none)
  else
    let buffer := Rolling.push det.bufferSize s.buffer (vectorize feats)
    if buffer.length < det.minLength then ({ s with buffer }, none)
    else
      match fitted sk det s buffer with
      | none => ({ s with buffer }, none)
      | some model => ({ buffer, model := some model }, judge py sk model feats)

def after (py : Python) (sk : Sklearn μ) (det : IsolationForestDetector)
    (history : List (List (String × ℚ))) : State μ :=
  Run.exec (fun s feats => (observe py sk det s feats).1) {} history

section

variable {py : Python} {sk : Sklearn μ} {det : IsolationForestDetector} {s : State μ}
  {feats : List (String × ℚ)} {history : List (List (String × ℚ))} {model : μ}

theorem after_concat (history : List (List (String × ℚ))) (feats : List (String × ℚ)) :
    after py sk det (history ++ [feats]) = (observe py sk det (after py sk det history) feats).1 :=
  Run.exec_append _ _ history [feats]

theorem observe_cases (py : Python) (sk : Sklearn μ) (hon : det.enabled = true) (s : State μ)
    (feats : List (String × ℚ)) :
    let buffer := Rolling.push det.bufferSize s.buffer (vectorize feats)
    (observe py sk det s feats = (⟨buffer, s.model⟩, none) ∧
      (det.minLength ≤ buffer.length → fitted sk det s buffer = none)) ∨
    ∃ model, det.minLength ≤ buffer.length ∧ fitted sk det s buffer = some model ∧
      observe py sk det s feats = (⟨buffer, some model⟩, judge py sk model feats) := by
  intro buffer
  simp only [observe, hon, Bool.true_eq_false, if_false]
  by_cases hlen : buffer.length < det.minLength
  · rw [if_pos hlen]
    exact Or.inl ⟨rfl, fun h => absurd hlen (Nat.not_lt_of_ge h)⟩
  · rw [if_neg hlen]
    cases hmodel : fitted sk det s buffer with
    | none => exact Or.inl ⟨rfl, fun _ => rfl⟩
    | some model => exact Or.inr ⟨model, Nat.le_of_not_lt hlen, rfl, rfl⟩

theorem fitted_eq_some {buffer : List (List ℚ)} (h : fitted sk det s buffer = some model) :
    sk.fit det.contamination buffer.dropLast = some model ∨ s.model = some model := by
  rw [fitted] at h
  split_ifs at h
  · exact Or.inl h
  · exact Or.inr h

theorem fitted_of_due {buffer : List (List ℚ)} (h : s.model = none ∨ buffer.length % 30 = 0) :
    fitted sk det s buffer = sk.fit det.contamination buffer.dropLast :=
  if_pos (h.imp_left Option.isNone_iff_eq_none.mpr)

theorem fitted_of_not_due {buffer : List (List ℚ)} (hmodel : s.model = some model)
    (h : buffer.length % 30 ≠ 0) : fitted sk det s buffer = some model := by
  rw [fitted, if_neg (by simp [hmodel, h]), hmodel]

theorem after_buffer (hon : det.enabled = true) (history : List (List (String × ℚ))) :
    (after py sk det history).buffer = Rolling.latest det.bufferSize (history.map vectorize) := by
  induction history using List.reverseRecOn with
  | nil => exact (Rolling.latest_nil _).symm
  | append_singleton history feats ih =>
    rw [after_concat, List.map_append, List.map_singleton, ← Rolling.push_latest, ← ih]
    rcases observe_cases py sk hon (after py sk det history) feats with ⟨h, -⟩ | ⟨model, -, -, h⟩
    · rw [h]
    · rw [h]

def FittedAt (sk : Sklearn μ) (det : IsolationForestDetector) (vectors : List (List ℚ)) (m : ℕ)
    (model : μ) : Prop :=
  det.minLength ≤ m ∧ m ≤ vectors.length ∧
    sk.fit det.contamination (Rolling.latest (det.bufferSize - 1) (vectors.take (m - 1))) =
      some model

theorem FittedAt.concat {vectors : List (List ℚ)} {m : ℕ} (h : FittedAt sk det vectors m model)
    (v : List ℚ) : FittedAt sk det (vectors ++ [v]) m model := by
  obtain ⟨hmin, hlen, hfit⟩ := h
  refine ⟨hmin, hlen.trans (by simp), ?_⟩
  rwa [List.take_append_of_le_length (by omega)]

theorem fittedAt_of_fitted (hon : det.enabled = true)
    (hlen : det.minLength ≤ (Rolling.push det.bufferSize (after py sk det history).buffer
      (vectorize feats)).length)
    (hfit : fitted sk det (after py sk det history) (Rolling.push det.bufferSize
      (after py sk det history).buffer (vectorize feats)) = some model)
    (hold : ∀ old, (after py sk det history).model = some old →
      ∃ m, FittedAt sk det (history.map vectorize) m old) :
    ∃ m, FittedAt sk det ((history ++ [feats]).map vectorize) m model := by
  rw [List.map_append, List.map_singleton]
  rcases fitted_eq_some hfit with hnew | hmodel
  · rw [after_buffer hon, Rolling.push_latest] at hlen hnew
    rw [Rolling.dropLast_latest_concat] at hnew
    rw [Rolling.length_latest, List.length_append, List.length_singleton] at hlen
    refine ⟨(history.map vectorize).length + 1, by omega, by simp, ?_⟩
    rwa [Nat.add_sub_cancel, List.take_left]
  · obtain ⟨m, hm⟩ := hold model hmodel
    exact ⟨m, hm.concat _⟩

theorem after_model (hon : det.enabled = true) (history : List (List (String × ℚ))) :
    ∀ model, (after py sk det history).model = some model →
      ∃ m, FittedAt sk det (history.map vectorize) m model := by
  induction history using List.reverseRecOn with
  | nil => exact fun model h => by cases h
  | append_singleton history feats ih =>
    intro model hmodel
    rw [after_concat] at hmodel
    rcases observe_cases py sk hon (after py sk det history) feats with ⟨h, -⟩ |
      ⟨model', hlen, hfit, h⟩
    · rw [h] at hmodel
      obtain ⟨m, hm⟩ := ih model hmodel
      rw [List.map_append, List.map_singleton]
      exact ⟨m, hm.concat _⟩
    · rw [h, Option.some.injEq] at hmodel
      exact fittedAt_of_fitted hon hlen (hmodel ▸ hfit) ih

theorem judge_eq_some {res : MlResult} (h : judge py sk model feats = some res) :
    sk.predict model (vectorize feats) = some (-1) ∧
      ∃ raw, sk.decisionFunction model (vectorize feats) = some raw ∧
        res.score = Binary64.roundTo 3 (max 0 (min 1 (Binary64.sub (1 / 2) raw))) := by
  rw [judge] at h
  split at h
  · rename_i raw pred hraw hpred
    split_ifs at h with hone
    rw [Option.some.injEq] at h
    exact ⟨hone ▸ hpred, raw, hraw, by rw [← h]⟩
  · cases h

/-- Whatever raises: a minute is flagged only by a model fitted on earlier minutes, at least
`minLength - 1` and fewer than `bufferSize` of them, one after the other. -/
theorem flagged_by_earlier_minutes (py : Python) (sk : Sklearn μ) (det : IsolationForestDetector)
    (history : List (List (String × ℚ))) (feats : List (String × ℚ)) (res : MlResult)
    (h : (observe py sk det (after py sk det history) feats).2 = some res) :
    det.minLength ≤ det.bufferSize ∧ ∃ m model raw, det.minLength ≤ m ∧ m ≤ history.length + 1 ∧
      sk.fit det.contamination
        (Rolling.latest (det.bufferSize - 1) ((history.map vectorize).take (m - 1))) =
          some model ∧
      sk.predict model (vectorize feats) = some (-1) ∧
      sk.decisionFunction model (vectorize feats) = some raw ∧
      res.score = Binary64.roundTo 3 (max 0 (min 1 (Binary64.sub (1 / 2) raw))) := by
  have hon : det.enabled = true := by
    by_contra hoff
    rw [Bool.not_eq_true] at hoff
    rw [observe, if_pos hoff] at h
    cases h
  rcases observe_cases py sk hon (after py sk det history) feats with ⟨hobs, -⟩ |
    ⟨model, hlen, hfit, hobs⟩
  · rw [hobs] at h
    cases h
  · rw [hobs] at h
    obtain ⟨m, hmin, hm, htrain⟩ := fittedAt_of_fitted hon hlen hfit (after_model hon history)
    obtain ⟨hpred, raw, hraw, hscore⟩ := judge_eq_some h
    rw [List.length_map, List.length_append, List.length_singleton] at hm
    rw [after_buffer hon, Rolling.push_latest, Rolling.length_latest] at hlen
    refine ⟨hlen.trans (min_le_right _ _), m, model, raw, hmin, hm, ?_, hpred, hraw, hscore⟩
    rwa [List.map_append, List.take_append_of_le_length (by rw [List.length_map]; omega)] at htrain

/-- A forest that flags what is not among its training data. -/
def recalling : Sklearn (List (List ℚ)) where
  fit _ data := some data
  decisionFunction model v := some (if v ∈ model then 1 / 10 else -(1 / 10))
  predict model v := some (if v ∈ model then 1 else -1)

def quietMinute : List (String × ℚ) := [("events_per_min", 40)]

def loudMinute : List (String × ℚ) := [("events_per_min", 4000)]

def hourly : IsolationForestDetector := { enabled := true, bufferSize := 60 }

def quietHour : List (List (String × ℚ)) := List.replicate 59 quietMinute

theorem loud_flagged :
    (observe .ascii recalling hourly (after .ascii recalling hourly quietHour)
      loudMinute).2.isSome := by
  decide +kernel

theorem flagged_by_earlier_minutes_loud : hourly.minLength ≤ hourly.bufferSize ∧
    ∃ m model raw, hourly.minLength ≤ m ∧ m ≤ quietHour.length + 1 ∧
      recalling.fit hourly.contamination
        (Rolling.latest (hourly.bufferSize - 1) ((quietHour.map vectorize).take (m - 1))) =
          some model ∧
      recalling.predict model (vectorize loudMinute) = some (-1) ∧
      recalling.decisionFunction model (vectorize loudMinute) = some raw ∧
      ((observe .ascii recalling hourly (after .ascii recalling hourly quietHour)
        loudMinute).2.get loud_flagged).score =
          Binary64.roundTo 3 (max 0 (min 1 (Binary64.sub (1 / 2) raw))) :=
  flagged_by_earlier_minutes .ascii recalling hourly quietHour loudMinute _
    (Option.some_get loud_flagged).symm

def standard : IsolationForestDetector := { enabled := true }

/-- The observation, of `n` made, at which the standard detector was last trained: every
thirtieth until the buffer is full, and every one from then on. -/
def lastTraining (n : ℕ) : ℕ := if n < 720 then n - n % 30 else n

def trainingSet (vectors : List (List ℚ)) : List (List ℚ) :=
  Rolling.latest 719 (vectors.take (lastTraining vectors.length - 1))

theorem trainingSet_concat_of_trained {vectors : List (List ℚ)} {v : List ℚ}
    (h : lastTraining (vectors.length + 1) = vectors.length + 1) :
    trainingSet (vectors ++ [v]) = Rolling.latest 719 vectors := by
  rw [trainingSet, List.length_append, List.length_singleton, h, Nat.add_sub_cancel,
    List.take_left]

theorem trainingSet_concat_of_kept {vectors : List (List ℚ)} {v : List ℚ}
    (hlen : vectors.length + 1 < 720) (h : (vectors.length + 1) % 30 ≠ 0) :
    trainingSet (vectors ++ [v]) = trainingSet vectors := by
  have hlast : lastTraining (vectors.length + 1) = lastTraining vectors.length := by
    rw [lastTraining, lastTraining, if_pos hlen, if_pos (by omega)]
    omega
  have hle : lastTraining vectors.length ≤ vectors.length := by
    rw [lastTraining]
    split_ifs <;> omega
  rw [trainingSet, trainingSet, List.length_append, List.length_singleton, hlast,
    List.take_append_of_le_length (by omega)]

theorem fitted_standard {fit : List (List ℚ) → μ}
    (hfit : ∀ data, sk.fit standard.contamination data = some (fit data))
    (hmodel : (after py sk standard history).model =
      if history.length < 120 then none else some (fit (trainingSet (history.map vectorize))))
    (hlen : 120 ≤ history.length + 1) :
    fitted sk standard (after py sk standard history)
        (Rolling.push standard.bufferSize (after py sk standard history).buffer
          (vectorize feats)) =
      some (fit (trainingSet ((history ++ [feats]).map vectorize))) := by
  have hbuffer : (Rolling.latest 720 (history.map vectorize ++ [vectorize feats])).length =
      min (history.length + 1) 720 := by simp
  rw [after_buffer rfl, List.map_append, List.map_singleton]
  change fitted sk standard _ (Rolling.push 720 (Rolling.latest 720 _) _) = _
  rw [Rolling.push_latest]
  by_cases hdue : history.length < 120 ∨ min (history.length + 1) 720 % 30 = 0
  · have hlast : lastTraining (history.length + 1) = history.length + 1 := by
      rw [lastTraining]
      split_ifs <;> omega
    rw [fitted_of_due, hfit, Rolling.dropLast_latest_concat, trainingSet_concat_of_trained]
    · rwa [List.length_map]
    · rw [hmodel, hbuffer]
      exact hdue.imp_left fun h => if_pos h
  · obtain ⟨hlate, hkept⟩ := not_or.mp hdue
    rw [fitted_of_not_due (hmodel.trans (if_neg hlate)) (hbuffer ▸ hkept),
      trainingSet_concat_of_kept]
    · rw [List.length_map]
      omega
    · rw [List.length_map]
      omega

theorem observe_of_model {fit : List (List ℚ) → μ}
    (hfit : ∀ data, sk.fit standard.contamination data = some (fit data))
    (hmodel : (after py sk standard history).model =
      if history.length < 120 then none else some (fit (trainingSet (history.map vectorize)))) :
    let model := fit (trainingSet ((history ++ [feats]).map vectorize))
    let out := observe py sk standard (after py sk standard history) feats
    (out.1.model = if history.length + 1 < 120 then none else some model) ∧
      out.2 = if history.length + 1 < 120 then none else judge py sk model feats := by
  intro model out
  have hbuffer : (Rolling.push standard.bufferSize (after py sk standard history).buffer
      (vectorize feats)).length = min (history.length + 1) 720 := by
    rw [after_buffer rfl, Rolling.push_latest]
    simp [standard]
  have hmin : standard.minLength = 120 := rfl
  have hfitted := @fitted_standard _ py sk feats _ _ hfit hmodel
  rcases @observe_cases _ standard py sk rfl (after py sk standard history) feats with
    ⟨h, hlen⟩ | ⟨model', hlen, hmodel', h⟩
  · have hshort : history.length + 1 < 120 := by
      by_contra hlate
      have hnone := hlen (by rw [hbuffer, hmin]; omega)
      rw [hfitted (by omega)] at hnone
      cases hnone
    simp only [out, h, if_pos hshort, and_true]
    exact hmodel.trans (if_pos (by omega))
  · rw [hbuffer, hmin] at hlen
    rw [hfitted (by omega), Option.some.injEq] at hmodel'
    simp only [out, h, if_neg (show ¬ history.length + 1 < 120 by omega), ← hmodel']
    exact ⟨rfl, rfl⟩

theorem after_model_standard {fit : List (List ℚ) → μ}
    (hfit : ∀ data, sk.fit standard.contamination data = some (fit data))
    (history : List (List (String × ℚ))) :
    (after py sk standard history).model =
      if history.length < 120 then none else some (fit (trainingSet (history.map vectorize))) := by
  induction history using List.reverseRecOn with
  | nil => rfl
  | append_singleton history feats ih =>
    rw [after_concat, List.length_append, List.length_singleton]
    exact (observe_of_model hfit ih).1

/-- What the stateful detector answers, in closed form: nothing before its 120th minute, and
then the verdict of a forest fitted on the minutes before the last training, which is at most
29 minutes old and, from the 720th minute on, the current one. -/
theorem observe_standard (py : Python) (sk : Sklearn μ) (fit : List (List ℚ) → μ)
    (hfit : ∀ data, sk.fit standard.contamination data = some (fit data))
    (history : List (List (String × ℚ))) (feats : List (String × ℚ)) :
    (observe py sk standard (after py sk standard history) feats).2 =
      if history.length + 1 < 120 then none
      else judge py sk (fit (trainingSet ((history ++ [feats]).map vectorize))) feats :=
  (observe_of_model hfit (after_model_standard hfit history)).2

theorem observe_standard_loud :
    (observe .ascii recalling standard
      (after .ascii recalling standard (List.replicate 119 quietMinute)) loudMinute).2 =
      judge .ascii recalling
        (id (trainingSet ((List.replicate 119 quietMinute ++ [loudMinute]).map vectorize)))
        loudMinute := by
  have h := observe_standard .ascii recalling id (fun _ => rfl) (List.replicate 119 quietMinute)
    loudMinute
  rwa [if_neg (by rw [List.length_replicate]; decide)] at h

end

end IsolationForestDetector

end SiemEngine

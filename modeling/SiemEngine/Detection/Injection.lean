import SiemEngine.Detection.Isolation

/-!
# When a matched query is reported

RULE-005 reads the number of returned rows after it has matched the query. `int` raises on
what is no number, the engine drops what the detector found, and a query that matches every
pattern goes unreported.
-/

namespace SiemEngine.SuspiciousSql

def matched (py : Python) (ev : SecurityEvent) : List (String × String × ℚ) :=
  patterns.filter fun pat => py.search pat.1 (query py ev)

/-- An event that the rule is there for. No pattern matches an empty text. -/
structure Suspicious (py : Python) (ev : SecurityEvent) : Prop where
  applies : appliesTo ev = true
  query : query py ev ≠ ""
  matched : matched py ev ≠ []

def matchedSeverity (py : Python) (ev : SecurityEvent) : Severity :=
  if Binary64.nearest (17 / 20) ≤ score ((matched py ev).map fun pat => pat.2.2) then .high
  else .medium

/-- `int(metadata.get("rows_returned") or 0)` does not raise. -/
def RowsReadable (py : Python) (ev : SecurityEvent) : Prop :=
  ∀ given, ev.metadata.get? "rows_returned" = some given → given.truthy = true →
    (given.pyInt py).isSome = true

variable {py : Python} {p : Params} {ev : SecurityEvent}

theorem rowsReturned_isSome_iff : (rowsReturned py ev).isSome = true ↔ RowsReadable py ev := by
  rw [rowsReturned, RowsReadable]
  cases hgiven : ev.metadata.get? "rows_returned" with
  | none => simp [Json.truthy]
  | some given =>
    rw [Option.getD_some]
    split_ifs with htruthy <;> simp [htruthy]

theorem score_append (xs ys : List ℚ) : score (xs ++ ys) = max (score xs) (score ys) := by
  have hfold : ∀ (ys : List ℚ) (acc : ℚ), 0 ≤ acc →
      ys.foldl (fun acc w => max acc (Binary64.nearest w)) acc = max acc (score ys) := by
    intro ys
    induction ys with
    | nil => exact fun acc hacc => (max_eq_left hacc).symm
    | cons y ys ih =>
      intro acc hacc
      have hy : score (y :: ys) = max (max 0 (Binary64.nearest y)) (score ys) :=
        ih _ (le_max_left _ _)
      rw [List.foldl_cons, ih _ (hacc.trans (le_max_left _ _)), hy, ← max_assoc, ← max_assoc,
        max_eq_left hacc]
  rw [score, List.foldl_append]
  exact hfold ys _ (score_nonneg xs)

theorem severity_detection (p : Params) (rows : ℤ) :
    (detection ev (query py ev) rows (hits py p (query py ev) rows)).severity =
      matchedSeverity py ev := by
  have hlow : ¬ Binary64.nearest (17 / 20) ≤ Binary64.nearest (11 / 20) := by decide +kernel
  have hzero : ¬ Binary64.nearest (17 / 20) ≤ 0 := by decide +kernel
  have hscore : Binary64.nearest (17 / 20) ≤
        score ((hits py p (query py ev) rows).map Prod.fst) ↔
      Binary64.nearest (17 / 20) ≤ score ((matched py ev).map fun pat => pat.2.2) := by
    rw [hits, List.map_append, score_append, List.map_map]
    change _ ≤ max (score ((matched py ev).map fun pat => pat.2.2)) _ ↔ _
    rw [le_max_iff, or_iff_left]
    split_ifs
    · simpa [score] using ⟨not_le.mp hzero, not_le.mp hlow⟩
    · exact hzero
  rw [detection, matchedSeverity]
  exact if_congr hscore rfl rfl

theorem evaluate_of_suspicious (h : Suspicious py ev) (p : Params) (tick : Tick) (ws : Windows) :
    (RowsReadable py ev → ∃ d, evaluate py p tick ev ws = (ws, .ok (some d)) ∧
      d.severity = matchedSeverity py ev) ∧
    (¬ RowsReadable py ev → evaluate py p tick ev ws = (ws, .error .badValue)) := by
  rw [evaluate, if_neg h.query]
  constructor
  · intro hrows
    obtain ⟨rows, hrows⟩ := Option.isSome_iff_exists.mp (rowsReturned_isSome_iff.mpr hrows)
    have hhits : hits py p (query py ev) rows ≠ [] := by
      intro hnil
      rw [hits, List.append_eq_nil_iff, List.map_eq_nil_iff] at hnil
      exact h.matched hnil.1
    refine ⟨_, ?_, severity_detection p rows⟩
    rw [hrows]
    dsimp only
    split
    · rename_i heq
      exact absurd heq hhits
    · rfl
  · intro hrows
    have hnone : rowsReturned py ev = none := by
      rw [← Option.not_isSome_iff_eq_none]
      exact fun hsome => hrows (rowsReturned_isSome_iff.mp hsome)
    rw [hnone]

/-- Whatever else the event carries, the engine reports a matched query with the severity of
its weights exactly when the row count can be read. -/
theorem injection_detected_iff (py : Python) (engine : DetectionEngine) (ticks : Rule → Tick)
    (ev : SecurityEvent) (ws : Windows) (hrule : .suspiciousSql ∉ engine.disabled)
    (h : Suspicious py ev) :
    (∃ d ∈ (engine.evaluate py ticks ev ws).2, d.ruleId = ruleId ∧
      d.severity = matchedSeverity py ev) ↔ RowsReadable py ev := by
  let o : Sighting := { event := ev, ticks, disabled := engine.disabled }
  have hengine : o.evaluate py engine.params ws = engine.evaluate py ticks ev ws :=
    Sighting.evaluate_eq_engine rfl ws
  have hattempt := @Sighting.attempt_of_watched py engine.params o .suspiciousSql ⟨hrule, rfl⟩ ws
  have happlies : Rule.suspiciousSql.appliesTo py o.event = true := h.applies
  rw [if_pos happlies] at hattempt
  have hmem := fun d => @Sighting.mem_evaluate_iff py engine.params o .suspiciousSql ws d
  obtain ⟨hfires, hraises⟩ := evaluate_of_suspicious h engine.params (ticks .suspiciousSql) ws
  rw [← hengine]
  constructor
  · rintro ⟨d, hd, hid, -⟩
    by_contra hrows
    have hout : Rule.evaluate py engine.params (o.ticks .suspiciousSql) o.event ws
        .suspiciousSql = (ws, .error .badValue) := hraises hrows
    obtain ⟨d', hd', -⟩ := (hmem d).mp ⟨hd, hid⟩
    rw [hattempt, hout] at hd'
    cases hd'
  · intro hrows
    obtain ⟨d, hd, hseverity⟩ := hfires hrows
    have hout : Rule.evaluate py engine.params (o.ticks .suspiciousSql) o.event ws
        .suspiciousSql = (ws, .ok (some d)) := hd
    have hfound : (o.attempt py engine.params .suspiciousSql ws).2 = some d := by
      rw [hattempt, hout]
      rfl
    obtain ⟨hin, hid⟩ := (hmem _).mpr ⟨d, hfound, rfl⟩
    exact ⟨_, hin, hid, hseverity⟩

/-- What the interpreter does on this text, which the tautology pattern alone matches. -/
def tautologySearch : Python :=
  { Python.ascii with
    search := fun pattern text => pattern = r"(?i)\bor\s+1\s*=\s*1\b" && text = "1 OR 1=1" }

def tautologyRaw (rows : Json) : JsonDict :=
  [("event_type", .str "db_query"),
    ("metadata", .obj [("query", .str "1 OR 1=1"), ("rows_returned", rows)])]

def tautology (rows : Json) : SecurityEvent :=
  SecurityEvent.ofPayload tautologySearch someReadings (tautologyRaw rows) someReadings.now

theorem fromRaw_tautology (rows : Json) :
    SecurityEvent.fromRaw tautologySearch someReadings (tautologyRaw rows) =
      .ok (tautology rows) := rfl

theorem suspicious_tautology {rows : Json} (h : rows ∈ [.int 3, .str "many"]) :
    Suspicious tautologySearch (tautology rows) := by
  have happlies : ∀ rows ∈ [Json.int 3, .str "many"], appliesTo (tautology rows) = true := by
    decide +kernel
  have hquery : ∀ rows ∈ [Json.int 3, .str "many"],
      query tautologySearch (tautology rows) ≠ "" := by decide +kernel
  have hmatched : ∀ rows ∈ [Json.int 3, .str "many"],
      matched tautologySearch (tautology rows) ≠ [] := by decide +kernel
  exact ⟨happlies rows h, hquery rows h, hmatched rows h⟩

theorem injection_detected_iff_three_rows :
    ∃ d ∈ (({} : DetectionEngine).evaluate tautologySearch (fun _ => ⟨0, "", 0⟩)
      (tautology (.int 3)) []).2,
        d.ruleId = ruleId ∧ d.severity = matchedSeverity tautologySearch (tautology (.int 3)) := by
  refine (injection_detected_iff tautologySearch {} (fun _ => ⟨0, "", 0⟩) (tautology (.int 3)) []
    List.not_mem_nil (suspicious_tautology List.mem_cons_self)).mpr fun given hgiven _ => ?_
  have hrows : (tautology (.int 3)).metadata.get? "rows_returned" = some (.int 3) := by
    decide +kernel
  rw [hrows] at hgiven
  rw [← Option.some.inj hgiven]
  rfl

/-- With a row count of "many" the tautology goes unreported. -/
theorem injection_suppressed :
    SecurityEvent.fromRaw tautologySearch someReadings (tautologyRaw (.str "many")) =
      .ok (tautology (.str "many")) ∧
    Suspicious tautologySearch (tautology (.str "many")) ∧
    matchedSeverity tautologySearch (tautology (.str "many")) = .high ∧
    (({} : DetectionEngine).evaluate tautologySearch (fun _ => ⟨0, "", 0⟩)
      (tautology (.str "many")) []).2 = [] :=
  ⟨rfl, suspicious_tautology (by decide), by decide +kernel, by decide +kernel⟩

end SiemEngine.SuspiciousSql

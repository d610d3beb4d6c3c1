import SiemEngine.Detection.EventCount

/-!
# The breach flag of a brute-force alert

A detection on a successful login is critical and says so in its metadata. Folding keeps
the greater severity but overwrites the metadata, so the flag of the alert is that of the
detection folded last.
-/

namespace SiemEngine

def flagged (metadata : JsonDict) : Prop :=
  Dict.get? metadata "account_breached" = some (.bool true)

instance (metadata : JsonDict) : Decidable (flagged metadata) :=
  inferInstanceAs (Decidable (_ = _))

def Detection.breached (d : Detection) : Prop := flagged d.metadata

instance (d : Detection) : Decidable d.breached := inferInstanceAs (Decidable (flagged _))

namespace BruteForce

open AlertCorrelator

/-- What the rule returns for an IP, stamped by the engine. -/
def Reports (ip : String) (d : Detection) : Prop :=
  ∃ py p ev res breachedAccount, d.unstamped = detection py p ev ip res breachedAccount

/-- The flag and the severity of the alert both say whether a breach was folded. -/
def KeepsBreach (cs : List Correlation) (a : Alert) : Prop :=
  (flagged a.alertMetadata ↔ ∃ c ∈ cs, c.detection.breached) ∧
    (flagged a.alertMetadata ↔ a.severity = .critical)

variable {ip : String} {d : Detection} {t : Alerts} {first c : Correlation}
  {cs : List Correlation}

theorem Reports.cases (h : Reports ip d) :
    d.key = (ruleId, "srcip:" ++ ip) ∧ (d.metadata.map Prod.fst).Nodup ∧
      "account_breached" ∈ d.metadata.map Prod.fst ∧
      (d.breached ∧ d.severity = .critical ∨ ¬ d.breached ∧ d.severity = .high) := by
  obtain ⟨py, p, ev, res, breachedAccount, hd⟩ := h
  have hmeta : d.metadata = (detection py p ev ip res breachedAccount).metadata := by
    change d.unstamped.metadata = _
    rw [hd]
  have hseverity : d.severity = (detection py p ev ip res breachedAccount).severity := by
    change d.unstamped.severity = _
    rw [hd]
  have hkey : d.unstamped.key = (detection py p ev ip res breachedAccount).key := by
    rw [hd]
  refine ⟨hkey, ?_, ?_, ?_⟩
  · rw [hmeta]
    simp [detection]
  · rw [hmeta]
    simp [detection]
  · rw [Detection.breached, flagged, hmeta, hseverity]
    cases breachedAccount <;> simp [detection, Dict.get?_cons]

theorem reports_attempt {py : Python} {p : Params} {o : Sighting} {ws : Windows}
    (hip : o.event.sourceText = some ip) (h : (o.attempt py p .bruteForce ws).2 = some d) :
    Reports ip d := by
  unfold Sighting.attempt at h
  split_ifs at h with hskip
  split at h
  · have hresult : (evaluate py p (o.ticks .bruteForce) o.event ws).2 = .ok (some d) := by
      cases hout : (evaluate py p (o.ticks .bruteForce) o.event ws).2 with
      | error e => simp [Rule.evaluate, hout, Except.toOption] at h
      | ok found => simpa [Rule.evaluate, hout, Except.toOption] using h
    obtain ⟨ip', res, breachedAccount, hip', -, rfl⟩ :=
      @evaluate_some py p _ o.event ws _ d (Prod.ext rfl hresult)
    obtain rfl := Option.some.inj (hip.symm.trans hip')
    exact ⟨py, p, o.event, res, breachedAccount, rfl⟩
  · simp at h
  · simp at h

theorem reports_detections (py : Python) (p : Params) {os : List Sighting}
    (h : ∀ o ∈ os, o.event.sourceText = some ip) (ws : Windows) :
    ∀ d ∈ Sighting.detections py p ws os, d.ruleId = ruleId → Reports ip d := by
  induction os generalizing ws with
  | nil => exact fun d hd => absurd hd List.not_mem_nil
  | cons o os ih =>
    obtain ⟨ho, hos⟩ := List.forall_mem_cons.mp h
    intro d hd hrule
    rcases List.mem_append.mp hd with hd | hd
    · have hmem : d.unstamped ∈ Rule.bruteForce.detectionsIn (o.evaluate py p ws).2 :=
        List.mem_map_of_mem (List.mem_filter.mpr ⟨hd, decide_eq_true hrule⟩)
      rw [Sighting.detectionsIn_evaluate, Option.mem_toList, Option.map_eq_some_iff] at hmem
      obtain ⟨d', hattempt, heq⟩ := hmem
      obtain ⟨py, p, ev, res, breachedAccount, hd'⟩ := reports_attempt ho hattempt
      exact ⟨py, p, ev, res, breachedAccount, heq.symm.trans hd'⟩
    · exact ih hos _ d hd hrule

theorem flagged_fold (now : Time) (a : Alert) (h : Reports ip d) :
    flagged (a.fold now d).alertMetadata ↔ d.breached := by
  obtain ⟨-, hnodup, hmem, -⟩ := h.cases
  change Dict.get? (Dict.update a.alertMetadata d.metadata) "account_breached" = _ ↔ _
  rw [Dict.get?_update_of_mem hnodup hmem]
  rfl

theorem critical_fold (now : Time) (a : Alert) (d : Detection) :
    (a.fold now d).severity = .critical ↔ a.severity = .critical ∨ d.severity = .critical := by
  change (if a.severity.rank < d.severity.rank then d.severity else a.severity) = _ ↔ _
  cases a.severity <;> cases d.severity <;> decide

theorem critical_folded (h : ∀ c ∈ first :: cs, Reports ip c.detection) :
    (Alert.folded first cs).severity = .critical ↔ ∃ c ∈ first :: cs, c.detection.breached := by
  have hone : ∀ {d : Detection}, Reports ip d → (d.severity = .critical ↔ d.breached) := by
    intro d hd
    obtain ⟨-, -, -, ⟨hbreached, hseverity⟩ | ⟨hbreached, hseverity⟩⟩ := hd.cases
    · exact iff_of_true hseverity hbreached
    · exact iff_of_false (by rw [hseverity]; decide) hbreached
  obtain ⟨hfirst, hrest⟩ := List.forall_mem_cons.mp h
  induction cs using List.reverseRecOn with
  | nil =>
    change first.detection.severity = .critical ↔ _
    simpa using hone hfirst
  | append_singleton cs c ih =>
    have hcs : ∀ c ∈ cs, Reports ip c.detection := fun c hc => hrest c (List.mem_append_left _ hc)
    have hih := ih (List.forall_mem_cons.mpr ⟨hfirst, hcs⟩) hcs
    have hlast := hone (hrest c (List.mem_append_right _ (List.mem_singleton_self c)))
    rw [Alert.folded_concat, ← List.cons_append]
    refine (critical_fold _ _ _).trans ((or_congr hih hlast).trans ?_)
    simp only [List.mem_append, List.mem_singleton, or_and_right, exists_or, exists_eq_left]

theorem flagged_folded (h : ∀ c ∈ first :: cs, Reports ip c.detection) :
    flagged (Alert.folded first cs).alertMetadata ↔
      ((first :: cs).getLast (List.cons_ne_nil first cs)).detection.breached := by
  rcases List.eq_nil_or_concat cs with rfl | ⟨cs, c, rfl⟩
  · rfl
  · have hlast : (first :: (cs.concat c)).getLast (List.cons_ne_nil _ _) = c := by
      simp
    rw [hlast, List.concat_eq_append, Alert.folded_concat]
    exact flagged_fold c.now _ (h c (by simp))

/-- Along every sequence of its detections an alert keeps a breach exactly when the one
folded last is on a breach if any is. -/
theorem breach_kept_iff (ip : String) (t : Alerts) (cs : List Correlation) (hne : cs ≠ [])
    (h : ∀ c ∈ cs, Reports ip c.detection)
    (hnone : ∀ id, ¬ t.openAt (ruleId, "srcip:" ++ ip) id) :
    ∃ a, Creates t cs a ∧ (a.severity = .critical ↔ ∃ c ∈ cs, c.detection.breached) ∧
      (KeepsBreach cs a ↔
        ((∃ c ∈ cs, c.detection.breached) → (cs.getLast hne).detection.breached)) := by
  obtain ⟨first, rest, rfl⟩ := List.exists_cons_of_ne_nil hne
  have hkey : ∀ c ∈ first :: rest, c.detection.key = (ruleId, "srcip:" ++ ip) := fun c hc =>
    (h c hc).cases.1
  refine ⟨_, creates_folded hnone hkey, critical_folded h, ?_⟩
  have hlast : ((first :: rest).getLast hne).detection.breached →
      ∃ c ∈ first :: rest, c.detection.breached := fun hbreached =>
    ⟨_, List.getLast_mem hne, hbreached⟩
  have hflag := flagged_folded h
  have hcritical := critical_folded h
  constructor
  · intro hkeeps hbreached
    exact hflag.mp (hkeeps.1.mpr hbreached)
  · intro himp
    have hiff := hflag.trans ⟨hlast, himp⟩
    exact ⟨hiff, hiff.trans hcritical.symm⟩

theorem breach_kept_iff_breach_last :
    let ev := (Sighting.auth "a" .authFailure "203.0.113.9" 0 0).event
    let cs : List Correlation := [
      { detection := detection Python.ascii {} ev "203.0.113.9" ⟨10, ["root"], 0, 9⟩ false },
      { detection := detection Python.ascii {} ev "203.0.113.9" ⟨10, ["root"], 0, 9⟩ true }]
    ∃ a, Creates Alerts.empty cs a ∧ KeepsBreach cs a := by
  intro ev cs
  have h : ∀ c ∈ cs, Reports "203.0.113.9" c.detection := by
    intro c hc
    rcases List.mem_pair.mp hc with rfl | rfl
    · exact ⟨_, _, _, _, _, rfl⟩
    · exact ⟨_, _, _, _, _, rfl⟩
  obtain ⟨a, hcreates, -, hkeeps⟩ := breach_kept_iff "203.0.113.9" Alerts.empty cs
    (List.cons_ne_nil _ _) h (Alerts.not_openAt_empty _)
  exact ⟨a, hcreates, hkeeps.mpr fun _ => rfl⟩

/-- A failure after the breach leaves the alert critical and no longer flagged. -/
theorem breach_erased :
    let os := [Sighting.auth "a" .authFailure "203.0.113.9" 0 0,
      Sighting.auth "b" .authFailure "203.0.113.9" 1 1,
      Sighting.auth "c" .authSuccess "203.0.113.9" 2 2,
      Sighting.auth "d" .authFailure "203.0.113.9" 3 3]
    ∃ cs a, cs.map Correlation.detection = firings Python.ascii { maxFailures := 2 } os 4 ∧
      Creates Alerts.empty cs a ∧ (∃ c ∈ cs, c.detection.breached) ∧ a.severity = .critical ∧
      ¬ flagged a.alertMetadata := by
  intro os
  have hflags : (firings Python.ascii { maxFailures := 2 } os 4).map
      (fun d => decide d.breached) = [false, true, false] := by
    decide +kernel
  have hreports : ∀ d ∈ firings Python.ascii { maxFailures := 2 } os 4,
      Reports "203.0.113.9" d := by
    intro d hd
    obtain ⟨hd, hrule⟩ := List.mem_filter.mp hd
    exact reports_detections _ _ (by decide +kernel) _ d hd (of_decide_eq_true hrule)
  obtain ⟨first, rest, hcs⟩ : ∃ first rest, (first :: rest).map Correlation.detection =
      firings Python.ascii { maxFailures := 2 } os 4 := by
    cases hds : firings Python.ascii { maxFailures := 2 } os 4 with
    | nil => simp [hds] at hflags
    | cons d ds =>
      exact ⟨{ detection := d }, ds.map fun d => { detection := d },
        Correlation.map_detection (d :: ds)⟩
  rw [← hcs, List.map_map] at hflags
  have h : ∀ c ∈ first :: rest, Reports "203.0.113.9" c.detection := fun c hc =>
    hreports _ (hcs ▸ List.mem_map_of_mem hc)
  obtain ⟨c₂, c₃, rfl⟩ : ∃ c₂ c₃, rest = [c₂, c₃] :=
    List.length_eq_two.mp (by simpa using congrArg List.length hflags)
  obtain ⟨-, hsecond, hthird⟩ : ¬ first.detection.breached ∧ c₂.detection.breached ∧
      ¬ c₃.detection.breached := by
    simpa using hflags
  have hsome : ∃ c ∈ [first, c₂, c₃], c.detection.breached := ⟨c₂, by simp, hsecond⟩
  exact ⟨[first, c₂, c₃], _, hcs, creates_folded (Alerts.not_openAt_empty _)
    fun c hc => (h c hc).cases.1, hsome, (critical_folded h).mpr hsome, fun hflag =>
    hthird ((flagged_folded h).mp hflag)⟩

end BruteForce

end SiemEngine

import Mathlib.Data.Finset.Card
import SiemEngine.Detection.OutOfOrder
import SiemEngine.Detection.WindowLog

/-!
# When the window rules fire

Five rules measure a quantity of the events of one entity over their window: its failures,
distinct usernames, distinct ports, outbound bytes, or the distinct sources of its successful
logins. A rule fires once what the window retains reaches the threshold. On a stream in
timestamp order all that is retained lies in the interval of the window.
-/

namespace SiemEngine

inductive WindowRule
  | bruteForce | passwordSpray | portScan | dataExfiltration | authAnomaly
  deriving DecidableEq

namespace WindowRule

def rule : WindowRule → Rule
  | .bruteForce => .bruteForce
  | .passwordSpray => .passwordSpray
  | .portScan => .portScan
  | .dataExfiltration => .dataExfiltration
  | .authAnomaly => .authAnomaly

def threshold (p : Params) : WindowRule → ℤ
  | .bruteForce => p.maxFailures
  | .passwordSpray => p.uniqueUsers
  | .portScan => p.uniquePorts
  | .dataExfiltration => p.bytesThreshold
  | .authAnomaly => p.distinctIps

def window (p : Params) : WindowRule → ℤ
  | .bruteForce => p.bruteForceWindow
  | .passwordSpray => p.sprayWindow
  | .portScan => p.portScanWindow
  | .dataExfiltration => p.exfilWindow
  | .authAnomaly => p.authGeoWindow

section

variable (py : Python) (p : Params) (r : WindowRule)

def admits (ev : SecurityEvent) : Bool :=
  r.rule.appliesTo py ev && (r ≠ .bruteForce || ev.eventType = .authFailure)

def counts (ev : SecurityEvent) : Bool :=
  r.admits py ev && (r ≠ .authAnomaly || ev.status = some .success)

def entity (ev : SecurityEvent) : String :=
  match r with
  | .bruteForce | .passwordSpray | .portScan => ev.sourceText.getD ""
  | .dataExfiltration => ev.sourceText.getD "" ++ "->" ++ ev.destinationText.getD "any"
  | .authAnomaly => py.lower (ev.user.getD "")

/-- The events of the entity in the window that ends with the event. -/
def inWindow (os : List Sighting) (ev : SecurityEvent) : List SecurityEvent :=
  (os.map Sighting.event).filter fun a => r.counts py a ∧ r.entity py a = r.entity py ev ∧
    ev.epoch - r.window p < a.epoch ∧ a.epoch ≤ ev.epoch

def bucket (ev : SecurityEvent) : String :=
  match r with
  | .bruteForce => "bruteforce"
  | .passwordSpray => "spray"
  | .portScan => "portscan"
  | .dataExfiltration => "exfil"
  | .authAnomaly => if ev.status = some .success then "authgeo_ok" else "authgeo_fail"

def key (ev : SecurityEvent) : String := Windows.key (r.bucket ev) (r.entity py ev)

def operation (ev : SecurityEvent) : Windows.Operation :=
  match r with
  | .bruteForce => .addAndMeasure (ev.user.getD "-")
  | .passwordSpray => .addAndMeasure (py.lower (ev.user.getD "-"))
  | .portScan => .addAndMeasure (shownPort ev.destinationPort)
  | .dataExfiltration => .incrSum ev.bytesOut.val
  | .authAnomaly => .addAndMeasure (ev.sourceText.getD "")

def call (o : Sighting) : Windows.Call where
  tick := o.ticks r.rule
  name := r.bucket o.event
  entity := r.entity py o.event
  operation := r.operation py o.event
  windowSeconds := r.window p
  now := o.event.epoch

/-- RULE-001 also measures on successes, at the wall clock and without adding. -/
def reading : Retention.Reading Sighting ℚ Time :=
  match r with
  | .bruteForce => BruteForce.reading p
  | r => Windows.reading.comap (r.call py p)

def concerns (ev : SecurityEvent) (o : Sighting) : Bool :=
  r.rule.appliesTo py o.event && r.key py o.event = r.key py ev

def kept (os : List Sighting) (ev : SecurityEvent) : List Sighting :=
  (r.reading py p).survivors (os.filter (r.concerns py ev))

/-- The quantity of the members of some events: a value is read back up to its first
separator, and RULE-002 does not count the name that stands for none. -/
def observed (evs : List SecurityEvent) : ℤ :=
  match r with
  | .bruteForce => evs.length
  | .passwordSpray =>
    (accounts (evs.map fun ev => Windows.decode (py.lower (ev.user.getD "-"))).dedup).length
  | .portScan => (evs.map fun ev => Windows.decode (shownPort ev.destinationPort)).dedup.length
  | .dataExfiltration => (evs.map fun ev => (ev.bytesOut.val : ℤ)).sum
  | .authAnomaly => (evs.map fun ev => Windows.decode (ev.sourceText.getD "")).dedup.length

def retained (os : List Sighting) (ev : SecurityEvent) : ℤ :=
  if r.counts py ev then r.observed py ((r.kept py p os ev).map Sighting.event) else 0

def FiresAt (os : List Sighting) (i : ℕ) : Prop :=
  ∃ o, os[i]? = some o ∧
    ∃ d ∈ (o.evaluate py p (Sighting.after py p [] (os.take i))).2, d.ruleId = r.rule.ruleId

/-- The quantity as the rule reads it off the answer of the store. -/
def read (answer : Windows.Answer) : ℤ :=
  match r, answer with
  | .passwordSpray, .measured res => (accounts res.uniqueValues).length
  | .portScan, .measured res | .authAnomaly, .measured res => res.uniqueValues.length
  | .dataExfiltration, .total amount => amount
  | .bruteForce, .measured res => res.count
  | _, _ => 0

end

variable {py : Python} {p : Params} {r : WindowRule} {o : Sighting} {ws : Windows}
  {os : List Sighting} {ev : SecurityEvent}

theorem value?_operation (py : Python) (r : WindowRule) (ev : SecurityEvent) :
    (r.operation py ev).value? ≠ none := by
  cases r with
  | dataExfiltration =>
    have hlimit : 2 ^ 63 ≤ 10 ^ Text.maxStrDigits :=
      (by norm_num : 2 ^ 63 ≤ 10 ^ 19).trans (Nat.pow_le_pow_right (by decide) (by decide))
    have hsmall : (ev.bytesOut.val : ℤ).natAbs < 10 ^ Text.maxStrDigits :=
      ev.bytesOut.isLt.trans_le hlimit
    rw [operation, Windows.Operation.value?, if_pos hsmall]
    exact Option.some_ne_none _
  | _ => exact Option.some_ne_none _

theorem sourceText_of_appliesTo (h : r.rule.appliesTo py ev) : ∃ ip, ev.sourceText = some ip := by
  have hsome : ev.sourceIp.isSome := by
    cases r <;> simp only [rule, Rule.appliesTo, BruteForce.appliesTo, PasswordSpray.appliesTo,
      PortScan.appliesTo, DataExfiltration.appliesTo, AuthAnomaly.appliesTo, Bool.and_eq_true] at h
      <;> tauto
  obtain ⟨ip, hip⟩ := Option.isSome_iff_exists.mp hsome
  exact ⟨ip.text, by rw [SecurityEvent.sourceText, hip]; rfl⟩

theorem isSome_ite (ws : Windows) (d : Detection) (quiet : Prop) [Decidable quiet] :
    let out : Evaluation := if quiet then (ws, .ok none) else (ws, .ok (some d))
    out.1 = ws ∧ (out.2.toOption.join.isSome ↔ ¬ quiet) := by
  by_cases h : quiet
  · simp [h, Except.toOption]
  · simp [h, Except.toOption]

theorem counts_iff (hr : r ≠ .bruteForce) (h : r.rule.appliesTo py ev) :
    r.counts py ev ↔ r = .authAnomaly → ev.status = some .success := by
  simp [counts, admits, hr, h, Classical.or_iff_not_imp_left]

/-- An evaluation is one call of the store, and reports when what it reads off the answer
reaches the threshold, on events that add to the quantity. -/
def AttemptsCall (py : Python) (p : Params) (r : WindowRule) (o : Sighting) (ws : Windows) :
    Prop :=
  (o.attempt py p r.rule ws).1 = ((r.call py p o).run py ws).1 ∧
    ((o.attempt py p r.rule ws).2.isSome ↔ r.counts py o.event ∧
      r.threshold p ≤ r.read ((r.call py p o).run py ws).2)

theorem attempt_passwordSpray (hw : o.Watched .passwordSpray)
    (h : Rule.passwordSpray.appliesTo py o.event) : AttemptsCall py p .passwordSpray o ws := by
  obtain ⟨ip, hip⟩ := @sourceText_of_appliesTo py .passwordSpray o.event h
  have hcounts := @counts_iff py .passwordSpray o.event (by decide) h
  have hrun : (passwordSpray.call py p o).run py ws =
      let out := ws.addAndMeasure (o.ticks .passwordSpray) "spray" ip
        (py.lower (o.event.user.getD "-")) p.sprayWindow o.event.epoch
      (out.1, .measured out.2) := by
    simp only [Windows.Call.run, call, operation, entity, bucket, window, hip, Option.getD_some]
    rfl
  have hspec := isSome_ite (ws.addAndMeasure (o.ticks .passwordSpray) "spray" ip
    (py.lower (o.event.user.getD "-")) p.sprayWindow o.event.epoch).1
  rw [AttemptsCall, hrun, hcounts, rule, Sighting.attempt_of_watched hw, if_pos h]
  simp only [Rule.evaluate, PasswordSpray.evaluate, hip, reduceCtorEq, IsEmpty.forall_iff,
    true_and]
  exact ⟨(hspec _ _).1, (hspec _ _).2.trans not_lt⟩

theorem attempt_portScan (hw : o.Watched .portScan) (h : Rule.portScan.appliesTo py o.event) :
    AttemptsCall py p .portScan o ws := by
  obtain ⟨ip, hip⟩ := @sourceText_of_appliesTo py .portScan o.event h
  have hcounts := @counts_iff py .portScan o.event (by decide) h
  have hrun : (portScan.call py p o).run py ws =
      let out := ws.addAndMeasure (o.ticks .portScan) "portscan" ip
        (shownPort o.event.destinationPort) p.portScanWindow o.event.epoch
      (out.1, .measured out.2) := by
    simp only [Windows.Call.run, call, operation, entity, bucket, window, hip, Option.getD_some]
    rfl
  have hspec := isSome_ite (ws.addAndMeasure (o.ticks .portScan) "portscan" ip
    (shownPort o.event.destinationPort) p.portScanWindow o.event.epoch).1
  rw [AttemptsCall, hrun, hcounts, rule, Sighting.attempt_of_watched hw, if_pos h]
  simp only [Rule.evaluate, PortScan.evaluate, hip, reduceCtorEq, IsEmpty.forall_iff, true_and]
  exact ⟨(hspec _ _).1, (hspec _ _).2.trans not_lt⟩

theorem attempt_dataExfiltration (hthr : 0 < p.bytesThreshold) (hw : o.Watched .dataExfiltration)
    (h : Rule.dataExfiltration.appliesTo py o.event) :
    AttemptsCall py p .dataExfiltration o ws := by
  obtain ⟨ip, hip⟩ := @sourceText_of_appliesTo py .dataExfiltration o.event h
  have hcounts := @counts_iff py .dataExfiltration o.event (by decide) h
  have hrun : (dataExfiltration.call py p o).run py ws =
      let out := ws.incrSum py (o.ticks .dataExfiltration) "exfil"
        (ip ++ "->" ++ o.event.destinationText.getD "any") o.event.bytesOut.val p.exfilWindow
        o.event.epoch
      (out.1, .total out.2) := by
    have hvalue := value?_operation py dataExfiltration o.event
    simp only [operation] at hvalue
    simp only [Windows.Call.run, call, operation, entity, bucket, window, hip, Option.getD_some,
      if_neg hvalue]
    rfl
  have hspec := isSome_ite (ws.incrSum py (o.ticks .dataExfiltration) "exfil"
    (ip ++ "->" ++ o.event.destinationText.getD "any") o.event.bytesOut.val p.exfilWindow
    o.event.epoch).1
  rw [AttemptsCall, hrun, hcounts, rule, Sighting.attempt_of_watched hw, if_pos h]
  -- the threshold divides the total in the confidence
  simp only [Rule.evaluate, DataExfiltration.evaluate, hip, reduceCtorEq, IsEmpty.forall_iff,
    true_and, if_neg hthr.ne']
  exact ⟨(hspec _ _).1, (hspec _ _).2.trans not_lt⟩

/-- RULE-007 stores failures too, under another key, and reports on successes only. -/
theorem attempt_authAnomaly (hw : o.Watched .authAnomaly)
    (h : Rule.authAnomaly.appliesTo py o.event) : AttemptsCall py p .authAnomaly o ws := by
  obtain ⟨ip, hip⟩ := @sourceText_of_appliesTo py .authAnomaly o.event h
  have hcounts := @counts_iff py .authAnomaly o.event (by decide) h
  obtain ⟨user, huser⟩ : ∃ user, o.event.user = some user := by
    simp only [Rule.appliesTo, AuthAnomaly.appliesTo, Bool.and_eq_true] at h
    obtain ⟨user, huser⟩ := Option.isSome_iff_exists.mp h.1.2
    exact ⟨user.val, by rw [SecurityEvent.user, huser]; rfl⟩
  have hrun : (authAnomaly.call py p o).run py ws =
      let out := ws.addAndMeasure (o.ticks .authAnomaly)
        (if o.event.status = some .success then "authgeo_ok" else "authgeo_fail")
        (py.lower user) ip p.authGeoWindow o.event.epoch
      (out.1, .measured out.2) := by
    simp only [Windows.Call.run, call, operation, entity, bucket, window, hip, huser,
      Option.getD_some]
    rfl
  have hspec := isSome_ite (ws.addAndMeasure (o.ticks .authAnomaly)
    (if o.event.status = some .success then "authgeo_ok" else "authgeo_fail")
    (py.lower user) ip p.authGeoWindow o.event.epoch).1
  rw [AttemptsCall, hrun, hcounts, rule, Sighting.attempt_of_watched hw, if_pos h]
  simp only [Rule.evaluate, AuthAnomaly.evaluate, hip, huser, forall_true_left]
  refine ⟨(hspec _ _).1, (hspec _ _).2.trans ?_⟩
  rw [not_or, not_not, not_lt]
  rfl

theorem attempt_eq (hr : r ≠ .bruteForce) (hthr : 0 < r.threshold p) (hw : o.Watched r.rule)
    (h : r.rule.appliesTo py o.event) : AttemptsCall py p r o ws := by
  cases r with
  | bruteForce => exact absurd rfl hr
  | passwordSpray => exact attempt_passwordSpray hw h
  | portScan => exact attempt_portScan hw h
  | dataExfiltration => exact attempt_dataExfiltration hthr hw h
  | authAnomaly => exact attempt_authAnomaly hw h

theorem firesAt_iff_attempt {i : ℕ} (ho : os[i]? = some o) :
    r.FiresAt py p os i ↔
      (o.attempt py p r.rule (Sighting.after py p [] (os.take i))).2.isSome := by
  have hmem := fun d => @Sighting.mem_evaluate_iff py p o r.rule
    (Sighting.after py p [] (os.take i)) d
  rw [Option.isSome_iff_exists]
  constructor
  · rintro ⟨o', ho', d, hd, hid⟩
    rw [Option.some.inj (ho'.symm.trans ho)] at hd
    obtain ⟨d', hout, -⟩ := (hmem d).mp ⟨hd, hid⟩
    exact ⟨d', hout⟩
  · rintro ⟨d, hout⟩
    exact ⟨o, ho, _, (hmem _).mpr ⟨d, hout, rfl⟩⟩

structure DistinctTokens (r : WindowRule) (os : List Sighting) : Prop where
  nodup : (os.map fun o => (o.ticks r.rule).token).Nodup
  separator : ∀ o ∈ os, Windows.separator ∉ (o.ticks r.rule).token.toList

theorem DistinctTokens.sublist {os' : List Sighting} (h : r.DistinctTokens os)
    (hs : os'.Sublist os) : r.DistinctTokens os' :=
  ⟨h.nodup.sublist (hs.map _), fun o ho => h.separator o (hs.subset ho)⟩

theorem member_notMem (h : r.DistinctTokens (os ++ [o])) {as : List Sighting} (hs : as ⊆ os) :
    (r.call py p o).member ∉ (as.map (r.call py p)).map Windows.Call.member := by
  intro hmem
  obtain ⟨c, hc, heq⟩ := List.mem_map.mp hmem
  obtain ⟨a, ha, rfl⟩ := List.mem_map.mp hc
  have htoken := Windows.encode_inj (h.separator a (List.mem_append_left _ (hs ha)))
    (h.separator o (List.mem_append_right _ (List.mem_singleton_self o))) heq
  have hnodup := h.nodup
  rw [List.map_append, List.map_singleton, List.nodup_append] at hnodup
  exact hnodup.2.2 _ (List.mem_map.mpr ⟨a, hs ha, rfl⟩) _ (List.mem_singleton_self _) htoken

theorem bucket_mem (r : WindowRule) (ev : SecurityEvent) :
    r.bucket ev ∈ r.rule.windowNames := by
  cases r with
  | authAnomaly =>
    simp only [bucket]
    split_ifs <;> decide
  | _ => exact List.mem_singleton_self _

/-- The run lemma: under the key of an event stands what the calls under that key leave. -/
theorem slot_after (hr : r ≠ .bruteForce) (hthr : 0 < r.threshold p) (ev : SecurityEvent)
    (hw : ∀ o ∈ os, o.Watched r.rule) (ht : r.DistinctTokens os) :
    Dict.get? (Sighting.after py p [] os) (r.key py ev) =
      Windows.slot ((os.filter (r.concerns py ev)).map (r.call py p)) := by
  induction os using List.reverseRecOn with
  | nil => rfl
  | append_singleton os o ih =>
    have hwatch := hw o (List.mem_append_right _ (List.mem_singleton_self o))
    have hprev := ih (fun a ha => hw a (List.mem_append_left _ ha))
      (ht.sublist (List.sublist_append_left _ _))
    have hstep : Sighting.after py p [] (os ++ [o]) =
        (o.evaluate py p (Sighting.after py p [] os)).1 := by
      rw [Sighting.after, List.foldl_append]
      rfl
    have hown : Dict.get? (o.evaluate py p (Sighting.after py p [] os)).1 (r.key py ev) =
        Dict.get? (o.attempt py p r.rule (Sighting.after py p [] os)).1 (r.key py ev) :=
      o.agree_evaluate r.rule (Footprint.Agree.refl _) _ ⟨_, bucket_mem r ev, r.entity py ev, rfl⟩
    have hvalue : (r.call py p o).operation.value? ≠ none := value?_operation py r o.event
    rw [hstep, hown, List.filter_append]
    by_cases happlies : r.rule.appliesTo py o.event
    · rw [(attempt_eq hr hthr hwatch happlies).1]
      by_cases hkey : r.key py o.event = r.key py ev
      · have hconcerns : r.concerns py ev o := by simp [concerns, happlies, hkey]
        rw [List.filter_cons_of_pos hconcerns, List.filter_nil, List.map_append, List.map_singleton]
        have hcall : (r.call py p o).key = r.key py ev := hkey
        rw [← hcall] at hprev ⊢
        exact (Windows.run_eq hvalue hprev (member_notMem ht (List.filter_subset_self _))).2
      · have hconcerns : ¬ r.concerns py ev o := by simp [concerns, hkey]
        rw [List.filter_cons_of_neg hconcerns, List.filter_nil, List.append_nil,
          Windows.get?_run_of_ne hvalue hkey, hprev]
    · have hskip : (o.attempt py p r.rule (Sighting.after py p [] os)).1 =
          Sighting.after py p [] os := by
        rw [Sighting.attempt_of_watched hwatch, if_neg happlies]
      have hconcerns : ¬ r.concerns py ev o := by simp [concerns, happlies]
      rw [hskip, List.filter_cons_of_neg hconcerns, List.filter_nil, List.append_nil, hprev]

theorem decode_member_call (o : Sighting) (value : String)
    (h : r.operation py o.event = .addAndMeasure value) :
    Windows.decode (r.call py p o).member = Windows.decode value := by
  rw [Windows.Call.member, Windows.decode_encode]
  simp only [Windows.Call.value, call, h]
  rfl

theorem read_answer (hr : r ≠ .bruteForce) (o : Sighting) (as : List Sighting) :
    r.read (Windows.answer py (r.call py p o) ((as.map (r.call py p)).map Windows.Call.entry)) =
      r.observed py (as.map Sighting.event) := by
  have hvalues : ∀ f : SecurityEvent → String,
      (∀ ev, r.operation py ev = .addAndMeasure (f ev)) →
      ((as.map (r.call py p)).map Windows.Call.entry).map (fun e => Windows.decode e.1) =
        (as.map Sighting.event).map fun ev => Windows.decode (f ev) := by
    intro f hf
    simp only [List.map_map]
    exact List.map_congr_left fun a _ => decode_member_call a (f a.event) (hf a.event)
  cases r with
  | bruteForce => exact absurd rfl hr
  | passwordSpray =>
    change ((accounts (Windows.toResult _ _).uniqueValues).length : ℤ) = _
    rw [Windows.uniqueValues_toResult, hvalues _ fun ev => rfl]
    rfl
  | portScan =>
    change ((Windows.toResult _ _).uniqueValues.length : ℤ) = _
    rw [Windows.uniqueValues_toResult, hvalues _ fun ev => rfl]
    rfl
  | authAnomaly =>
    change ((Windows.toResult _ _).uniqueValues.length : ℤ) = _
    rw [Windows.uniqueValues_toResult, hvalues _ fun ev => rfl]
    rfl
  | dataExfiltration =>
    refine congrArg List.sum ?_
    simp only [List.map_map]
    refine List.map_congr_left fun a _ => ?_
    have hvalue : (dataExfiltration.call py p a).operation.value? ≠ none :=
      value?_operation py dataExfiltration a.event
    have hmember := @Windows.decode_member (dataExfiltration.call py p a) fun h => by cases h
    have hread := Windows.pyInt_value py rfl hvalue
    simp only [Function.comp_apply, Windows.Call.entry, hmember, hread, Option.getD_some]
    rfl

theorem take_concat {i : ℕ} (ho : os[i]? = some o) : os.take (i + 1) = os.take i ++ [o] := by
  rw [List.take_add_one, ho]
  rfl

theorem concerns_bruteForce {ip : String} (hip : ev.sourceText = some ip) :
    bruteForce.concerns py ev = BruteForce.concerns ip := by
  funext a
  by_cases happlies : BruteForce.appliesTo a.event
  · obtain ⟨ip', hip'⟩ := @sourceText_of_appliesTo py bruteForce a.event happlies
    have hkey : bruteForce.key py a.event = bruteForce.key py ev ↔ ip' = ip := by
      simp only [key, bucket, entity, hip, hip', Option.getD_some]
      exact ⟨fun h => (Windows.key_inj (by decide) (by decide) h).2, fun h => by rw [h]⟩
    simp [concerns, BruteForce.concerns, rule, Rule.appliesTo, happlies, hip', hkey]
  · simp [concerns, BruteForce.concerns, rule, Rule.appliesTo, happlies]

theorem DistinctTokens.distinctMembers (h : bruteForce.DistinctTokens os) (ip : String) :
    BruteForce.DistinctMembers (BruteForce.arrivals ip os) := by
  have hmembers : (os.map BruteForce.member).Nodup := by
    have hpair := List.pairwise_map.mp h.nodup
    refine List.pairwise_map.mpr (hpair.imp_of_mem fun {a b} ha hb hne heq => hne ?_)
    exact Windows.encode_inj (h.separator a ha) (h.separator b hb) heq
  exact hmembers.sublist ((List.filter_sublist.trans List.filter_sublist).map _)

theorem firesAt_iff (hthr : 0 < r.threshold p) (hw : ∀ o ∈ os, o.Watched r.rule)
    (ht : r.DistinctTokens os) {i : ℕ} (ho : os[i]? = some o) (h : r.admits py o.event) :
    r.FiresAt py p os i ↔ r.threshold p ≤ r.retained py p (os.take (i + 1)) o.event := by
  have happlies : r.rule.appliesTo py o.event := by
    rw [admits, Bool.and_eq_true] at h
    exact h.1
  have hmem := List.mem_of_getElem? ho
  by_cases hr : r = .bruteForce
  · subst hr
    obtain ⟨ip, hip⟩ := sourceText_of_appliesTo happlies
    have hfires := @BruteForce.firesAt_iff py p ip os hw (ht.distinctMembers ip) i o ho
      (BruteForce.concerns_iff.mpr ⟨happlies, hip⟩)
    have hcounts : bruteForce.counts py o.event := by simp [counts, h]
    rw [retained, if_pos hcounts, kept, concerns_bruteForce hip, observed, List.length_map]
    exact hfires
  · have hpre : (os.take i ++ [o]).Sublist os := take_concat ho ▸ List.take_sublist _ _
    have hslot := @slot_after py p r (os.take i) hr hthr o.event
      (fun a ha => hw a (List.take_subset _ _ ha)) (ht.sublist (List.take_sublist _ _))
    have hvalue : (r.call py p o).operation.value? ≠ none := value?_operation py r o.event
    have hanswer := (@Windows.run_eq py _ _ _ hvalue hslot
      (member_notMem (ht.sublist hpre) (List.filter_subset_self _))).1
    have hconcerns : r.concerns py o.event o := by simp [concerns, happlies]
    have hkept : Windows.live (((os.take i).filter (r.concerns py o.event)).map (r.call py p) ++
        [r.call py p o]) = (r.kept py p (os.take (i + 1)) o.event).map (r.call py p) := by
      have hreading : r.reading py p = Windows.reading.comap (r.call py p) := by
        cases r <;> first | rfl | exact absurd rfl hr
      rw [kept, hreading, take_concat ho, List.filter_append, List.filter_cons_of_pos hconcerns,
        List.filter_nil, ← Retention.Reading.survivors_map, List.map_append, List.map_singleton]
    rw [hkept] at hanswer
    rw [firesAt_iff_attempt ho, (attempt_eq hr hthr (hw o hmem) happlies).2, hanswer,
      read_answer hr, retained]
    by_cases hcounts : r.counts py o.event
    · rw [if_pos hcounts]
      exact and_iff_right hcounts
    · rw [if_neg hcounts]
      exact iff_of_false (fun hand => hcounts hand.1) (not_le.mpr hthr)

theorem length_dedup_map_eq_iff {α β : Type*} [DecidableEq α] [DecidableEq β] {xs ys : List α}
    (g : α → β) (h : xs ⊆ ys) : (xs.map g).dedup.length = ys.dedup.length ↔
      ys ⊆ xs ∧ Set.InjOn g {y | y ∈ ys} := by
  have himage : (xs.map g).toFinset = xs.toFinset.image g := by
    ext y
    simp
  have hsub : xs.toFinset ⊆ ys.toFinset := fun x hx =>
    List.mem_toFinset.mpr (h (List.mem_toFinset.mp hx))
  have hset : {y | y ∈ ys} = (ys.toFinset : Set α) := by
    ext y
    simp
  rw [← List.card_toFinset, ← List.card_toFinset, himage, hset]
  constructor
  · intro hcard
    have hle : ys.toFinset.card ≤ xs.toFinset.card := hcard.symm.trans_le Finset.card_image_le
    have heq : xs.toFinset = ys.toFinset := Finset.eq_of_subset_of_card_le hsub hle
    refine ⟨fun y hy => ?_, ?_⟩
    · exact List.mem_toFinset.mp (heq ▸ List.mem_toFinset.mpr hy)
    · rw [← Finset.card_image_iff, ← heq, hcard, heq]
  · rintro ⟨hsup, hinj⟩
    have heq : xs.toFinset = ys.toFinset := by
      ext y
      rw [List.mem_toFinset, List.mem_toFinset]
      exact ⟨fun hy => h hy, fun hy => hsup hy⟩
    rw [heq]
    exact Finset.card_image_of_injOn hinj

theorem counts_of_adds {a : Sighting} (hev : r.counts py ev) (ha : r.concerns py ev a)
    (hadds : (r.reading py p).adds a) :
    r.counts py a.event ∧ r.entity py a.event = r.entity py ev := by
  rw [concerns, Bool.and_eq_true, decide_eq_true_eq] at ha
  obtain ⟨happlies, hkey⟩ := ha
  have hnames : ∀ ev, ':' ∉ (r.bucket ev).toList := fun ev =>
    r.rule.separator_notMem_windowNames (bucket_mem r ev)
  obtain ⟨hbucket, hentity⟩ := Windows.key_inj (hnames _) (hnames _) hkey
  refine ⟨?_, hentity⟩
  cases r with
  | bruteForce =>
    have hfail : BruteForce.isFailure a := hadds
    have htype : a.event.eventType = .authFailure := by
      simp only [rule, Rule.appliesTo, BruteForce.appliesTo, BruteForce.isFailure] at happlies hfail
      simp_all
    simp [counts, admits, happlies, htype]
  | authAnomaly =>
    have hboth : authAnomaly.admits py ev ∧ ev.status = some .success := by
      simpa [counts] using hev
    have hsuccess := hboth.2
    have hstatus : a.event.status = some .success := by
      by_contra hne
      simp [bucket, hsuccess, hne] at hbucket
    simp [counts, admits, happlies, hstatus]
  | _ => simp [counts, admits, happlies]

theorem adds_of_counts (h : r.counts py o.event) : (r.reading py p).adds o = true := by
  cases r with
  | bruteForce =>
    have htype : o.event.eventType = .authFailure := by
      have hboth : bruteForce.rule.appliesTo py o.event ∧ o.event.eventType = .authFailure := by
        simpa [counts, admits] using h
      exact hboth.2
    change BruteForce.isFailure o = true
    simp [BruteForce.isFailure, htype]
  | _ => rfl

theorem reading_of_counts (h : r.counts py o.event) (a : Sighting) :
    (r.reading py p).score a = a.event.epoch ∧
      (r.reading py p).cutoff o = Binary64.sub o.event.epoch (r.window p) := by
  cases r with
  | bruteForce =>
    have hfail : BruteForce.isFailure o = true := @adds_of_counts py p _ _ h
    have htype : o.event.eventType ≠ .authSuccess := by simpa [BruteForce.isFailure] using hfail
    refine ⟨rfl, ?_⟩
    change Binary64.sub (BruteForce.measuredAt o) _ = _
    rw [BruteForce.measuredAt, if_neg htype]
    rfl
  | _ => exact ⟨rfl, rfl⟩

theorem kept_sublist {i : ℕ} (ho : os[i]? = some o) (h : r.counts py o.event)
    (hwin : 0 < r.window p)
    (hord : os.Pairwise fun a b => a.event.timestamp ≤ b.event.timestamp) :
    ((r.kept py p (os.take (i + 1)) o.event).map Sighting.event).Sublist
      (r.inWindow py p (os.take (i + 1)) o.event) := by
  have hconcerns : r.concerns py o.event o := by
    have happlies : r.rule.appliesTo py o.event := by
      simp only [counts, admits, Bool.and_eq_true] at h
      exact h.1.1
    simp [concerns, happlies]
  have hbefore : ∀ a ∈ os.take i, a.event.epoch ≤ o.event.epoch := by
    intro a ha
    have hpair := hord.sublist (List.take_sublist (i + 1) os)
    rw [take_concat ho] at hpair
    exact SecurityEvent.epoch_mono ((List.pairwise_append.mp hpair).2.2 a ha o
      (List.mem_singleton_self o))
  have hin : ∀ a ∈ os.take i, r.concerns py o.event a → (r.reading py p).adds a →
      (r.reading py p).cutoff o < (r.reading py p).score a →
      r.counts py a.event ∧ r.entity py a.event = r.entity py o.event ∧
        o.event.epoch - r.window p < a.event.epoch ∧ a.event.epoch ≤ o.event.epoch := by
    intro a ha hac hadds hlt
    rw [(reading_of_counts h a).1, (reading_of_counts h a).2] at hlt
    obtain ⟨hcounts, hentity⟩ := counts_of_adds h hac hadds
    exact ⟨hcounts, hentity, Binary64.lt_of_sub_lt a.event.nearest_epoch hlt, hbefore a ha⟩
  have hself : o.event.epoch - r.window p < o.event.epoch := by
    have hpos : (0 : ℚ) < r.window p := Int.cast_pos.mpr hwin
    linarith
  have hsub := @Retention.Reading.survivors_concat_sublist _ _ _ (r.reading py p) _ _
    ((os.take i).filter (r.concerns py o.event)) o
  rw [if_pos (adds_of_counts h), List.filter_filter] at hsub
  rw [inWindow, List.filter_map, kept, take_concat ho, List.filter_append,
    List.filter_cons_of_pos hconcerns, List.filter_nil]
  refine (hsub.trans ?_).map _
  rw [List.filter_append]
  refine List.Sublist.append ?_ ?_
  · refine Retention.filter_sublist_filter fun a ha hac => ?_
    simp only [Bool.and_eq_true, decide_eq_true_eq] at hac
    exact decide_eq_true (hin a ha hac.2 hac.1.1 hac.1.2)
  · rw [List.filter_cons_of_pos]
    · exact List.Sublist.refl _
    · exact decide_eq_true ⟨h, rfl, hself, le_rfl⟩

end WindowRule

end SiemEngine

import SiemEngine.Detection.Engine
import SiemEngine.Lib.Footprint
import SiemEngine.Storage.Events

/-!
# Isolation of the detectors

All detectors keep their state in one Redis key space, under keys made of a window name
and a text the producer controls. No window name contains the separator, so each rule
owns its keys whatever the entities are, and no rule reads or writes another's.
-/

namespace SiemEngine

open Footprint

namespace Windows

theorem split_at_eq {α : Type*} {c : α} {xs xs' ys ys' : List α} (h : c ∉ xs) (h' : c ∉ xs')
    (heq : xs ++ c :: ys = xs' ++ c :: ys') : xs = xs' ∧ ys = ys' := by
  induction xs generalizing xs' with
  | nil =>
    cases xs' with
    | nil => exact ⟨rfl, (List.cons.inj heq).2⟩
    | cons b xs' => exact absurd (List.cons.inj heq).1 (List.ne_of_not_mem_cons h')
  | cons a xs ih =>
    cases xs' with
    | nil => exact absurd (List.cons.inj heq).1.symm (List.ne_of_not_mem_cons h)
    | cons b xs' =>
      obtain ⟨hab, hrest⟩ := List.cons.inj heq
      obtain ⟨hxs, hys⟩ := ih (List.not_mem_of_not_mem_cons h) (List.not_mem_of_not_mem_cons h')
        hrest
      exact ⟨by rw [hab, hxs], hys⟩

theorem key_inj {name name' entity entity' : String} (hname : ':' ∉ name.toList)
    (hname' : ':' ∉ name'.toList) (h : key name entity = key name' entity') :
    name = name' ∧ entity = entity' := by
  have hlist := congrArg String.toList h
  simp only [key, String.toList_append, List.append_assoc, List.append_cancel_left_eq] at hlist
  change name.toList ++ ':' :: entity.toList = name'.toList ++ ':' :: entity'.toList at hlist
  obtain ⟨hn, he⟩ := split_at_eq hname hname' hlist
  exact ⟨String.toList_injective hn, String.toList_injective he⟩

theorem trimmed_congr {ws ws' : Windows} {key : String} (h : Dict.get? ws key = Dict.get? ws' key)
    (clock : Time) (cutoff : ℚ) : trimmed ws clock key cutoff = trimmed ws' clock key cutoff := by
  rw [trimmed, trimmed, h]

theorem localTo_add (tick : Tick) (key value : String) (windowSeconds : ℤ) (now : ℚ) :
    LocalTo Dict.get? {key} fun ws : Windows => ws.add tick key value windowSeconds now := by
  refine ⟨fun ws k hk => Dict.get?_set_ne ws hk _, fun ws ws' h => ?_⟩
  have htrim := trimmed_congr (h key rfl) tick.clock (Binary64.sub now windowSeconds)
  refine ⟨by rw [add, add, htrim], fun k hk => ?_⟩
  rw [Set.mem_singleton_iff] at hk
  rw [hk, add, add, htrim, Dict.get?_set_self, Dict.get?_set_self]

theorem localTo_addAndMeasure (tick : Tick) (name entity value : String) (windowSeconds : ℤ)
    (now : ℚ) : LocalTo Dict.get? {key name entity} fun ws : Windows =>
      ws.addAndMeasure tick name entity value windowSeconds now :=
  (localTo_add tick (key name entity) value windowSeconds now).map fun ms => toResult ms now

theorem localTo_incrSum (py : Python) (tick : Tick) (name entity : String) (amount : ℤ)
    (windowSeconds : ℤ) (now : ℚ) : LocalTo Dict.get? {key name entity} fun ws : Windows =>
      ws.incrSum py tick name entity amount windowSeconds now := by
  obtain ⟨hframe, hcongr⟩ :=
    localTo_add tick (key name entity) (toString amount) windowSeconds now
  refine ⟨hframe, fun ws ws' h => ?_⟩
  obtain ⟨hres, hagree⟩ := hcongr ws ws' h
  exact ⟨by simp only [incrSum, hres], hagree⟩

theorem localTo_measure (tick : Tick) (name entity : String) (windowSeconds : ℤ) :
    LocalTo Dict.get? {key name entity} fun ws : Windows =>
      ws.measure tick name entity windowSeconds := by
  refine ⟨fun ws k hk => ?_, fun ws ws' h => ?_⟩
  · simp only [measure]
    split
    · rfl
    · exact Dict.get?_set_ne ws hk _
  · have hkey := h (key name entity) rfl
    have htrim := trimmed_congr hkey tick.clock
      (Binary64.sub (Datetime.timestamp tick.clock) windowSeconds)
    refine ⟨by simp only [measure, htrim], fun k hk => ?_⟩
    rw [Set.mem_singleton_iff] at hk
    rw [hk]
    simp only [measure, htrim]
    cases hget : Dict.get? ws' (key name entity) with
    | none => simp only [hkey, hget]
    | some set => simp only [hkey, hget, Dict.get?_set_self]

end Windows

namespace Rule

def ruleId : Rule → String
  | .bruteForce => BruteForce.ruleId
  | .passwordSpray => PasswordSpray.ruleId
  | .portScan => PortScan.ruleId
  | .privilegeEscalation => PrivilegeEscalation.ruleId
  | .suspiciousSql => SuspiciousSql.ruleId
  | .dataExfiltration => DataExfiltration.ruleId
  | .authAnomaly => AuthAnomaly.ruleId

def windowNames : Rule → List String
  | .bruteForce => ["bruteforce"]
  | .passwordSpray => ["spray"]
  | .portScan => ["portscan"]
  | .privilegeEscalation => []
  | .suspiciousSql => []
  | .dataExfiltration => ["exfil"]
  | .authAnomaly => ["authgeo_ok", "authgeo_fail"]

def keys (rule : Rule) : Set String :=
  {key | ∃ name ∈ rule.windowNames, ∃ entity, key = Windows.key name entity}

theorem mem_all (rule : Rule) : rule ∈ all := by cases rule <;> decide

theorem ruleId_injective {rule rule' : Rule} (h : rule.ruleId = rule'.ruleId) : rule = rule' := by
  have hall : ∀ r ∈ all, ∀ r' ∈ all, r.ruleId = r'.ruleId → r = r' := by decide
  exact hall rule rule.mem_all rule' rule'.mem_all h

theorem separator_notMem_windowNames (rule : Rule) {name : String}
    (h : name ∈ rule.windowNames) : ':' ∉ name.toList := by
  have hall : ∀ r ∈ all, ∀ n ∈ r.windowNames, ':' ∉ n.toList := by decide
  exact hall rule rule.mem_all name h

theorem windowNames_disjoint {rule rule' : Rule} (h : rule ≠ rule') {name : String}
    (hname : name ∈ rule.windowNames) : name ∉ rule'.windowNames := by
  have hall : ∀ r ∈ all, ∀ r' ∈ all, r ≠ r' → ∀ n ∈ r.windowNames, n ∉ r'.windowNames := by
    decide
  exact hall rule rule.mem_all rule' rule'.mem_all h name hname

theorem keys_disjoint (rule rule' : Rule) (h : rule ≠ rule') (key : String)
    (hkey : key ∈ rule.keys) : key ∉ rule'.keys := by
  intro hkey'
  obtain ⟨name, hname, entity, rfl⟩ := hkey
  obtain ⟨name', hname', entity', heq⟩ := hkey'
  obtain ⟨rfl, -⟩ := Windows.key_inj (rule.separator_notMem_windowNames hname)
    (rule'.separator_notMem_windowNames hname') heq
  exact windowNames_disjoint h hname hname'

section

variable (py : Python) (p : Params) (tick : Tick) (ev : SecurityEvent)

theorem singleton_subset_keys {rule : Rule} {name : String} (h : name ∈ rule.windowNames)
    (entity : String) : ∀ k ∈ ({Windows.key name entity} : Set String), k ∈ rule.keys :=
  fun _ hk => ⟨name, h, entity, hk⟩

theorem localTo_observe (ip : String) :
    LocalTo Dict.get? {Windows.key "bruteforce" ip} (BruteForce.observe p tick ev ip) := by
  unfold BruteForce.observe
  split_ifs
  · exact Windows.localTo_measure ..
  · exact Windows.localTo_addAndMeasure ..

theorem localTo_bruteForce :
    LocalTo Dict.get? bruteForce.keys (BruteForce.evaluate py p tick ev) := by
  unfold BruteForce.evaluate
  cases ev.sourceText with
  | none => exact localTo_const _ _
  | some ip =>
    refine ((localTo_observe p tick ev ip).mono (singleton_subset_keys (by decide) ip)).of_map
      (fun res => if (res.count : ℤ) < p.maxFailures then .ok none
        else .ok (some (BruteForce.detection py p ev ip res (ev.eventType = .authSuccess)))) ?_
    intro ws
    dsimp only
    split_ifs <;> rfl

theorem localTo_passwordSpray :
    LocalTo Dict.get? passwordSpray.keys (PasswordSpray.evaluate py p tick ev) := by
  unfold PasswordSpray.evaluate
  cases ev.sourceText with
  | none => exact localTo_const _ _
  | some ip =>
    refine ((Windows.localTo_addAndMeasure tick "spray" ip (py.lower (ev.user.getD "-"))
      p.sprayWindow ev.epoch).mono (singleton_subset_keys (by decide) ip)).of_map
      (fun res => if ((accounts res.uniqueValues).length : ℤ) < p.uniqueUsers then .ok none
        else .ok (some (PasswordSpray.detection py p ev ip res))) ?_
    intro ws
    dsimp only
    split_ifs <;> rfl

theorem localTo_portScan : LocalTo Dict.get? portScan.keys (PortScan.evaluate py p tick ev) := by
  unfold PortScan.evaluate
  cases ev.sourceText with
  | none => exact localTo_const _ _
  | some ip =>
    refine ((Windows.localTo_addAndMeasure tick "portscan" ip (shownPort ev.destinationPort)
      p.portScanWindow ev.epoch).mono (singleton_subset_keys (by decide) ip)).of_map
      (fun res => if (res.uniqueValues.length : ℤ) < p.uniquePorts then .ok none
        else .ok (some (PortScan.detection py p ev ip res))) ?_
    intro ws
    dsimp only
    split_ifs <;> rfl

theorem localTo_dataExfiltration :
    LocalTo Dict.get? dataExfiltration.keys (DataExfiltration.evaluate py p tick ev) := by
  unfold DataExfiltration.evaluate
  cases ev.sourceText with
  | none => exact localTo_const _ _
  | some ip =>
    let entity := ip ++ "->" ++ ev.destinationText.getD "any"
    refine ((Windows.localTo_incrSum py tick "exfil" entity ev.bytesOut.val p.exfilWindow
      ev.epoch).mono (singleton_subset_keys (by decide) entity)).of_map
      (fun total => if total < p.bytesThreshold then .ok none
        else if p.bytesThreshold = 0 then .error .zeroDivision
        else .ok (some (DataExfiltration.detection py p ev ip total))) ?_
    intro ws
    dsimp only
    split_ifs <;> rfl

theorem localTo_authAnomaly :
    LocalTo Dict.get? authAnomaly.keys (AuthAnomaly.evaluate py p tick ev) := by
  unfold AuthAnomaly.evaluate
  cases ev.user with
  | none => exact localTo_const _ _
  | some user =>
    cases ev.sourceText with
    | none => exact localTo_const _ _
    | some ip =>
      have hbucket : (if ev.status = some .success then "authgeo_ok" else "authgeo_fail") ∈
          authAnomaly.windowNames := by split_ifs <;> decide
      refine ((Windows.localTo_addAndMeasure tick _ (py.lower user) ip p.authGeoWindow
        ev.epoch).mono (singleton_subset_keys hbucket _)).of_map
        (fun res => if ev.status ≠ some .success ∨ (res.uniqueValues.length : ℤ) < p.distinctIps
          then .ok none else .ok (some (AuthAnomaly.detection py p ev user ip res))) ?_
      intro ws
      dsimp only
      split_ifs <;> rfl

theorem localTo_evaluate (rule : Rule) :
    LocalTo Dict.get? rule.keys fun ws => rule.evaluate py p tick ev ws := by
  cases rule with
  | bruteForce => exact localTo_bruteForce py p tick ev
  | passwordSpray => exact localTo_passwordSpray py p tick ev
  | portScan => exact localTo_portScan py p tick ev
  | privilegeEscalation =>
    unfold evaluate PrivilegeEscalation.evaluate
    dsimp only
    split_ifs <;> exact localTo_const _ _
  | suspiciousSql =>
    unfold evaluate SuspiciousSql.evaluate
    dsimp only
    split_ifs
    · exact localTo_const _ _
    · split
      · exact localTo_const _ _
      · split <;> exact localTo_const _ _
  | dataExfiltration => exact localTo_dataExfiltration py p tick ev
  | authAnomaly => exact localTo_authAnomaly py p tick ev

end

theorem ruleId_evaluate {py : Python} {p : Params} {tick : Tick} {ev : SecurityEvent}
    {ws ws' : Windows} {d : Detection} {rule : Rule}
    (h : rule.evaluate py p tick ev ws = (ws', .ok (some d))) : d.ruleId = rule.ruleId := by
  cases rule with
  | bruteForce => obtain ⟨_, _, _, -, -, rfl⟩ := BruteForce.evaluate_some h; rfl
  | passwordSpray => obtain ⟨_, _, -, -, rfl⟩ := PasswordSpray.evaluate_some h; rfl
  | portScan => obtain ⟨_, _, -, -, rfl⟩ := PortScan.evaluate_some h; rfl
  | privilegeEscalation =>
    obtain rfl := @PrivilegeEscalation.evaluate_some _ _ tick _ _ _ _ h
    rfl
  | suspiciousSql =>
    obtain ⟨_, _, rfl⟩ := @SuspiciousSql.evaluate_some _ _ tick _ _ _ _ h
    rfl
  | dataExfiltration => obtain ⟨_, _, -, -, rfl⟩ := DataExfiltration.evaluate_some h; rfl
  | authAnomaly => obtain ⟨_, _, _, -, -, -, rfl⟩ := AuthAnomaly.evaluate_some h; rfl

end Rule

namespace Detection

def stamped (d : Detection) (tick : Tick) : Detection :=
  { d with triggeredAt := some tick.triggeredAt }

def unstamped (d : Detection) : Detection := { d with triggeredAt := none }

@[simp] theorem stamped_ruleId (d : Detection) (tick : Tick) :
    (d.stamped tick).ruleId = d.ruleId := rfl

end Detection

/-- Where a detector raises: before its Redis transaction is executed, or after. -/
inductive Raise
  | before
  | after

/-- An event as an engine evaluates it, with the rules that are disabled at the time and
the detectors that raise on it. -/
structure Sighting where
  event : SecurityEvent
  ticks : Rule → Tick
  disabled : List Rule := []
  raises : Rule → Option Raise := fun _ => none

namespace Sighting

def Watched (rule : Rule) (o : Sighting) : Prop := rule ∉ o.disabled ∧ o.raises rule = none

variable (py : Python) (p : Params)

/-- One round of the loop of `DetectionEngine.evaluate`, whose `except` drops the result. -/
def runDetector (o : Sighting) (acc : Windows × List Detection) (rule : Rule) :
    Windows × List Detection :=
  match o.raises rule with
  | none => DetectionEngine.runDetector py ⟨p, o.disabled⟩ o.ticks o.event acc rule
  | some .before => acc
  | some .after =>
    if rule ∈ o.disabled ∨ ¬ rule.appliesTo py o.event then acc
    else ((rule.evaluate py p (o.ticks rule) o.event acc.1).1, acc.2)

def evaluate (o : Sighting) (ws : Windows) : Windows × List Detection :=
  Rule.all.foldl (o.runDetector py p) (ws, [])

def after (ws : Windows) (os : List Sighting) : Windows :=
  os.foldl (fun ws o => (o.evaluate py p ws).1) ws

def detections (ws : Windows) : List Sighting → List Detection
  | [] => []
  | o :: os => (o.evaluate py p ws).2 ++ detections (o.evaluate py p ws).1 os

def attempt (o : Sighting) (rule : Rule) (ws : Windows) : Windows × Option Detection :=
  if rule ∈ o.disabled ∨ ¬ rule.appliesTo py o.event then (ws, none)
  else match o.raises rule with
    | none =>
      let out := rule.evaluate py p (o.ticks rule) o.event ws
      (out.1, out.2.toOption.join)
    | some .before => (ws, none)
    | some .after => ((rule.evaluate py p (o.ticks rule) o.event ws).1, none)

def attempts (o : Sighting) : List (Rule × (Windows → Windows × Option Detection)) :=
  Rule.all.map fun rule => (rule, o.attempt py p rule)

def stamp (o : Sighting) (out : Rule × Option Detection) : Option Detection :=
  out.2.map fun d => d.stamped (o.ticks out.1)

variable {py p}

theorem detections_append (ws : Windows) (os os' : List Sighting) :
    detections py p ws (os ++ os') =
      detections py p ws os ++ detections py p (after py p ws os) os' := by
  induction os generalizing ws with
  | nil => rfl
  | cons o os ih =>
    rw [List.cons_append, detections, detections, ih, List.append_assoc]
    rfl

theorem evaluate_eq_engine {o : Sighting} (h : o.raises = fun _ => none) (ws : Windows) :
    o.evaluate py p ws = DetectionEngine.evaluate py ⟨p, o.disabled⟩ o.ticks o.event ws := by
  unfold evaluate DetectionEngine.evaluate
  congr 1
  funext acc rule
  rw [runDetector, h]

theorem runDetector_eq (o : Sighting) (acc : Windows × List Detection) (rule : Rule) :
    o.runDetector py p acc rule = ((o.attempt py p rule acc.1).1,
      acc.2 ++ (o.stamp (rule, (o.attempt py p rule acc.1).2)).toList) := by
  unfold runDetector attempt DetectionEngine.runDetector
  by_cases hskip : rule ∈ o.disabled ∨ ¬ rule.appliesTo py o.event
  · rw [if_pos hskip, if_pos hskip, if_pos hskip]
    split <;> simp [stamp]
  · rw [if_neg hskip, if_neg hskip, if_neg hskip]
    cases o.raises rule with
    | none =>
      cases hout : rule.evaluate py p (o.ticks rule) o.event acc.1 with
      | mk ws r =>
        cases r with
        | error e => simp [stamp, Except.toOption]
        | ok d? => cases d? <;> simp [stamp, Except.toOption, Detection.stamped]
    | some raise => cases raise <;> simp [stamp]

theorem evaluate_eq_run (o : Sighting) (ws : Windows) :
    o.evaluate py p ws =
      (final ws (o.attempts py p), (run ws (o.attempts py p)).filterMap o.stamp) := by
  have hfold : ∀ (rules : List Rule) (acc : Windows × List Detection),
      rules.foldl (o.runDetector py p) acc =
        (final acc.1 (rules.map fun rule => (rule, o.attempt py p rule)),
          acc.2 ++ (run acc.1 (rules.map fun rule => (rule, o.attempt py p rule))).filterMap
            o.stamp) := by
    intro rules
    induction rules with
    | nil => simp [run]
    | cons rule rules ih =>
      intro acc
      rw [List.foldl_cons, ih, runDetector_eq, List.map_cons, final_cons, run, List.filterMap_cons]
      cases o.stamp (rule, (o.attempt py p rule acc.1).2) <;> simp
  exact hfold Rule.all (ws, [])

theorem localTo_attempt (o : Sighting) (rule : Rule) :
    LocalTo Dict.get? rule.keys (o.attempt py p rule) := by
  have hlocal := Rule.localTo_evaluate py p (o.ticks rule) o.event rule
  unfold attempt
  by_cases hskip : rule ∈ o.disabled ∨ ¬ rule.appliesTo py o.event
  · simp only [if_pos hskip]
    exact localTo_const _ _
  · simp only [if_neg hskip]
    cases o.raises rule with
    | none => exact hlocal.map fun r => r.toOption.join
    | some raise =>
      cases raise with
      | before => exact localTo_const _ _
      | after => exact hlocal.map fun _ => none

theorem localTo_attempts (o : Sighting) :
    ∀ io ∈ o.attempts py p, LocalTo Dict.get? io.1.keys io.2 := by
  intro io hio
  obtain ⟨rule, -, rfl⟩ := List.mem_map.mp hio
  exact o.localTo_attempt rule

theorem filter_attempts (o : Sighting) (rule : Rule) :
    (o.attempts py p).filter (fun io => io.1 = rule) = [(rule, o.attempt py p rule)] := by
  rw [attempts, List.filter_map]
  cases rule <;> rfl

theorem ruleId_attempt {o : Sighting} {rule : Rule} {ws : Windows} {d : Detection}
    (h : (o.attempt py p rule ws).2 = some d) : d.ruleId = rule.ruleId := by
  unfold attempt at h
  split_ifs at h with hskip
  split at h
  · cases hout : rule.evaluate py p (o.ticks rule) o.event ws with
    | mk ws' r =>
      rw [hout] at h
      cases r with
      | error e => cases h
      | ok d? =>
        cases h
        exact Rule.ruleId_evaluate hout
  · cases h
  · cases h

theorem filter_evaluate (o : Sighting) (rule : Rule) (ws : Windows) :
    (o.evaluate py p ws).2.filter (fun d => d.ruleId = rule.ruleId) =
      (o.stamp (rule, (o.attempt py p rule ws).2)).toList := by
  have howner : ∀ out ∈ run ws (o.attempts py p), ∀ d, o.stamp out = some d →
      d.ruleId = out.1.ruleId := by
    intro out hout d hd
    obtain ⟨io, hio, ws', hr, hres⟩ := mem_run hout
    obtain ⟨r, -, rfl⟩ := List.mem_map.mp hio
    obtain ⟨d', hd', rfl⟩ := Option.map_eq_some_iff.mp hd
    rw [Detection.stamped_ruleId, ← hr]
    exact ruleId_attempt (hres.trans hd')
  have hfilter : (run ws (o.attempts py p)).filter (fun out => out.1 = rule) =
      [(rule, (o.attempt py p rule ws).2)] := by
    rw [run_filter Rule.keys_disjoint o.localTo_attempts rule (Agree.refl ws), filter_attempts]
    rfl
  rw [evaluate_eq_run, List.filter_filterMap]
  calc (run ws (o.attempts py p)).filterMap
        (fun out => (o.stamp out).filter fun d => d.ruleId = rule.ruleId)
      = (run ws (o.attempts py p)).filterMap
          (fun out => if out.1 = rule then o.stamp out else none) := by
        refine List.filterMap_congr fun out hout => ?_
        cases hd : o.stamp out with
        | none => simp
        | some d =>
          have hid : d.ruleId = rule.ruleId ↔ out.1 = rule := by
            rw [howner out hout d hd]
            exact ⟨Rule.ruleId_injective, congrArg Rule.ruleId⟩
          simp [Option.filter_some, hid]
    _ = ((run ws (o.attempts py p)).filter fun out => out.1 = rule).filterMap o.stamp := by
        rw [List.filterMap_filter]
        simp
    _ = (o.stamp (rule, (o.attempt py p rule ws).2)).toList := by
        rw [hfilter, List.filterMap_cons]
        cases o.stamp (rule, (o.attempt py p rule ws).2) <;> rfl

theorem mem_evaluate_iff (o : Sighting) (rule : Rule) (ws : Windows) {d : Detection} :
    d ∈ (o.evaluate py p ws).2 ∧ d.ruleId = rule.ruleId ↔
      ∃ d', (o.attempt py p rule ws).2 = some d' ∧ d'.stamped (o.ticks rule) = d := by
  have hmem : d ∈ (o.evaluate py p ws).2 ∧ d.ruleId = rule.ruleId ↔
      d ∈ (o.evaluate py p ws).2.filter fun d => d.ruleId = rule.ruleId := by
    rw [List.mem_filter, decide_eq_true_iff]
  rw [hmem, filter_evaluate, Option.mem_toList, stamp, Option.map_eq_some_iff]

theorem agree_evaluate (o : Sighting) (rule : Rule) {ws ws' : Windows}
    (h : Agree Dict.get? rule.keys ws ws') :
    Agree Dict.get? rule.keys (o.evaluate py p ws).1 (o.attempt py p rule ws').1 := by
  have hagree := agree_final_filter Rule.keys_disjoint (@localTo_attempts py p o) rule h
  rw [filter_attempts] at hagree
  rw [evaluate_eq_run]
  exact hagree

def solo (rule : Rule) (o : Sighting) (triggeredAt : Time) : Sighting where
  event := o.event
  ticks := fun _ => { o.ticks rule with triggeredAt }
  disabled := Rule.all.filter fun r => r ≠ rule

theorem watched_solo (o : Sighting) (rule : Rule) (triggeredAt : Time) :
    (o.solo rule triggeredAt).Watched rule :=
  ⟨by simp [solo], rfl⟩

theorem attempt_of_watched {o : Sighting} {rule : Rule} (h : o.Watched rule) (ws : Windows) :
    o.attempt py p rule ws =
      if rule.appliesTo py o.event then
        ((rule.evaluate py p (o.ticks rule) o.event ws).1,
          (rule.evaluate py p (o.ticks rule) o.event ws).2.toOption.join)
      else (ws, none) := by
  unfold attempt
  rw [h.2]
  by_cases happlies : rule.appliesTo py o.event <;> simp [h.1, happlies]

theorem attempt_solo {o : Sighting} {rule : Rule} (h : o.Watched rule) (triggeredAt : Time)
    (ws : Windows) : (o.solo rule triggeredAt).attempt py p rule ws = o.attempt py p rule ws := by
  have htick : rule.evaluate py p ((o.solo rule triggeredAt).ticks rule) o.event ws =
      rule.evaluate py p (o.ticks rule) o.event ws := by cases rule <;> rfl
  rw [attempt_of_watched h, attempt_of_watched (o.watched_solo rule triggeredAt), ← htick]
  rfl

end Sighting

def Rule.detectionsIn (rule : Rule) (ds : List Detection) : List Detection :=
  (ds.filter fun d => d.ruleId = rule.ruleId).map Detection.unstamped

namespace Sighting

variable {py : Python} {p : Params}

theorem detectionsIn_evaluate (o : Sighting) (rule : Rule) (ws : Windows) :
    rule.detectionsIn (o.evaluate py p ws).2 =
      ((o.attempt py p rule ws).2.map Detection.unstamped).toList := by
  rw [Rule.detectionsIn, filter_evaluate, stamp]
  cases (o.attempt py p rule ws).2 <;> rfl

/-- Whatever other rules are disabled and wherever their detectors raise, a rule returns
what it returns in an engine of its own. -/
theorem detectionsIn_eq_solo (py : Python) (p : Params) (rule : Rule) (ws : Windows)
    (os : List (Sighting × Time)) (h : ∀ o ∈ os, o.1.Watched rule) :
    rule.detectionsIn (detections py p ws (os.map Prod.fst)) =
      rule.detectionsIn (detections py p ws (os.map fun o => o.1.solo rule o.2)) := by
  suffices hgen : ∀ ws ws', Agree Dict.get? rule.keys ws ws' →
      rule.detectionsIn (detections py p ws (os.map Prod.fst)) =
        rule.detectionsIn (detections py p ws' (os.map fun o => o.1.solo rule o.2)) from
    hgen ws ws (Agree.refl ws)
  induction os with
  | nil => exact fun _ _ _ => rfl
  | cons o os ih =>
    intro ws ws' hagree
    obtain ⟨ho, hos⟩ := List.forall_mem_cons.mp h
    have hsplit : ∀ ds ds', rule.detectionsIn (ds ++ ds') =
        rule.detectionsIn ds ++ rule.detectionsIn ds' := by
      intro ds ds'
      simp only [Rule.detectionsIn, List.filter_append, List.map_append]
    have hsame : (o.1.attempt py p rule ws).2 = (o.1.attempt py p rule ws').2 :=
      ((o.1.localTo_attempt rule).congr ws ws' hagree).1
    have hnext : Agree Dict.get? rule.keys (o.1.evaluate py p ws).1
        ((o.1.solo rule o.2).evaluate py p ws').1 := by
      have hleft := @agree_evaluate py p o.1 rule _ _ hagree
      have hright := @agree_evaluate py p (o.1.solo rule o.2) rule _ _ (Agree.refl ws')
      rw [attempt_solo ho] at hright
      exact fun k hk => (hleft k hk).trans (hright k hk).symm
    rw [List.map_cons, List.map_cons, detections, detections, hsplit, hsplit,
      detectionsIn_evaluate, detectionsIn_evaluate, attempt_solo ho, hsame, ih hos _ _ hnext]

def authRaw (eventId : String) (eventType : EventType) (ip : String) (seconds : ℤ) : JsonDict :=
  [("event_id", .str eventId), ("timestamp", .int seconds),
    ("event_type", .str eventType.value), ("source_ip", .str ip)]

def auth (eventId : String) (eventType : EventType) (ip : String) (seconds clock : ℤ) :
    Sighting where
  event := SecurityEvent.ofPayload Python.ascii someReadings (authRaw eventId eventType ip seconds)
    (seconds * Datetime.microsPerSecond)
  ticks := fun _ => ⟨clock * Datetime.microsPerSecond, eventId, clock * Datetime.microsPerSecond⟩

theorem fromRaw_of_seconds {raw : JsonDict} {seconds : ℤ}
    (hfield : field raw "timestamp" = .int seconds) (h : seconds ≤ 86400) :
    SecurityEvent.fromRaw Python.ascii someReadings raw = .ok (SecurityEvent.ofPayload Python.ascii
      someReadings raw (seconds * Datetime.microsPerSecond)) := by
  have htime : Python.ascii.fromtimestamp seconds = some (seconds * Datetime.microsPerSecond) := by
    simp only [Python.ascii, Option.some.injEq]
    exact_mod_cast Int.floor_intCast (R := ℚ) (seconds * Datetime.microsPerSecond)
  have hclamp : clampSkew someReadings.now (seconds * Datetime.microsPerSecond) =
      seconds * Datetime.microsPerSecond := by
    refine if_neg (not_lt.mpr ?_)
    change seconds * 1000000 - 0 ≤ 86400 * 1000000
    omega
  have hts : normalizeTs Python.ascii someReadings.now (.int seconds) =
      .ok (seconds * Datetime.microsPerSecond) := by
    simp only [normalizeTs, fromSeconds, htime, hclamp]
  rw [SecurityEvent.fromRaw, hfield, hts]
  rfl

theorem fromRaw_auth (eventId : String) (eventType : EventType) (ip : String)
    {seconds : ℤ} (h : seconds ≤ 86400) (clock : ℤ) :
    SecurityEvent.fromRaw Python.ascii someReadings (authRaw eventId eventType ip seconds) =
      .ok (auth eventId eventType ip seconds clock).event :=
  fromRaw_of_seconds rfl h

theorem detectionsIn_eq_solo_raising :
    let o : Sighting := { auth "login-1" .authFailure "203.0.113.9" 0 0 with
      disabled := [.portScan], raises := fun r => if r = .passwordSpray then some .after else none }
    Rule.bruteForce.detectionsIn (detections Python.ascii { maxFailures := 1 } [] [o]) =
      Rule.bruteForce.detectionsIn
        (detections Python.ascii { maxFailures := 1 } [] [o.solo .bruteForce 1]) := by
  intro o
  exact detectionsIn_eq_solo Python.ascii { maxFailures := 1 } .bruteForce [] [(o, 1)]
    (List.forall_mem_singleton.mpr ⟨by decide, rfl⟩)

end Sighting

end SiemEngine

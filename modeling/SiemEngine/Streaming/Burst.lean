import SiemEngine.Detection.Delay
import SiemEngine.Lib.Trail
import SiemEngine.Streaming.Batching

/-!
# One alert for a burst of failures

Clean calls over a stream in which the failures of an IP all lie within one window and no
success of it occurs keep one alert for it, created when the threshold is reached, whose
event count and evidence follow the failures one by one.
-/

namespace SiemEngine

namespace BruteForce

variable {py : Python} {p : Params} {ip : String} {o : Sighting} {ws : Windows}

def alertKey (ip : String) : String × String := (ruleId, "srcip:" ++ ip)

def evidence (ev : SecurityEvent) : Evidence where
  eventId := ev.eventId
  timestamp := ev.timestamp
  summary := ev.eventType.value ++ " user=" ++ shown ev.user ++ " host=" ++ ev.source.val

theorem alertKey_inj {ip ip' : String} (h : alertKey ip = alertKey ip') : ip = ip' := by
  have hlist := congrArg (fun k : String × String => k.2.toList) h
  simp only [alertKey, String.toList_append, List.append_cancel_left_eq] at hlist
  exact String.toList_injective hlist

theorem key_attempt {d : Detection} (hw : o.Watched .bruteForce)
    (h : (o.attempt py p .bruteForce ws).2 = some d) :
    ∃ ip, concerns ip o ∧ d.key = alertKey ip := by
  by_cases hconc : ∃ ip, concerns ip o
  · obtain ⟨ip, hc⟩ := hconc
    rw [attempt_of_concerns hw hc] at h
    split_ifs at h
    cases h
    exact ⟨ip, hc, rfl⟩
  · have hnone := @detectionsIn_of_not_concerns py p o hw (fun ip hc => hconc ⟨ip, hc⟩) ws
    rw [Sighting.detectionsIn_evaluate, h] at hnone
    cases hnone

theorem filter_key_evaluate (hw : o.Watched .bruteForce) (ip : String) (ws : Windows) :
    (o.evaluate py p ws).2.filter (fun d => d.key = alertKey ip) =
      if concerns ip o then (o.stamp (.bruteForce, (o.attempt py p .bruteForce ws).2)).toList
      else [] := by
  have hrule := @Sighting.filter_evaluate py p o .bruteForce ws
  have hsub : (o.evaluate py p ws).2.filter (fun d => d.key = alertKey ip) =
      ((o.evaluate py p ws).2.filter fun d => d.ruleId = Rule.bruteForce.ruleId).filter
        fun d => d.key = alertKey ip := by
    rw [List.filter_filter]
    refine List.filter_congr fun d _ => ?_
    by_cases hkey : d.key = alertKey ip
    · have hid : d.ruleId = Rule.bruteForce.ruleId := congrArg Prod.fst hkey
      simp [hkey, hid]
    · simp [hkey]
  rw [hsub, hrule]
  cases hout : (o.attempt py p .bruteForce ws).2 with
  | none => simp [Sighting.stamp]
  | some d =>
    obtain ⟨ip', hc, hkey⟩ := key_attempt hw hout
    have hstamped : (o.stamp (.bruteForce, some d)).toList = [d.stamped (tick o)] := rfl
    have hkey' : (d.stamped (tick o)).key = alertKey ip' := hkey
    rw [hstamped, List.filter_singleton, hkey']
    by_cases hip : ip' = ip
    · subst hip
      simp [hc]
    · have hne : alertKey ip' ≠ alertKey ip := fun h => hip (alertKey_inj h)
      have hnot : ¬ concerns ip o := by
        intro hc'
        exact hip (Option.some.inj ((concerns_iff.mp hc).2.symm.trans (concerns_iff.mp hc').2))
      simp [hne, hnot]

theorem live_eq_self {as : List Sighting} (hunexp : (reading p).Unexpired none as)
    (hfail : ∀ a ∈ as, isFailure a)
    (hspan : as.Pairwise fun a b =>
      Binary64.sub b.event.epoch p.bruteForceWindow < a.event.epoch) : live p as = as := by
  induction as with
  | nil => rfl
  | cons a as ih =>
    obtain ⟨ha, has⟩ := List.forall_mem_cons.mp hfail
    obtain ⟨hspana, hspanas⟩ := List.pairwise_cons.mp hspan
    have hall : as.all (fun b => (reading p).cutoff b < (reading p).score a) = true := by
      refine List.all_eq_true.mpr fun b hb => decide_eq_true ?_
      rw [cutoff_of_isFailure (has b hb)]
      exact hspana b hb
    have hadds : (reading p).adds a = true := ha
    rw [live, hunexp.survivors_cons, hadds, hall, Bool.and_self, if_pos rfl]
    exact congrArg (a :: ·) (ih hunexp.tail has hspanas)

end BruteForce

namespace BruteForce

variable {py : Python} {p : Params} {ip : String} {o : Sighting} {ws : Windows}

/-- The alert of an IP after some failures, from the one that reached the threshold on. -/
structure Summary (p : Params) (ip : String) (as : List Sighting) (a : Alert) : Prop where
  key : a.key = alertKey ip
  status : a.status = .open
  eventCount : a.eventCount = as.length
  evidence : a.evidence = ((as.drop (p.maxFailures.toNat - 1)).map fun o =>
    evidence o.event).rtake maxEvidence

def Summarised (p : Params) (ip : String) (as : List Sighting) (alerts : List Alert) : Prop :=
  if (as.length : ℤ) < p.maxFailures then alerts = [] else ∃ a, alerts = [a] ∧ Summary p ip as a

theorem summary_created {as : List Sighting} {clock : Time} {d : Detection} {res : WindowResult}
    (hmax : 1 ≤ p.maxFailures) (hlen : (as.length : ℤ) + 1 = p.maxFailures)
    (hd : d = (detection py p o.event ip res false).stamped (tick o))
    (hcount : (res.count : ℤ) = as.length + 1) :
    Summary p ip (as ++ [o]) (Alert.ofDetection clock d) where
  key := by rw [hd]; rfl
  status := rfl
  eventCount := by
    rw [List.length_append]
    change max 1 d.eventCountHint = _
    rw [hd]
    change max 1 (res.count : ℤ) = _
    rw [hcount]
    push_cast [List.length_singleton]
    omega
  evidence := by
    have hdrop : p.maxFailures.toNat - 1 = as.length := by omega
    rw [hdrop, List.drop_left, hd]
    rfl

theorem summary_folded {as : List Sighting} {a : Alert} {clock : Time} {d : Detection}
    {res : WindowResult} (ha : Summary p ip as a) (hlen : p.maxFailures ≤ as.length)
    (hd : d = (detection py p o.event ip res false).stamped (tick o))
    (hcount : (res.count : ℤ) = as.length + 1)
    (hnew : ∀ b ∈ as, b.event.eventId ≠ o.event.eventId) :
    Summary p ip (as ++ [o]) (a.fold clock d) where
  key := ha.key
  status := ha.status
  eventCount := by
    change max (a.eventCount + 1) d.eventCountHint = _
    rw [hd, ha.eventCount]
    change max ((as.length : ℤ) + 1) (res.count : ℤ) = _
    rw [hcount, max_self, List.length_append]
    rfl
  evidence := by
    have hitem : d.evidence = [evidence o.event] := by rw [hd]; rfl
    have hfresh : evidence o.event ∉ a.evidence := by
      rw [ha.evidence]
      intro hmem
      obtain ⟨b, hb, heq⟩ := List.mem_map.mp (List.mem_of_mem_drop hmem)
      exact hnew b (List.mem_of_mem_drop hb) (congrArg Evidence.eventId heq)
    have hle : p.maxFailures.toNat - 1 ≤ as.length := by omega
    change (d.evidence.foldl addEvidence a.evidence).rtake maxEvidence = _
    rw [hitem, List.foldl_cons, List.foldl_nil, addEvidence, if_neg hfresh, ha.evidence,
      Run.rtake_concat_rtake,
      List.drop_append_of_le_length hle, List.map_append]
    rfl

theorem absorb_created {base : List Alert} {d : Detection} (hkey : d.key = alertKey ip)
    (hbase : ∀ a ∈ base, a.key = alertKey ip → ¬ a.status.isActive) :
    Alerts.absorb 0 base d = base ++ [Alert.ofDetection (d.triggeredAt.getD 0) d] := by
  refine Upsert.absorb_of_miss fun a ha hfolds => ?_
  obtain ⟨hak, hact⟩ := Bool.and_eq_true_iff.mp hfolds
  exact hbase a ha ((of_decide_eq_true hak).trans hkey) hact

theorem absorb_folded {base : List Alert} {d : Detection} {a : Alert} (hkey : d.key = alertKey ip)
    (hbase : ∀ a ∈ base, a.key = alertKey ip → ¬ a.status.isActive) (ha : a.key = alertKey ip)
    (hopen : a.status = .open) :
    Alerts.absorb 0 (base ++ [a]) d = base ++ [a.fold (d.triggeredAt.getD 0) d] := by
  have hfolds : a.folds d := by simp [Alert.folds, ha, hkey, hopen, AlertStatus.isActive]
  have hmiss : ∀ b ∈ base, ¬ b.folds d := by
    intro b hb hfolds
    obtain ⟨hbk, hact⟩ := Bool.and_eq_true_iff.mp hfolds
    exact hbase b hb ((of_decide_eq_true hbk).trans hkey) hact
  have hkeep : base.map (fun b => if b.folds d then b.fold (d.triggeredAt.getD 0) d else b) =
      base := by
    conv_rhs => rw [← List.map_id base]
    exact List.map_congr_left fun b hb => if_neg (hmiss b hb)
  rw [Alerts.absorb, Upsert.absorb, if_pos (List.any_eq_true.mpr ⟨a, by simp, hfolds⟩),
    List.map_append, hkeep, List.map_singleton, if_pos hfolds]

theorem summarised_concat {base alerts : List Alert} {as : List Sighting} {res : WindowResult}
    {ds : List Detection} (hmax : 1 ≤ p.maxFailures)
    (hbase : ∀ a ∈ base, a.key = alertKey ip → ¬ a.status.isActive)
    (hcount : (res.count : ℤ) = as.length + 1)
    (hds : ds = if (res.count : ℤ) < p.maxFailures then []
      else [(detection py p o.event ip res false).stamped (tick o)])
    (hnew : ∀ b ∈ as, b.event.eventId ≠ o.event.eventId) (h : Summarised p ip as alerts) :
    ∃ alerts', ds.foldl (Alerts.absorb 0) (base ++ alerts) = base ++ alerts' ∧
      Summarised p ip (as ++ [o]) alerts' := by
  have hlen : ((as ++ [o]).length : ℤ) = as.length + 1 := by
    rw [List.length_append]
    rfl
  rw [Summarised] at h
  simp only [Summarised, hlen]
  rw [hcount] at hds
  by_cases hbelow : (as.length : ℤ) + 1 < p.maxFailures
  · rw [if_pos (by omega)] at h
    rw [if_pos hbelow] at hds
    exact ⟨[], by rw [hds, h]; rfl, by rw [if_pos hbelow]⟩
  · rw [if_neg hbelow] at hds
    simp only [if_neg hbelow]
    obtain ⟨d, hd⟩ : ∃ d, d = (detection py p o.event ip res false).stamped (tick o) := ⟨_, rfl⟩
    have hkey : d.key = alertKey ip := by rw [hd]; rfl
    rw [← hd] at hds
    by_cases hfirst : (as.length : ℤ) < p.maxFailures
    · rw [if_pos hfirst] at h
      refine ⟨[Alert.ofDetection (d.triggeredAt.getD 0) d], ?_, _, rfl,
        summary_created hmax (by omega) hd hcount⟩
      rw [hds, h, List.append_nil, List.foldl_cons, List.foldl_nil, absorb_created hkey hbase]
    · rw [if_neg hfirst] at h
      obtain ⟨a, rfl, ha⟩ := h
      refine ⟨[a.fold (d.triggeredAt.getD 0) d], ?_, _, rfl,
        summary_folded ha (not_lt.mp hfirst) hd hcount hnew⟩
      rw [hds, List.foldl_cons, List.foldl_nil, absorb_folded hkey hbase ha.key ha.status]

/-- The stream has the failures of one burst of the IP and no success of it. -/
structure OneBurst (p : Params) (ip : String) (os : List Sighting) : Prop where
  watched : ∀ o ∈ os, o.Watched .bruteForce
  failures : ∀ o ∈ arrivals ip os, isFailure o
  within : (arrivals ip os).Pairwise fun a b =>
    Binary64.sub b.event.epoch p.bruteForceWindow < a.event.epoch
  ids : ((arrivals ip os).map fun o => o.event.eventId).Nodup
  members : DistinctMembers (arrivals ip os)
  unexpired : (reading p).Unexpired none (arrivals ip os)

theorem OneBurst.init {os : List Sighting} (h : OneBurst p ip (os ++ [o])) : OneBurst p ip os := by
  have hsub : (arrivals ip os).Sublist (arrivals ip (os ++ [o])) :=
    (List.sublist_append_left os [o]).filter _
  refine ⟨fun a ha => h.watched a (List.mem_append_left _ ha),
    fun a ha => h.failures a (hsub.subset ha), h.within.sublist hsub,
    h.ids.sublist (hsub.map _), h.members.sublist hsub, ?_⟩
  have hunexp := h.unexpired
  rw [arrivals_append] at hunexp
  exact (Retention.Reading.unexpired_append.mp hunexp).1

theorem summarised_after {e : Option Time}
    (hslot : Dict.get? ws (Windows.key "bruteforce" ip) = slot p e [])
    {base : List Alert} (hmax : 1 ≤ p.maxFailures)
    (hbase : ∀ a ∈ base, a.key = alertKey ip → ¬ a.status.isActive) {os : List Sighting}
    (h : OneBurst p ip os) :
    ∃ alerts, ((Sighting.detections py p ws os).filter fun d => d.key = alertKey ip).foldl
        (Alerts.absorb 0) base = base ++ alerts ∧ Summarised p ip (arrivals ip os) alerts := by
  induction os using List.reverseRecOn with
  | nil =>
    refine ⟨[], (List.append_nil base).symm, ?_⟩
    exact (if_pos (show (([] : List Sighting).length : ℤ) < p.maxFailures from hmax)).mpr rfl
  | append_singleton os o ih =>
    obtain ⟨alerts, hfold, hsum⟩ := ih h.init
    have ho := h.watched o (List.mem_append_right _ (List.mem_singleton_self o))
    have hlast : Sighting.detections py p (Sighting.after py p ws os) [o] =
        (o.evaluate py p (Sighting.after py p ws os)).2 := List.append_nil _
    rw [Sighting.detections_append, hlast, List.filter_append, List.foldl_append, hfold,
      filter_key_evaluate ho]
    by_cases hc : concerns ip o
    · rw [if_pos hc, arrivals_concat, if_pos hc]
      have hmembers := h.members
      have hids := h.ids
      rw [arrivals_concat, if_pos hc] at hmembers hids
      have hprev := @slot_after p ip py ws _ hslot os h.init.watched h.init.members
      have hobserve := (observe_eq hprev (member_notMem_live hmembers)).1
      have hlive : live p (arrivals ip os ++ [o]) = arrivals ip os ++ [o] := by
        have hall := live_eq_self h.unexpired h.failures h.within
        rwa [arrivals_concat, if_pos hc] at hall
      have hfail : isFailure o := h.failures o (by rw [arrivals_concat, if_pos hc]; simp)
      have hnot : o.event.eventType ≠ .authSuccess := by simpa [isFailure] using hfail
      rw [hlive] at hobserve
      refine @summarised_concat py p ip o base alerts _
        (observe p (tick o) o.event ip (Sighting.after py p ws os)).2 _ hmax hbase ?_ ?_ ?_ hsum
      · rw [hobserve, count_toResult, List.length_append]
        rfl
      · rw [attempt_of_concerns ho hc, decide_eq_false hnot]
        split_ifs <;> rfl
      · intro b hb heq
        rw [List.map_append] at hids
        exact (List.disjoint_of_nodup_append hids) (List.mem_map_of_mem hb) (by simp [heq])
    · rw [if_neg hc, arrivals_concat, if_neg hc, List.append_nil]
      exact ⟨alerts, rfl, hsum⟩

end BruteForce

namespace Pipeline

open BruteForce

variable {cfg : Config} {ip : String}

def sightings (cfg : Config) (events : List (Arrival × SecurityEvent)) : List Sighting :=
  events.map fun av => { event := av.2, ticks := av.1.ticks, disabled := cfg.engine.disabled }

def failuresOf (ip : String) (events : List (Arrival × SecurityEvent)) : List SecurityEvent :=
  (events.map Prod.snd).filter (fails ip)

theorem detect_eq_sightings (ws : Windows) (events : List (Arrival × SecurityEvent)) :
    detect cfg ws events =
      (Sighting.after cfg.py cfg.engine.params ws (sightings cfg events),
        Sighting.detections cfg.py cfg.engine.params ws (sightings cfg events)) := by
  induction events generalizing ws with
  | nil => rfl
  | cons av events ih =>
    let o : Sighting := { event := av.2, ticks := av.1.ticks, disabled := cfg.engine.disabled }
    have hevaluate : o.evaluate cfg.py cfg.engine.params ws =
        cfg.engine.evaluate cfg.py av.1.ticks av.2 ws := Sighting.evaluate_eq_engine rfl ws
    rw [detect_cons, ih, ← hevaluate]
    rfl

theorem map_event_sightings (events : List (Arrival × SecurityEvent)) :
    (sightings cfg events).map Sighting.event = events.map Prod.snd := by
  rw [sightings, List.map_map]
  rfl

theorem map_event_arrivals {events : List (Arrival × SecurityEvent)}
    (h : ∀ ev ∈ events.map Prod.snd, ¬ succeeds ip ev) :
    (arrivals ip (sightings cfg events)).map Sighting.event = failuresOf ip events := by
  rw [failuresOf, ← @map_event_sightings cfg, List.filter_map, arrivals]
  congr 1
  refine List.filter_congr fun o ho => ?_
  have hnot : ¬ succeeds ip o.event := h _ (@map_event_sightings cfg events ▸
    List.mem_map_of_mem ho)
  rw [Bool.eq_iff_iff, concerns_iff_event, Function.comp_apply, or_iff_left hnot]

theorem oneBurst_sightings {events : List (Arrival × SecurityEvent)}
    (henabled : Rule.bruteForce ∉ cfg.engine.disabled) (hdistinct : (ids events).Nodup)
    (hnosuccess : ∀ ev ∈ events.map Prod.snd, ¬ succeeds ip ev)
    (hwithin : (failuresOf ip events).Pairwise fun a b =>
      Binary64.sub b.epoch cfg.engine.params.bruteForceWindow < a.epoch)
    (hmembers : DistinctMembers (arrivals ip (sightings cfg events)))
    (hunexpired : (reading cfg.engine.params).Unexpired none (arrivals ip (sightings cfg events))) :
    OneBurst cfg.engine.params ip (sightings cfg events) where
  watched := by
    intro o ho
    obtain ⟨av, -, rfl⟩ := List.mem_map.mp ho
    exact ⟨henabled, rfl⟩
  failures := by
    intro o ho
    have hmem : o.event ∈ failuresOf ip events :=
      @map_event_arrivals cfg ip events hnosuccess ▸ List.mem_map_of_mem ho
    exact (isFailure_of_fails (List.mem_filter.mp hmem).2).2
  within := by
    rw [← @map_event_arrivals cfg ip events hnosuccess] at hwithin
    exact List.pairwise_map.mp hwithin
  ids := by
    have hsub : ((arrivals ip (sightings cfg events)).map fun o => o.event.eventId).Sublist
        (ids events) := by
      have hmap := (List.filter_sublist (p := concerns ip) (l := sightings cfg events)).map
        fun o => o.event.eventId
      rwa [sightings, List.map_map] at hmap
    exact hdistinct.sublist hsub
  members := hmembers
  unexpired := hunexpired

theorem drop_rtake {α : Type*} (xs : List α) {i n : ℕ} (h : i ≤ xs.length) :
    (xs.drop i).rtake n = xs.rtake (min n (xs.length - i)) := by
  rw [List.rtake, List.rtake, List.drop_drop, List.length_drop]
  congr 1
  omega

theorem exists_slot_nil (p : Params) {ws : Windows} {ip : String}
    (h : ∀ set ∈ Dict.get? ws (Windows.key "bruteforce" ip), set.members = []) :
    ∃ e, Dict.get? ws (Windows.key "bruteforce" ip) = slot p e [] := by
  cases hget : Dict.get? ws (Windows.key "bruteforce" ip) with
  | none => exact ⟨none, rfl⟩
  | some set =>
    have hempty := h set hget
    obtain ⟨members, expiresAt⟩ := set
    obtain rfl : members = [] := hempty
    exact ⟨some expiresAt, rfl⟩

theorem oneActive_of_idle {t : Alerts} {key : String × String}
    (h : ∀ a ∈ t.rows, a.key = key → ¬ a.status.isActive) : t.OneActive key := by
  have hnone : t.rows.filter (fun a => a.key = key && a.status.isActive) = [] := by
    refine List.filter_eq_nil_iff.mpr fun a ha hact => ?_
    obtain ⟨hkey, hact⟩ := Bool.and_eq_true_iff.mp hact
    exact h a ha (of_decide_eq_true hkey) hact
  rw [Alerts.OneActive, hnone]
  exact Nat.zero_le 1

/-- A burst of failures within one window, however it is interleaved and cut into batches,
ends as one new alert that counts all of them and names the last ones. -/
theorem burst_one_alert (cfg : Config) (s : Pipeline) (cs : List Call) (ip : String)
    (hclean : Run.Guarded (step cfg) (Returns cfg) s cs)
    (hdistinct : (ids (validate cfg.py (cs.flatMap Call.arrivals))).Nodup)
    (hunseen : ∀ id ∈ ids (validate cfg.py (cs.flatMap Call.arrivals)), id ∉ s.seen)
    (henabled : Rule.bruteForce ∉ cfg.engine.disabled)
    (hwindow : ∀ set ∈ Dict.get? s.windows (Windows.key "bruteforce" ip), set.members = [])
    (hidle : ∀ a ∈ s.db.alerts.rows, a.key = alertKey ip → ¬ a.status.isActive)
    (hnosuccess : ∀ ev ∈ (validate cfg.py (cs.flatMap Call.arrivals)).map Prod.snd,
      ¬ succeeds ip ev)
    (hwithin : (failuresOf ip (validate cfg.py (cs.flatMap Call.arrivals))).Pairwise fun a b =>
      Binary64.sub b.epoch cfg.engine.params.bruteForceWindow < a.epoch)
    (hmembers : DistinctMembers
      (arrivals ip (sightings cfg (validate cfg.py (cs.flatMap Call.arrivals)))))
    (hunexpired : (reading cfg.engine.params).Unexpired none
      (arrivals ip (sightings cfg (validate cfg.py (cs.flatMap Call.arrivals)))))
    (hmax : 1 ≤ cfg.engine.params.maxFailures)
    (henough : cfg.engine.params.maxFailures ≤
      (failuresOf ip (validate cfg.py (cs.flatMap Call.arrivals))).length) :
    let fs := failuresOf ip (validate cfg.py (cs.flatMap Call.arrivals))
    ∃ a, (Run.exec (step cfg) s cs).db.alerts.selected (fun key => key = alertKey ip) =
        s.db.alerts.selected (fun key => key = alertKey ip) ++ [a] ∧
      a.eventCount = (fs.length : ℤ) ∧
      a.evidence =
        (fs.rtake (min 25 (fs.length - cfg.engine.params.maxFailures.toNat + 1))).map evidence := by
  intro fs
  let os := sightings cfg (validate cfg.py (cs.flatMap Call.arrivals))
  have hfs : (arrivals ip os).map Sighting.event = fs := map_event_arrivals hnosuccess
  have hlen : (arrivals ip os).length = fs.length := by rw [← hfs, List.length_map]
  obtain ⟨e, hslot⟩ := exists_slot_nil cfg.engine.params hwindow
  have hbase : ∀ a ∈ s.db.alerts.selected (fun key => key = alertKey ip),
      a.key = alertKey ip → ¬ a.status.isActive :=
    fun a ha hkey => hidle a (List.mem_of_mem_filter ha) hkey
  have hone : ∀ key, decide (key = alertKey ip) → s.db.alerts.OneActive key := by
    intro key hkey
    rw [of_decide_eq_true hkey]
    exact oneActive_of_idle hidle
  have hrule : ∀ key, decide (key = alertKey ip) → byRule key := by
    intro key hkey
    rw [of_decide_eq_true hkey]
    rfl
  have hrun := advanced_run hrule hclean hdistinct hunseen hone
  obtain ⟨alerts, hfold, hsum⟩ := @summarised_after cfg.py cfg.engine.params ip s.windows e hslot
    _ hmax hbase os (oneBurst_sightings henabled hdistinct hnosuccess hwithin hmembers hunexpired)
  rw [Summarised, hlen, if_neg (not_lt.mpr henough)] at hsum
  obtain ⟨a, rfl, ha⟩ := hsum
  refine ⟨a, ?_, ?_, ?_⟩
  · rw [hrun.selected, detect_eq_sightings]
    exact hfold
  · rw [ha.eventCount, hlen]
  · have hfew : cfg.engine.params.maxFailures ≤ (fs.length : ℤ) := henough
    have hdrop : cfg.engine.params.maxFailures.toNat - 1 ≤ fs.length := by omega
    have hlast : fs.length - (cfg.engine.params.maxFailures.toNat - 1) =
        fs.length - cfg.engine.params.maxFailures.toNat + 1 := by omega
    have hevidence : (arrivals ip os).map (fun o => evidence o.event) = fs.map evidence := by
      rw [← hfs, List.map_map]
      rfl
    rw [ha.evidence, List.map_drop, hevidence, drop_rtake _ (by rwa [List.length_map]),
      List.length_map, hlast, List.rtake, List.rtake, List.length_map, List.map_drop]
    rfl

def patient : Config where
  py := Python.ascii
  engine := { params := { maxFailures := 2 } }

theorem burst_one_alert_three :
    let cs := [failedLogins id "x" ["a"], failedLogins id "x" ["b", "c"]]
    let fs := failuresOf "203.0.113.9" (validate Python.ascii (cs.flatMap Call.arrivals))
    ∃ a, (Run.exec (step patient) (init 0) cs).db.alerts.selected
        (fun key => key = alertKey "203.0.113.9") = [a] ∧
      a.eventCount = 3 ∧ a.evidence = (fs.rtake 2).map evidence := by
  intro cs fs
  have hlen : fs.length = 3 := by decide +kernel
  obtain ⟨a, hsel, hcount, hevidence⟩ := burst_one_alert patient (init 0) cs "203.0.113.9"
    ⟨by decide +kernel, by decide +kernel, trivial⟩ (by decide +kernel)
    (fun id _ hid => absurd hid (Finset.notMem_empty id)) (by decide)
    (fun set hset => by cases hset) (fun a ha => absurd ha List.not_mem_nil) (by decide +kernel)
    (by decide +kernel) (by decide +kernel) (by decide +kernel) (by decide) (by decide +kernel)
  refine ⟨a, hsel, hcount.trans (congrArg Int.ofNat hlen), hevidence.trans ?_⟩
  change (fs.rtake (min 25 (fs.length - 2 + 1))).map evidence = _
  rw [hlen]
  rfl

def ancientLogin (eventId timestamp : String) : Arrival where
  raw := [("event_id", .str eventId), ("timestamp", .str timestamp),
    ("event_type", .str "authentication_failure"), ("source_ip", .str "203.0.113.9")]
  readings := someReadings
  ticks rule := ⟨0, eventId ++ rule.ruleId, 0⟩

def isoPython : Python :=
  { Python.ascii with fromisoformat := fun s =>
      if s = "0001-01-01T00:00:00.000003" then some (Datetime.minTime + 3, none)
      else if s = "0001-01-01T00:01:00.000002" then some (Datetime.minTime + 60000002, none)
      else none }

def ancient : Config := { patient with py := isoPython }

def ancientLogins : Call where
  toCircumstances := atZero none
  arrivals := [ancientLogin "a" "0001-01-01T00:00:00.000003",
    ancientLogin "b" "0001-01-01T00:01:00.000002"]

/-- Two failures a microsecond less than a minute apart are too far apart once their
timestamps are rounded to seconds in double precision. -/
theorem ancient_burst_missed :
    let events := validate isoPython ancientLogins.arrivals
    let fs := failuresOf "203.0.113.9" events
    Run.Guarded (step ancient) (Returns ancient) (init 0) [ancientLogins] ∧ (ids events).Nodup ∧
      (∀ ev ∈ events.map Prod.snd, ¬ succeeds "203.0.113.9" ev) ∧
      fs.length = 2 ∧ fs.Pairwise (fun a b => a.timestamp ≤ b.timestamp ∧
        b.timestamp - a.timestamp < 60 * Datetime.microsPerSecond) ∧
      DistinctMembers (arrivals "203.0.113.9" (sightings ancient events)) ∧
      (reading ancient.engine.params).Unexpired none
        (arrivals "203.0.113.9" (sightings ancient events)) ∧
      (Run.exec (step ancient) (init 0) [ancientLogins]).db.events.ids = ids events ∧
      (Run.exec (step ancient) (init 0) [ancientLogins]).db.alerts.rows.length = 0 := by
  decide +kernel

end Pipeline

end SiemEngine

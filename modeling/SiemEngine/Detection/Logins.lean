import SiemEngine.Detection.Triggers

/-!
# The successful logins of an account

An authentication event says twice whether it is a success: in its type, which decides whether
RULE-007 looks at it, and in its optional status, which decides where it is counted. The rule
counts the successful logins of an account exactly where the two agree on every event and the
window has lost no address.
-/

namespace SiemEngine.AuthAnomaly

open WindowRule

variable (py : Python) (p : Params)

def isLogin (ev : SecurityEvent) : Bool := ev.eventType = .authSuccess && appliesTo ev

def logins (os : List Sighting) (ev : SecurityEvent) : List SecurityEvent :=
  (os.map Sighting.event).filter fun a => isLogin a ∧
    py.lower (a.user.getD "") = py.lower (ev.user.getD "") ∧
    ev.epoch - p.authGeoWindow < a.epoch ∧ a.epoch ≤ ev.epoch

def sources (evs : List SecurityEvent) : List String := evs.map fun ev => ev.sourceText.getD ""

def withThreshold (n : ℤ) : Params := { p with distinctIps := n }

/-- The rule fires on the logins that reach its threshold, and on no failure. -/
structure CountsLogins (os : List Sighting) : Prop where
  success : ∀ i o, os[i]? = some o → isLogin o.event → (authAnomaly.FiresAt py p os i ↔
    p.distinctIps ≤ (sources (logins py p (os.take (i + 1)) o.event)).dedup.length)
  failure : ∀ i o, os[i]? = some o → o.event.eventType = .authFailure →
    ¬ authAnomaly.FiresAt py p os i

/-- The status of every event agrees with its type. At every login each source address of the
window is that of an event it still holds, and no two of them agree up to a separator. -/
structure Consistent (os : List Sighting) : Prop where
  statuses : ∀ o ∈ os, appliesTo o.event →
    (o.event.status = some .success ↔ o.event.eventType = .authSuccess)
  held : ∀ i o, os[i]? = some o → isLogin o.event →
    sources (logins py p (os.take (i + 1)) o.event) ⊆
      sources ((authAnomaly.kept py p (os.take (i + 1)) o.event).map Sighting.event)
  distinguished : ∀ i o, os[i]? = some o → isLogin o.event →
    Set.InjOn Windows.decode {ip | ip ∈ sources (logins py p (os.take (i + 1)) o.event)}

variable {py p} {os : List Sighting} {o : Sighting} {ev : SecurityEvent} {i : ℕ}

theorem counts_iff_status (h : appliesTo ev) :
    authAnomaly.counts py ev ↔ ev.status = some .success := by
  have happlies : authAnomaly.rule.appliesTo py ev = true := h
  rw [WindowRule.counts_iff (by decide) happlies]
  exact forall_prop_of_true rfl

theorem appliesTo_of_isLogin (h : isLogin ev) : appliesTo ev ∧ ev.eventType = .authSuccess := by
  rw [isLogin, Bool.and_eq_true, decide_eq_true_eq] at h
  exact h.symm

theorem not_firesAt_of_not_applies (hw : ∀ o ∈ os, o.Watched .authAnomaly)
    (ho : os[i]? = some o) (h : ¬ appliesTo o.event) : ¬ authAnomaly.FiresAt py p os i := by
  have happlies : ¬ Rule.authAnomaly.appliesTo py o.event := h
  have hwatch : o.Watched authAnomaly.rule := hw o (List.mem_of_getElem? ho)
  rw [firesAt_iff_attempt ho, Sighting.attempt_of_watched hwatch]
  simp [rule, happlies]

theorem inWindow_eq_logins (h : ∀ o ∈ os, appliesTo o.event →
      (o.event.status = some .success ↔ o.event.eventType = .authSuccess)) (ev : SecurityEvent) :
    authAnomaly.inWindow py p os ev = logins py p os ev := by
  refine List.filter_congr fun a ha => ?_
  obtain ⟨o, ho, rfl⟩ := List.mem_map.mp ha
  have hcounts : authAnomaly.counts py o.event ↔ isLogin o.event := by
    by_cases happlies : appliesTo o.event
    · rw [counts_iff_status happlies, h o ho happlies]
      simp [isLogin, happlies]
    · have hquiet : authAnomaly.counts py o.event = false := by
        simp [WindowRule.counts, WindowRule.admits, rule, Rule.appliesTo, happlies]
      simp [isLogin, hquiet, happlies]
  exact decide_eq_decide.mpr (and_congr_left' hcounts)

theorem retained_eq_iff (hstatus : ∀ o ∈ os, appliesTo o.event →
      (o.event.status = some .success ↔ o.event.eventType = .authSuccess))
    (hwin : 0 < p.authGeoWindow)
    (hord : os.Pairwise fun a b => a.event.timestamp ≤ b.event.timestamp)
    (ho : os[i]? = some o) (h : isLogin o.event) :
    authAnomaly.retained py p (os.take (i + 1)) o.event =
        (sources (logins py p (os.take (i + 1)) o.event)).dedup.length ↔
      sources (logins py p (os.take (i + 1)) o.event) ⊆
          sources ((authAnomaly.kept py p (os.take (i + 1)) o.event).map Sighting.event) ∧
        Set.InjOn Windows.decode {ip | ip ∈ sources (logins py p (os.take (i + 1)) o.event)} := by
  obtain ⟨happlies, htype⟩ := appliesTo_of_isLogin h
  have hcounts : authAnomaly.counts py o.event := (counts_iff_status happlies).mpr
    ((hstatus o (List.mem_of_getElem? ho) happlies).mpr htype)
  have hwindow := @inWindow_eq_logins py p (os.take (i + 1))
    (fun a ha => hstatus a (List.take_subset _ _ ha)) o.event
  have hsub := ((kept_sublist ho hcounts hwin hord).map
    fun ev : SecurityEvent => ev.sourceText.getD "").subset
  rw [hwindow] at hsub
  have hobserved : authAnomaly.retained py p (os.take (i + 1)) o.event =
      ((sources ((authAnomaly.kept py p (os.take (i + 1)) o.event).map
        Sighting.event)).map Windows.decode).dedup.length := by
    rw [retained, if_pos hcounts, sources, List.map_map]
    rfl
  rw [hobserved, Nat.cast_inj]
  exact length_dedup_map_eq_iff Windows.decode hsub

theorem one_le_logins (hwin : 0 < p.authGeoWindow) (ho : os[i]? = some o)
    (h : isLogin o.event) :
    1 ≤ (sources (logins py p (os.take (i + 1)) o.event)).dedup.length := by
  have hself : o.event.epoch - p.authGeoWindow < o.event.epoch := by
    have hpos : (0 : ℚ) < p.authGeoWindow := Int.cast_pos.mpr hwin
    linarith
  have hmem : o.event ∈ logins py p (os.take (i + 1)) o.event := by
    rw [take_concat ho]
    refine List.mem_filter.mpr ⟨?_, decide_eq_true ⟨h, rfl, hself, le_rfl⟩⟩
    exact List.mem_map_of_mem (List.mem_append_right _ (List.mem_singleton_self o))
  have hsource : o.event.sourceText.getD "" ∈
      (sources (logins py p (os.take (i + 1)) o.event)).dedup :=
    List.mem_dedup.mpr (List.mem_map_of_mem hmem)
  exact List.length_pos_of_mem hsource

theorem one_le_retained (ho : os[i]? = some o) (h : appliesTo o.event)
    (hstatus : o.event.status = some .success) :
    1 ≤ authAnomaly.retained py p (os.take (i + 1)) o.event := by
  have hconcerns : authAnomaly.concerns py o.event o = true := by
    have happlies : Rule.authAnomaly.appliesTo py o.event = true := h
    simp [concerns, rule, happlies]
  have hmem : o ∈ authAnomaly.kept py p (os.take (i + 1)) o.event := by
    rw [kept, take_concat ho, List.filter_append, List.filter_cons_of_pos hconcerns,
      List.filter_nil, Retention.Reading.survivors_concat]
    exact List.mem_append_right _ (List.mem_singleton_self o)
  rw [retained, if_pos ((counts_iff_status h).mpr hstatus)]
  have hdecoded : Windows.decode (o.event.sourceText.getD "") ∈
      (((authAnomaly.kept py p (os.take (i + 1)) o.event).map Sighting.event).map
        fun ev => Windows.decode (ev.sourceText.getD "")).dedup :=
    List.mem_dedup.mpr (List.mem_map_of_mem (List.mem_map_of_mem hmem))
  exact Int.ofNat_le.mpr (List.length_pos_of_mem hdecoded)

theorem retained_eq_zero (h : appliesTo o.event) (hstatus : o.event.status ≠ some .success) :
    authAnomaly.retained py p os o.event = 0 :=
  if_neg fun hcounts => hstatus ((counts_iff_status h).mp hcounts)

theorem firesAt_withThreshold_iff {n : ℤ} (hn : 0 < n) (hw : ∀ o ∈ os, o.Watched .authAnomaly)
    (ht : authAnomaly.DistinctTokens os) (ho : os[i]? = some o) (h : appliesTo o.event) :
    authAnomaly.FiresAt py (withThreshold p n) os i ↔
      n ≤ authAnomaly.retained py p (os.take (i + 1)) o.event := by
  have hadmits : authAnomaly.admits py o.event := by
    have happlies : Rule.authAnomaly.appliesTo py o.event = true := h
    simp [WindowRule.admits, rule, happlies]
  exact @firesAt_iff py (withThreshold p n) authAnomaly o os hn hw ht i ho hadmits

theorem statuses_of_countsLogins (hwin : 0 < p.authGeoWindow)
    (hw : ∀ o ∈ os, o.Watched .authAnomaly) (ht : authAnomaly.DistinctTokens os)
    (h : CountsLogins py (withThreshold p 1) os) : ∀ o ∈ os, appliesTo o.event →
      (o.event.status = some .success ↔ o.event.eventType = .authSuccess) := by
  intro o hmem happlies
  obtain ⟨i, ho⟩ := List.getElem?_of_mem hmem
  have hone := @firesAt_withThreshold_iff py p os o i 1 one_pos hw ht ho happlies
  constructor
  · intro hsuccess
    by_contra htype
    have hfailure : o.event.eventType = .authFailure := by
      simp only [appliesTo, Bool.and_eq_true, Bool.or_eq_true, decide_eq_true_eq] at happlies
      exact happlies.1.1.resolve_left htype
    exact h.failure i o ho hfailure (hone.mpr (one_le_retained ho happlies hsuccess))
  · intro htype
    by_contra hsuccess
    have hlogin : isLogin o.event := by simp [isLogin, htype, happlies]
    have hreached := hone.mp ((h.success i o ho hlogin).mpr
      (Int.ofNat_le.mpr (one_le_logins hwin ho hlogin)))
    rw [retained_eq_zero happlies hsuccess] at hreached
    omega

theorem retained_eq_of_countsLogins (hwin : 0 < p.authGeoWindow)
    (hw : ∀ o ∈ os, o.Watched .authAnomaly) (ht : authAnomaly.DistinctTokens os)
    (h : ∀ n, 0 < n → CountsLogins py (withThreshold p n) os)
    (ho : os[i]? = some o) (hlogin : isLogin o.event) :
    authAnomaly.retained py p (os.take (i + 1)) o.event =
      (sources (logins py p (os.take (i + 1)) o.event)).dedup.length := by
  obtain ⟨happlies, htype⟩ := appliesTo_of_isLogin hlogin
  have hboth : ∀ n, 0 < n → (n ≤ authAnomaly.retained py p (os.take (i + 1)) o.event ↔
      n ≤ ((sources (logins py p (os.take (i + 1)) o.event)).dedup.length : ℤ)) := fun n hn =>
    (firesAt_withThreshold_iff hn hw ht ho happlies).symm.trans ((h n hn).success i o ho hlogin)
  have hsuccess : o.event.status = some .success :=
    (statuses_of_countsLogins hwin hw ht (h 1 one_pos) o (List.mem_of_getElem? ho) happlies).mpr
      htype
  have hretained := @one_le_retained py p os o i ho happlies hsuccess
  have hlogins := Int.ofNat_le.mpr (@one_le_logins py p os o i hwin ho hlogin)
  exact le_antisymm ((hboth _ (by omega)).mp le_rfl) ((hboth _ (by omega)).mpr le_rfl)

theorem countsLogins_of_consistent (hwin : 0 < p.authGeoWindow)
    (hw : ∀ o ∈ os, o.Watched .authAnomaly) (ht : authAnomaly.DistinctTokens os)
    (hord : os.Pairwise fun a b => a.event.timestamp ≤ b.event.timestamp)
    (h : Consistent py p os) {n : ℤ} (hn : 0 < n) : CountsLogins py (withThreshold p n) os := by
  constructor
  · intro i o ho hlogin
    rw [firesAt_withThreshold_iff hn hw ht ho (appliesTo_of_isLogin hlogin).1,
      (retained_eq_iff h.statuses hwin hord ho hlogin).mpr
        ⟨h.held i o ho hlogin, h.distinguished i o ho hlogin⟩]
    rfl
  · intro i o ho hfailure
    by_cases happlies : appliesTo o.event
    · have hstatus : o.event.status ≠ some .success := fun hsuccess => by
        have htype := (h.statuses o (List.mem_of_getElem? ho) happlies).mp hsuccess
        rw [hfailure] at htype
        cases htype
      rw [firesAt_withThreshold_iff hn hw ht ho happlies, retained_eq_zero happlies hstatus]
      omega
    · exact not_firesAt_of_not_applies hw ho happlies

/-- On a stream in timestamp order the rule counts the successful logins of every account, at
every threshold, exactly when the stream is consistent. -/
theorem logins_counted_iff (py : Python) (p : Params) (os : List Sighting)
    (hwin : 0 < p.authGeoWindow) (hw : ∀ o ∈ os, o.Watched .authAnomaly)
    (ht : authAnomaly.DistinctTokens os)
    (hord : os.Pairwise fun a b => a.event.timestamp ≤ b.event.timestamp) :
    (∀ n, 0 < n → CountsLogins py (withThreshold p n) os) ↔ Consistent py p os := by
  constructor
  · intro h
    have hstatus := statuses_of_countsLogins hwin hw ht (h 1 one_pos)
    have hread := fun i o (ho : os[i]? = some o) (hlogin : isLogin o.event) =>
      (retained_eq_iff hstatus hwin hord ho hlogin).mp
        (retained_eq_of_countsLogins hwin hw ht h ho hlogin)
    exact ⟨hstatus, fun i o ho hlogin => (hread i o ho hlogin).1,
      fun i o ho hlogin => (hread i o ho hlogin).2⟩
  · intro h n hn
    exact countsLogins_of_consistent hwin hw ht hord h hn

def loginRaw (eventType : EventType) (status : Json) (ip : String) (seconds : ℤ) : JsonDict :=
  Sighting.authRaw "" eventType ip seconds ++ [("username", .str "alice"), ("status", status)]

def login (eventType : EventType) (status : Json) (ip : String) (seconds : ℤ) : Sighting where
  event := SecurityEvent.ofPayload Python.ascii someReadings (loginRaw eventType status ip seconds)
    (seconds * Datetime.microsPerSecond)
  ticks _ := ⟨0, toString seconds, 0⟩

theorem fromRaw_login (eventType : EventType) (status : Json) (ip : String) {seconds : ℤ}
    (h : seconds ≤ 86400) : SecurityEvent.fromRaw Python.ascii someReadings
      (loginRaw eventType status ip seconds) = .ok (login eventType status ip seconds).event :=
  Sighting.fromRaw_of_seconds rfl h

def stream (xs : List (EventType × Json × String × ℤ)) : List Sighting :=
  xs.map fun x => login x.1 x.2.1 x.2.2.1 x.2.2.2

theorem watched_stream (xs : List (EventType × Json × String × ℤ)) :
    ∀ o ∈ stream xs, o.Watched .authAnomaly := by
  intro o ho
  obtain ⟨x, -, rfl⟩ := List.mem_map.mp ho
  exact ⟨List.not_mem_nil, rfl⟩

theorem logins_counted_iff_failure_first :
    CountsLogins Python.ascii (withThreshold {} 2)
      (stream [(.authFailure, .str "failure", "203.0.113.1", 0),
        (.authSuccess, .str "success", "203.0.113.1", 1),
        (.authSuccess, .str "success", "203.0.113.2", 2)]) := by
  generalize hos : stream [(.authFailure, .str "failure", "203.0.113.1", 0),
    (.authSuccess, .str "success", "203.0.113.1", 1),
    (.authSuccess, .str "success", "203.0.113.2", 2)] = os
  have hlen : os.length = 3 := by rw [← hos]; rfl
  have hw : ∀ o ∈ os, o.Watched .authAnomaly := hos ▸ watched_stream _
  have hheld : ∀ i < 3, ∀ o ∈ os[i]?, isLogin o.event →
      ∀ ip ∈ sources (logins Python.ascii {} (os.take (i + 1)) o.event),
        ip ∈ sources ((authAnomaly.kept Python.ascii {} (os.take (i + 1)) o.event).map
          Sighting.event) := by
    rw [← hos]
    decide +kernel
  have hdistinct : ∀ i < 3, ∀ o ∈ os[i]?, isLogin o.event →
      ∀ ip ∈ sources (logins Python.ascii {} (os.take (i + 1)) o.event),
        ∀ ip' ∈ sources (logins Python.ascii {} (os.take (i + 1)) o.event),
          Windows.decode ip = Windows.decode ip' → ip = ip' := by
    rw [← hos]
    decide +kernel
  have hindex : ∀ {i o}, os[i]? = some o → i < 3 := fun ho =>
    hlen ▸ (List.getElem?_eq_some_iff.mp ho).1
  refine (logins_counted_iff Python.ascii {} os (by decide) hw ?_ ?_).mpr
    ⟨?_, fun i o ho h ip hip => hheld i (hindex ho) o ho h ip hip,
      fun i o ho h ip hip ip' hip' => hdistinct i (hindex ho) o ho h ip hip ip' hip'⟩ 2 two_pos
  · rw [← hos]
    exact ⟨by decide +kernel, by decide +kernel⟩
  · rw [← hos]
    decide +kernel
  · rw [← hos]
    decide +kernel

/-- Of two logins without a status none is counted, and a failure with the status of a success
is. -/
theorem status_contradicts_type :
    let silent := stream [(.authSuccess, .null, "203.0.113.1", 0),
      (.authSuccess, .null, "203.0.113.2", 1)]
    let contradictory := stream [(.authFailure, .str "success", "203.0.113.1", 0)]
    ¬ CountsLogins Python.ascii (withThreshold {} 2) silent ∧
      ¬ CountsLogins Python.ascii (withThreshold {} 1) contradictory := by
  intro silent contradictory
  constructor
  · intro hlaw
    obtain ⟨o, ho, hlogin, hadmits, hretained, htwo⟩ : ∃ o ∈ silent[1]?, isLogin o.event ∧
        authAnomaly.admits Python.ascii o.event ∧
        authAnomaly.retained Python.ascii (withThreshold {} 2) silent o.event = 0 ∧
        (sources (logins Python.ascii (withThreshold {} 2) silent o.event)).dedup.length = 2 := by
      decide +kernel
    have hfires := (hlaw.success 1 o ho hlogin).mpr (Int.ofNat_le.mpr htwo.ge)
    have hreached := (firesAt_iff (by decide) (watched_stream _)
      ⟨by decide +kernel, by decide +kernel⟩ ho hadmits).mp hfires
    exact absurd (hreached.trans_eq hretained) (by decide)
  · intro hlaw
    obtain ⟨o, ho, hfailure, hadmits, hretained⟩ : ∃ o ∈ contradictory[0]?,
        o.event.eventType = .authFailure ∧ authAnomaly.admits Python.ascii o.event ∧
        authAnomaly.retained Python.ascii (withThreshold {} 1) contradictory o.event = 1 := by
      decide +kernel
    exact hlaw.failure 0 o ho hfailure ((firesAt_iff (by decide)
      (watched_stream _) ⟨by decide +kernel, by decide +kernel⟩ ho
      hadmits).mpr hretained.ge)

end SiemEngine.AuthAnomaly

import SiemEngine.Detection.Lapsed
import SiemEngine.Streaming.Pipeline

/-!
# Retrying a batch

A batch whose transaction fails is processed again. The transaction is rolled back, the
seen-set is not, so the second attempt drops every event the first one had marked, unless the
key of the set has expired in between. Then the windows decide: they may still hold what the
first attempt added.
-/

namespace SiemEngine.Pipeline

/-- The call gets as far as its transaction, which fails. -/
structure TransactionFails (cfg : Config) (s : Pipeline) (c : Call) : Prop where
  checked : c.fault ≠ some .check
  marked : ∀ applied, c.fault ≠ some (.mark applied)
  fresh : freshOf cfg s c ≠ []
  failed : persist cfg s c (freshOf cfg s c) = none

def rolledOver (cfg : Config) (s : Pipeline) (c : Call)
    (events : List (Arrival × SecurityEvent)) : List Detection :=
  if minute c.now = s.bucket then []
  else rolloverDetections cfg
    { s with counter := (events.map Prod.snd).foldl MinuteCounter.count s.counter } c

/-- Every fresh event already has its row, no detector fires on them, and no minute
rollover that raises an alert is due. -/
structure NothingToWrite (cfg : Config) (s : Pipeline) (c : Call) : Prop where
  stored : ∀ av ∈ freshOf cfg s c, av.2.eventId ∈ s.db.events.ids
  quiet : (detect cfg s.windows (freshOf cfg s c)).2 = []
  noRollover : rolledOver cfg s c (freshOf cfg s c) = []

/-- The state when the next call comes: the key of the seen-set may have expired. -/
def later (expired : Bool) (s : Pipeline) : Pipeline := if expired then { s with seen := ∅ } else s

/-- The detectors fire on the batch as they would without the first attempt's members in their
windows. -/
def FiresAlike (cfg : Config) (s : Pipeline) (c₁ c₂ : Call) : Prop :=
  (detect cfg (processBatch cfg s c₁).1.windows (validate cfg.py c₂.arrivals)).2 =
    (detect cfg s.windows (validate cfg.py c₂.arrivals)).2

variable {cfg : Config} {s : Pipeline} {c c₁ c₂ : Call}

theorem freshOf_eq_nil_of_validate {c : Call} (h : (validate cfg.py c.arrivals).isEmpty) :
    freshOf cfg s c = [] := by
  rw [freshOf, List.isEmpty_iff.mp h]
  rfl

theorem processBatch_eq_processFresh (hfresh : freshOf cfg s c ≠ [])
    (hcheck : c.fault ≠ some .check) (hmark : ∀ applied, c.fault ≠ some (.mark applied)) :
    processBatch cfg s c = processFresh cfg s c (freshOf cfg s c) := by
  have hvalid : ¬ (validate cfg.py c.arrivals).isEmpty :=
    fun h => hfresh (freshOf_eq_nil_of_validate h)
  have hevents : ¬ (fresh s.seen (validate cfg.py c.arrivals)).isEmpty :=
    fun h => hfresh (List.isEmpty_iff.mp h)
  simp only [processBatch, if_neg hvalid, if_neg hcheck, if_neg hevents, if_neg (hmark _), freshOf]

theorem processBatch_db_of_freshOf_eq_nil (h : freshOf cfg s c = []) :
    (processBatch cfg s c).1 = s := by
  unfold processBatch
  dsimp only
  rw [show fresh s.seen (validate cfg.py c.arrivals) = [] from h]
  split_ifs <;> first | rfl | simp_all

theorem processBatch_of_transactionFails (h : TransactionFails cfg s c) :
    processBatch cfg s c = (detected cfg s (freshOf cfg s c), true) := by
  rw [processBatch_eq_processFresh h.fresh h.checked h.marked, processFresh, h.failed]

theorem mem_ids_validate_of_raw {py : Python} {as bs : List Arrival}
    (hraw : bs.map Arrival.raw = as.map Arrival.raw)
    (hexplicit : ∀ a ∈ as, SecurityEvent.ExplicitId a.raw) {id : UUID}
    (h : id ∈ ids (validate py as)) : id ∈ ids (validate py bs) := by
  obtain ⟨a, ha, ev, hev, rfl⟩ := mem_ids_validate.mp h
  have hmem : a.raw ∈ bs.map Arrival.raw := hraw ▸ List.mem_map_of_mem ha
  obtain ⟨b, hb, hba⟩ := List.mem_map.mp hmem
  obtain ⟨t, ht⟩ := SecurityEvent.fromRaw_isOk hev b.readings
  obtain ⟨t₀, rfl⟩ := SecurityEvent.fromRaw_eq_ok hev
  refine mem_ids_validate.mpr ⟨b, hb, _, hba ▸ ht, ?_⟩
  change SecurityEvent.identity py _ b.raw = SecurityEvent.identity py _ a.raw
  rw [hba]
  exact SecurityEvent.identity_of_explicitId (hexplicit a ha) py _ _

theorem freshOf_ne_nil_iff : freshOf cfg s c ≠ [] ↔ ∃ id, id ∈ ids (freshOf cfg s c) := by
  rw [Ne, ← List.map_eq_nil_iff (f := fun av => av.2.eventId)]
  exact ⟨List.exists_mem_of_ne_nil _, fun ⟨_, hid⟩ => List.ne_nil_of_mem hid⟩

theorem freshOf_retry (hraw : c₂.arrivals.map Arrival.raw = c₁.arrivals.map Arrival.raw)
    (hexplicit : ∀ a ∈ c₁.arrivals, SecurityEvent.ExplicitId a.raw)
    (hfail : TransactionFails cfg s c₁) : freshOf cfg (processBatch cfg s c₁).1 c₂ = [] := by
  by_contra hne
  obtain ⟨id, hid⟩ := freshOf_ne_nil_iff.mp hne
  obtain ⟨hvalid, hunseen⟩ := mem_ids_freshOf.mp hid
  rw [processBatch_of_transactionFails hfail] at hunseen
  have hexplicit₂ : ∀ a ∈ c₂.arrivals, SecurityEvent.ExplicitId a.raw := by
    intro a ha
    have hmem : a.raw ∈ c₁.arrivals.map Arrival.raw := hraw ▸ List.mem_map_of_mem ha
    obtain ⟨b, hb, hba⟩ := List.mem_map.mp hmem
    exact hba ▸ hexplicit b hb
  have hvalid₁ := mem_ids_validate_of_raw hraw.symm hexplicit₂ hvalid
  simp only [detected, Finset.mem_union, List.mem_toFinset, not_or] at hunseen
  exact hunseen.2 (mem_ids_freshOf.mpr ⟨hvalid₁, hunseen.1⟩)

theorem updateMetrics_db {events : List (Arrival × SecurityEvent)} (hfault : c.fault = none)
    (h : (updateMetrics cfg s c (events.map Prod.snd)).2 = false) :
    let out := persistStandalone none c.rolloverPref c.clock s.db (rolledOver cfg s c events)
    out.2 = false ∧ (updateMetrics cfg s c (events.map Prod.snd)).1.db = out.1 := by
  unfold updateMetrics rolledOver at *
  dsimp only at *
  by_cases hminute : minute c.now = s.bucket
  · simp only [if_pos hminute]
    exact ⟨rfl, rfl⟩
  · simp only [if_neg hminute, flushMinute, hfault] at h ⊢
    split_ifs at h ⊢ with hraised
    · rw [h] at hraised
      cases hraised
    · exact ⟨Bool.eq_false_iff.mpr hraised, rfl⟩

theorem processFresh_db {events : List (Arrival × SecurityEvent)} (hfault : c.fault = none)
    (h : (processFresh cfg s c events).2 = false) :
    ∃ db, persist cfg s c events = some db ∧
      (persistStandalone none c.rolloverPref c.clock db (rolledOver cfg s c events)).2 = false ∧
      (processFresh cfg s c events).1.db =
        (persistStandalone none c.rolloverPref c.clock db (rolledOver cfg s c events)).1 := by
  cases hdb : persist cfg s c events with
  | none => simp [processFresh, hdb] at h
  | some db =>
    have hpublish : c.fault ≠ some .publish := by simp [hfault]
    simp only [processFresh, hdb, if_neg hpublish] at h ⊢
    exact ⟨db, rfl, updateMetrics_db hfault h⟩

theorem db_eq_iff (hfault : c.fault = none)
    (h : (processFresh cfg s c (freshOf cfg s c)).2 = false) :
    s.db = (processFresh cfg s c (freshOf cfg s c)).1.db ↔ NothingToWrite cfg s c := by
  obtain ⟨db, hdb, hraised, hfinal⟩ := processFresh_db hfault h
  obtain ⟨hev, htotal, hquiet⟩ := Database.sessionScope_batch hdb
  have hroll := totalEvents_persistStandalone hraised
  have hevents := persistStandalone_events none c.rolloverPref c.clock db
    (rolledOver cfg s c (freshOf cfg s c))
  rw [hfinal]
  constructor
  · intro heq
    have hself : s.db.events.insertAll (((freshOf cfg s c).map Prod.snd).map rowFromEvent) =
        s.db.events := by rw [← hev, ← hevents, ← heq]
    rw [← heq] at hroll
    refine ⟨fun av hav => ?_, ?_, ?_⟩
    · exact (SecurityEvents.insertAll_eq_self_iff _ _).mp hself _
        (List.mem_map_of_mem (List.mem_map_of_mem hav))
    · exact List.length_eq_zero_iff.mp (by omega)
    · exact List.length_eq_zero_iff.mp (by omega)
  · intro h
    obtain ⟨hstored, hdetections, hrollover⟩ := h
    have hself : s.db.events.insertAll (((freshOf cfg s c).map Prod.snd).map rowFromEvent) =
        s.db.events := by
      rw [SecurityEvents.insertAll_eq_self_iff]
      simp only [List.map_map, List.mem_map, forall_exists_index, and_imp]
      intro row av hav h
      obtain rfl := h
      exact hstored av hav
    have halerts := hquiet hdetections
    rw [hself] at hev
    rw [hrollover, persistStandalone]
    exact congrArg₂ Database.mk hev.symm halerts.symm

theorem updateMetrics_of_windows (ws : Windows) (events : List SecurityEvent) :
    (updateMetrics cfg { s with windows := ws } c events).1.db =
      (updateMetrics cfg s c events).1.db := by
  unfold updateMetrics flushMinute
  dsimp only
  split_ifs <;> rfl

theorem processFresh_of_windows {ws : Windows} {events : List (Arrival × SecurityEvent)}
    (h : (detect cfg ws events).2 = (detect cfg s.windows events).2) :
    (processFresh cfg { s with windows := ws } c events).1.db =
      (processFresh cfg s c events).1.db := by
  have hpersist : persist cfg { s with windows := ws } c events = persist cfg s c events := by
    simp only [persist, h]
  unfold processFresh
  rw [hpersist]
  cases persist cfg s c events with
  | none => rfl
  | some db =>
    dsimp only
    split_ifs
    · rfl
    · exact updateMetrics_of_windows (s := { detected cfg s events with db }) _ _

theorem detect_agree {clocks : Set Time} {events : List (Arrival × SecurityEvent)}
    (hclocks : ∀ av ∈ events, ∀ r, (av.1.ticks r).clock ∈ clocks) {ws ws' : Windows}
    (hws : Windows.AgreeAt clocks ws ws') :
    (detect cfg ws events).2 = (detect cfg ws' events).2 := by
  unfold detect
  generalize ([] : List Detection) = ds
  induction events generalizing ws ws' ds with
  | nil => rfl
  | cons av events ih =>
    obtain ⟨hav, hevents⟩ := List.forall_mem_cons.mp hclocks
    obtain ⟨hres, hnext⟩ :=
      @DetectionEngine.evaluate_agree cfg.py cfg.engine av.2 _ _ _ _ hav hws
    simp only [List.foldl_cons, hres]
    exact ih hevents hnext _

theorem firesAlike_of_lapsed
    (h : Windows.AgreeAt {t | ∃ a ∈ c₂.arrivals, ∃ r, (a.ticks r).clock = t}
      (processBatch cfg s c₁).1.windows s.windows) : FiresAlike cfg s c₁ c₂ := by
  refine detect_agree (fun av hav r => ?_) h
  obtain ⟨a, ha, hmatch⟩ := List.mem_filterMap.mp hav
  split at hmatch
  · cases hmatch
    exact ⟨a, ha, r, rfl⟩
  · cases hmatch

theorem later_seen_subset (expired : Bool) (s : Pipeline) : (later expired s).seen ⊆ s.seen := by
  unfold later
  split_ifs
  · exact Finset.empty_subset _
  · exact subset_rfl

@[simp] theorem later_db (expired : Bool) (s : Pipeline) : (later expired s).db = s.db := by
  unfold later
  split_ifs <;> rfl

theorem freshOf_later_ne_nil {expired : Bool}
    (hraw : c₂.arrivals.map Arrival.raw = c₁.arrivals.map Arrival.raw)
    (hexplicit : ∀ a ∈ c₁.arrivals, SecurityEvent.ExplicitId a.raw)
    (hfail : TransactionFails cfg s c₁) : freshOf cfg (later expired s) c₂ ≠ [] := by
  obtain ⟨id, hid⟩ := freshOf_ne_nil_iff.mp hfail.fresh
  obtain ⟨hvalid, hunseen⟩ := mem_ids_freshOf.mp hid
  exact freshOf_ne_nil_iff.mpr ⟨id, mem_ids_freshOf.mpr
    ⟨mem_ids_validate_of_raw hraw hexplicit hvalid,
      fun h => hunseen (later_seen_subset expired s h)⟩⟩

theorem retried_db (hraw : c₂.arrivals.map Arrival.raw = c₁.arrivals.map Arrival.raw)
    (hexplicit : ∀ a ∈ c₁.arrivals, SecurityEvent.ExplicitId a.raw)
    (hfail : TransactionFails cfg s c₁) :
    (processBatch cfg (processBatch cfg s c₁).1 c₂).1.db = s.db := by
  rw [processBatch_db_of_freshOf_eq_nil (freshOf_retry hraw hexplicit hfail),
    processBatch_of_transactionFails hfail]
  rfl

/-- Once the set has expired both attempts find it empty, and differ in their windows alone. -/
theorem lapsed_db (hfail : TransactionFails cfg s c₁) (hfault : c₂.fault = none)
    (hfresh : freshOf cfg (later true s) c₂ ≠ []) (halike : FiresAlike cfg s c₁ c₂) :
    (processBatch cfg (later true (processBatch cfg s c₁).1) c₂).1.db =
      (processBatch cfg (later true s) c₂).1.db := by
  have hsame : later true (processBatch cfg s c₁).1 =
      { later true s with windows := (processBatch cfg s c₁).1.windows } := by
    rw [processBatch_of_transactionFails hfail]
    rfl
  have hall : freshOf cfg (later true s) c₂ = validate cfg.py c₂.arrivals := by
    simp [freshOf, fresh, later]
  have hcheck : c₂.fault ≠ some .check := by simp [hfault]
  have hmark : ∀ applied, c₂.fault ≠ some (.mark applied) := by simp [hfault]
  have hprocess := processBatch_eq_processFresh (c := c₂)
    (s := { later true s with windows := (processBatch cfg s c₁).1.windows }) hfresh hcheck hmark
  rw [hsame, hprocess, processBatch_eq_processFresh hfresh hcheck hmark]
  refine processFresh_of_windows (s := later true s) ?_
  change (detect cfg _ (freshOf cfg (later true s) c₂)).2 =
    (detect cfg s.windows (freshOf cfg (later true s) c₂)).2
  rw [hall]
  exact halike

/-- While the set lasts, the second attempt leaves what an undisturbed first one would have
left exactly when the batch has nothing to write; once it has expired, when the detectors fire
alike. -/
theorem retry_db_eq_iff (cfg : Config) (s : Pipeline) (c₁ c₂ : Call) {expired expired₀ : Bool}
    (hexpired : expired = true → expired₀ = true)
    (hraw : c₂.arrivals.map Arrival.raw = c₁.arrivals.map Arrival.raw)
    (hexplicit : ∀ a ∈ c₁.arrivals, SecurityEvent.ExplicitId a.raw)
    (hfail : TransactionFails cfg s c₁) (hfault : c₂.fault = none)
    (hclean : (processBatch cfg (later expired₀ s) c₂).2 = false) :
    let retried := (processBatch cfg (later expired (processBatch cfg s c₁).1) c₂).1.db
    let undisturbed := (processBatch cfg (later expired₀ s) c₂).1.db
    (expired = false → (retried = undisturbed ↔ NothingToWrite cfg (later expired₀ s) c₂)) ∧
      (expired = true → FiresAlike cfg s c₁ c₂ → retried = undisturbed) := by
  intro retried undisturbed
  have hfresh : ∀ lapsed, freshOf cfg (later lapsed s) c₂ ≠ [] := fun _ =>
    freshOf_later_ne_nil hraw hexplicit hfail
  constructor
  · rintro rfl
    have hretry : retried = (later expired₀ s).db :=
      (retried_db hraw hexplicit hfail).trans (later_db expired₀ s).symm
    have hprocess := processBatch_eq_processFresh (c := c₂) (hfresh expired₀) (by simp [hfault])
      (by simp [hfault])
    rw [hprocess] at hclean
    simp only [hretry, undisturbed, hprocess]
    exact db_eq_iff hfault hclean
  · rintro rfl halike
    obtain rfl := hexpired rfl
    exact lapsed_db hfail hfault (hfresh true) halike

theorem retry_db_eq_iff_requests :
    let attempt := callAtZero [requestOf "request-1", requestOf "request-2"] (some (.txn 1))
    let retry := callAtZero [requestOf "request-1", requestOf "request-2"] none
    (processBatch { py := Python.ascii }
        (processBatch { py := Python.ascii } (init 0) attempt).1 retry).1.db =
      (processBatch { py := Python.ascii } (init 0) retry).1.db ↔
        NothingToWrite { py := Python.ascii } (init 0) retry := by
  intro attempt retry
  have hfail : TransactionFails { py := Python.ascii } (init 0) attempt :=
    ⟨by decide, by simp [attempt, callAtZero, atZero],
      fun h => absurd (congrArg List.isEmpty h) (by decide +kernel),
      Option.isNone_iff_eq_none.mp (by decide +kernel)⟩
  exact (@retry_db_eq_iff { py := Python.ascii } (init 0) attempt retry false false id rfl
    (by decide) hfail rfl (by decide +kernel)).1 rfl

/-- The first attempt of a batch with one event fails in its transaction, and the second
one stores nothing. -/
theorem retried_request_lost :
    let attempt := callAtZero [requestOf "request-1"] (some (.txn 0))
    let retry := callAtZero [requestOf "request-1"] none
    TransactionFails { py := Python.ascii } (init 0) attempt ∧
      (processBatch { py := Python.ascii } (init 0) retry).2 = false ∧
      (processBatch { py := Python.ascii }
          (processBatch { py := Python.ascii } (init 0) attempt).1 retry).1.db ≠
        (processBatch { py := Python.ascii } (init 0) retry).1.db := by
  intro attempt retry
  refine ⟨⟨by decide, by simp [attempt, callAtZero, atZero],
    fun h => absurd (congrArg List.isEmpty h) (by decide +kernel), rfl⟩, by decide +kernel, ?_⟩
  intro heq
  exact absurd (congrArg (fun db => db.events.ids) heq) (by decide +kernel)

end SiemEngine.Pipeline

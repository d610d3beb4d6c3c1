import SiemEngine.Lib.Run
import SiemEngine.Streaming.Pipeline

/-!
# Ingest accounting

The counters of the events that `process_batch` ingests, rejects, drops as duplicates and
persists, where it increments them. Two things escape the equation they are meant to
satisfy: an event that the insert finds stored already, and a row that is counted as
persisted before its transaction rolls back.
-/

namespace SiemEngine

namespace SecurityEvents

/-- What `RETURNING` answers: the number of rows that were not there. -/
def newRows (t : SecurityEvents) (rows : List SecurityEventRow) : ℕ :=
  (t.insertAll rows).rows.length - t.rows.length

variable {t : SecurityEvents} {row : SecurityEventRow}

theorem length_insert_of_notMem (h : row.eventId ∉ t.ids) :
    (t.insert row).rows.length = t.rows.length + 1 := by
  have hinsert : (t.insert row).rows = t.rows ++ [row] := congrArg rows (dif_neg h)
  rw [hinsert, List.length_append, List.length_singleton]

theorem length_insertAll (t : SecurityEvents) (rows : List SecurityEventRow) :
    (t.insertAll rows).rows.length = t.rows.length + t.newRows rows := by
  have hle : t.rows.length ≤ (t.insertAll rows).rows.length := by
    induction rows generalizing t with
    | nil => exact le_rfl
    | cons row rows ih =>
      refine le_trans ?_ (ih (t.insert row))
      by_cases h : row.eventId ∈ t.ids
      · rw [insert_of_mem h]
      · rw [length_insert_of_notMem h]
        exact Nat.le_succ _
  unfold newRows
  omega

theorem newRows_cons_of_mem (h : row.eventId ∈ t.ids) (rows : List SecurityEventRow) :
    t.newRows (row :: rows) = t.newRows rows := by
  have hinsert : t.insertAll (row :: rows) = t.insertAll rows := by
    change (t.insert row).insertAll rows = _
    rw [insert_of_mem h]
  rw [newRows, hinsert, newRows]

theorem newRows_cons_of_notMem (h : row.eventId ∉ t.ids) (rows : List SecurityEventRow) :
    t.newRows (row :: rows) = (t.insert row).newRows rows + 1 := by
  have hrest := length_insertAll (t.insert row) rows
  have hall := length_insertAll t (row :: rows)
  change ((t.insert row).insertAll rows).rows.length = _ at hall
  rw [length_insert_of_notMem h] at hrest
  omega

theorem newRows_le (t : SecurityEvents) (rows : List SecurityEventRow) :
    t.newRows rows ≤ rows.length := by
  induction rows generalizing t with
  | nil => exact (Nat.sub_self _).le
  | cons row rows ih =>
    rw [List.length_cons]
    by_cases h : row.eventId ∈ t.ids
    · rw [newRows_cons_of_mem h]
      exact (ih t).trans (Nat.le_succ _)
    · rw [newRows_cons_of_notMem h]
      exact Nat.succ_le_succ (ih _)

theorem newRows_eq_length_iff (t : SecurityEvents) (rows : List SecurityEventRow) :
    t.newRows rows = rows.length ↔
      (rows.map SecurityEventRow.eventId).Nodup ∧ ∀ row ∈ rows, row.eventId ∉ t.ids := by
  induction rows generalizing t with
  | nil => simp [newRows, insertAll]
  | cons row rows ih =>
    rw [List.length_cons, List.map_cons, List.nodup_cons, List.forall_mem_cons]
    by_cases h : row.eventId ∈ t.ids
    · have hle := newRows_le t rows
      rw [newRows_cons_of_mem h]
      exact iff_of_false (by omega) (fun hall => hall.2.1 h)
    · rw [newRows_cons_of_notMem h, Nat.add_right_cancel_iff, ih]
      simp only [mem_ids_insert, not_or, List.mem_map, not_exists, not_and]
      constructor
      · intro hrest
        obtain ⟨hnodup, hnew⟩ := hrest
        exact ⟨⟨fun r hr heq => (hnew r hr).2 heq, hnodup⟩, h, fun r hr => (hnew r hr).1⟩
      · intro hall
        obtain ⟨⟨hne, hnodup⟩, -, hold⟩ := hall
        exact ⟨hnodup, fun r hr => ⟨hold r hr, hne r hr⟩⟩

theorem newRows_eq_zero_iff (t : SecurityEvents) (rows : List SecurityEventRow) :
    t.newRows rows = 0 ↔ ∀ row ∈ rows, row.eventId ∈ t.ids := by
  induction rows generalizing t with
  | nil => simp [newRows, insertAll]
  | cons row rows ih =>
    rw [List.forall_mem_cons]
    by_cases h : row.eventId ∈ t.ids
    · rw [newRows_cons_of_mem h, ih]
      simp [h]
    · rw [newRows_cons_of_notMem h]
      exact iff_of_false (Nat.succ_ne_zero _) (fun hall => h hall.1)

end SecurityEvents

namespace Pipeline

/-- What one call adds to the counters, and the fresh events that a rollback discards. -/
structure Counts where
  ingested : ℕ := 0
  invalid : ℕ := 0
  duplicate : ℕ := 0
  persisted : ℕ := 0
  rolledBack : ℕ := 0

/-- What `bulk_insert` answers in the transaction, 0 where it raises. -/
def written (db : Database) (c : Call) (events : List SecurityEvent) : ℕ :=
  if c.fault.bind Fault.statement? = some 0 then 0
  else match Database.bulkInsert events db with
    | none => 0
    | some _ => db.events.newRows (events.map rowFromEvent)

def counts (cfg : Config) (s : Pipeline) (c : Call) : Counts :=
  let valid := validate cfg.py c.arrivals
  let checked : Counts :=
    { ingested := c.arrivals.length, invalid := c.arrivals.length - valid.length }
  if valid.isEmpty then checked
  else if c.fault = some .check then checked
  else
    let events := fresh s.seen valid
    let deduped := { checked with duplicate := valid.length - events.length }
    if events.isEmpty then deduped
    else if c.fault = some (.mark false) then deduped
    else if c.fault = some (.mark true) then deduped
    else
      { deduped with
        persisted := written s.db c (events.map Prod.snd)
        rolledBack := match persist cfg s c events with
          | none => events.length
          | some _ => 0 }

/-- Redis answers both seen-set commands, and the fresh events of a batch are new rows that
its transaction commits, or none of them is inserted before it rolls back. -/
def Accounted (cfg : Config) (s : Pipeline) (c : Call) : Prop :=
  let events := freshOf cfg s c
  validate cfg.py c.arrivals = [] ∨ c.fault ≠ some .check ∧
    (events = [] ∨ (∀ applied, c.fault ≠ some (.mark applied)) ∧
      match persist cfg s c events with
      | some _ => (ids events).Nodup ∧ ∀ id ∈ ids events, id ∉ s.db.events.ids
      | none => c.fault.bind Fault.statement? = some 0 ∨
          Database.bulkInsert (events.map Prod.snd) s.db = none ∨
          ∀ id ∈ ids events, id ∈ s.db.events.ids)

section

variable {cfg : Config} {s : Pipeline} {c : Call}

/-- What happened to the events of a call: of those ingested, `lost` are under no counter, and
of the rows counted as persisted, `phantom` are not stored. -/
structure Drift (cfg : Config) (s : Pipeline) (c : Call) (lost phantom : ℕ) : Prop where
  ingested : (counts cfg s c).ingested + phantom = (counts cfg s c).invalid +
    (counts cfg s c).duplicate + (counts cfg s c).persisted + (counts cfg s c).rolledBack + lost
  persisted : s.db.events.rows.length + (counts cfg s c).persisted =
    (processBatch cfg s c).1.db.events.rows.length + phantom
  accounted : Accounted cfg s c ↔ lost = 0 ∧ phantom = 0

theorem length_validate (py : Python) (arrivals : List Arrival) :
    (validate py arrivals).length ≤ arrivals.length :=
  List.length_filterMap_le _ _

theorem length_fresh (seen : Finset UUID) (valid : List (Arrival × SecurityEvent)) :
    (fresh seen valid).length ≤ valid.length :=
  List.length_filter_le _ _

theorem written_eq_zero_iff (db : Database) (c : Call) (events : List (Arrival × SecurityEvent)) :
    written db c (events.map Prod.snd) = 0 ↔ c.fault.bind Fault.statement? = some 0 ∨
      Database.bulkInsert (events.map Prod.snd) db = none ∨
      ∀ id ∈ ids events, id ∈ db.events.ids := by
  have hids : (∀ id ∈ ids events, id ∈ db.events.ids) ↔
      ∀ row ∈ (events.map Prod.snd).map rowFromEvent, row.eventId ∈ db.events.ids := by
    simp only [ids, List.map_map, List.forall_mem_map]
    rfl
  unfold written
  by_cases hfail : c.fault.bind Fault.statement? = some 0
  · simp only [if_pos hfail, true_iff]
    exact Or.inl hfail
  · rw [if_neg hfail, hids]
    cases hins : Database.bulkInsert (events.map Prod.snd) db with
    | none => simp
    | some db' =>
      dsimp only
      rw [SecurityEvents.newRows_eq_zero_iff]
      simp [hfail]

theorem written_of_persist {events : List (Arrival × SecurityEvent)} {db : Database}
    (h : persist cfg s c events = some db) : written s.db c (events.map Prod.snd) =
      s.db.events.newRows ((events.map Prod.snd).map rowFromEvent) := by
  unfold persist Database.batchStatements at h
  have hfail : ¬ c.fault.bind Fault.statement? = some 0 := by
    intro hfail
    simp only [Database.sessionScope, if_pos hfail] at h
    cases h
  obtain ⟨db₁, hins, -⟩ := Database.sessionScope_cons h
  simp only [written, if_neg hfail, hins]

theorem ids_newRows_iff (db : Database) (events : List (Arrival × SecurityEvent)) :
    db.events.newRows ((events.map Prod.snd).map rowFromEvent) = events.length ↔
      (ids events).Nodup ∧ ∀ id ∈ ids events, id ∉ db.events.ids := by
  have hiff := db.events.newRows_eq_length_iff ((events.map Prod.snd).map rowFromEvent)
  simp only [List.length_map, List.map_map, List.forall_mem_map] at hiff
  rw [List.map_map, hiff]
  simp only [ids, List.forall_mem_map]
  rfl

theorem processFresh_rows {events : List (Arrival × SecurityEvent)} :
    (processFresh cfg s c events).1.db.events = match persist cfg s c events with
      | none => s.db.events
      | some _ => s.db.events.insertAll ((events.map Prod.snd).map rowFromEvent) := by
  unfold processFresh
  cases hpersist : persist cfg s c events with
  | none => rfl
  | some db =>
    have hev := (Database.sessionScope_batch hpersist).1
    dsimp only
    split_ifs
    · exact hev
    · rw [updateMetrics_events]
      exact hev

structure Reached (cfg : Config) (s : Pipeline) (c : Call) : Prop where
  valid : ¬ (validate cfg.py c.arrivals).isEmpty
  checked : ¬ c.fault = some .check
  fresh : ¬ (freshOf cfg s c).isEmpty
  marked : ∀ applied, ¬ c.fault = some (.mark applied)

namespace Reached

theorem processBatch_eq (h : Reached cfg s c) :
    processBatch cfg s c = processFresh cfg s c (freshOf cfg s c) := by
  simp only [processBatch, if_neg h.valid, if_neg h.checked, if_neg (h.marked _)]
  rw [← freshOf, if_neg h.fresh]

theorem counts_eq (h : Reached cfg s c) : counts cfg s c =
    { ingested := c.arrivals.length
      invalid := c.arrivals.length - (validate cfg.py c.arrivals).length
      duplicate := (validate cfg.py c.arrivals).length - (freshOf cfg s c).length
      persisted := written s.db c ((freshOf cfg s c).map Prod.snd)
      rolledBack := if (persist cfg s c (freshOf cfg s c)).isSome then 0
        else (freshOf cfg s c).length } := by
  simp only [counts, if_neg h.valid, if_neg h.checked, if_neg (h.marked _)]
  rw [← freshOf, if_neg h.fresh]
  cases persist cfg s c (freshOf cfg s c) <;> rfl

theorem accounted_of_committed (h : Reached cfg s c) {db : Database}
    (hpersist : persist cfg s c (freshOf cfg s c) = some db) : Accounted cfg s c ↔
      (ids (freshOf cfg s c)).Nodup ∧ ∀ id ∈ ids (freshOf cfg s c), id ∉ s.db.events.ids := by
  have hvalid : ¬ validate cfg.py c.arrivals = [] := mt List.isEmpty_iff.mpr h.valid
  have hfresh : ¬ freshOf cfg s c = [] := mt List.isEmpty_iff.mpr h.fresh
  simp only [Accounted, hvalid, h.checked, hfresh, h.marked, hpersist, false_or, ne_eq,
    not_false_eq_true, true_and, implies_true]

theorem accounted_of_rolledBack (h : Reached cfg s c)
    (hpersist : persist cfg s c (freshOf cfg s c) = none) : Accounted cfg s c ↔
      c.fault.bind Fault.statement? = some 0 ∨
        Database.bulkInsert ((freshOf cfg s c).map Prod.snd) s.db = none ∨
        ∀ id ∈ ids (freshOf cfg s c), id ∈ s.db.events.ids := by
  have hvalid : ¬ validate cfg.py c.arrivals = [] := mt List.isEmpty_iff.mpr h.valid
  have hfresh : ¬ freshOf cfg s c = [] := mt List.isEmpty_iff.mpr h.fresh
  simp only [Accounted, hvalid, h.checked, hfresh, h.marked, hpersist, false_or, ne_eq,
    not_false_eq_true, true_and, implies_true]

theorem exists_drift (h : Reached cfg s c) : ∃ lost phantom, Drift cfg s c lost phantom := by
  have hlen := length_validate cfg.py c.arrivals
  have hflen : (freshOf cfg s c).length ≤ (validate cfg.py c.arrivals).length :=
    length_fresh s.seen _
  have hcounts := h.counts_eq
  have hrows := @processFresh_rows cfg s c (freshOf cfg s c)
  rw [← h.processBatch_eq] at hrows
  cases hpersist : persist cfg s c (freshOf cfg s c) with
  | some db =>
    have hwritten := written_of_persist hpersist
    have hle := s.db.events.newRows_le (((freshOf cfg s c).map Prod.snd).map rowFromEvent)
    rw [List.length_map, List.length_map] at hle
    rw [hpersist, Option.isSome_some, if_pos rfl, hwritten] at hcounts
    rw [hpersist] at hrows
    refine ⟨(freshOf cfg s c).length -
      s.db.events.newRows (((freshOf cfg s c).map Prod.snd).map rowFromEvent), 0, ⟨?_, ?_, ?_⟩⟩
    · rw [hcounts]
      dsimp only
      omega
    · rw [hcounts, hrows, SecurityEvents.length_insertAll]
      rfl
    · rw [h.accounted_of_committed hpersist, ← ids_newRows_iff]
      omega
  | none =>
    rw [hpersist, Option.isSome_none, if_neg Bool.false_ne_true] at hcounts
    rw [hpersist] at hrows
    refine ⟨0, written s.db c ((freshOf cfg s c).map Prod.snd), ⟨?_, ?_, ?_⟩⟩
    · rw [hcounts]
      dsimp only
      omega
    · rw [hcounts, hrows]
    · rw [written_eq_zero_iff, h.accounted_of_rolledBack hpersist]
      exact (and_iff_right rfl).symm

end Reached

theorem drift_marking (hvalid : ¬ (validate cfg.py c.arrivals).isEmpty)
    (hcheck : ¬ c.fault = some .check) (hfresh : ¬ (freshOf cfg s c).isEmpty) {applied : Bool}
    (hmark : c.fault = some (.mark applied)) : ∃ lost phantom, Drift cfg s c lost phantom := by
  have hne : validate cfg.py c.arrivals ≠ [] := fun h => hvalid (List.isEmpty_iff.mpr h)
  have hfne : freshOf cfg s c ≠ [] := fun h => hfresh (List.isEmpty_iff.mpr h)
  have hfpos : 0 < (freshOf cfg s c).length := List.length_pos_iff.mpr hfne
  have hlen := length_validate cfg.py c.arrivals
  have hflen : (freshOf cfg s c).length ≤ (validate cfg.py c.arrivals).length :=
    length_fresh s.seen _
  have hcounts : counts cfg s c =
      { ingested := c.arrivals.length
        invalid := c.arrivals.length - (validate cfg.py c.arrivals).length
        duplicate := (validate cfg.py c.arrivals).length - (freshOf cfg s c).length } := by
    simp only [counts, if_neg hvalid, if_neg hcheck]
    rw [← freshOf, if_neg hfresh]
    cases applied <;> simp [hmark]
  have hrows : (processBatch cfg s c).1.db = s.db := by
    simp only [processBatch, if_neg hvalid, if_neg hcheck]
    rw [← freshOf, if_neg hfresh]
    cases applied <;> simp [hmark]
  refine ⟨(freshOf cfg s c).length, 0, ⟨?_, ?_, ?_⟩⟩
  · rw [hcounts]
    dsimp only
    omega
  · rw [hcounts, hrows]
  · refine iff_of_false (fun h => ?_) (fun h => hfpos.ne' h.1)
    rcases h with h | ⟨-, h | ⟨h, -⟩⟩
    · exact hne h
    · exact hfne h
    · exact h applied hmark

theorem exists_drift (cfg : Config) (s : Pipeline) (c : Call) :
    ∃ lost phantom, Drift cfg s c lost phantom := by
  have hlen := length_validate cfg.py c.arrivals
  have hflen : (freshOf cfg s c).length ≤ (validate cfg.py c.arrivals).length :=
    length_fresh s.seen _
  by_cases hvalid : (validate cfg.py c.arrivals).isEmpty
  · have hnil := List.isEmpty_iff.mp hvalid
    refine ⟨0, 0, ⟨?_, ?_, ?_⟩⟩
    · simp [counts, hnil]
    · simp [counts, processBatch, hnil]
    · simp [Accounted, hnil]
  have hne : validate cfg.py c.arrivals ≠ [] := fun h => hvalid (List.isEmpty_iff.mpr h)
  by_cases hcheck : c.fault = some .check
  · refine ⟨(validate cfg.py c.arrivals).length, 0, ⟨?_, ?_, ?_⟩⟩
    · simp only [counts, if_neg hvalid, if_pos hcheck]
      omega
    · simp only [counts, processBatch, if_neg hvalid, if_pos hcheck]
    · simp [Accounted, hne, hcheck]
  by_cases hfresh : (freshOf cfg s c).isEmpty
  · have hnil := List.isEmpty_iff.mp hfresh
    refine ⟨0, 0, ⟨?_, ?_, ?_⟩⟩
    · simp only [counts, if_neg hvalid, if_neg hcheck]
      rw [← freshOf, if_pos hfresh, hnil]
      dsimp only [List.length_nil]
      omega
    · simp only [counts, processBatch, if_neg hvalid, if_neg hcheck]
      rw [← freshOf, if_pos hfresh, if_pos hfresh]
    · simp [Accounted, hnil, hcheck]
  by_cases hmark : ∃ applied, c.fault = some (.mark applied)
  · obtain ⟨applied, happlied⟩ := hmark
    exact drift_marking hvalid hcheck hfresh happlied
  · rw [not_exists] at hmark
    exact Reached.exists_drift ⟨hvalid, hcheck, hfresh, hmark⟩

def commit? (cfg : Config) (s : Pipeline) (c : Call) : Option Database :=
  if (validate cfg.py c.arrivals).isEmpty ∨ c.fault = some .check ∨ (freshOf cfg s c).isEmpty ∨
      c.fault = some (.mark false) ∨ c.fault = some (.mark true) then none
  else persist cfg s c (freshOf cfg s c)

theorem commit?_eq_some {db : Database} : commit? cfg s c = some db ↔
    Reached cfg s c ∧ persist cfg s c (freshOf cfg s c) = some db := by
  rw [commit?]
  constructor
  · intro h
    split_ifs at h with hearly
    simp only [not_or] at hearly
    obtain ⟨hvalid, hcheck, hfresh, hbefore, hafter⟩ := hearly
    refine ⟨⟨hvalid, hcheck, hfresh, fun applied => ?_⟩, h⟩
    cases applied with
    | false => exact hbefore
    | true => exact hafter
  · intro h
    obtain ⟨hreached, hpersist⟩ := h
    rw [if_neg, hpersist]
    simp only [not_or]
    exact ⟨hreached.valid, hreached.checked, hreached.fresh, hreached.marked false,
      hreached.marked true⟩

theorem processBatch_of_commit {db : Database} (h : commit? cfg s c = some db) :
    processBatch cfg s c =
    if c.fault = some .publish then ({ detected cfg s (freshOf cfg s c) with db }, true)
    else updateMetrics cfg { detected cfg s (freshOf cfg s c) with db } c
      ((freshOf cfg s c).map Prod.snd) := by
  obtain ⟨hreached, hpersist⟩ := commit?_eq_some.mp h
  rw [hreached.processBatch_eq, processFresh, hpersist]

theorem processBatch_of_not_commit (h : commit? cfg s c = none) :
    (processBatch cfg s c).1.db = s.db := by
  rw [commit?] at h
  unfold processBatch
  dsimp only
  rw [← freshOf]
  split_ifs with hvalid hcheck hfresh hbefore hafter
  · rfl
  · rfl
  · rfl
  · rfl
  · rfl
  · rw [if_neg (by simp [hvalid, hcheck, hfresh, hbefore, hafter])] at h
    rw [processFresh, h]
    rfl

end

end Pipeline

structure Accounts where
  pipeline : Pipeline
  ingested : ℕ := 0
  invalid : ℕ := 0
  duplicate : ℕ := 0
  persisted : ℕ := 0
  rolledBack : ℕ := 0

namespace Accounts

inductive Act
  | batch (c : Call)
  | evict (gone : Finset UUID)

def step (cfg : Config) (a : Accounts) : Act → Accounts
  | .batch c =>
    let added := Pipeline.counts cfg a.pipeline c
    { pipeline := (Pipeline.processBatch cfg a.pipeline c).1
      ingested := a.ingested + added.ingested
      invalid := a.invalid + added.invalid
      duplicate := a.duplicate + added.duplicate
      persisted := a.persisted + added.persisted
      rolledBack := a.rolledBack + added.rolledBack }
  | .evict gone => { a with pipeline := { a.pipeline with seen := a.pipeline.seen \ gone } }

def stored (a : Accounts) : ℕ := a.pipeline.db.events.rows.length

/-- `before` is the number of rows that were stored when the counters were zero. -/
structure Balanced (before : ℕ) (a : Accounts) : Prop where
  ingested : a.ingested = a.invalid + a.duplicate + a.persisted + a.rolledBack
  persisted : a.stored = before + a.persisted

def Accounted (cfg : Config) (a : Accounts) : Act → Prop
  | .batch c => Pipeline.Accounted cfg a.pipeline c
  | .evict _ => True

structure Drifted (before : ℕ) (a : Accounts) (lost phantom : ℕ) : Prop where
  ingested : a.ingested + phantom =
    a.invalid + a.duplicate + a.persisted + a.rolledBack + lost
  persisted : before + a.persisted = a.stored + phantom

variable {cfg : Config} {before lost phantom : ℕ} {a : Accounts}

theorem Drifted.balanced_iff (h : Drifted before a lost phantom) :
    Balanced before a ↔ lost = 0 ∧ phantom = 0 := by
  obtain ⟨hingested, hpersisted⟩ := h
  constructor
  · intro hb
    obtain ⟨hi, hp⟩ := hb
    omega
  · intro hz
    exact ⟨by omega, by omega⟩

theorem Drifted.step (h : Drifted before a lost phantom) (act : Act) : ∃ lost' phantom',
    Drifted before (step cfg a act) (lost + lost') (phantom + phantom') ∧
      (Accounted cfg a act ↔ lost' = 0 ∧ phantom' = 0) := by
  cases act with
  | batch c =>
    obtain ⟨lost', phantom', hdrift⟩ := Pipeline.exists_drift cfg a.pipeline c
    refine ⟨lost', phantom', ⟨?_, ?_⟩, hdrift.accounted⟩
    · have hcall := hdrift.ingested
      have hold := h.ingested
      simp only [Accounts.step]
      omega
    · have hcall := hdrift.persisted
      have hold := h.persisted
      simp only [Accounts.step, stored] at hold ⊢
      omega
  | evict gone => exact ⟨0, 0, ⟨h.ingested, h.persisted⟩, iff_of_true trivial ⟨rfl, rfl⟩⟩

theorem drifted_step (a : Accounts) (act : Act)
    (h : ∃ lost phantom, Drifted before a lost phantom) :
    ∃ lost phantom, Drifted before (step cfg a act) lost phantom := by
  obtain ⟨lost, phantom, hdrift⟩ := h
  obtain ⟨lost', phantom', hstep, -⟩ := @Drifted.step cfg _ _ _ _ hdrift act
  exact ⟨lost + lost', phantom + phantom', hstep⟩

theorem balanced_step_iff (a : Accounts) (act : Act)
    (h : ∃ lost phantom, Drifted before a lost phantom) :
    Balanced before (step cfg a act) ↔ Balanced before a ∧ Accounted cfg a act := by
  obtain ⟨lost, phantom, hdrift⟩ := h
  obtain ⟨lost', phantom', hstep, haccounted⟩ := @Drifted.step cfg _ _ _ _ hdrift act
  rw [hstep.balanced_iff, hdrift.balanced_iff, haccounted]
  omega

/-- In every run the counters balance exactly when all its calls are accounted for: no failure
of the seen-set, no fresh event that is stored already or twice in its batch, and no rollback
after rows were inserted. -/
theorem counters_balanced_iff (cfg : Config) (s : Pipeline) (acts : List Act) :
    Balanced s.db.events.rows.length (Run.exec (step cfg) { pipeline := s } acts) ↔
      Run.Guarded (step cfg) (Accounted cfg) { pipeline := s } acts :=
  (Run.last_iff_guarded drifted_step balanced_step_iff ⟨0, 0, rfl, rfl⟩ acts).trans
    (and_iff_right ⟨rfl, rfl⟩)

/-- An event twice in one batch is counted as ingested twice and persisted once; a row that
the commit rolls back stays counted. -/
theorem counters_diverge :
    let cfg : Config := { py := Python.ascii }
    let twice := Pipeline.callAtZero
      [Pipeline.requestOf "request-1", Pipeline.requestOf "request-1"] none
    let undone := Pipeline.callAtZero [Pipeline.requestOf "request-1"] (some (.txn 1))
    let a := Run.exec (step cfg) { pipeline := Pipeline.init 0 } [.batch twice]
    let b := Run.exec (step cfg) { pipeline := Pipeline.init 0 } [.batch undone]
    (a.ingested, a.invalid, a.duplicate, a.persisted, a.rolledBack) = (2, 0, 0, 1, 0) ∧
      ¬ Balanced 0 a ∧ (b.persisted, b.stored) = (1, 0) ∧ ¬ Balanced 0 b := by
  intro cfg twice undone a b
  have ha : (a.ingested, a.invalid, a.duplicate, a.persisted, a.rolledBack) = (2, 0, 0, 1, 0) := by
    decide +kernel
  have hb : (b.persisted, b.stored) = (1, 0) := by decide +kernel
  refine ⟨ha, fun h => ?_, hb, fun h => ?_⟩
  · simp only [Prod.mk.injEq] at ha
    have hingested := h.ingested
    omega
  · simp only [Prod.mk.injEq] at hb
    have hpersisted := h.persisted
    omega

end Accounts

end SiemEngine

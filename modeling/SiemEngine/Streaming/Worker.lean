import SiemEngine.Lib.Run
import SiemEngine.Streaming.Pipeline

/-!
# The worker loop

One consumer feeds one pipeline. A fetch returns the next records of some partitions and
moves the positions past them, a commit commits the positions. A batch that raises is
logged and the loop goes on with the next one; it neither seeks back nor stops.
-/

namespace SiemEngine.Worker

/-- A topic by partition; `none` is a record that cannot be decoded. -/
abbrev Topic := ℕ → List (Option JsonDict)

structure Message where
  partition : ℕ
  offset : ℕ
  raw : JsonDict

structure Record where
  partition : ℕ
  offset : ℕ
  arrival : Arrival

/-- Everything the environment decides in one turn of the loop: how many records of which
partitions `getmany` returns, what is read with each message, how the call goes, and
whether the commit goes through. -/
structure Turn where
  chunks : List (ℕ × ℕ)
  readings : ℕ → Readings
  ticks : ℕ → Rule → Tick
  circumstances : Circumstances
  commits : Bool

structure State where
  pipeline : Pipeline
  position : ℕ → ℕ
  committed : ℕ → ℕ
  yielded : List Record := []

def decode (partition : ℕ) : (offset : ℕ) → List (Option JsonDict) → List Message
  | _, [] => []
  | offset, none :: rest => decode partition (offset + 1) rest
  | offset, some raw :: rest => ⟨partition, offset, raw⟩ :: decode partition (offset + 1) rest

/-- `getmany` with the decoding of `batches`; the messages and the new positions. -/
def getmany (topic : Topic) : (position : ℕ → ℕ) → List (ℕ × ℕ) → List Message × (ℕ → ℕ)
  | position, [] => ([], position)
  | position, (partition, n) :: rest =>
    let records := ((topic partition).drop (position partition)).take n
    let out := getmany topic
      (Function.update position partition (position partition + records.length)) rest
    (decode partition (position partition) records ++ out.1, out.2)

namespace Turn

variable (topic : Topic) (position : ℕ → ℕ) (t : Turn)

def records : List Record :=
  (getmany topic position t.chunks).1.mapIdx fun i m =>
    ⟨m.partition, m.offset, ⟨m.raw, t.readings i, t.ticks i⟩⟩

def call : Call := ⟨t.circumstances, (t.records topic position).map Record.arrival⟩

end Turn

inductive Act
  | turn (t : Turn)
  | expire

def step (cfg : Config) (topic : Topic) (st : State) : Act → State
  | .expire => { st with pipeline := { st.pipeline with seen := ∅ } }
  | .turn t =>
    let position := (getmany topic st.position t.chunks).2
    let records := t.records topic st.position
    if records.isEmpty then { st with position }
    else
      let out := st.pipeline.processBatch cfg (t.call topic st.position)
      { pipeline := out.1
        position := position
        committed := if out.2 = false ∧ t.commits then position else st.committed
        yielded := st.yielded ++ records }

def start (pipeline : Pipeline) (position : ℕ → ℕ) : State := ⟨pipeline, position, position, []⟩

theorem mem_decode {partition offset : ℕ} {records : List (Option JsonDict)} {m : Message} :
    m ∈ decode partition offset records ↔ m.partition = partition ∧
      ∃ i, records[i]? = some (some m.raw) ∧ m.offset = offset + i := by
  induction records generalizing offset with
  | nil => simp [decode]
  | cons r rest ih =>
    have hshift : (∃ i, rest[i]? = some (some m.raw) ∧ m.offset = offset + 1 + i) ↔
        ∃ i, (r :: rest)[i + 1]? = some (some m.raw) ∧ m.offset = offset + (i + 1) := by
      simp only [List.getElem?_cons_succ, Nat.add_right_comm, Nat.add_assoc]
    rw [← Nat.or_exists_add_one, List.getElem?_cons_zero, and_or_left, ← hshift]
    cases r with
    | none => simp [decode, ih]
    | some raw =>
      obtain ⟨p, o, raw'⟩ := m
      simp only [decode, List.mem_cons, ih, Message.mk.injEq, Option.some.injEq, Nat.add_zero]
      grind

theorem le_getmany (topic : Topic) (position : ℕ → ℕ) (chunks : List (ℕ × ℕ)) (p : ℕ) :
    position p ≤ (getmany topic position chunks).2 p := by
  induction chunks generalizing position with
  | nil => exact le_rfl
  | cons chunk rest ih =>
    obtain ⟨partition, n⟩ := chunk
    refine le_trans ?_ (ih _)
    rcases eq_or_ne p partition with rfl | hp
    · rw [Function.update_self]
      exact Nat.le_add_right _ _
    · rw [Function.update_of_ne hp]

theorem getElem?_chunk {records : List (Option JsonDict)} {offset n i : ℕ} {raw : JsonDict} :
    ((records.drop offset).take n)[i]? = some (some raw) ↔
      i < ((records.drop offset).take n).length ∧ records[offset + i]? = some (some raw) := by
  rw [← List.getElem?_drop, List.getElem?_take]
  constructor
  · intro h
    split_ifs at h with hi
    have hlt := (List.getElem?_eq_some_iff.mp h).1
    exact ⟨by rw [List.length_take]; omega, h⟩
  · intro h
    obtain ⟨hi, h⟩ := h
    rw [List.length_take] at hi
    rw [if_pos (by omega), h]

theorem mem_getmany {topic : Topic} {position : ℕ → ℕ} {chunks : List (ℕ × ℕ)} {m : Message} :
    m ∈ (getmany topic position chunks).1 ↔
      (topic m.partition)[m.offset]? = some (some m.raw) ∧ position m.partition ≤ m.offset ∧
        m.offset < (getmany topic position chunks).2 m.partition := by
  induction chunks generalizing position with
  | nil =>
    simp only [getmany, List.not_mem_nil, false_iff]
    omega
  | cons chunk rest ih =>
    obtain ⟨partition, n⟩ := chunk
    simp only [getmany, List.mem_append, ih, mem_decode, getElem?_chunk]
    generalize hlen : (((topic partition).drop (position partition)).take n).length = len
    have hle := le_getmany topic
      (Function.update position partition (position partition + len)) rest m.partition
    rcases eq_or_ne m.partition partition with hp | hp
    · rw [hp, Function.update_self] at hle ⊢
      constructor
      · intro h
        obtain ⟨-, i, ⟨hi, hget⟩, hoffset⟩ | ⟨hget, hlow, hhigh⟩ := h
        · exact ⟨hoffset ▸ hget, by omega, by omega⟩
        · exact ⟨hget, by omega, hhigh⟩
      · intro h
        obtain ⟨hget, hlow, hhigh⟩ := h
        by_cases hchunk : m.offset < position partition + len
        · have hoffset : m.offset = position partition + (m.offset - position partition) := by omega
          exact Or.inl ⟨rfl, m.offset - position partition, ⟨by omega, hoffset ▸ hget⟩, hoffset⟩
        · exact Or.inr ⟨hget, by omega, hhigh⟩
    · rw [Function.update_of_ne hp]
      simp only [hp, false_and, false_or]

section

variable {topic : Topic} {position : ℕ → ℕ} {t : Turn}

theorem offset_of_mem_records {r : Record} (h : r ∈ t.records topic position) :
    position r.partition ≤ r.offset ∧
      r.offset < (getmany topic position t.chunks).2 r.partition := by
  obtain ⟨i, hi, rfl⟩ := List.mem_mapIdx.mp h
  exact (mem_getmany.mp (List.getElem_mem hi)).2

end

def Record.Accepted (cfg : Config) (r : Record) (id : UUID) : Prop :=
  ∃ ev, SecurityEvent.fromRaw cfg.py r.arrival.readings r.arrival.raw = .ok ev ∧ ev.eventId = id

def NoCommittedLoss (cfg : Config) (st : State) : Prop :=
  ∀ r ∈ st.yielded, r.offset < st.committed r.partition →
    ∀ id, r.Accepted cfg id → id ∈ st.pipeline.db.events.ids

structure Commits (cfg : Config) (topic : Topic) (st : State) (t : Turn) : Prop where
  yielded : t.records topic st.position ≠ []
  succeeded : (st.pipeline.processBatch cfg (t.call topic st.position)).2 = false
  committed : t.commits = true

/-- What a committing batch needs: every accepted message that was yielded earlier and is
not committed yet has its row, or shares its id with an event the batch stores; and no
event of the batch has an id that was left in the seen-set without a row before the start. -/
def CommitsStored (cfg : Config) (topic : Topic) (stale : Finset UUID) (st : State) : Act → Prop
  | .expire => True
  | .turn t => Commits cfg topic st t →
    (∀ r ∈ st.yielded, st.committed r.partition ≤ r.offset → ∀ id, r.Accepted cfg id →
      id ∈ st.pipeline.db.events.ids ∨
        id ∈ Pipeline.ids (st.pipeline.freshOf cfg (t.call topic st.position))) ∧
    ∀ id ∈ Pipeline.ids (Pipeline.validate cfg.py (t.call topic st.position).arrivals),
      id ∈ stale → id ∈ st.pipeline.db.events.ids ∨ id ∉ st.pipeline.seen

def stale (s : Pipeline) : Finset UUID := s.seen \ s.db.events.ids.toFinset

/-- The invariant of the loop: an id in the seen-set has a row, was there before the start,
or is that of a message still to be committed. -/
structure Invariant (cfg : Config) (old : Finset UUID) (st : State) : Prop where
  noLoss : NoCommittedLoss cfg st
  yielded_lt : ∀ r ∈ st.yielded, r.offset < st.position r.partition
  committed_le : ∀ p, st.committed p ≤ st.position p
  seen : ∀ id ∈ st.pipeline.seen, id ∈ st.pipeline.db.events.ids ∨ id ∈ old ∨
    ∃ r ∈ st.yielded, st.committed r.partition ≤ r.offset ∧ r.Accepted cfg id

section

variable {cfg : Config} {topic : Topic} {st : State} {t : Turn} {old : Finset UUID}

theorem mem_ids_call {id : UUID} :
    id ∈ Pipeline.ids (Pipeline.validate cfg.py (t.call topic st.position).arrivals) ↔
      ∃ r ∈ t.records topic st.position, r.Accepted cfg id := by
  simp only [Pipeline.mem_ids_validate, Turn.call, List.mem_map, exists_exists_and_eq_and,
    Record.Accepted]

/-- What a turn does: the batch, possibly empty, is processed and added to what was
yielded, and the positions are committed when it succeeds. -/
theorem step_turn (cfg : Config) (topic : Topic) (st : State) (t : Turn) :
    let st' := step cfg topic st (.turn t)
    st'.pipeline = (st.pipeline.processBatch cfg (t.call topic st.position)).1 ∧
      st'.position = (getmany topic st.position t.chunks).2 ∧
      st'.yielded = st.yielded ++ t.records topic st.position ∧
      (Commits cfg topic st t ∧ st'.committed = st'.position ∨
        ¬ Commits cfg topic st t ∧ st'.committed = st.committed) := by
  simp only [step]
  split_ifs with hempty hcommits
  · rw [List.isEmpty_iff] at hempty
    refine ⟨?_, rfl, by simp [hempty], Or.inr ⟨fun h => h.yielded hempty, rfl⟩⟩
    simp [Pipeline.processBatch, Turn.call, hempty, Pipeline.validate]
  · exact ⟨rfl, rfl, rfl, Or.inl ⟨⟨by simpa using hempty, hcommits.1, hcommits.2⟩, rfl⟩⟩
  · exact ⟨rfl, rfl, rfl, Or.inr ⟨fun h => hcommits ⟨h.succeeded, h.committed⟩, rfl⟩⟩

theorem invariant_start (s : Pipeline) (position : ℕ → ℕ) :
    Invariant cfg (stale s) (start s position) where
  noLoss r hr := absurd hr List.not_mem_nil
  yielded_lt r hr := absurd hr List.not_mem_nil
  committed_le p := le_rfl
  seen id hid := by
    by_cases hrow : id ∈ s.db.events.ids
    · exact Or.inl hrow
    · exact Or.inr (Or.inl (Finset.mem_sdiff.mpr ⟨hid, mt List.mem_toFinset.mp hrow⟩))

theorem mem_seen_processBatch {s : Pipeline} {c : Call} {id : UUID}
    (h : id ∈ (s.processBatch cfg c).1.seen) :
    id ∈ s.seen ∨ id ∈ Pipeline.ids (s.freshOf cfg c) := by
  simpa using Pipeline.processBatch_seen cfg s c h

theorem yielded_lt_step (hI : Invariant cfg old st) :
    ∀ r ∈ (step cfg topic st (.turn t)).yielded,
      r.offset < (step cfg topic st (.turn t)).position r.partition := by
  obtain ⟨-, hposition, hyielded, -⟩ := step_turn cfg topic st t
  intro r hr
  rw [hyielded, List.mem_append] at hr
  rw [hposition]
  rcases hr with hr | hr
  · exact (hI.yielded_lt r hr).trans_le (le_getmany topic st.position t.chunks _)
  · exact (offset_of_mem_records hr).2

theorem invariant_of_not_commits (hI : Invariant cfg old st)
    (h : ¬ Commits cfg topic st t) : Invariant cfg old (step cfg topic st (.turn t)) := by
  obtain ⟨hpipeline, hposition, hyielded, ⟨hc, -⟩ | ⟨-, hcommitted⟩⟩ := step_turn cfg topic st t
  · exact absurd hc h
  refine ⟨?_, yielded_lt_step hI, ?_, ?_⟩
  · intro r hr hlt id hid
    rw [hyielded, List.mem_append] at hr
    rw [hcommitted] at hlt
    rcases hr with hr | hr
    · rw [hpipeline]
      exact Pipeline.mem_ids_processBatch_of_mem (hI.noLoss r hr hlt id hid)
    · have hlow := (offset_of_mem_records hr).1
      have hcom := hI.committed_le r.partition
      omega
  · intro p
    rw [hcommitted, hposition]
    exact (hI.committed_le p).trans (le_getmany topic st.position t.chunks p)
  · intro id hid
    rw [hpipeline] at hid
    rw [hpipeline, hyielded, hcommitted]
    rcases mem_seen_processBatch hid with hseen | hfresh
    · rcases hI.seen id hseen with hrow | hold | ⟨r, hr, hcom, hacc⟩
      · exact Or.inl (Pipeline.mem_ids_processBatch_of_mem hrow)
      · exact Or.inr (Or.inl hold)
      · exact Or.inr (Or.inr ⟨r, List.mem_append_left _ hr, hcom, hacc⟩)
    · obtain ⟨r, hr, hacc⟩ := mem_ids_call.mp (Pipeline.mem_ids_freshOf.mp hfresh).1
      have hlow := (offset_of_mem_records hr).1
      exact Or.inr (Or.inr ⟨r, List.mem_append_right _ hr, (hI.committed_le _).trans hlow, hacc⟩)

theorem stored_of_commits (hI : Invariant cfg old st) (hc : Commits cfg topic st t)
    (hg : CommitsStored cfg topic old st (.turn t)) {r : Record}
    (hr : r ∈ st.yielded ++ t.records topic st.position) {id : UUID} (hid : r.Accepted cfg id) :
    id ∈ (st.pipeline.processBatch cfg (t.call topic st.position)).1.db.events.ids := by
  obtain ⟨hearlier, hstale⟩ := hg hc
  rw [Pipeline.mem_ids_processBatch hc.succeeded]
  rcases List.mem_append.mp hr with hr | hr
  · rcases lt_or_ge r.offset (st.committed r.partition) with hlt | hge
    · exact Or.inl (hI.noLoss r hr hlt id hid)
    · exact hearlier r hr hge id hid
  · have hvalid := mem_ids_call.mpr ⟨r, hr, hid⟩
    by_cases hseen : id ∈ st.pipeline.seen
    · rcases hI.seen id hseen with hrow | hold | ⟨r', hr', hcom, hacc⟩
      · exact Or.inl hrow
      · exact Or.inl ((hstale id hvalid hold).resolve_right (not_not_intro hseen))
      · exact hearlier r' hr' hcom id hacc
    · exact Or.inr (Pipeline.mem_ids_freshOf.mpr ⟨hvalid, hseen⟩)

theorem invariant_of_commits (hI : Invariant cfg old st) (hc : Commits cfg topic st t)
    (hg : CommitsStored cfg topic old st (.turn t)) :
    Invariant cfg old (step cfg topic st (.turn t)) := by
  obtain ⟨hpipeline, hposition, hyielded, ⟨-, hcommitted⟩ | ⟨hnc, -⟩⟩ := step_turn cfg topic st t
  swap
  · exact absurd hc hnc
  have hstored (r : Record) (hr : r ∈ st.yielded ++ t.records topic st.position) (id : UUID)
      (hid : r.Accepted cfg id) := stored_of_commits hI hc hg hr hid
  refine ⟨?_, yielded_lt_step hI, fun p => (congrFun hcommitted p).le, ?_⟩
  · intro r hr _ id hid
    rw [hpipeline]
    exact hstored r (hyielded ▸ hr) id hid
  · intro id hid
    rw [hpipeline] at hid ⊢
    rcases mem_seen_processBatch hid with hseen | hfresh
    · rcases hI.seen id hseen with hrow | hold | ⟨r, hr, -, hacc⟩
      · exact Or.inl (Pipeline.mem_ids_processBatch_of_mem hrow)
      · exact Or.inr (Or.inl hold)
      · exact Or.inl (hstored r (List.mem_append_left _ hr) id hacc)
    · exact Or.inl ((Pipeline.mem_ids_processBatch hc.succeeded).mpr (Or.inr hfresh))

theorem invariant_step (a : Act) (hI : Invariant cfg old st)
    (hg : CommitsStored cfg topic old st a) : Invariant cfg old (step cfg topic st a) := by
  cases a with
  | expire =>
    exact ⟨hI.noLoss, hI.yielded_lt, hI.committed_le,
      fun id hid => absurd hid (Finset.notMem_empty id)⟩
  | turn t =>
    by_cases hc : Commits cfg topic st t
    · exact invariant_of_commits hI hc hg
    · exact invariant_of_not_commits hI hc

theorem commitsStored_of_noCommittedLoss (a : Act) (hI : Invariant cfg old st)
    (h : NoCommittedLoss cfg (step cfg topic st a)) : CommitsStored cfg topic old st a := by
  cases a with
  | expire => trivial
  | turn t =>
    intro hc
    obtain ⟨hpipeline, hposition, hyielded, ⟨-, hcommitted⟩ | ⟨hnc, -⟩⟩ := step_turn cfg topic st t
    swap
    · exact absurd hc hnc
    have hstored (r : Record) (hr : r ∈ st.yielded ++ t.records topic st.position) (id : UUID)
        (hid : r.Accepted cfg id) : id ∈ st.pipeline.db.events.ids ∨
          id ∈ Pipeline.ids (st.pipeline.freshOf cfg (t.call topic st.position)) := by
      rw [← Pipeline.mem_ids_processBatch hc.succeeded, ← hpipeline]
      rw [← hyielded] at hr
      exact h r hr (hcommitted ▸ yielded_lt_step hI r hr) id hid
    refine ⟨fun r hr _ id hid => hstored r (List.mem_append_left _ hr) id hid, ?_⟩
    intro id hvalid _
    obtain ⟨r, hr, hid⟩ := mem_ids_call.mp hvalid
    exact (hstored r (List.mem_append_right _ hr) id hid).imp_right
      fun hfresh => (Pipeline.mem_ids_freshOf.mp hfresh).2

end

/-- Along a run of the loop nothing committed is lost exactly when every committing batch
finds the earlier uncommitted messages stored. -/
theorem no_committed_loss_iff (cfg : Config) (topic : Topic) (s : Pipeline) (position : ℕ → ℕ)
    (as : List Act) :
    Run.Holds (step cfg topic) (NoCommittedLoss cfg) (start s position) as ↔
      Run.Guarded (step cfg topic) (CommitsStored cfg topic (stale s)) (start s position) as :=
  Run.holds_iff_guarded (I := Invariant cfg (stale s)) (fun _ hI => hI.noLoss)
    (fun _ a hI hg => invariant_step a hI hg)
    (fun _ a hI h => commitsStored_of_noCommittedLoss a hI h) (invariant_start s position) as

/-- Every decodable message between the start and the position of its partition was yielded. -/
theorem yielded_complete (cfg : Config) (topic : Topic) (s : Pipeline) (position : ℕ → ℕ)
    (as : List Act) :
    Run.Holds (step cfg topic) (fun st => ∀ m : Message, position m.partition ≤ m.offset →
      m.offset < st.position m.partition → (topic m.partition)[m.offset]? = some (some m.raw) →
      ∃ r ∈ st.yielded, r.partition = m.partition ∧ r.offset = m.offset ∧ r.arrival.raw = m.raw)
      (start s position) as := by
  refine Run.holds_of_step (fun st a hI => ?_) (fun m hlow hhigh => ?_) as
  · cases a with
    | expire => exact hI
    | turn t =>
      obtain ⟨-, hposition, hyielded, -⟩ := step_turn cfg topic st t
      intro m hlow hhigh hget
      rw [hposition] at hhigh
      rw [hyielded]
      rcases lt_or_ge m.offset (st.position m.partition) with hlt | hge
      · obtain ⟨r, hr, hfields⟩ := hI m hlow hlt hget
        exact ⟨r, List.mem_append_left _ hr, hfields⟩
      · obtain ⟨i, hi, rfl⟩ := List.mem_iff_getElem.mp (mem_getmany.mpr ⟨hget, hge, hhigh⟩)
        exact ⟨_, List.mem_append_right _ (List.mem_mapIdx.mpr ⟨i, hi, rfl⟩), rfl, rfl, rfl⟩
  · exact absurd hhigh (not_lt_of_ge hlow)

def twoRequests : Topic := fun partition =>
  if partition = 0 then
    [some (Pipeline.requestOf "request-1"), some (Pipeline.requestOf "request-2")]
  else []

def nextRequest (fault : Option Fault) : Turn where
  chunks := [(0, 1)]
  readings := fun _ => someReadings
  ticks := fun _ _ => ⟨0, "", 0⟩
  circumstances := Pipeline.atZero fault
  commits := true

/-- The transaction of the first batch fails, the second batch succeeds, and its commit
covers the message of the first. -/
theorem failed_batch_committed : ¬ Run.Holds (step { py := Python.ascii } twoRequests)
    (NoCommittedLoss { py := Python.ascii }) (start (Pipeline.init 0) fun _ => 0)
    [.turn (nextRequest (some (.txn 0))), .turn (nextRequest none)] := by
  intro h
  have hlost := h.last ⟨0, 0, ⟨Pipeline.requestOf "request-1", someReadings, fun _ => ⟨0, "", 0⟩⟩⟩
    List.mem_cons_self (by decide +kernel) _ ⟨_, rfl, rfl⟩
  exact absurd hlost (by decide +kernel)

end SiemEngine.Worker

import SiemEngine.Lib.Run
import SiemEngine.Streaming.Pipeline

/-!
# Redelivered messages

The broker delivers its messages once or more, in any order and any batches, and ids leave
the seen-set at any time. Whether storage stays effectively once rests on the identity that
`from_raw` derives from a message: one message must keep one identity, and two messages
must not get the same one.
-/

namespace SiemEngine.Redelivery

open SecurityEvent (ExplicitId identity)

abbrev Messages := ℕ → JsonDict

structure Delivery where
  message : ℕ
  readings : Readings
  ticks : Rule → Tick

def Delivery.arrival (msgs : Messages) (d : Delivery) : Arrival :=
  ⟨msgs d.message, d.readings, d.ticks⟩

def Delivery.accepted? (py : Python) (msgs : Messages) (d : Delivery) : Option (ℕ × UUID) :=
  match SecurityEvent.fromRaw py d.readings (msgs d.message) with
  | .ok ev => some (d.message, ev.eventId)
  | .error _ => none

structure State where
  pipeline : Pipeline
  accepted : List (ℕ × UUID) := []

inductive Act
  | batch (ds : List Delivery) (circumstances : Circumstances)
  | evict (gone : Finset UUID)

def step (cfg : Config) (msgs : Messages) (st : State) : Act → State
  | .batch ds circumstances =>
    { pipeline := (st.pipeline.processBatch cfg ⟨circumstances, ds.map (Delivery.arrival msgs)⟩).1
      accepted := st.accepted ++ ds.filterMap (Delivery.accepted? cfg.py msgs) }
  | .evict gone => { st with pipeline := { st.pipeline with seen := st.pipeline.seen \ gone } }

def start (s : Pipeline) : State := ⟨s, []⟩

def RowOf (st : State) (m : ℕ) (row : SecurityEventRow) : Prop :=
  row ∈ st.pipeline.db.events.rows ∧ (m, row.eventId) ∈ st.accepted

def OneRow (st : State) (m : ℕ) : Prop :=
  ∀ row row', RowOf st m row → RowOf st m row' → row = row'

def ShareRow (st : State) (m m' : ℕ) : Prop := ∃ row, RowOf st m row ∧ RowOf st m' row

def SpellOneUuid (py : Python) (t t' : String) : Prop :=
  ∃ u, Uuid.ofString py t = some u ∧ Uuid.ofString py t' = some u

/-- `t` spells the UUIDv5 that stands for the text `t'`. -/
def SpellsNameOf (py : Python) (t t' : String) : Prop :=
  t' ≠ "" ∧ Uuid.ofString py t' = none ∧ Uuid.ofString py t = some (Uuid.uuid5 t')

def Uuid5Injective (py : Python) (msgs : Messages) : Prop :=
  ∀ m m' t t', field (msgs m) "event_id" = .str t → field (msgs m') "event_id" = .str t' →
    Uuid.ofString py t = none → Uuid.ofString py t' = none → Uuid.uuid5 t = Uuid.uuid5 t' → t = t'

/-- The random UUIDs drawn for messages without an id are none of the other messages' ids. -/
def RandomFresh (py : Python) (msgs : Messages) : State → Act → Prop
  | _, .batch ds _ => ∀ d ∈ ds, ¬ ExplicitId (msgs d.message) → ∀ m, ExplicitId (msgs m) →
      d.readings.uuid4 ≠ identity py d.readings.uuid4 (msgs m)
  | _, .evict _ => True

theorem explicitId_str {raw : JsonDict} {t : String} (h : field raw "event_id" = .str t) :
    ExplicitId raw ↔ t ≠ "" := by
  simp [ExplicitId, h, Json.truthy]

theorem identity_str {raw : JsonDict} {t : String} (h : field raw "event_id" = .str t)
    (ht : t ≠ "") (py : Python) (u : UUID) :
    identity py u raw = (Uuid.ofString py t).getD (Uuid.uuid5 t) := by
  have htruthy : (field raw "event_id").truthy = true := (explicitId_str h).mpr ht
  rw [h] at htruthy
  simp [identity, h, htruthy, Json.pyStr]

theorem identity_of_not_explicitId {raw : JsonDict} (h : ¬ ExplicitId raw) (py : Python)
    (u : UUID) : identity py u raw = u :=
  if_neg h

theorem eq_of_identity_eq {py : Python} {msgs : Messages} (hinj : Uuid5Injective py msgs)
    {m m' : ℕ} {t t' : String} (hm : field (msgs m) "event_id" = .str t)
    (hm' : field (msgs m') "event_id" = .str t') (ht : t ≠ "") (ht' : t' ≠ "")
    (hspell : ¬ SpellOneUuid py t t') (hname : ¬ SpellsNameOf py t t')
    (hname' : ¬ SpellsNameOf py t' t)
    (h : (Uuid.ofString py t).getD (Uuid.uuid5 t) = (Uuid.ofString py t').getD (Uuid.uuid5 t')) :
    t = t' := by
  cases hu : Uuid.ofString py t with
  | none =>
    cases hu' : Uuid.ofString py t' with
    | none =>
      rw [hu, hu'] at h
      exact hinj m m' t t' hm hm' hu hu' h
    | some v =>
      rw [hu, hu'] at h
      exact absurd ⟨ht, hu, hu'.trans (congrArg some h.symm)⟩ hname'
  | some u =>
    cases hu' : Uuid.ofString py t' with
    | none =>
      rw [hu, hu'] at h
      exact absurd ⟨ht', hu', hu.trans (congrArg some h)⟩ hname
    | some v =>
      rw [hu, hu'] at h
      exact absurd ⟨u, hu, hu'.trans (congrArg some h.symm)⟩ hspell

/-- A message with an id is delivered under its identity only, and a message without one
under no identity of another. -/
structure Invariant (py : Python) (msgs : Messages) (st : State) : Prop where
  explicit : ∀ m id, (m, id) ∈ st.accepted → ExplicitId (msgs m) →
    ∀ u, id = identity py u (msgs m)
  random : ∀ m id, (m, id) ∈ st.accepted → ¬ ExplicitId (msgs m) →
    ∀ m', ExplicitId (msgs m') → ∀ u, id ≠ identity py u (msgs m')

section

variable {cfg : Config} {msgs : Messages} {st : State}

theorem accepted?_eq_some {py : Python} {d : Delivery} {m : ℕ} {id : UUID}
    (h : d.accepted? py msgs = some (m, id)) :
    m = d.message ∧ id = identity py d.readings.uuid4 (msgs d.message) := by
  unfold Delivery.accepted? at h
  split at h
  · rename_i ev hev
    obtain ⟨timestamp, rfl⟩ := SecurityEvent.fromRaw_eq_ok hev
    cases h
    exact ⟨rfl, rfl⟩
  · cases h

theorem invariant_step (a : Act) (hI : Invariant cfg.py msgs st)
    (hfresh : RandomFresh cfg.py msgs st a) :
    Invariant cfg.py msgs (step cfg msgs st a) := by
  cases a with
  | evict gone => exact ⟨hI.explicit, hI.random⟩
  | batch ds circumstances =>
    refine ⟨fun m id hmem hex u => ?_, fun m id hmem hex m' hex' u => ?_⟩
    · rcases List.mem_append.mp hmem with hold | hnew
      · exact hI.explicit m id hold hex u
      · obtain ⟨d, hd, hacc⟩ := List.mem_filterMap.mp hnew
        obtain ⟨rfl, rfl⟩ := accepted?_eq_some hacc
        exact SecurityEvent.identity_of_explicitId hex _ _ _
    · rcases List.mem_append.mp hmem with hold | hnew
      · exact hI.random m id hold hex m' hex' u
      · obtain ⟨d, hd, hacc⟩ := List.mem_filterMap.mp hnew
        obtain ⟨rfl, rfl⟩ := accepted?_eq_some hacc
        rw [identity_of_not_explicitId hex,
          SecurityEvent.identity_of_explicitId hex' _ u d.readings.uuid4]
        exact hfresh d hd hex m' hex'

theorem oneRow_of_invariant (hI : Invariant cfg.py msgs st) {m : ℕ} (h : ExplicitId (msgs m)) :
    OneRow st m := by
  intro row row' hrow hrow'
  have heq : row.eventId = row'.eventId :=
    (hI.explicit m _ hrow.2 h 0).trans (hI.explicit m _ hrow'.2 h 0).symm
  exact List.inj_on_of_nodup_map st.pipeline.db.events.primaryKey hrow.1 hrow'.1 heq

theorem not_shareRow_of_invariant (hI : Invariant cfg.py msgs st)
    (hinj : Uuid5Injective cfg.py msgs) {m m' : ℕ} {t t' : String}
    (hm : field (msgs m) "event_id" = .str t) (hm' : field (msgs m') "event_id" = .str t')
    (hne : t ≠ t') (hspell : ¬ SpellOneUuid cfg.py t t') (hname : ¬ SpellsNameOf cfg.py t t')
    (hname' : ¬ SpellsNameOf cfg.py t' t) : ¬ ShareRow st m m' := by
  intro h
  obtain ⟨row, ⟨-, hrow⟩, -, hrow'⟩ := h
  by_cases ht : t = ""
  · have hex' : ExplicitId (msgs m') := (explicitId_str hm').mpr fun ht' => hne (ht.trans ht'.symm)
    have hex : ¬ ExplicitId (msgs m) := fun h => (explicitId_str hm).mp h ht
    exact hI.random m _ hrow hex m' hex' 0 (hI.explicit m' _ hrow' hex' 0)
  · have hex : ExplicitId (msgs m) := (explicitId_str hm).mpr ht
    by_cases ht' : t' = ""
    · have hex' : ¬ ExplicitId (msgs m') := fun h => (explicitId_str hm').mp h ht'
      exact hI.random m' _ hrow' hex' m hex 0 (hI.explicit m _ hrow hex 0)
    · have hex' : ExplicitId (msgs m') := (explicitId_str hm').mpr ht'
      have hid := (hI.explicit m _ hrow hex 0).symm.trans (hI.explicit m' _ hrow' hex' 0)
      rw [identity_str hm ht, identity_str hm' ht'] at hid
      exact hne (eq_of_identity_eq hinj hm hm' ht ht' hspell hname hname' hid)

end

structure EffectivelyOnce (py : Python) (msgs : Messages) (st : State) : Prop where
  oneRow : ∀ m, ExplicitId (msgs m) → OneRow st m
  notShared : ∀ m m' t t', field (msgs m) "event_id" = .str t →
    field (msgs m') "event_id" = .str t' → t ≠ t' → ¬ SpellOneUuid py t t' →
    ¬ SpellsNameOf py t t' → ¬ SpellsNameOf py t' t → ¬ ShareRow st m m'

/-- However messages with an id are redelivered, they have one row each, and messages with
unrelated ids have different ones. -/
theorem effectively_once (cfg : Config) (msgs : Messages) (s : Pipeline) (as : List Act)
    (hinj : Uuid5Injective cfg.py msgs)
    (hfresh : Run.Guarded (step cfg msgs) (RandomFresh cfg.py msgs) (start s) as) :
    Run.Holds (step cfg msgs) (EffectivelyOnce cfg.py msgs) (start s) as := by
  have hstart : Invariant cfg.py msgs (start s) :=
    ⟨fun _ _ h => absurd h List.not_mem_nil, fun _ _ h => absurd h List.not_mem_nil⟩
  refine (Run.holds_of_guarded (fun _ a hI hg => invariant_step a hI hg) hstart hfresh).mono
    fun st hI => ⟨fun m h => oneRow_of_invariant hI h, ?_⟩
  intro m m' t t' hm hm' hne hspell hname hname'
  exact not_shareRow_of_invariant hI hinj hm hm' hne hspell hname hname'

def someMessages : Messages
  | 0 => [("event_type", .str "http_request")]
  | 1 => Pipeline.requestOf "request-1"
  | 2 => Pipeline.requestOf "34beb3f0-6ff2-5972-87c1-f7424dcc08f6"
  | _ => []

def deliver (m : ℕ) (uuid4 : UUID) : Act :=
  .batch [⟨m, ⟨0, 0, uuid4⟩, fun _ => ⟨0, "", 0⟩⟩] (Pipeline.atZero none)

theorem uuid5Injective_someMessages : Uuid5Injective Python.ascii someMessages := by
  have htext : ∀ m t, field (someMessages m) "event_id" = .str t →
      Uuid.ofString Python.ascii t = none → t = "request-1" := by
    intro m t ht hnone
    rcases m with _ | _ | _ | m
    · cases ht
    · cases ht
      rfl
    · cases ht
      exact absurd hnone (by decide +kernel)
    · cases ht
  intro m m' t t' hm hm' hnone hnone' _
  rw [htext m t hm hnone, htext m' t' hm' hnone']

theorem effectively_once_redelivered :
    Run.Holds (step { py := Python.ascii } someMessages)
      (EffectivelyOnce Python.ascii someMessages) (start (Pipeline.init 0))
      [deliver 1 7, .evict {Uuid.uuid5 "request-1"}, deliver 0 8, deliver 1 9] := by
  refine effectively_once { py := Python.ascii } someMessages (Pipeline.init 0) _
    uuid5Injective_someMessages ⟨?_, trivial, ?_, ?_, trivial⟩
  · intro d hd hex
    obtain rfl := List.mem_singleton.mp hd
    exact absurd (by decide +kernel) hex
  · intro d hd _ m hm
    obtain rfl := List.mem_singleton.mp hd
    rcases m with _ | _ | _ | m
    · exact absurd hm (by decide +kernel)
    · decide +kernel
    · decide +kernel
    · exact absurd (show false = true from hm) Bool.false_ne_true
  · intro d hd hex
    obtain rfl := List.mem_singleton.mp hd
    exact absurd (by decide +kernel) hex

/-- The message without an id has two rows after two deliveries, and the other two messages,
whose ids do not spell one UUID, share one. -/
theorem redelivered_without_id :
    let st := Run.exec (step { py := Python.ascii } someMessages) (start (Pipeline.init 0))
      [deliver 0 7, deliver 0 8, deliver 1 9, deliver 2 10]
    ¬ OneRow st 0 ∧ ShareRow st 1 2 ∧ ¬ SpellOneUuid Python.ascii "request-1"
      "34beb3f0-6ff2-5972-87c1-f7424dcc08f6" := by
  intro st
  have hstored : st.pipeline.db.events.ids = [7, 8, Uuid.uuid5 "request-1"] := by decide +kernel
  have haccepted : st.accepted =
      [(0, 7), (0, 8), (1, Uuid.uuid5 "request-1"), (2, Uuid.uuid5 "request-1")] := by
    decide +kernel
  have hrow (id : UUID) (h : id ∈ st.pipeline.db.events.ids) :
      ∃ row ∈ st.pipeline.db.events.rows, row.eventId = id := List.mem_map.mp h
  refine ⟨?_, ?_, ?_⟩
  · intro h
    obtain ⟨row, hmem, hid⟩ := hrow 7 (by simp [hstored])
    obtain ⟨row', hmem', hid'⟩ := hrow 8 (by simp [hstored])
    have heq := h row row' ⟨hmem, by simp [haccepted, hid]⟩ ⟨hmem', by simp [haccepted, hid']⟩
    rw [heq, hid'] at hid
    exact absurd hid (by decide)
  · obtain ⟨row, hmem, hid⟩ := hrow (Uuid.uuid5 "request-1") (by simp [hstored])
    exact ⟨row, ⟨hmem, by simp [haccepted, hid]⟩, hmem, by simp [haccepted, hid]⟩
  · intro h
    obtain ⟨u, hu, -⟩ := h
    have hnone : Uuid.ofString Python.ascii "request-1" = none := by decide +kernel
    cases hnone.symm.trans hu

end SiemEngine.Redelivery

import SiemEngine.Services.Serial

/-!
# Transactions that flush and lock

A worker transaction applies its detections one after the other: it selects the alert of the
key, flushes the folded or the new row and refreshes it. It sees its own flushed rows and
holds them locked until it commits; another transaction sees what is committed and waits for
a locked row, or for a new row that takes the slot of its own. A transaction whose rows nobody
changes between its reads and its flushes does what `Sessions` describes by one read and one
commit, so its serial order is one of these.
-/

namespace SiemEngine.Transactions

open Sessions (Txn WorkerTxn)

/-- Where a transaction finds an alert: in a committed row, or among those it has inserted. -/
inductive Target
  | row (id : ℕ)
  | own (n : ℕ)
  deriving DecidableEq

structure Overlay where
  updated : List (ℕ × Alert) := []
  inserted : List Alert := []

namespace Overlay

variable (t : Alerts) (o : Overlay)

def get? : Target → Option Alert
  | .row id => (Dict.get? o.updated id).or (t.get? id)
  | .own n => o.inserted[n]?

def holds : Target → Bool
  | .row id => (Dict.get? o.updated id).isSome
  | .own n => n < o.inserted.length

def set (target : Target) (a : Alert) : Overlay :=
  match target with
  | .row id => { o with updated := Dict.set o.updated id a }
  | .own n => { o with inserted := o.inserted.set n a }

def openAt (key : String × String) (target : Target) : Bool :=
  (o.get? t target).any fun a => a.key = key && a.status.isActive

def targets : List Target :=
  (List.range t.rows.length).map .row ++ (List.range o.inserted.length).map .own

def getOpenByKey (pref : Target) (key : String × String) : Option (Target × Alert) :=
  let target := if o.openAt t key pref then some pref else (o.targets t).find? (o.openAt t key)
  target.bind fun target => (o.get? t target).map (Prod.mk target)

def publish? : Option Alerts :=
  (o.updated.foldlM (fun u row => Alerts.update? u row.1 row.2) t).bind fun u =>
    o.inserted.foldlM Alerts.insert? u

end Overlay

structure Work where
  txn : WorkerTxn
  /-- the row that the first SELECT has returned -/
  first : Option (ℕ × Alert)
  todo : List Detection
  /-- the answer of the SELECT for the next detection, until it is flushed -/
  planned : Option (Option (Target × Alert))
  overlay : Overlay := {}

inductive Session
  | worker (w : Work)
  | triage (s : Sessions.Session)

def Session.overlay : Session → Overlay
  | .worker w => w.overlay
  | .triage _ => {}

structure State where
  db : AlertDb
  sessions : List Session := []

inductive Act
  | read (pref : ℕ) (txn : Txn)
  | select (k : ℕ) (pref : Target)
  | flush (k : ℕ)
  | commit (k : ℕ)

def State.put (st : State) (k : ℕ) (w : Work) : State :=
  { st with sessions := st.sessions.set k (.worker w) }

def begin? (t : Alerts) (pref : ℕ) : Txn → Option Session
  | .worker w =>
    let first := t.getOpenByKey pref w.first.key
    some (.worker
      { txn := w, first, todo := w.first :: w.rest,
        planned := some (first.map fun row => (.row row.1, row.2)) })
  | .triage now r => ((Txn.triage now r).read t pref).map .triage

def State.locked (st : State) (k id : ℕ) : Bool :=
  (st.sessions.eraseIdx k).any fun s => s.overlay.holds (.row id)

/-- Another transaction has inserted a row of this slot and not committed. -/
def State.contended (st : State) (k : ℕ) (slot : (String × String) × AlertStatus) : Bool :=
  (st.sessions.eraseIdx k).any fun s => s.overlay.inserted.any (·.slot = slot)

inductive Flush
  | waits
  | integrityError
  | flushed (overlay : Overlay)

def flush (st : State) (k : ℕ) (w : Work) (d : Detection) : Option (Target × Alert) → Flush
  | none =>
    let a := Alert.ofDetection (d.triggeredAt.getD w.txn.clock) d
    if (st.db.alerts.rows ++ w.overlay.inserted).any (·.slot = a.slot) then .integrityError
    else if st.contended k a.slot then .waits
    else .flushed { w.overlay with inserted := w.overlay.inserted ++ [a] }
  | some (target, loaded) =>
    let waits := match target with
      | .row id => st.locked k id
      | .own _ => false
    if waits then .waits
    else match w.overlay.get? st.db.alerts target with
      | none => .integrityError
      | some stored => .flushed (w.overlay.set target
          (Alert.patch loaded (loaded.fold (d.triggeredAt.getD w.txn.clock) d) stored))

/-- The commit of a status request waits for the row, and for a new one in its slot. -/
def State.blocks (st : State) (k : ℕ) (s : Sessions.Session) : Bool :=
  match s.write with
  | .insert _ => false
  | .update id _ changed => st.locked k id || st.contended k changed.slot

def step (st : State) : Act → State
  | .read pref txn =>
    { st with sessions := st.sessions ++ (begin? st.db.alerts pref txn).toList }
  | .select k pref => match st.sessions[k]? with
    | some (.worker w) => match w.planned, w.todo with
      | none, d :: _ =>
        st.put k { w with planned := some (w.overlay.getOpenByKey st.db.alerts pref d.key) }
      | _, _ => st
    | _ => st
  | .flush k => match st.sessions[k]? with
    | some (.worker w) => match w.planned, w.todo with
      | some plan, d :: todo => match flush st k w d plan with
        | .waits => st
        | .integrityError => { st with sessions := st.sessions.eraseIdx k }
        | .flushed overlay => st.put k { w with todo, planned := none, overlay }
      | _, _ => st
    | _ => st
  | .commit k => match st.sessions[k]? with
    | some (.worker w) =>
      if w.todo = [] then
        ⟨((w.overlay.publish? st.db.alerts).map fun alerts => { st.db with alerts }).getD st.db,
          st.sessions.eraseIdx k⟩
      else st
    | some (.triage s) =>
      if st.blocks k s then st
      else ⟨(Sessions.commit? st.db s).getD st.db, st.sessions.eraseIdx k⟩
    | none => st

def OnlyMoved (read stored : Alert) : Prop :=
  { stored with status := read.status, alertMetadata := read.alertMetadata } = read

instance (read stored : Alert) : Decidable (OnlyMoved read stored) :=
  inferInstanceAs (Decidable (_ = _))

def Quiet (d : Detection) (a : Alert) : Prop :=
  Dict.update a.alertMetadata d.metadata = a.alertMetadata

instance (d : Detection) (a : Alert) : Decidable (Quiet d a) :=
  inferInstanceAs (Decidable (_ = _))

/-- The flush of a fold finds the row as the transaction first read it, or one that has only
been moved while the fold leaves the metadata alone. A new alert finds its key without an
active one, also at the commit. A later SELECT returns a row of the transaction itself. A
status change finds the status and the metadata it had read. -/
def Undisturbed (st : State) : Act → Prop
  | .read _ _ => True
  | .select k pref => ∀ w d rest, st.sessions[k]? = some (.worker w) → w.planned = none →
      w.todo = d :: rest → ∃ r ∈ w.overlay.getOpenByKey st.db.alerts pref d.key,
        w.overlay.holds r.1
  | .flush k => ∀ w d rest, st.sessions[k]? = some (.worker w) → w.todo = d :: rest →
      match w.planned with
      | none | some (some (.own _, _)) => True
      | some none => ∀ id, ¬ st.db.alerts.openAt d.key id
      | some (some (.row id, loaded)) => ¬ st.locked k id → ∀ first ∈ w.first,
          ∀ stored ∈ st.db.alerts.get? id,
            stored = first.2 ∨ (OnlyMoved first.2 stored ∧ Quiet d first.2 ∧ Quiet d loaded)
  | .commit k => match st.sessions[k]? with
    | none => True
    | some (.worker w) => w.todo = [] → w.overlay.inserted ≠ [] →
        ∀ id, ¬ st.db.alerts.openAt w.txn.first.key id
    | some (.triage s) => ¬ st.blocks k s →
        ∀ id loaded changed, s.write = .update id loaded changed →
          ∀ stored ∈ st.db.alerts.get? id,
            ¬ st.db.alerts.Taken id (stored.key, changed.status) →
            stored.status = loaded.status ∧ stored.alertMetadata = loaded.alertMetadata

theorem onlyMoved_iff {read stored : Alert} : OnlyMoved read stored ↔
    stored = { read with status := stored.status, alertMetadata := stored.alertMetadata } := by
  constructor
  · intro h
    rw [← h]
  · intro h
    rw [OnlyMoved, h]

def retag (a stored : Alert) : Alert :=
  { a with status := stored.status, alertMetadata := stored.alertMetadata }

theorem patch_of_onlyMoved {read changed stored : Alert} (h : OnlyMoved read stored)
    (hslot : changed.slot = read.slot) (hmeta : changed.alertMetadata = read.alertMetadata) :
    Alert.patch read changed stored = retag changed stored := by
  have hs : changed.status = read.status := congrArg Prod.snd hslot
  rw [onlyMoved_iff.mp h]
  simp only [Alert.patch, retag, Alert.flushed_self, hs, hmeta, Alert.flushed_same]

theorem fold_retag {a stored : Alert} (now : Time) {d : Detection} (h : Quiet d stored) :
    (retag a stored).fold now d = retag (a.fold now d) stored := by
  have hmeta : Dict.update stored.alertMetadata d.metadata = stored.alertMetadata := h
  simp only [Alert.fold, retag, hmeta]
  rfl

structure Folding (t : Alerts) (w : Work) (id : ℕ) (read : Alert) (done : List Detection) :
    Prop where
  inserted : w.overlay.inserted = []
  row : ∃ stored, t.get? id = some stored
  start : done = [] → w.overlay.updated = [] ∧ w.planned = some (some (.row id, read))
  folded : done ≠ [] → ∃ stored, t.get? id = some stored ∧
    (stored = read ∨ (OnlyMoved read stored ∧
      (WorkerTxn.foldAll w.txn.clock read done).alertMetadata = read.alertMetadata)) ∧
    w.overlay.updated = [(id, Alert.patch read (WorkerTxn.foldAll w.txn.clock read done) stored)] ∧
    ∀ plan ∈ w.planned, plan = some (.row id,
      Alert.patch read (WorkerTxn.foldAll w.txn.clock read done) stored)

structure Inserting (w : Work) (done : List Detection) : Prop where
  updated : w.overlay.updated = []
  start : done = [] → w.overlay.inserted = [] ∧ w.planned = some none
  inserted : ∀ d ds, done = d :: ds →
    w.overlay.inserted = [WorkerTxn.foldAll w.txn.clock
      (Alert.ofDetection (d.triggeredAt.getD w.txn.clock) d) ds] ∧
    ∀ plan ∈ w.planned, plan = some (.own 0, WorkerTxn.foldAll w.txn.clock
      (Alert.ofDetection (d.triggeredAt.getD w.txn.clock) d) ds)

def Tracks (t : Alerts) (w : Work) : Prop :=
  ∃ done, done ++ w.todo = w.txn.first :: w.txn.rest ∧
    match w.first with
    | none => Inserting w done
    | some (id, read) => Folding t w id read done

def Session.coarse : Session → Sessions.Session
  | .worker w => ⟨.worker w.txn, match w.first with
    | none => .insert (WorkerTxn.foldAll w.txn.clock
        (Alert.ofDetection (w.txn.first.triggeredAt.getD w.txn.clock) w.txn.first) w.txn.rest)
    | some (id, read) => .update id read
        (WorkerTxn.foldAll w.txn.clock read (w.txn.first :: w.txn.rest)), none⟩
  | .triage s => s

def Apart (s s' : Session) : Prop :=
  ∀ id, ¬ (s.overlay.holds (.row id) ∧ s'.overlay.holds (.row id))

structure Locked (st : State) : Prop where
  tracks : ∀ w, .worker w ∈ st.sessions → Tracks st.db.alerts w
  triages : ∀ s, .triage s ∈ st.sessions → ∃ id loaded changed,
    s.write = .update id loaded changed ∧ s.log.isSome
  apart : st.sessions.Pairwise Apart

/-- The state of one read and one commit that a state with flushes stands for. -/
def Stands (st : State) (c : Sessions.State) : Prop :=
  c.db = st.db ∧ c.pending = st.sessions.map Session.coarse

def Act.submitted : Act → List Txn
  | .read _ txn => [txn]
  | _ => []

theorem foldAll_concat (clock : Time) (a : Alert) (ds : List Detection) (d : Detection) :
    WorkerTxn.foldAll clock a (ds ++ [d]) =
      (WorkerTxn.foldAll clock a ds).fold (d.triggeredAt.getD clock) d := by
  rw [WorkerTxn.foldAll, List.foldl_append]
  rfl

section

variable {st : State} {k : ℕ} {s : Session}

theorem sessions_split {l : List Session} (h : l[k]? = some s) : ∃ xs ys, l = xs ++ s :: ys ∧
    l.eraseIdx k = xs ++ ys ∧ (∀ s', l.set k s' = xs ++ s' :: ys) ∧ xs.length = k := by
  obtain ⟨hk, rfl⟩ := List.getElem?_eq_some_iff.mp h
  refine ⟨l.take k, l.drop (k + 1), ?_, List.eraseIdx_eq_take_drop_succ l k, fun s' => ?_,
    List.length_take_of_le hk.le⟩
  · rw [List.getElem_cons_drop, List.take_append_drop]
  · exact List.set_eq_take_append_cons_drop.trans (if_pos hk)

theorem apart_comm {s s' : Session} (h : Apart s s') : Apart s' s := fun id hid =>
  h id hid.symm

theorem locked_iff {id : ℕ} :
    st.locked k id ↔ ∃ s ∈ st.sessions.eraseIdx k, s.overlay.holds (.row id) := by
  simp [State.locked]

theorem getOpenByKey_eq_some {t : Alerts} {o : Overlay} {pref target : Target}
    {key : String × String} {a : Alert} (h : o.getOpenByKey t pref key = some (target, a)) :
    o.get? t target = some a := by
  simp only [Overlay.getOpenByKey, Option.bind_eq_some_iff, Option.map_eq_some_iff,
    Prod.mk.injEq] at h
  obtain ⟨g, -, b, hb, rfl, rfl⟩ := h
  exact hb

end

theorem tracks_begin {t : Alerts} {pref : ℕ} {txn : Txn} {w : Work}
    (h : begin? t pref txn = some (.worker w)) : Tracks t w := by
  cases txn with
  | triage now r =>
    obtain ⟨s, -, hs⟩ := Option.map_eq_some_iff.mp h
    cases hs
  | worker wt =>
    obtain rfl := Session.worker.inj (Option.some.inj h)
    refine ⟨[], rfl, ?_⟩
    cases hopen : t.getOpenByKey pref wt.first.key with
    | none => exact ⟨rfl, fun _ => ⟨rfl, by simp⟩, fun d ds hd => by cases hd⟩
    | some row =>
      obtain ⟨id, read⟩ := row
      exact ⟨rfl, ⟨read, (Alerts.getOpenByKey_eq_some hopen).1⟩, fun _ => ⟨rfl, by simp⟩,
        fun hne => absurd rfl hne⟩

theorem coarse_begin (t : Alerts) (pref : ℕ) (txn : Txn) :
    (begin? t pref txn).map Session.coarse = txn.read t pref := by
  cases txn with
  | triage now r =>
    exact (Option.map_map Session.coarse Session.triage _).trans Option.map_id'
  | worker w =>
    unfold begin? Session.coarse Txn.read WorkerTxn.plan
    cases t.getOpenByKey pref w.first.key with
    | none => rfl
    | some row => rfl

section

variable {st : State} {k : ℕ} {w : Work} {d : Detection} {done rest : List Detection}
  {plan : Option (Target × Alert)}

theorem flush_current {target : Target} {a : Alert}
    (hfree : ∀ id, target = .row id → st.locked k id = false)
    (hget : w.overlay.get? st.db.alerts target = some a) :
    flush st k w d (some (target, a)) =
      .flushed (w.overlay.set target (a.fold (d.triggeredAt.getD w.txn.clock) d)) := by
  cases target with
  | row id => simp only [flush, hfree id rfl, Bool.false_eq_true, if_false, hget, Alert.patch_self]
  | own n => simp only [flush, Bool.false_eq_true, if_false, hget, Alert.patch_self]

theorem flush_inserting (h : Inserting w done) (hplan : w.planned = some plan)
    (hfree : plan = none → ∀ id, ¬ st.db.alerts.openAt d.key id) :
    flush st k w d plan = .waits ∨ ∃ o, flush st k w d plan = .flushed o ∧
      Inserting { w with todo := rest, planned := none, overlay := o } (done ++ [d]) := by
  cases done with
  | nil =>
    obtain ⟨hinserted, hplanned⟩ := h.start rfl
    obtain rfl : plan = none := Option.some.inj (hplan.symm.trans hplanned)
    have hnot : ¬ ((st.db.alerts.rows ++ w.overlay.inserted).any fun a =>
        a.slot = (Alert.ofDetection (d.triggeredAt.getD w.txn.clock) d).slot) = true := by
      rw [hinserted, List.append_nil]
      intro hany
      obtain ⟨a, ha, hslot⟩ := List.any_eq_true.mp hany
      replace hslot := of_decide_eq_true hslot
      obtain ⟨id, hid⟩ := List.getElem?_of_mem ha
      have hopen : a.status = .open := congrArg Prod.snd hslot
      exact hfree rfl id (Alerts.openAt_iff.mpr
        ⟨a, hid, congrArg Prod.fst hslot, by rw [hopen]; rfl⟩)
    rw [flush, if_neg hnot]
    split_ifs with hwaits
    · exact Or.inl rfl
    · refine Or.inr ⟨_, rfl, h.updated, fun hne => absurd hne (by simp), fun d' ds hcons => ?_⟩
      obtain ⟨rfl, rfl⟩ := List.cons.inj hcons
      exact ⟨by rw [hinserted]; rfl, fun p hp => absurd hp (Option.not_mem_none p)⟩
  | cons d₀ ds =>
    obtain ⟨hinserted, hplanned⟩ := h.inserted d₀ ds rfl
    obtain rfl := hplanned plan hplan
    have hget : w.overlay.get? st.db.alerts (.own 0) = some (WorkerTxn.foldAll w.txn.clock
        (Alert.ofDetection (d₀.triggeredAt.getD w.txn.clock) d₀) ds) := by
      rw [Overlay.get?, hinserted]
      rfl
    refine Or.inr ⟨_, flush_current (fun id hid => by cases hid) hget, h.updated,
      fun hne => absurd hne (by simp), fun d' ds' hcons => ?_⟩
    obtain ⟨rfl, rfl⟩ := List.cons.inj hcons
    refine ⟨?_, fun p hp => absurd hp (Option.not_mem_none p)⟩
    change w.overlay.inserted.set 0 _ = _
    rw [hinserted, ← foldAll_concat]
    rfl

theorem patch_concat {read stored : Alert}
    (hstored : stored = read ∨ (OnlyMoved read stored ∧
      (WorkerTxn.foldAll w.txn.clock read done).alertMetadata = read.alertMetadata))
    (hquiet : stored = read ∨ (OnlyMoved read stored ∧ Quiet d read ∧ Quiet d stored)) :
    (Alert.patch read (WorkerTxn.foldAll w.txn.clock read done) stored).fold
        (d.triggeredAt.getD w.txn.clock) d =
      Alert.patch read (WorkerTxn.foldAll w.txn.clock read (done ++ [d])) stored ∧
    (stored = read ∨ (OnlyMoved read stored ∧
      (WorkerTxn.foldAll w.txn.clock read (done ++ [d])).alertMetadata = read.alertMetadata)) := by
  rw [foldAll_concat]
  rcases hstored with rfl | ⟨hmoved, hmeta⟩
  · exact ⟨by rw [Alert.patch_self, Alert.patch_self], Or.inl rfl⟩
  rcases hquiet with rfl | ⟨-, hread, hstored⟩
  · exact ⟨by rw [Alert.patch_self, Alert.patch_self], Or.inl rfl⟩
  have hslot := WorkerTxn.foldAll_slot w.txn.clock read done
  have hfolded : ((WorkerTxn.foldAll w.txn.clock read done).fold
      (d.triggeredAt.getD w.txn.clock) d).alertMetadata = read.alertMetadata := by
    change Dict.update _ d.metadata = _
    rw [hmeta]
    exact hread
  refine ⟨?_, Or.inr ⟨hmoved, hfolded⟩⟩
  rw [patch_of_onlyMoved hmoved hslot hmeta, fold_retag _ hstored,
    patch_of_onlyMoved hmoved ((Alert.fold_slot _ _ _).trans hslot) hfolded]

theorem flush_first {id : ℕ} {read : Alert} (h : Folding st.db.alerts w id read [])
    (hplan : w.planned = some plan)
    (hg : ¬ st.locked k id → ∀ stored ∈ st.db.alerts.get? id,
      stored = read ∨ (OnlyMoved read stored ∧ Quiet d read)) :
    flush st k w d plan = .waits ∨ st.locked k id = false ∧
      ∃ o, flush st k w d plan = .flushed o ∧
        Folding st.db.alerts { w with todo := rest, planned := none, overlay := o } id read [d] := by
  obtain ⟨hupdated, hplanned⟩ := h.start rfl
  obtain rfl : plan = some (.row id, read) := Option.some.inj (hplan.symm.trans hplanned)
  obtain ⟨stored, hstored⟩ := h.row
  cases hlocked : st.locked k id with
  | true => exact Or.inl (by simp only [flush, hlocked, if_true])
  | false =>
    have hget : w.overlay.get? st.db.alerts (.row id) = some stored := by
      rw [Overlay.get?, hupdated]
      exact hstored
    refine Or.inr ⟨rfl, w.overlay.set (.row id)
        (Alert.patch read (read.fold (d.triggeredAt.getD w.txn.clock) d) stored),
      by simp only [flush, hlocked, hget, Bool.false_eq_true, if_false], h.inserted,
      h.row, fun hne => absurd hne (by simp), fun _ => ⟨stored, hstored, ?_, ?_,
        fun p hp => absurd hp (Option.not_mem_none p)⟩⟩
    · exact hg (by simp [hlocked]) stored hstored
    · change Dict.set w.overlay.updated id _ = _
      rw [hupdated]
      rfl

theorem flush_next {id : ℕ} {read : Alert} (h : Folding st.db.alerts w id read done)
    (hdone : done ≠ []) (hplan : w.planned = some plan) (hfree : st.locked k id = false)
    (hg : ∀ loaded, plan = some (.row id, loaded) → ∀ stored ∈ st.db.alerts.get? id,
      stored = read ∨ (OnlyMoved read stored ∧ Quiet d read ∧ Quiet d loaded)) :
    ∃ o, flush st k w d plan = .flushed o ∧
      Folding st.db.alerts { w with todo := rest, planned := none, overlay := o } id read
        (done ++ [d]) := by
  obtain ⟨stored, hstored, hkin, hupdated, hplanned⟩ := h.folded hdone
  obtain rfl := hplanned plan hplan
  have hget : w.overlay.get? st.db.alerts (.row id) =
      some (Alert.patch read (WorkerTxn.foldAll w.txn.clock read done) stored) := by
    rw [Overlay.get?, hupdated, Dict.get?_cons, if_pos rfl]
    rfl
  have hquiet : stored = read ∨ (OnlyMoved read stored ∧ Quiet d read ∧ Quiet d stored) := by
    rcases hkin with rfl | ⟨hmoved, hmeta⟩
    · exact Or.inl rfl
    · refine (hg _ rfl stored hstored).imp_right fun hquiet => ?_
      rw [patch_of_onlyMoved hmoved (WorkerTxn.foldAll_slot w.txn.clock read done) hmeta] at hquiet
      exact ⟨hmoved, hquiet.2⟩
  obtain ⟨hnext, hkin'⟩ := patch_concat hkin hquiet
  refine ⟨_, flush_current (fun i hi => by cases hi; exact hfree) hget,
    h.inserted, h.row, fun hne => absurd hne (by simp), fun _ => ⟨stored, hstored, hkin', ?_,
      fun p hp => absurd hp (Option.not_mem_none p)⟩⟩
  change Dict.set w.overlay.updated id _ = _
  rw [hupdated, Dict.set, if_pos rfl, hnext]

theorem flush_folding {id : ℕ} {read : Alert} (h : Folding st.db.alerts w id read done)
    (hplan : w.planned = some plan)
    (hown : w.overlay.holds (.row id) → st.locked k id = false)
    (hg : ∀ loaded, plan = some (.row id, loaded) → ¬ st.locked k id →
      ∀ stored ∈ st.db.alerts.get? id,
        stored = read ∨ (OnlyMoved read stored ∧ Quiet d read ∧ Quiet d loaded)) :
    flush st k w d plan = .waits ∨ st.locked k id = false ∧
      ∃ o, flush st k w d plan = .flushed o ∧
        Folding st.db.alerts { w with todo := rest, planned := none, overlay := o } id read
          (done ++ [d]) := by
  cases done with
  | nil =>
    obtain rfl : plan = some (.row id, read) :=
      Option.some.inj (hplan.symm.trans (h.start rfl).2)
    exact flush_first h hplan fun hfree stored hstored =>
      (hg read rfl hfree stored hstored).imp_right fun hquiet => ⟨hquiet.1, hquiet.2.1⟩
  | cons d₀ ds =>
    have hlocked : st.locked k id = false := by
      obtain ⟨stored, -, -, hupdated, -⟩ := h.folded (List.cons_ne_nil d₀ ds)
      exact hown (by rw [Overlay.holds, hupdated, Dict.get?_cons, if_pos rfl]; rfl)
    exact Or.inr ⟨hlocked, flush_next h (List.cons_ne_nil d₀ ds) hplan hlocked fun loaded hl =>
      hg loaded hl (by simp [hlocked])⟩

end

theorem tracks_select {t : Alerts} {w : Work} {target : Target} {a : Alert} (h : Tracks t w)
    (hplan : w.planned = none) (hget : w.overlay.get? t target = some a)
    (hholds : w.overlay.holds target) :
    Tracks t { w with planned := some (some (target, a)) } := by
  obtain ⟨done, hds, hfirst⟩ := h
  refine ⟨done, hds, ?_⟩
  cases hw : w.first with
  | none =>
    rw [hw] at hfirst
    refine ⟨hfirst.updated, fun hdone => ?_, fun d ds hdone => ?_⟩
    · rw [(hfirst.start hdone).2] at hplan
      cases hplan
    · have hinserted := (hfirst.inserted d ds hdone).1
      refine ⟨hinserted, fun plan hmem => ?_⟩
      obtain rfl := Option.some.inj hmem
      cases target with
      | row id => simp [Overlay.holds, hfirst.updated] at hholds
      | own n =>
        obtain rfl : n = 0 := by
          simpa [Overlay.holds, hinserted] using hholds
        rw [Overlay.get?, hinserted] at hget
        rw [← Option.some.inj hget]
  | some row =>
    obtain ⟨id, read⟩ := row
    rw [hw] at hfirst
    refine ⟨hfirst.inserted, hfirst.row, fun hdone => ?_, fun hdone => ?_⟩
    · rw [(hfirst.start hdone).2] at hplan
      cases hplan
    · obtain ⟨stored, hstored, hkin, hupdated, -⟩ := hfirst.folded hdone
      refine ⟨stored, hstored, hkin, hupdated, fun plan hmem => ?_⟩
      obtain rfl := Option.some.inj hmem
      cases target with
      | own n => simp [Overlay.holds, hfirst.inserted] at hholds
      | row j =>
        obtain rfl : j = id := by
          by_contra hne
          simp [Overlay.holds, hupdated, Dict.get?_cons, hne] at hholds
        rw [Overlay.get?, hupdated, Dict.get?_cons, if_pos rfl] at hget
        rw [← Option.some.inj hget]

section

variable {st : State} {k : ℕ} {w w' : Work}

theorem Tracks.mono {t t' : Alerts} (h : Tracks t w)
    (hheld : ∀ id a, w.overlay.holds (.row id) → t.get? id = some a → t'.get? id = some a)
    (hrow : ∀ id a, t.get? id = some a → ∃ b, t'.get? id = some b) : Tracks t' w := by
  obtain ⟨done, hds, hfirst⟩ := h
  refine ⟨done, hds, ?_⟩
  cases hw : w.first with
  | none =>
    rw [hw] at hfirst
    exact hfirst
  | some row =>
    obtain ⟨id, read⟩ := row
    rw [hw] at hfirst
    obtain ⟨stored, hstored⟩ := hfirst.row
    refine ⟨hfirst.inserted, hrow id stored hstored, hfirst.start, fun hne => ?_⟩
    obtain ⟨stored, hget, hkin, hupdated, hplanned⟩ := hfirst.folded hne
    have hholds : w.overlay.holds (.row id) := by
      rw [Overlay.holds, hupdated, Dict.get?_cons, if_pos rfl]
      rfl
    exact ⟨stored, hheld id stored hholds hget, hkin, hupdated, hplanned⟩

theorem Locked.set (h : Locked st) (hk : st.sessions[k]? = some (.worker w))
    (htracks : Tracks st.db.alerts w')
    (hholds : ∀ id, w'.overlay.holds (.row id) →
      w.overlay.holds (.row id) ∨ st.locked k id = false) :
    Locked (st.put k w') := by
  obtain ⟨xs, ys, hsplit, herase, hset, -⟩ := sessions_split hk
  have hapart := h.apart
  rw [hsplit, List.pairwise_middle apart_comm, List.pairwise_cons] at hapart
  have hmem : ∀ s ∈ xs ++ .worker w' :: ys, s = .worker w' ∨ s ∈ st.sessions := by
    intro s hs
    rw [hsplit]
    simp only [List.mem_append, List.mem_cons] at hs ⊢
    tauto
  have hput : (st.put k w').sessions = xs ++ .worker w' :: ys := hset _
  refine ⟨fun v hv => ?_, fun s hs => ?_, ?_⟩
  · rcases hmem _ (hput ▸ hv) with hv | hv
    · cases hv
      exact htracks
    · exact h.tracks v hv
  · rcases hmem _ (hput ▸ hs) with hs | hs
    · cases hs
    · exact h.triages s hs
  · rw [hput, List.pairwise_middle apart_comm, List.pairwise_cons]
    refine ⟨fun s hs id hid => ?_, hapart.2⟩
    rcases hholds id hid.1 with hold | hfree
    · exact hapart.1 s hs id ⟨hold, hid.2⟩
    · have hlocked : st.locked k id := locked_iff.mpr ⟨s, herase ▸ hs, hid.2⟩
      rw [hfree] at hlocked
      cases hlocked

theorem not_locked_of_holds (h : Locked st) (hk : st.sessions[k]? = some (.worker w)) {id : ℕ}
    (hid : w.overlay.holds (.row id)) : st.locked k id = false := by
  obtain ⟨xs, ys, hsplit, herase, -, -⟩ := sessions_split hk
  have hapart := h.apart
  rw [hsplit, List.pairwise_middle apart_comm, List.pairwise_cons] at hapart
  rw [Bool.eq_false_iff]
  intro hlocked
  obtain ⟨s, hs, hheld⟩ := locked_iff.mp hlocked
  exact hapart.1 s (herase ▸ hs) id ⟨hid, hheld⟩

theorem get?_commit {db : AlertDb} {s : Sessions.Session} {id : ℕ} {a : Alert}
    (ha : db.alerts.get? id = some a) :
    (∃ b, ((Sessions.commit? db s).getD db).alerts.get? id = some b) ∧
      ((∀ loaded changed, s.write ≠ .update id loaded changed) →
        ((Sessions.commit? db s).getD db).alerts.get? id = some a) := by
  cases hc : Sessions.commit? db s with
  | none => exact ⟨⟨a, ha⟩, fun _ => ha⟩
  | some db' =>
    obtain ⟨u, hu, rfl⟩ := Option.map_eq_some_iff.mp hc
    change (∃ b, u.get? id = some b) ∧ (_ → u.get? id = some a)
    cases hw : s.write with
    | insert b =>
      rw [hw] at hu
      have hlt : id < db.alerts.rows.length := (List.getElem?_eq_some_iff.mp ha).1
      have hget : u.get? id = some a := by
        rw [Alerts.get?_insert? hu, if_neg hlt.ne, ha]
      exact ⟨⟨a, hget⟩, fun _ => hget⟩
    | update j loaded changed =>
      rw [hw] at hu
      obtain ⟨stored, hstored, hupd⟩ := Option.bind_eq_some_iff.mp hu
      have hget := fun i => @Alerts.get?_update? _ _ _ _ _ hstored hupd i
      by_cases hj : id = j
      · subst hj
        exact ⟨⟨_, (hget id).trans (if_pos rfl)⟩, fun hne => absurd rfl (hne loaded changed)⟩
      · have hsame : u.get? id = some a := (hget id).trans ((if_neg hj).trans ha)
        exact ⟨⟨a, hsame⟩, fun _ => hsame⟩

theorem Locked.commit {s : Session} (h : Locked st)
    (hfree : ∀ id loaded changed, s.coarse.write = .update id loaded changed →
      st.locked k id = false) :
    Locked ⟨(Sessions.commit? st.db s.coarse).getD st.db, st.sessions.eraseIdx k⟩ where
  tracks v hv := by
    refine (h.tracks v (List.mem_of_mem_eraseIdx hv)).mono (fun id a hheld ha => ?_)
      fun id a ha => (get?_commit ha).1
    refine (get?_commit ha).2 fun loaded changed hw => ?_
    have hlocked : st.locked k id := locked_iff.mpr ⟨.worker v, hv, hheld⟩
    rw [hfree id loaded changed hw] at hlocked
    cases hlocked
  triages s' hs := h.triages s' (List.mem_of_mem_eraseIdx hs)
  apart := h.apart.sublist (List.eraseIdx_sublist _ _)

end

section

variable {st : State} {c : Sessions.State} {k : ℕ}

def Simulates (st : State) (c : Sessions.State) (act : Act) : Prop :=
  Locked (step st act) ∧ ∃ acts, Run.Guarded Sessions.step Sessions.Undisturbed c acts ∧
    Stands (step st act) (Run.exec Sessions.step c acts) ∧
    acts.flatMap Sessions.Act.submitted = act.submitted

theorem simulates_of_eq {act : Act} (h : Locked st) (hc : Stands st c) (hstep : step st act = st)
    (hnone : act.submitted = []) : Simulates st c act :=
  ⟨by rwa [hstep], [], trivial, by rwa [hstep], by rw [hnone]; rfl⟩

theorem simulates_of_set {w w' : Work} {act : Act} (hc : Stands st c)
    (hk : st.sessions[k]? = some (.worker w))
    (hstep : step st act = st.put k w')
    (hcoarse : (Session.worker w').coarse = (Session.worker w).coarse)
    (hlocked : Locked (st.put k w'))
    (hnone : act.submitted = []) : Simulates st c act := by
  refine ⟨by rwa [hstep], [], trivial, ?_, by rw [hnone]; rfl⟩
  obtain ⟨xs, ys, hsplit, -, hset, -⟩ := sessions_split hk
  rw [hstep]
  refine ⟨hc.1, hc.2.trans ?_⟩
  change _ = (st.sessions.set k (.worker w')).map Session.coarse
  rw [hset, hsplit, List.map_append, List.map_append, List.map_cons, List.map_cons, hcoarse]

theorem simulates_read (h : Locked st) (hc : Stands st c) (pref : ℕ) (txn : Txn) :
    Simulates st c (.read pref txn) := by
  have hoverlay : ∀ s ∈ begin? st.db.alerts pref txn, s.overlay = {} := by
    intro s hs
    cases txn with
    | worker w =>
      obtain rfl := Option.some.inj hs
      rfl
    | triage now r =>
      obtain ⟨s', -, rfl⟩ := Option.map_eq_some_iff.mp hs
      rfl
  refine ⟨⟨fun w hw => ?_, fun s hs => ?_, ?_⟩, [.read pref txn], ⟨trivial, trivial⟩,
    ⟨hc.1, ?_⟩, rfl⟩
  · rcases List.mem_append.mp hw with hold | hnew
    · exact h.tracks w hold
    · exact tracks_begin (Option.mem_toList.mp hnew)
  · rcases List.mem_append.mp hs with hold | hnew
    · exact h.triages s hold
    · cases txn with
      | worker w => cases Option.some.inj (Option.mem_toList.mp hnew)
      | triage now r =>
        obtain ⟨s', hread, hs'⟩ := Option.map_eq_some_iff.mp (Option.mem_toList.mp hnew)
        cases hs'
        obtain ⟨-, ⟨w, htxn, -⟩ | ⟨w, id, a, htxn, -⟩ |
          ⟨now, r, a, history, -, hlog, -, -, -, hwrite⟩⟩ := Sessions.read_cases hread
        · cases htxn
        · cases htxn
        · exact ⟨_, _, _, hwrite, by rw [hlog]; rfl⟩
  · refine List.pairwise_append.mpr ⟨h.apart, ?_, fun s hs s' hs' id hid => ?_⟩
    · cases begin? st.db.alerts pref txn <;> simp
    · have hempty := hoverlay s' (Option.mem_toList.mp hs')
      rw [hempty] at hid
      exact absurd hid.2 (by simp [Overlay.holds])
  · change c.pending ++ (txn.read c.db.alerts pref).toList = _
    rw [hc.1, hc.2, ← coarse_begin]
    change _ = (st.sessions ++ (begin? st.db.alerts pref txn).toList).map Session.coarse
    rw [List.map_append]
    cases begin? st.db.alerts pref txn <;> rfl

theorem simulates_select (h : Locked st) (hc : Stands st c) (pref : Target)
    (hg : Undisturbed st (.select k pref)) : Simulates st c (.select k pref) := by
  cases hk : st.sessions[k]? with
  | none => exact simulates_of_eq h hc (by simp only [step, hk]) rfl
  | some s =>
    cases s with
    | triage s => exact simulates_of_eq h hc (by simp only [step, hk]) rfl
    | worker w =>
      cases hplan : w.planned with
      | some plan => exact simulates_of_eq h hc (by simp only [step, hk, hplan]) rfl
      | none =>
        cases htodo : w.todo with
        | nil => exact simulates_of_eq h hc (by simp only [step, hk, hplan, htodo]) rfl
        | cons d rest =>
          obtain ⟨⟨target, a⟩, hopen, hholds⟩ := hg w d rest hk hplan htodo
          have hstep : step st (.select k pref) =
              st.put k { w with planned := some (some (target, a)) } := by
            simp only [step, hk, hplan, htodo, Option.mem_def.mp hopen]
          have htracks := tracks_select (h.tracks w (List.mem_of_getElem? hk)) hplan
            (getOpenByKey_eq_some hopen) hholds
          exact simulates_of_set hc hk hstep rfl (h.set hk htracks fun id hid => Or.inl hid) rfl

theorem flush_tracks {w : Work} {d : Detection} {rest : List Detection}
    {plan : Option (Target × Alert)} (h : Locked st) (hk : st.sessions[k]? = some (.worker w))
    (hplan : w.planned = some plan) (htodo : w.todo = d :: rest)
    (hg : Undisturbed st (.flush k)) :
    flush st k w d plan = .waits ∨ ∃ o, flush st k w d plan = .flushed o ∧
      Tracks st.db.alerts { w with todo := rest, planned := none, overlay := o } ∧
      ∀ id, o.holds (.row id) → w.overlay.holds (.row id) ∨ st.locked k id = false := by
  obtain ⟨done, hds, hfirst⟩ := h.tracks w (List.mem_of_getElem? hk)
  have hguard := hg w d rest hk htodo
  rw [hplan] at hguard
  have hds' : (done ++ [d]) ++ rest = w.txn.first :: w.txn.rest := by
    rw [← hds, htodo, List.append_assoc]
    rfl
  cases hw : w.first with
  | none =>
    rw [hw] at hfirst
    have hfree : plan = none → ∀ id, ¬ st.db.alerts.openAt d.key id := by
      rintro rfl
      exact hguard
    refine (@flush_inserting st k w d done rest plan hfirst hplan hfree).imp_right ?_
    rintro ⟨o, ho, hnext⟩
    refine ⟨o, ho, ⟨done ++ [d], hds', by simpa only [hw] using hnext⟩, fun id hid => ?_⟩
    have hupdated : o.updated = [] := hnext.updated
    simp [Overlay.holds, hupdated] at hid
  | some row =>
    obtain ⟨id, read⟩ := row
    rw [hw] at hfirst
    refine (@flush_folding st k w d done rest plan id read hfirst hplan (not_locked_of_holds h hk)
      fun loaded heq hfree stored hstored => ?_).imp_right ?_
    · subst heq
      exact hguard hfree (id, read) hw stored hstored
    · rintro ⟨hlocked, o, ho, hnext⟩
      refine ⟨o, ho, ⟨done ++ [d], hds', by simpa only [hw] using hnext⟩, fun j hj => ?_⟩
      obtain ⟨stored, -, -, hupdated, -⟩ := hnext.folded (by simp)
      have hupdated : o.updated = _ := hupdated
      obtain rfl : j = id := by
        by_contra hne
        simp [Overlay.holds, hupdated, Dict.get?_cons, hne] at hj
      exact Or.inr hlocked

theorem simulates_flush (h : Locked st) (hc : Stands st c)
    (hg : Undisturbed st (.flush k)) : Simulates st c (.flush k) := by
  cases hk : st.sessions[k]? with
  | none => exact simulates_of_eq h hc (by simp only [step, hk]) rfl
  | some s =>
    cases s with
    | triage s => exact simulates_of_eq h hc (by simp only [step, hk]) rfl
    | worker w =>
      cases hplan : w.planned with
      | none => exact simulates_of_eq h hc (by simp only [step, hk, hplan]) rfl
      | some plan =>
        cases htodo : w.todo with
        | nil => exact simulates_of_eq h hc (by simp only [step, hk, hplan, htodo]) rfl
        | cons d rest =>
          rcases flush_tracks h hk hplan htodo hg with hwaits | ⟨o, ho, htracks, hholds⟩
          · exact simulates_of_eq h hc (by simp only [step, hk, hplan, htodo, hwaits]) rfl
          · have hstep : step st (.flush k) =
                st.put k { w with todo := rest, planned := none, overlay := o } := by
              simp only [step, hk, hplan, htodo, ho]
            exact simulates_of_set hc hk hstep rfl (h.set hk htracks hholds) rfl

theorem commit_worker {t : Alerts} {w : Work} (h : Tracks t w) (htodo : w.todo = []) :
    w.overlay.publish? t = t.write? (Session.worker w).coarse.write := by
  obtain ⟨done, hds, hfirst⟩ := h
  rw [htodo, List.append_nil] at hds
  cases hw : w.first with
  | none =>
    rw [hw] at hfirst
    obtain ⟨hinserted, -⟩ := hfirst.inserted _ _ hds
    simp only [Session.coarse, hw, Alerts.write?, Overlay.publish?, hfirst.updated, hinserted,
      List.foldlM_nil, List.foldlM_cons, Option.pure_def, Option.bind_eq_bind, Option.bind_some]
    cases t.insert? (WorkerTxn.foldAll w.txn.clock (Alert.ofDetection
      (w.txn.first.triggeredAt.getD w.txn.clock) w.txn.first) w.txn.rest) <;> rfl
  | some row =>
    obtain ⟨id, read⟩ := row
    rw [hw] at hfirst
    obtain ⟨stored, hstored, -, hupdated, -⟩ := hfirst.folded (hds ▸ List.cons_ne_nil _ _)
    rw [hds] at hupdated
    simp only [Session.coarse, hw, Alerts.write?, Overlay.publish?, hupdated, hfirst.inserted,
      List.foldlM_nil, List.foldlM_cons, hstored, Option.bind_some]
    cases t.update? id (Alert.patch read (WorkerTxn.foldAll w.txn.clock read
      (w.txn.first :: w.txn.rest)) stored) <;> rfl

theorem Tracks.holds {t : Alerts} {w : Work} (h : Tracks t w) (htodo : w.todo = []) {id : ℕ}
    {loaded changed : Alert} (hw : (Session.worker w).coarse.write = .update id loaded changed) :
    w.overlay.holds (.row id) := by
  obtain ⟨done, hds, hfirst⟩ := h
  rw [htodo, List.append_nil] at hds
  cases hrow : w.first with
  | none =>
    simp only [Session.coarse, hrow] at hw
    cases hw
  | some row =>
    rw [hrow] at hfirst
    simp only [Session.coarse, hrow] at hw
    cases hw
    obtain ⟨stored, -, -, hupdated, -⟩ := hfirst.folded (hds ▸ List.cons_ne_nil _ _)
    rw [Overlay.holds, hupdated, Dict.get?_cons, if_pos rfl]
    rfl

theorem Tracks.undisturbed {t : Alerts} {w : Work} (h : Tracks t w) (htodo : w.todo = [])
    (hfree : w.overlay.inserted ≠ [] → ∀ id, ¬ t.openAt w.txn.first.key id) :
    match (Session.worker w).coarse.write, (Session.worker w).coarse.log with
    | .insert a, _ => ∀ id, ¬ t.openAt a.key id
    | .update id loaded changed, none => ∀ stored, t.get? id = some stored →
      stored = loaded ∨
        (stored.eventCount = loaded.eventCount ∧ changed.alertMetadata = loaded.alertMetadata)
    | .update id loaded changed, some _ => ∀ stored, t.get? id = some stored →
      ¬ t.Taken id (stored.key, changed.status) →
      stored.status = loaded.status ∧ stored.alertMetadata = loaded.alertMetadata := by
  obtain ⟨done, hds, hfirst⟩ := h
  rw [htodo, List.append_nil] at hds
  cases hrow : w.first with
  | none =>
    rw [hrow] at hfirst
    obtain ⟨hinserted, -⟩ := hfirst.inserted _ _ hds
    simp only [Session.coarse, hrow]
    have hkey := congrArg Prod.fst (WorkerTxn.foldAll_slot w.txn.clock (Alert.ofDetection
      (w.txn.first.triggeredAt.getD w.txn.clock) w.txn.first) w.txn.rest)
    intro id
    have hnone := hfree (by rw [hinserted]; exact List.cons_ne_nil _ _) id
    rwa [show (WorkerTxn.foldAll w.txn.clock _ w.txn.rest).key = w.txn.first.key from hkey]
  | some row =>
    obtain ⟨id, read⟩ := row
    rw [hrow] at hfirst
    simp only [Session.coarse, hrow]
    intro stored hstored
    obtain ⟨stored', hget, hkin, -⟩ := hfirst.folded (hds ▸ List.cons_ne_nil _ _)
    cases hstored.symm.trans hget
    refine hkin.imp_right fun hmoved => ⟨?_, ?_⟩
    · rw [onlyMoved_iff.mp hmoved.1]
    · rw [← hds]
      exact hmoved.2

theorem simulates_of_commit {s : Session} (h : Locked st) (hc : Stands st c)
    (hk : st.sessions[k]? = some s)
    (hstep : step st (.commit k) =
      ⟨(Sessions.commit? st.db s.coarse).getD st.db, st.sessions.eraseIdx k⟩)
    (hfree : ∀ id loaded changed, s.coarse.write = .update id loaded changed →
      st.locked k id = false)
    (hg : ∀ c : Sessions.State, Stands st c → Sessions.Undisturbed c (.commit k)) :
    Simulates st c (.commit k) := by
  refine ⟨hstep ▸ h.commit hfree, [.commit k], ⟨hg c hc, trivial⟩, ?_, rfl⟩
  have hpending : c.pending[k]? = some s.coarse := by
    rw [hc.2, List.getElem?_map, hk]
    rfl
  rw [hstep]
  refine ⟨?_, ?_⟩
  · change (Sessions.step c (.commit k)).db = _
    rw [Sessions.db_commit hpending, hc.1]
  · change (Sessions.step c (.commit k)).pending = (st.sessions.eraseIdx k).map Session.coarse
    rw [Sessions.pending_commit hpending, hc.2, List.eraseIdx_map]

theorem simulates_commit (h : Locked st) (hc : Stands st c)
    (hg : Undisturbed st (.commit k)) : Simulates st c (.commit k) := by
  cases hk : st.sessions[k]? with
  | none => exact simulates_of_eq h hc (by simp only [step, hk]) rfl
  | some s =>
    have hmem := List.mem_of_getElem? hk
    have hguard := hg
    simp only [Undisturbed, hk] at hguard
    have hcoarse : ∀ {c : Sessions.State}, Stands st c → ∀ s', c.pending[k]? = some s' →
        s' = s.coarse := by
      intro c hc s' hs'
      rw [hc.2, List.getElem?_map, hk] at hs'
      exact (Option.some.inj hs').symm
    cases s with
    | triage s =>
      cases hblocks : st.blocks k s with
      | true => exact simulates_of_eq h hc (by simp only [step, hk, hblocks, if_true]) rfl
      | false =>
        obtain ⟨id, loaded, changed, hwrite, hlog⟩ := h.triages s hmem
        refine simulates_of_commit h hc hk
          (by simp only [step, hk, hblocks, Bool.false_eq_true, if_false]; rfl)
          (fun i l c hw => ?_) fun c hc s' hs' => ?_
        · cases hwrite.symm.trans hw
          simp only [State.blocks, hwrite, Bool.or_eq_false_iff] at hblocks
          exact hblocks.1
        · obtain rfl := hcoarse hc s' hs'
          obtain ⟨log, hlog⟩ := Option.isSome_iff_exists.mp hlog
          simp only [hwrite, hlog, hc.1]
          intro stored hstored hfree
          exact hguard (by simp [hblocks]) id loaded changed hwrite stored hstored hfree
    | worker w =>
      by_cases htodo : w.todo = []
      · have htracks := h.tracks w hmem
        refine simulates_of_commit h hc hk ?_ (fun id loaded changed hw => ?_)
          fun c hc s' hs' => ?_
        · simp only [step, hk, htodo, if_true, commit_worker htracks htodo, Sessions.commit?,
            State.mk.injEq, and_true]
          cases st.db.alerts.write? (Session.worker w).coarse.write with
          | none => rfl
          | some alerts => simp [Session.coarse]
        · exact not_locked_of_holds h hk (htracks.holds htodo hw)
        · obtain rfl := hcoarse hc s' hs'
          rw [hc.1]
          exact htracks.undisturbed htodo (hguard htodo)
      · exact simulates_of_eq h hc (by simp only [step, hk, if_neg htodo]) rfl

theorem simulates_step (h : Locked st) (hc : Stands st c) {act : Act} (hg : Undisturbed st act) :
    Simulates st c act := by
  cases act with
  | read pref txn => exact simulates_read h hc pref txn
  | select k pref => exact simulates_select h hc pref hg
  | flush k => exact simulates_flush h hc hg
  | commit k => exact simulates_commit h hc hg

theorem simulates_run (h : Locked st) (hc : Stands st c) {acts : List Act}
    (hg : Run.Guarded step Undisturbed st acts) :
    ∃ coarse, Run.Guarded Sessions.step Sessions.Undisturbed c coarse ∧
      Stands (Run.exec step st acts) (Run.exec Sessions.step c coarse) ∧
      coarse.flatMap Sessions.Act.submitted = acts.flatMap Act.submitted := by
  induction acts generalizing st c with
  | nil => exact ⟨[], trivial, hc, rfl⟩
  | cons act acts ih =>
    obtain ⟨hlocked, coarse, hguard, hstands, hsubmitted⟩ := simulates_step h hc hg.1
    obtain ⟨coarse', hguard', hstands', hsubmitted'⟩ := ih hlocked hstands hg.2
    refine ⟨coarse ++ coarse', hguard.append hguard', ?_, ?_⟩
    · rw [Run.exec_append]
      exact hstands'
    · rw [List.flatMap_append, hsubmitted, hsubmitted', List.flatMap_cons]

end

/-- A transaction that runs alone: its detections, applied one after the other, or the status
request. -/
def serial (db : AlertDb) (x : ℕ × Txn) : AlertDb :=
  match x.2 with
  | .worker w => Run.exec Workflow.step db ((w.first :: w.rest).map (.apply x.1 w.clock))
  | .triage now r => Workflow.step db (.updateStatus now r)

theorem serial_worker (db : AlertDb) (pref : ℕ) (w : WorkerTxn) :
    serial db (pref, .worker w) =
      Run.exec Workflow.step db ((w.first :: w.rest).map (.apply pref w.clock)) :=
  rfl

theorem apply_fold {db : AlertDb} {pref id : ℕ} {a : Alert} {d : Detection} (clock : Time)
    (hopen : db.alerts.getOpenByKey pref d.key = some (id, a)) :
    Workflow.step db (.apply pref clock d) =
      Sessions.modify db id (fun b => b.fold (d.triggeredAt.getD clock) d)
        fun b => b.fold_slot _ d := by
  have ha := (Alerts.getOpenByKey_eq_some hopen).1
  have hupd := Alerts.update?_eq_modify (fun b => b.fold_slot (d.triggeredAt.getD clock) d) ha
  simp only [Workflow.step, AlertCorrelator.apply, AlertCorrelator.plan, hopen, Alerts.write?, ha,
    Option.bind_some, Alert.patch_self, hupd]
  rfl

theorem exec_apply_fold (clock : Time) (pref : ℕ) {key : String × String} {ds : List Detection}
    {db : AlertDb} {id : ℕ} {a : Alert} (hopen : db.alerts.getOpenByKey pref key = some (id, a))
    (hds : ∀ d ∈ ds, d.key = key) :
    Run.exec Workflow.step db (ds.map (.apply pref clock)) =
      Sessions.modify db id (fun b => WorkerTxn.foldAll clock b ds)
        fun b => WorkerTxn.foldAll_slot clock b ds := by
  induction ds generalizing db a with
  | nil =>
    refine congrArg (AlertDb.mk · db.auditLogs) (Alerts.ext_get? fun j => ?_)
    rw [Alerts.get?_modify]
    split_ifs
    · exact Option.map_id'.symm
    · rfl
  | cons d ds ih =>
    have hd : db.alerts.getOpenByKey pref d.key = some (id, a) := by
      rw [hds d List.mem_cons_self, hopen]
    rw [List.map_cons, Run.exec_cons, apply_fold clock hd]
    have hnext := Sessions.getOpenByKey_modify db.alerts id
      (fun b => b.fold_slot (d.triggeredAt.getD clock) d) pref key
    rw [hopen, Option.map_some] at hnext
    rw [ih hnext fun e he => hds e (List.mem_cons_of_mem d he)]
    refine congrArg (AlertDb.mk · db.auditLogs) (Alerts.ext_get? fun j => ?_)
    simp only [Sessions.modify, Alerts.get?_modify]
    split_ifs
    · exact Option.map_map ..
    · rfl

theorem getOpenByKey_insert? {t u : Alerts} {a : Alert} {key : String × String}
    (hfree : ∀ id, ¬ t.openAt key id) (hkey : a.key = key) (hact : a.status.isActive)
    (hu : t.insert? a = some u) (pref : ℕ) :
    u.getOpenByKey pref key = some (t.rows.length, a) := by
  have hget := Alerts.get?_insert? hu
  cases hopen : u.getOpenByKey pref key with
  | none =>
    exact absurd (Alerts.openAt_iff.mpr ⟨a, (hget _).trans (if_pos rfl), hkey, hact⟩)
      (Alerts.getOpenByKey_eq_none.mp hopen t.rows.length)
  | some row =>
    obtain ⟨id, b⟩ := row
    obtain ⟨hb, hbkey, hbact⟩ := Alerts.getOpenByKey_eq_some hopen
    rw [hget] at hb
    split_ifs at hb with hid
    · rw [hid, Option.some.inj hb]
    · exact absurd (Alerts.openAt_iff.mpr ⟨b, hb, hbkey, hbact⟩) (hfree id)

/-- One read and one commit of all its detections, with nothing in between, are a worker
transaction that runs alone. -/
theorem alone_eq_serial (db : AlertDb) (x : ℕ × Txn) : Sessions.alone db x = serial db x := by
  obtain ⟨pref, w | ⟨now, r⟩⟩ := x
  · have hkeys : ∀ d ∈ w.first :: w.rest, d.key = w.first.key := by
      intro d hd
      rcases List.mem_cons.mp hd with rfl | hd
      · rfl
      · exact w.oneKey d hd
    cases hopen : db.alerts.getOpenByKey pref w.first.key with
    | none =>
      obtain ⟨v, hv, halone⟩ := Sessions.alone_insert hopen
      obtain ⟨u, hu, hcase⟩ := AlertCorrelator.apply_cases db.alerts pref w.clock w.first
      have hins : db.alerts.insert?
          (Alert.ofDetection (w.first.triggeredAt.getD w.clock) w.first) = some u := by
        simpa only [AlertCorrelator.apply, AlertCorrelator.plan, hopen, Alerts.write?] using hu
      have hnew := getOpenByKey_insert? (Alerts.getOpenByKey_eq_none.mp hopen) rfl rfl hins pref
      rw [halone, serial_worker, List.map_cons, Run.exec_cons,
        show Workflow.step db (.apply pref w.clock w.first) = { db with alerts := u } by
          simp only [Workflow.step, hu],
        @exec_apply_fold w.clock pref w.first.key w.rest { db with alerts := u } _ _ hnew w.oneKey]
      refine congrArg (AlertDb.mk · db.auditLogs) (Alerts.ext_get? fun j => ?_)
      rw [Alerts.get?_insert? hv, Alerts.get?_modify, Alerts.get?_insert? hins]
      split_ifs <;> rfl
    | some row =>
      obtain ⟨id, a⟩ := row
      rw [Sessions.alone_fold hopen, serial_worker, exec_apply_fold w.clock pref hopen hkeys]
      have ha := (Alerts.getOpenByKey_eq_some hopen).1
      refine congrArg (AlertDb.mk · db.auditLogs) (Alerts.ext_get? fun j => ?_)
      rw [Alerts.get?_modify, Alerts.get?_modify]
      split_ifs with hj
      · rw [hj, ha, Option.map_some, Option.map_some, w.folded_self]
      · rfl
  · exact Sessions.alone_triage db pref now r

/-- However the reads, the SELECTs, the flushes and the commits of worker transactions and
status requests interleave, when every step is undisturbed and every transaction has ended,
the tables are those of some serial order of the same transactions. -/
theorem serial_order_of_undisturbed (db₀ : AlertDb) (acts : List Act)
    (hg : Run.Guarded step Undisturbed { db := db₀ } acts)
    (hdone : (Run.exec step { db := db₀ } acts).sessions = []) :
    ∃ order, (order.map Prod.snd).Perm (acts.flatMap Act.submitted) ∧
      Run.exec serial db₀ order = (Run.exec step { db := db₀ } acts).db := by
  have hlocked : Locked { db := db₀ } :=
    ⟨fun w hw => (List.not_mem_nil hw).elim, fun s hs => (List.not_mem_nil hs).elim,
      List.Pairwise.nil⟩
  obtain ⟨coarse, hguard, hstands, hsubmitted⟩ :=
    @simulates_run _ { db := db₀ } hlocked ⟨rfl, rfl⟩ _ hg
  have hpending : (Run.exec Sessions.step { db := db₀ } coarse).pending = [] := by
    rw [hstands.2, hdone, List.map_nil]
  obtain ⟨order, hperm, hdb⟩ := Sessions.order_of_undisturbed db₀ coarse hguard hpending
  refine ⟨order, hsubmitted ▸ hperm, ?_⟩
  rw [← show Sessions.alone = serial from funext fun db => funext (alone_eq_serial db), hdb,
    hstands.1]

def followUp (eventId : UUID) (rest : List UUID) : WorkerTxn where
  clock := 10
  first := { Workflow.bruteForce with evidence := [⟨eventId, 10, "login failed"⟩] }
  rest := rest.map fun id => { Workflow.bruteForce with evidence := [⟨id, 10, "login failed"⟩] }
  oneKey d hd := by
    obtain ⟨id, -, rfl⟩ := List.mem_map.mp hd
    rfl

def attacked : AlertDb := Workflow.run [.apply 0 0 Workflow.bruteForce]

/-- Two folds of one transaction around a status change: the first was read before it. -/
theorem serial_order_of_undisturbed_overlap :
    let acts : List Act := [.read 0 (.worker (followUp 7 [8])),
      .read 0 (.triage 20 { alertId := 0, newStatus := .acknowledged }), .commit 1, .flush 0,
      .select 0 (.row 0), .flush 0, .commit 0]
    ∃ order, (order.map Prod.snd).Perm (acts.flatMap Act.submitted) ∧
      Run.exec serial attacked order = (Run.exec step { db := attacked } acts).db := by
  intro acts
  refine serial_order_of_undisturbed attacked acts
    ⟨trivial, trivial, ?_, ?_, ?_, ?_, ?_, trivial⟩ rfl
  · intro _ id loaded changed hwrite stored hget _
    cases hwrite
    cases hget
    decide +kernel
  · intro w d rest hw htodo
    cases hw
    cases htodo
    intro _ first hfirst stored hget
    cases hfirst
    cases hget
    decide +kernel
  · intro w d rest hw _ htodo
    cases hw
    cases htodo
    exact ⟨_, rfl, rfl⟩
  · intro w d rest hw htodo
    cases hw
    cases htodo
    intro _ first hfirst stored hget
    cases hfirst
    cases hget
    decide +kernel
  · intro _ hne
    exact absurd rfl hne

/-- When row `id` is the only active alert of a key, every serial order of transactions
folding the key raises its event count by at least their number. -/
theorem eventCount_serial_folds {key : String × String} {id : ℕ} {order : List (ℕ × Txn)}
    {db : AlertDb} {a : Alert} (ha : db.alerts.get? id = some a)
    (honly : ∀ j, db.alerts.openAt key j ↔ j = id)
    (hfolds : ∀ x ∈ order, ∃ w : WorkerTxn, x.2 = .worker w ∧ w.first.key = key) :
    ∃ b, (Run.exec serial db order).alerts.get? id = some b ∧
      a.eventCount + order.length ≤ b.eventCount := by
  induction order generalizing db a with
  | nil => exact ⟨a, ha, by simp⟩
  | cons x order ih =>
    obtain ⟨w, hx, hkey⟩ := hfolds x List.mem_cons_self
    obtain ⟨pref, txn⟩ := x
    cases hx
    obtain ⟨⟨j, c⟩, hopen⟩ : ∃ jc, db.alerts.getOpenByKey pref w.first.key = some jc := by
      rw [← Option.ne_none_iff_exists', Ne, Alerts.getOpenByKey_eq_none, hkey]
      exact fun h => h id ((honly id).mpr rfl)
    obtain ⟨hc, hck, hact⟩ := Alerts.getOpenByKey_eq_some hopen
    have hj : j = id := (honly j).mp (Alerts.openAt_iff.mpr ⟨c, hc, hck.trans hkey, hact⟩)
    subst hj
    obtain ⟨b, hb, -, hlt⟩ := Sessions.eventCount_alone ha (pref, .worker w)
    have hstrict : a.eventCount < b.eventCount := hlt ⟨w, c, rfl, hopen⟩
    have honly' (i : ℕ) : (Sessions.alone db (pref, .worker w)).alerts.openAt key i ↔ i = j := by
      rw [Sessions.alone_fold hopen, Sessions.modify, Sessions.openAt_modify]
      exact honly i
    rw [alone_eq_serial] at hb honly'
    obtain ⟨d, hd, hle⟩ := ih hb honly' fun y hy => hfolds y (List.mem_cons_of_mem _ hy)
    refine ⟨d, hd, ?_⟩
    rw [List.length_cons, Nat.cast_succ]
    omega

/-- Two transactions fold different events into the same alert and overlap: the second to
flush overwrites the event count of the first, which no serial order does. -/
theorem overlapping_folds_lose_one :
    let acts : List Act := [.read 0 (.worker (followUp 7 [])), .read 0 (.worker (followUp 8 [])),
      .flush 0, .commit 0, .flush 0, .commit 0]
    (Run.exec step { db := attacked } acts).sessions = [] ∧
    ¬ ∃ order, (order.map Prod.snd).Perm (acts.flatMap Act.submitted) ∧
      ((Run.exec serial attacked order).alerts.get? 0).map Alert.eventCount =
        ((Run.exec step { db := attacked } acts).db.alerts.get? 0).map Alert.eventCount := by
  intro acts
  refine ⟨rfl, ?_⟩
  intro h
  obtain ⟨order, hperm, hcount⟩ := h
  have hfinal : ((Run.exec step { db := attacked } acts).db.alerts.get? 0).map Alert.eventCount =
      some 2 := by decide +kernel
  have hget : attacked.alerts.get? 0 = some (Alert.ofDetection 0 Workflow.bruteForce) := by
    decide +kernel
  have honly (j : ℕ) : attacked.alerts.openAt Workflow.bruteForce.key j ↔ j = 0 := by
    cases j with
    | zero => decide +kernel
    | succ j =>
      have hnone : attacked.alerts.get? (j + 1) = none := rfl
      exact iff_of_false (by simp [Alerts.openAt, hnone]) (Nat.succ_ne_zero j)
  have hworkers (x : ℕ × Txn) (hx : x ∈ order) :
      ∃ w : WorkerTxn, x.2 = .worker w ∧ w.first.key = Workflow.bruteForce.key := by
    have hmem : x.2 ∈ acts.flatMap Act.submitted := hperm.mem_iff.mp (List.mem_map_of_mem hx)
    simp only [acts, List.flatMap_cons, Act.submitted, List.flatMap_nil, List.append_nil,
      List.cons_append, List.nil_append, List.mem_cons, List.not_mem_nil, or_false] at hmem
    rcases hmem with hmem | hmem <;> exact ⟨_, hmem, rfl⟩
  obtain ⟨b, hb, hle⟩ := eventCount_serial_folds hget honly hworkers
  have hlen : order.length = 2 := by simpa [acts, Act.submitted] using hperm.length_eq
  rw [hb, hfinal] at hcount
  have hb2 : b.eventCount = 2 := Option.some.inj hcount
  rw [hlen, hb2] at hle
  exact absurd hle (by decide)

end SiemEngine.Transactions

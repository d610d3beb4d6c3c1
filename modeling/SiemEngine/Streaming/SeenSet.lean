import SiemEngine.Lib.Run
import SiemEngine.Streaming.Pipeline

/-!
# The seen-set over time

The ids of processed events are kept under one Redis key. A batch with a fresh event adds
its ids and sets the expiry of the whole key anew; no id is ever removed alone. The worker
awaits each `process_batch`, so the calls come one after another, each with one instant at
which it checks and one at which it marks. What was processed when is recorded for the
statements only.
-/

namespace SiemEngine.SeenSet

def dedupTtl : ℤ := 600 * Datetime.microsPerSecond

theorem dedupTtl_pos : 0 < dedupTtl := by decide

structure Key where
  members : Finset UUID
  expiresAt : ℤ

/-- A call of `process_batch`: the time that passes before its check, the time from there to
its mark, and its batch. -/
structure Call where
  before : ℕ
  between : ℕ
  arrivals : List Arrival

structure State where
  key : Option Key
  now : ℤ
  processed : List (ℤ × UUID) := []

namespace State

def contents (s : State) : Finset UUID :=
  match s.key with
  | some k => if k.expiresAt < s.now then ∅ else k.members
  | none => ∅

/-- The ids of the fresh events of the last 600 seconds. -/
def recent (s : State) : List UUID :=
  (s.processed.filter fun p => s.now ≤ p.1 + dedupTtl).map Prod.snd

def later (s : State) (δ : ℕ) : State := { s with now := s.now + δ }

def mark (s : State) (ids : List UUID) : State where
  key := some ⟨s.contents ∪ ids.toFinset, s.now + dedupTtl⟩
  now := s.now
  processed := s.processed ++ ids.map fun id => (s.now, id)

def freshIds (py : Python) (s : State) (c : Call) : List UUID :=
  Pipeline.ids (Pipeline.fresh (s.later c.before).contents (Pipeline.validate py c.arrivals))

end State

def step (py : Python) (s : State) (c : Call) : State :=
  let marking := s.later (c.before + c.between)
  if (s.freshIds py c).isEmpty then marking else marking.mark (s.freshIds py c)

def init (now : ℤ) : State := ⟨none, now, []⟩

/-- The set is the memory of the last 600 seconds, and no larger than their traffic. -/
structure State.Exact (s : State) : Prop where
  contents : s.contents = s.recent.toFinset
  size : s.contents.card ≤ s.recent.length

/-- `P` at every moment of a run: until the mark of each call, and from the last one on. -/
def AtEveryMoment (py : Python) (P : State → Prop) (s : State) (calls : List Call) : Prop :=
  Run.Guarded (step py) (fun s c => ∀ δ ≤ c.before + c.between, P (s.later δ)) s calls ∧
    ∀ δ, P ((Run.exec (step py) s calls).later δ)

/-- A batch with a fresh event is marked when each earlier one was marked at the same instant
or more than 600 seconds ago. -/
def Spaced (py : Python) (s : State) (c : Call) : Prop :=
  s.freshIds py c ≠ [] → ∀ p ∈ s.processed,
    p.1 = s.now + (c.before + c.between : ℕ) ∨
      p.1 + dedupTtl < s.now + (c.before + c.between : ℕ)

section

variable {py : Python} {s : State} {c : Call} {id : UUID} {armed : ℤ}

theorem mem_recent : id ∈ s.recent ↔ ∃ t, (t, id) ∈ s.processed ∧ s.now ≤ t + dedupTtl := by
  simp [State.recent]

theorem exact_of_contents (h : s.contents = s.recent.toFinset) : s.Exact :=
  ⟨h, h ▸ List.toFinset_card_le _⟩

theorem contents_of_alive {k : Key} (hkey : s.key = some k) (h : s.now ≤ k.expiresAt) :
    s.contents = k.members := by
  rw [State.contents, hkey]
  exact if_neg (not_lt_of_ge h)

theorem contents_of_expired {k : Key} (hkey : s.key = some k) (h : k.expiresAt < s.now) :
    s.contents = ∅ := by
  rw [State.contents, hkey]
  exact if_pos h

theorem not_mem_freshIds (h : id ∈ (s.later c.before).contents) : id ∉ s.freshIds py c := by
  simp only [State.freshIds, Pipeline.fresh, Pipeline.ids, List.mem_map, List.mem_filter]
  intro hfresh
  obtain ⟨av, ⟨-, hnot⟩, rfl⟩ := hfresh
  exact absurd h (of_decide_eq_true hnot)

theorem step_of_stale (h : s.freshIds py c = []) :
    step py s c = s.later (c.before + c.between) := by
  simp only [step, h, List.isEmpty_nil, if_true]

theorem step_of_fresh (h : s.freshIds py c ≠ []) :
    step py s c = (s.later (c.before + c.between)).mark (s.freshIds py c) := by
  rw [← List.isEmpty_eq_false_iff] at h
  simp only [step, h, Bool.false_eq_true, if_false]

end

/-- The key holds what was marked at one instant, over 600 seconds after all that came before. -/
structure State.Armed (s : State) (armed : ℤ) : Prop where
  key : ∃ k, s.key = some k ∧ k.expiresAt = armed + dedupTtl ∧
    ∀ id, id ∈ k.members ↔ (armed, id) ∈ s.processed
  le_now : armed ≤ s.now
  spaced : ∀ p ∈ s.processed, p.1 = armed ∨ p.1 + dedupTtl < armed

def State.Clean (s : State) : Prop := s.key = none ∧ s.processed = [] ∨ ∃ armed, s.Armed armed

section

variable {py : Python} {s : State} {c : Call} {id : UUID} {ids : List UUID} {armed : ℤ}

theorem mem_processed_mark {t : ℤ} : (t, id) ∈ (s.mark ids).processed ↔
    (t, id) ∈ s.processed ∨ t = s.now ∧ id ∈ ids := by
  simp only [State.mark, List.mem_append, List.mem_map, Prod.mk.injEq]
  constructor
  · intro h
    rcases h with h | ⟨_, h, rfl, rfl⟩
    · exact Or.inl h
    · exact Or.inr ⟨rfl, h⟩
  · intro h
    rcases h with h | ⟨rfl, h⟩
    · exact Or.inl h
    · exact Or.inr ⟨id, h, rfl, rfl⟩

theorem State.Armed.later (h : s.Armed armed) (δ : ℕ) : (s.later δ).Armed armed :=
  ⟨h.key, h.le_now.trans (Int.le_add_of_nonneg_right (Int.natCast_nonneg δ)), h.spaced⟩

theorem State.Clean.later (h : s.Clean) (δ : ℕ) : (s.later δ).Clean := by
  rcases h with h | ⟨armed, h⟩
  · exact Or.inl h
  · exact Or.inr ⟨armed, h.later δ⟩

theorem State.Armed.exact (h : s.Armed armed) : s.Exact := by
  obtain ⟨k, hkey, hexpires, hmembers⟩ := h.key
  have hnow := h.le_now
  apply exact_of_contents
  ext id
  rw [List.mem_toFinset, mem_recent]
  rcases le_or_gt s.now k.expiresAt with hle | hgt
  · rw [contents_of_alive hkey hle, hmembers]
    constructor
    · intro hid
      exact ⟨armed, hid, hexpires ▸ hle⟩
    · intro hid
      obtain ⟨t, hid, hlive⟩ := hid
      rcases h.spaced _ hid with ht | ht
      · exact ht ▸ hid
      · dsimp only at ht
        omega
  · rw [contents_of_expired hkey hgt]
    refine iff_of_false (Finset.notMem_empty id) ?_
    intro hid
    obtain ⟨t, hid, hlive⟩ := hid
    have ht := h.spaced _ hid
    have hpos := dedupTtl_pos
    dsimp only at ht
    omega

theorem State.Clean.exact (h : s.Clean) : s.Exact := by
  rcases h with ⟨hkey, hprocessed⟩ | ⟨armed, h⟩
  · apply exact_of_contents
    rw [State.contents, hkey, State.recent, hprocessed]
    rfl
  · exact h.exact

theorem mem_contents_of_spaced (h : s.Clean)
    (hspaced : ∀ p ∈ s.processed, p.1 = s.now ∨ p.1 + dedupTtl < s.now) :
    id ∈ s.contents ↔ (s.now, id) ∈ s.processed := by
  rw [h.exact.contents, List.mem_toFinset, mem_recent]
  constructor
  · intro hid
    obtain ⟨t, hid, hlive⟩ := hid
    rcases hspaced _ hid with ht | ht
    · exact ht ▸ hid
    · exact absurd hlive (not_le_of_gt ht)
  · intro hid
    exact ⟨s.now, hid, le_add_of_nonneg_right dedupTtl_pos.le⟩

theorem State.Clean.mark (h : s.Clean)
    (hspaced : ∀ p ∈ s.processed, p.1 = s.now ∨ p.1 + dedupTtl < s.now) : (s.mark ids).Clean := by
  refine Or.inr ⟨s.now, ⟨_, rfl, rfl, fun id => ?_⟩, le_rfl, ?_⟩
  · rw [Finset.mem_union, List.mem_toFinset, mem_contents_of_spaced h hspaced, mem_processed_mark]
    simp only [true_and]
  · intro p hp
    rcases mem_processed_mark.mp hp with hp | ⟨ht, -⟩
    · exact hspaced p hp
    · exact Or.inl ht

theorem clean_step (h : s.Clean) (hg : Spaced py s c) :
    (∀ δ ≤ c.before + c.between, (s.later δ).Exact) ∧ (step py s c).Clean := by
  refine ⟨fun δ _ => (h.later δ).exact, ?_⟩
  by_cases hfresh : s.freshIds py c = []
  · rw [step_of_stale hfresh]
    exact h.later _
  · rw [step_of_fresh hfresh]
    exact (h.later _).mark (hg hfresh)

end

/-- The set will still hold an id when 600 seconds have passed since it was last marked. -/
structure State.Lingers (s : State) (id : UUID) (last : ℤ) : Prop where
  key : ∃ k, s.key = some k ∧ id ∈ k.members ∧ last + dedupTtl < k.expiresAt
  last_lt : last < s.now
  now_le : s.now ≤ last + dedupTtl
  processed : ∀ t, (t, id) ∈ s.processed → t ≤ last

section

variable {py : Python} {s : State} {c : Call} {id : UUID} {ids : List UUID} {last : ℤ}

theorem lingers_later (h : s.Lingers id last) (δ : ℕ) (hδ : s.now + δ ≤ last + dedupTtl) :
    (s.later δ).Lingers id last :=
  ⟨h.key, h.last_lt.trans_le (Int.le_add_of_nonneg_right (Int.natCast_nonneg δ)), hδ, h.processed⟩

theorem State.Lingers.mem_contents (h : s.Lingers id last) : id ∈ s.contents := by
  obtain ⟨k, hkey, hmem, hexpires⟩ := h.key
  rw [contents_of_alive hkey (h.now_le.trans hexpires.le)]
  exact hmem

theorem State.Lingers.not_exact (h : s.Lingers id last) (δ : ℕ)
    (hδ : s.now + δ = last + dedupTtl + 1) : ¬ (s.later δ).Exact := by
  intro hexact
  obtain ⟨k, hkey, hkept, hexpires⟩ := h.key
  have hmem : id ∈ (s.later δ).contents := by
    rw [contents_of_alive (s := s.later δ) hkey (by simp only [State.later]; omega)]
    exact hkept
  rw [hexact.contents, List.mem_toFinset, mem_recent] at hmem
  obtain ⟨t, hid, hlive⟩ := hmem
  have ht := h.processed t hid
  simp only [State.later] at hlive
  omega

theorem lingers_mark {k : Key} (hkey : s.key = some k) (hmem : id ∈ k.members)
    (halive : s.now ≤ k.expiresAt) (hid : id ∉ ids) (hlast : last < s.now)
    (hnow : s.now ≤ last + dedupTtl) (hprocessed : ∀ t, (t, id) ∈ s.processed → t ≤ last) :
    (s.mark ids).Lingers id last where
  key := by
    refine ⟨_, rfl, Finset.mem_union_left _ ?_, Int.add_lt_add_right hlast dedupTtl⟩
    rw [contents_of_alive hkey halive]
    exact hmem
  last_lt := hlast
  now_le := hnow
  processed t ht := by
    rcases mem_processed_mark.mp ht with ht | ⟨-, hmarked⟩
    · exact hprocessed t ht
    · exact absurd hmarked hid

theorem State.Lingers.step (h : s.Lingers id last)
    (hexact : ∀ δ ≤ c.before + c.between, (s.later δ).Exact) :
    (step py s c).Lingers id last := by
  have hnow := h.now_le
  have hδ : s.now + (c.before + c.between : ℕ) ≤ last + dedupTtl := by
    by_contra hlt
    exact h.not_exact (last + dedupTtl + 1 - s.now).toNat (by omega) (hexact _ (by omega))
  have hcheck := lingers_later h c.before (by omega)
  have hmarking := lingers_later h _ hδ
  by_cases hfresh : s.freshIds py c = []
  · rw [step_of_stale hfresh]
    exact hmarking
  · rw [step_of_fresh hfresh]
    obtain ⟨k, hkey, hmem, hexpires⟩ := hmarking.key
    exact lingers_mark hkey hmem (hδ.trans hexpires.le) (not_mem_freshIds hcheck.mem_contents)
      hmarking.last_lt hδ hmarking.processed

theorem lingers_of_not_spaced (h : s.Clean) (hs : ¬ Spaced py s c) :
    ∃ id last, (SeenSet.step py s c).Lingers id last := by
  simp only [Spaced, not_forall, not_or, not_lt] at hs
  obtain ⟨hfresh, ⟨t, id⟩, hid, hne, hlive⟩ := hs
  rcases h with ⟨-, hprocessed⟩ | ⟨armed, harmed⟩
  · rw [hprocessed] at hid
    exact absurd hid List.not_mem_nil
  · obtain ⟨k, hkey, hexpires, hmembers⟩ := harmed.key
    have hnow := harmed.le_now
    have ht : t = armed := by
      rcases harmed.spaced _ hid with ht | ht
      · exact ht
      · dsimp only at ht hlive
        omega
    subst ht
    dsimp only at hne hlive
    have hmem := (hmembers id).mpr hid
    have hcheck : id ∈ (s.later c.before).contents := by
      rw [contents_of_alive (s := s.later c.before) hkey (by simp only [State.later]; omega)]
      exact hmem
    have hlast : ∀ t', (t', id) ∈ s.processed → t' ≤ t := by
      intro t' ht'
      have hspaced := harmed.spaced _ ht'
      have hpos := dedupTtl_pos
      dsimp only at hspaced
      omega
    have hmarking : t < s.now + (c.before + c.between : ℕ) := by omega
    refine ⟨id, t, ?_⟩
    rw [step_of_fresh hfresh]
    exact lingers_mark (k := k) hkey hmem (hexpires ▸ hlive) (not_mem_freshIds hcheck) hmarking
      hlive hlast

theorem State.Lingers.lost (h : s.Lingers id last) : ¬ ∀ δ, (s.later δ).Exact := by
  intro hexact
  have hnow := h.now_le
  exact h.not_exact (last + dedupTtl + 1 - s.now).toNat (by omega) (hexact _)

end

/-- The seen-set is the memory of the last 600 seconds at every moment of a run exactly when
its batches with fresh events come at one instant or more than 600 seconds apart. -/
theorem exact_iff_spaced (py : Python) (now : ℤ) (calls : List Call) :
    AtEveryMoment py State.Exact (init now) calls ↔
      Run.Guarded (step py) (Spaced py) (init now) calls := by
  refine Run.guarded_and_last_iff (I := State.Clean) (D := fun s => ∃ id last, s.Lingers id last)
    (fun s c h hg => clean_step h hg) (fun s h δ => (h.later δ).exact)
    (fun s c h _ hs => lingers_of_not_spaced h hs) ?_ ?_ (Or.inl ⟨rfl, rfl⟩) calls
  · intro s c h hexact
    obtain ⟨id, last, h⟩ := h
    exact ⟨id, last, h.step hexact⟩
  · intro s h
    obtain ⟨id, last, h⟩ := h
    exact h.lost

def atSecond (before : ℕ) (eventId : String) : Call where
  before := before * 1000000
  between := 0
  arrivals := (Pipeline.callAtZero [Pipeline.requestOf eventId] none).arrivals

/-- Two new ids 300 seconds apart: the second arms the key again, and 600 seconds after the
first was processed, and a moment more, it is still in the set. -/
theorem second_id_keeps_first : ¬ AtEveryMoment Python.ascii State.Exact (init 0)
    [atSecond 0 "request-1", atSecond 300 "request-2"] := by
  intro h
  exact absurd (h.2 300000001).contents (by decide +kernel)

/-- What the key must hold: the ids of the last 600 seconds, and its expiry after theirs. -/
structure State.Remembers (s : State) : Prop where
  le_now : ∀ p ∈ s.processed, p.1 ≤ s.now
  kept : ∀ p ∈ s.processed, s.now ≤ p.1 + dedupTtl →
    ∃ k, s.key = some k ∧ p.1 + dedupTtl ≤ k.expiresAt ∧ p.2 ∈ k.members

section

variable {py : Python} {s : State} {c : Call} {id : UUID} {ids : List UUID}

theorem State.Remembers.later (h : s.Remembers) (δ : ℕ) : (s.later δ).Remembers := by
  have hle : s.now ≤ (s.later δ).now := Int.le_add_of_nonneg_right (Int.natCast_nonneg δ)
  exact ⟨fun p hp => (h.le_now p hp).trans hle, fun p hp hlive => h.kept p hp (hle.trans hlive)⟩

theorem State.Remembers.mem_contents (h : s.Remembers) {t : ℤ} (hid : (t, id) ∈ s.processed)
    (hlive : s.now ≤ t + dedupTtl) : id ∈ s.contents := by
  obtain ⟨k, hkey, hexpires, hmem⟩ := h.kept _ hid hlive
  rw [contents_of_alive hkey (hlive.trans hexpires)]
  exact hmem

theorem State.Remembers.mark (h : s.Remembers) : (s.mark ids).Remembers := by
  refine ⟨fun p hp => ?_, fun p hp hlive => ⟨_, rfl, ?_, ?_⟩⟩
  · rcases mem_processed_mark.mp hp with hp | ⟨ht, -⟩
    · exact h.le_now p hp
    · exact ht.le
  · rcases mem_processed_mark.mp hp with hp | ⟨ht, -⟩
    · exact Int.add_le_add_right (h.le_now p hp) dedupTtl
    · rw [ht]
  · rcases mem_processed_mark.mp hp with hp | ⟨-, hid⟩
    · exact Finset.mem_union_left _ (h.mem_contents hp hlive)
    · exact Finset.mem_union_right _ (List.mem_toFinset.mpr hid)

theorem remembers_step (h : s.Remembers) : (step py s c).Remembers := by
  by_cases hfresh : s.freshIds py c = []
  · rw [step_of_stale hfresh]
    exact h.later _
  · rw [step_of_fresh hfresh]
    exact (h.later _).mark

/-- Nothing of the last 600 seconds is ever missing. -/
theorem recent_subset_contents (py : Python) (now : ℤ) (calls : List Call) (δ : ℕ) :
    let s := (Run.exec (step py) (init now) calls).later δ
    s.recent.toFinset ⊆ s.contents := by
  have hinit : (init now).Remembers :=
    ⟨fun p hp => absurd hp List.not_mem_nil, fun p hp => absurd hp List.not_mem_nil⟩
  have hrun : Run.Holds (step py) State.Remembers (init now) calls :=
    Run.holds_of_step (fun _ _ h => remembers_step h) hinit calls
  intro s id hid
  obtain ⟨t, hid, hlive⟩ := mem_recent.mp (List.mem_toFinset.mp hid)
  exact (hrun.last.later δ).mem_contents hid hlive

def Steady (py : Python) (s : State) (c : Call) : Prop :=
  s.freshIds py c ≠ [] → ∀ k, s.key = some k → s.now + (c.before + c.between : ℕ) ≤ k.expiresAt

def State.KeepsAll (s : State) : Prop :=
  match s.key with
  | some k => k.members = (s.processed.map Prod.snd).toFinset
  | none => s.processed = []

theorem keepsAll_step (h : s.KeepsAll) (hg : Steady py s c) : (step py s c).KeepsAll := by
  by_cases hfresh : s.freshIds py c = []
  · rw [step_of_stale hfresh]
    exact h
  · rw [step_of_fresh hfresh]
    have hids : ((s.later (c.before + c.between)).mark (s.freshIds py c)).processed.map Prod.snd =
        s.processed.map Prod.snd ++ s.freshIds py c := by
      simp [State.mark, State.later]
    have hcontents : (s.later (c.before + c.between)).contents =
        (s.processed.map Prod.snd).toFinset := by
      unfold State.KeepsAll at h
      cases hkey : s.key with
      | none =>
        rw [hkey] at h
        simp [State.contents, State.later, hkey, h]
      | some k =>
        rw [hkey] at h
        rw [contents_of_alive (s := s.later _) hkey (hg hfresh k hkey), h]
    simp only [State.KeepsAll, hids, List.toFinset_append]
    rw [← hcontents]
    rfl

/-- Under steady traffic no id ever leaves the set. -/
theorem keepsAll_of_steady {now : ℤ} {calls : List Call}
    (h : Run.Guarded (step py) (Steady py) (init now) calls) :
    Run.Holds (step py) State.KeepsAll (init now) calls := by
  have hinit : (init now).KeepsAll := rfl
  exact Run.holds_of_guarded (fun _ _ hs hg => keepsAll_step hs hg) hinit h

end

theorem seen_processBatch {cfg : Config} {s : Pipeline} {c : SiemEngine.Call}
    (hcheck : c.fault ≠ some .check) (hmark : ∀ applied, c.fault ≠ some (.mark applied)) :
    (s.processBatch cfg c).1.seen = s.seen ∪ (Pipeline.ids (s.freshOf cfg c)).toFinset := by
  unfold Pipeline.processBatch
  dsimp only
  rw [if_neg hcheck, if_neg (hmark false), if_neg (hmark true)]
  split_ifs with hvalid hfresh
  · simp [Pipeline.freshOf, Pipeline.fresh, List.isEmpty_iff.mp hvalid, Pipeline.ids]
  · rw [Pipeline.freshOf, List.isEmpty_iff.mp hfresh]
    simp [Pipeline.ids]
  · exact Pipeline.processFresh_seen _

/-- A call without a Redis failure leaves what the pipeline's call leaves, as long as the key
does not expire between its check and its mark. -/
theorem contents_step {cfg : Config} {p : Pipeline} {s : State} {c : Call}
    {circumstances : Circumstances} (hseen : p.seen = (s.later c.before).contents)
    (hcheck : circumstances.fault ≠ some .check)
    (hmark : ∀ applied, circumstances.fault ≠ some (.mark applied))
    (halive : (s.later (c.before + c.between)).contents = (s.later c.before).contents) :
    (step cfg.py s c).contents = (p.processBatch cfg ⟨circumstances, c.arrivals⟩).1.seen := by
  have hids : Pipeline.ids (p.freshOf cfg ⟨circumstances, c.arrivals⟩) = s.freshIds cfg.py c := by
    rw [Pipeline.freshOf, hseen]
    rfl
  rw [seen_processBatch hcheck hmark, hids, hseen]
  by_cases hfresh : s.freshIds cfg.py c = []
  · rw [step_of_stale hfresh, hfresh, halive]
    simp
  · rw [step_of_fresh hfresh, ← halive]
    exact contents_of_alive (k := ⟨_, _⟩) rfl (Int.le_add_of_nonneg_right dedupTtl_pos.le)

end SiemEngine.SeenSet

import Mathlib.Algebra.Order.Archimedean.Basic
import SiemEngine.Detection.Delay

/-!
# Streams processed early and late

For any stream there are instants so late that measuring a success deletes everything, and
so early that it deletes nothing. Runs that differ only in when one success is processed
show that the answers depend on the delay wherever a success comes in or behind a spree.
-/

namespace SiemEngine.BruteForce

variable {py : Python} {p : Params} {ip : String} {o : Sighting} {events : List SecurityEvent}
  {pre post : List Sighting}

theorem timestamp_two_pow (k : ℕ) :
    Datetime.timestamp (2 ^ k * Datetime.microsPerSecond) = 2 ^ k := by
  have hdiv : (((2 ^ k * Datetime.microsPerSecond : ℤ) : ℚ)) / Datetime.microsPerSecond =
      2 ^ k := by
    rw [Int.cast_mul, mul_div_cancel_right₀ _ (by decide +kernel)]
    push_cast
    rfl
  rw [Datetime.timestamp, Binary64.div, hdiv, Binary64.nearest_two_pow]

theorem timestamp_neg_two_pow (k : ℕ) :
    Datetime.timestamp (-2 ^ k * Datetime.microsPerSecond) = -2 ^ k := by
  have hdiv : (((-2 ^ k * Datetime.microsPerSecond : ℤ) : ℚ)) / Datetime.microsPerSecond =
      -2 ^ k := by
    rw [Int.cast_mul, mul_div_cancel_right₀ _ (by decide +kernel)]
    push_cast
    rfl
  rw [Datetime.timestamp, Binary64.div, hdiv, Binary64.nearest_neg_two_pow]

theorem exists_two_pow_ge (x y : ℚ) : ∃ k : ℕ, x < 2 ^ k ∧ y < 2 ^ k := by
  obtain ⟨k, hk⟩ := pow_unbounded_of_one_lt (max x y) (one_lt_two (α := ℚ))
  exact ⟨k, (le_max_left x y).trans_lt hk, (le_max_right x y).trans_lt hk⟩

theorem exists_late (w : ℤ) (x : ℚ) :
    ∃ t : Time, 0 ≤ t ∧ x ≤ Binary64.sub (Datetime.timestamp t) w := by
  obtain ⟨k, hx, hw⟩ := exists_two_pow_ge x w
  refine ⟨2 ^ (k + 1) * Datetime.microsPerSecond, mul_nonneg (by positivity) (by decide),
    hx.le.trans ?_⟩
  rw [timestamp_two_pow, Binary64.sub, ← Binary64.nearest_two_pow k]
  exact Binary64.nearest_mono (by rw [pow_succ]; linarith)

theorem exists_early (w : ℤ) (x : ℚ) :
    ∃ t : Time, t ≤ 0 ∧ Binary64.sub (Datetime.timestamp t) w < x := by
  obtain ⟨k, hx, hw⟩ := exists_two_pow_ge (-x) (-w)
  refine ⟨-2 ^ (k + 1) * Datetime.microsPerSecond, ?_, ?_⟩
  · exact mul_nonpos_of_nonpos_of_nonneg (neg_nonpos.mpr (by positivity)) (by decide)
  · have hle : Binary64.sub (-2 ^ (k + 1)) w ≤ -2 ^ k := by
      rw [Binary64.sub, ← Binary64.nearest_neg_two_pow k]
      exact Binary64.nearest_mono (by rw [pow_succ]; linarith)
    rw [timestamp_neg_two_pow]
    exact hle.trans_lt (by linarith)

theorem exists_clocks (w : ℤ) (events : List SecurityEvent) :
    ∃ early late : Time, early ≤ late ∧ ∀ e ∈ events,
      e.epoch ≤ Binary64.sub (Datetime.timestamp late) w ∧
        Binary64.sub (Datetime.timestamp early) w < e.epoch := by
  have hbounds : ∃ x y : ℚ, ∀ e ∈ events, e.epoch ≤ x ∧ y ≤ e.epoch := by
    induction events with
    | nil => exact ⟨0, 0, fun e he => absurd he List.not_mem_nil⟩
    | cons e events ih =>
      obtain ⟨x, y, h⟩ := ih
      refine ⟨max e.epoch x, min e.epoch y, List.forall_mem_cons.mpr
        ⟨⟨le_max_left _ _, min_le_left _ _⟩, fun f hf => ?_⟩⟩
      exact ⟨(h f hf).1.trans (le_max_right _ _), (min_le_right _ _).trans (h f hf).2⟩
  obtain ⟨x, y, h⟩ := hbounds
  obtain ⟨late, hlate, hx⟩ := exists_late w x
  obtain ⟨early, hearly, hy⟩ := exists_early w y
  exact ⟨early, late, hearly.trans hlate, fun e he =>
    ⟨(h e he).1.trans hx, hy.trans_le (h e he).2⟩⟩

theorem distinctMembers_of_tokens {os : List Sighting}
    (hnodup : (os.map fun o => (tick o).token).Nodup)
    (hsep : ∀ o ∈ os, Windows.separator ∉ (tick o).token.toList) : DistinctMembers os := by
  have hmembers : os.Pairwise fun a b => member a ≠ member b :=
    (List.pairwise_map.mp hnodup).imp_of_mem fun {a b} ha hb hne heq =>
      hne (Windows.encode_inj (hsep a ha) (hsep b hb) heq)
  exact List.pairwise_map.mpr (hmembers.sublist List.filter_sublist)

def numbered (plan : List (SecurityEvent × Time)) : List Sighting :=
  plan.zipIdx.map fun x => {
    event := x.1.1
    ticks := fun _ => ⟨x.1.2, String.ofList (List.replicate x.2 'x'), x.1.2⟩ }

theorem map_numbered (plan : List (SecurityEvent × Time)) :
    (numbered plan).map (fun o => (o.event, (tick o).clock)) = plan := by
  rw [numbered, List.map_map]
  exact List.zipIdx_map_fst 0 plan

theorem distinctMembers_numbered (plan : List (SecurityEvent × Time)) :
    DistinctMembers (numbered plan) := by
  refine distinctMembers_of_tokens ?_ fun o ho => ?_
  · have htokens : (numbered plan).map (fun o => (tick o).token) =
        (plan.zipIdx.map Prod.snd).map fun i => String.ofList (List.replicate i 'x') := by
      rw [numbered, List.map_map, List.map_map]
      rfl
    rw [htokens, List.zipIdx_map_snd]
    refine List.Nodup.map (fun i j heq => ?_) List.nodup_range'
    simpa using congrArg (fun s : String => s.toList.length) heq
  · obtain ⟨x, -, rfl⟩ := List.mem_map.mp ho
    change Windows.separator ∉ (String.ofList (List.replicate x.2 'x')).toList
    rw [String.toList_ofList]
    exact fun hmem => absurd (List.eq_of_mem_replicate hmem) (by decide)

theorem unexpired_of_clocks {late : Time} (hw : 0 < p.bruteForceWindow + 30) {as : List Sighting}
    (hle : ∀ o ∈ as, (tick o).clock ≤ late)
    (hfail : ∀ o ∈ as, isFailure o → (tick o).clock = late) :
    (reading p).Unexpired none as := by
  refine Retention.Reading.unexpired_of_bound late (fun t ht => absurd ht (Option.not_mem_none t))
    hle fun o ho hf => ?_
  have hpos : 0 < (p.bruteForceWindow + 30) * Datetime.microsPerSecond :=
    mul_pos hw (by decide)
  change late ≤ (tick o).clock + (p.bruteForceWindow + 30) * Datetime.microsPerSecond
  rw [hfail o ho hf]
  exact (lt_add_of_pos_right late hpos).le

/-- Successes are processed early, everything else late. -/
def scheduled (early late : Time) (ev : SecurityEvent) : SecurityEvent × Time :=
  (ev, if ev.eventType = .authSuccess then early else late)

section

variable {early late : Time} {evs : List SecurityEvent} {os : List Sighting}
  (h : os.map (fun o => (o.event, (tick o).clock)) = evs.map (scheduled early late))

include h

theorem map_event_scheduled : os.map Sighting.event = evs := by
  have hfst := congrArg (List.map Prod.fst) h
  simpa [List.map_map, Function.comp_def, scheduled] using hfst

theorem clock_scheduled {o : Sighting} (ho : o ∈ os) :
    (tick o).clock = if o.event.eventType = .authSuccess then early else late := by
  obtain ⟨ev, -, hev⟩ := List.mem_map.mp (h ▸ List.mem_map_of_mem ho)
  have hfst : ev = o.event := congrArg Prod.fst hev
  have hsnd := congrArg Prod.snd hev
  rw [← hfst]
  exact hsnd.symm

theorem clock_scheduled_le (hel : early ≤ late) {o : Sighting} (ho : o ∈ os) :
    (tick o).clock ≤ late ∧ (isFailure o → (tick o).clock = late) := by
  rw [clock_scheduled h ho]
  by_cases hsucc : o.event.eventType = .authSuccess <;> simp [isFailure, hsucc, hel]

end

/-- A run in which one success is processed at a chosen time and all others early. -/
structure Scheduled (p : Params) (early late t : Time) (xs : List SecurityEvent) (s : SecurityEvent)
    (ys : List SecurityEvent) (pre : List Sighting) (o : Sighting) (post : List Sighting) :
    Prop where
  before : pre.map Sighting.event = xs
  event : o.event = s
  behind : post.map Sighting.event = ys
  clock : (tick o).clock = t
  early : ∀ a ∈ pre ++ post, isFailure a = false → (tick a).clock = early
  late : ∀ a ∈ pre ++ o :: post, (tick a).clock ≤ late ∧ (isFailure a → (tick a).clock = late)
  processed : Processed p (xs ++ s :: ys) (pre ++ o :: post)

theorem exists_scheduled (hw : 0 < p.bruteForceWindow + 30) {early late t : Time}
    (hel : early ≤ late) (ht : t ≤ late) (xs ys : List SecurityEvent) {s : SecurityEvent}
    (hs : s.eventType = .authSuccess) :
    ∃ pre o post, Scheduled p early late t xs s ys pre o post := by
  let plan := xs.map (scheduled early late) ++ (s, t) :: ys.map (scheduled early late)
  obtain ⟨pre, rest, hos, hpre, hrest⟩ := List.map_eq_append_iff.mp (map_numbered plan)
  obtain ⟨o, post, rfl, ho, hpost⟩ := List.map_eq_cons_iff.mp hrest
  have hoe : o.event = s := congrArg Prod.fst ho
  have hot : (tick o).clock = t := congrArg Prod.snd ho
  have hfailo : isFailure o = false := by simp [isFailure, hoe, hs]
  have hlate : ∀ a ∈ pre ++ o :: post,
      (tick a).clock ≤ late ∧ (isFailure a → (tick a).clock = late) := by
    intro a ha
    rcases List.mem_append.mp ha with ha | ha
    · exact clock_scheduled_le hpre hel ha
    · rcases List.mem_cons.mp ha with rfl | ha
      · exact ⟨hot ▸ ht, fun h => absurd h (by simp [hfailo])⟩
      · exact clock_scheduled_le hpost hel ha
  refine ⟨pre, o, post, map_event_scheduled hpre, hoe, map_event_scheduled hpost, hot,
    fun a ha hfa => ?_, hlate, ?_, fun a ha => ?_, fun ip => ?_, fun ip => ?_⟩
  · have hsucc : a.event.eventType = .authSuccess := by simpa [isFailure] using hfa
    have hc := (List.mem_append.mp ha).elim (clock_scheduled hpre) (clock_scheduled hpost)
    rwa [if_pos hsucc] at hc
  · rw [List.map_append, List.map_cons, map_event_scheduled hpre, hoe, map_event_scheduled hpost]
  · rw [← hos] at ha
    obtain ⟨x, -, rfl⟩ := List.mem_map.mp ha
    exact ⟨List.not_mem_nil, rfl⟩
  · rw [← hos]
    exact (distinctMembers_numbered plan).sublist List.filter_sublist
  · exact unexpired_of_clocks hw (fun a ha => (hlate a (List.mem_of_mem_filter ha)).1)
      fun a ha => (hlate a (List.mem_of_mem_filter ha)).2

theorem Scheduled.live_of_late {early late : Time} {xs ys : List SecurityEvent} {s : SecurityEvent}
    (h : Scheduled p early late late xs s ys pre o post) (hs : s.eventType = .authSuccess)
    (hreach : ∀ e ∈ xs, e.epoch ≤ Binary64.sub (Datetime.timestamp late) p.bruteForceWindow)
    (rest : List Sighting) : live p (arrivals ip pre ++ o :: rest) = live p rest := by
  have hadds : (reading p).adds o = false := by
    change isFailure o = false
    simp [isFailure, h.event, hs]
  rw [live, Retention.Reading.survivors_append_of_cut (List.mem_cons_self (a := o)),
    Retention.Reading.survivors_cons_of_not_adds hadds]
  intro a ha hfa
  rw [cutoff_of_success (h.event ▸ hs), h.clock]
  have hmem : a.event ∈ xs := h.before ▸ List.mem_map_of_mem (List.mem_of_mem_filter ha)
  exact hreach _ hmem

def Quiet (p : Params) (early late : Time) (a : Sighting) : Prop :=
  (tick a).clock ≤ late ∧ (isFailure a → (tick a).clock = late) ∧
    (isFailure a = false → (tick a).clock = early) ∧
    Binary64.sub (Datetime.timestamp early) p.bruteForceWindow < a.event.epoch

theorem live_of_quiet (hw : 0 < p.bruteForceWindow + 30) {early late : Time} {as : List Sighting}
    (hq : ∀ a ∈ as ++ [o], Quiet p early late a) (ho : isFailure o)
    (hord : ∀ c ∈ as, c.event.timestamp ≤ o.event.timestamp) :
    live p (as ++ [o]) =
      as.filter (fun a => isFailure a && decide
        (Binary64.sub o.event.epoch p.bruteForceWindow < a.event.epoch)) ++ [o] := by
  refine live_concat_failure (unexpired_of_clocks hw (fun a ha => (hq a ha).1)
    fun a ha => (hq a ha).2.1) ho hord fun xs c ys heq hc a ha hfa _ => ?_
  have hmemc : c ∈ as ++ [o] := List.mem_append_left _ (heq ▸ by simp)
  have hmema : a ∈ as ++ [o] := List.mem_append_left _ (heq ▸ List.mem_append_left _ ha)
  have hsucc : c.event.eventType = .authSuccess := by simpa [isFailure] using hc
  rw [cutoff_of_success hsucc, (hq c hmemc).2.2.1 hc]
  exact (hq a hmema).2.2.2

theorem Scheduled.quiet {early late t : Time} {xs ys : List SecurityEvent} {s : SecurityEvent}
    (h : Scheduled p early late t xs s ys pre o post)
    (hreach : ∀ e ∈ xs ++ s :: ys,
      Binary64.sub (Datetime.timestamp early) p.bruteForceWindow < e.epoch) :
    ∀ a ∈ pre ++ post, Quiet p early late a := by
  intro a ha
  have hmem : a ∈ pre ++ o :: post :=
    ((List.Sublist.refl pre).append (List.sublist_cons_self o post)).subset ha
  have hev : a.event ∈ xs ++ s :: ys := h.processed.events ▸ List.mem_map_of_mem hmem
  exact ⟨(h.late a hmem).1, (h.late a hmem).2, h.early a ha, hreach _ hev⟩

theorem between_of_unobtrusive (hw : 0 < p.bruteForceWindow + 30)
    (hord : events.Pairwise fun e f => e.timestamp ≤ f.timestamp)
    (h : DelayIndependent py p events) {xs mid ys : List SecurityEvent} {s f e : SecurityEvent}
    (hev : events = xs ++ s :: mid ++ f :: ys) (hs : succeeds ip s) (hf : fails ip f)
    (he : e ∈ xs) (hfe : fails ip e) : e.epoch ≤ Binary64.sub f.epoch p.bruteForceWindow := by
  by_contra hlt
  rw [not_le] at hlt
  obtain ⟨early, late, hel, hreach⟩ := exists_clocks p.bruteForceWindow events
  have hst : s.eventType = .authSuccess := eventType_of_succeeds hs
  obtain ⟨pre, o, post, hsch⟩ := exists_scheduled hw hel le_rfl xs (mid ++ f :: ys) hst
  obtain ⟨mid', rest, rfl, hmid, hrest⟩ := List.map_eq_append_iff.mp hsch.behind
  obtain ⟨g, post, rfl, hg, hpost⟩ := List.map_eq_cons_iff.mp hrest
  have hev' : events = xs ++ s :: (mid ++ f :: ys) := by rw [hev, List.append_assoc]; rfl
  have hfg : fails ip g.event := hg ▸ hf
  obtain ⟨hcg, hfailg⟩ := isFailure_of_fails hfg
  have hco : concerns ip o := concerns_iff_event.mpr (Or.inr (hsch.event ▸ hs))
  have hp : Processed p events (pre ++ o :: mid' ++ g :: post) := by
    rw [hev', List.append_assoc]
    exact hsch.processed
  -- all that the success does is to hide what is stored before it
  have hsame := h.unobtrusive pre o mid' g post hp ip (hsch.event ▸ hst) hfg
  have hlast : [g].Sublist (g :: post) := List.singleton_sublist.mpr List.mem_cons_self
  have hskip : (pre ++ mid').Sublist (pre ++ o :: mid') :=
    (List.Sublist.refl pre).append (List.sublist_cons_self o mid')
  rw [hp.observe_eq ((List.Sublist.refl _).append hlast) hcg,
    hp.observe_eq (hskip.append hlast) hcg] at hsame
  have hlen := congrArg WindowResult.count hsame
  rw [count_toResult, count_toResult, arrivals_append, arrivals_append, arrivals_cons, if_pos hco,
    List.append_assoc, List.singleton_append, List.cons_append,
    hsch.live_of_late hst fun e he => (hreach e (hev ▸ by simp [he])).1] at hlen
  have hquiet : ∀ a ∈ (arrivals ip pre ++ arrivals ip mid') ++ [g], Quiet p early late a := by
    intro a ha
    refine hsch.quiet (fun e he => (hreach e (hev' ▸ he)).2) a ?_
    rw [← arrivals_append] at ha
    rcases List.mem_append.mp ha with ha | ha
    · have hmem := List.mem_of_mem_filter ha
      rw [List.mem_append] at hmem ⊢
      exact hmem.imp_right (List.mem_append_left _)
    · exact List.mem_append_right _ (List.mem_append_right _ (by simp [List.mem_singleton.mp ha]))
  have hbefore : ∀ c ∈ arrivals ip pre ++ arrivals ip mid', c.event.timestamp ≤
      g.event.timestamp := by
    intro c hc
    rw [← arrivals_append] at hc
    have hc' := ((hskip.filter (concerns ip)).subset hc)
    exact timestamp_le (hp.split ▸ hord) c hc'
  rw [live_of_quiet hw hquiet hfailg hbefore,
    live_of_quiet hw (fun a ha =>
      hquiet a (by rw [List.append_assoc]; exact List.mem_append_right _ ha))
      hfailg (fun c hc => hbefore c (List.mem_append_right _ hc)),
    List.filter_append, List.length_append, List.length_append, List.length_append] at hlen
  obtain ⟨a, ha, rfl⟩ := List.mem_map.mp (hsch.before ▸ he)
  obtain ⟨hca, hfaila⟩ := isFailure_of_fails hfe
  have hmem : a ∈ (arrivals ip pre).filter (fun a => isFailure a && decide
      (Binary64.sub g.event.epoch p.bruteForceWindow < a.event.epoch)) := by
    refine List.mem_filter.mpr ⟨List.mem_filter.mpr ⟨ha, hca⟩, ?_⟩
    rw [hg]
    exact Bool.and_eq_true_iff.mpr ⟨hfaila, decide_eq_true hlt⟩
  have hpos := List.length_pos_of_mem hmem
  omega

theorem Scheduled.live_late_eq_nil {early late : Time} {xs ys : List SecurityEvent}
    {s : SecurityEvent} (h : Scheduled p early late late xs s ys pre o post)
    (hs : s.eventType = .authSuccess)
    (hreach : ∀ e ∈ xs, e.epoch ≤ Binary64.sub (Datetime.timestamp late) p.bruteForceWindow) :
    live p (arrivals ip pre ++ [o]) = [] := h.live_of_late hs hreach []

theorem Scheduled.length_live_of_early (hw : 0 < p.bruteForceWindow + 30)
    (hord : events.Pairwise fun e f => e.timestamp ≤ f.timestamp) {early late : Time}
    {xs mid ys : List SecurityEvent} {f s : SecurityEvent}
    (hev : events = xs ++ f :: mid ++ s :: ys)
    (hreach : ∀ e ∈ events,
      Binary64.sub (Datetime.timestamp early) p.bruteForceWindow < e.epoch)
    (h : Scheduled p early late early (xs ++ f :: mid) s ys pre o post) (hf : fails ip f)
    (hmid : ∀ e ∈ mid, ¬ fails ip e) (hs : succeeds ip s) :
    (live p (arrivals ip pre ++ [o])).length = (recent p ip xs f).length + 1 := by
  obtain ⟨pre, rest, rfl, hxs, hrest⟩ := List.map_eq_append_iff.mp h.before
  obtain ⟨g, mid', rfl, hg, hmid'⟩ := List.map_eq_cons_iff.mp hrest
  have hfg : fails ip g.event := hg ▸ hf
  obtain ⟨hcg, hfailg⟩ := isFailure_of_fails hfg
  have hso : succeeds ip o.event := h.event ▸ hs
  have hco : concerns ip o := concerns_iff_event.mpr (Or.inr hso)
  have hp : Processed p events (pre ++ g :: (mid' ++ o :: post)) := by
    rw [hev]
    simpa only [List.append_assoc, List.cons_append] using h.processed
  have hquiet := h.quiet (hev ▸ hreach)
  have hsplit : arrivals ip (pre ++ g :: mid') ++ [o] =
      (arrivals ip pre ++ [g]) ++ (arrivals ip mid' ++ [o]) := by
    rw [arrivals_append, arrivals_cons, if_pos hcg]
    simp only [List.append_assoc]
  have hsub : ∀ a ∈ arrivals ip pre ++ [g], Quiet p early late a := by
    intro a ha
    refine hquiet a (List.mem_append_left _ ?_)
    rcases List.mem_append.mp ha with ha | ha
    · exact List.mem_append_left _ (List.mem_of_mem_filter ha)
    · simp [List.mem_singleton.mp ha]
  have hunexp := hp.unexpired ip
  rw [← List.cons_append, ← List.append_assoc, arrivals_append, arrivals_cons, if_pos hco,
    ← List.append_assoc] at hunexp
  have hidle : ∀ b ∈ arrivals ip mid' ++ [o], (reading p).adds b = false ∧
      ∀ a ∈ arrivals ip pre ++ [g], (reading p).cutoff b < (reading p).score a := by
    intro b hb
    have hnot : isFailure b = false ∧ (tick b).clock = early := by
      rcases List.mem_append.mp hb with hb | hb
      · have hb' := @not_adds_of_not_fails p ip mid' (fun a ha hfa =>
          hmid a.event (hmid' ▸ List.mem_map_of_mem ha) hfa) b hb
        have hmem := List.mem_of_mem_filter hb
        exact ⟨hb', h.early b (List.mem_append_left _ (List.mem_append_right _
          (List.mem_cons_of_mem g hmem))) hb'⟩
      · rw [List.mem_singleton.mp hb]
        exact ⟨not_isFailure_of_succeeds hso, h.clock⟩
    refine ⟨hnot.1, fun a ha => ?_⟩
    have hsucc : b.event.eventType = .authSuccess := by simpa [isFailure] using hnot.1
    rw [cutoff_of_success hsucc, hnot.2]
    exact (hsub a ha).2.2.2
  rw [hsplit] at hunexp ⊢
  rw [live, (Retention.Reading.unexpired_append.mp hunexp).1.survivors_append_of_idle hidle]
  rw [← live, live_of_quiet hw hsub hfailg (timestamp_le (hp.split ▸ hord)), List.length_append,
    ← List.length_map Sighting.event, hg]
  rw [← hxs, ← map_event_recent]
  rfl

theorem behind_of_same (hw : 0 < p.bruteForceWindow + 30)
    (hord : events.Pairwise fun e f => e.timestamp ≤ f.timestamp)
    (h : DelayIndependent py p events) {xs mid ys : List SecurityEvent} {f s : SecurityEvent}
    (hev : events = xs ++ f :: mid ++ s :: ys) (hf : fails ip f)
    (hmid : ∀ e ∈ mid, ¬ fails ip e) (hs : succeeds ip s) :
    (recent p ip xs f).length + 1 < p.maxFailures := by
  by_contra hle
  rw [not_lt] at hle
  obtain ⟨early, late, hel, hreach⟩ := exists_clocks p.bruteForceWindow events
  have hst : s.eventType = .authSuccess := eventType_of_succeeds hs
  obtain ⟨pre, o, post, hsch⟩ := exists_scheduled hw hel hel (xs ++ f :: mid) ys hst
  obtain ⟨pre', o', post', hsch'⟩ := exists_scheduled hw hel le_rfl (xs ++ f :: mid) ys hst
  have hlen : pre.length = pre'.length := by
    simpa only [List.length_map] using congrArg List.length (hsch.before.trans hsch'.before.symm)
  have hsame := h.same _ _ (hev ▸ hsch.processed) (hev ▸ hsch'.processed) pre.length
  have hlive := hsch.length_live_of_early hw hord hev (fun e he => (hreach e he).2) hf hmid hs
  have hearlier : ∀ e ∈ xs ++ f :: mid, e.epoch ≤
      Binary64.sub (Datetime.timestamp late) p.bruteForceWindow := fun e he =>
    (hreach e (hev ▸ List.mem_append_left _ he)).1
  have hnil := @Scheduled.live_late_eq_nil p ip _ _ _ _ _ _ _ _ hsch' hst hearlier
  rw [answer_eq, hlen, answer_eq, hsch.processed.detectionsIn
      (concerns_iff_event.mpr (Or.inr (hsch.event ▸ hs))), hsch'.processed.detectionsIn
      (concerns_iff_event.mpr (Or.inr (hsch'.event ▸ hs))), hlive, hnil,
    if_neg (not_lt.mpr (by exact_mod_cast hle))] at hsame
  split_ifs at hsame with hzero
  · simp at hsame
  · have hhint := congrArg Detection.eventCountHint
      (List.head_eq_of_cons_eq (Option.some.inj hsame))
    change ((measured p ip pre o).count : ℤ) = (measured p ip pre' o').count at hhint
    rw [count_measured, count_measured, hlive, hnil, List.length_nil] at hhint
    omega

theorem close_of_breach (hw : 0 < p.bruteForceWindow + 30) (h : DelayIndependent py p events)
    {xs ys : List SecurityEvent} {s : SecurityEvent} (hev : events = xs ++ s :: ys)
    (hs : succeeds ip s) (hpos : 0 < p.maxFailures) :
    (preceding p ip xs s).length < p.maxFailures := by
  by_contra hle
  rw [not_lt] at hle
  obtain ⟨early, late, hel, hreach⟩ := exists_clocks p.bruteForceWindow events
  have hst : s.eventType = .authSuccess := eventType_of_succeeds hs
  obtain ⟨pre, o, post, hsch⟩ := exists_scheduled hw hel le_rfl xs ys hst
  have hso : succeeds ip o.event := hsch.event ▸ hs
  have hmany : p.maxFailures ≤ (preceding p ip (pre.map Sighting.event) o.event).length := by
    rwa [hsch.before, hsch.event]
  obtain ⟨ds, hds, d, hd, -⟩ := h.breach _ (hev ▸ hsch.processed) ip pre o post rfl hso hmany
  have hnil := @Scheduled.live_late_eq_nil p ip _ _ _ _ _ _ _ _ hsch hst fun e he =>
    (hreach e (hev ▸ List.mem_append_left _ he)).1
  rw [answer_eq, hsch.processed.detectionsIn (concerns_iff_event.mpr (Or.inr hso)), hnil,
    if_pos (by simpa using hpos)] at hds
  obtain rfl := Option.some.inj hds
  exact List.not_mem_nil hd

/-- Over a stream in timestamp order the answers are the same under all processing times,
miss no breach and leave later failures alone, exactly when no success of an IP comes in
or behind one of its sprees. -/
theorem delayIndependent_iff (py : Python) (p : Params) (events : List SecurityEvent)
    (hw : 0 < p.bruteForceWindow + 30)
    (hord : events.Pairwise fun e f => e.timestamp ≤ f.timestamp) :
    DelayIndependent py p events ↔ NoSuccessInSpree p events := by
  constructor
  · intro h
    exact ⟨fun ip xs s mid f ys hev hs hf e he hfe =>
        between_of_unobtrusive hw hord h hev hs hf he hfe,
      fun ip xs f mid s ys hev hf hmid hs => behind_of_same hw hord h hev hf hmid hs,
      fun ip xs s ys hev hs hpos => close_of_breach hw h hev hs hpos⟩
  · intro hn
    refine ⟨fun os os' hp hp' i => answer_congr hn hord hp hp' i, ?_, ?_⟩
    · intro os hp ip pre s post hos hs hmany
      subst hos
      exact breach_of_noSuccess hn hp hs hmany
    · intro pre s mid f post hp ip hs hf
      exact observe_skip hn hp hs hf

def attemptsAt (clock : ℤ) (attempts : List (String × EventType × ℤ)) : List Sighting :=
  attempts.map fun a => Sighting.auth a.1 a.2.1 "203.0.113.9" a.2.2 clock

theorem map_event_attemptsAt (clock clock' : ℤ) (attempts : List (String × EventType × ℤ)) :
    (attemptsAt clock attempts).map Sighting.event =
      (attemptsAt clock' attempts).map Sighting.event := by
  simp only [attemptsAt, List.map_map]
  rfl

theorem processed_attemptsAt (hw : 0 < p.bruteForceWindow + 30) (clock : ℤ)
    {attempts : List (String × EventType × ℤ)} (hnodup : (attempts.map Prod.fst).Nodup)
    (hsep : ∀ a ∈ attempts, Windows.separator ∉ a.1.toList) :
    Processed p ((attemptsAt clock attempts).map Sighting.event) (attemptsAt clock attempts) := by
  have hclock : ∀ o ∈ attemptsAt clock attempts,
      (tick o).clock = clock * Datetime.microsPerSecond := by
    intro o ho
    obtain ⟨a, -, rfl⟩ := List.mem_map.mp ho
    rfl
  refine ⟨rfl, fun o ho => ?_, fun ip => ?_, fun ip => ?_⟩
  · obtain ⟨a, -, rfl⟩ := List.mem_map.mp ho
    exact ⟨List.not_mem_nil, rfl⟩
  · refine (distinctMembers_of_tokens ?_ fun o ho => ?_).sublist List.filter_sublist
    · rw [attemptsAt, List.map_map]
      exact hnodup
    · obtain ⟨a, ha, rfl⟩ := List.mem_map.mp ho
      exact hsep a ha
  · exact unexpired_of_clocks hw (fun o ho => (hclock o (List.mem_of_mem_filter ho)).le)
      fun o ho _ => hclock o (List.mem_of_mem_filter ho)

/-- A mistyped password, the login that follows it and a failure of a later window. -/
def mistypedOnce : List SecurityEvent :=
  (attemptsAt 0 [("a", .authFailure, 0), ("b", .authSuccess, 1),
    ("c", .authFailure, 100)]).map Sighting.event

theorem delayIndependent_iff_orderly :
    DelayIndependent Python.ascii { maxFailures := 2 } mistypedOnce := by
  refine (delayIndependent_iff Python.ascii { maxFailures := 2 } _ (by decide) ?_).mpr ?_
  · decide +kernel
  · let first := (Sighting.auth "a" .authFailure "203.0.113.9" 0 0).event
    let last := (Sighting.auth "c" .authFailure "203.0.113.9" 100 0).event
    -- the stream can be split at its only success in one way
    have hsplit : ∀ ip pre s post, mistypedOnce = pre ++ s :: post → succeeds ip s →
        [first] = pre ∧ [last] = post := by
      intro ip pre s post hev hs
      have hne : ∀ e, e.eventType = .authFailure → s ≠ e := by
        rintro e he rfl
        exact absurd (he.symm.trans (eventType_of_succeeds hs)) (by decide)
      have hfirst : s ≠ first := hne first (by decide +kernel)
      have hlast : s ≠ last := hne last (by decide +kernel)
      have hev' : [first] ++ _ :: [last] = pre ++ s :: post := hev
      obtain ⟨hpre, -, hpost⟩ := (List.append_cons_inj_of_notMem
        (List.mem_singleton.not.mpr hfirst) (List.mem_singleton.not.mpr hlast)).mp hev'
      exact ⟨hpre, hpost⟩
    refine ⟨?_, ?_, ?_⟩
    · intro ip pre s mid f post hev hs _ e he _
      obtain ⟨rfl, hpost⟩ := hsplit ip pre s (mid ++ f :: post) (by simpa using hev) hs
      obtain rfl := List.mem_singleton.mp he
      have hf : f = last := by
        rcases List.cons_eq_append_iff.mp hpost with ⟨-, hf⟩ | ⟨mid, -, hnil⟩
        · exact (List.cons.inj hf).1
        · simp at hnil
      rw [hf]
      decide +kernel
    · intro ip pre f mid s post hev _ _ hs
      obtain ⟨hpre, -⟩ := hsplit ip (pre ++ f :: mid) s post (by simpa using hev) hs
      rcases List.cons_eq_append_iff.mp hpre with ⟨rfl, -⟩ | ⟨pre, -, hnil⟩
      · exact (by decide : ((0 : ℕ) : ℤ) + 1 < 2)
      · simp at hnil
    · intro ip pre s post hev hs _
      obtain ⟨rfl, -⟩ := hsplit ip pre s post hev hs
      have hone : (preceding { maxFailures := 2 } ip [first] s).length ≤ 1 :=
        List.length_filter_le _ _
      exact (Int.ofNat_le.mpr hone).trans_lt (by decide)

/-- Two failures and a success within two seconds: processed at once the success is
reported, replayed an hour later it is not. -/
theorem replayed_breach_missed :
    let attempts : List (String × EventType × ℤ) :=
      [("a", .authFailure, 0), ("b", .authFailure, 1), ("c", .authSuccess, 2)]
    let events := (attemptsAt 2 attempts).map Sighting.event
    (∀ a ∈ attempts, SecurityEvent.fromRaw Python.ascii someReadings
        (Sighting.authRaw a.1 a.2.1 "203.0.113.9" a.2.2) =
      .ok (Sighting.auth a.1 a.2.1 "203.0.113.9" a.2.2 2).event) ∧
      events.Pairwise (fun e f => e.timestamp ≤ f.timestamp) ∧
      Processed { maxFailures := 2 } events (attemptsAt 2 attempts) ∧
      Processed { maxFailures := 2 } events (attemptsAt 3600 attempts) ∧
      answer Python.ascii { maxFailures := 2 } (attemptsAt 2 attempts) 2 ≠ some [] ∧
      answer Python.ascii { maxFailures := 2 } (attemptsAt 3600 attempts) 2 = some [] ∧
      ¬ DelayIndependent Python.ascii { maxFailures := 2 } events := by
  intro attempts events
  have hprocessed : ∀ clock,
      Processed { maxFailures := 2 } events (attemptsAt clock attempts) := by
    intro clock
    have h := @processed_attemptsAt { maxFailures := 2 } (by decide) clock attempts (by decide)
      (by decide)
    rwa [map_event_attemptsAt clock 2] at h
  have hanswer : ∀ clock, answer Python.ascii { maxFailures := 2 } (attemptsAt clock attempts) 2 =
      some [] ↔ ((live { maxFailures := 2 }
        (arrivals "203.0.113.9" (attemptsAt clock (attempts.take 2)) ++
          [Sighting.auth "c" .authSuccess "203.0.113.9" 2 clock])).length : ℤ) < 2 := by
    intro clock
    have hp : Processed { maxFailures := 2 } events (attemptsAt clock (attempts.take 2) ++
      Sighting.auth "c" .authSuccess "203.0.113.9" 2 clock :: []) := hprocessed clock
    have hc :
        concerns "203.0.113.9" (Sighting.auth "c" .authSuccess "203.0.113.9" 2 clock) = true := by
      have hzero :
          concerns "203.0.113.9" (Sighting.auth "c" .authSuccess "203.0.113.9" 2 0) = true := by
        decide +kernel
      exact hzero
    have heq := @answer_eq Python.ascii { maxFailures := 2 }
      (Sighting.auth "c" .authSuccess "203.0.113.9" 2 clock) (attemptsAt clock (attempts.take 2)) []
    rw [hp.detectionsIn hc] at heq
    change answer _ _ (attemptsAt clock attempts) 2 = _ at heq
    rw [heq]
    split_ifs with hcount <;> simp [hcount]
  have hseen : answer Python.ascii { maxFailures := 2 } (attemptsAt 2 attempts) 2 ≠ some [] :=
    (hanswer 2).not.mpr (by decide +kernel)
  have hmissed : answer Python.ascii { maxFailures := 2 } (attemptsAt 3600 attempts) 2 = some [] :=
    (hanswer 3600).mpr (by decide +kernel)
  refine ⟨fun a ha => ?_, by decide +kernel, hprocessed 2, hprocessed 3600,
    hseen, hmissed, fun h => ?_⟩
  · have hday : ∀ a ∈ attempts, a.2.2 ≤ 86400 := by decide
    exact Sighting.fromRaw_auth a.1 a.2.1 "203.0.113.9" (hday a ha) 2
  · exact hseen ((h.same _ _ (hprocessed 2) (hprocessed 3600) 2).trans hmissed)

end SiemEngine.BruteForce

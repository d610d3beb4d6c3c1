import SiemEngine.Detection.BruteForceWindow
import SiemEngine.Detection.Tokens

/-!
# Brute force under processing delay

A failure is measured at its own timestamp and a success at the wall clock, and measuring
deletes what it finds too old. Two engines that process one ordered stream at different
instants therefore agree as long as no success falls between failures of one window or
behind a window that has reached the threshold, and not otherwise.
-/

namespace SiemEngine.BruteForce

def fails (ip : String) (ev : SecurityEvent) : Bool :=
  ev.eventType = .authFailure && ev.sourceText = some ip

def succeeds (ip : String) (ev : SecurityEvent) : Bool :=
  ev.eventType = .authSuccess && ev.sourceText = some ip

/-- The earlier failures of the IP that a failure counts, as the code computes cutoffs. -/
def recent (p : Params) (ip : String) (before : List SecurityEvent) (f : SecurityEvent) :
    List SecurityEvent :=
  before.filter fun e => fails ip e && Binary64.sub f.epoch p.bruteForceWindow < e.epoch

variable {py : Python} {p : Params} {ip : String} {o : Sighting}

theorem concerns_iff_event : concerns ip o ↔ fails ip o.event ∨ succeeds ip o.event := by
  rw [concerns_iff]
  cases hip : o.event.sourceIp with
  | none => simp [fails, succeeds, SecurityEvent.sourceText, hip]
  | some a => simp [appliesTo, fails, succeeds, hip, or_and_right]

theorem concerns_and_isFailure : (concerns ip o && isFailure o) = fails ip o.event := by
  rw [Bool.eq_iff_iff, Bool.and_eq_true, concerns_iff_event]
  by_cases hsucc : o.event.eventType = .authSuccess <;> simp [isFailure, fails, succeeds, hsucc]

theorem isFailure_of_fails (h : fails ip o.event) : concerns ip o ∧ isFailure o :=
  Bool.and_eq_true_iff.mp (concerns_and_isFailure.trans h)

theorem eventType_of_succeeds {ev : SecurityEvent} (h : succeeds ip ev) :
    ev.eventType = .authSuccess :=
  of_decide_eq_true (Bool.and_eq_true_iff.mp h).1

theorem not_isFailure_of_succeeds (h : succeeds ip o.event) : isFailure o = false := by
  simp [isFailure, eventType_of_succeeds h]

theorem cutoff_of_success (h : o.event.eventType = .authSuccess) :
    (reading p).cutoff o =
      Binary64.sub (Datetime.timestamp (tick o).clock) p.bruteForceWindow := by
  simp [reading, measuredAt, h]

theorem map_event_recent (as : List Sighting) (f : SecurityEvent) :
    ((arrivals ip as).filter fun a => (reading p).adds a &&
      decide (Binary64.sub f.epoch p.bruteForceWindow < (reading p).score a)).map Sighting.event =
        recent p ip (as.map Sighting.event) f := by
  rw [recent, List.filter_map, arrivals, List.filter_filter]
  congr 1
  refine List.filter_congr fun a _ => ?_
  rw [Bool.and_right_comm, Bool.and_comm _ (concerns ip a)]
  exact congrArg (fun b => b && _) concerns_and_isFailure

/-- A stream as some engine processed it: the rule is enabled and does not raise, tokens
tell the members apart, and no evaluation finds its key expired. -/
structure Processed (p : Params) (events : List SecurityEvent) (os : List Sighting) : Prop where
  events : os.map Sighting.event = events
  watched : ∀ o ∈ os, o.Watched .bruteForce
  distinct : ∀ ip, DistinctMembers (arrivals ip os)
  unexpired : ∀ ip, (reading p).Unexpired none (arrivals ip os)

def answer (py : Python) (p : Params) (os : List Sighting) (i : ℕ) : Option (List Detection) :=
  os[i]?.map fun o =>
    Rule.bruteForce.detectionsIn (o.evaluate py p (Sighting.after py p [] (os.take i))).2

def Within (p : Params) (e s : SecurityEvent) : Prop :=
  s.timestamp - e.timestamp < p.bruteForceWindow * Datetime.microsPerSecond

instance (p : Params) (e s : SecurityEvent) : Decidable (Within p e s) :=
  inferInstanceAs (Decidable (_ < _))

def preceding (p : Params) (ip : String) (before : List SecurityEvent) (s : SecurityEvent) :
    List SecurityEvent :=
  before.filter fun e => fails ip e && Within p e s

/-- The answers do not depend on when the events of the stream are processed. -/
structure DelayIndependent (py : Python) (p : Params) (events : List SecurityEvent) : Prop where
  same : ∀ os os', Processed p events os → Processed p events os' →
    ∀ i, answer py p os i = answer py p os' i
  breach : ∀ os, Processed p events os → ∀ ip pre s post, os = pre ++ s :: post →
    succeeds ip s.event → p.maxFailures ≤ (preceding p ip (pre.map Sighting.event) s.event).length →
    ∃ ds, answer py p os pre.length = some ds ∧ ∃ d ∈ ds, d.severity = .critical
  unobtrusive : ∀ pre s mid f post, Processed p events (pre ++ s :: mid ++ f :: post) →
    ∀ ip, s.event.eventType = .authSuccess → fails ip f.event →
    (observe p (tick f) f.event ip (Sighting.after py p [] (pre ++ s :: mid))).2 =
      (observe p (tick f) f.event ip (Sighting.after py p [] (pre ++ mid))).2

/-- No success of an IP stands between failures of one window, nor behind a failure that
reaches the threshold, nor close behind as many failures as the threshold asks for. -/
structure NoSuccessInSpree (p : Params) (events : List SecurityEvent) : Prop where
  between : ∀ ip pre s mid f post, events = pre ++ s :: mid ++ f :: post →
    succeeds ip s → fails ip f → ∀ e ∈ pre, fails ip e →
    e.epoch ≤ Binary64.sub f.epoch p.bruteForceWindow
  behind : ∀ ip pre f mid s post, events = pre ++ f :: mid ++ s :: post →
    fails ip f → (∀ e ∈ mid, ¬ fails ip e) → succeeds ip s →
    (recent p ip pre f).length + 1 < p.maxFailures
  close : ∀ ip pre s post, events = pre ++ s :: post → succeeds ip s → 0 < p.maxFailures →
    (preceding p ip pre s).length < p.maxFailures

theorem toResult_congr {as bs : List Sighting}
    (h : as.map Sighting.event = bs.map Sighting.event) (hne : as ≠ []) (now now' : ℚ) :
    Windows.toResult (as.map entry) now = Windows.toResult (bs.map entry) now' := by
  have hvalues : (as.map entry).map (fun e => Windows.decode e.1) =
      (bs.map entry).map fun e => Windows.decode e.1 := by
    have hshown : ∀ o, Windows.decode (entry o).1 = Windows.decode (o.event.user.getD "-") :=
      fun o => Windows.decode_encode _ _
    simp only [List.map_map, Function.comp_def, hshown]
    have hmap := congrArg (List.map fun ev => Windows.decode (ev.user.getD "-")) h
    simpa only [List.map_map, Function.comp_def] using hmap
  have hscores : (as.map entry).map Prod.snd = (bs.map entry).map Prod.snd := by
    have hmap := congrArg (List.map SecurityEvent.epoch) h
    simpa only [List.map_map, Function.comp_def, entry] using hmap
  have hlen : as.length = bs.length := by
    simpa only [List.length_map] using congrArg List.length h
  cases as with
  | nil => exact absurd rfl hne
  | cons a as =>
    cases bs with
    | nil => cases hlen
    | cons b bs =>
      simp only [List.map_cons, List.cons.injEq] at hscores hvalues
      simp only [List.map_cons, Windows.toResult, WindowResult.mk.injEq]
      refine ⟨by simpa using hlen, by rw [hvalues.1, hvalues.2], ?_, ?_⟩
      · rw [hscores.1, ← List.foldl_map (f := Prod.snd) (g := min), hscores.2, List.foldl_map]
      · rw [hscores.1, ← List.foldl_map (f := Prod.snd) (g := max), hscores.2, List.foldl_map]

theorem exists_split {os : List Sighting} {xs ys : List Sighting} {c : Sighting}
    (h : arrivals ip os = xs ++ c :: ys) :
    ∃ pre mid, os = pre ++ c :: mid ∧ arrivals ip pre = xs ∧ arrivals ip mid = ys := by
  obtain ⟨ls, rs, rfl, hls, hrs⟩ := List.filter_eq_append_iff.mp h
  obtain ⟨gap, mid, rfl, hgap, -, hmid⟩ := List.filter_eq_cons_iff.mp hrs
  refine ⟨ls ++ gap, mid, by rw [List.append_assoc], ?_, hmid⟩
  have hnone : gap.filter (concerns ip) = [] := List.filter_eq_nil_iff.mpr hgap
  rw [arrivals, List.filter_append, hls, hnone, List.append_nil]

theorem arrivals_append (os os' : List Sighting) :
    arrivals ip (os ++ os') = arrivals ip os ++ arrivals ip os' := List.filter_append ..

theorem arrivals_cons (o : Sighting) (os : List Sighting) :
    arrivals ip (o :: os) = (if concerns ip o then [o] else []) ++ arrivals ip os := by
  by_cases h : concerns ip o <;> simp [arrivals, h]

variable {events : List SecurityEvent} {pre post : List Sighting}

theorem Processed.split (hp : Processed p events (pre ++ o :: post)) :
    events = pre.map Sighting.event ++ o.event :: post.map Sighting.event := by
  rw [← hp.events, List.map_append, List.map_cons]

theorem live_concat_failure {as : List Sighting} (hunexp : (reading p).Unexpired none (as ++ [o]))
    (ho : isFailure o) (hord : ∀ c ∈ as, c.event.timestamp ≤ o.event.timestamp)
    (hsucc : ∀ xs c ys, as = xs ++ c :: ys → isFailure c = false → ∀ a ∈ xs, isFailure a →
      (reading p).cutoff o < a.event.epoch → (reading p).cutoff c < a.event.epoch) :
    live p (as ++ [o]) =
      as.filter (fun a => isFailure a && decide
        (Binary64.sub o.event.epoch p.bruteForceWindow < a.event.epoch)) ++ [o] := by
  rw [← cutoff_of_isFailure ho]
  refine hunexp.survivors_concat_filter ho fun xs a ys heq ha hlt c hc => ?_
  by_cases hfail : isFailure c
  · rw [cutoff_of_isFailure hfail]
    rw [cutoff_of_isFailure ho] at hlt
    have hmem : c ∈ as := heq ▸ List.mem_append_right xs (List.mem_cons_of_mem a hc)
    exact (Binary64.sub_mono (SecurityEvent.epoch_mono (hord c hmem)) le_rfl).trans_lt hlt
  · obtain ⟨ys, zs, rfl⟩ := List.mem_iff_append.mp hc
    exact hsucc (xs ++ a :: ys) c zs (by rw [heq, List.append_assoc]; rfl)
      (Bool.eq_false_iff.mpr hfail) a (by simp) ha hlt

theorem Processed.unexpired_prefix (hp : Processed p events (pre ++ o :: post))
    (hc : concerns ip o) : (reading p).Unexpired none (arrivals ip pre ++ [o]) := by
  have hunexp := hp.unexpired ip
  rw [arrivals_append, arrivals_cons, if_pos hc, ← List.append_assoc] at hunexp
  exact (Retention.Reading.unexpired_append.mp hunexp).1

theorem timestamp_le (hord : (pre.map Sighting.event ++ o.event :: post.map Sighting.event).Pairwise
    fun e f => e.timestamp ≤ f.timestamp) :
    ∀ c ∈ arrivals ip pre, c.event.timestamp ≤ o.event.timestamp := by
  intro c hc
  have hmem : c ∈ pre := (List.mem_filter.mp hc).1
  exact (List.pairwise_append.mp hord).2.2 _ (List.mem_map_of_mem hmem) _ List.mem_cons_self

/-- What a failure finds live is what its own cutoff leaves of the stream. -/
theorem live_of_failure (hn : NoSuccessInSpree p events)
    (hord : events.Pairwise fun e f => e.timestamp ≤ f.timestamp)
    (hp : Processed p events (pre ++ o :: post)) (hf : fails ip o.event) :
    (live p (arrivals ip pre ++ [o])).map Sighting.event =
      recent p ip (pre.map Sighting.event) o.event ++ [o.event] := by
  obtain ⟨hc, hfail⟩ := isFailure_of_fails hf
  have hev := hp.split
  rw [live_concat_failure (hp.unexpired_prefix hc) hfail (timestamp_le (hev ▸ hord)),
    List.map_append, ← map_event_recent]
  · rfl
  · intro xs c ys heq hcs a ha hfa hlt
    obtain ⟨pre, mid, rfl, rfl, -⟩ := exists_split heq
    have hconc : concerns ip c := by
      have hmem : c ∈ arrivals ip (pre ++ c :: mid) := by rw [heq]; simp
      exact (List.mem_filter.mp hmem).2
    have hsc : succeeds ip c.event := by
      rcases concerns_iff_event.mp hconc with h | h
      · exact absurd (isFailure_of_fails h).2 (by simp [hcs])
      · exact h
    obtain ⟨hapre, hcona⟩ := List.mem_filter.mp ha
    have hfa : fails ip a.event :=
      concerns_and_isFailure.symm.trans (Bool.and_eq_true_iff.mpr ⟨hcona, hfa⟩)
    rw [List.map_append, List.map_cons] at hev
    have hold := hn.between ip _ _ _ _ _ hev hsc hf a.event (List.mem_map_of_mem hapre) hfa
    rw [cutoff_of_isFailure hfail] at hlt
    exact absurd hlt (not_lt.mpr hold)

theorem exists_last_failure (h : ∃ a ∈ pre, fails ip a.event) :
    ∃ xs f ys, pre = xs ++ f :: ys ∧ fails ip f.event ∧ ∀ y ∈ ys, ¬ fails ip y.event := by
  induction pre with
  | nil => obtain ⟨a, ha, -⟩ := h; exact absurd ha List.not_mem_nil
  | cons b pre ih =>
    by_cases hlater : ∃ a ∈ pre, fails ip a.event
    · obtain ⟨xs, f, ys, rfl, hf, hys⟩ := ih hlater
      exact ⟨b :: xs, f, ys, rfl, hf, hys⟩
    · obtain ⟨a, ha, hfa⟩ := h
      rcases List.mem_cons.mp ha with rfl | ha
      · exact ⟨[], a, pre, rfl, hfa, fun y hy hfy => hlater ⟨y, hy, hfy⟩⟩
      · exact absurd ⟨a, ha, hfa⟩ hlater

theorem not_adds_of_not_fails (h : ∀ a ∈ pre, ¬ fails ip a.event) :
    ∀ a ∈ arrivals ip pre, (reading p).adds a = false := by
  intro a ha
  obtain ⟨hmem, hc⟩ := List.mem_filter.mp ha
  have hnone := h a hmem
  rw [← concerns_and_isFailure, hc, Bool.true_and] at hnone
  exact Bool.eq_false_iff.mpr hnone

theorem live_eq_nil (h : ∀ a ∈ pre, ¬ fails ip a.event) (ho : isFailure o = false) :
    live p (arrivals ip pre ++ [o]) = [] :=
  Retention.Reading.survivors_eq_nil fun a ha => by
    rcases List.mem_append.mp ha with ha | ha
    · exact not_adds_of_not_fails h a ha
    · rwa [List.mem_singleton.mp ha]

theorem length_live_lt (hn : NoSuccessInSpree p events)
    (hp : Processed p events (pre ++ o :: post)) (hs : succeeds ip o.event)
    (hbefore : ∃ a ∈ pre, fails ip a.event) :
    ((live p (arrivals ip pre ++ [o])).length : ℤ) < p.maxFailures := by
  obtain ⟨xs, f, ys, rfl, hf, hys⟩ := exists_last_failure hbefore
  obtain ⟨hc, hfail⟩ := isFailure_of_fails hf
  have hev := hp.split
  rw [List.map_append, List.map_cons] at hev
  have hlast := hn.behind ip _ _ _ _ _ hev hf
    (fun e he => by obtain ⟨y, hy, rfl⟩ := List.mem_map.mp he; exact hys y hy) hs
  have hidle : ∀ b ∈ arrivals ip ys ++ [o], (reading p).adds b = false := by
    intro b hb
    rcases List.mem_append.mp hb with hb | hb
    · exact not_adds_of_not_fails hys b hb
    · rw [List.mem_singleton.mp hb]
      exact not_isFailure_of_succeeds hs
  have hdrop := Retention.Reading.survivors_append_sublist (arrivals ip xs ++ [f]) hidle
  have hreach := Retention.Reading.survivors_concat_sublist (r := reading p) (arrivals ip xs) f
  rw [if_pos (show (reading p).adds f from hfail), cutoff_of_isFailure hfail] at hreach
  have hle := (hdrop.trans hreach).length_le
  rw [List.length_append] at hle
  rw [← map_event_recent, List.length_map] at hlast
  have harr : arrivals ip (xs ++ f :: ys) ++ [o] =
      (arrivals ip xs ++ [f]) ++ (arrivals ip ys ++ [o]) := by
    rw [arrivals_append, arrivals_cons, if_pos hc]
    simp only [List.append_assoc]
  rw [harr]
  exact lt_of_le_of_lt (Int.ofNat_le.mpr hle) hlast

theorem detectionsIn_of_not_concerns (ho : o.Watched .bruteForce) (hc : ∀ ip, ¬ concerns ip o)
    (ws : Windows) : Rule.bruteForce.detectionsIn (o.evaluate py p ws).2 = [] := by
  have hskip : ¬ Rule.bruteForce.appliesTo py o.event := by
    intro happlies
    cases hip : o.event.sourceText with
    | none =>
      have hnone : o.event.sourceIp = none := Option.map_eq_none_iff.mp hip
      simp [Rule.appliesTo, appliesTo, hnone] at happlies
    | some ip => exact hc ip (concerns_iff.mpr ⟨happlies, hip⟩)
  rw [Sighting.detectionsIn_evaluate, Sighting.attempt_of_watched ho, if_neg hskip]
  rfl

theorem answer_eq (o : Sighting) (pre post : List Sighting) :
    answer py p (pre ++ o :: post) pre.length =
      some (Rule.bruteForce.detectionsIn (o.evaluate py p (Sighting.after py p [] pre)).2) := by
  rw [answer, List.getElem?_append_right le_rfl, Nat.sub_self, List.take_left]
  rfl

theorem Processed.detectionsIn (hp : Processed p events (pre ++ o :: post)) (hc : concerns ip o) :
    Rule.bruteForce.detectionsIn (o.evaluate py p (Sighting.after py p [] pre)).2 =
      if ((live p (arrivals ip pre ++ [o])).length : ℤ) < p.maxFailures then []
      else [(detection py p o.event ip (measured p ip pre o)
        (o.event.eventType = .authSuccess)).unstamped] := by
  have hsub : (pre ++ [o]).Sublist (pre ++ o :: post) :=
    (List.Sublist.refl pre).append (List.singleton_sublist.mpr List.mem_cons_self)
  exact detectionsIn_after (e := none) rfl (fun o' ho' => hp.watched o' (hsub.subset ho')) hc
    ((hp.distinct ip).sublist (hsub.filter _))

theorem detection_of_empty (ev : SecurityEvent) (now now' : ℚ) (breached : Bool) :
    detection py p ev ip ⟨0, [], now, now⟩ breached =
      detection py p ev ip ⟨0, [], now', now'⟩ breached := by
  simp [detection, WindowResult.spanSeconds]

theorem detectionsIn_congr (hn : NoSuccessInSpree p events)
    (hord : events.Pairwise fun e f => e.timestamp ≤ f.timestamp) {pre' post' : List Sighting}
    {o' : Sighting} (hp : Processed p events (pre ++ o :: post))
    (hp' : Processed p events (pre' ++ o' :: post'))
    (hpre : pre.map Sighting.event = pre'.map Sighting.event) (ho : o.event = o'.event) :
    Rule.bruteForce.detectionsIn (o.evaluate py p (Sighting.after py p [] pre)).2 =
      Rule.bruteForce.detectionsIn (o'.evaluate py p (Sighting.after py p [] pre')).2 := by
  have hboth : ∀ ip, concerns ip o ↔ concerns ip o' := by
    intro ip
    rw [concerns_iff_event, concerns_iff_event, ho]
  by_cases hconc : ∃ ip, concerns ip o
  · obtain ⟨ip, hc⟩ := hconc
    rw [hp.detectionsIn hc, hp'.detectionsIn ((hboth ip).mp hc), ← ho]
    rcases concerns_iff_event.mp hc with hf | hs
    · have hlive := live_of_failure hn hord hp hf
      have hlive' := live_of_failure hn hord hp' (ho ▸ hf)
      rw [← ho, ← hpre] at hlive'
      have hmap := hlive.trans hlive'.symm
      have hne : live p (arrivals ip pre ++ [o]) ≠ [] := by
        intro hnil
        rw [hnil] at hlive
        simp at hlive
      rw [measured, measured, toResult_congr hmap hne _ (measuredAt o'),
        ← List.length_map Sighting.event, hmap, List.length_map]
    · by_cases hbefore : ∃ a ∈ pre, fails ip a.event
      · have hbefore' : ∃ a ∈ pre', fails ip a.event := by
          obtain ⟨a, ha, hfa⟩ := hbefore
          obtain ⟨a', ha', heq⟩ := List.mem_map.mp (hpre ▸ List.mem_map_of_mem ha)
          exact ⟨a', ha', heq ▸ hfa⟩
        rw [if_pos (length_live_lt hn hp hs hbefore),
          if_pos (length_live_lt hn hp' (ho ▸ hs) hbefore')]
      · push Not at hbefore
        have hbefore' : ∀ a ∈ pre', ¬ fails ip a.event := by
          intro a' ha'
          obtain ⟨a, ha, heq⟩ := List.mem_map.mp (hpre ▸ List.mem_map_of_mem ha')
          exact heq ▸ hbefore a ha
        rw [measured, measured, live_eq_nil hbefore (not_isFailure_of_succeeds hs),
          live_eq_nil hbefore' (not_isFailure_of_succeeds (ho ▸ hs))]
        simp only [Windows.toResult, List.map_nil, List.length_nil]
        rw [detection_of_empty o.event (measuredAt o) (measuredAt o')]
  · have hnone : ∀ ip, ¬ concerns ip o := fun ip hc => hconc ⟨ip, hc⟩
    rw [detectionsIn_of_not_concerns (hp.watched o (by simp)) hnone,
      detectionsIn_of_not_concerns (hp'.watched o' (by simp))
        fun ip hc => hnone ip ((hboth ip).mpr hc)]

theorem exists_append_of_getElem? {α : Type*} {xs : List α} {i : ℕ} {x : α} (h : xs[i]? = some x) :
    ∃ pre post, xs = pre ++ x :: post ∧ pre.length = i := by
  obtain ⟨hi, rfl⟩ := List.getElem?_eq_some_iff.mp h
  refine ⟨xs.take i, xs.drop (i + 1), ?_, List.length_take_of_le hi.le⟩
  rw [← List.drop_eq_getElem_cons hi, List.take_append_drop]

theorem answer_congr (hn : NoSuccessInSpree p events)
    (hord : events.Pairwise fun e f => e.timestamp ≤ f.timestamp) {os os' : List Sighting}
    (hp : Processed p events os) (hp' : Processed p events os') (i : ℕ) :
    answer py p os i = answer py p os' i := by
  have hev : ∀ {os}, Processed p events os → events[i]? = os[i]?.map Sighting.event := by
    intro os hp
    rw [← hp.events, List.getElem?_map]
  cases ho : os[i]? with
  | none =>
    have ho' : os'[i]? = none := by
      have hnone := (hev hp').symm.trans (hev hp)
      rw [ho] at hnone
      exact Option.map_eq_none_iff.mp hnone
    rw [answer, answer, ho, ho', Option.map_none, Option.map_none]
  | some o =>
    obtain ⟨o', ho', heq⟩ : ∃ o', os'[i]? = some o' ∧ o'.event = o.event := by
      have hsome := (hev hp').symm.trans (hev hp)
      rw [ho] at hsome
      exact Option.map_eq_some_iff.mp hsome
    obtain ⟨pre, post, rfl, hlen⟩ := exists_append_of_getElem? ho
    obtain ⟨pre', post', rfl, hlen'⟩ := exists_append_of_getElem? ho'
    have hpre : pre.map Sighting.event = pre'.map Sighting.event := by
      have hsplit := hp.split.symm.trans hp'.split
      exact (List.append_inj hsplit (by simp [hlen, hlen'])).1
    rw [← hlen, answer_eq, hlen, ← hlen', answer_eq,
      detectionsIn_congr hn hord hp hp' hpre heq.symm]

theorem Processed.observe_eq {os os' : List Sighting} (hp : Processed p events os)
    (hsub : (os' ++ [o]).Sublist os) (hc : concerns ip o) :
    (observe p (tick o) o.event ip (Sighting.after py p [] os')).2 =
      Windows.toResult ((live p (arrivals ip os' ++ [o])).map entry) (measuredAt o) := by
  have hpre : os'.Sublist os := (List.sublist_append_left os' [o]).trans hsub
  have hslot := @slot_after p ip py [] none rfl os'
    (fun o' ho' => hp.watched o' (hpre.subset ho')) ((hp.distinct ip).sublist (hpre.filter _))
  have hdist : DistinctMembers (arrivals ip os' ++ [o]) := by
    have hd := (hp.distinct ip).sublist (hsub.filter (concerns ip))
    rwa [← arrivals, arrivals_concat, if_pos hc] at hd
  exact (BruteForce.observe_eq hslot (member_notMem_live hdist)).1

theorem observe_skip (hn : NoSuccessInSpree p events) {s f : Sighting} {mid : List Sighting}
    (hp : Processed p events (pre ++ s :: mid ++ f :: post))
    (hs : s.event.eventType = .authSuccess) (hf : fails ip f.event) :
    (observe p (tick f) f.event ip (Sighting.after py p [] (pre ++ s :: mid))).2 =
      (observe p (tick f) f.event ip (Sighting.after py p [] (pre ++ mid))).2 := by
  obtain ⟨hc, hfail⟩ := isFailure_of_fails hf
  have hlast : [f].Sublist (f :: post) := List.singleton_sublist.mpr List.mem_cons_self
  have hskip : (pre ++ mid).Sublist (pre ++ s :: mid) :=
    (List.Sublist.refl pre).append (List.sublist_cons_self s mid)
  rw [hp.observe_eq ((List.Sublist.refl _).append hlast) hc, hp.observe_eq (hskip.append hlast) hc]
  have hev := hp.split
  rw [List.map_append, List.map_cons] at hev
  by_cases hconc : concerns ip s
  · have hsucc : succeeds ip s.event := by
      rcases concerns_iff_event.mp hconc with h | h
      · simp [fails, hs] at h
      · exact h
    have hcut : ∀ a ∈ arrivals ip pre, (reading p).adds a →
        (reading p).score a ≤ (reading p).cutoff f := by
      intro a ha hadds
      obtain ⟨hmem, hca⟩ := List.mem_filter.mp ha
      rw [cutoff_of_isFailure hfail]
      exact hn.between ip _ _ _ _ _ hev hsucc hf a.event (List.mem_map_of_mem hmem)
        (concerns_and_isFailure.symm.trans (Bool.and_eq_true_iff.mpr ⟨hca, hadds⟩))
    have hadds : (reading p).adds s = false := not_isFailure_of_succeeds hsucc
    rw [arrivals_append, arrivals_append, arrivals_cons, if_pos hconc]
    simp only [List.append_assoc, List.cons_append, List.nil_append]
    rw [live, live, Retention.Reading.survivors_append_of_cut (b := f) (by simp) hcut,
      Retention.Reading.survivors_append_of_cut (b := f) (by simp) hcut,
      Retention.Reading.survivors_cons_of_not_adds hadds]
  · rw [arrivals_append, arrivals_append, arrivals_cons, if_neg hconc, List.nil_append]

theorem breach_of_noSuccess (hn : NoSuccessInSpree p events)
    (hp : Processed p events (pre ++ o :: post)) (hs : succeeds ip o.event)
    (hmany : p.maxFailures ≤ (preceding p ip (pre.map Sighting.event) o.event).length) :
    ∃ ds, answer py p (pre ++ o :: post) pre.length = some ds ∧
      ∃ d ∈ ds, d.severity = .critical := by
  -- only a threshold that every window reaches leaves something to show
  have hzero : p.maxFailures ≤ 0 := by
    by_contra hpos
    exact absurd hmany (not_le.mpr (hn.close ip _ _ _ hp.split hs (not_le.mp hpos)))
  have hc : concerns ip o := concerns_iff_event.mpr (Or.inr hs)
  have hcount : ¬ ((live p (arrivals ip pre ++ [o])).length : ℤ) < p.maxFailures :=
    not_lt.mpr (hzero.trans (Int.natCast_nonneg _))
  refine ⟨_, answer_eq o pre post, ?_⟩
  rw [hp.detectionsIn hc, if_neg hcount]
  refine ⟨_, List.mem_singleton_self _, ?_⟩
  simp [Detection.unstamped, detection, eventType_of_succeeds hs]

end SiemEngine.BruteForce

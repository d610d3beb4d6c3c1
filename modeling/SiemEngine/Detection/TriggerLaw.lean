import Mathlib.Algebra.Order.BigOperators.Group.List
import Mathlib.Data.List.Dedup
import SiemEngine.Detection.Triggers

/-!
# The documented trigger law

The rules document says of each window rule that it fires on more than its threshold of a
quantity of the stream: failures or distinct usernames or ports of a source, outbound bytes of
a pair, source addresses of the successful logins of an account. Here the quantity is read off
the events as the document does. What decides whether the rule agrees with it are the events
that its key has not lost and that it tells apart.
-/

namespace SiemEngine.WindowRule

section

variable (py : Python) (p : Params) (r : WindowRule)

/-- The events that the documented quantity is about. -/
def measures (ev : SecurityEvent) : Bool :=
  r.admits py ev && (r ≠ .authAnomaly || ev.eventType = .authSuccess)

def subject (ev : SecurityEvent) : Option String × Option String :=
  match r with
  | .bruteForce | .passwordSpray | .portScan => (ev.sourceText, none)
  | .dataExfiltration => (ev.sourceText, ev.destinationText)
  | .authAnomaly => (ev.user, none)

def quantity (evs : List SecurityEvent) : ℤ :=
  match r with
  | .bruteForce => evs.length
  | .passwordSpray => (evs.map SecurityEvent.user).dedup.length
  | .portScan => (evs.map SecurityEvent.destinationPort).dedup.length
  | .dataExfiltration => (evs.map fun ev => (ev.bytesOut.val : ℤ)).sum
  | .authAnomaly => (evs.map SecurityEvent.sourceText).dedup.length

/-- A measured event of the same subject within `(t - window, t]`. -/
def InInterval (ev a : SecurityEvent) : Prop :=
  r.measures py a ∧ r.subject a = r.subject ev ∧
    ev.timestamp - r.window p * Datetime.microsPerSecond < a.timestamp ∧
      a.timestamp ≤ ev.timestamp

instance (ev a : SecurityEvent) : Decidable (r.InInterval py p ev a) :=
  inferInstanceAs (Decidable (_ ∧ _))

def interval (os : List Sighting) (ev : SecurityEvent) : List SecurityEvent :=
  (os.map Sighting.event).filter fun a => r.InInterval py p ev a

/-- What the rule tells an event by. -/
def value (ev : SecurityEvent) : String :=
  match r with
  | .passwordSpray => Windows.decode (py.lower (ev.user.getD "-"))
  | .portScan => Windows.decode (shownPort ev.destinationPort)
  | .authAnomaly => Windows.decode (ev.sourceText.getD "")
  | .bruteForce | .dataExfiltration => ""

/-- The rule takes each of the events for another value, and RULE-002 each for a user. -/
def TellsApart (evs : List SecurityEvent) : Prop :=
  match r with
  | .bruteForce | .dataExfiltration => True
  | .passwordSpray => evs.Pairwise (fun a b => r.value py a ≠ r.value py b) ∧
      ∀ ev ∈ evs, r.value py ev ≠ "" ∧ r.value py ev ≠ "-"
  | .portScan | .authAnomaly => evs.Pairwise fun a b => r.value py a ≠ r.value py b

def Distinguishes (evs : List SecurityEvent) : Prop :=
  match r with
  | .bruteForce | .dataExfiltration => True
  | .passwordSpray => Set.InjOn (fun user => Windows.decode (py.lower (user.getD "-")))
        {user | user ∈ evs.map SecurityEvent.user} ∧
      ∀ ev ∈ evs, r.value py ev ≠ "" ∧ r.value py ev ≠ "-"
  | .portScan => Set.InjOn (fun port => Windows.decode (shownPort port))
      {port | port ∈ evs.map SecurityEvent.destinationPort}
  | .authAnomaly => Set.InjOn (fun ip => Windows.decode (ip.getD ""))
      {ip | ip ∈ evs.map SecurityEvent.sourceText}

/-- The events of the interval are those that stand under the key of the event, and the rule
tells their data apart. -/
structure Plain (os : List Sighting) (i : ℕ) (ev : SecurityEvent) : Prop where
  counts : r.counts py ev
  stands : ∀ k < i + 1, ∀ a ∈ os[k]?,
    ((r.reading py p).Stands (r.concerns py ev) os k (i + 1) ↔ r.InInterval py p ev a.event)
  distinguishes : r.Distinguishes py (r.interval py p (os.take (i + 1)) ev)

/-- From some event on whose key has lost none since, events that the rule tells apart amount
to the threshold. -/
def Amounts (os : List Sighting) (i : ℕ) (ev : SecurityEvent) : Prop :=
  r.counts py ev ∧ ∃ j, (r.reading py p).Stands (r.concerns py ev) os j (i + 1) ∧
    ∃ evs, evs.Sublist (((r.reading py p).since (r.concerns py ev) os j (i + 1)).map
      Sighting.event) ∧ r.TellsApart py evs ∧ r.threshold p ≤ r.quantity evs

end

variable {py : Python} {p : Params} {r : WindowRule} {o : Sighting} {os : List Sighting}
  {evs : List SecurityEvent}

theorem length_dedup_map {α : Type*} [DecidableEq α] (f : SecurityEvent → α) (g : α → String)
    (h : evs.Pairwise fun a b => g (f a) ≠ g (f b)) : (evs.map f).dedup.length = evs.length := by
  have hnodup : (evs.map f).Nodup := List.pairwise_map.mpr (h.imp fun hne heq => hne (by rw [heq]))
  rw [hnodup.dedup, List.length_map]

theorem length_le_dedup_map {evs' : List SecurityEvent} (f : SecurityEvent → String)
    (hsub : evs.Sublist evs') (h : evs.Pairwise fun a b => f a ≠ f b) :
    evs.length ≤ (evs'.map f).dedup.length := by
  have hnodup : (evs.map f).Nodup := List.pairwise_map.mpr h
  rw [← List.length_map f]
  exact (hnodup.subperm fun v hv => List.mem_dedup.mpr ((hsub.map f).subset hv)).length_le

theorem exists_apart (f : SecurityEvent → String) (evs : List SecurityEvent) :
    ∃ evs' : List SecurityEvent, evs'.Sublist evs ∧ evs'.Pairwise (fun a b => f a ≠ f b) ∧
      evs'.map f = (evs.map f).dedup := by
  let apart : SecurityEvent → SecurityEvent → Prop := fun a b => f a ≠ f b
  exact ⟨evs.pwFilter apart, List.pwFilter_sublist (R := apart) evs,
    List.pairwise_pwFilter (R := apart) evs, (List.pwFilter_map (R := (· ≠ ·)) f evs).symm⟩

theorem threshold_le_dedup_iff {α : Type*} [DecidableEq α] (f : SecurityEvent → α)
    (g : α → String) (n : ℤ) : n ≤ (evs.map fun ev => g (f ev)).dedup.length ↔
      ∃ evs' : List SecurityEvent, evs'.Sublist evs ∧
        evs'.Pairwise (fun a b => g (f a) ≠ g (f b)) ∧ n ≤ (evs'.map f).dedup.length := by
  constructor
  · intro h
    obtain ⟨evs', hsub, hapart, hmap⟩ := exists_apart (fun ev => g (f ev)) evs
    rw [← hmap, List.length_map] at h
    exact ⟨evs', hsub, hapart, by rwa [length_dedup_map f g hapart]⟩
  · rintro ⟨evs', hsub, hapart, hle⟩
    rw [length_dedup_map f g hapart] at hle
    exact hle.trans (Int.ofNat_le.mpr (length_le_dedup_map _ hsub hapart))

/-- RULE-002 counts only the events that name a user. -/
theorem threshold_le_users_iff (n : ℤ) : n ≤ passwordSpray.observed py evs ↔
    ∃ evs' : List SecurityEvent, evs'.Sublist evs ∧ passwordSpray.TellsApart py evs' ∧
      n ≤ passwordSpray.quantity evs' := by
  have hnamed : passwordSpray.observed py evs = ((evs.filter fun ev =>
      passwordSpray.value py ev ≠ "" ∧ passwordSpray.value py ev ≠ "-").map
        fun ev => Windows.decode (py.lower (ev.user.getD "-"))).dedup.length := by
    refine congrArg Int.ofNat (List.Perm.length_eq ((List.perm_ext_iff_of_nodup
      ((List.nodup_dedup _).filter _) (List.nodup_dedup _)).mpr fun v => ?_))
    simp only [List.mem_filter, List.mem_dedup, List.mem_map, Bool.and_eq_true,
      decide_eq_true_eq]
    constructor
    · rintro ⟨⟨ev, hev, rfl⟩, hname⟩
      exact ⟨ev, ⟨hev, hname⟩, rfl⟩
    · rintro ⟨ev, ⟨hev, hname⟩, rfl⟩
      exact ⟨⟨ev, hev, rfl⟩, hname⟩
  rw [hnamed]
  refine (threshold_le_dedup_iff SecurityEvent.user
    (fun user => Windows.decode (py.lower (user.getD "-"))) n).trans ?_
  constructor
  · rintro ⟨evs', hsub, hapart, hle⟩
    exact ⟨evs', hsub.trans List.filter_sublist,
      ⟨hapart, fun ev hev => of_decide_eq_true (List.mem_filter.mp (hsub.subset hev)).2⟩, hle⟩
  · rintro ⟨evs', hsub, ⟨hapart, hname⟩, hle⟩
    have hfilter := hsub.filter fun ev =>
      passwordSpray.value py ev ≠ "" ∧ passwordSpray.value py ev ≠ "-"
    rw [List.filter_eq_self.mpr fun ev hev => decide_eq_true (hname ev hev)] at hfilter
    exact ⟨evs', hfilter, hapart, hle⟩

theorem threshold_le_observed_iff (n : ℤ) : n ≤ r.observed py evs ↔
    ∃ evs' : List SecurityEvent, evs'.Sublist evs ∧ r.TellsApart py evs' ∧ n ≤ r.quantity evs' := by
  cases r with
  | bruteForce =>
    refine ⟨fun h => ⟨evs, List.Sublist.refl _, trivial, h⟩, ?_⟩
    rintro ⟨evs', hsub, -, hle⟩
    exact hle.trans (Int.ofNat_le.mpr hsub.length_le)
  | dataExfiltration =>
    refine ⟨fun h => ⟨evs, List.Sublist.refl _, trivial, h⟩, ?_⟩
    rintro ⟨evs', hsub, -, hle⟩
    have hbytes := hsub.map fun ev => (ev.bytesOut.val : ℤ)
    refine hle.trans (hbytes.sum_le_sum fun n hn => ?_)
    obtain ⟨ev, -, rfl⟩ := List.mem_map.mp hn
    exact Int.natCast_nonneg _
  | portScan =>
    exact threshold_le_dedup_iff SecurityEvent.destinationPort
      (fun port => Windows.decode (shownPort port)) n
  | authAnomaly =>
    exact threshold_le_dedup_iff SecurityEvent.sourceText
      (fun ip => Windows.decode (ip.getD "")) n
  | passwordSpray =>
    exact threshold_le_users_iff n

theorem score_mono (hord : os.Pairwise fun a b => a.event.timestamp ≤ b.event.timestamp)
    {j k : ℕ} {a b : Sighting} (hjk : j ≤ k) (ha : os[j]? = some a) (hb : os[k]? = some b) :
    (r.reading py p).score a ≤ (r.reading py p).score b := by
  have hle : a.event.epoch ≤ b.event.epoch := by
    rcases hjk.eq_or_lt with rfl | hlt
    · rw [Option.some.inj (ha.symm.trans hb)]
    · obtain ⟨hj, rfl⟩ := List.getElem?_eq_some_iff.mp ha
      obtain ⟨hk, rfl⟩ := List.getElem?_eq_some_iff.mp hb
      exact SecurityEvent.epoch_mono (List.pairwise_iff_getElem.mp hord j k hj hk hlt)
  cases r <;> exact hle

theorem firesAt_iff_amounts (hthr : 0 < r.threshold p) (hw : ∀ o ∈ os, o.Watched r.rule)
    (ht : r.DistinctTokens os)
    (hord : os.Pairwise fun a b => a.event.timestamp ≤ b.event.timestamp) {i : ℕ}
    (ho : os[i]? = some o) (h : r.admits py o.event) :
    r.FiresAt py p os i ↔ r.Amounts py p os i o.event := by
  rw [firesAt_iff hthr hw ht ho h, retained]
  by_cases hcounts : r.counts py o.event
  · rw [if_pos hcounts, threshold_le_observed_iff]
    constructor
    · rintro ⟨evs, hsub, hapart, hle⟩
      have hne : r.kept py p (os.take (i + 1)) o.event ≠ [] := by
        intro hnil
        rw [hnil] at hsub
        rw [List.sublist_nil.mp hsub] at hle
        cases r <;> exact absurd (hthr.trans_le hle) (by decide)
      obtain ⟨j, hstands, hkept⟩ := Retention.Reading.exists_survivors_sublist_since hne
      exact ⟨hcounts, j, hstands, evs, hsub.trans (hkept.map _), hapart, hle⟩
    · rintro ⟨-, j, hstands, evs, hsub, hapart, hle⟩
      have hkept := Retention.Reading.since_sublist_survivors hstands
        fun k a b hjk ha hb _ => score_mono hord hjk ha hb
      exact ⟨evs, hsub.trans (hkept.map _), hapart, hle⟩
  · rw [if_neg hcounts]
    exact iff_of_false (not_le.mpr hthr) fun hamounts => hcounts hamounts.1

theorem length_dedup_eq {α : Type*} [DecidableEq α] {f : SecurityEvent → α} {g : α → String}
    (h : Set.InjOn g {x | x ∈ evs.map f}) :
    (evs.map fun ev => g (f ev)).dedup.length = (evs.map f).dedup.length := by
  have hmap : (evs.map fun ev => g (f ev)) = (evs.map f).map g := List.map_map.symm
  rw [hmap]
  exact (length_dedup_map_eq_iff g (List.Subset.refl _)).mpr ⟨List.Subset.refl _, h⟩

theorem observed_eq_quantity (h : r.Distinguishes py evs) :
    r.observed py evs = r.quantity evs := by
  cases r with
  | bruteForce => rfl
  | dataExfiltration => rfl
  | portScan => exact congrArg Int.ofNat (length_dedup_eq h)
  | authAnomaly => exact congrArg Int.ofNat (length_dedup_eq h)
  | passwordSpray =>
    obtain ⟨hinj, hname⟩ := h
    have hall : ∀ v ∈ (evs.map fun ev => Windows.decode (py.lower (ev.user.getD "-"))).dedup,
        (v ≠ "" && v ≠ "-") = true := by
      intro v hv
      obtain ⟨ev, hev, rfl⟩ := List.mem_map.mp (List.mem_dedup.mp hv)
      have hboth : _ ∧ _ := hname ev hev
      simpa [value] using hboth
    rw [observed, accounts, List.filter_eq_self.mpr hall]
    exact congrArg Int.ofNat (length_dedup_eq hinj)

theorem Plain.kept_eq {i : ℕ} {ev : SecurityEvent} (h : r.Plain py p os i ev) :
    (r.kept py p (os.take (i + 1)) ev).map Sighting.event =
      r.interval py p (os.take (i + 1)) ev := by
  have htake : ∀ q : Sighting → Bool, (os.take (i + 1)).filter q = ((List.range (i + 1)).filter
      fun k => 0 ≤ k ∧ ∃ a ∈ os[k]?, q a).filterMap (os[·]?) := fun q =>
    Retention.filter_drop_take_eq q os 0 (i + 1)
  rw [interval, List.filter_map, kept, Retention.Reading.survivors_take, htake]
  refine congrArg (fun ks : List ℕ => (ks.filterMap (os[·]?)).map Sighting.event)
    (List.filter_congr fun k hk => decide_eq_decide.mpr ?_)
  have hk := List.mem_range.mp hk
  constructor
  · intro hstands
    obtain ⟨a, ha, -⟩ := hstands.2
    exact ⟨k.zero_le, a, ha, decide_eq_true ((h.stands k hk a ha).mp hstands)⟩
  · rintro ⟨-, a, ha, hin⟩
    exact (h.stands k hk a ha).mpr (of_decide_eq_true hin)

theorem Plain.firesAt_iff {i : ℕ} (hthr : 0 < r.threshold p)
    (hw : ∀ o ∈ os, o.Watched r.rule) (ht : r.DistinctTokens os) (ho : os[i]? = some o)
    (hadmits : r.admits py o.event) (h : r.Plain py p os i o.event) : r.FiresAt py p os i ↔
      r.threshold p ≤ r.quantity (r.interval py p (os.take (i + 1)) o.event) := by
  rw [WindowRule.firesAt_iff hthr hw ht ho hadmits, retained, if_pos h.counts, h.kept_eq,
    observed_eq_quantity h.distinguishes]

/-- On a stream in timestamp order a rule fires on strictly more than its threshold exactly
where so much of a quantity above the threshold is still there for the rule, and no quantity
up to the threshold amounts to it. In a plain stream it fails at the threshold only. -/
theorem trigger_law_iff (py : Python) (p : Params) (r : WindowRule) (os : List Sighting)
    (hthr : 0 < r.threshold p) (hw : ∀ o ∈ os, o.Watched r.rule) (ht : r.DistinctTokens os)
    (hord : os.Pairwise fun a b => a.event.timestamp ≤ b.event.timestamp) {i : ℕ} {o : Sighting}
    (ho : os[i]? = some o) (h : r.admits py o.event) :
    let held := r.quantity (r.interval py p (os.take (i + 1)) o.event)
    ((r.FiresAt py p os i ↔ r.threshold p < held) ↔
        (r.threshold p < held → r.Amounts py p os i o.event) ∧
          (held ≤ r.threshold p → ¬ r.Amounts py p os i o.event)) ∧
      (r.Plain py p os i o.event →
        ((r.FiresAt py p os i ↔ r.threshold p < held) ↔ held ≠ r.threshold p)) := by
  intro held
  constructor
  · rw [firesAt_iff_amounts hthr hw ht hord ho h, ← not_lt]
    tauto
  · intro hplain
    rw [hplain.firesAt_iff hthr hw ht ho h]
    omega

theorem trigger_law_iff_third_failure :
    let os := BruteForce.failures "203.0.113.9" [("a", 0), ("b", 1), ("c", 2)]
    bruteForce.FiresAt Python.ascii { maxFailures := 2 } os 2 ∧
      ∃ o ∈ os[2]?, 2 < bruteForce.quantity
        (bruteForce.interval Python.ascii { maxFailures := 2 } (os.take 3) o.event) := by
  intro os
  have ht : bruteForce.DistinctTokens os := ⟨by decide +kernel, by decide +kernel⟩
  obtain ⟨o, ho, hadmits, hheld, hcounts, hstands⟩ : ∃ o ∈ os[2]?,
      bruteForce.admits Python.ascii o.event ∧ bruteForce.quantity
        (bruteForce.interval Python.ascii { maxFailures := 2 } (os.take 3) o.event) = 3 ∧
      bruteForce.counts Python.ascii o.event ∧ ∀ k < 3, ∀ a ∈ os[k]?,
        ((bruteForce.reading Python.ascii { maxFailures := 2 }).Stands
          (bruteForce.concerns Python.ascii o.event) os k 3 ↔
            bruteForce.InInterval Python.ascii { maxFailures := 2 } o.event a.event) := by
    decide +kernel
  have hlaw := ((trigger_law_iff Python.ascii { maxFailures := 2 } bruteForce os (by decide)
    (BruteForce.watched_failures _ _) ht (by decide +kernel) ho hadmits).2
    ⟨hcounts, hstands, trivial⟩).mpr
    (hheld.trans_ne (by decide))
  have hmore := (show (2 : ℤ) < 3 by decide).trans_eq hheld.symm
  exact ⟨hlaw.mpr hmore, o, ho, hmore⟩

/-- The second of two failures fires a rule with the threshold two. -/
theorem threshold_itself_fires :
    let os := BruteForce.failures "203.0.113.9" [("a", 0), ("b", 1)]
    os.Pairwise (fun a b => a.event.timestamp ≤ b.event.timestamp) ∧
      ∃ o ∈ os[1]?, bruteForce.admits Python.ascii o.event ∧
        ¬ (bruteForce.FiresAt Python.ascii { maxFailures := 2 } os 1 ↔
          2 < bruteForce.quantity
            (bruteForce.interval Python.ascii { maxFailures := 2 } os o.event)) := by
  intro os
  have ht : bruteForce.DistinctTokens os := ⟨by decide +kernel, by decide +kernel⟩
  obtain ⟨o, ho, hadmits, hheld, hretained⟩ : ∃ o ∈ os[1]?,
      bruteForce.admits Python.ascii o.event ∧ bruteForce.quantity
        (bruteForce.interval Python.ascii { maxFailures := 2 } os o.event) = 2 ∧
      bruteForce.retained Python.ascii { maxFailures := 2 } os o.event = 2 := by
    decide +kernel
  have hfires := (firesAt_iff (by decide) (BruteForce.watched_failures _ _) ht ho hadmits).mpr
    hretained.ge
  refine ⟨by decide +kernel, o, ho, hadmits, fun hlaw => ?_⟩
  exact absurd (hlaw.mp hfires) (by rw [hheld]; decide)

end SiemEngine.WindowRule

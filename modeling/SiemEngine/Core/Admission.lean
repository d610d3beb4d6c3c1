import SiemEngine.Core.RateLimit

/-!
# What the rate limiter admits

The limiter against a plain counter: what passes in a clock minute and in any interval as long,
when a request is turned away, and which counters outlive their minute in Redis.
-/

namespace SiemEngine.RateLimit

section

variable {limit : ℤ} {s : State} {a : Act} {i : ℕ} {r : Request} {ip : String} {w : ℕ}

/-- Whatever fails and however slowly, a client is turned away in a minute only when more than
`limit` of its requests of that minute have been counted. -/
theorem limited_beyond_limit (limit : ℤ) (now : ℕ) (as : List Act) :
    ∀ r ∈ (Run.exec (step limit) (init now) as).requests, r.phase = .limited →
      limit < ((Run.exec (step limit) (init now) as).counts r.client_ip r.window).length := by
  intro r hr hphase
  have h := sound_exec limit now as
  have hcoh := h.coherent r hr
  rw [Request.Coherent, hphase] at hcoh
  obtain ⟨c, hc, hlt⟩ := hcoh
  have hle := h.counted_le r.client_ip r.window c (mem_counts hr hc)
  omega

theorem limited_beyond_limit_second :
    1 < ((Run.exec (step 1) (init 0) (serve "10.0.0.1" 0 2)).counts "10.0.0.1" 0).length :=
  Int.ofNat_lt.mp (limited_beyond_limit 1 0 (serve "10.0.0.1" 0 2) ⟨"10.0.0.1", 0, .limited, some 2⟩
    (by decide +kernel) rfl)

theorem tally_eq_countP {phase : Phase} {q : ℕ → Bool}
    (h : ∀ r ∈ s.requests, r.Of ip w → (r.phase = phase ↔ ∃ c, r.counted = some c ∧ q c)) :
    s.tally ip w phase = (s.counts ip w).countP q := by
  rw [State.counts, List.countP_filterMap, State.tally]
  apply List.countP_congr
  intro r hr
  by_cases hof : r.Of ip w
  · simp only [hof, true_and, if_true, decide_eq_true_eq, h r hr hof]
    cases hc : r.counted with
    | none => simp
    | some c => simp
  · simp [hof]

theorem tally_passed_le (hcoh : s.Coherent limit) :
    s.tally ip w .passed ≤ (s.counts ip w).countP fun c => c ≤ limit.toNat := by
  rw [State.counts, List.countP_filterMap, State.tally]
  apply List.countP_mono_left
  intro r hr h
  obtain ⟨hof, hphase⟩ := of_decide_eq_true h
  have hc := hcoh r hr
  rw [Request.Coherent, hphase] at hc
  obtain ⟨c, hc, hle⟩ := hc
  have hle : c ≤ limit.toNat := by omega
  simp [hof, hc, hle]

/-- Requests that went through the limiter: those of the API. -/
def State.sent (s : State) (ip : String) (w : ℕ) : ℕ :=
  s.requests.countP fun r => r.Of ip w ∧ r.phase ≠ .exempt

/-- All of a client's requests of a minute are answered, and no command of theirs failed. -/
def State.Settled (s : State) (ip : String) (w : ℕ) : Prop :=
  ∀ r ∈ s.requests, r.Of ip w → r.phase = .passed ∨ r.phase = .limited ∨ r.phase = .exempt

theorem tally_passed_of_settled (h : s.Exact limit) (hset : s.Settled ip w) :
    s.tally ip w .passed = (s.counts ip w).countP fun c => c ≤ limit.toNat := by
  apply tally_eq_countP
  intro r hr hof
  have hcoh := h.coherent r hr
  rw [Request.Coherent] at hcoh
  rcases hset r hr hof with hphase | hphase | hphase
  · rw [hphase] at hcoh ⊢
    obtain ⟨c, hc, hle⟩ := hcoh
    exact iff_of_true rfl ⟨c, hc, by simp only [decide_eq_true_eq]; omega⟩
  · rw [hphase] at hcoh ⊢
    obtain ⟨c, hc, hlt⟩ := hcoh
    have hpos : c ∈ List.range' 1 (s.counts ip w).length := by
      rw [← (h.counts ip w).mem_iff, ← hof.1, ← hof.2]
      exact mem_counts hr hc
    rw [List.mem_range'_1] at hpos
    refine iff_of_false (by decide) ?_
    rintro ⟨c', hc', hle⟩
    rw [hc, Option.some.injEq] at hc'
    simp only [decide_eq_true_eq] at hle
    omega
  · rw [hphase] at hcoh ⊢
    exact iff_of_false (by decide) (by simp [hcoh])

theorem sent_of_settled (h : s.Exact limit) (hset : s.Settled ip w) :
    s.sent ip w = (s.counts ip w).length ∧
      s.tally ip w .passed + s.tally ip w .limited = s.sent ip w := by
  constructor
  · rw [State.counts, List.length_filterMap_eq_countP, State.sent]
    apply List.countP_congr
    intro r hr
    by_cases hof : r.Of ip w
    · have hcoh := h.coherent r hr
      rw [Request.Coherent] at hcoh
      simp only [hof, true_and, if_true, decide_eq_true_eq]
      rcases hset r hr hof with hphase | hphase | hphase
      · rw [hphase] at hcoh ⊢
        obtain ⟨c, hc, -⟩ := hcoh
        simp [hc]
      · rw [hphase] at hcoh ⊢
        obtain ⟨c, hc, -⟩ := hcoh
        simp [hc]
      · rw [hphase] at hcoh ⊢
        simp [hcoh]
    · simp [hof]
  · symm
    apply FixedWindow.countP_eq_add
    intro r hr
    by_cases hof : r.Of ip w
    · rcases hset r hr hof with hphase | hphase | hphase <;> simp [hof, hphase]
    · simp [hof]

/-- The limiter is a fixed window: where the commands reach Redis within 30 seconds, a minute
lets no more than `limit` of a client's requests through by their count, and exactly the
smaller of `limit` and the number sent when none of its commands failed. -/
theorem admitted_per_minute (limit : ℤ) (now : ℕ) (as : List Act)
    (hp : Run.Guarded (step limit) Prompt (init now) as) (ip : String) (w : ℕ) :
    let s := Run.exec (step limit) (init now) as
    s.tally ip w .passed ≤ limit.toNat ∧
      (s.Settled ip w → s.tally ip w .passed = min (s.sent ip w) limit.toNat ∧
        s.tally ip w .limited = s.sent ip w - limit.toNat) := by
  intro s
  have h : s.Exact limit := exact_exec hp
  have hcount : (s.counts ip w).countP (fun c => c ≤ limit.toNat) =
      min (s.counts ip w).length limit.toNat :=
    ((h.counts ip w).countP_eq _).trans (FixedWindow.countP_le_range' _ _)
  constructor
  · calc s.tally ip w .passed ≤ _ := tally_passed_le h.coherent
      _ = min (s.counts ip w).length limit.toNat := hcount
      _ ≤ limit.toNat := min_le_right _ _
  · intro hset
    have hpassed := (tally_passed_of_settled h hset).trans hcount
    obtain ⟨hsent, hsum⟩ := sent_of_settled h hset
    rw [← hsent] at hpassed
    exact ⟨hpassed, by omega⟩

theorem admitted_per_minute_two_sent :
    let s := Run.exec (step 1) (init 0) (serve "10.0.0.1" 0 2)
    s.tally "10.0.0.1" 0 .passed = min (s.sent "10.0.0.1" 0) 1 ∧
      s.tally "10.0.0.1" 0 .limited = s.sent "10.0.0.1" 0 - 1 :=
  (admitted_per_minute 1 0 (serve "10.0.0.1" 0 2) (by decide +kernel) "10.0.0.1" 0).2
    (by unfold State.Settled; decide +kernel)

end

def State.admitted (s : State) (ip : String) (t : ℕ) : ℕ :=
  s.requests.countP fun r =>
    (r.client_ip = ip ∧ r.phase = .passed) ∧ t ≤ r.arrivedAt ∧ r.arrivedAt < t + period

theorem admitted_le {limit : ℤ} {now : ℕ} {as : List Act}
    (hp : Run.Guarded (step limit) Prompt (init now) as) (ip : String) (t : ℕ) :
    (Run.exec (step limit) (init now) as).admitted ip t ≤ 2 * limit.toNat := by
  have h : (Run.exec (step limit) (init now) as).Exact limit := exact_exec hp
  generalize Run.exec (step limit) (init now) as = s at h
  have hminute : ∀ w, s.requests.countP (fun r => decide (r.client_ip = ip ∧ r.phase = .passed) &&
      decide (r.arrivedAt / period = w)) ≤ limit.toNat := by
    intro w
    have htally : s.requests.countP (fun r => decide (r.client_ip = ip ∧ r.phase = .passed) &&
        decide (r.arrivedAt / period = w)) = s.tally ip w .passed := by
      apply List.countP_congr
      intro r _
      rw [Bool.and_eq_true, decide_eq_true_iff, decide_eq_true_iff, decide_eq_true_iff]
      exact and_right_comm
    rw [htally]
    calc s.tally ip w .passed ≤ _ := tally_passed_le h.coherent
      _ = min (s.counts ip w).length limit.toNat :=
        ((h.counts ip w).countP_eq _).trans (FixedWindow.countP_le_range' _ _)
      _ ≤ limit.toNat := min_le_right _ _
  have hinterval := FixedWindow.countP_interval_le (by decide) hminute t
  rw [State.admitted]
  simpa only [Bool.decide_and] using hinterval

def served (limit : ℤ) (ip : String) (now c : ℕ) : Request :=
  ⟨ip, now, verdict limit c, some c⟩

theorem getElem?_concat_length {α : Type*} (l : List α) (a : α) :
    (l ++ [a])[l.length]? = some a := by
  rw [List.getElem?_append_right (le_refl _), Nat.sub_self]
  rfl

theorem set_concat_length {α : Type*} (l : List α) (a b : α) :
    (l ++ [a]).set l.length b = l ++ [b] := by
  simp

def incremented (limit : ℤ) (ip : String) (now c : ℕ) : Request :=
  ⟨ip, now, afterIncr limit c .none, some c⟩

theorem step_arrive (limit : ℤ) (s : State) (ip : String) :
    step limit s (.arrive "/api/events" (some ip)) =
      { s with requests := s.requests ++ [⟨ip, s.now, .counting, none⟩] } := by
  have hphase : "/api/".toList.isPrefixOf "/api/events".toList = true := by decide
  simp only [step, arriving, hphase, if_true]
  rfl

theorem step_incr {before : List Request}
    (hs : s.requests = before ++ [⟨ip, s.now, .counting, none⟩]) :
    step limit s (.incr before.length .none) =
      ⟨s.redis.incr s.now (key ip (window s.now)), s.now,
        before ++ [incremented limit ip s.now (s.value ip (window s.now) + 1)]⟩ := by
  have hr : s.inPhase before.length .counting = some ⟨ip, s.now, .counting, none⟩ :=
    inPhase_eq_some.mpr ⟨hs ▸ getElem?_concat_length _ _, rfl⟩
  simp only [step, hr]
  change State.mk _ _ (s.requests.set before.length
    (incremented limit ip s.now (s.value ip (window s.now) + 1))) = _
  rw [hs, set_concat_length]
  rfl

theorem step_expire {before : List Request} {c : ℕ}
    (hs : s.requests = before ++ [incremented limit ip s.now c]) :
    step limit s (.expire before.length .none) =
      ⟨if c = 1 then s.redis.expire s.now (key ip (window s.now)) else s.redis, s.now,
        before ++ [served limit ip s.now c]⟩ := by
  have hget : s.requests[before.length]? = some (incremented limit ip s.now c) :=
    hs ▸ getElem?_concat_length _ _
  by_cases hone : c = 1
  · have hr : s.inPhase before.length .expiring = some (incremented limit ip s.now c) :=
      inPhase_eq_some.mpr ⟨hget, if_pos hone⟩
    simp only [step, hr, if_pos hone]
    change State.mk _ _ (s.requests.set before.length ⟨ip, s.now, verdict limit 1, some c⟩) = _
    rw [hs, set_concat_length, ← hone]
    rfl
  · have hphase : afterIncr limit c .none = verdict limit c := if_neg hone
    have hr : s.inPhase before.length .expiring = none := by
      have hne : verdict limit c ≠ .expiring := by
        rw [verdict]
        split_ifs <;> decide
      rw [State.inPhase, hget]
      simp [incremented, hphase, hne]
    simp only [step, hr, if_neg hone]
    rw [served, ← hphase]
    change s = State.mk _ _ (before ++ [incremented limit ip s.now c])
    rw [← hs]

theorem serveOne_spec (limit : ℤ) (s : State) (ip : String) :
    let s' := Run.exec (step limit) s (serveOne ip s.requests.length)
    s'.requests = s.requests ++
      [served limit ip s.now (s.value ip (window s.now) + 1)] ∧ s'.now = s.now ∧
      s'.value ip (window s.now) = s.value ip (window s.now) + 1 ∧
      (∀ w, w ≠ window s.now → s'.value ip w = s.value ip w) ∧
      Run.Guarded (step limit) Prompt s (serveOne ip s.requests.length) := by
  intro s'
  obtain ⟨s₁, hs₁⟩ : ∃ s₁, s₁ = step limit s (.arrive "/api/events" (some ip)) := ⟨_, rfl⟩
  have harrived : s₁ = { s with requests := s.requests ++ [⟨ip, s.now, .counting, none⟩] } :=
    hs₁.trans (step_arrive limit s ip)
  have hs' : s' = step limit (step limit s₁ (.incr s.requests.length .none))
      (.expire s.requests.length .none) := by
    simp only [s', serveOne, Run.exec_cons, Run.exec_nil, hs₁]
  have hguard : Run.Guarded (step limit) Prompt s (serveOne ip s.requests.length) := by
    refine ⟨trivial, ?_, trivial, trivial⟩
    rw [← hs₁, harrived]
    intro r hr
    have hget := (inPhase_eq_some.mp hr).1
    rw [getElem?_concat_length, Option.some.injEq] at hget
    rw [← hget]
    exact Nat.le_add_right _ _
  have hvalue : ∀ w, (s.redis.incr s.now (key ip (window s.now))).value s.now (key ip w) =
      if w = window s.now then s.value ip w + 1 else s.value ip w := by
    intro w
    split_ifs with hw
    · rw [hw]
      exact Redis.value_incr_self
    · exact Redis.value_incr_of_ne fun h => hw (key_inj h).2
  have hexpire : ∀ w, s'.value ip w =
      (s.redis.incr s.now (key ip (window s.now))).value s.now (key ip w) := by
    intro w
    rw [hs', harrived, step_incr rfl, step_expire rfl]
    split_ifs
    · exact Redis.value_expire _
    · rfl
  refine ⟨?_, ?_, ?_, fun w hw => ?_, hguard⟩
  · rw [hs', harrived, step_incr rfl, step_expire rfl]
    rfl
  · rw [hs', harrived, step_incr rfl, step_expire rfl]
  · rw [hexpire, hvalue, if_pos rfl]
  · rw [hexpire, hvalue, if_neg hw]

theorem serve_spec (limit : ℤ) (s : State) (ip : String) (n : ℕ) :
    let s' := Run.exec (step limit) s (serve ip s.requests.length n)
    s'.requests = s.requests ++
      (List.range' (s.value ip (window s.now) + 1) n).map (served limit ip s.now) ∧
      s'.now = s.now ∧
      s'.value ip (window s.now) = s.value ip (window s.now) + n ∧
      (∀ w, w ≠ window s.now → s'.value ip w = s.value ip w) ∧
      Run.Guarded (step limit) Prompt s (serve ip s.requests.length n) := by
  induction n with
  | zero => exact ⟨(List.append_nil _).symm, rfl, rfl, fun _ _ => rfl, trivial⟩
  | succ n ih =>
    obtain ⟨hreq, hnow, hvalue, hother, hguard⟩ := ih
    rw [serve, Run.exec_append]
    generalize hs₁ : Run.exec (step limit) s (serve ip s.requests.length n) = s₁ at *
    have hlen : s₁.requests.length = s.requests.length + n := by
      rw [hreq, List.length_append, List.length_map, List.length_range']
    obtain ⟨hreq', hnow', hvalue', hother', hguard'⟩ := serveOne_spec limit s₁ ip
    rw [hlen] at hreq' hnow' hvalue' hother' hguard'
    rw [hnow, hvalue] at hreq' hvalue'
    rw [hnow] at hnow' hother'
    refine ⟨?_, hnow', hvalue', fun w hw => (hother' w hw).trans (hother w hw),
      hguard.append ?_⟩
    · rw [hreq', hreq, List.range'_concat, List.map_append, List.append_assoc, Nat.add_right_comm,
        Nat.one_mul]
      rfl
    · rw [hs₁]
      exact hguard'

theorem countP_served {limit : ℤ} {ip : String} {n now t : ℕ} (hn : (n : ℤ) ≤ limit)
    (hle : t ≤ now) (hlt : now < t + period) :
    ((List.range' 1 n).map (served limit ip now)).countP (fun r => decide
      ((r.client_ip = ip ∧ r.phase = .passed) ∧ t ≤ r.arrivedAt ∧ r.arrivedAt < t + period)) =
      n := by
  rw [List.countP_eq_length.mpr]
  · rw [List.length_map, List.length_range']
  · intro r hr
    obtain ⟨c, hc, rfl⟩ := List.mem_map.mp hr
    rw [List.mem_range'_1] at hc
    have hpassed : verdict limit c = .passed := if_neg (by omega)
    exact decide_eq_true ⟨⟨rfl, hpassed⟩, hle, hlt⟩

theorem two_bursts (n : ℕ) (ip : String) : ∃ now as t,
    Run.Guarded (step n) Prompt (init now) as ∧
      (Run.exec (step n) (init now) as).admitted ip t = 2 * n := by
  obtain ⟨s₀, hs₀⟩ : ∃ s₀, s₀ = init (period - 1) := ⟨_, rfl⟩
  have hnow₀ : s₀.now = period - 1 := hs₀ ▸ rfl
  have hreq₀ : s₀.requests = [] := hs₀ ▸ rfl
  have hvalue₀ : ∀ w, s₀.value ip w = 0 := fun w =>
    Redis.value_of_dead (Redis.live_eq_none (by simp [hs₀, init]))
  obtain ⟨hreq₁, hnow₁, -, hother, hguard⟩ := serve_spec n s₀ ip n
  generalize hs₁ : Run.exec (step n) s₀ (serve ip s₀.requests.length n) = s₁ at *
  rw [hvalue₀, hnow₀, hreq₀, List.nil_append] at hreq₁
  rw [hnow₀] at hnow₁ hother
  let s₂ : State := { s₁ with now := s₁.now + 1 }
  have hnow₂ : s₂.now = period := congrArg (· + 1) hnow₁
  have hvalue₂ : s₂.value ip (window s₂.now) = 0 := by
    rw [hnow₂]
    apply Nat.le_zero.mp
    calc s₂.value ip (window period) ≤ s₁.value ip (window period) := Redis.value_later_le
      _ = 0 := (hother _ (by decide)).trans (hvalue₀ _)
  obtain ⟨hreq₂, -, -, -, hguard₂⟩ := serve_spec n s₂ ip n
  rw [hvalue₂, hnow₂] at hreq₂
  refine ⟨period - 1, serve ip s₀.requests.length n ++ .wait 1 :: serve ip s₂.requests.length n,
    period - 1, ?_, ?_⟩
  · rw [← hs₀]
    apply hguard.append
    rw [hs₁]
    exact ⟨trivial, hguard₂⟩
  · rw [← hs₀, Run.exec_append, hs₁, Run.exec_cons]
    change State.admitted (Run.exec (step n) s₂ _) ip _ = _
    rw [State.admitted, hreq₂]
    change List.countP _ (s₁.requests ++ _) = _
    rw [hreq₁, List.countP_append, countP_served le_rfl (by decide) (by decide),
      countP_served le_rfl (by decide) (by decide)]
    omega

/-- Twice the limit is what a client can get through in a minute's time, and no more. -/
theorem any_minute_twice_limit (limit : ℤ) (ip : String) :
    (∀ now as t, Run.Guarded (step limit) Prompt (init now) as →
      (Run.exec (step limit) (init now) as).admitted ip t ≤ 2 * limit.toNat) ∧
    ∃ now as t, Run.Guarded (step limit) Prompt (init now) as ∧
      (Run.exec (step limit) (init now) as).admitted ip t = 2 * limit.toNat := by
  refine ⟨fun now as t hp => admitted_le hp ip t, ?_⟩
  rcases le_or_gt 0 limit with hpos | hneg
  · obtain ⟨now, as, t, hguard, hcount⟩ := two_bursts limit.toNat ip
    rw [Int.toNat_of_nonneg hpos] at hguard hcount
    exact ⟨now, as, t, hguard, hcount⟩
  · refine ⟨0, [], 0, trivial, ?_⟩
    rw [Int.toNat_of_nonpos hneg.le]
    rfl

def Request.Unexpired (k : String) (r : Request) : Prop :=
  r.key = k ∧ r.counted = some 1 ∧ (r.phase = .expiring ∨ r.phase = .failedOpen)

/-- A counter is due within 90 seconds, or the request that opened it has yet to see to its
expiry, or has failed. -/
structure State.Leased (s : State) : Prop where
  due : ∀ k c e, s.redis k = some c → c.expiresAt = some e → e ≤ s.now + keyTtl
  unset : ∀ k c, s.redis k = some c → c.expiresAt = none → ∃ r ∈ s.requests, r.Unexpired k

section

variable {limit : ℤ} {s : State} {a : Act} {i : ℕ} {r : Request} {k : String}

theorem unexpired_set {l : List Request} {b : Request} (hb : l[i]? = some b) (c : Request)
    (hne : b.Unexpired k → c.Unexpired k) (h : ∃ r ∈ l, r.Unexpired k) :
    ∃ r ∈ l.set i c, r.Unexpired k := by
  obtain ⟨r, hr, hopen⟩ := h
  by_cases hrb : r = b
  · subst hrb
    exact ⟨c, List.mem_set (List.getElem?_eq_some_iff.mp hb).1 _, hne hopen⟩
  · exact ⟨r, FixedWindow.mem_set_of_ne hr hb hrb, hopen⟩

theorem not_unexpired (h : r.phase = .counting) : ¬ r.Unexpired k := by
  rintro ⟨-, -, hphase | hphase⟩
  · exact absurd (h.symm.trans hphase) (by decide)
  · exact absurd (h.symm.trans hphase) (by decide)

theorem unexpired_failed (h : r.Unexpired k) : { r with phase := .failedOpen }.Unexpired k :=
  ⟨h.1, h.2.1, Or.inr rfl⟩

theorem due_step (h : s.Leased) : ∀ k c e, (step limit s a).redis k = some c →
    c.expiresAt = some e → e ≤ (step limit s a).now + keyTtl := by
  intro k c e hc he
  rcases step_cases limit s a with ⟨δ, -, hs⟩ | ⟨path, client, -, hs⟩ |
    ⟨i, fault, r, -, hr, hs⟩ | ⟨i, fault, r, -, hr, hs⟩ | hs
  · rw [hs] at hc ⊢
    exact (h.due k c e hc he).trans (Nat.add_le_add_right (Nat.le_add_right _ _) _)
  · rw [hs] at hc ⊢
    exact h.due k c e hc he
  · rw [hs, State.doIncr] at hc ⊢
    split_ifs at hc ⊢
    · exact h.due k c e hc he
    · rcases Redis.incr_eq_some hc with ⟨c₀, hc₀, he₀⟩ | ⟨-, rfl, -⟩
      · exact h.due k c₀ e hc₀ (he₀ ▸ he)
      · cases he
  · rw [hs, State.doExpire] at hc ⊢
    split_ifs at hc ⊢
    · exact h.due k c e hc he
    · rcases Redis.expire_eq_some hc with hc₀ | ⟨-, hset⟩
      · exact h.due k c e hc₀ he
      · rw [he, Option.some.injEq] at hset
        exact hset.le
  · rw [hs] at hc ⊢
    exact h.due k c e hc he

theorem unset_step (h : s.Leased) : ∀ k c, (step limit s a).redis k = some c →
    c.expiresAt = none → ∃ r ∈ (step limit s a).requests, r.Unexpired k := by
  intro k c hc he
  rcases step_cases limit s a with ⟨δ, -, hs⟩ | ⟨path, client, -, hs⟩ |
    ⟨i, fault, r, -, hr, hs⟩ | ⟨i, fault, r, -, hr, hs⟩ | hs
  · rw [hs] at hc ⊢
    exact h.unset k c hc he
  · rw [hs] at hc ⊢
    obtain ⟨r, hr, hopen⟩ := h.unset k c hc he
    exact ⟨r, List.mem_append_left _ hr, hopen⟩
  · obtain ⟨hget, hphase⟩ := inPhase_eq_some.mp hr
    rw [hs, State.doIncr] at hc ⊢
    split_ifs at hc ⊢
    · exact unexpired_set hget _ (fun hr => absurd hr (not_unexpired hphase)) (h.unset k c hc he)
    · rcases Redis.incr_eq_some hc with ⟨c₀, hc₀, he₀⟩ | ⟨rfl, rfl, hzero⟩
      · exact unexpired_set hget _ (fun hr => absurd hr (not_unexpired hphase))
          (h.unset k c₀ hc₀ (he₀ ▸ he))
      · -- the request that opens the counter is the one to give it its expiry
        have hi := (List.getElem?_eq_some_iff.mp hget).1
        refine ⟨_, List.mem_set hi _, rfl, congrArg some (congrArg (· + 1) hzero), ?_⟩
        change afterIncr limit _ fault = _ ∨ afterIncr limit _ fault = _
        rw [hzero, afterIncr]
        split_ifs
        · exact Or.inl rfl
        · exact absurd rfl ‹¬ (0 + 1 = 1)›
        · exact Or.inr rfl
  · obtain ⟨hget, -⟩ := inPhase_eq_some.mp hr
    rw [hs, State.doExpire] at hc ⊢
    split_ifs at hc ⊢
    · exact unexpired_set hget _ unexpired_failed (h.unset k c hc he)
    · obtain ⟨hc₀, hne⟩ := Redis.expire_open hc he
      exact unexpired_set hget _ (fun hr => absurd hr.1.symm hne) (h.unset k c hc₀ he)
  · rw [hs] at hc ⊢
    exact h.unset k c hc he

theorem leased_step (h : s.Leased) : (step limit s a).Leased := ⟨due_step h, unset_step h⟩

theorem leased_exec (limit : ℤ) (now : ℕ) (as : List Act) :
    (Run.exec (step limit) (init now) as).Leased :=
  (Run.holds_of_step (I := State.Leased) (fun _ _ => leased_step)
    ⟨by simp [init], by simp [init]⟩ as).last

/-- A counter that is there more than 90 seconds from now is one whose opening request has its
`EXPIRE` still to come or has failed. -/
theorem leaked_counter (limit : ℤ) (now : ℕ) (as : List Act) (ip : String) (w δ : ℕ)
    (hδ : keyTtl < δ) :
    let s := Run.exec (step limit) (init now) as
    s.redis.live (s.now + δ) (key ip w) ≠ none →
      ∃ r ∈ s.requests, r.Of ip w ∧ r.counted = some 1 ∧
        (r.phase = .expiring ∨ r.phase = .failedOpen) := by
  intro s hlive
  have h : s.Leased := leased_exec limit now as
  obtain ⟨c, hc⟩ := Option.ne_none_iff_exists'.mp hlive
  obtain ⟨hk, hlater⟩ := Redis.live_eq_some.mp hc
  cases he : c.expiresAt with
  | none =>
    obtain ⟨r, hr, hkey, hopen⟩ := h.unset _ c hk he
    exact ⟨r, hr, key_eq_iff.mp hkey, hopen⟩
  | some e =>
    have hdue := h.due _ c e hk he
    have hle := hlater e he
    omega

theorem leaked_counter_lost_expire :
    let s := Run.exec (step 1) (init 0)
      [.arrive "/api/events" (some "10.0.0.1"), .incr 0 .none, .expire 0 .lost]
    ∃ r ∈ s.requests, r.Of "10.0.0.1" 0 ∧ r.counted = some 1 ∧
      (r.phase = .expiring ∨ r.phase = .failedOpen) :=
  leaked_counter 1 0 [.arrive "/api/events" (some "10.0.0.1"), .incr 0 .none, .expire 0 .lost]
    "10.0.0.1" 0 (keyTtl + 1) (Nat.lt_succ_self _)
    (Option.isSome_iff_ne_none.mp (by decide +kernel))

end

end SiemEngine.RateLimit

import Mathlib.Algebra.Order.Group.Nat
import SiemEngine.Lib.FixedWindow
import SiemEngine.Lib.Run
import SiemEngine.Python.Text
import SiemEngine.Detection.Isolation

/-!
# The rate limiter

`RateLimitMiddleware.dispatch` counts a client's requests of one clock minute under one Redis
key: an `INCR`, and an `EXPIRE` of 90 seconds by the request that was counted first. Requests
are served concurrently, so the commands of any number of them interleave, each command can
fail before or after Redis has carried it out, and a request that fails is let through. A step
is one command or the arrival of a request; `counted` records for the statements what a
request's `INCR` reached, whether the reply came or not.
-/

namespace SiemEngine.RateLimit

def second : ℕ := 1000000

def period : ℕ := 60 * second

def keyTtl : ℕ := 90 * second

def window (now : ℕ) : ℕ := now / period

def key (client_ip : String) (window : ℕ) : String :=
  "siem:ratelimit:" ++ client_ip ++ ":" ++ toString window

structure Counter where
  value : ℕ
  expiresAt : Option ℕ

abbrev Redis := String → Option Counter

namespace Redis

def live (redis : Redis) (now : ℕ) (key : String) : Option Counter :=
  (redis key).filter fun c => c.expiresAt.all fun e => now ≤ e

def value (redis : Redis) (now : ℕ) (key : String) : ℕ :=
  match redis.live now key with
  | some c => c.value
  | none => 0

def incr (redis : Redis) (now : ℕ) (key : String) : Redis :=
  match redis.live now key with
  | some c => Function.update redis key (some { c with value := c.value + 1 })
  | none => Function.update redis key (some ⟨1, none⟩)

def expire (redis : Redis) (now : ℕ) (key : String) : Redis :=
  match redis.live now key with
  | some c => Function.update redis key (some { c with expiresAt := some (now + keyTtl) })
  | none => redis

end Redis

inductive Phase
  | counting
  | expiring
  | passed
  | limited
  | failedOpen
  | exempt
  deriving DecidableEq

structure Request where
  client_ip : String
  arrivedAt : ℕ
  phase : Phase
  counted : Option ℕ := none
  deriving DecidableEq

def Request.window (r : Request) : ℕ := RateLimit.window r.arrivedAt

def Request.key (r : Request) : String := RateLimit.key r.client_ip r.window

def Request.Of (client_ip : String) (w : ℕ) (r : Request) : Prop :=
  r.client_ip = client_ip ∧ r.window = w

instance (client_ip : String) (w : ℕ) : DecidablePred (Request.Of client_ip w) := fun _ =>
  inferInstanceAs (Decidable (_ ∧ _))

structure State where
  redis : Redis
  now : ℕ
  requests : List Request

/-- How a command ends: it is not carried out, or only its reply is lost, or neither. -/
inductive Fault
  | none
  | lost
  | unheard
  deriving DecidableEq

inductive Act
  | wait (δ : ℕ)
  | arrive (path : String) (client : Option String)
  | incr (i : ℕ) (fault : Fault)
  | expire (i : ℕ) (fault : Fault)

def verdict (limit : ℤ) (current : ℕ) : Phase :=
  if limit < current then .limited else .passed

def afterIncr (limit : ℤ) (current : ℕ) (fault : Fault) : Phase :=
  if fault = .none then if current = 1 then .expiring else verdict limit current
  else .failedOpen

def afterExpire (limit : ℤ) (fault : Fault) : Phase :=
  if fault = .none then verdict limit 1 else .failedOpen

def arriving (now : ℕ) (path : String) (client : Option String) : Request where
  client_ip := client.getD "unknown"
  arrivedAt := now
  phase := if "/api/".toList.isPrefixOf path.toList then .counting else .exempt

namespace State

def replace (s : State) (i : ℕ) (r : Request) : State := { s with requests := s.requests.set i r }

def doIncr (limit : ℤ) (s : State) (i : ℕ) (r : Request) (fault : Fault) : State :=
  if fault = .lost then s.replace i { r with phase := .failedOpen }
  else
    let current := s.redis.value s.now r.key + 1
    { s with redis := s.redis.incr s.now r.key }.replace i
      { r with phase := afterIncr limit current fault, counted := some current }

def doExpire (limit : ℤ) (s : State) (i : ℕ) (r : Request) (fault : Fault) : State :=
  if fault = .lost then s.replace i { r with phase := .failedOpen }
  else
    { s with redis := s.redis.expire s.now r.key }.replace i
      { r with phase := afterExpire limit fault }

def inPhase (s : State) (i : ℕ) (phase : Phase) : Option Request :=
  (s.requests[i]?).filter fun r => r.phase = phase

end State

def step (limit : ℤ) (s : State) : Act → State
  | .wait δ => { s with now := s.now + δ }
  | .arrive path client => { s with requests := s.requests ++ [arriving s.now path client] }
  | .incr i fault =>
    match s.inPhase i .counting with
    | some r => s.doIncr limit i r fault
    | none => s
  | .expire i fault =>
    match s.inPhase i .expiring with
    | some r => s.doExpire limit i r fault
    | none => s

def init (now : ℕ) : State := ⟨fun _ => none, now, []⟩

def State.counts (s : State) (client_ip : String) (w : ℕ) : List ℕ :=
  s.requests.filterMap fun r => if r.Of client_ip w then r.counted else none

def State.tally (s : State) (client_ip : String) (w : ℕ) (phase : Phase) : ℕ :=
  s.requests.countP fun r => r.Of client_ip w ∧ r.phase = phase

/-- A counting request whose `INCR` is carried out within 30 seconds of its arrival. -/
def Prompt (s : State) : Act → Prop
  | .incr i _ => ∀ r ∈ s.inPhase i .counting, s.now ≤ r.arrivedAt + 30 * second
  | _ => True

instance (s : State) : (a : Act) → Decidable (Prompt s a)
  | .wait _ => inferInstanceAs (Decidable True)
  | .arrive _ _ => inferInstanceAs (Decidable True)
  | .incr i _ => inferInstanceAs (Decidable (∀ r ∈ s.inPhase i .counting, _ ≤ _))
  | .expire _ _ => inferInstanceAs (Decidable True)

def serveOne (ip : String) (i : ℕ) : List Act :=
  [.arrive "/api/events" (some ip), .incr i .none, .expire i .none]

def serve (ip : String) (start : ℕ) : ℕ → List Act
  | 0 => []
  | n + 1 => serve ip start n ++ serveOne ip (start + n)

section

variable {limit : ℤ} {s : State} {a : Act} {i : ℕ} {r : Request} {ip ip' : String} {w w' : ℕ}

theorem inPhase_eq_some {phase : Phase} :
    s.inPhase i phase = some r ↔ s.requests[i]? = some r ∧ r.phase = phase := by
  simp [State.inPhase, Option.filter_eq_some_iff]

theorem step_cases (limit : ℤ) (s : State) (a : Act) :
    (∃ δ, a = .wait δ ∧ step limit s a = { s with now := s.now + δ }) ∨
    (∃ path client, a = .arrive path client ∧
      step limit s a = { s with requests := s.requests ++ [arriving s.now path client] }) ∨
    (∃ i fault r, a = .incr i fault ∧ s.inPhase i .counting = some r ∧
      step limit s a = s.doIncr limit i r fault) ∨
    (∃ i fault r, a = .expire i fault ∧ s.inPhase i .expiring = some r ∧
      step limit s a = s.doExpire limit i r fault) ∨
    step limit s a = s := by
  cases a with
  | wait δ => exact Or.inl ⟨δ, rfl, rfl⟩
  | arrive path client => exact Or.inr (Or.inl ⟨path, client, rfl, rfl⟩)
  | incr i fault =>
    cases hr : s.inPhase i .counting with
    | none => simp [step, hr]
    | some r => exact Or.inr (Or.inr (Or.inl ⟨i, fault, r, rfl, hr, by simp [step, hr]⟩))
  | expire i fault =>
    cases hr : s.inPhase i .expiring with
    | none => simp [step, hr]
    | some r =>
      exact Or.inr (Or.inr (Or.inr (Or.inl ⟨i, fault, r, rfl, hr, by simp [step, hr]⟩)))

theorem toList_toString (n : ℕ) : (toString n).toList = Nat.toDigits 10 n := Nat.toList_repr

theorem key_inj (h : key ip w = key ip' w') : ip = ip' ∧ w = w' := by
  have hdigits : ∀ n : ℕ, ':' ∉ (Nat.toDigits 10 n).reverse := by
    intro n hmem
    rw [List.mem_reverse] at hmem
    exact absurd (Nat.isDigit_of_mem_toDigits (by decide) (by decide) hmem) (by decide)
  have hlist := congrArg (fun t : String => t.toList.reverse) h
  simp only [key, String.toList_append, List.reverse_append, List.append_assoc,
    toList_toString] at hlist
  change _ ++ ':' :: _ = _ ++ ':' :: _ at hlist
  -- the window is what stands behind the last colon, an address may have colons of its own
  obtain ⟨hw, hip⟩ := Windows.split_at_eq (hdigits w) (hdigits w') hlist
  refine ⟨String.toList_injective (List.reverse_injective (List.append_cancel_right hip)), ?_⟩
  calc w = Nat.ofDigitChars 10 (Nat.toDigits 10 w) 0 := Nat.ofDigitChars_ten_toDigits.symm
    _ = Nat.ofDigitChars 10 (Nat.toDigits 10 w') 0 := by rw [List.reverse_injective hw]
    _ = w' := Nat.ofDigitChars_ten_toDigits

theorem key_eq_iff : r.key = key ip w ↔ r.Of ip w := by
  constructor
  · exact key_inj
  · intro h
    rw [Request.key, h.1, h.2]

end

section

variable {redis : Redis} {now δ e : ℕ} {k k' : String} {c : Counter}

namespace Redis

theorem live_eq_some : redis.live now k = some c ↔
    redis k = some c ∧ ∀ e, c.expiresAt = some e → now ≤ e := by
  rw [live, Option.filter_eq_some_iff]
  cases c.expiresAt with
  | none => simp
  | some e => simp

theorem live_eq_none (h : ∀ c, redis k = some c → ∃ e, c.expiresAt = some e ∧ e < now) :
    redis.live now k = none := by
  cases hlive : redis.live now k with
  | none => rfl
  | some c =>
    obtain ⟨hk, hlater⟩ := live_eq_some.mp hlive
    obtain ⟨e, he, hlt⟩ := h c hk
    exact absurd (hlater e he) (Nat.not_le_of_gt hlt)

theorem live_update_of_ne {o : Option Counter} (h : k' ≠ k) :
    live (Function.update redis k o) now k' = redis.live now k' := by
  rw [live, live, Function.update_of_ne h]

theorem value_of_live (h : redis.live now k = some c) : redis.value now k = c.value := by
  rw [value, h]

theorem value_of_dead (h : redis.live now k = none) : redis.value now k = 0 := by
  rw [value, h]

theorem value_incr_self : (redis.incr now k).value now k = redis.value now k + 1 := by
  cases hlive : redis.live now k with
  | none =>
    rw [value_of_dead hlive, incr, hlive]
    apply value_of_live (c := ⟨1, none⟩)
    simp [live_eq_some]
  | some c =>
    rw [value_of_live hlive, incr, hlive]
    apply value_of_live (c := { c with value := c.value + 1 })
    rw [live_eq_some] at hlive ⊢
    exact ⟨Function.update_self .., hlive.2⟩

theorem value_incr_of_ne (h : k' ≠ k) : (redis.incr now k).value now k' = redis.value now k' := by
  rw [value, value, incr]
  cases redis.live now k with
  | none => rw [live_update_of_ne h]
  | some c => rw [live_update_of_ne h]

theorem value_expire (k' : String) :
    (redis.expire now k).value now k' = redis.value now k' := by
  rw [expire]
  cases hlive : redis.live now k with
  | none => rfl
  | some c =>
    by_cases hk : k' = k
    · subst hk
      rw [value_of_live hlive]
      apply value_of_live (c := { c with expiresAt := some (now + keyTtl) })
      rw [live_eq_some]
      refine ⟨Function.update_self .., ?_⟩
      simp [keyTtl, second]
    · rw [value, value, live_update_of_ne hk]

theorem value_later_le : redis.value (now + δ) k ≤ redis.value now k := by
  cases hlive : redis.live (now + δ) k with
  | none => simp [value_of_dead hlive]
  | some c =>
    rw [live_eq_some] at hlive
    have hnow : redis.live now k = some c :=
      live_eq_some.mpr ⟨hlive.1, fun e he => by have := hlive.2 e he; omega⟩
    rw [value_of_live (live_eq_some.mpr hlive), value_of_live hnow]

theorem value_later (h : ∀ c e, redis k = some c → c.expiresAt = some e → now + δ ≤ e) :
    redis.value (now + δ) k = redis.value now k := by
  cases hk : redis k with
  | none =>
    rw [value_of_dead (live_eq_none (by simp [hk])), value_of_dead (live_eq_none (by simp [hk]))]
  | some c =>
    have hlater : ∀ e, c.expiresAt = some e → now + δ ≤ e := fun e => h c e hk
    rw [value_of_live (live_eq_some.mpr ⟨hk, hlater⟩),
      value_of_live (live_eq_some.mpr ⟨hk, fun e he => by have := hlater e he; omega⟩)]

theorem incr_eq_some (h : redis.incr now k k' = some c) :
    (∃ c₀, redis k' = some c₀ ∧ c.expiresAt = c₀.expiresAt) ∨
      k' = k ∧ c = ⟨1, none⟩ ∧ redis.value now k = 0 := by
  by_cases hk : k' = k
  · subst hk
    rw [incr] at h
    cases hlive : redis.live now k' with
    | none =>
      simp only [hlive, Function.update_self, Option.some.injEq] at h
      exact Or.inr ⟨rfl, h.symm, value_of_dead hlive⟩
    | some c₀ =>
      simp only [hlive, Function.update_self, Option.some.injEq] at h
      exact Or.inl ⟨c₀, (live_eq_some.mp hlive).1, by rw [← h]⟩
  · refine Or.inl ⟨c, ?_, rfl⟩
    rw [incr] at h
    cases hlive : redis.live now k with
    | none => simpa only [hlive, Function.update_of_ne hk] using h
    | some c₀ => simpa only [hlive, Function.update_of_ne hk] using h

theorem expire_eq_some (h : redis.expire now k k' = some c) :
    redis k' = some c ∨ k' = k ∧ c.expiresAt = some (now + keyTtl) := by
  rw [expire] at h
  cases hlive : redis.live now k with
  | none => exact Or.inl (by simpa only [hlive] using h)
  | some c₀ =>
    rw [hlive] at h
    by_cases hk : k' = k
    · subst hk
      simp only [Function.update_self, Option.some.injEq] at h
      exact Or.inr ⟨rfl, by rw [← h]⟩
    · exact Or.inl (by simpa only [Function.update_of_ne hk] using h)

theorem expire_open (h : redis.expire now k k' = some c) (hopen : c.expiresAt = none) :
    redis k' = some c ∧ k' ≠ k := by
  rcases expire_eq_some h with hsame | ⟨-, hset⟩
  · refine ⟨hsame, ?_⟩
    rintro rfl
    have hlive : redis.live now k' = some c := live_eq_some.mpr ⟨hsame, by simp [hopen]⟩
    rw [expire, hlive] at h
    simp only [Function.update_self, Option.some.injEq] at h
    rw [← h] at hopen
    cases hopen
  · rw [hopen] at hset
    cases hset

end Redis

end

/-- What the record says about a request agrees with where it stands. -/
def Request.Coherent (limit : ℤ) (r : Request) : Prop :=
  match r.phase with
  | .counting => r.counted = none
  | .expiring => r.counted = some 1
  | .passed => ∃ c : ℕ, r.counted = some c ∧ (c : ℤ) ≤ limit
  | .limited => ∃ c : ℕ, r.counted = some c ∧ limit < c
  | .failedOpen => True
  | .exempt => r.counted = none

section

variable {limit : ℤ} {s : State} {a : Act} {i : ℕ} {r : Request} {ip : String} {w : ℕ}

theorem coherent_verdict {c : ℕ} (hc : r.counted = some c) :
    { r with phase := verdict limit c }.Coherent limit := by
  rw [verdict]
  split_ifs with h
  · exact ⟨c, hc, h⟩
  · exact ⟨c, hc, not_lt.mp h⟩

theorem coherent_afterIncr (r : Request) (c : ℕ) (fault : Fault) :
    { r with phase := afterIncr limit c fault, counted := some c }.Coherent limit := by
  rw [afterIncr]
  split_ifs with hfault hone
  · exact congrArg some hone
  · exact coherent_verdict (r := { r with counted := some c }) rfl
  · trivial

theorem coherent_afterExpire (hone : r.counted = some 1) (fault : Fault) :
    { r with phase := afterExpire limit fault }.Coherent limit := by
  rw [afterExpire]
  split_ifs with hfault
  · exact coherent_verdict hone
  · trivial

theorem coherent_arriving (now : ℕ) (path : String) (client : Option String) :
    (arriving now path client).Coherent limit := by
  rw [Request.Coherent, arriving]
  split_ifs <;> rfl

theorem mem_of_inPhase {phase : Phase} (h : s.inPhase i phase = some r) : r ∈ s.requests :=
  List.mem_of_getElem? (inPhase_eq_some.mp h).1

theorem counts_replace (h : s.requests[i]? = some r) (phase : Phase) :
    (s.replace i { r with phase := phase }).counts ip w = s.counts ip w :=
  FixedWindow.filterMap_set h rfl

theorem counts_replace_of_not (h : s.requests[i]? = some r) (hof : ¬ r.Of ip w) (phase : Phase)
    (c : Option ℕ) :
    (s.replace i { r with phase := phase, counted := c }).counts ip w = s.counts ip w := by
  apply FixedWindow.filterMap_set h
  exact (if_neg hof).trans (if_neg hof).symm

theorem counts_replace_of (h : s.requests[i]? = some r) (hof : r.Of ip w)
    (hnone : r.counted = none) (phase : Phase) (c : ℕ) :
    ((s.replace i { r with phase := phase, counted := some c }).counts ip w).Perm
      (s.counts ip w ++ [c]) := by
  apply FixedWindow.filterMap_set_perm h
  · rw [if_pos hof, hnone]
  · exact if_pos hof

theorem counts_arriving (path : String) (client : Option String) :
    State.counts { s with requests := s.requests ++ [arriving s.now path client] } ip w =
      s.counts ip w := by
  rw [State.counts, List.filterMap_append]
  have hnone : [arriving s.now path client].filterMap
      (fun r => if r.Of ip w then r.counted else none) = [] := by
    rw [List.filterMap_cons_none (by split_ifs <;> rfl)]
    rfl
  rw [hnone, List.append_nil]
  rfl

end

def State.Lasting (s : State) : Prop :=
  ∀ ip w c e, s.redis (key ip w) = some c → c.expiresAt = some e → w * period + keyTtl ≤ e

def State.Coherent (limit : ℤ) (s : State) : Prop := ∀ r ∈ s.requests, r.Coherent limit

def State.value (s : State) (ip : String) (w : ℕ) : ℕ := s.redis.value s.now (key ip w)

section

variable {limit : ℤ} {s : State} {a : Act} {ip : String} {w : ℕ}

/-- What a step does to a client's count in a minute: it counts one more, or it leaves the
count as it is, and then the counter falls back only at its expiry. -/
theorem count_step (hcoh : s.Coherent limit) (hlast : s.Lasting) (ip : String) (w : ℕ) :
    (∃ i fault r, a = .incr i fault ∧ s.inPhase i .counting = some r ∧ r.Of ip w ∧
      ((step limit s a).counts ip w).Perm (s.counts ip w ++ [s.value ip w + 1]) ∧
      (step limit s a).value ip w = s.value ip w + 1) ∨
    ((step limit s a).counts ip w = s.counts ip w ∧
      (step limit s a).value ip w ≤ s.value ip w ∧
      ((step limit s a).now ≤ w * period + keyTtl →
        (step limit s a).value ip w = s.value ip w)) := by
  rcases step_cases limit s a with ⟨δ, -, hs⟩ | ⟨path, client, -, hs⟩ | ⟨i, fault, r, ha, hr, hs⟩ |
    ⟨i, fault, r, -, hr, hs⟩ | hs
  · rw [hs]
    refine Or.inr ⟨rfl, Redis.value_later_le, fun hle => Redis.value_later fun c e hc he => ?_⟩
    exact hle.trans (hlast ip w c e hc he)
  · rw [hs]
    exact Or.inr ⟨counts_arriving path client, le_refl _, fun _ => rfl⟩
  · obtain ⟨hget, hphase⟩ := inPhase_eq_some.mp hr
    have hnone : r.counted = none := by
      have hc := hcoh r (mem_of_inPhase hr)
      rwa [Request.Coherent, hphase] at hc
    rw [hs, State.doIncr]
    by_cases hfault : fault = .lost
    · rw [if_pos hfault]
      exact Or.inr ⟨counts_replace hget _, le_refl _, fun _ => rfl⟩
    · rw [if_neg hfault]
      by_cases hof : r.Of ip w
      · refine Or.inl ⟨i, fault, r, ha, hr, hof, ?_, ?_⟩
        · rw [State.value, ← key_eq_iff.mpr hof]
          exact counts_replace_of hget hof hnone _ _
        · change Redis.value _ _ _ = Redis.value _ _ _ + 1
          rw [← key_eq_iff.mpr hof]
          exact Redis.value_incr_self
      · have hne : key ip w ≠ r.key := fun h => hof (key_eq_iff.mp h.symm)
        have hvalue := @Redis.value_incr_of_ne s.redis s.now _ _ hne
        exact Or.inr ⟨counts_replace_of_not hget hof _ _, hvalue.le, fun _ => hvalue⟩
  · obtain ⟨hget, -⟩ := inPhase_eq_some.mp hr
    rw [hs, State.doExpire]
    by_cases hfault : fault = .lost
    · rw [if_pos hfault]
      exact Or.inr ⟨counts_replace hget _, le_refl _, fun _ => rfl⟩
    · rw [if_neg hfault]
      have hvalue := @Redis.value_expire s.redis s.now r.key (key ip w)
      exact Or.inr ⟨counts_replace hget _, hvalue.le, fun _ => hvalue⟩
  · rw [hs]
    exact Or.inr ⟨rfl, le_refl _, fun _ => rfl⟩

end

structure State.Sound (limit : ℤ) (s : State) : Prop where
  coherent : s.Coherent limit
  arrived : ∀ r ∈ s.requests, r.arrivedAt ≤ s.now
  lasting : s.Lasting
  value_le : ∀ ip w, s.value ip w ≤ (s.counts ip w).length
  counted_le : ∀ ip w, ∀ c ∈ s.counts ip w, c ≤ (s.counts ip w).length

section

variable {limit : ℤ} {s : State} {a : Act} {i : ℕ} {r : Request} {ip : String} {w : ℕ}

theorem lasting_update (h : s.Sound limit) {redis : Redis} (hr : r ∈ s.requests)
    (hnew : ∀ k c, redis k = some c → ∀ e, c.expiresAt = some e →
      (∃ c₀, s.redis k = some c₀ ∧ c₀.expiresAt = some e) ∨
        k = r.key ∧ e = s.now + keyTtl) {requests : List Request} :
    State.Lasting ⟨redis, s.now, requests⟩ := by
  intro ip w c e hc he
  rcases hnew _ c hc e he with ⟨c₀, hc₀, he₀⟩ | ⟨hk, rfl⟩
  · exact h.lasting ip w c₀ e hc₀ he₀
  · have hof := key_eq_iff.mp hk.symm
    have hnow := h.arrived r hr
    have hw : w * period ≤ r.arrivedAt := by
      rw [← hof.2]
      exact Nat.div_mul_le_self r.arrivedAt period
    omega

theorem coherent_step (h : s.Sound limit) : (step limit s a).Coherent limit := by
  rcases step_cases limit s a with ⟨δ, -, hs⟩ | ⟨path, client, -, hs⟩ | ⟨i, fault, r, -, hr, hs⟩ |
    ⟨i, fault, r, -, hr, hs⟩ | hs
  · rw [hs]
    exact h.coherent
  · rw [hs]
    exact List.forall_mem_append.mpr
      ⟨h.coherent, List.forall_mem_singleton.mpr (coherent_arriving s.now path client)⟩
  · rw [hs, State.doIncr]
    split_ifs
    · exact FixedWindow.forall_mem_set h.coherent trivial
    · exact FixedWindow.forall_mem_set h.coherent (coherent_afterIncr r _ fault)
  · have hone : r.counted = some 1 := by
      have hc := h.coherent r (mem_of_inPhase hr)
      rwa [Request.Coherent, (inPhase_eq_some.mp hr).2] at hc
    rw [hs, State.doExpire]
    split_ifs
    · exact FixedWindow.forall_mem_set h.coherent trivial
    · exact FixedWindow.forall_mem_set h.coherent (coherent_afterExpire hone fault)
  · rw [hs]
    exact h.coherent

theorem arrived_step (h : s.Sound limit) :
    ∀ r ∈ (step limit s a).requests, r.arrivedAt ≤ (step limit s a).now := by
  rcases step_cases limit s a with ⟨δ, -, hs⟩ | ⟨path, client, -, hs⟩ | ⟨i, fault, r, -, hr, hs⟩ |
    ⟨i, fault, r, -, hr, hs⟩ | hs
  · rw [hs]
    exact fun r hr => (h.arrived r hr).trans (Nat.le_add_right _ _)
  · rw [hs]
    exact List.forall_mem_append.mpr ⟨h.arrived, List.forall_mem_singleton.mpr le_rfl⟩
  · rw [hs, State.doIncr]
    split_ifs
    · exact FixedWindow.forall_mem_set h.arrived (h.arrived r (mem_of_inPhase hr))
    · exact FixedWindow.forall_mem_set h.arrived (h.arrived r (mem_of_inPhase hr))
  · rw [hs, State.doExpire]
    split_ifs
    · exact FixedWindow.forall_mem_set h.arrived (h.arrived r (mem_of_inPhase hr))
    · exact FixedWindow.forall_mem_set h.arrived (h.arrived r (mem_of_inPhase hr))
  · rw [hs]
    exact h.arrived

theorem lasting_step (h : s.Sound limit) : (step limit s a).Lasting := by
  rcases step_cases limit s a with ⟨δ, -, hs⟩ | ⟨path, client, -, hs⟩ | ⟨i, fault, r, -, hr, hs⟩ |
    ⟨i, fault, r, -, hr, hs⟩ | hs
  · rw [hs]
    exact h.lasting
  · rw [hs]
    exact h.lasting
  · rw [hs, State.doIncr]
    split_ifs
    · exact h.lasting
    · apply lasting_update h (mem_of_inPhase hr)
      intro k c hc e he
      rcases Redis.incr_eq_some hc with ⟨c₀, hc₀, he₀⟩ | ⟨-, rfl, -⟩
      · exact Or.inl ⟨c₀, hc₀, he₀ ▸ he⟩
      · cases he
  · rw [hs, State.doExpire]
    split_ifs
    · exact h.lasting
    · apply lasting_update h (mem_of_inPhase hr)
      intro k c hc e he
      rcases Redis.expire_eq_some hc with hc₀ | ⟨hk, he₀⟩
      · exact Or.inl ⟨c, hc₀, he⟩
      · exact Or.inr ⟨hk, Option.some.inj (he.symm.trans he₀)⟩
  · rw [hs]
    exact h.lasting

theorem sound_step (h : s.Sound limit) : (step limit s a).Sound limit := by
  refine ⟨coherent_step h, arrived_step h, lasting_step h, fun ip w => ?_, fun ip w => ?_⟩
  · have hle := h.value_le ip w
    rcases count_step (a := a) h.coherent h.lasting ip w with ⟨-, -, -, -, -, -, hperm, hvalue⟩ |
      ⟨hcounts, hvalue, -⟩
    · rw [hvalue, hperm.length_eq, List.length_append, List.length_singleton]
      omega
    · rw [hcounts]
      omega
  · have hle := h.value_le ip w
    rcases count_step (a := a) h.coherent h.lasting ip w with ⟨-, -, -, -, -, -, hperm, -⟩ |
      ⟨hcounts, -⟩
    · intro c hc
      rw [hperm.length_eq, List.length_append, List.length_singleton]
      rcases List.mem_append.mp (hperm.mem_iff.mp hc) with hc | hc
      · exact (h.counted_le ip w c hc).trans (Nat.le_succ _)
      · rw [List.mem_singleton.mp hc]
        omega
    · rw [hcounts]
      exact h.counted_le ip w

theorem sound_init (limit : ℤ) (now : ℕ) : (init now).Sound limit where
  coherent := by simp [State.Coherent, init]
  arrived := by simp [init]
  lasting := by simp [State.Lasting, init]
  value_le := fun ip w => by
    rw [State.value, Redis.value_of_dead (Redis.live_eq_none (by simp [init]))]
    exact Nat.zero_le _
  counted_le := by simp [State.counts, init]

theorem sound_exec (limit : ℤ) (now : ℕ) (as : List Act) :
    (Run.exec (step limit) (init now) as).Sound limit :=
  (Run.holds_of_step (I := State.Sound limit) (fun _ _ => sound_step) (sound_init limit now)
    as).last

theorem mem_counts {c : ℕ} (hr : r ∈ s.requests) (hc : r.counted = some c) :
    c ∈ s.counts r.client_ip r.window :=
  List.mem_filterMap.mpr ⟨r, hr, (if_pos ⟨rfl, rfl⟩).trans hc⟩

/-- As long as a prompt request can come, the counter holds the whole count. -/
structure State.Exact (limit : ℤ) (s : State) : Prop extends s.Sound limit where
  counts : ∀ ip w, (s.counts ip w).Perm (List.range' 1 (s.counts ip w).length)
  value : ∀ ip w, s.now ≤ w * period + keyTtl → s.value ip w = (s.counts ip w).length

theorem le_of_prompt (hr : r.window = w) (h : s.now ≤ r.arrivedAt + 30 * second) :
    s.now ≤ w * period + keyTtl := by
  have hlt : r.arrivedAt < period * (r.arrivedAt / period + 1) :=
    Nat.lt_mul_div_succ r.arrivedAt (by decide)
  rw [← hr, Request.window, window]
  have hsum : keyTtl = period + 30 * second := rfl
  rw [hsum]
  rw [Nat.mul_add, Nat.mul_comm] at hlt
  omega

theorem now_le_step : s.now ≤ (step limit s a).now := by
  rcases step_cases limit s a with ⟨δ, -, hs⟩ | ⟨path, client, -, hs⟩ | ⟨i, fault, r, -, hr, hs⟩ |
    ⟨i, fault, r, -, hr, hs⟩ | hs
  · rw [hs]
    exact Nat.le_add_right _ _
  · rw [hs]
  · rw [hs, State.doIncr]
    split_ifs <;> exact le_rfl
  · rw [hs, State.doExpire]
    split_ifs <;> exact le_rfl
  · rw [hs]

theorem exact_step (h : s.Exact limit) (hp : Prompt s a) : (step limit s a).Exact limit := by
  refine ⟨sound_step h.toSound, fun ip w => ?_, fun ip w hle => ?_⟩
  · rcases count_step (a := a) h.coherent h.lasting ip w with
      ⟨i, fault, r, rfl, hr, hof, hperm, hvalue⟩ | ⟨hcounts, -⟩
    · have hfull := h.value ip w (le_of_prompt hof.2 (hp r hr))
      rw [hperm.length_eq, List.length_append, List.length_singleton, List.range'_1_concat,
        Nat.add_comm 1, ← hfull]
      exact hperm.trans (List.Perm.append_right _ (hfull ▸ h.counts ip w))
    · rw [hcounts]
      exact h.counts ip w
  · have hnow := (@now_le_step limit s a).trans hle
    rcases count_step (a := a) h.coherent h.lasting ip w with
      ⟨-, -, -, -, -, -, hperm, hvalue⟩ | ⟨hcounts, -, hvalue⟩
    · rw [hvalue, hperm.length_eq, List.length_append, List.length_singleton, h.value ip w hnow]
    · rw [hvalue hle, hcounts, h.value ip w hnow]

theorem exact_init (limit : ℤ) (now : ℕ) : (init now).Exact limit where
  toSound := sound_init limit now
  counts := fun ip w => by simp [State.counts, init]
  value := fun ip w _ => Nat.le_zero.mp ((sound_init limit now).value_le ip w)

theorem exact_exec {limit : ℤ} {now : ℕ} {as : List Act}
    (h : Run.Guarded (step limit) Prompt (init now) as) :
    (Run.exec (step limit) (init now) as).Exact limit :=
  (Run.holds_of_guarded (I := State.Exact limit) (fun _ _ => exact_step) (exact_init limit now)
    h).last

end

end SiemEngine.RateLimit

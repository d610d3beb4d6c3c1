import Mathlib.Data.List.Forall2
import SiemEngine.Detection.Isolation
import SiemEngine.Detection.WindowOps

/-!
# Windows up to tokens

The random token behind a member only keeps equal values apart. Two windows whose members
differ in their tokens at most answer every evaluation alike, whatever tokens the
evaluation draws, as long as no token is drawn twice.
-/

namespace SiemEngine

namespace Windows

theorem decode_encode (v t : String) : decode (encode v t) = decode v := by
  have htake : ∀ xs : List Char,
      (xs ++ separator :: t.toList).takeWhile (· ≠ separator) = xs.takeWhile (· ≠ separator) := by
    intro xs
    induction xs with
    | nil => simp
    | cons x xs ih =>
      rw [List.cons_append, List.takeWhile_cons, List.takeWhile_cons, ih]
  rw [decode, decode, encode]
  simp only [String.toList_append, String.toList_singleton, List.append_assoc,
    List.singleton_append]
  rw [htake]

/-- A token is what stands behind the last separator. -/
theorem encode_inj {v v' t t' : String} (ht : separator ∉ t.toList) (ht' : separator ∉ t'.toList)
    (h : encode v t = encode v' t') : t = t' := by
  have hlist := congrArg (fun s : String => s.toList.reverse) h
  simp only [encode, String.toList_append, String.toList_singleton, List.reverse_append,
    List.append_assoc, List.singleton_append, List.reverse_cons] at hlist
  have hrev := (split_at_eq (by simpa using ht) (by simpa using ht') hlist).1
  exact String.toList_injective (List.reverse_injective hrev)

inductive SameMember : String × ℚ → String × ℚ → Prop
  | refl (m : String × ℚ) : SameMember m m
  | retoken (v t t' : String) (x : ℚ) : SameMember (encode v t, x) (encode v t', x)

def SameSet (s s' : SortedSet) : Prop :=
  List.Forall₂ SameMember s.members s'.members ∧ s.expiresAt = s'.expiresAt

def UpToTokens (ws ws' : Windows) : Prop :=
  ∀ key, Option.Rel SameSet (Dict.get? ws key) (Dict.get? ws' key)

def Unused (token : String) (ws : Windows) : Prop :=
  ∀ key, ∀ set ∈ Dict.get? ws key, ∀ m ∈ set.members, ∀ v, m.1 ≠ encode v token

def SameTick (tick tick' : Tick) : Prop :=
  tick.clock = tick'.clock ∧ tick.triggeredAt = tick'.triggeredAt

theorem SameMember.score {m m' : String × ℚ} (h : SameMember m m') : m.2 = m'.2 := by
  cases h <;> rfl

theorem SameMember.decode {m m' : String × ℚ} (h : SameMember m m') :
    decode m.1 = decode m'.1 := by
  cases h with
  | refl => rfl
  | retoken v t t' x => exact (decode_encode v t).trans (decode_encode v t').symm

theorem UpToTokens.refl (ws : Windows) : UpToTokens ws ws := by
  intro key
  cases Dict.get? ws key with
  | none => exact Option.Rel.none
  | some set => exact Option.Rel.some ⟨List.forall₂_same.mpr fun m _ => SameMember.refl m, rfl⟩

theorem UpToTokens.trimmed {ws ws' : Windows} (h : UpToTokens ws ws') (clock : Time) (key : String)
    (cutoff : ℚ) : List.Forall₂ SameMember (Windows.trimmed ws clock key cutoff)
      (Windows.trimmed ws' clock key cutoff) := by
  have hkey := h key
  rw [Windows.trimmed, Windows.trimmed]
  generalize Dict.get? ws key = slot at hkey
  generalize Dict.get? ws' key = slot' at hkey
  cases hkey with
  | none => exact List.Forall₂.nil
  | some hset =>
    obtain ⟨hmembers, hexp⟩ := hset
    simp only [hexp]
    split_ifs
    · exact List.Forall₂.nil
    · refine List.rel_filter (fun m m' hm => ?_) hmembers
      simp only [hm.score]

theorem mem_trimmed {ws : Windows} {clock : Time} {key : String} {cutoff : ℚ} {m : String × ℚ}
    (h : m ∈ trimmed ws clock key cutoff) : ∃ set ∈ Dict.get? ws key, m ∈ set.members := by
  rw [trimmed] at h
  split at h
  · exact absurd h List.not_mem_nil
  · rename_i set hset
    split_ifs at h
    · exact absurd h List.not_mem_nil
    · exact ⟨set, hset, List.mem_of_mem_filter h⟩

theorem Unused.set_trimmed {ws : Windows} {token : String} (h : Unused token ws) (clock : Time)
    (key v : String) (cutoff x : ℚ) :
    Dict.set (trimmed ws clock key cutoff) (encode v token) x =
      trimmed ws clock key cutoff ++ [(encode v token, x)] := by
  refine Dict.set_of_notMem (fun hmem => ?_) x
  obtain ⟨m, hm, heq⟩ := List.mem_map.mp hmem
  obtain ⟨set, hset, hm⟩ := mem_trimmed hm
  exact h key set hset m hm v heq

theorem UpToTokens.set {ws ws' : Windows} (h : UpToTokens ws ws') (key : String)
    {s s' : SortedSet} (hs : SameSet s s') :
    UpToTokens (Dict.set ws key s) (Dict.set ws' key s') := by
  intro k
  by_cases hk : k = key
  · rw [hk, Dict.get?_set_self, Dict.get?_set_self]
    exact Option.Rel.some hs
  · rw [Dict.get?_set_ne ws hk, Dict.get?_set_ne ws' hk]
    exact h k

theorem Unused.set {ws : Windows} {token : String} (h : Unused token ws) (key : String)
    {s : SortedSet} (hs : ∀ m ∈ s.members, ∀ v, m.1 ≠ encode v token) :
    Unused token (Dict.set ws key s) := by
  intro k set hset
  by_cases hk : k = key
  · rw [hk, Dict.get?_set_self] at hset
    rwa [← Option.some.inj hset]
  · rw [Dict.get?_set_ne ws hk] at hset
    exact h k set hset

theorem map_decode_eq {α : Type*} {es es' : List (String × ℚ)}
    (h : List.Forall₂ SameMember es es') (f : String → α) :
    es.map (fun e => f (decode e.1)) = es'.map fun e => f (decode e.1) := by
  induction h with
  | nil => rfl
  | cons hm _ ih => rw [List.map_cons, List.map_cons, hm.decode, ih]

theorem toResult_eq {es es' : List (String × ℚ)} (h : List.Forall₂ SameMember es es') (now : ℚ) :
    toResult es now = toResult es' now := by
  have hvalues : es.map (fun e => decode e.1) = es'.map fun e => decode e.1 := map_decode_eq h id
  have hfold : ∀ {es es' : List (String × ℚ)}, List.Forall₂ SameMember es es' →
      ∀ (f : ℚ → ℚ → ℚ) (x : ℚ), es.foldl (fun acc e => f acc e.2) x =
        es'.foldl (fun acc e => f acc e.2) x := by
    intro es es' h f
    induction h with
    | nil => exact fun _ => rfl
    | cons hm _ ih => exact fun x => by rw [List.foldl_cons, List.foldl_cons, hm.score, ih]
  cases h with
  | nil => rfl
  | cons hm hrest =>
    simp only [List.map_cons, List.cons.injEq] at hvalues
    simp only [toResult, List.map_cons, hvalues.1, hvalues.2, hm.score, hrest.length_eq,
      List.length_cons, hfold hrest]

end Windows

open Windows

structure Retokenable {ρ : Type*} (op : Tick → Windows → Windows × ρ) : Prop where
  same : ∀ {tick tick' : Tick}, SameTick tick tick' → ∀ {ws ws' : Windows}, UpToTokens ws ws' →
    Unused tick.token ws → Unused tick'.token ws' →
    (op tick ws).2 = (op tick' ws').2 ∧ UpToTokens (op tick ws).1 (op tick' ws').1
  unused : ∀ {tick : Tick} {token : String}, separator ∉ token.toList →
    separator ∉ tick.token.toList → token ≠ tick.token → ∀ {ws : Windows}, Unused token ws →
    Unused token (op tick ws).1

namespace Windows

theorem add_same {tick tick' : Tick} (ht : SameTick tick tick') {ws ws' : Windows}
    (hws : UpToTokens ws ws') (hu : Unused tick.token ws) (hu' : Unused tick'.token ws')
    (key value : String) (w : ℤ) (now : ℚ) :
    List.Forall₂ SameMember (ws.add tick key value w now).2 (ws'.add tick' key value w now).2 ∧
      UpToTokens (ws.add tick key value w now).1 (ws'.add tick' key value w now).1 := by
  have hmembers : List.Forall₂ SameMember (ws.add tick key value w now).2
      (ws'.add tick' key value w now).2 := by
    simp only [add, hu.set_trimmed, hu'.set_trimmed, ht.1]
    exact List.rel_append (hws.trimmed _ _ _)
      (List.Forall₂.cons (SameMember.retoken _ _ _ _) List.Forall₂.nil)
  refine ⟨hmembers, hws.set key ⟨hmembers, ?_⟩⟩
  rw [ht.1]

theorem unused_add {tick : Tick} {token : String} (hs : separator ∉ token.toList)
    (hst : separator ∉ tick.token.toList) (hne : token ≠ tick.token) {ws : Windows}
    (hu : Unused token ws) (key value : String) (w : ℤ) (now : ℚ) :
    Unused token (ws.add tick key value w now).1 := by
  refine hu.set key fun m hm v heq => ?_
  rcases Dict.mem_set hm with hm | rfl
  · obtain ⟨set, hset, hm⟩ := mem_trimmed hm
    exact hu key set hset m hm v heq
  · exact hne (encode_inj hst hs heq).symm

theorem retokenable_add {ρ : Type} (key value : String) (w : ℤ) (now : ℚ)
    (f : List (String × ℚ) → ρ)
    (hf : ∀ es es', List.Forall₂ SameMember es es' → f es = f es') :
    Retokenable fun tick ws =>
      ((ws.add tick key value w now).1, f (ws.add tick key value w now).2) := by
  refine ⟨fun ht _ _ hws hu hu' => ?_, fun hs hst hne _ hu => unused_add hs hst hne hu _ _ _ _⟩
  obtain ⟨hmembers, hws'⟩ := add_same ht hws hu hu' key value w now
  exact ⟨hf _ _ hmembers, hws'⟩

theorem retokenable_measure (name entity : String) (w : ℤ) :
    Retokenable fun tick ws => ws.measure tick name entity w := by
  refine ⟨fun {tick tick'} ht {ws ws'} hws _ _ => ?_, fun {tick token} _ _ _ {ws} hu => ?_⟩
  · have hmembers := hws.trimmed tick'.clock (key name entity)
      (Binary64.sub (Datetime.timestamp tick'.clock) w)
    simp only [measure, ht.1]
    refine ⟨toResult_eq hmembers _, ?_⟩
    have hkey := hws (key name entity)
    generalize Dict.get? ws (key name entity) = slot at hkey
    generalize Dict.get? ws' (key name entity) = slot' at hkey
    cases hkey with
    | none => exact hws
    | some hset => exact hws.set _ ⟨hmembers, hset.2⟩
  · simp only [measure]
    split
    · exact hu
    · refine hu.set _ fun m hm v heq => ?_
      obtain ⟨set, hset, hm⟩ := mem_trimmed hm
      exact hu _ set hset m hm v heq

end Windows

theorem WindowOp.retokenable {ρ : Type} {op : Tick → Windows → Windows × ρ} (h : WindowOp op) :
    Retokenable op := by
  induction h with
  | const r => exact ⟨fun _ _ _ h _ _ => ⟨rfl, h⟩, fun _ _ _ _ h => h⟩
  | addAndMeasure name entity value w now =>
    exact retokenable_add _ value w now (toResult · now) fun _ _ h => toResult_eq h now
  | incrSum py name entity amount w now =>
    exact retokenable_add _ _ w now _ fun _ _ h =>
      congrArg List.sum (map_decode_eq h fun v => (Text.pyInt py 10 v).getD 0)
  | measure name entity w => exact retokenable_measure name entity w
  | map _ f ih =>
    refine ⟨fun ht _ _ hws hu hu' => ?_, fun hs hst hne _ hu => ih.unused hs hst hne hu⟩
    obtain ⟨hres, hws'⟩ := ih.same ht hws hu hu'
    exact ⟨congrArg f hres, hws'⟩

namespace DetectionEngine

variable {py : Python} {engine : DetectionEngine} {ev : SecurityEvent}

def tokens (ticks : Rule → Tick) : List String := Rule.all.map fun r => (ticks r).token

/-- Tokens as they are drawn: without a separator, all different, and not yet in use. -/
structure Fresh (ts : List String) (ws : Windows) : Prop where
  nodup : ts.Nodup
  separator : ∀ t ∈ ts, Windows.separator ∉ t.toList
  unused : ∀ t ∈ ts, Unused t ws

theorem runDetector_same {ticks ticks' : Rule → Tick} (ht : ∀ r, SameTick (ticks r) (ticks' r))
    {ws ws' : Windows} (hws : UpToTokens ws ws') (rule : Rule) (hu : Unused (ticks rule).token ws)
    (hu' : Unused (ticks' rule).token ws') (ds : List Detection) :
    (engine.runDetector py ticks ev (ws, ds) rule).2 =
        (engine.runDetector py ticks' ev (ws', ds) rule).2 ∧
      UpToTokens (engine.runDetector py ticks ev (ws, ds) rule).1
        (engine.runDetector py ticks' ev (ws', ds) rule).1 := by
  obtain ⟨hres, hws₁⟩ :=
    (rule.windowOp_evaluate py engine.params ev).retokenable.same (ht rule) hws hu hu'
  unfold runDetector
  split_ifs
  · exact ⟨rfl, hws⟩
  · dsimp only at hres hws₁ ⊢
    generalize rule.evaluate py engine.params (ticks rule) ev ws = out at hres hws₁ ⊢
    generalize rule.evaluate py engine.params (ticks' rule) ev ws' = out' at hres hws₁ ⊢
    obtain ⟨w, r⟩ := out
    obtain ⟨w', r'⟩ := out'
    cases hres
    cases r with
    | error e => exact ⟨rfl, hws₁⟩
    | ok d? =>
      cases d? with
      | none => exact ⟨rfl, hws₁⟩
      | some d => exact ⟨by simp only [(ht rule).2], hws₁⟩

theorem runDetector_unused {ticks : Rule → Tick} {ws : Windows} {rule : Rule} {token : String}
    (hs : separator ∉ token.toList) (hst : separator ∉ (ticks rule).token.toList)
    (hne : token ≠ (ticks rule).token) (hu : Unused token ws) (ds : List Detection) :
    Unused token (engine.runDetector py ticks ev (ws, ds) rule).1 := by
  have hnext := (rule.windowOp_evaluate py engine.params ev).retokenable.unused hs hst hne hu
  unfold runDetector
  split_ifs
  · exact hu
  · generalize rule.evaluate py engine.params (ticks rule) ev ws = out at hnext ⊢
    obtain ⟨w, r⟩ := out
    cases r with
    | error e => exact hnext
    | ok d? => cases d? <;> exact hnext

theorem Fresh.runDetector {ticks : Rule → Tick} {rule : Rule} {ts : List String} {ws : Windows}
    (h : Fresh ((ticks rule).token :: ts) ws) (ds : List Detection) :
    Fresh ts (engine.runDetector py ticks ev (ws, ds) rule).1 := by
  obtain ⟨hmem, hnodup⟩ := List.nodup_cons.mp h.nodup
  obtain ⟨hsep, hseps⟩ := List.forall_mem_cons.mp h.separator
  refine ⟨hnodup, hseps, fun t ht => ?_⟩
  have hne : t ≠ (ticks rule).token := fun heq => hmem (heq ▸ ht)
  exact runDetector_unused (hseps t ht) hsep hne (h.unused t (List.mem_cons_of_mem _ ht)) ds

theorem Fresh.foldl {ticks : Rule → Tick} {rules : List Rule} {ts : List String} {ws : Windows}
    (h : Fresh ((rules.map fun r => (ticks r).token) ++ ts) ws) (ds : List Detection) :
    Fresh ts (rules.foldl (engine.runDetector py ticks ev) (ws, ds)).1 := by
  induction rules generalizing ws ds with
  | nil => exact h
  | cons rule rules ih => exact ih (Fresh.runDetector h ds) _

theorem foldl_same {ticks ticks' : Rule → Tick} (ht : ∀ r, SameTick (ticks r) (ticks' r))
    {rules : List Rule} {ts ts' : List String} {ws ws' : Windows} (hws : UpToTokens ws ws')
    (hf : Fresh ((rules.map fun r => (ticks r).token) ++ ts) ws)
    (hf' : Fresh ((rules.map fun r => (ticks' r).token) ++ ts') ws') (ds : List Detection) :
    (rules.foldl (engine.runDetector py ticks ev) (ws, ds)).2 =
        (rules.foldl (engine.runDetector py ticks' ev) (ws', ds)).2 ∧
      UpToTokens (rules.foldl (engine.runDetector py ticks ev) (ws, ds)).1
        (rules.foldl (engine.runDetector py ticks' ev) (ws', ds)).1 := by
  induction rules generalizing ws ws' ds with
  | nil => exact ⟨rfl, hws⟩
  | cons rule rules ih =>
    have hstep := @runDetector_same py engine ev _ _ ht _ _ hws rule
      (hf.unused _ List.mem_cons_self) (hf'.unused _ List.mem_cons_self) ds
    have hnext := ih hstep.2 (hf.runDetector ds) (hf'.runDetector ds)
      (engine.runDetector py ticks ev (ws, ds) rule).2
    rw [List.foldl_cons, List.foldl_cons]
    have hpair : engine.runDetector py ticks' ev (ws', ds) rule =
        ((engine.runDetector py ticks' ev (ws', ds) rule).1,
          (engine.runDetector py ticks ev (ws, ds) rule).2) := Prod.ext rfl hstep.1.symm
    rw [hpair]
    exact hnext

theorem Fresh.evaluate {ticks : Rule → Tick} {ts : List String} {ws : Windows}
    (h : Fresh (tokens ticks ++ ts) ws) : Fresh ts (engine.evaluate py ticks ev ws).1 :=
  Fresh.foldl h []

theorem evaluate_same {ticks ticks' : Rule → Tick} (ht : ∀ r, SameTick (ticks r) (ticks' r))
    {ts ts' : List String} {ws ws' : Windows} (hws : UpToTokens ws ws')
    (hf : Fresh (tokens ticks ++ ts) ws) (hf' : Fresh (tokens ticks' ++ ts') ws') :
    (engine.evaluate py ticks ev ws).2 = (engine.evaluate py ticks' ev ws').2 ∧
      UpToTokens (engine.evaluate py ticks ev ws).1 (engine.evaluate py ticks' ev ws').1 :=
  foldl_same ht hws hf hf' []

end DetectionEngine

end SiemEngine

import Mathlib.Data.List.TakeWhile
import SiemEngine.Detection.Tokens
import SiemEngine.Lib.Retention

/-!
# Sliding windows over their history

Calls on any keys are processed in order. What a key holds, and what a call on it answers,
is determined by the calls on that key: each keeps its member until a later one finds the
key expired or has a cutoff that reaches the member's score. Where the scores do not
decrease and no key expires, what is trimmed is never asked for again. A call of `incr_sum`
raises when the interpreter does not print its amount.
-/

namespace SiemEngine.Windows

inductive Operation
  | addAndMeasure (value : String)
  | incrSum (amount : ℤ)

/-- What a member encodes; `none` when `str(amount)` raises. -/
def Operation.value? : Operation → Option String
  | .addAndMeasure value => some value
  | .incrSum amount =>
    if amount.natAbs < 10 ^ Text.maxStrDigits then some (toString amount) else none

def Operation.isSum : Operation → Bool
  | .addAndMeasure _ => false
  | .incrSum _ => true

def Operation.amount : Operation → ℤ
  | .addAndMeasure _ => 0
  | .incrSum amount => amount

structure Call where
  tick : Tick
  name : String
  entity : String
  operation : Operation
  windowSeconds : ℤ
  now : ℚ

inductive Answer
  | measured (res : WindowResult)
  | total (amount : ℤ)
  | valueError

namespace Call

def key (c : Call) : String := Windows.key c.name c.entity

def value (c : Call) : String := c.operation.value?.getD ""

def member (c : Call) : String := encode c.value c.tick.token

def entry (c : Call) : String × ℚ := (c.member, c.now)

def run (py : Python) (ws : Windows) (c : Call) : Windows × Answer :=
  match c.operation with
  | .addAndMeasure value =>
    let out := ws.addAndMeasure c.tick c.name c.entity value c.windowSeconds c.now
    (out.1, .measured out.2)
  | .incrSum amount =>
    if c.operation.value? = none then (ws, .valueError)
    else
      let out := ws.incrSum py c.tick c.name c.entity amount c.windowSeconds c.now
      (out.1, .total out.2)

end Call

def after (py : Python) (ws : Windows) (cs : List Call) : Windows :=
  cs.foldl (fun ws c => (c.run py ws).1) ws

def reading : Retention.Reading Call ℚ Time where
  adds _ := true
  score := Call.now
  cutoff c := Binary64.sub c.now c.windowSeconds
  clock c := c.tick.clock
  expiry c := c.tick.clock + (c.windowSeconds + 30) * Datetime.microsPerSecond

abbrev live (cs : List Call) : List Call := reading.survivors cs

def slot (cs : List Call) : Option SortedSet :=
  (reading.expiryFrom none cs).map fun e => ⟨(live cs).map Call.entry, e⟩

def onKey (key : String) (cs : List Call) : List Call := cs.filter fun c => c.key = key

variable {py : Python} {ws : Windows} {key : String} {cs : List Call} {c : Call}

theorem onKey_concat (key : String) (cs : List Call) (c : Call) :
    onKey key (cs ++ [c]) = onKey key cs ++ if c.key = key then [c] else [] := by
  rw [onKey, List.filter_append, onKey]
  by_cases h : c.key = key <;> simp [h]

theorem live_sublist (cs : List Call) : (live cs).Sublist cs :=
  (reading.survivors_sublist cs).trans List.filter_sublist

theorem live_concat (cs : List Call) (c : Call) : live (cs ++ [c]) = (live cs).filter (fun a =>
    reading.keeps (reading.expiryFrom none cs) a.now c) ++ [c] :=
  Retention.Reading.survivors_concat cs c

theorem trimmed_slot (h : Dict.get? ws key = slot cs) (c : Call) :
    trimmed ws c.tick.clock key (reading.cutoff c) =
      ((live cs).filter fun a =>
        reading.keeps (reading.expiryFrom none cs) a.now c).map Call.entry := by
  rw [trimmed, h, slot]
  cases hlast : reading.expiryFrom none cs with
  | none =>
    rw [live, Retention.Reading.survivors_eq_nil_of_expiryFrom hlast]
    rfl
  | some t =>
    have hkeeps : ∀ x, reading.keeps (some t) x c =
        (decide (c.tick.clock ≤ t) && decide (reading.cutoff c < x)) := fun x => rfl
    by_cases hexp : t < c.tick.clock
    · simp [hkeeps, hexp, not_le.mpr hexp]
    · simp only [Option.map_some, if_neg hexp, hkeeps, not_lt.mp hexp, decide_true, Bool.true_and,
        List.filter_map]
      rfl

theorem add_eq (h : Dict.get? ws c.key = slot cs) (hnew : c.member ∉ cs.map Call.member) :
    (ws.add c.tick c.key c.value c.windowSeconds c.now).2 = (live (cs ++ [c])).map Call.entry ∧
      Dict.get? (ws.add c.tick c.key c.value c.windowSeconds c.now).1 c.key =
        slot (cs ++ [c]) := by
  have hmembers : Dict.set (trimmed ws c.tick.clock c.key (Binary64.sub c.now c.windowSeconds))
      c.member c.now = (live (cs ++ [c])).map Call.entry := by
    rw [← show reading.cutoff c = Binary64.sub c.now c.windowSeconds from rfl, trimmed_slot h c,
      Dict.set_of_notMem, live_concat, List.map_append]
    · rfl
    · intro hmem
      rw [List.map_map] at hmem
      obtain ⟨a, ha, heq⟩ := List.mem_map.mp hmem
      have hold : a ∈ cs := (live_sublist cs).subset (List.mem_of_mem_filter ha)
      exact hnew (List.mem_map.mpr ⟨a, hold, heq⟩)
  have hexp : reading.expiryFrom none (cs ++ [c]) = some (reading.expiry c) := by
    rw [Retention.Reading.expiryFrom_concat]
    rfl
  refine ⟨hmembers, ?_⟩
  rw [add, Dict.get?_set_self, slot, hexp, Option.map_some]
  exact congrArg (fun ms => some (SortedSet.mk ms _)) hmembers

def answer (py : Python) (c : Call) (entries : List (String × ℚ)) : Answer :=
  match c.operation with
  | .addAndMeasure _ => .measured (toResult entries c.now)
  | .incrSum _ => .total (entries.map fun m => (Text.pyInt py 10 (decode m.1)).getD 0).sum

theorem run_eq_add (h : c.operation.value? ≠ none) :
    c.run py ws = let out := ws.add c.tick c.key c.value c.windowSeconds c.now
      (out.1, answer py c out.2) := by
  obtain ⟨tick, name, entity, operation, windowSeconds, now⟩ := c
  cases operation with
  | addAndMeasure value => rfl
  | incrSum amount =>
    have hvalue : (Operation.incrSum amount).value? = some (toString amount) := by
      simp only [Operation.value?] at h ⊢
      split_ifs at h ⊢ with hlt
      · rfl
      · exact absurd rfl h
    simp only [Call.run, Call.value, hvalue, Option.getD_some]
    rfl

theorem run_eq (hv : c.operation.value? ≠ none) (h : Dict.get? ws c.key = slot cs)
    (hnew : c.member ∉ cs.map Call.member) :
    (c.run py ws).2 = answer py c ((live (cs ++ [c])).map Call.entry) ∧
      Dict.get? (c.run py ws).1 c.key = slot (cs ++ [c]) := by
  obtain ⟨hmembers, hslot⟩ := add_eq h hnew
  rw [run_eq_add hv]
  exact ⟨congrArg (answer py c) hmembers, hslot⟩

theorem get?_run_of_ne (hv : c.operation.value? ≠ none) (h : c.key ≠ key) :
    Dict.get? (c.run py ws).1 key = Dict.get? ws key := by
  rw [run_eq_add hv]
  exact Dict.get?_set_ne ws h.symm _

/-- The run lemma: after any calls a key holds what the calls on it determine. -/
theorem slot_after (py : Python) (cs : List Call) (hv : ∀ c ∈ cs, c.operation.value? ≠ none)
    (hd : (cs.map Call.member).Nodup) (key : String) :
    Dict.get? (after py [] cs) key = slot (onKey key cs) := by
  induction cs using List.reverseRecOn with
  | nil => rfl
  | append_singleton cs c ih =>
    have hstep : after py [] (cs ++ [c]) = (c.run py (after py [] cs)).1 := by
      rw [after, List.foldl_append]
      rfl
    rw [List.map_append, List.map_singleton, List.nodup_append] at hd
    have hprev := ih (fun a ha => hv a (List.mem_append_left _ ha)) hd.1
    rw [hstep, onKey_concat]
    by_cases hkey : c.key = key
    · subst hkey
      rw [if_pos rfl]
      refine (run_eq (hv c (List.mem_append_right _ (List.mem_singleton_self c))) hprev ?_).2
      intro hmem
      obtain ⟨a, ha, heq⟩ := List.mem_map.mp hmem
      exact hd.2.2 _ (List.mem_map.mpr ⟨a, List.mem_of_mem_filter ha, rfl⟩) _
        (List.mem_singleton_self _) heq
    · have hvalue := hv c (List.mem_append_right _ (List.mem_singleton_self c))
      rw [get?_run_of_ne hvalue hkey, if_neg hkey, List.append_nil, hprev]

/-- Every key is used with one operation and one positive window, in timestamp order, with
tokens and values that keep its members apart, and is never found expired. -/
structure Orderly (cs : List Call) : Prop where
  alike : ∀ a ∈ cs, ∀ b ∈ cs, a.key = b.key →
    a.operation.isSum = b.operation.isSum ∧ a.windowSeconds = b.windowSeconds
  positive : ∀ c ∈ cs, 0 < c.windowSeconds
  ordered : cs.Pairwise fun a b => a.key = b.key → a.now ≤ b.now
  separated : ∀ c ∈ cs, c.operation.isSum = false → separator ∉ c.value.toList
  tokens : (cs.map fun c => c.tick.token).Nodup
  unexpired : ∀ key, reading.Unexpired none (onKey key cs)

/-- The calls that a call answers about: those before it on its key with a timestamp behind
the cutoff, and itself at the end of its interval. -/
def within (cutoff : Call → ℚ) (cs : List Call) (c : Call) : List Call :=
  (cs.filter fun a => a.key = c.key ∧ cutoff c < a.now ∧ a.now ≤ c.now) ++ [c]

def ExactAnswer (as : List Call) (c : Call) : Answer → Prop
  | .measured res => c.operation.isSum = false ∧ res.count = as.length ∧ res.uniqueValues.Nodup ∧
      (∀ v, v ∈ res.uniqueValues ↔ ∃ a ∈ as, a.value = v) ∧
      IsLeast {x | ∃ a ∈ as, a.now = x} res.oldestTs ∧
      IsGreatest {x | ∃ a ∈ as, a.now = x} res.newestTs
  | .total amount => c.operation.isSum = true ∧ amount = (as.map fun a => a.operation.amount).sum
  | .valueError => False

def Exact (py : Python) (cutoff : Call → ℚ) (cs : List Call) : Prop :=
  ∀ i c, cs[i]? = some c →
    ExactAnswer (within cutoff (cs.take i) c) c (c.run py (after py [] (cs.take i))).2

/-- The lower end of the interval, and the double that the store computes for it. -/
def exactCutoff (c : Call) : ℚ := c.now - c.windowSeconds

def storedCutoff (c : Call) : ℚ := Binary64.sub c.now c.windowSeconds

theorem separator_notMem_value (h : c.operation.isSum = false → separator ∉ c.value.toList) :
    separator ∉ c.value.toList := by
  cases hop : c.operation with
  | addAndMeasure value => exact h (by rw [hop]; rfl)
  | incrSum amount =>
    simp only [Call.value, hop, Operation.value?]
    split_ifs
    · intro hmem
      have hchar := Text.mem_toString hmem
      exact absurd hchar (by decide)
    · exact List.not_mem_nil

theorem Orderly.members_nodup (h : Orderly cs) : (cs.map Call.member).Nodup := by
  have hpair := List.pairwise_map.mp h.tokens
  refine List.pairwise_map.mpr (hpair.imp_of_mem fun {a b} ha hb hne heq => hne ?_)
  have hlist := congrArg String.toList heq
  simp only [Call.member, encode, String.toList_append, String.toList_singleton,
    List.append_assoc, List.singleton_append] at hlist
  exact String.toList_injective (split_at_eq (separator_notMem_value (h.separated a ha))
    (separator_notMem_value (h.separated b hb)) hlist).2

theorem Orderly.live_eq (h : Orderly cs) {i : ℕ} (hi : cs[i]? = some c) :
    live (onKey c.key (cs.take i) ++ [c]) = within storedCutoff (cs.take i) c := by
  have htake : cs.take (i + 1) = cs.take i ++ [c] := by
    rw [List.take_add_one, hi]
    rfl
  have hkeys : onKey c.key (cs.take (i + 1)) = onKey c.key (cs.take i) ++ [c] := by
    rw [htake, onKey_concat, if_pos rfl]
  have hunexpired : reading.Unexpired none (onKey c.key (cs.take i) ++ [c]) := by
    have hall := h.unexpired c.key
    rw [← List.take_append_drop (i + 1) cs, onKey, List.filter_append,
      Retention.Reading.unexpired_append] at hall
    exact hkeys ▸ hall.1
  have hbefore : ∀ a ∈ onKey c.key (cs.take i), a.key = c.key ∧ a.now ≤ c.now := by
    intro a ha
    obtain ⟨hmem, hkey⟩ := List.mem_filter.mp ha
    have hpair := h.ordered.sublist (htake ▸ List.take_sublist (i + 1) cs)
    have hkey := of_decide_eq_true hkey
    exact ⟨hkey, (List.pairwise_append.mp hpair).2.2 a hmem c (List.mem_singleton_self c) hkey⟩
  have hcutoff : ∀ a ∈ onKey c.key (cs.take i), reading.cutoff a ≤ reading.cutoff c := by
    intro a ha
    obtain ⟨hkey, hle⟩ := hbefore a ha
    have hold : a ∈ cs := (List.take_sublist i cs).subset (List.mem_of_mem_filter ha)
    have hwindow := (h.alike a hold c (List.mem_of_getElem? hi) hkey).2
    change Binary64.sub a.now a.windowSeconds ≤ Binary64.sub c.now c.windowSeconds
    rw [hwindow]
    exact Binary64.sub_mono hle le_rfl
  have hlive := hunexpired.survivors_concat_filter rfl fun xs a ys heq _ hlt d hd =>
    (hcutoff d (heq ▸ List.mem_append_right xs (List.mem_cons_of_mem a hd))).trans_lt hlt
  rw [live, hlive, within, onKey, List.filter_filter]
  congr 1
  refine List.filter_congr fun a ha => ?_
  by_cases hkey : a.key = c.key
  · have hle : a.now ≤ c.now := (hbefore a (List.mem_filter.mpr ⟨ha, decide_eq_true hkey⟩)).2
    have hkept : (reading.adds a && decide (reading.cutoff c < reading.score a)) =
        decide (storedCutoff c < a.now) := rfl
    simp [hkept, hkey, hle]
  · simp [hkey]

theorem decode_member (h : c.operation.isSum = false → separator ∉ c.value.toList) :
    decode c.member = c.value := by
  have hchars : ∀ x ∈ c.value.toList, x ≠ separator := fun x hx heq =>
    separator_notMem_value h (heq ▸ hx)
  rw [Call.member, decode_encode, decode, List.takeWhile_eq_self_iff.mpr (by simpa using hchars),
    String.ofList_toList]

theorem pyInt_value (py : Python) (hsum : c.operation.isSum = true)
    (hv : c.operation.value? ≠ none) : Text.pyInt py 10 c.value = some c.operation.amount := by
  rw [Call.value]
  cases hop : c.operation with
  | addAndMeasure value => simp [hop, Operation.isSum] at hsum
  | incrSum amount =>
    simp only [hop, Operation.value?] at hv ⊢
    split_ifs at hv ⊢ with hlt
    · exact Text.pyInt_toString py hlt
    · exact absurd rfl hv

theorem exactAnswer_answer {as : List Call} (hne : as ≠ [])
    (hop : ∀ a ∈ as, a.operation.isSum = c.operation.isSum)
    (hdecode : ∀ a ∈ as, decode a.member = a.value)
    (hv : ∀ a ∈ as, a.operation.value? ≠ none) :
    ExactAnswer as c (answer py c (as.map Call.entry)) := by
  rw [answer]
  cases hc : c.operation with
  | addAndMeasure value =>
    have hentries : as.map Call.entry ≠ [] := fun h => hne (List.map_eq_nil_iff.mp h)
    have hvalues : (as.map Call.entry).map (fun e => decode e.1) = as.map Call.value := by
      rw [List.map_map]
      exact List.map_congr_left hdecode
    have hends := toResult_extrema hentries c.now
    have hscores : {x | ∃ e ∈ as.map Call.entry, e.2 = x} = {x | ∃ a ∈ as, a.now = x} := by
      ext x
      simp [Call.entry]
    rw [hscores] at hends
    have hres : (toResult (as.map Call.entry) c.now).count = as.length ∧
        (toResult (as.map Call.entry) c.now).uniqueValues = (as.map Call.value).dedup := by
      rw [← hvalues]
      refine ⟨?_, uniqueValues_toResult _ _⟩
      obtain ⟨a, rest, rfl⟩ := List.exists_cons_of_ne_nil hne
      rw [← List.length_map Call.entry]
      rfl
    refine ⟨by rw [hc]; rfl, hres.1, ?_, ?_, hends⟩
    · rw [hres.2]
      exact List.nodup_dedup _
    · intro v
      rw [hres.2, List.mem_dedup, List.mem_map]
  | incrSum amount =>
    have hsum : c.operation.isSum = true := by rw [hc]; rfl
    refine ⟨hsum, congrArg List.sum ?_⟩
    rw [List.map_map]
    refine List.map_congr_left fun a ha => ?_
    have hread : Text.pyInt py 10 (decode a.member) = some a.operation.amount := by
      rw [hdecode a ha]
      exact pyInt_value py ((hop a ha).trans hsum) (hv a ha)
    simp only [Function.comp_apply, Call.entry, hread, Option.getD_some]

def Printable (c : Call) : Prop := c.operation.amount.natAbs < 10 ^ Text.maxStrDigits

instance (c : Call) : Decidable (Printable c) := inferInstanceAs (Decidable (_ < _))

theorem Printable.value?_ne_none (h : Printable c) : c.operation.value? ≠ none := by
  rw [Printable] at h
  cases hop : c.operation with
  | addAndMeasure value => exact Option.some_ne_none value
  | incrSum amount =>
    have hsmall : amount.natAbs < 10 ^ Text.maxStrDigits := by
      rw [hop] at h
      exact h
    rw [Operation.value?, if_pos hsmall]
    exact Option.some_ne_none _

theorem Orderly.exact_stored (py : Python) (h : Orderly cs) (hp : ∀ c ∈ cs, Printable c) :
    Exact py storedCutoff cs := by
  intro i c hi
  have hc := List.mem_of_getElem? hi
  have hpre : (cs.take i).Sublist cs := List.take_sublist i cs
  have hv : ∀ a ∈ cs, a.operation.value? ≠ none := fun a ha => (hp a ha).value?_ne_none
  have hmembers : ((cs.take i ++ [c]).map Call.member).Nodup := by
    have htake : cs.take (i + 1) = cs.take i ++ [c] := by
      rw [List.take_add_one, hi]
      rfl
    rw [← htake]
    exact h.members_nodup.sublist ((List.take_sublist (i + 1) cs).map _)
  rw [List.map_append, List.map_singleton, List.nodup_append] at hmembers
  have hslot := slot_after py (cs.take i) (fun a ha => hv a (hpre.subset ha)) hmembers.1 c.key
  have hnew : c.member ∉ (onKey c.key (cs.take i)).map Call.member := by
    intro hmem
    obtain ⟨a, ha, heq⟩ := List.mem_map.mp hmem
    exact hmembers.2.2 _ (List.mem_map_of_mem (List.mem_of_mem_filter ha)) _
      (List.mem_singleton_self _) heq
  have hwithin : ∀ a ∈ within storedCutoff (cs.take i) c, a ∈ cs ∧ a.key = c.key := by
    intro a ha
    rcases List.mem_append.mp ha with ha | ha
    · obtain ⟨hmem, hkey⟩ := List.mem_filter.mp ha
      exact ⟨hpre.subset hmem, (of_decide_eq_true hkey).1⟩
    · rw [List.mem_singleton.mp ha]
      exact ⟨hc, rfl⟩
  rw [(run_eq (hv c hc) hslot hnew).1, h.live_eq hi]
  exact exactAnswer_answer (List.append_ne_nil_of_right_ne_nil _ (List.cons_ne_nil c []))
    (fun a ha => (h.alike a (hwithin a ha).1 c hc (hwithin a ha).2).1)
    (fun a ha => decode_member (h.separated a (hwithin a ha).1)) fun a ha => hv a (hwithin a ha).1

/-- On ordered input every answer is about exactly the interval that the store's cutoff
bounds, which is the interval of the timestamps themselves where these are doubles from
zero to `2 ^ 53`. -/
theorem ordered_exact (py : Python) (cs : List Call) (h : Orderly cs)
    (hp : ∀ c ∈ cs, Printable c) :
    Exact py storedCutoff cs ∧
      ((∀ c ∈ cs, Binary64.nearest c.now = c.now ∧ 0 ≤ c.now ∧ c.now < 2 ^ 53) →
        Exact py exactCutoff cs) := by
  refine ⟨h.exact_stored py hp, fun hnow i c hi => ?_⟩
  have hsame : within exactCutoff (cs.take i) c = within storedCutoff (cs.take i) c := by
    obtain ⟨hdouble, hnonneg, hlt⟩ := hnow c (List.mem_of_getElem? hi)
    refine congrArg (· ++ [c]) (List.filter_congr fun a ha => ?_)
    have hcut := Binary64.sub_lt_iff hdouble hnonneg hlt
      (h.positive c (List.mem_of_getElem? hi)).le (hnow a ((List.take_sublist i cs).subset ha)).2.1
    exact decide_eq_decide.mpr (and_congr_right fun _ => and_congr_left fun _ => hcut.symm)
  rw [hsame]
  exact h.exact_stored py hp i c hi

theorem run_of_not_printable (h : ¬ Printable c) : c.run py ws = (ws, .valueError) := by
  obtain ⟨tick, name, entity, operation, windowSeconds, now⟩ := c
  cases operation with
  | addAndMeasure value =>
    have hsmall : (0 : ℤ).natAbs < 10 ^ Text.maxStrDigits := Nat.pow_pos (by decide)
    exact absurd hsmall h
  | incrSum amount =>
    have hlarge : ¬ amount.natAbs < 10 ^ Text.maxStrDigits := h
    have hnone : (Operation.incrSum amount).value? = none := by
      rw [Operation.value?, if_neg hlarge]
    simp only [Call.run, hnone, if_true]

theorem not_exact_of_not_printable {cutoff : Call → ℚ} (hc : c ∈ cs) (h : ¬ Printable c) :
    ¬ Exact py cutoff cs := by
  intro hexact
  obtain ⟨i, hi⟩ := List.getElem?_of_mem hc
  have hanswer := hexact i c hi
  rw [run_of_not_printable h] at hanswer
  exact hanswer

theorem unexpired_of_clock (clock : Time) (h : ∀ c ∈ cs, c.tick.clock = clock)
    (hw : ∀ c ∈ cs, 0 < c.windowSeconds) (key : String) :
    reading.Unexpired none (onKey key cs) := by
  refine Retention.Reading.unexpired_of_bound clock (fun _ ht => absurd ht (Option.not_mem_none _))
    (fun c hc => (h c (List.mem_of_mem_filter hc)).le) fun c hc _ => ?_
  have hclock := h c (List.mem_of_mem_filter hc)
  have hwindow := hw c (List.mem_of_mem_filter hc)
  change clock ≤ c.tick.clock + (c.windowSeconds + 30) * Datetime.microsPerSecond
  rw [hclock]
  exact (Int.lt_add_of_pos_right _ (mul_pos (by omega) (by decide))).le

theorem ordered_exact_two_keys :
    let call (token name : String) (operation : Operation) (now : ℚ) : Call :=
      ⟨⟨0, token, 0⟩, name, "198.51.100.7", operation, 60, now⟩
    Exact Python.ascii exactCutoff
      [call "1" "portscan" (.addAndMeasure "22") 10, call "2" "exfil" (.incrSum 500) 11,
        call "3" "portscan" (.addAndMeasure "22") 70, call "4" "exfil" (.incrSum (-20)) 71] := by
  intro call
  exact (ordered_exact Python.ascii _ ⟨by decide +kernel, by decide +kernel, by decide +kernel,
    by decide +kernel, by decide +kernel, unexpired_of_clock 0 (by decide +kernel)
    (by decide +kernel)⟩ (by decide +kernel)).2 (by decide +kernel)

/-- An entry 60 seconds minus a rounding error old is trimmed, and an amount of 4301 digits
is not stored at all. -/
theorem rounded_cutoff_inexact :
    let call (token : String) (operation : Operation) (now : ℚ) : Call :=
      ⟨⟨0, token, 0⟩, "portscan", "198.51.100.7", operation, 60, now⟩
    let early := [call "1" (.addAndMeasure "22") (Binary64.nearest (-599 / 10)),
      call "2" (.addAndMeasure "23") (Binary64.nearest (1 / 10))]
    let large := [call "1" (.incrSum (10 ^ Text.maxStrDigits)) 0]
    (Orderly early ∧ ¬ Exact Python.ascii exactCutoff early) ∧
      Orderly large ∧ ¬ Exact Python.ascii exactCutoff large := by
  intro call early large
  refine ⟨⟨⟨by decide +kernel, by decide +kernel, by decide +kernel, by decide +kernel,
    by decide +kernel, unexpired_of_clock 0 (by decide +kernel) (by decide +kernel)⟩, fun h => ?_⟩,
    ⟨by decide +kernel, by decide +kernel, by decide +kernel, by decide +kernel,
    by decide +kernel, unexpired_of_clock 0 (by decide +kernel) (by decide +kernel)⟩, fun h => ?_⟩
  · have hcount : ((after Python.ascii [] (early.take 1)).addAndMeasure ⟨0, "2", 0⟩ "portscan"
        "198.51.100.7" "23" 60 (Binary64.nearest (1 / 10))).2.count =
          (within exactCutoff (early.take 1) (early.getLast (List.cons_ne_nil _ _))).length :=
      (h 1 _ rfl).2.1
    exact absurd hcount (by decide +kernel)
  · have hlarge : ¬ Printable (call "1" (.incrSum (10 ^ Text.maxStrDigits)) 0) := by
      simp [call, Printable, Operation.amount, Int.natAbs_pow]
    exact not_exact_of_not_printable (List.mem_singleton_self _) hlarge h

end SiemEngine.Windows

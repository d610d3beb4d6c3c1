import Mathlib.Data.List.Induction
import Mathlib.Data.List.Nodup
import SiemEngine.Lib.Run

/-!
# Replication by change messages

A store commits transactions. Each leaves a message about every row it wrote, in the order
written, in an outbox of its own, from which they are sent one by one; the outboxes take turns in
any order, and what waits in one can be lost. A follower holds the last message about each key.
It agrees with the store on a key, however the outboxes take turns, exactly while no transaction
says something else than it writes, or writes the key under a message that still waits and says
something else.
-/

namespace Replica

variable {κ ν : Type*}

structure State (κ ν : Type*) where
  row : κ → Option ν
  outboxes : List (List (κ × ν)) := []
  log : List (κ × ν) := []

/-- A transaction commits keys with the row it writes and what its message says. -/
inductive Act (κ ν : Type*)
  | commit (writes : List (κ × ν × ν))
  | send (i : ℕ)
  | lose (i : ℕ)

def send (s : State κ ν) (i : ℕ) : State κ ν :=
  match s.outboxes[i]? with
  | some (m :: rest) =>
    { s with outboxes := s.outboxes.set i rest, log := s.log ++ [m] }
  | _ => s

theorem send_cases (s : State κ ν) (i : ℕ) : send s i = s ∨
    ∃ m rest, s.outboxes[i]? = some (m :: rest) ∧
      send s i = { s with outboxes := s.outboxes.set i rest, log := s.log ++ [m] } := by
  rw [send]
  cases ho : s.outboxes[i]? with
  | none => exact Or.inl rfl
  | some o =>
    cases o with
    | nil => exact Or.inl rfl
    | cons m rest => exact Or.inr ⟨m, rest, rfl, rfl⟩

theorem exists_drain (s : State κ ν) {i : ℕ} {o : List (κ × ν)}
    (ho : s.outboxes[i]? = some o) : ∃ is : List ℕ, is.foldl send s =
      { s with outboxes := s.outboxes.set i [], log := s.log ++ o } := by
  induction o generalizing s with
  | nil =>
    refine ⟨[], ?_⟩
    obtain ⟨hi, hget⟩ := List.getElem?_eq_some_iff.mp ho
    have hset : s.outboxes.set i [] = s.outboxes := by rw [← hget, List.set_getElem_self]
    rw [List.foldl_nil, hset, List.append_nil]
  | cons m rest ih =>
    have hi := (List.getElem?_eq_some_iff.mp ho).1
    have hsend : send s i =
        { s with outboxes := s.outboxes.set i rest, log := s.log ++ [m] } := by
      rw [send, ho]
    obtain ⟨is, his⟩ := ih (send s i) (by rw [hsend]; exact List.getElem?_set_self hi)
    refine ⟨i :: is, ?_⟩
    rw [List.foldl_cons, his, hsend, List.set_set, List.append_assoc, List.singleton_append]

def emptied (js : List ℕ) (outboxes : List (List (κ × ν))) : List (List (κ × ν)) :=
  outboxes.mapIdx fun i o => if i ∈ js then [] else o

theorem getElem?_emptied (js : List ℕ) (outboxes : List (List (κ × ν))) (i : ℕ) :
    (emptied js outboxes)[i]? = outboxes[i]?.map fun o => if i ∈ js then [] else o :=
  List.getElem?_mapIdx

theorem exists_drain_all {κ ν : Type*} (s : State κ ν) (js : List ℕ) :
    ∃ (is : List ℕ) (sent : List (κ × ν)), is.foldl send s =
      { s with outboxes := emptied js s.outboxes, log := s.log ++ sent } := by
  induction js with
  | nil =>
    refine ⟨[], [], ?_⟩
    have hall : emptied [] s.outboxes = s.outboxes := by
      refine List.ext_getElem? fun i => ?_
      rw [getElem?_emptied, Option.map_congr fun _ _ => if_neg List.not_mem_nil, Option.map_id']
    rw [hall, List.append_nil]
    rfl
  | cons j js ih =>
    obtain ⟨is, sent, his⟩ := ih
    have hget : (is.foldl send s).outboxes[j]? =
        s.outboxes[j]?.map fun o => if j ∈ js then [] else o := by
      rw [his]
      exact getElem?_emptied js s.outboxes j
    cases ho : s.outboxes[j]? with
    | none =>
      refine ⟨is, sent, ?_⟩
      have hsame : emptied (j :: js) s.outboxes = emptied js s.outboxes := by
        refine List.ext_getElem? fun i => ?_
        rw [getElem?_emptied, getElem?_emptied]
        by_cases hij : i = j
        · rw [hij, ho, Option.map_none, Option.map_none]
        · simp only [List.mem_cons, hij, false_or]
      rw [his, hsame]
    | some o =>
      rw [ho, Option.map_some] at hget
      obtain ⟨is', his'⟩ := exists_drain (is.foldl send s) hget
      have hset : (emptied js s.outboxes).set j [] = emptied (j :: js) s.outboxes := by
        refine List.ext_getElem? fun i => ?_
        rw [List.getElem?_set, emptied, List.length_mapIdx, ← emptied, getElem?_emptied,
          getElem?_emptied]
        have hj := (List.getElem?_eq_some_iff.mp ho).1
        by_cases hij : j = i
        · subst hij
          simp only [hj, ho, ↓reduceIte, Option.map_some, List.mem_cons, true_or]
        · simp only [hij, ↓reduceIte, List.mem_cons, Ne.symm hij, false_or]
      refine ⟨is ++ is', sent ++ (if j ∈ js then [] else o), ?_⟩
      rw [List.foldl_append, his', his, List.append_assoc]
      exact congrArg (fun outboxes => State.mk s.row outboxes _) hset

variable [DecidableEq κ]

def last (k : κ) (log : List (κ × ν)) : Option ν := log.reverse.lookup k

@[simp] theorem last_nil (k : κ) : last k ([] : List (κ × ν)) = none := rfl

theorem last_append (k : κ) (xs ys : List (κ × ν)) :
    last k (xs ++ ys) = (last k ys).or (last k xs) := by
  rw [last, List.reverse_append, List.lookup_append]
  rfl

theorem last_singleton (k : κ) (m : κ × ν) : last k [m] = if k = m.1 then some m.2 else none := by
  rw [last, List.reverse_singleton]
  by_cases hk : k = m.1
  · rw [if_pos hk, hk]
    exact List.lookup_cons_self
  · simp [hk]

theorem last_cons (k : κ) (m : κ × ν) (xs : List (κ × ν)) :
    last k (m :: xs) = (last k xs).or (if k = m.1 then some m.2 else none) := by
  rw [← List.singleton_append, last_append, last_singleton]

theorem last_cons_of_ne {k : κ} {m : κ × ν} (h : k ≠ m.1) (xs : List (κ × ν)) :
    last k (m :: xs) = last k xs := by
  rw [last_cons, if_neg h, Option.or_none]

theorem last_map {μ : Type*} (f : ν → μ) (k : κ) (xs : List (κ × ν)) :
    last k (xs.map fun x => (x.1, f x.2)) = (last k xs).map f := by
  induction xs with
  | nil => rfl
  | cons x xs ih =>
    rw [List.map_cons, last_cons, ih, last_cons, Option.map_or]
    by_cases hk : k = x.1 <;> simp [hk]

def messages (writes : List (κ × ν × ν)) : List (κ × ν) := writes.map fun x => (x.1, x.2.2)

def step (s : State κ ν) : Act κ ν → State κ ν
  | .commit writes =>
    { s with
      row := fun k => ((last k writes).map Prod.fst).or (s.row k)
      outboxes := s.outboxes ++ [messages writes] }
  | .send i => send s i
  | .lose i => { s with outboxes := s.outboxes.set i [] }

def Settled (k : κ) (s : State κ ν) : Prop := ∀ o ∈ s.outboxes, last k o = none

def Agrees (k : κ) (s : State κ ν) : Prop := last k s.log = s.row k

/-- The follower agrees whenever, from here, the outboxes take turns until nothing waits. -/
def Converges (k : κ) (s : State κ ν) : Prop :=
  ∀ is : List ℕ, Settled k (is.foldl send s) → Agrees k (is.foldl send s)

/-- Whatever is said or waits about a written row is the row, and what is lost would have changed
nothing. -/
def Allowed (k : κ) (s : State κ ν) : Act κ ν → Prop
  | .commit writes => ∀ v ∈ last k writes,
      v.2 = v.1 ∧ ∀ o ∈ s.outboxes, ∀ w ∈ last k o, w = v.1
  | .send _ => True
  | .lose i => Settled k (step s (.lose i)) → Agrees k s

structure Tracks (k : κ) (s : State κ ν) : Prop where
  waiting : ∀ o ∈ s.outboxes, ∀ w ∈ last k o, s.row k = some w
  settled : Settled k s → Agrees k s

section

variable {k : κ} {s : State κ ν}

theorem mem_set_of_mem {α : Type*} {l : List α} {i : ℕ} {a b c : α} (hi : l[i]? = some c)
    (hb : b ∈ l) (hne : b ≠ c) : b ∈ l.set i a := by
  obtain ⟨j, hj⟩ := List.mem_iff_getElem?.mp hb
  have hij : i ≠ j := by
    intro heq
    rw [heq, hj, Option.some_inj] at hi
    exact hne hi
  exact List.mem_of_getElem? ((List.getElem?_set_ne hij).trans hj)

theorem tracks_commit (h : Tracks k s) {writes : List (κ × ν × ν)}
    (ha : Allowed k s (.commit writes)) : Tracks k (step s (.commit writes)) := by
  refine ⟨fun o ho w hw => ?_, fun hs => ?_⟩
  · change ((last k writes).map Prod.fst).or (s.row k) = some w
    rcases List.mem_append.mp ho with ho | ho
    · cases hwrites : last k writes with
      | none => exact h.waiting o ho w hw
      | some v =>
        have hv : w = v.1 := (ha v hwrites).2 o ho w hw
        rw [hv, Option.map_some, Option.some_or]
    · rw [List.mem_singleton.mp ho, messages, last_map, Option.mem_def,
        Option.map_eq_some_iff] at hw
      obtain ⟨v, hv, rfl⟩ := hw
      rw [hv, Option.map_some, Option.some_or, (ha v hv).1]
  · have hwrites : (last k writes).map Prod.snd = none := by
      rw [← last_map]
      exact hs _ (List.mem_append_right _ (List.mem_singleton_self _))
    change last k s.log = ((last k writes).map Prod.fst).or (s.row k)
    rw [Option.map_eq_none_iff.mp hwrites, Option.map_none, Option.none_or]
    exact h.settled fun o ho => hs o (List.mem_append_left _ ho)

theorem tracks_send (h : Tracks k s) (i : ℕ) : Tracks k (send s i) := by
  rcases send_cases s i with heq | ⟨m, rest, ho, heq⟩
  · rw [heq]
    exact h
  · rw [heq]
    have hmem := List.mem_of_getElem? ho
    refine ⟨fun o' ho' w hw => ?_, fun hs => ?_⟩
    · change s.row k = some w
      rcases List.mem_or_eq_of_mem_set ho' with hold | rfl
      · exact h.waiting o' hold w hw
      · refine h.waiting _ hmem w ?_
        rw [last_cons, Option.mem_def.mp hw, Option.some_or, Option.mem_def]
    · have hrest : last k rest = none :=
        hs rest (List.mem_set (List.getElem?_eq_some_iff.mp ho).1 rest)
      change last k (s.log ++ [m]) = s.row k
      rw [last_append, last_singleton]
      by_cases hk : k = m.1
      · rw [if_pos hk, Option.some_or]
        refine (h.waiting _ hmem m.2 ?_).symm
        rw [last_cons, hrest, if_pos hk, Option.none_or, Option.mem_def]
      · rw [if_neg hk, Option.none_or]
        refine h.settled fun o' ho' => ?_
        by_cases hne : o' = m :: rest
        · rw [hne, last_cons_of_ne hk, hrest]
        · exact hs o' (mem_set_of_mem ho ho' hne)

theorem tracks_lose (h : Tracks k s) {i : ℕ} (ha : Allowed k s (.lose i)) :
    Tracks k (step s (.lose i)) := by
  refine ⟨fun o ho w hw => ?_, fun hs => ha hs⟩
  rcases List.mem_or_eq_of_mem_set ho with hold | rfl
  · exact h.waiting o hold w hw
  · cases hw

theorem tracks_step (a : Act κ ν) (h : Tracks k s) (ha : Allowed k s a) : Tracks k (step s a) := by
  cases a with
  | commit rows => exact tracks_commit h ha
  | send i => exact tracks_send h i
  | lose i => exact tracks_lose h ha

theorem tracks_sends (h : Tracks k s) (is : List ℕ) : Tracks k (is.foldl send s) := by
  induction is generalizing s with
  | nil => exact h
  | cons i is ih => exact ih (tracks_send h i)

theorem Tracks.converges (h : Tracks k s) : Converges k s :=
  fun is => (tracks_sends h is).settled

theorem exists_last (s : State κ ν) {o : List (κ × ν)} (ho : o ∈ s.outboxes) {w : ν}
    (hw : last k o = some w) : ∃ is : List ℕ, Settled k (is.foldl send s) ∧
      last k (is.foldl send s).log = some w ∧ (is.foldl send s).row = s.row := by
  obtain ⟨i, hi⟩ := List.mem_iff_getElem?.mp ho
  obtain ⟨is, sent, his⟩ := exists_drain_all s ((List.range s.outboxes.length).erase i)
  have hnot : i ∉ (List.range s.outboxes.length).erase i :=
    List.nodup_range.not_mem_erase
  have hget : (is.foldl send s).outboxes[i]? = some o := by
    rw [his]
    change (emptied _ s.outboxes)[i]? = some o
    rw [getElem?_emptied, hi, Option.map_some, if_neg hnot]
  obtain ⟨is', his'⟩ := exists_drain (is.foldl send s) hget
  refine ⟨is ++ is', fun o' ho' => ?_, ?_, ?_⟩
  · rw [List.foldl_append, his', his] at ho'
    obtain ⟨j, hj⟩ := List.mem_iff_getElem?.mp ho'
    have hempty : o' = [] := by
      change ((emptied _ s.outboxes).set i [])[j]? = some o' at hj
      rw [List.getElem?_set, getElem?_emptied] at hj
      by_cases hij : i = j
      · rw [if_pos hij] at hj
        split_ifs at hj
        exact (Option.some.inj hj).symm
      · rw [if_neg hij] at hj
        obtain ⟨b, hb, hbo⟩ := Option.map_eq_some_iff.mp hj
        have hlen := (List.getElem?_eq_some_iff.mp hb).1
        rw [if_pos ((List.mem_erase_of_ne (Ne.symm hij)).mpr (List.mem_range.mpr hlen))] at hbo
        exact hbo.symm
    rw [hempty, last_nil]
  · rw [List.foldl_append, his', last_append, hw, Option.some_or]
  · rw [List.foldl_append, his', his]

theorem allowed_of_converges (a : Act κ ν) (hc : Converges k (step s a)) : Allowed k s a := by
  cases a with
  | commit writes =>
    intro v hv
    -- whatever still waits is the row: let it go last
    have hlast : ∀ o ∈ (step s (.commit writes)).outboxes, ∀ w ∈ last k o, w = v.1 := by
      intro o ho w hw
      obtain ⟨is, hsettled, hlog, hrow⟩ := exists_last (k := k) _ ho hw
      have hagrees : last k (is.foldl send (step s (.commit writes))).log = _ := hc is hsettled
      have hnew : (step s (.commit writes)).row k = some v.1 := by
        change ((last k writes).map Prod.fst).or (s.row k) = some v.1
        rw [Option.mem_def.mp hv, Option.map_some, Option.some_or]
      rw [hlog, hrow, hnew] at hagrees
      exact Option.some.inj hagrees
    refine ⟨hlast _ (List.mem_append_right _ (List.mem_singleton_self _)) v.2 ?_,
      fun o ho => hlast o (List.mem_append_left _ ho)⟩
    rw [messages, last_map, Option.mem_def.mp hv]
    rfl
  | send i => trivial
  | lose i => exact fun hs => hc [] hs

end

/-- The follower keeps the newest messages, at most one about each key. -/
def upsert (n : ℕ) (shown : List (κ × ν)) (m : κ × ν) : List (κ × ν) :=
  (m :: shown.filter fun x => x.1 ≠ m.1).take n

def newest (log : List (κ × ν)) : List (κ × ν) :=
  log.foldl (fun shown m => m :: shown.filter fun x => x.1 ≠ m.1) []

theorem newest_concat (log : List (κ × ν)) (m : κ × ν) :
    newest (log ++ [m]) = m :: (newest log).filter fun x => x.1 ≠ m.1 := by
  rw [newest, List.foldl_append]
  rfl

theorem nodup_newest (log : List (κ × ν)) : ((newest log).map Prod.fst).Nodup := by
  induction log using List.reverseRecOn with
  | nil => exact List.nodup_nil
  | append_singleton log m ih =>
    rw [newest_concat, List.map_cons, List.nodup_cons]
    refine ⟨?_, ih.sublist (List.filter_sublist.map _)⟩
    simp

theorem mem_newest {log : List (κ × ν)} {m : κ × ν} :
    m ∈ newest log ↔ last m.1 log = some m.2 := by
  induction log using List.reverseRecOn with
  | nil => simp [newest]
  | append_singleton log x ih =>
    rw [newest_concat, last_append, last_singleton, List.mem_cons, List.mem_filter]
    by_cases hk : m.1 = x.1
    · rw [if_pos hk, Option.some_or, Option.some_inj]
      constructor
      · intro h
        rcases h with rfl | ⟨-, hne⟩
        · rfl
        · simp [hk] at hne
      · intro hv
        exact Or.inl (Prod.ext hk hv.symm)
    · rw [if_neg hk, Option.none_or, ← ih]
      constructor
      · intro h
        rcases h with rfl | ⟨hm, -⟩
        · exact absurd rfl hk
        · exact hm
      · intro hm
        exact Or.inr ⟨hm, by simpa using hk⟩

theorem take_filter_take {n : ℕ} {l : List (κ × ν)} (hl : (l.map Prod.fst).Nodup) (k : κ) :
    ((l.take (n + 1)).filter fun x => x.1 ≠ k).take n = (l.filter fun x => x.1 ≠ k).take n := by
  induction l generalizing n with
  | nil => simp
  | cons x l ih =>
    rw [List.map_cons, List.nodup_cons] at hl
    by_cases hx : x.1 = k
    · have hrest : ∀ y ∈ l, decide (y.1 ≠ k) = true := by
        intro y hy
        refine decide_eq_true fun hyk => hl.1 ?_
        rw [hx, ← hyk]
        exact List.mem_map_of_mem hy
      have hcut : ∀ y ∈ l.take n, decide (y.1 ≠ k) = true := fun y hy =>
        hrest y (List.mem_of_mem_take hy)
      rw [List.take_succ_cons, List.filter_cons_of_neg (by simpa using hx),
        List.filter_cons_of_neg (by simpa using hx), List.filter_eq_self.mpr hrest,
        List.filter_eq_self.mpr hcut, List.take_take, Nat.min_self]
    · rw [List.take_succ_cons, List.filter_cons_of_pos (by simpa using hx),
        List.filter_cons_of_pos (by simpa using hx)]
      cases n with
      | zero => simp
      | succ n => rw [List.take_succ_cons, List.take_succ_cons, ih hl.2]

/-- A follower of bounded size has the newest of the last messages. -/
theorem foldl_upsert (n : ℕ) (log : List (κ × ν)) :
    log.foldl (upsert n) [] = (newest log).take n := by
  induction log using List.reverseRecOn with
  | nil => simp [newest]
  | append_singleton log m ih =>
    rw [List.foldl_append, ih, List.foldl_cons, List.foldl_nil, newest_concat, upsert]
    cases n with
    | zero => simp
    | succ n =>
      rw [List.take_succ_cons, List.take_succ_cons, take_filter_take (nodup_newest log)]

end Replica

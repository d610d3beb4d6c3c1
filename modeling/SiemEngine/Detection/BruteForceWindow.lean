import SiemEngine.Detection.Isolation
import SiemEngine.Lib.Retention

/-!
# The brute-force window of a source IP

What the window of an IP holds is determined by the arrivals of that IP: a failure is
stored until an evaluation of the IP finds the key expired or has a cutoff that reaches
the failure's timestamp. A failure is evaluated at its own timestamp, a success at the
wall clock. The random tokens are assumed to tell the members of a window apart.
-/

namespace SiemEngine.BruteForce

open Footprint

def concerns (ip : String) (o : Sighting) : Bool :=
  appliesTo o.event && o.event.sourceText = some ip

def arrivals (ip : String) (os : List Sighting) : List Sighting := os.filter (concerns ip)

def isFailure (o : Sighting) : Bool := o.event.eventType ≠ .authSuccess

def tick (o : Sighting) : Tick := o.ticks .bruteForce

def member (o : Sighting) : String := Windows.encode (o.event.user.getD "-") (tick o).token

def entry (o : Sighting) : String × ℚ := (member o, o.event.epoch)

def measuredAt (o : Sighting) : ℚ :=
  if o.event.eventType = .authSuccess then Datetime.timestamp (tick o).clock else o.event.epoch

def reading (p : Params) : Retention.Reading Sighting ℚ Time where
  adds := isFailure
  score o := o.event.epoch
  cutoff o := Binary64.sub (measuredAt o) p.bruteForceWindow
  clock o := (tick o).clock
  expiry o := (tick o).clock + (p.bruteForceWindow + 30) * Datetime.microsPerSecond

/-- The failures among the arrivals of an IP that its window still holds. -/
abbrev live (p : Params) (as : List Sighting) : List Sighting := (reading p).survivors as

def slot (p : Params) (e : Option Time) (as : List Sighting) : Option SortedSet :=
  ((reading p).expiryFrom e as).map fun e => ⟨(live p as).map entry, e⟩

def DistinctMembers (as : List Sighting) : Prop := ((as.filter isFailure).map member).Nodup

instance (as : List Sighting) : Decidable (DistinctMembers as) :=
  inferInstanceAs (Decidable (List.Nodup _))

variable {p : Params} {ip : String}

theorem cutoff_of_isFailure {o : Sighting} (h : isFailure o) :
    (reading p).cutoff o = Binary64.sub o.event.epoch p.bruteForceWindow := by
  have hne : o.event.eventType ≠ .authSuccess := by simpa [isFailure] using h
  simp [reading, measuredAt, hne]

theorem DistinctMembers.sublist {as bs : List Sighting} (h : DistinctMembers bs)
    (hs : as.Sublist bs) : DistinctMembers as :=
  List.Nodup.sublist ((hs.filter isFailure).map member) h

theorem member_notMem_live {as : List Sighting} {o : Sighting} (h : DistinctMembers (as ++ [o]))
    (ho : isFailure o) : member o ∉ (live p as).map member := by
  rw [DistinctMembers, List.filter_append, List.map_append, List.filter_cons_of_pos ho] at h
  intro hmem
  have hsub := (((reading p).survivors_sublist as).map member).subset hmem
  exact (List.disjoint_of_nodup_append h) hsub (by simp)

theorem trimmed_slot {ws : Windows} {e : Option Time} {as : List Sighting}
    (h : Dict.get? ws (Windows.key "bruteforce" ip) = slot p e as) (o : Sighting) :
    Windows.trimmed ws (tick o).clock (Windows.key "bruteforce" ip) ((reading p).cutoff o) =
      ((live p as).filter fun a =>
        (reading p).keeps ((reading p).expiryFrom none as) a.event.epoch o).map entry := by
  rw [Windows.trimmed, h, slot, (reading p).expiryFrom_eq_or e]
  cases hlast : (reading p).expiryFrom none as with
  | none =>
    rw [live, Retention.Reading.survivors_eq_nil_of_expiryFrom hlast, Option.none_or]
    cases e <;> simp
  | some t =>
    have hkeeps : ∀ x, (reading p).keeps (some t) x o =
        (decide ((tick o).clock ≤ t) && decide ((reading p).cutoff o < x)) := fun x => rfl
    by_cases hexp : t < (tick o).clock
    · simp [hkeeps, hexp, not_le.mpr hexp]
    · simp only [Option.some_or, Option.map_some, if_neg hexp, hkeeps, not_lt.mp hexp, decide_true,
        Bool.true_and, List.filter_map]
      rfl

theorem live_concat (p : Params) (as : List Sighting) (o : Sighting) :
    live p (as ++ [o]) = (live p as).filter (fun a =>
      (reading p).keeps ((reading p).expiryFrom none as) a.event.epoch o) ++
      if isFailure o then [o] else [] :=
  Retention.Reading.survivors_concat as o

theorem observe_eq {ws : Windows} {e : Option Time} {as : List Sighting} {o : Sighting}
    (h : Dict.get? ws (Windows.key "bruteforce" ip) = slot p e as)
    (ho : isFailure o → member o ∉ (live p as).map member) :
    (observe p (tick o) o.event ip ws).2 =
        Windows.toResult ((live p (as ++ [o])).map entry) (measuredAt o) ∧
      Dict.get? (observe p (tick o) o.event ip ws).1 (Windows.key "bruteforce" ip) =
        slot p e (as ++ [o]) := by
  have htrim := trimmed_slot h o
  have hlive := live_concat p as o
  by_cases hsucc : o.event.eventType = .authSuccess
  · have hfail : isFailure o = false := by simp [isFailure, hsucc]
    have hcut : (reading p).cutoff o =
        Binary64.sub (Datetime.timestamp (tick o).clock) p.bruteForceWindow := by
      simp [reading, measuredAt, hsucc]
    rw [hcut] at htrim
    rw [hfail, if_neg Bool.false_ne_true, List.append_nil] at hlive
    have hexp : (reading p).expiryFrom e (as ++ [o]) = (reading p).expiryFrom e as := by
      rw [Retention.Reading.expiryFrom_concat]
      exact if_neg (by simp [reading, hfail])
    refine ⟨by simp only [observe, if_pos hsucc, Windows.measure, htrim, hlive, measuredAt], ?_⟩
    simp only [observe, if_pos hsucc, Windows.measure, htrim, h, slot, hexp, hlive]
    cases hlast : (reading p).expiryFrom e as with
    | none => simp only [Option.map_none, h, slot, hlast]
    | some t => simp only [Option.map_some, Dict.get?_set_self]
  · have hfail : isFailure o = true := by simp [isFailure, hsucc]
    have hcut : (reading p).cutoff o = Binary64.sub o.event.epoch p.bruteForceWindow := by
      simp [reading, measuredAt, hsucc]
    rw [hcut] at htrim
    have hmembers : Dict.set (Windows.trimmed ws (tick o).clock (Windows.key "bruteforce" ip)
          (Binary64.sub o.event.epoch p.bruteForceWindow)) (member o) o.event.epoch =
        (live p (as ++ [o])).map entry := by
      rw [htrim, Dict.set_of_notMem, hlive, if_pos hfail, List.map_append]
      · rfl
      · intro hmem
        rw [List.map_map] at hmem
        obtain ⟨a, ha, heq⟩ := List.mem_map.mp hmem
        exact ho hfail (List.mem_map.mpr ⟨a, List.mem_of_mem_filter ha, heq⟩)
    have hexp : (reading p).expiryFrom e (as ++ [o]) =
        some ((tick o).clock + (p.bruteForceWindow + 30) * Datetime.microsPerSecond) := by
      rw [Retention.Reading.expiryFrom_concat]
      exact if_pos hfail
    refine ⟨?_, ?_⟩
    · simp only [observe, if_neg hsucc, Windows.addAndMeasure, Windows.add, measuredAt]
      exact congrArg (fun ms => Windows.toResult ms o.event.epoch) hmembers
    · simp only [observe, if_neg hsucc, Windows.addAndMeasure, Windows.add, Dict.get?_set_self,
        slot, hexp, Option.map_some]
      exact congrArg (fun ms => some (SortedSet.mk ms _)) hmembers

section

variable {py : Python} {o : Sighting} {ws : Windows}

theorem concerns_iff : concerns ip o ↔ appliesTo o.event ∧ o.event.sourceText = some ip := by
  simp [concerns]

theorem attempt_of_concerns (hw : o.Watched .bruteForce) (hc : concerns ip o) :
    o.attempt py p .bruteForce ws =
      ((observe p (tick o) o.event ip ws).1,
        if ((observe p (tick o) o.event ip ws).2.count : ℤ) < p.maxFailures then none
        else some (detection py p o.event ip (observe p (tick o) o.event ip ws).2
          (o.event.eventType = .authSuccess))) := by
  obtain ⟨happlies, hip⟩ := concerns_iff.mp hc
  have happlies' : Rule.bruteForce.appliesTo py o.event := happlies
  have heval : Rule.bruteForce.evaluate py p (o.ticks .bruteForce) o.event ws =
      let out := observe p (tick o) o.event ip ws
      if (out.2.count : ℤ) < p.maxFailures then (out.1, .ok none)
      else (out.1, .ok (some
        (detection py p o.event ip out.2 (o.event.eventType = .authSuccess)))) := by
    simp only [Rule.evaluate, evaluate, hip]
    rfl
  rw [Sighting.attempt_of_watched hw, if_pos happlies', heval]
  by_cases hcount : ((observe p (tick o) o.event ip ws).2.count : ℤ) < p.maxFailures
  · simp only [if_pos hcount, Except.toOption, Option.join_some]
  · simp only [if_neg hcount, Except.toOption, Option.join_some]

theorem get?_attempt_of_not_concerns (hw : o.Watched .bruteForce) (hc : ¬ concerns ip o) :
    Dict.get? (o.attempt py p .bruteForce ws).1 (Windows.key "bruteforce" ip) =
      Dict.get? ws (Windows.key "bruteforce" ip) := by
  by_cases happlies : appliesTo o.event
  · cases hip : o.event.sourceText with
    | none =>
      have hnone : o.event.sourceIp = none := Option.map_eq_none_iff.mp hip
      simp [appliesTo, hnone] at happlies
    | some ip' =>
      rw [attempt_of_concerns hw (concerns_iff.mpr ⟨happlies, hip⟩)]
      refine (Rule.localTo_observe p (tick o) o.event ip').frame ws _ fun hkey => ?_
      obtain ⟨-, rfl⟩ := Windows.key_inj (by decide) (by decide) hkey
      exact hc (concerns_iff.mpr ⟨happlies, hip⟩)
  · have hskip : ¬ Rule.bruteForce.appliesTo py o.event := happlies
    rw [Sighting.attempt_of_watched hw, if_neg hskip]

theorem arrivals_concat (os : List Sighting) (o : Sighting) :
    arrivals ip (os ++ [o]) = arrivals ip os ++ if concerns ip o then [o] else [] := by
  rw [arrivals, List.filter_append, arrivals]
  by_cases h : concerns ip o <;> simp [h]

theorem get?_evaluate (o : Sighting) (ws : Windows) :
    Dict.get? (o.evaluate py p ws).1 (Windows.key "bruteforce" ip) =
      Dict.get? (o.attempt py p .bruteForce ws).1 (Windows.key "bruteforce" ip) :=
  o.agree_evaluate .bruteForce (Agree.refl ws) _ ⟨"bruteforce", by decide, ip, rfl⟩

/-- The run theorem: after any stream the window of an IP is what its arrivals determine. -/
theorem slot_after {e : Option Time} (h : Dict.get? ws (Windows.key "bruteforce" ip) = slot p e [])
    (os : List Sighting) (hw : ∀ o ∈ os, o.Watched .bruteForce)
    (hd : DistinctMembers (arrivals ip os)) :
    Dict.get? (Sighting.after py p ws os) (Windows.key "bruteforce" ip) =
      slot p e (arrivals ip os) := by
  induction os using List.reverseRecOn with
  | nil => exact h
  | append_singleton os o ih =>
    have ho := hw o (List.mem_append_right _ (List.mem_singleton_self o))
    rw [arrivals_concat] at hd ⊢
    have hprev := ih (fun o' ho' => hw o' (List.mem_append_left _ ho'))
      (hd.sublist (List.sublist_append_left _ _))
    have hstep : Sighting.after py p ws (os ++ [o]) =
        (o.evaluate py p (Sighting.after py p ws os)).1 := by
      rw [Sighting.after, List.foldl_append]
      rfl
    rw [hstep, get?_evaluate]
    by_cases hc : concerns ip o
    · rw [if_pos hc] at hd ⊢
      rw [attempt_of_concerns ho hc]
      exact (observe_eq hprev (member_notMem_live hd)).2
    · rw [get?_attempt_of_not_concerns ho hc, if_neg hc, List.append_nil, hprev]

def measured (p : Params) (ip : String) (os : List Sighting) (o : Sighting) : WindowResult :=
  Windows.toResult ((live p (arrivals ip os ++ [o])).map entry) (measuredAt o)

theorem count_toResult (as : List Sighting) (now : ℚ) :
    (Windows.toResult (as.map entry) now).count = as.length := by
  cases as with
  | nil => rfl
  | cons a as => simp [Windows.toResult]

theorem count_measured (os : List Sighting) (o : Sighting) :
    (measured p ip os o).count = (live p (arrivals ip os ++ [o])).length :=
  count_toResult _ _

theorem detectionsIn_after {e : Option Time}
    (h : Dict.get? ws (Windows.key "bruteforce" ip) = slot p e []) {os : List Sighting}
    (hw : ∀ o' ∈ os ++ [o], o'.Watched .bruteForce) (hc : concerns ip o)
    (hd : DistinctMembers (arrivals ip (os ++ [o]))) :
    Rule.bruteForce.detectionsIn (o.evaluate py p (Sighting.after py p ws os)).2 =
      if ((live p (arrivals ip os ++ [o])).length : ℤ) < p.maxFailures then []
      else [(detection py p o.event ip (measured p ip os o)
        (o.event.eventType = .authSuccess)).unstamped] := by
  have ho := hw o (List.mem_append_right _ (List.mem_singleton_self o))
  rw [arrivals_concat, if_pos hc] at hd
  have hslot := @slot_after p ip py ws _ h os (fun o' ho' => hw o' (List.mem_append_left _ ho'))
    (hd.sublist (List.sublist_append_left _ _))
  have hres := (observe_eq hslot (member_notMem_live hd)).1
  rw [Sighting.detectionsIn_evaluate, attempt_of_concerns ho hc, hres, ← measured,
    count_measured]
  split_ifs <;> rfl

def Fires (py : Python) (p : Params) (ws : Windows) (o : Sighting) : Prop :=
  ∃ d ∈ (o.evaluate py p ws).2, d.ruleId = ruleId

theorem fires_iff_detectionsIn :
    Fires py p ws o ↔ Rule.bruteForce.detectionsIn (o.evaluate py p ws).2 ≠ [] := by
  rw [Fires, Rule.detectionsIn, Ne, List.map_eq_nil_iff, List.filter_eq_nil_iff]
  push Not
  simp only [decide_eq_true_eq]
  rfl

theorem fires_after_iff {e : Option Time}
    (h : Dict.get? ws (Windows.key "bruteforce" ip) = slot p e []) {os : List Sighting}
    (hw : ∀ o' ∈ os ++ [o], o'.Watched .bruteForce) (hc : concerns ip o)
    (hd : DistinctMembers (arrivals ip (os ++ [o]))) :
    Fires py p (Sighting.after py p ws os) o ↔
      p.maxFailures ≤ (live p (arrivals ip os ++ [o])).length := by
  rw [fires_iff_detectionsIn, detectionsIn_after h hw hc hd]
  split_ifs with hcount
  · exact iff_of_false (fun h => h rfl) (not_le.mpr hcount)
  · exact iff_of_true (List.cons_ne_nil _ _) (not_lt.mp hcount)

end

end SiemEngine.BruteForce

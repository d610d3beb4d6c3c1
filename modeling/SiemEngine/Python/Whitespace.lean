import Mathlib.Data.List.DropRight
import SiemEngine.Python.Text

/-!
# Stripping whitespace

A stripped text has no whitespace at its ends, and stripping a text of which a narrower notion
of whitespace was stripped before makes no difference. Cutting a stripped text can leave
whitespace at its end again.
-/

namespace SiemEngine.Text

variable {p q : Char → Bool} {s : String}

theorem toList_stripBy (p : Char → Bool) (s : String) :
    (stripBy p s).toList = (s.toList.dropWhile p).rdropWhile p :=
  String.toList_ofList

theorem length_rdropWhile_le (p : Char → Bool) (cs : List Char) :
    (cs.rdropWhile p).length ≤ cs.length := by
  have hsplit := congrArg List.length (@List.rdropWhile_append_rtakeWhile _ p cs)
  rw [List.length_append] at hsplit
  exact Nat.le.intro hsplit

theorem stripBy_eq_self_iff : stripBy p s = s ↔
    (∀ c ∈ s.toList.head?, p c = false) ∧ ∀ c ∈ s.toList.getLast?, p c = false := by
  rw [← String.toList_inj, toList_stripBy]
  generalize s.toList = cs
  constructor
  · intro h
    have hdrop : cs.dropWhile p = cs :=
      (cs.dropWhile_suffix p).eq_of_length_le (by
        have hle := length_rdropWhile_le p (cs.dropWhile p)
        rwa [h] at hle)
    rw [hdrop] at h
    constructor
    · intro c hc
      have hlen : 0 < cs.length := List.length_pos_of_mem (List.mem_of_mem_head? hc)
      have hhead := List.dropWhile_eq_self_iff.mp hdrop hlen
      rw [Option.mem_def, List.head?_eq_getElem?, List.getElem?_eq_getElem hlen] at hc
      rw [← Option.some.inj hc]
      exact Bool.eq_false_iff.mpr hhead
    · intro c hc
      have hne : cs ≠ [] := List.ne_nil_of_mem (List.mem_of_mem_getLast? hc)
      have hlast := List.rdropWhile_eq_self_iff.mp h hne
      rw [Option.mem_def, List.getLast?_eq_some_getLast hne] at hc
      rw [← Option.some.inj hc]
      exact Bool.eq_false_iff.mpr hlast
  · rintro ⟨hhead, hlast⟩
    have hdrop : cs.dropWhile p = cs := by
      refine List.dropWhile_eq_self_iff.mpr fun hlen => Bool.eq_false_iff.mp (hhead _ ?_)
      rw [Option.mem_def, List.head?_eq_getElem?, List.getElem?_eq_getElem hlen]
    rw [hdrop]
    refine List.rdropWhile_eq_self_iff.mpr fun hne => Bool.eq_false_iff.mp (hlast _ ?_)
    exact List.getLast?_eq_some_getLast hne

theorem stripBy_ofList {cs : List Char} (h : ∀ c ∈ cs, p c = false) :
    stripBy p (String.ofList cs) = String.ofList cs := by
  rw [stripBy_eq_self_iff, String.toList_ofList]
  exact ⟨fun c hc => h c (List.mem_of_mem_head? hc), fun c hc => h c (List.mem_of_mem_getLast? hc)⟩

theorem stripBy_stripBy (p : Char → Bool) (s : String) : stripBy p (stripBy p s) = stripBy p s := by
  rw [stripBy_eq_self_iff, toList_stripBy]
  generalize hrest : s.toList.dropWhile p = rest
  have hhead := List.head?_dropWhile_not p s.toList
  rw [hrest] at hhead
  constructor
  · intro c hc
    have ht := @List.rdropWhile_append_rtakeWhile _ p rest
    have hfirst : rest.head? = some c := by
      rw [← ht, List.head?_append, hc, Option.some_or]
    rwa [hfirst] at hhead
  · intro c hc
    have hne : rest.rdropWhile p ≠ [] := List.ne_nil_of_mem (List.mem_of_mem_getLast? hc)
    rw [Option.mem_def, List.getLast?_eq_some_getLast hne] at hc
    rw [← Option.some.inj hc]
    exact Bool.eq_false_iff.mpr (List.rdropWhile_last_not p rest hne)

theorem rdropWhile_append_of_pos {xs ys : List Char} (h : ∀ c ∈ ys, p c = true) :
    (xs ++ ys).rdropWhile p = xs.rdropWhile p := by
  rw [List.rdropWhile, List.reverse_append, List.dropWhile_append_of_pos, List.rdropWhile]
  exact fun c hc => h c (List.mem_reverse.mp hc)

theorem stripBy_stripBy_of_imp (h : ∀ c, q c = true → p c = true) (s : String) :
    stripBy p (stripBy q s) = stripBy p s := by
  rw [← String.toList_inj, toList_stripBy, toList_stripBy, toList_stripBy]
  have hleft : ∀ c ∈ s.toList.takeWhile q, p c = true := fun c hc => h c (List.mem_takeWhile_imp hc)
  have hright : ∀ c ∈ (s.toList.dropWhile q).rtakeWhile q, p c = true := fun c hc =>
    h c (List.mem_rtakeWhile_imp hc)
  have hsplit : s.toList = s.toList.takeWhile q ++ ((s.toList.dropWhile q).rdropWhile q ++
      (s.toList.dropWhile q).rtakeWhile q) := by
    rw [List.rdropWhile_append_rtakeWhile, List.takeWhile_append_dropWhile]
  generalize s.toList.takeWhile q = xs at *
  generalize (s.toList.dropWhile q).rtakeWhile q = ys at *
  generalize (s.toList.dropWhile q).rdropWhile q = ms at *
  rw [hsplit, List.dropWhile_append_of_pos hleft, List.dropWhile_append]
  cases hms : ms.dropWhile p with
  | nil =>
    have hys : ys.dropWhile p = [] := List.dropWhile_eq_nil_iff.mpr hright
    rw [hys]
    rfl
  | cons c cs => exact (rdropWhile_append_of_pos hright).symm

def CutInSpace (limit : ℕ) (s : String) : Prop :=
  ∃ c ∈ (strip s).toList[limit - 1]?, isSpace c = true

instance (limit : ℕ) (s : String) : Decidable (CutInSpace limit s) :=
  decidable_of_iff ((strip s).toList[limit - 1]?.any isSpace = true) (Option.any_eq_true _ _)

def Unspaced (s : String) : Prop := ∀ c ∈ s.toList, isSpace c = false

instance : DecidablePred Unspaced := fun _ => List.decidableBAll _ _

theorem strip_take_strip_iff {limit : ℕ} (hlimit : 0 < limit) (s : String) :
    strip (take limit (strip s)) = take limit (strip s) ↔ ¬ CutInSpace limit s := by
  obtain ⟨hhead, hlast⟩ := stripBy_eq_self_iff.mp (stripBy_stripBy isSpace s)
  rw [strip, stripBy_eq_self_iff, toList_take, List.head?_take, if_neg hlimit.ne',
    List.getLast?_take, if_neg hlimit.ne', CutInSpace]
  constructor
  · rintro ⟨-, hcut⟩ ⟨c, hc, hspace⟩
    have hor : c ∈ (strip s).toList[limit - 1]?.or (strip s).toList.getLast? := by
      rw [Option.mem_def.mp hc, Option.some_or]
      rfl
    rw [hcut c hor] at hspace
    cases hspace
  · intro hclear
    refine ⟨hhead, fun c hc => ?_⟩
    cases hget : (strip s).toList[limit - 1]? with
    | none =>
      rw [hget, Option.none_or] at hc
      exact hlast c hc
    | some d =>
      rw [hget, Option.some_or, Option.mem_def, Option.some.injEq] at hc
      exact Bool.eq_false_iff.mpr fun hspace => hclear ⟨d, hget, hc ▸ hspace⟩

/-- `char::is_whitespace`, to which the separators U+001C to U+001F do not belong. -/
def isWhiteSpace (c : Char) : Bool := isSpace c && !(28 ≤ c.toNat && c.toNat ≤ 31)

/-- `str::trim`. -/
def trim (s : String) : String := stripBy isWhiteSpace s

theorem strip_trim (s : String) : strip (trim s) = strip s :=
  stripBy_stripBy_of_imp (fun c hc => by
    rw [isWhiteSpace, Bool.and_eq_true] at hc
    exact hc.1) s

theorem exists_append_stripBy (p : Char → Bool) (s : String) : ∃ front back : List Char,
    s.toList = front ++ (stripBy p s).toList ++ back ∧ ∀ c ∈ front ++ back, p c = true := by
  refine ⟨s.toList.takeWhile p, (s.toList.dropWhile p).rtakeWhile p, ?_, fun c hc => ?_⟩
  · rw [toList_stripBy, List.append_assoc, List.rdropWhile_append_rtakeWhile,
      List.takeWhile_append_dropWhile]
  · rcases List.mem_append.mp hc with hc | hc
    · exact List.mem_takeWhile_imp hc
    · exact List.mem_rtakeWhile_imp hc

end SiemEngine.Text

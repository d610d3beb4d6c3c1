import SiemEngine.Detection.Triggers

/-!
# Values that a window keeps apart

A member is read back up to its first separator. Normalisation strips separators from the
ends of a text only, so a username or the scope id of an address can carry one inside; what
stands behind it is lost, and names that agree up to it are counted as one.
-/

namespace SiemEngine.Windows

variable {v : String} {as cs : List Call} {c : Call} {res : WindowResult}

theorem separator_notMem_decode (member : String) : separator ∉ (decode member).toList := by
  intro h
  rw [decode, String.toList_ofList] at h
  simpa using List.mem_takeWhile_imp h

theorem decode_eq_self_iff (v : String) : decode v = v ↔ separator ∉ v.toList := by
  constructor
  · intro h
    rw [← h]
    exact separator_notMem_decode v
  · intro h
    have hchars : v.toList.takeWhile (· ≠ separator) = v.toList :=
      List.takeWhile_eq_self_iff.mpr fun x hx => decide_eq_true fun heq => h (heq ▸ hx)
    rw [decode, hchars, String.ofList_toList]

structure Distinguishes (as : List Call) (c : Call) (res : WindowResult) : Prop where
  values : ∀ v, v ∈ res.uniqueValues ↔ ∃ a ∈ as, a.value = v
  decoded : ∀ a ∈ as, ∀ token, decode (encode a.value token) = a.value
  spray : c.name = "spray" →
    WindowRule.passwordSpray.read (.measured res) = (as.map Call.value).dedup.length

theorem value_mem_iff (hv : ∀ v, v ∈ res.uniqueValues ↔ ∃ a ∈ as, decode a.value = v) :
    (∀ v, v ∈ res.uniqueValues ↔ ∃ a ∈ as, a.value = v) ↔
      ∀ a ∈ as, separator ∉ a.value.toList := by
  constructor
  · intro h a ha
    obtain ⟨b, -, hb⟩ := (hv a.value).mp ((h a.value).mpr ⟨a, ha, rfl⟩)
    rw [← hb]
    exact separator_notMem_decode b.value
  · intro h v
    rw [hv]
    refine exists_congr fun a => and_congr_right fun ha => ?_
    rw [(decode_eq_self_iff a.value).mpr (h a ha)]

theorem length_accounts_eq_iff {xs : List String} :
    (accounts xs).length = xs.length ↔ ∀ x ∈ xs, x ≠ "" ∧ x ≠ "-" := by
  rw [accounts, List.length_filter_eq_length_iff]
  simp

/-- The calls of a window are told apart exactly when no value contains the separator and,
for RULE-002, none is a name that stands for no user. -/
theorem distinguishes_iff (hres : res.uniqueValues = (as.map fun a => decode a.value).dedup) :
    Distinguishes as c res ↔ (∀ a ∈ as, separator ∉ a.value.toList) ∧
      (c.name = "spray" → ∀ a ∈ as, a.value ≠ "" ∧ a.value ≠ "-") := by
  have hmem : ∀ v, v ∈ res.uniqueValues ↔ ∃ a ∈ as, decode a.value = v := by
    intro v
    rw [hres, List.mem_dedup, List.mem_map]
  have hspray : (∀ a ∈ as, separator ∉ a.value.toList) →
      (WindowRule.passwordSpray.read (.measured res) = (as.map Call.value).dedup.length ↔
        ∀ a ∈ as, a.value ≠ "" ∧ a.value ≠ "-") := by
    intro hsep
    have hvalues : res.uniqueValues = (as.map Call.value).dedup := by
      rw [hres]
      congr 1
      exact List.map_congr_left fun a ha => (decode_eq_self_iff a.value).mpr (hsep a ha)
    change ((accounts res.uniqueValues).length : ℤ) = _ ↔ _
    rw [hvalues, Nat.cast_inj, length_accounts_eq_iff]
    simp only [List.mem_dedup, List.forall_mem_map]
  constructor
  · intro h
    have hsep := (value_mem_iff hmem).mp h.values
    exact ⟨hsep, fun hname => (hspray hsep).mp (h.spray hname)⟩
  · rintro ⟨hsep, hname⟩
    refine ⟨(value_mem_iff hmem).mpr hsep, fun a ha token => ?_, fun h => ?_⟩
    · rw [decode_encode, decode_eq_self_iff]
      exact hsep a ha
    · exact (hspray hsep).mpr (hname h)

/-- After any calls of `add_and_measure` with tokens that keep the members apart, in any order
and on any keys, the answer is about the values in the window exactly under that condition. -/
theorem distinct_values_iff (py : Python) (cs : List Call) (c : Call)
    (hop : ∀ a ∈ cs ++ [c], a.operation.isSum = false)
    (hd : ((cs ++ [c]).map Call.member).Nodup) :
    ∃ res, (c.run py (after py [] cs)).2 = .measured res ∧
      (Distinguishes (live (onKey c.key cs ++ [c])) c res ↔
        (∀ a ∈ live (onKey c.key cs ++ [c]), separator ∉ a.value.toList) ∧
          (c.name = "spray" → ∀ a ∈ live (onKey c.key cs ++ [c]),
            a.value ≠ "" ∧ a.value ≠ "-")) := by
  have hvalue : ∀ a ∈ cs ++ [c], a.operation.value? ≠ none := by
    intro a ha
    have hadd := hop a ha
    cases hoperation : a.operation with
    | addAndMeasure value => exact Option.some_ne_none value
    | incrSum amount => simp [hoperation, Operation.isSum] at hadd
  rw [List.map_append, List.map_singleton, List.nodup_append] at hd
  have hslot := slot_after py cs (fun a ha => hvalue a (List.mem_append_left _ ha)) hd.1 c.key
  have hnew : c.member ∉ (onKey c.key cs).map Call.member := by
    intro hmem
    obtain ⟨a, ha, heq⟩ := List.mem_map.mp hmem
    exact hd.2.2 _ (List.mem_map_of_mem (List.mem_of_mem_filter ha)) _
      (List.mem_singleton_self _) heq
  have hlast : c ∈ cs ++ [c] := List.mem_append_right _ (List.mem_singleton_self c)
  rw [(run_eq (hvalue c hlast) hslot hnew).1, answer]
  cases hc : c.operation with
  | incrSum amount =>
    have hadd := hop c hlast
    simp [hc, Operation.isSum] at hadd
  | addAndMeasure value =>
    refine ⟨_, rfl, distinguishes_iff ?_⟩
    rw [uniqueValues_toResult, List.map_map]
    congr 1
    exact List.map_congr_left fun a _ => decode_encode a.value a.tick.token

theorem distinct_values_iff_two_users :
    let call (token value : String) : Call :=
      ⟨⟨0, token, 0⟩, "spray", "198.51.100.7", .addAndMeasure value, 120, 0⟩
    let cs := [call "1" "alice"]
    let c := call "2" "bob"
    ∃ res, (c.run .ascii (after .ascii [] cs)).2 = .measured res ∧
      Distinguishes (live (onKey c.key cs ++ [c])) c res := by
  intro call cs c
  obtain ⟨res, hres, hiff⟩ := distinct_values_iff .ascii cs c (by decide) (by decide +kernel)
  exact ⟨res, hres, hiff.mpr ⟨by decide +kernel, fun _ => by decide +kernel⟩⟩

/-- Two users that normalisation admits are counted as one. -/
theorem users_behind_separator :
    let call (token value : String) : Call :=
      ⟨⟨0, token, 0⟩, "spray", "198.51.100.7", .addAndMeasure value, 120, 0⟩
    let cs := [call "1" "alice\x1f1"]
    let c := call "2" "alice\x1f2"
    (∀ v ∈ ["alice\x1f1", "alice\x1f2"],
      (clipValue .ascii maxStr (.str v)).map Subtype.val = some v) ∧
    decode (encode "alice\x1f1" "1") = "alice" ∧
    ∃ res, (c.run .ascii (after .ascii [] cs)).2 = .measured res ∧
      WindowRule.passwordSpray.read (.measured res) = 1 ∧
      ¬ Distinguishes (live (onKey c.key cs ++ [c])) c res := by
  intro call cs c
  refine ⟨by decide +kernel, by decide +kernel, _, rfl, by decide +kernel, fun h => ?_⟩
  have hlast : c ∈ live (onKey c.key cs ++ [c]) := by
    rw [live_concat]
    exact List.mem_append_right _ (List.mem_singleton_self c)
  exact absurd (h.decoded c hlast "2") (by decide +kernel)

end SiemEngine.Windows

import Mathlib.Tactic.IntervalCases
import SiemEngine.Detection.Storable
import SiemEngine.Lib.Separated

/-!
# Which events share a correlation key

RULE-004 and RULE-005 write a host and a user into one text, `:user:` between them and `None`
for a missing user. Two pairs have one key where a name contains the separator, ends with its
beginning or starts with its end, or is the text `None`.
-/

namespace SiemEngine

inductive HostUserRule
  | privilegeEscalation | suspiciousSql
  deriving DecidableEq

namespace HostUserRule

def rule : HostUserRule → Rule
  | .privilegeEscalation => .privilegeEscalation
  | .suspiciousSql => .suspiciousSql

def actor (ev : SecurityEvent) : HostUserRule → Option String
  | .privilegeEscalation => ev.user
  | .suspiciousSql => ev.user.or ev.sourceText

def opening : HostUserRule → String
  | .privilegeEscalation => "host:"
  | .suspiciousSql => "db:"

def ending : HostUserRule → String
  | .privilegeEscalation => ":privesc"
  | .suspiciousSql => ":sqli"

/-- The user's name gives back what the host's has taken of the key. -/
def Shifted (source name source' name' : String) : Prop :=
  (∃ r, source' = source ++ ":user:" ++ r ∧ name = r ++ ":user:" ++ name') ∨
    source' = source ++ ":user" ∧ name = "user:" ++ name'

def Confused (source : String) (name : Option String) (source' : String)
    (name' : Option String) : Prop :=
  (source = source' ∧ (name = none ∧ name' = some "None" ∨ name = some "None" ∧ name' = none)) ∨
    Shifted source (shown name) source' (shown name') ∨
    Shifted source' (shown name') source (shown name)

variable {source source' name name' : String} {who who' : Option String}

theorem correlationKey_eq {py : Python} {p : Params} (tick : Tick) {ev : SecurityEvent}
    {ws ws' : Windows} {d : Detection} (r : HostUserRule)
    (h : r.rule.evaluate py p tick ev ws = (ws', .ok (some d))) :
    d.correlationKey =
      r.opening ++ ev.source.val ++ ":user:" ++ shown (r.actor ev) ++ r.ending := by
  cases r with
  | privilegeEscalation =>
    rw [@PrivilegeEscalation.evaluate_some _ _ tick _ _ _ _ h]
    rfl
  | suspiciousSql =>
    obtain ⟨rows, found, rfl⟩ := @SuspiciousSql.evaluate_some _ _ tick _ _ _ _ h
    rfl

theorem word_eq : ":user:".toList = [':', 'u', 's', 'e', 'r', ':'] := rfl

/-- Of the ends of the separator only its last colon is also a beginning. -/
theorem split_word {t v u u' : List Char} (ht : t ≠ []) (hv : v ≠ [])
    (hw : ":user:".toList = t ++ v) (hu : v ++ u = ":user:".toList ++ u') :
    t = ":user".toList ∧ u = "user:".toList ++ u' := by
  have hlen : t.length + v.length = 6 := by
    rw [← List.length_append, ← hw]
    rfl
  have htake : t = ":user:".toList.take t.length := by rw [hw, List.take_left]
  have hdrop : v = ":user:".toList.drop t.length := by rw [hw, List.drop_left]
  have hpos : 0 < t.length := List.length_pos_of_ne_nil ht
  have hpos' : 0 < v.length := List.length_pos_of_ne_nil hv
  have hle : t.length ≤ 5 := by omega
  rw [word_eq] at htake hdrop hu
  generalize t.length = n at htake hdrop hpos hle
  rw [hdrop] at hu
  interval_cases n
  · simp at hu
  · simp at hu
  · simp at hu
  · simp at hu
  · exact ⟨htake, List.cons_injective hu⟩

theorem continues_iff_shifted :
    Separated.Continues ":user:".toList source.toList name.toList source'.toList name'.toList ↔
      Shifted source name source' name' := by
  constructor
  · intro h
    cases h with
    | through r hs hu =>
      refine Or.inl ⟨String.ofList r, String.toList_injective ?_, String.toList_injective ?_⟩
      · simpa [String.toList_append] using hs
      · simpa [String.toList_append] using hu
    | overlapping t v ht hv hw hs hu =>
      obtain ⟨rfl, hname⟩ := split_word ht hv hw hu
      refine Or.inr ⟨String.toList_injective ?_, String.toList_injective ?_⟩
      · rw [hs, String.toList_append]
      · rw [hname, String.toList_append]
  · rintro (⟨r, rfl, rfl⟩ | ⟨rfl, rfl⟩)
    · exact .through r.toList (by simp [String.toList_append]) (by simp [String.toList_append])
    · refine .overlapping ":user".toList ":".toList (by decide) (by decide) (by decide) ?_ ?_
      · rw [String.toList_append]
      · simp [String.toList_append]

theorem Shifted.ne (h : Shifted source name source' name') : source ≠ source' := by
  intro heq
  exact (continues_iff_shifted.mpr h).ne (by decide) (congrArg String.toList heq)

theorem shown_eq_iff : shown who = shown who' ↔
    who = who' ∨ (who = none ∧ who' = some "None" ∨ who = some "None" ∧ who' = none) := by
  cases who <;> cases who' <;> simp [shown, eq_comm]

theorem key_eq_iff (opening ending : String) :
    opening ++ source ++ ":user:" ++ name ++ ending =
        opening ++ source' ++ ":user:" ++ name' ++ ending ↔
      (source = source' ∧ name = name') ∨ Shifted source name source' name' ∨
        Shifted source' name' source name := by
  have htext : ∀ source name : String,
      (opening ++ source ++ ":user:" ++ name ++ ending).toList = opening.toList ++
        (source.toList ++ ":user:".toList ++ name.toList ++ ending.toList) := by
    intro source name
    simp only [String.toList_append, List.append_assoc]
  rw [← String.toList_inj, htext, htext, List.append_cancel_left_eq, List.append_cancel_right_eq,
    Separated.join_eq_iff, continues_iff_shifted, continues_iff_shifted, String.toList_inj,
    String.toList_inj]

/-- Of two firings of one rule the key is that of the host and the user exactly where these
are not confused. -/
theorem correlation_key_injective_iff (py : Python) (p : Params) (r : HostUserRule)
    (tick tick' : Tick) (ev ev' : SecurityEvent) {ws ws' ws₁ ws₁' : Windows} {d d' : Detection}
    (h : r.rule.evaluate py p tick ev ws = (ws₁, .ok (some d)))
    (h' : r.rule.evaluate py p tick' ev' ws' = (ws₁', .ok (some d'))) :
    (d.correlationKey = d'.correlationKey ↔
        ev.source.val = ev'.source.val ∧ r.actor ev = r.actor ev') ↔
      ¬ Confused ev.source.val (r.actor ev) ev'.source.val (r.actor ev') := by
  rw [correlationKey_eq tick r h, correlationKey_eq tick' r h', key_eq_iff, shown_eq_iff, Confused]
  generalize r.actor ev = who
  generalize r.actor ev' = who'
  constructor
  · rintro hkey (⟨hsource, hwho⟩ | hshift | hshift)
    · have hpair := hkey.mp (Or.inl ⟨hsource, Or.inr hwho⟩)
      rcases hwho with ⟨hnone, hname⟩ | ⟨hname, hnone⟩ <;> simp [hnone, hname] at hpair
    · exact hshift.ne (hkey.mp (Or.inr (Or.inl hshift))).1
    · exact hshift.ne (hkey.mp (Or.inr (Or.inr hshift))).1.symm
  · intro hclear
    refine ⟨?_, fun hpair => Or.inl ⟨hpair.1, Or.inl hpair.2⟩⟩
    rintro (⟨hsource, hwho | hwho⟩ | hshift | hshift)
    · exact ⟨hsource, hwho⟩
    · exact absurd (Or.inl ⟨hsource, hwho⟩) hclear
    · exact absurd (Or.inr (Or.inl hshift)) hclear
    · exact absurd (Or.inr (Or.inr hshift)) hclear

def named (name : String) (h : name ≠ "" ∧ name.length ≤ maxStr) : Clipped maxStr := ⟨name, h⟩

theorem correlation_key_injective_iff_two_users : ∃ d d' : Detection,
    PrivilegeEscalation.evaluate Python.ascii {} stopped
      (escalation (named "alice" (by decide)) (named "web-01" (by decide))) [] =
        ([], .ok (some d)) ∧
    PrivilegeEscalation.evaluate Python.ascii {} stopped
      (escalation (named "bob" (by decide)) (named "web-01" (by decide))) [] =
        ([], .ok (some d')) ∧
    d.correlationKey ≠ d'.correlationKey := by
  obtain ⟨d, hd⟩ := evaluate_escalation (named "alice" (by decide)) (named "web-01" (by decide)) []
  obtain ⟨d', hd'⟩ := evaluate_escalation (named "bob" (by decide)) (named "web-01" (by decide)) []
  refine ⟨d, d', hd, hd', fun heq => ?_⟩
  have hclear : ¬ Confused "web-01" (some "alice") "web-01" (some "bob") := by
    rintro (⟨-, ⟨hnone, -⟩ | ⟨-, hnone⟩⟩ | hshift | hshift)
    · cases hnone
    · cases hnone
    · exact hshift.ne rfl
    · exact hshift.ne rfl
  have hpair := ((correlation_key_injective_iff Python.ascii {} .privilegeEscalation stopped stopped
    _ _ hd hd').mpr hclear).mp heq
  exact absurd hpair.2 (by decide)

/-- The user "b:user:c" of the host "a" and the user "c" of the host "a:user:b" share a key. -/
theorem two_hosts_one_key : ∃ d d' : Detection,
    PrivilegeEscalation.evaluate Python.ascii {} stopped
      (escalation (named "b:user:c" (by decide)) (named "a" (by decide))) [] =
        ([], .ok (some d)) ∧
    PrivilegeEscalation.evaluate Python.ascii {} stopped
      (escalation (named "c" (by decide)) (named "a:user:b" (by decide))) [] =
        ([], .ok (some d')) ∧
    d.correlationKey = d'.correlationKey ∧ d.affectedHost ≠ d'.affectedHost ∧
    d.involvedUsers ≠ d'.involvedUsers := by
  obtain ⟨d, hd⟩ := evaluate_escalation (named "b:user:c" (by decide)) (named "a" (by decide)) []
  obtain ⟨d', hd'⟩ := evaluate_escalation (named "c" (by decide)) (named "a:user:b" (by decide)) []
  refine ⟨d, d', hd, hd', ?_⟩
  rw [PrivilegeEscalation.evaluate_some hd, PrivilegeEscalation.evaluate_some hd']
  exact ⟨by decide, by decide, by decide⟩

end HostUserRule

end SiemEngine

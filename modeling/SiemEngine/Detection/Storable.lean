import SiemEngine.Detection.Engine
import SiemEngine.Models.Alert
import SiemEngine.Detection.Correlation
import SiemEngine.Storage.Events

/-!
# Storing detections

`Alert.Fits` is what an alert has to satisfy to be inserted and served. Three rules build a
title or a key from texts of up to 255 characters each, and three show values of their windows,
which earlier events left there whether their own rows could be stored or not. So whether the
alert of a detection fits is a condition on the lengths of those texts and on those values.
-/

namespace SiemEngine

open Column

structure Alert.Bounded (a : Alert) : Prop where
  ruleId : a.ruleId.length ≤ 32
  title : a.title.length ≤ 255
  correlationKey : a.correlationKey.length ≤ 255
  affectedHost : ∀ host ∈ a.affectedHost, host.length ≤ 255
  sourceIp : ∀ ip ∈ a.sourceIp, ip.length ≤ 45
  confidence : 0 ≤ a.confidence ∧ a.confidence ≤ 1

/-- The texts of an alert beside those that the windows supply. -/
def Alert.texts (a : Alert) : List String :=
  [a.ruleId, a.title, a.description, a.correlationKey, a.recommendedAction] ++
    a.sourceIp.toList ++ a.affectedHost.toList ++ a.involvedHosts ++
    a.evidence.map Evidence.summary

structure Alert.Fits (a : Alert) : Prop extends a.Bounded where
  texts : ∀ text ∈ a.texts, NulFree text
  eventCount : IntegerBits 32 a.eventCount
  involvedUsers : ∀ user ∈ a.involvedUsers, NulFree user
  alertMetadata : JsonbDict a.alertMetadata

theorem Alert.fits_iff (a : Alert) : a.Fits ↔
    (a.ruleId.length ≤ 32 ∧ a.title.length ≤ 255 ∧ a.correlationKey.length ≤ 255 ∧
      (∀ host ∈ a.affectedHost, host.length ≤ 255) ∧ (∀ ip ∈ a.sourceIp, ip.length ≤ 45) ∧
      0 ≤ a.confidence ∧ a.confidence ≤ 1) ∧ (∀ text ∈ a.texts, NulFree text) ∧
      IntegerBits 32 a.eventCount ∧ (∀ user ∈ a.involvedUsers, NulFree user) ∧
      JsonbDict a.alertMetadata :=
  ⟨fun h => ⟨⟨h.ruleId, h.title, h.correlationKey, h.affectedHost, h.sourceIp, h.confidence⟩,
      h.texts, h.eventCount, h.involvedUsers, h.alertMetadata⟩,
    fun ⟨⟨h₁, h₂, h₃, h₄, h₅, h₆⟩, h₇, h₈, h₉, h₁₀⟩ =>
      ⟨⟨h₁, h₂, h₃, h₄, h₅, h₆⟩, h₇, h₈, h₉, h₁₀⟩⟩

instance : DecidablePred Alert.Fits := fun a => decidable_of_iff _ a.fits_iff.symm

def Rule.TextsFit (py : Python) (ev : SecurityEvent) : Rule → Prop
  | .privilegeEscalation =>
    28 + (ev.user.getD "unknown").length + ev.source.val.length ≤ 255 ∧
      19 + ev.source.val.length + (shown ev.user).length ≤ 255
  | .suspiciousSql =>
    20 + ((ev.user.or ev.sourceText).getD "unknown").length ≤ 255 ∧
      14 + ev.source.val.length + (shown (ev.user.or ev.sourceText)).length ≤ 255
  | .authAnomaly => ∀ user ∈ ev.user, 37 + user.length ≤ 255 ∧ 13 + (py.lower user).length ≤ 255
  | .bruteForce | .passwordSpray | .portScan | .dataExfiltration => True

def Rule.measured (py : Python) (p : Params) (tick : Tick) (ev : SecurityEvent) (ws : Windows) :
    Rule → WindowResult
  | .bruteForce => (BruteForce.observe p tick ev (ev.sourceText.getD "") ws).2
  | .passwordSpray => (ws.addAndMeasure tick "spray" (ev.sourceText.getD "")
      (py.lower (ev.user.getD "-")) p.sprayWindow ev.epoch).2
  | .portScan => (ws.addAndMeasure tick "portscan" (ev.sourceText.getD "")
      (shownPort ev.destinationPort) p.portScanWindow ev.epoch).2
  | .authAnomaly => (ws.addAndMeasure tick "authgeo_ok" (py.lower (ev.user.getD ""))
      (ev.sourceText.getD "") p.authGeoWindow ev.epoch).2
  | .privilegeEscalation | .suspiciousSql | .dataExfiltration => ⟨0, [], 0, 0⟩

/-- The window values that the rule shows have no U+0000, and its count fits an integer. -/
def Rule.WindowFits (res : WindowResult) : Rule → Prop
  | .bruteForce => (res.count : ℤ) < 2 ^ 31 ∧
      ∀ v ∈ (sorted (accounts res.uniqueValues)).take maxInvolved, NulFree v
  | .passwordSpray => (res.count : ℤ) < 2 ^ 31 ∧
      ∀ v ∈ (sorted (accounts res.uniqueValues)).take 25, NulFree v
  | .portScan => (res.count : ℤ) < 2 ^ 31
  | .authAnomaly => ∀ v ∈ (sorted res.uniqueValues).take 20, NulFree v
  | .privilegeEscalation | .suspiciousSql | .dataExfiltration => True

theorem unit_of_min {cap x : ℚ} (hcap : 0 ≤ cap ∧ cap ≤ 1) (hx : 0 ≤ x) :
    0 ≤ min (Binary64.nearest cap) x ∧ min (Binary64.nearest cap) x ≤ 1 :=
  ⟨le_min (Binary64.nearest_nonneg hcap.1) hx,
    (min_le_left _ _).trans (Binary64.nearest_le_one hcap.1 hcap.2)⟩

theorem growing_mem_unit {cap base slope : ℚ} {n : ℤ} (hcap : 0 ≤ cap ∧ cap ≤ 1)
    (hbase : 0 ≤ base) (hslope : 0 ≤ slope) (hn : 0 ≤ n) :
    0 ≤ growing cap base slope n ∧ growing cap base slope n ≤ 1 := by
  refine unit_of_min hcap (Binary64.nearest_nonneg (add_nonneg ?_ ?_))
  · exact Binary64.nearest_nonneg hbase
  · have hn' : (0 : ℚ) ≤ n := by exact_mod_cast hn
    exact Binary64.nearest_nonneg
      (mul_nonneg (Binary64.nearest_nonneg hslope) (Binary64.nearest_nonneg hn'))

def Detection.texts (d : Detection) : List String :=
  [d.ruleId, d.title, d.description, d.correlationKey, d.recommendedAction] ++
    d.sourceIp.toList ++ d.affectedHost.toList ++ d.involvedHosts ++
    d.evidence.map Evidence.summary

theorem mem_texts_ofDetection {now : Time} {d : Detection} {text : String}
    (h : text ∈ (Alert.ofDetection now d).texts) : text ∈ d.texts := by
  simp only [Alert.texts, Alert.ofDetection, Detection.texts, List.mem_append, List.mem_map] at h ⊢
  rcases h with (h | h) | ⟨item, hitem, rfl⟩
  · exact Or.inl (Or.inl h)
  · exact Or.inl (Or.inr (List.mem_of_mem_take h))
  · exact Or.inr ⟨item, List.mem_of_mem_take hitem, rfl⟩

/-- What remains to be asked of a detection whose texts come from a storable event. -/
theorem fits_ofDetection_iff {ev : SecurityEvent} (hfits : (rowFromEvent ev).Fits) {now : Time}
    {d : Detection} {confidence : ℚ} (hrule : d.ruleId.length ≤ 32)
    (hhost : ∀ host ∈ d.affectedHost, host ∈ ev.destinationText ∨ host = ev.source.val)
    (hip : d.sourceIp = ev.sourceText) (hround : d.confidence = Binary64.roundTo 2 confidence)
    (hunit : 0 ≤ confidence ∧ confidence ≤ 1) (htexts : ∀ text ∈ d.texts, NulFree text) :
    (Alert.ofDetection now d).Fits ↔ (d.title.length ≤ 255 ∧ d.correlationKey.length ≤ 255) ∧
      IntegerBits 32 (max 1 d.eventCountHint) ∧
        (∀ user ∈ d.involvedUsers.take maxInvolved, NulFree user) ∧ JsonbDict d.metadata := by
  constructor
  · intro h
    exact ⟨⟨h.title, h.correlationKey⟩, h.eventCount, h.involvedUsers, h.alertMetadata⟩
  · intro h
    obtain ⟨⟨htitle, hkey⟩, hcount, husers, hmetadata⟩ := h
    refine ⟨⟨hrule, htitle, hkey, fun host hmem => ?_, fun ip hmem => ?_, ?_⟩,
      fun text ht => htexts text (mem_texts_ofDetection ht), hcount, husers, hmetadata⟩
    · rcases hhost host hmem with hdest | rfl
      · exact (hfits.destinationIp host hdest).1.trans (by decide)
      · exact hfits.source.1
    · have hmem' : d.sourceIp = some ip := hmem
      exact (hfits.sourceIp ip (hip.symm.trans hmem')).1
    · change 0 ≤ d.confidence ∧ d.confidence ≤ 1
      rw [hround]
      exact Binary64.roundTo_mem_unit hunit.1 hunit.2

theorem integerBits_count_iff (n : ℕ) : IntegerBits 32 (max 1 (n : ℤ)) ↔ (n : ℤ) < 2 ^ 31 := by
  simp only [IntegerBits]
  omega

theorem integerBits_one : IntegerBits 32 (max 1 1) := by decide

section

variable {py : Python} {ev : SecurityEvent}

theorem nulFree_user (hfits : (rowFromEvent ev).Fits) : Nullable NulFree ev.user :=
  fun user h => (hfits.username user h).2

theorem nulFree_source (hfits : (rowFromEvent ev).Fits) : NulFree ev.source.val := hfits.source.2

theorem nulFree_sourceText (hfits : (rowFromEvent ev).Fits) : Nullable NulFree ev.sourceText :=
  fun ip h => (hfits.sourceIp ip h).2

theorem nulFree_destinationText (hfits : (rowFromEvent ev).Fits) :
    Nullable NulFree ev.destinationText :=
  fun ip h => (hfits.destinationIp ip h).2

theorem nulFree_action (hfits : (rowFromEvent ev).Fits) :
    Nullable NulFree (ev.action.map Subtype.val) :=
  fun action h => (hfits.action action h).2

theorem nulFree_message (hfits : (rowFromEvent ev).Fits) :
    Nullable NulFree (ev.message.map Subtype.val) :=
  hfits.message

theorem nulFree_shown {text : Option String} (h : Nullable NulFree text) : NulFree (shown text) :=
  nulFree_getD h (by decide)

theorem nulFree_shownPort (port : Option (Fin 65536)) : NulFree (shownPort port) := by
  refine nulFree_shown fun text htext => ?_
  obtain ⟨n, -, rfl⟩ := Option.map_eq_some_iff.mp htext
  exact nulFree_nat n

theorem nulFree_eventType (t : EventType) : NulFree t.value := (varchar_eventType t).2

theorem jsonb_metadata (hfits : (rowFromEvent ev).Fits) {key : String} {value : Json}
    (h : ev.metadata.get? key = some value) : Jsonb value :=
  (jsonbDict_iff.mp hfits.eventMetadata _ (Dict.mem_of_get? h)).2

theorem nullable_or {x y : Option String} (hx : Nullable NulFree x) (hy : Nullable NulFree y) :
    Nullable NulFree (x.or y) := by
  cases x with
  | none => exact hy
  | some s => exact hx

end

theorem length_source_le {ev : SecurityEvent} (hfits : (rowFromEvent ev).Fits) {ip : String}
    (hip : ev.sourceText = some ip) : ip.length ≤ 45 :=
  (hfits.sourceIp ip hip).1

theorem fits_of_ip {ev : SecurityEvent} (hfits : (rowFromEvent ev).Fits) {ip : String}
    (hip : ev.sourceText = some ip) {title pre post : String} (htitle : title.length ≤ 210)
    (hkey : pre.length + post.length ≤ 210) :
    (title ++ ip).length ≤ 255 ∧ (pre ++ ip ++ post).length ≤ 255 := by
  have hlen := length_source_le hfits hip
  simp only [String.length_append]
  omega

section

variable {py : Python} {p : Params} {ev : SecurityEvent} {ip : String} {res : WindowResult}

theorem humanBytes_scale_nulFree (hpy : KeepsNulFree py) (n : ℚ) {units : List String}
    (h : ∀ unit ∈ units, NulFree unit) :
    NulFree (DataExfiltration.humanBytes.scale py n units) := by
  induction units generalizing n with
  | nil => exact nulFree_append.mpr ⟨hpy.formatFixed 1 n, by decide⟩
  | cons unit units ih =>
    obtain ⟨hunit, hunits⟩ := List.forall_mem_cons.mp h
    rw [DataExfiltration.humanBytes.scale]
    split_ifs
    · exact nulFree_append.mpr
        ⟨nulFree_append.mpr ⟨hpy.formatFixed 1 n, by decide⟩, hunit⟩
    · exact ih _ hunits

theorem nulFree_humanBytes (hpy : KeepsNulFree py) (n : ℤ) :
    NulFree (DataExfiltration.humanBytes py n) :=
  humanBytes_scale_nulFree hpy n (by decide)

theorem nulFree_constants : (NulFree BruteForce.ruleId ∧ NulFree BruteForce.recommendedAction ∧
      NulFree PasswordSpray.ruleId ∧ NulFree PasswordSpray.recommendedAction ∧
      NulFree PrivilegeEscalation.ruleId ∧ NulFree PrivilegeEscalation.recommendedAction ∧
      NulFree AuthAnomaly.ruleId ∧ NulFree AuthAnomaly.recommendedAction ∧
      NulFree PortScan.ruleId ∧ NulFree PortScan.recommendedAction ∧
      NulFree DataExfiltration.ruleId ∧ NulFree DataExfiltration.recommendedAction ∧
      NulFree SuspiciousSql.ruleId ∧ NulFree SuspiciousSql.recommendedAction) ∧
    ∀ pat ∈ SuspiciousSql.patterns, NulFree pat.2.1 := by
  decide +kernel

theorem texts_bruteForce (hpy : KeepsNulFree py) (hfits : (rowFromEvent ev).Fits)
    (hip : NulFree ip) (breachedAccount : Bool) :
    ∀ text ∈ (BruteForce.detection py p ev ip res breachedAccount).texts, NulFree text := by
  have hsource : NulFree ev.source.val := nulFree_source hfits
  have huser : NulFree (shown ev.user) := nulFree_shown (nulFree_user hfits)
  have hbreach : NulFree
      (if breachedAccount then " A subsequent successful login was observed." else "") := by
    split_ifs <;> exact nulFree_literal _ (by decide)
  simp only [Detection.texts, BruteForce.detection, Option.toList_some, List.map_cons,
    List.map_nil, List.forall_mem_append, List.forall_mem_cons, nulFree_append, nulFree_nat,
    nulFree_int, nulFree_constants, List.not_mem_nil, false_implies, implies_true, true_and,
    and_true, hpy.formatFixed, nulFree_eventType, hip, hsource, huser, hbreach]
  and_intros <;> exact nulFree_literal _ (by decide)

theorem texts_passwordSpray (hpy : KeepsNulFree py) (hfits : (rowFromEvent ev).Fits)
    (hip : NulFree ip) :
    ∀ text ∈ (PasswordSpray.detection py p ev ip res).texts, NulFree text := by
  have hsource : NulFree ev.source.val := nulFree_source hfits
  have huser : NulFree (shown ev.user) := nulFree_shown (nulFree_user hfits)
  simp only [Detection.texts, PasswordSpray.detection, Option.toList_some, List.map_cons,
    List.map_nil, List.forall_mem_append, List.forall_mem_cons, nulFree_append, nulFree_nat,
    nulFree_constants, List.not_mem_nil, false_implies, implies_true, true_and, and_true,
    hpy.formatFixed, hip, hsource, huser]
  and_intros <;> exact nulFree_literal _ (by decide)

theorem texts_portScan (hpy : KeepsNulFree py) (hfits : (rowFromEvent ev).Fits)
    (hip : NulFree ip) : ∀ text ∈ (PortScan.detection py p ev ip res).texts, NulFree text := by
  have hhost : NulFree (ev.destinationText.getD ev.source.val) :=
    nulFree_getD (nulFree_destinationText hfits) (nulFree_source hfits)
  have hdest : NulFree (shown ev.destinationText) := nulFree_shown (nulFree_destinationText hfits)
  have hhosts : ∀ host ∈ ev.destinationText.toList, NulFree host := fun host h =>
    nulFree_destinationText hfits host (Option.mem_toList.mp h)
  simp only [Detection.texts, PortScan.detection, Option.toList_some, List.map_cons, List.map_nil,
    List.forall_mem_append, List.forall_mem_cons, nulFree_append, nulFree_nat, nulFree_int,
    nulFree_constants, List.not_mem_nil, false_implies, implies_true, true_and, and_true,
    nulFree_eventType, nulFree_shownPort, hpy.formatFixed, hip, hhost, hdest]
  refine ⟨⟨?_, hhosts⟩, ?_⟩ <;> and_intros <;> exact nulFree_literal _ (by decide)

theorem texts_dataExfiltration (hpy : KeepsNulFree py) (hfits : (rowFromEvent ev).Fits)
    (hip : NulFree ip) (total : ℤ) :
    ∀ text ∈ (DataExfiltration.detection py p ev ip total).texts, NulFree text := by
  have hsource : NulFree ev.source.val := nulFree_source hfits
  have hdest : NulFree (shown ev.destinationText) := nulFree_shown (nulFree_destinationText hfits)
  have hgiven : NulFree (ev.destinationText.getD "multiple destinations") :=
    nulFree_getD (nulFree_destinationText hfits) (by decide)
  have hhosts : ∀ host ∈ ev.destinationText.toList, NulFree host := fun host h =>
    nulFree_destinationText hfits host (Option.mem_toList.mp h)
  simp only [Detection.texts, DataExfiltration.detection, Option.toList_some, List.map_cons,
    List.map_nil, List.forall_mem_append, List.forall_mem_cons, nulFree_append, nulFree_int,
    nulFree_constants, List.not_mem_nil, false_implies, implies_true, true_and, and_true,
    nulFree_shownPort, nulFree_humanBytes hpy, hip, hsource, hdest, hgiven]
  refine ⟨⟨?_, hhosts⟩, ?_⟩ <;> and_intros <;> exact nulFree_literal _ (by decide)

theorem texts_authAnomaly (hpy : KeepsNulFree py) (hfits : (rowFromEvent ev).Fits)
    (hip : NulFree ip) {user : String} (huser : NulFree user) :
    ∀ text ∈ (AuthAnomaly.detection py p ev user ip res).texts, NulFree text := by
  have hsource : NulFree ev.source.val := nulFree_source hfits
  have hstatus : NulFree (shown (ev.status.map EventStatus.value)) := by
    refine nulFree_shown fun text htext => ?_
    obtain ⟨status, -, rfl⟩ := Option.map_eq_some_iff.mp htext
    exact (varchar_status status).2
  simp only [Detection.texts, AuthAnomaly.detection, Option.toList_some, List.map_cons,
    List.map_nil, List.forall_mem_append, List.forall_mem_cons, nulFree_append, nulFree_nat,
    nulFree_constants, List.not_mem_nil, false_implies, implies_true, true_and, and_true,
    hpy.formatFixed, hpy.lower user huser, hip, hsource, huser, hstatus]
  and_intros <;> exact nulFree_literal _ (by decide)

theorem nulFree_administrative (hpy : KeepsNulFree py) (hfits : (rowFromEvent ev).Fits) :
    NulFree (PrivilegeEscalation.action py ev) :=
  hpy.lower _ (nulFree_getD (nullable_or (nulFree_action hfits) (nulFree_message hfits))
    (by decide))

theorem nulFree_actorRole (hpy : KeepsNulFree py) (hfits : (rowFromEvent ev).Fits) :
    NulFree (PrivilegeEscalation.actorRole py ev) := by
  refine hpy.lower _ (nulFree_pyStr hpy ?_)
  cases hrole : ev.metadata.get? "user_role" with
  | none => exact (by decide : NulFree "")
  | some value => exact jsonb_metadata hfits hrole

theorem nulFree_reasons (hfits : (rowFromEvent ev).Fits) :
    ∀ why ∈ PrivilegeEscalation.reasons py p ev ++ PrivilegeEscalation.failed ev,
      NulFree why.2 := by
  have huser : NulFree (shown ev.user) := nulFree_shown (nulFree_user hfits)
  have htext : NulFree ("actor '" ++ shown ev.user ++ "' is not a known privileged account") := by
    simp only [nulFree_append, huser, and_true]
    and_intros <;> exact nulFree_literal _ (by decide)
  intro why hwhy
  simp only [PrivilegeEscalation.reasons, PrivilegeEscalation.failed, List.mem_append,
    List.mem_ite_nil_left, List.mem_ite_nil_right, List.mem_singleton] at hwhy
  rcases hwhy with (((⟨-, rfl⟩ | ⟨-, rfl⟩) | ⟨-, rfl⟩) | ⟨-, rfl⟩)
  · exact htext
  · exact nulFree_literal _ (by decide)
  · exact nulFree_literal _ (by decide)
  · exact nulFree_literal _ (by decide)

theorem texts_privilegeEscalation (hpy : KeepsNulFree py) (hfits : (rowFromEvent ev).Fits)
    {why : List (ℚ × String)} (hwhy : ∀ w ∈ why, NulFree w.2) :
    ∀ text ∈ (PrivilegeEscalation.detection py ev why).texts, NulFree text := by
  have hsource : NulFree ev.source.val := nulFree_source hfits
  have huser : NulFree (shown ev.user) := nulFree_shown (nulFree_user hfits)
  have hactor : NulFree (ev.user.getD "unknown") :=
    nulFree_getD (nulFree_user hfits) (by decide)
  have haction : ∀ n, NulFree ((ev.action.map Subtype.val).getD
      (Text.take n (PrivilegeEscalation.action py ev))) := fun n =>
    nulFree_getD (nulFree_action hfits) (nulFree_take (nulFree_administrative hpy hfits) n)
  have hips : ∀ ip ∈ ev.sourceText.toList, NulFree ip := fun ip h =>
    nulFree_sourceText hfits ip (Option.mem_toList.mp h)
  have hreasons : NulFree (py.capitalize (Text.intercalate "; " (why.map Prod.snd))) :=
    hpy.capitalize _ (nulFree_intercalate (by decide) (List.forall_mem_map.mpr hwhy))
  simp only [Detection.texts, PrivilegeEscalation.detection, Option.toList_some, List.map_cons,
    List.map_nil, List.forall_mem_append, List.forall_mem_cons, nulFree_append, nulFree_constants,
    List.not_mem_nil, false_implies, implies_true, true_and, and_true, hsource, huser, hactor,
    haction, hreasons]
  refine ⟨⟨?_, hips⟩, ?_⟩ <;> and_intros <;> exact nulFree_literal _ (by decide)

theorem nulFree_query (hpy : KeepsNulFree py) (hfits : (rowFromEvent ev).Fits) :
    NulFree (SuspiciousSql.query py ev) := by
  simp only [SuspiciousSql.query]
  split_ifs
  · cases hquery : ev.metadata.get? "query" with
    | none => exact nulFree_pyStr hpy trivial
    | some value => exact nulFree_pyStr hpy (jsonb_metadata hfits hquery)
  · exact nulFree_getD (nulFree_message hfits) (by decide)

theorem texts_suspiciousSql (hpy : KeepsNulFree py) (hfits : (rowFromEvent ev).Fits) (rows : ℤ)
    {found : List (ℚ × String)} (hfound : ∀ hit ∈ found, NulFree hit.2) :
    ∀ text ∈ (SuspiciousSql.detection ev (SuspiciousSql.query py ev) rows found).texts,
      NulFree text := by
  have hsource : NulFree ev.source.val := nulFree_source hfits
  have hactor := nullable_or (nulFree_user hfits) (nulFree_sourceText hfits)
  have hunknown : NulFree ((ev.user.or ev.sourceText).getD "unknown") :=
    nulFree_getD hactor (by decide)
  have huser : NulFree (ev.user.getD "?") := nulFree_getD (nulFree_user hfits) (by decide)
  have hips : ∀ ip ∈ ev.sourceText.toList, NulFree ip := fun ip h =>
    nulFree_sourceText hfits ip (Option.mem_toList.mp h)
  have hlabels : NulFree (Text.intercalate ", " (found.map Prod.snd)) :=
    nulFree_intercalate (by decide) (List.forall_mem_map.mpr hfound)
  simp only [Detection.texts, SuspiciousSql.detection, Option.toList_some, List.map_cons,
    List.map_nil, List.forall_mem_append, List.forall_mem_cons, nulFree_append, nulFree_constants,
    List.not_mem_nil, false_implies, implies_true, true_and, and_true,
    nulFree_take (nulFree_query hpy hfits), hsource, hunknown, nulFree_shown hactor, huser,
    hlabels]
  refine ⟨⟨?_, hips⟩, ?_⟩ <;> and_intros <;> exact nulFree_literal _ (by decide)

theorem nulFree_hits (query : String) (rows : ℤ) :
    ∀ hit ∈ SuspiciousSql.hits py p query rows, NulFree hit.2 := by
  have hlarge : NulFree ("large result set (" ++ toString rows ++ " rows)") := by
    simp only [nulFree_append, nulFree_int, and_true]
    and_intros <;> exact nulFree_literal _ (by decide)
  intro hit hhit
  rcases List.mem_append.mp hhit with hhit | hhit
  · obtain ⟨pat, hpat, rfl⟩ := List.mem_map.mp hhit
    exact nulFree_constants.2 pat (List.mem_of_mem_filter hpat)
  · split_ifs at hhit
    · rw [List.mem_singleton.mp hhit]
      exact hlarge
    · exact absurd hhit List.not_mem_nil

theorem jsonb_strings {texts : List String} :
    Jsonb (strings texts) ↔ ∀ text ∈ texts, NulFree text := by
  induction texts with
  | nil => simp [strings, Jsonb, JsonbList]
  | cons text texts ih =>
    rw [List.forall_mem_cons, ← ih]
    rfl

end

section

variable {py : Python} {p : Params} {tick : Tick} {ev : SecurityEvent} {ws ws' : Windows}
  {d : Detection}

theorem bruteForce_some (h : BruteForce.evaluate py p tick ev ws = (ws', .ok (some d))) :
    ∃ ip breachedAccount, ev.sourceText = some ip ∧
      p.maxFailures ≤ (Rule.measured py p tick ev ws .bruteForce).count ∧ d = BruteForce.detection
        py p ev ip (Rule.measured py p tick ev ws .bruteForce) breachedAccount := by
  unfold BruteForce.evaluate at h
  split at h
  · cases h
  · rename_i ip hip
    simp only [Rule.measured, hip, Option.getD_some]
    dsimp only at h
    split_ifs at h with hcount
    · cases h
    · cases h
      exact ⟨ip, _, rfl, not_lt.mp hcount, rfl⟩

theorem bruteForce_fits_iff (hpy : KeepsNulFree py) (hfits : (rowFromEvent ev).Fits)
    (h : BruteForce.evaluate py p tick ev ws = (ws', .ok (some d))) (now : Time) :
    (Alert.ofDetection now d).Fits ↔
      Rule.WindowFits (Rule.measured py p tick ev ws .bruteForce) .bruteForce := by
  obtain ⟨ip, breachedAccount, hip, hcount, rfl⟩ := bruteForce_some h
  generalize Rule.measured py p tick ev ws .bruteForce = res at hcount
  have hbase : 0 ≤ growing (99 / 100) (3 / 5) (1 / 50) (res.count - p.maxFailures) ∧
      growing (99 / 100) (3 / 5) (1 / 50) (res.count - p.maxFailures) ≤ 1 :=
    growing_mem_unit (by norm_num) (by norm_num) (by norm_num) (sub_nonneg.mpr hcount)
  have hrule : BruteForce.ruleId.length ≤ 32 := by decide
  refine (fits_ofDetection_iff hfits hrule (fun host hmem => ?host) hip.symm rfl ?unit
    (texts_bruteForce hpy hfits (nulFree_sourceText hfits ip hip) _)).trans ?rest
  case host => exact Or.inr (Option.some.inj hmem).symm
  case unit =>
    split_ifs
    · exact unit_of_min (by norm_num)
        (Binary64.nearest_nonneg (add_nonneg hbase.1 (Binary64.nearest_nonneg (by norm_num))))
    · exact hbase
  case rest =>
    have htexts : ("Brute-force login activity from " ++ ip).length ≤ 255 ∧
        ("srcip:" ++ ip ++ "").length ≤ 255 := fits_of_ip hfits hip (by decide) (by decide)
    rw [String.append_empty] at htexts
    have hstatus : Jsonb ((ev.status.map fun s => Json.str s.value).getD .null) := by
      cases ev.status with
      | none => trivial
      | some status => exact (varchar_status status).2
    have hmetadata : JsonbDict (BruteForce.detection py p ev ip res breachedAccount).metadata :=
      ⟨by decide, trivial, by decide, trivial, by decide, trivial, by decide, hstatus, trivial⟩
    exact (and_iff_right htexts).trans
      (and_congr (integerBits_count_iff _) (and_iff_left hmetadata))

theorem passwordSpray_some (h : PasswordSpray.evaluate py p tick ev ws = (ws', .ok (some d))) :
    ∃ ip, ev.sourceText = some ip ∧ p.uniqueUsers ≤
        (accounts (Rule.measured py p tick ev ws .passwordSpray).uniqueValues).length ∧
      d = PasswordSpray.detection py p ev ip (Rule.measured py p tick ev ws .passwordSpray) := by
  unfold PasswordSpray.evaluate at h
  split at h
  · cases h
  · rename_i ip hip
    simp only [Rule.measured, hip, Option.getD_some]
    dsimp only at h
    split_ifs at h with hcount
    · cases h
    · cases h
      exact ⟨ip, rfl, not_lt.mp hcount, rfl⟩

theorem passwordSpray_fits_iff (hpy : KeepsNulFree py) (hfits : (rowFromEvent ev).Fits)
    (h : PasswordSpray.evaluate py p tick ev ws = (ws', .ok (some d))) (now : Time) :
    (Alert.ofDetection now d).Fits ↔
      Rule.WindowFits (Rule.measured py p tick ev ws .passwordSpray) .passwordSpray := by
  obtain ⟨ip, hip, hcount, rfl⟩ := passwordSpray_some h
  generalize Rule.measured py p tick ev ws .passwordSpray = res at hcount
  have hrule : PasswordSpray.ruleId.length ≤ 32 := by decide
  refine (fits_ofDetection_iff hfits hrule (fun host hmem => ?host) hip.symm rfl ?unit
    (texts_passwordSpray hpy hfits (nulFree_sourceText hfits ip hip))).trans ?rest
  case host => exact Or.inr (Option.some.inj hmem).symm
  case unit =>
    exact growing_mem_unit (by norm_num) (by norm_num) (by norm_num) (sub_nonneg.mpr hcount)
  case rest =>
    have hmetadata : JsonbDict (PasswordSpray.detection py p ev ip res).metadata :=
      ⟨by decide, trivial, by decide, trivial, trivial⟩
    have husers : (PasswordSpray.detection py p ev ip res).involvedUsers.take maxInvolved =
        (sorted (accounts res.uniqueValues)).take 25 := List.take_take
    rw [husers]
    exact (and_iff_right (fits_of_ip hfits hip (by decide) (by decide))).trans
      (and_congr (integerBits_count_iff _) (and_iff_left hmetadata))

theorem portScan_some (h : PortScan.evaluate py p tick ev ws = (ws', .ok (some d))) :
    ∃ ip, ev.sourceText = some ip ∧
      p.uniquePorts ≤ (Rule.measured py p tick ev ws .portScan).uniqueValues.length ∧
      d = PortScan.detection py p ev ip (Rule.measured py p tick ev ws .portScan) := by
  unfold PortScan.evaluate at h
  split at h
  · cases h
  · rename_i ip hip
    simp only [Rule.measured, hip, Option.getD_some]
    dsimp only at h
    split_ifs at h with hcount
    · cases h
    · cases h
      exact ⟨ip, rfl, not_lt.mp hcount, rfl⟩

theorem jsonb_ints (ns : List ℤ) : JsonbList (ns.map Json.int) := by
  induction ns with
  | nil => trivial
  | cons n ns ih => exact ⟨trivial, ih⟩

theorem portScan_fits_iff (hpy : KeepsNulFree py) (hfits : (rowFromEvent ev).Fits)
    (h : PortScan.evaluate py p tick ev ws = (ws', .ok (some d))) (now : Time) :
    (Alert.ofDetection now d).Fits ↔
      Rule.WindowFits (Rule.measured py p tick ev ws .portScan) .portScan := by
  obtain ⟨ip, hip, hcount, rfl⟩ := portScan_some h
  generalize Rule.measured py p tick ev ws .portScan = res at hcount
  have hrule : PortScan.ruleId.length ≤ 32 := by decide
  refine (fits_ofDetection_iff hfits hrule (fun host hmem => ?host) hip.symm rfl ?unit
    (texts_portScan hpy hfits (nulFree_sourceText hfits ip hip))).trans ?rest
  case host =>
    have hhost : ev.destinationText.getD ev.source.val = host := Option.some.inj hmem
    cases hdest : ev.destinationText with
    | none => exact Or.inr (by rw [← hhost, hdest]; rfl)
    | some dest => exact Or.inl (by rw [← hhost, hdest]; rfl)
  case unit =>
    exact growing_mem_unit (by norm_num) (by norm_num) (by norm_num) (sub_nonneg.mpr hcount)
  case rest =>
    have hmetadata : JsonbDict (PortScan.detection py p ev ip res).metadata :=
      ⟨by decide, trivial, by decide, jsonb_ints _, by decide, trivial, trivial⟩
    exact (and_iff_right (fits_of_ip hfits hip (by decide) (by decide))).trans
      ((and_iff_left ⟨by simp [PortScan.detection], hmetadata⟩).trans (integerBits_count_iff _))

theorem dataExfiltration_fits (hpy : KeepsNulFree py) (hfits : (rowFromEvent ev).Fits)
    (hp : p.Positive) (h : DataExfiltration.evaluate py p tick ev ws = (ws', .ok (some d)))
    (now : Time) : (Alert.ofDetection now d).Fits := by
  obtain ⟨ip, total, hip, htotal, rfl⟩ := DataExfiltration.evaluate_some h
  have hrule : DataExfiltration.ruleId.length ≤ 32 := by decide
  refine (fits_ofDetection_iff hfits hrule (fun host hmem => ?host) hip.symm rfl ?unit
    (texts_dataExfiltration hpy hfits (nulFree_sourceText hfits ip hip) total)).mpr ?rest
  case host => exact Or.inr (Option.some.inj hmem).symm
  case unit =>
    have hthreshold : (0 : ℚ) < p.bytesThreshold := by exact_mod_cast hp.bytesThreshold
    have hsum : (0 : ℚ) ≤ total := by exact_mod_cast hp.bytesThreshold.le.trans htotal
    have hratio : 0 ≤ Binary64.div total p.bytesThreshold :=
      Binary64.nearest_nonneg (div_nonneg hsum hthreshold.le)
    refine unit_of_min (by norm_num) (Binary64.nearest_nonneg (add_nonneg ?_ ?_))
    · exact Binary64.nearest_nonneg (by norm_num)
    · exact Binary64.nearest_nonneg (mul_nonneg (Binary64.nearest_nonneg (by norm_num)) hratio)
  case rest =>
    have hdest : Jsonb ((ev.destinationText.map Json.str).getD .null) := by
      cases hdest : ev.destinationText with
      | none => trivial
      | some dest => exact nulFree_destinationText hfits dest hdest
    have hmetadata : JsonbDict (DataExfiltration.detection py p ev ip total).metadata :=
      ⟨by decide, trivial, by decide, trivial, by decide, hdest, trivial⟩
    exact ⟨fits_of_ip hfits hip (by decide) (by decide), integerBits_one,
      by simp [DataExfiltration.detection], hmetadata⟩

theorem nulFree_users (hfits : (rowFromEvent ev).Fits) :
    ∀ user ∈ ev.user.toList.take maxInvolved, NulFree user := fun user h =>
  nulFree_user hfits user (Option.mem_toList.mp (List.mem_of_mem_take h))

theorem privilegeEscalation_fits_iff (hpy : KeepsNulFree py) (hfits : (rowFromEvent ev).Fits)
    (h : PrivilegeEscalation.evaluate py p tick ev ws = (ws', .ok (some d))) (now : Time) :
    (Alert.ofDetection now d).Fits ↔ Rule.TextsFit py ev .privilegeEscalation := by
  obtain rfl := PrivilegeEscalation.evaluate_some h
  have hrule : PrivilegeEscalation.ruleId.length ≤ 32 := by decide
  refine (fits_ofDetection_iff hfits hrule (fun host hmem => ?host) rfl rfl ?unit
    (texts_privilegeEscalation hpy hfits (nulFree_reasons hfits))).trans ?rest
  case host => exact Or.inr (Option.some.inj hmem).symm
  case unit =>
    refine unit_of_min (by norm_num) (PrivilegeEscalation.score_nonneg fun w hw => ?_)
    obtain ⟨why, hwhy, rfl⟩ := List.mem_map.mp hw
    exact PrivilegeEscalation.weight_nonneg hwhy
  case rest =>
    have htitle : "Privilege escalation by ".length = 24 ∧ " on ".length = 4 := by decide
    have hkey : "host:".length = 5 ∧ ":user:".length = 6 ∧ ":privesc".length = 8 := by decide
    have hrole : NulFree (if PrivilegeEscalation.actorRole py ev = "" then "unknown"
        else PrivilegeEscalation.actorRole py ev) := by
      split_ifs
      · decide
      · exact nulFree_actorRole hpy hfits
    have hreasons : Jsonb (strings ((PrivilegeEscalation.reasons py p ev ++
        PrivilegeEscalation.failed ev).map Prod.snd)) :=
      jsonb_strings.mpr (List.forall_mem_map.mpr (nulFree_reasons hfits))
    have hmetadata : JsonbDict (PrivilegeEscalation.detection py ev
        (PrivilegeEscalation.reasons py p ev ++ PrivilegeEscalation.failed ev)).metadata :=
      ⟨by decide, hreasons, by decide, hrole, trivial⟩
    rw [and_iff_left ⟨integerBits_one, nulFree_users hfits, hmetadata⟩]
    simp only [PrivilegeEscalation.detection, Rule.TextsFit, String.length_append, htitle, hkey]
    omega

theorem suspiciousSql_some (h : SuspiciousSql.evaluate py p tick ev ws = (ws', .ok (some d))) :
    ∃ rows, d = SuspiciousSql.detection ev (SuspiciousSql.query py ev) rows
      (SuspiciousSql.hits py p (SuspiciousSql.query py ev) rows) := by
  unfold SuspiciousSql.evaluate at h
  split_ifs at h
  · cases h
  · split at h
    · cases h
    · rename_i rows hrows
      split at h
      · cases h
      · cases h
        exact ⟨rows, rfl⟩

theorem suspiciousSql_fits_iff (hpy : KeepsNulFree py) (hfits : (rowFromEvent ev).Fits)
    (h : SuspiciousSql.evaluate py p tick ev ws = (ws', .ok (some d))) (now : Time) :
    (Alert.ofDetection now d).Fits ↔ Rule.TextsFit py ev .suspiciousSql := by
  obtain ⟨rows, rfl⟩ := suspiciousSql_some h
  have hfound := @nulFree_hits py p (SuspiciousSql.query py ev) rows
  have hrule : SuspiciousSql.ruleId.length ≤ 32 := by decide
  refine (fits_ofDetection_iff hfits hrule (fun host hmem => ?host) rfl rfl ?unit
    (texts_suspiciousSql hpy hfits rows hfound)).trans ?rest
  case host => exact Or.inr (Option.some.inj hmem).symm
  case unit => exact unit_of_min (by norm_num) (SuspiciousSql.score_nonneg _)
  case rest =>
    have htitle : "Suspicious SQL from ".length = 20 := by decide
    have hkey : "db:".length = 3 ∧ ":user:".length = 6 ∧ ":sqli".length = 5 := by decide
    have hmetadata : JsonbDict (SuspiciousSql.detection ev (SuspiciousSql.query py ev) rows
        (SuspiciousSql.hits py p (SuspiciousSql.query py ev) rows)).metadata :=
      ⟨by decide, jsonb_strings.mpr (List.forall_mem_map.mpr hfound), by decide, trivial, trivial⟩
    rw [and_iff_left ⟨integerBits_one, nulFree_users hfits, hmetadata⟩]
    simp only [SuspiciousSql.detection, Rule.TextsFit, String.length_append, htitle, hkey]
    omega

theorem authAnomaly_some (h : AuthAnomaly.evaluate py p tick ev ws = (ws', .ok (some d))) :
    ∃ user ip, ev.user = some user ∧ ev.sourceText = some ip ∧
      p.distinctIps ≤ (Rule.measured py p tick ev ws .authAnomaly).uniqueValues.length ∧
      d = AuthAnomaly.detection py p ev user ip (Rule.measured py p tick ev ws .authAnomaly) := by
  unfold AuthAnomaly.evaluate at h
  split at h
  · rename_i user ip huser hip
    simp only [Rule.measured, huser, hip, Option.getD_some]
    by_cases hsuccess : ev.status = some .success
    · simp only [hsuccess, if_true, ne_eq, not_true_eq_false, false_or] at h
      split_ifs at h with hcount
      · cases h
      · cases h
        exact ⟨user, ip, rfl, rfl, not_lt.mp hcount, rfl⟩
    · simp only [hsuccess, ne_eq, not_false_eq_true, true_or, if_true] at h
      cases h
  · cases h

theorem authAnomaly_fits_iff (hpy : KeepsNulFree py) (hfits : (rowFromEvent ev).Fits)
    (h : AuthAnomaly.evaluate py p tick ev ws = (ws', .ok (some d))) (now : Time) :
    (Alert.ofDetection now d).Fits ↔ Rule.TextsFit py ev .authAnomaly ∧
      Rule.WindowFits (Rule.measured py p tick ev ws .authAnomaly) .authAnomaly := by
  obtain ⟨user, ip, huser, hip, hcount, rfl⟩ := authAnomaly_some h
  generalize Rule.measured py p tick ev ws .authAnomaly = res at hcount
  have hname : NulFree user := nulFree_user hfits user huser
  have hrule : AuthAnomaly.ruleId.length ≤ 32 := by decide
  refine (fits_ofDetection_iff hfits hrule (fun host hmem => ?host) hip.symm rfl ?unit
    (texts_authAnomaly hpy hfits (nulFree_sourceText hfits ip hip) hname)).trans
      (and_congr ?lengths ?values)
  case host => exact Or.inr (Option.some.inj hmem).symm
  case unit =>
    exact growing_mem_unit (by norm_num) (by norm_num) (by norm_num) (sub_nonneg.mpr hcount)
  case lengths =>
    have htitle : "Unusual authentication pattern for '".length = 36 ∧ "'".length = 1 := by decide
    have hkey : "user:".length = 5 ∧ ":authgeo".length = 8 := by decide
    simp only [AuthAnomaly.detection, Rule.TextsFit, String.length_append, huser,
      Option.mem_some_iff, forall_eq', htitle, hkey]
    omega
  case values =>
    have husers : ∀ u ∈ [user].take maxInvolved, NulFree u := fun u hu =>
      List.mem_singleton.mp (List.mem_of_mem_take hu) ▸ hname
    refine ⟨fun hvalues => jsonb_strings.mp hvalues.2.2.2.1, fun hvalues => ?_⟩
    exact ⟨integerBits_one, husers, by decide, jsonb_strings.mpr hvalues, trivial⟩

end

/-- For an event that is itself storable, the alert of a detection can be inserted and
served exactly when the texts its rule concatenates leave each other room and the values that
it shows of its window have no U+0000. -/
theorem detection_fits_iff (py : Python) (hpy : KeepsNulFree py) (p : Params) (hp : p.Positive)
    (tick : Tick) (ev : SecurityEvent) (hfits : (rowFromEvent ev).Fits) (rule : Rule)
    (ws ws' : Windows) (d : Detection) (h : rule.evaluate py p tick ev ws = (ws', .ok (some d)))
    (now : Time) : (Alert.ofDetection now d).Fits ↔
      rule.TextsFit py ev ∧ rule.WindowFits (rule.measured py p tick ev ws) := by
  cases rule with
  | bruteForce => exact (bruteForce_fits_iff hpy hfits h now).trans (and_iff_right trivial).symm
  | passwordSpray =>
    exact (passwordSpray_fits_iff hpy hfits h now).trans (and_iff_right trivial).symm
  | portScan => exact (portScan_fits_iff hpy hfits h now).trans (and_iff_right trivial).symm
  | privilegeEscalation =>
    have hev : PrivilegeEscalation.evaluate py p tick ev ws = (ws', .ok (some d)) := h
    exact (privilegeEscalation_fits_iff hpy hfits hev now).trans (and_iff_left trivial).symm
  | suspiciousSql =>
    have hev : SuspiciousSql.evaluate py p tick ev ws = (ws', .ok (some d)) := h
    exact (suspiciousSql_fits_iff hpy hfits hev now).trans (and_iff_left trivial).symm
  | dataExfiltration =>
    exact iff_of_true (dataExfiltration_fits hpy hfits hp h now) ⟨trivial, trivial⟩
  | authAnomaly => exact authAnomaly_fits_iff hpy hfits h now

def escalation (user source : Clipped maxStr) : SecurityEvent where
  eventId := someReadings.uuid4
  timestamp := 0
  ingestedAt := 0
  source
  sourceType := .linuxServer
  eventType := .privilegeEscalation
  sourceIp := none
  destinationIp := none
  destinationPort := none
  username := some user
  service := none
  action := none
  status := none
  severity := .info
  message := none
  bytesOut := ⟨0, by decide⟩
  bytesIn := ⟨0, by decide⟩
  metadata := Metadata.ofItems []

open Column in
theorem fits_escalation {user source : Clipped maxStr} (hu : Varchar 255 user.val)
    (hs : Varchar 255 source.val) : (rowFromEvent (escalation user source)).Fits where
  source := hs
  sourceType := varchar_sourceType _
  eventType := varchar_eventType _
  sourceIp := nofun
  destinationIp := nofun
  destinationPort := nofun
  username _ h := by cases h; exact hu
  service := nofun
  action := nofun
  status := nofun
  severity := varchar_severity _
  message := nofun
  bytesOut := integerBits_bytes _
  bytesIn := integerBits_bytes _
  eventMetadata := trivial

def stopped : Tick := ⟨0, "", 0⟩

theorem evaluate_escalation (user source : Clipped maxStr) (ws : Windows) :
    ∃ d, PrivilegeEscalation.evaluate Python.ascii {} stopped (escalation user source) ws =
      (ws, .ok (some d)) := by
  have hreasons : PrivilegeEscalation.reasons Python.ascii {} (escalation user source) ≠ [] := by
    simp [PrivilegeEscalation.reasons, escalation]
  exact ⟨PrivilegeEscalation.detection Python.ascii (escalation user source) _, by
    rw [PrivilegeEscalation.evaluate, if_neg (fun h => h.1 rfl), if_neg hreasons]⟩

def letters (n : ℕ) (h : 0 < n ∧ n ≤ maxStr) : Clipped maxStr :=
  ⟨String.ofList (List.replicate n 'a'), by
    intro he
    have hlen := congrArg String.length he
    rw [String.length_ofList, List.length_replicate] at hlen
    exact h.1.ne' hlen, by rw [String.length_ofList, List.length_replicate]; exact h.2⟩

theorem length_letters (n : ℕ) (h : 0 < n ∧ n ≤ maxStr) : (letters n h).val.length = n := by
  rw [letters, String.length_ofList, List.length_replicate]

open Column in
theorem varchar_letters {n : ℕ} (h : 0 < n ∧ n ≤ maxStr) (hn : n ≤ 255) :
    Varchar 255 (letters n h).val := by
  refine ⟨(length_letters n h).trans_le hn, ?_⟩
  simp [NulFree, letters]

theorem toLower_eq_nul {c : Char} (h : c.toLower = '\x00') : c = '\x00' := by
  by_cases hupper : c.val ≥ 'A'.val ∧ c.val ≤ 'Z'.val
  · replace h := (dif_pos hupper).symm.trans h
    have hval := congrArg (fun d : Char => d.val.toNat) h
    have hletters : ('A' : Char).val.toNat = 65 ∧ ('Z' : Char).val.toNat = 90 ∧
      (('a' : Char).val - ('A' : Char).val).toNat = 32 ∧ ('\x00' : Char).val.toNat = 0 := by decide
    simp only [UInt32.toNat_add, ge_iff_le, UInt32.le_iff_toNat_le] at hval hupper
    omega
  · exact (dif_neg hupper).symm.trans h

theorem toUpper_eq_nul {c : Char} (h : c.toUpper = '\x00') : c = '\x00' := by
  by_cases hlower : 'a'.val ≤ c.val ∧ c.val ≤ 'z'.val
  · replace h := (dif_pos hlower).symm.trans h
    have hval := congrArg (fun d : Char => d.val.toNat) h
    have hletters : ('a' : Char).val.toNat = 97 ∧ ('z' : Char).val.toNat = 122 ∧
      (('A' : Char).val - ('a' : Char).val).toNat = 2 ^ 32 - 32 ∧
      ('\x00' : Char).val.toNat = 0 := by decide
    simp only [UInt32.toNat_add, UInt32.le_iff_toNat_le] at hval hlower
    omega
  · exact (dif_neg hlower).symm.trans h

theorem nul_notMem_map_toLower {cs : List Char} (h : '\x00' ∉ cs) :
    '\x00' ∉ cs.map Char.toLower := fun hmem =>
  let ⟨_, hc, hnul⟩ := List.mem_map.mp hmem
  h (toLower_eq_nul hnul ▸ hc)

theorem keepsNulFree_ascii : KeepsNulFree Python.ascii where
  lower s hs := by
    rw [NulFree, Python.ascii, String.toList_map]
    exact nul_notMem_map_toLower hs
  capitalize s hs := by
    rw [NulFree, Python.ascii, String.toList_ofList]
    cases hlist : s.toList with
    | nil => exact List.not_mem_nil
    | cons c cs =>
      rw [NulFree, hlist, List.mem_cons, not_or] at hs
      rw [List.mem_cons, not_or]
      exact ⟨fun hnul => hs.1 (toUpper_eq_nul hnul.symm).symm, nul_notMem_map_toLower hs.2⟩
  reprStr s hs := nulFree_append.mpr ⟨nulFree_append.mpr ⟨by decide, hs⟩, by decide⟩
  reprFloat q := by
    change NulFree (if q.den = 1 then toString q.num else _)
    split_ifs
    · exact nulFree_int _
    · exact nulFree_append.mpr ⟨nulFree_append.mpr ⟨nulFree_int _, by decide⟩, nulFree_nat _⟩
  formatFixed _ q := nulFree_int _

theorem detection_fits_iff_short :
    let ev := escalation (letters 7 (by decide)) (letters 12 (by decide))
    ∃ ws d, Rule.evaluate Python.ascii {} stopped ev [] .privilegeEscalation = (ws, .ok (some d)) ∧
      ((Alert.ofDetection 0 d).Fits ↔ Rule.TextsFit Python.ascii ev .privilegeEscalation ∧
        Rule.WindowFits (Rule.measured Python.ascii {} stopped ev [] .privilegeEscalation)
          .privilegeEscalation) := by
  intro ev
  have huser := varchar_letters (show 0 < 7 ∧ 7 ≤ maxStr by decide) (by decide)
  have hsource := varchar_letters (show 0 < 12 ∧ 12 ≤ maxStr by decide) (by decide)
  have hfits : (rowFromEvent ev).Fits := fits_escalation huser hsource
  obtain ⟨d, hd⟩ : ∃ d, PrivilegeEscalation.evaluate Python.ascii {} stopped ev [] =
    ([], .ok (some d)) := evaluate_escalation _ _ []
  exact ⟨[], d, hd, detection_fits_iff Python.ascii keepsNulFree_ascii {}
    (by constructor <;> decide) stopped ev hfits .privilegeEscalation [] [] d hd 0⟩

/-- A user name and a host name of 130 characters each fit their columns, the title of the
detection does not. -/
theorem long_title_rejected :
    let ev := escalation (letters 130 (by decide)) (letters 130 (by decide))
    (rowFromEvent ev).Fits ∧ ∃ ws d,
      Rule.evaluate Python.ascii {} stopped ev [] .privilegeEscalation = (ws, .ok (some d)) ∧
        ¬ (Alert.ofDetection 0 d).Fits := by
  intro ev
  have hletters := varchar_letters (show 0 < 130 ∧ 130 ≤ maxStr by decide) (by decide)
  have hfits : (rowFromEvent ev).Fits := fits_escalation hletters hletters
  obtain ⟨d, hd⟩ : ∃ d, PrivilegeEscalation.evaluate Python.ascii {} stopped ev [] =
    ([], .ok (some d)) := evaluate_escalation _ _ []
  refine ⟨hfits, [], d, hd, fun hfit => ?_⟩
  obtain rfl := PrivilegeEscalation.evaluate_some hd
  exact absurd hfit.title (by decide +kernel)

end SiemEngine

import SiemEngine.Schemas.Idempotence

/-!
# The documented ingestion path

`RawEvent` is what a payload is documented to be parsed into before `from_raw` sees it; the
pipeline hands the payload to `from_raw` as it is. Validation strips the texts of the declared
fields and the keys of the metadata.
-/

namespace SiemEngine

/-- `str | None` under `str_strip_whitespace`, `none` for a validation error. -/
def strField (d : JsonDict) (key : String) : Option (Option String) :=
  match field d key with
  | .null => some none
  | .str s => some (some (Text.trim s))
  | _ => none

def trimKeys (items : JsonDict) : JsonDict :=
  Dict.update [] (items.map fun kv => (Text.trim kv.1, kv.2))

/-- `dict[str, Any] | None` under `str_strip_whitespace`. -/
def dictField (d : JsonDict) (key : String) : Option (Option JsonDict) :=
  match field d key with
  | .null => some none
  | .obj items => some (some (trimKeys items))
  | _ => none

structure RawEvent where
  eventId : Option String
  timestamp : Json
  source : Option String
  sourceType : Option String
  eventType : Option String
  sourceIp : Json
  destinationIp : Json
  destinationPort : Json
  username : Option String
  service : Option String
  action : Option String
  status : Option String
  severity : Option String
  message : Option String
  bytesOut : Json
  bytesIn : Json
  metadata : Option JsonDict
  extra : JsonDict

namespace RawEvent

def modelFields : List String :=
  ["event_id", "timestamp", "source", "source_type", "event_type", "source_ip",
    "destination_ip", "destination_port", "username", "service", "action", "status", "severity",
    "message", "bytes_out", "bytes_in", "metadata"]

/-- `RawEvent(**d)`, `none` for a validation error. -/
def ofDict (d : JsonDict) : Option RawEvent :=
  (strField d "event_id").bind fun eventId =>
  (strField d "source").bind fun source =>
  (strField d "source_type").bind fun sourceType =>
  (strField d "event_type").bind fun eventType =>
  (strField d "username").bind fun username =>
  (strField d "service").bind fun service =>
  (strField d "action").bind fun action =>
  (strField d "status").bind fun status =>
  (strField d "severity").bind fun severity =>
  (strField d "message").bind fun message =>
  (dictField d "metadata").map fun metadata =>
    { eventId, timestamp := field d "timestamp", source, sourceType, eventType,
      sourceIp := field d "source_ip", destinationIp := field d "destination_ip",
      destinationPort := field d "destination_port", username, service, action, status, severity,
      message, bytesOut := field d "bytes_out", bytesIn := field d "bytes_in", metadata,
      extra := d.filter fun kv => kv.1 ∉ modelFields }

def modelDump (e : RawEvent) : JsonDict :=
  [("event_id", orNull .str e.eventId), ("timestamp", e.timestamp),
    ("source", orNull .str e.source), ("source_type", orNull .str e.sourceType),
    ("event_type", orNull .str e.eventType), ("source_ip", e.sourceIp),
    ("destination_ip", e.destinationIp), ("destination_port", e.destinationPort),
    ("username", orNull .str e.username), ("service", orNull .str e.service),
    ("action", orNull .str e.action), ("status", orNull .str e.status),
    ("severity", orNull .str e.severity), ("message", orNull .str e.message),
    ("bytes_out", e.bytesOut), ("bytes_in", e.bytesIn), ("metadata", orNull .obj e.metadata)] ++
    e.extra

def trimmed : Json → Json
  | .str s => .str (Text.trim s)
  | value => value

def trimmedKeys : Json → Json
  | .obj items => .obj (trimKeys items)
  | value => value

inductive IsText : Json → Prop
  | null : IsText .null
  | str (s : String) : IsText (.str s)

theorem strField_eq_some {d : JsonDict} {key : String} {value : Option String}
    (h : strField d key = some value) :
    IsText (field d key) ∧ orNull .str value = trimmed (field d key) := by
  unfold strField at h
  cases hfield : field d key with
  | null => rw [hfield] at h; cases h; exact ⟨.null, rfl⟩
  | str s => rw [hfield] at h; cases h; exact ⟨.str s, rfl⟩
  | bool b => rw [hfield] at h; cases h
  | int n => rw [hfield] at h; cases h
  | float q => rw [hfield] at h; cases h
  | arr xs => rw [hfield] at h; cases h
  | obj kvs => rw [hfield] at h; cases h

theorem dictField_eq_some {d : JsonDict} {key : String} {value : Option JsonDict}
    (h : dictField d key = some value) :
    orNull .obj value = trimmedKeys (field d key) := by
  unfold dictField at h
  cases hfield : field d key with
  | null => rw [hfield] at h; cases h; rfl
  | obj kvs => rw [hfield] at h; cases h; rfl
  | bool b => rw [hfield] at h; cases h
  | int n => rw [hfield] at h; cases h
  | float q => rw [hfield] at h; cases h
  | arr xs => rw [hfield] at h; cases h
  | str s => rw [hfield] at h; cases h

theorem ofDict_eq_some {d : JsonDict} {e : RawEvent} (h : ofDict d = some e) :
    strField d "event_id" = some e.eventId ∧ strField d "source" = some e.source ∧
      strField d "source_type" = some e.sourceType ∧ strField d "event_type" = some e.eventType ∧
      strField d "username" = some e.username ∧ strField d "service" = some e.service ∧
      strField d "action" = some e.action ∧ strField d "status" = some e.status ∧
      strField d "severity" = some e.severity ∧ strField d "message" = some e.message ∧
      dictField d "metadata" = some e.metadata ∧
      e = { e with
        timestamp := field d "timestamp", sourceIp := field d "source_ip",
        destinationIp := field d "destination_ip", destinationPort := field d "destination_port",
        bytesOut := field d "bytes_out", bytesIn := field d "bytes_in",
        extra := d.filter fun kv => kv.1 ∉ modelFields } := by
  simp only [ofDict, Option.bind_eq_some_iff, Option.map_eq_some_iff] at h
  obtain ⟨_, heventId, _, hsource, _, hsourceType, _, heventType, _, husername, _, hservice, _,
    haction, _, hstatus, _, hseverity, _, hmessage, _, hmetadata, rfl⟩ := h
  exact ⟨heventId, hsource, hsourceType, heventType, husername, hservice, haction, hstatus,
    hseverity, hmessage, hmetadata, rfl⟩

def textFields : List String :=
  ["event_id", "source", "source_type", "event_type", "username", "service", "action", "status",
    "severity", "message"]

def anyFields : List String :=
  ["timestamp", "source_ip", "destination_ip", "destination_port", "bytes_out", "bytes_in"]

theorem text_of_ofDict {d : JsonDict} {e : RawEvent} (h : ofDict d = some e) :
    ∀ key ∈ textFields, IsText (field d key) ∧ field e.modelDump key = trimmed (field d key) := by
  obtain ⟨heventId, hsource, hsourceType, heventType, husername, hservice, haction, hstatus,
    hseverity, hmessage, -, -⟩ := ofDict_eq_some h
  have hfound : ∀ {key : String} {value : Option String}, strField d key = some value →
      field e.modelDump key = orNull .str value →
      IsText (field d key) ∧ field e.modelDump key = trimmed (field d key) := by
    intro key value hvalue hfield
    obtain ⟨htext, htrim⟩ := strField_eq_some hvalue
    exact ⟨htext, hfield.trans htrim⟩
  simp only [textFields, List.forall_mem_cons, List.not_mem_nil, IsEmpty.forall_iff, implies_true,
    and_true]
  refine ⟨hfound heventId ?_, hfound hsource ?_, hfound hsourceType ?_, hfound heventType ?_,
    hfound husername ?_, hfound hservice ?_, hfound haction ?_, hfound hstatus ?_,
    hfound hseverity ?_, hfound hmessage ?_⟩ <;>
    simp [modelDump, field, Dict.get?_cons]

theorem any_of_ofDict {d : JsonDict} {e : RawEvent} (h : ofDict d = some e) :
    ∀ key ∈ anyFields, Dict.get? e.modelDump key = some (field d key) := by
  obtain ⟨-, -, -, -, -, -, -, -, -, -, -, he⟩ := ofDict_eq_some h
  rw [he]
  simp [anyFields, modelDump, Dict.get?_cons]

theorem metadata_of_ofDict {d : JsonDict} {e : RawEvent} (h : ofDict d = some e) :
    field e.modelDump "metadata" = trimmedKeys (field d "metadata") := by
  obtain ⟨-, -, -, -, -, -, -, -, -, -, hmetadata, -⟩ := ofDict_eq_some h
  rw [← dictField_eq_some hmetadata]
  simp [modelDump, field, Dict.get?_cons]

theorem extra_of_ofDict {d : JsonDict} {e : RawEvent} (h : ofDict d = some e) :
    e.modelDump.filter (fun kv => kv.1 ∉ SecurityEvent.modelFields) =
      d.filter fun kv => kv.1 ∉ SecurityEvent.modelFields := by
  obtain ⟨-, -, -, -, -, -, -, -, -, -, -, he⟩ := ofDict_eq_some h
  have hsub : ∀ key ∈ modelFields, key ∈ SecurityEvent.modelFields := by decide
  have hextra : e.extra = d.filter fun kv => kv.1 ∉ modelFields := by rw [he]
  have hdeclared : e.modelDump.filter (fun kv => kv.1 ∉ SecurityEvent.modelFields) =
      e.extra.filter fun kv => kv.1 ∉ SecurityEvent.modelFields := by
    simp [modelDump, SecurityEvent.modelFields]
  rw [hdeclared, hextra, List.filter_filter]
  refine List.filter_congr fun kv _ => ?_
  by_cases hkey : kv.1 ∈ SecurityEvent.modelFields
  · simp [hkey]
  · simp [hkey, mt (hsub kv.1) hkey]

end RawEvent

def Python.LowersBetween (py : Python) : Prop :=
  ∀ front s back : List Char, (∀ c ∈ front ++ back, Text.isSpace c = true) →
    py.lower (String.ofList (front ++ s ++ back)) =
      String.ofList (front ++ (py.lower (String.ofList s)).toList ++ back)

theorem Text.toLower_of_isSpace {c : Char} (h : Text.isSpace c = true) : c.toLower = c := by
  have hupper : ¬ (65 ≤ c.toNat ∧ c.toNat ≤ 90) := by
    intro hletter
    simp only [Text.isSpace, Bool.or_eq_true, Bool.and_eq_true, decide_eq_true_eq] at h
    omega
  refine dif_neg fun hletter => hupper ?_
  have hbounds := And.imp UInt32.le_iff_toNat_le.mp UInt32.le_iff_toNat_le.mp hletter
  exact hbounds

theorem Python.lowersBetween_ascii : Python.ascii.LowersBetween := by
  intro front s back h
  have hspace : ∀ cs : List Char, (∀ c ∈ cs, Text.isSpace c = true) → cs.map Char.toLower = cs :=
    fun cs hcs => (List.map_congr_left fun c hc => Text.toLower_of_isSpace (hcs c hc)).trans
      (List.map_id' cs)
  change (String.ofList (front ++ s ++ back)).map Char.toLower = _
  rw [← String.toList_inj, String.toList_map, String.toList_ofList, String.toList_ofList,
    List.map_append, List.map_append, hspace front fun c hc => h c (List.mem_append_left _ hc),
    hspace back fun c hc => h c (List.mem_append_right _ hc)]
  change _ = front ++ ((String.ofList s).map Char.toLower).toList ++ back
  rw [String.toList_map, String.toList_ofList]

section

variable {ε : Type*} (all : List ε) (value : ε → String) (default : ε) (py : Python)

def member (s : String) : ε := (ofValue? all value (py.lower s)).getD default

/-- A text that names a member only without the whitespace around it. -/
def Hidden (s : String) : Prop :=
  Text.trim s ≠ s ∧ ∃ e, e ≠ default ∧ py.lower (Text.trim s) = value e

variable {all value default py}

theorem ofValue?_lower_of_padded (hpy : py.LowersBetween) (hread : Readable all value)
    {s : String} (h : Text.trim s ≠ s) : ofValue? all value (py.lower s) = none := by
  obtain ⟨front, back, hs, hspace⟩ := Text.exists_append_stripBy Text.isWhiteSpace s
  change s.toList = front ++ (Text.trim s).toList ++ back at hs
  have hisSpace : ∀ c ∈ front ++ back, Text.isSpace c = true := by
    intro c hc
    have hwhite := hspace c hc
    rw [Text.isWhiteSpace, Bool.and_eq_true] at hwhite
    exact hwhite.1
  have hne : front ++ back ≠ [] := by
    intro hnil
    obtain ⟨hfront, hback⟩ := List.append_eq_nil_iff.mp hnil
    rw [hfront, hback, List.nil_append, List.append_nil] at hs
    exact h (String.toList_inj.mp hs.symm)
  obtain ⟨c, hc⟩ := List.exists_mem_of_ne_nil _ hne
  have hlower : (py.lower s).toList =
      front ++ (py.lower (String.ofList (Text.trim s).toList)).toList ++ back := by
    have hbetween := hpy front (Text.trim s).toList back hisSpace
    rw [← hs, String.ofList_toList] at hbetween
    rw [hbetween, String.toList_ofList]
  have hmem : c ∈ (py.lower s).toList := by
    rw [hlower]
    simp only [List.mem_append] at hc ⊢
    tauto
  refine List.find?_eq_none.mpr fun e _ heq => ?_
  have hclear := hread.unspaced e c (by rwa [of_decide_eq_true heq])
  rw [hisSpace c hc] at hclear
  cases hclear

theorem member_trim_iff (hpy : py.LowersBetween) (hread : Readable all value) (s : String) :
    member all value default py (Text.trim s) = member all value default py s ↔
      ¬ Hidden value default py s := by
  by_cases h : Text.trim s = s
  · rw [h]
    exact iff_of_true rfl fun hhidden => hhidden.1 h
  · have hdefault : member all value default py s = default := by
      rw [member, ofValue?_lower_of_padded hpy hread h, Option.getD_none]
    rw [hdefault]
    constructor
    · rintro heq ⟨-, e, hne, hlower⟩
      rw [member, hlower, hread.ofValue, Option.getD_some] at heq
      exact hne heq
    · intro hhidden
      unfold member
      cases hfound : ofValue? all value (py.lower (Text.trim s)) with
      | none => rfl
      | some e =>
        by_contra hne
        have hlower := List.find?_some hfound
        exact hhidden ⟨h, e, hne, (of_decide_eq_true hlower).symm⟩

end

theorem clampSkew_eq_iff {now now' t : Time} : clampSkew now t = clampSkew now' t ↔
    now = now' ∨ t - now ≤ oneDay ∧ t - now' ≤ oneDay := by
  have hclamp : ∀ now now' t day : ℤ, 0 < day →
      ((if day < t - now then now else t) = (if day < t - now' then now' else t) ↔
        now = now' ∨ t - now ≤ day ∧ t - now' ≤ day) := by
    intro now now' t day hday
    split_ifs <;> omega
  exact hclamp now now' t oneDay (by decide)

/-- The event of two calls, their times of ingestion apart; dictionaries are compared by
their entries. -/
def SameEvent (a b : SecurityEvent) : Prop :=
  { b with ingestedAt := a.ingestedAt, metadata := a.metadata } = a ∧
    ∀ key, b.metadata.get? key = a.metadata.get? key

def PathsAgree : Except EventError SecurityEvent → Except EventError SecurityEvent → Prop
  | .ok a, .ok b => SameEvent a b
  | .error _, .error _ => True
  | _, _ => False

/-- The UUID a text names, a random one for the empty text. -/
def uuidOf (py : Python) (uuid4 : UUID) (s : String) : UUID :=
  if s = "" then uuid4 else (Uuid.ofString py s).getD (Uuid.uuid5 s)

/-- A payload that the documented path and the pipeline's path read alike, where `t` is the
time of its timestamp. -/
structure ReadAlike (py : Python) (r r' : Readings) (d : JsonDict) (t : Time) : Prop where
  timestamp : r.now = r'.now ∨ t - r.now ≤ oneDay ∧ t - r'.now ≤ oneDay
  eventId : ∀ s, field d "event_id" = .str s →
    Text.trim s = s ∨ uuidOf py r'.uuid4 (Text.trim s) = uuidOf py r.uuid4 s
  sourceType : ∀ s, field d "source_type" = .str s →
    ¬ Hidden SourceType.value .unknown py s
  eventType : ∀ s, field d "event_type" = .str s → ¬ Hidden EventType.value .unknown py s
  status : ∀ s, field d "status" = .str s → ¬ Hidden EventStatus.value .info py s
  severity : ∀ s, field d "severity" = .str s → ¬ Hidden Severity.value .info py s
  metadata : ∀ key,
    (Metadata.ofItems (SecurityEvent.mergedMetadata
      (Dict.set d "metadata" (RawEvent.trimmedKeys (field d "metadata"))))).get? key =
    (Metadata.ofItems (SecurityEvent.mergedMetadata d)).get? key

namespace RawEvent

open SecurityEvent (fromRaw ofPayload mergedMetadata identity ExplicitId)

variable {py : Python} {r r' : Readings} {d : JsonDict} {e : RawEvent} {t t' : Time}

theorem mergedMetadata_modelDump (h : ofDict d = some e) : mergedMetadata e.modelDump =
    mergedMetadata (Dict.set d "metadata" (trimmedKeys (field d "metadata"))) := by
  have hset : field (Dict.set d "metadata" (trimmedKeys (field d "metadata"))) "metadata" =
      trimmedKeys (field d "metadata") := by
    rw [field, Dict.get?_set_self, Option.getD_some]
  have hextra : ∀ value : Json, (Dict.set d "metadata" value).filter
      (fun kv => kv.1 ∉ SecurityEvent.modelFields) =
        d.filter fun kv => kv.1 ∉ SecurityEvent.modelFields :=
    fun value => Dict.filter_set (p := fun key => key ∉ SecurityEvent.modelFields) d value
      (by decide)
  unfold mergedMetadata
  rw [metadata_of_ofDict h, extra_of_ofDict h, hset, hextra]

theorem clipValue_trimmed {limit : ℕ} [NeZero limit] {value : Json} (h : IsText value) :
    clipValue py limit (trimmed value) = clipValue py limit value := by
  cases h with
  | null => rfl
  | str s =>
    have hclip : clip limit (Text.trim s) = clip limit s := by
      unfold clip
      simp only [Text.strip_trim]
    rw [trimmed, clipValue_str, clipValue_str, hclip]

theorem clipSource_trimmed {value : Json} (h : IsText value) :
    clipSource py (trimmed value) = clipSource py value := by
  rw [clipSource, clipValue_trimmed h, clipSource]

theorem validateBytes_field (d : JsonDict) (key : String) :
    validateBytes py (field d key) = validateBytes py ((Dict.get? d key).getD (.int 0)) := by
  unfold field
  cases Dict.get? d key <;> rfl

theorem identity_eq_uuidOf {u : UUID} {s : String} (h : field d "event_id" = .str s) :
    identity py u d = uuidOf py u s := by
  unfold identity uuidOf
  rw [h]
  by_cases hs : s = ""
  · have hfalsy : (Json.str s).truthy ≠ true := by simp [Json.truthy, hs]
    rw [if_pos hs, if_neg hfalsy]
  · have htruthy : (Json.str s).truthy = true := by simp [Json.truthy, hs]
    rw [if_neg hs, if_pos htruthy, Json.pyStr]

theorem ofPayload_modelDump (h : ofDict d = some e) : ofPayload py r e.modelDump t =
    { ofPayload py r d t with
      eventId := identity py r.uuid4 e.modelDump
      sourceType := coerceSourceType py (trimmed (field d "source_type"))
      eventType := coerceEventType py (trimmed (field d "event_type"))
      status := coerceStatus py (trimmed (field d "status"))
      severity := coerceSeverity py (trimmed (field d "severity"))
      metadata := Metadata.ofItems (mergedMetadata
        (Dict.set d "metadata" (trimmedKeys (field d "metadata")))) } := by
  have htext := text_of_ofDict h
  simp only [textFields, List.forall_mem_cons, List.not_mem_nil, IsEmpty.forall_iff, implies_true,
    and_true] at htext
  obtain ⟨-, ⟨tsource, hsource⟩, ⟨-, hsourceType⟩, ⟨-, heventType⟩, ⟨tusername, husername⟩,
    ⟨tservice, hservice⟩, ⟨taction, haction⟩, ⟨-, hstatus⟩, ⟨-, hseverity⟩,
    ⟨tmessage, hmessage⟩⟩ := htext
  have hany : ∀ key ∈ anyFields, field e.modelDump key = field d key := fun key hkey => by
    rw [field, any_of_ofDict h key hkey, Option.getD_some]
  have hbytesOut := any_of_ofDict h "bytes_out" (by decide)
  have hbytesIn := any_of_ofDict h "bytes_in" (by decide)
  unfold ofPayload
  dsimp only
  rw [mergedMetadata_modelDump h, hsource, hsourceType, heventType, husername, hservice, haction,
    hstatus, hseverity, hmessage, hany "source_ip" (by decide),
    hany "destination_ip" (by decide), hany "destination_port" (by decide), hbytesOut, hbytesIn,
    Option.getD_some, Option.getD_some, validateBytes_field, validateBytes_field,
    clipSource_trimmed tsource, clipValue_trimmed tusername, clipValue_trimmed tservice,
    clipValue_trimmed taction, clipValue_trimmed tmessage]

theorem coerce_trimmed_iff {ε α : Type*} {all : List ε} {value : ε → String} {default : ε}
    (hpy : py.LowersBetween) (hread : Readable all value) {coerce : Json → α} {wrap : ε → α}
    (hwrap : Function.Injective wrap)
    (hcoerce : ∀ s, coerce (.str s) = wrap (member all value default py s)) {v : Json}
    (hv : IsText v) : coerce (trimmed v) = coerce v ↔
      ∀ s, v = .str s → ¬ Hidden value default py s := by
  cases hv with
  | null => exact iff_of_true rfl fun s hs => by cases hs
  | str s =>
    rw [trimmed, hcoerce, hcoerce, hwrap.eq_iff, member_trim_iff hpy hread]
    exact ⟨fun hhidden u hu => by cases hu; exact hhidden, fun hall => hall s rfl⟩

theorem identity_modelDump_iff (h : ofDict d = some e) (hid : ExplicitId d) {u u' : UUID} :
    identity py u' e.modelDump = identity py u d ↔ ∀ s, field d "event_id" = .str s →
      Text.trim s = s ∨ uuidOf py u' (Text.trim s) = uuidOf py u s := by
  obtain ⟨htext, hfield⟩ := text_of_ofDict h "event_id" (by decide)
  unfold ExplicitId at hid
  generalize heid : field d "event_id" = value at hid htext hfield
  cases htext with
  | null => cases hid
  | str s =>
    have hne : s ≠ "" := by simpa [Json.truthy] using hid
    have hsame : Text.trim s = s → uuidOf py u' (Text.trim s) = uuidOf py u s := by
      intro htrim
      rw [htrim, uuidOf, uuidOf, if_neg hne, if_neg hne]
    rw [identity_eq_uuidOf hfield, identity_eq_uuidOf heid]
    constructor
    · rintro heq v ⟨⟩
      exact Or.inr heq
    · intro hall
      exact (hall s rfl).elim hsame id

theorem sameEvent_iff (hpy : py.LowersBetween) (h : ofDict d = some e) (hid : ExplicitId d) :
    SameEvent (ofPayload py r d (clampSkew r.now t))
      (ofPayload py r' e.modelDump (clampSkew r'.now t)) ↔ ReadAlike py r r' d t := by
  have htext := text_of_ofDict h
  have hsourceType : coerceSourceType py (trimmed (field d "source_type")) =
      coerceSourceType py (field d "source_type") ↔ _ :=
    coerce_trimmed_iff hpy SourceType.readable Function.injective_id (fun _ => rfl)
      (htext "source_type" (by decide)).1
  have heventType : coerceEventType py (trimmed (field d "event_type")) =
      coerceEventType py (field d "event_type") ↔ _ :=
    coerce_trimmed_iff hpy EventType.readable Function.injective_id (fun _ => rfl)
      (htext "event_type" (by decide)).1
  have hstatus : coerceStatus py (trimmed (field d "status")) =
      coerceStatus py (field d "status") ↔ _ :=
    coerce_trimmed_iff hpy EventStatus.readable (Option.some_injective _)
      (fun s => if_neg (by simp)) (htext "status" (by decide)).1
  have hseverity : coerceSeverity py (trimmed (field d "severity")) =
      coerceSeverity py (field d "severity") ↔ _ :=
    coerce_trimmed_iff hpy Severity.readable Function.injective_id
      (fun s => if_neg (by simp)) (htext "severity" (by decide)).1
  rw [ofPayload_modelDump h]
  constructor
  · rintro ⟨heq, hmetadata⟩
    exact
      { timestamp := clampSkew_eq_iff.mp (congrArg SecurityEvent.timestamp heq).symm
        eventId := (identity_modelDump_iff h hid).mp (congrArg SecurityEvent.eventId heq)
        sourceType := hsourceType.mp (congrArg SecurityEvent.sourceType heq)
        eventType := heventType.mp (congrArg SecurityEvent.eventType heq)
        status := hstatus.mp (congrArg SecurityEvent.status heq)
        severity := hseverity.mp (congrArg SecurityEvent.severity heq)
        metadata := hmetadata }
  · intro hread
    refine ⟨?_, hread.metadata⟩
    rw [(identity_modelDump_iff h hid).mpr hread.eventId,
      hsourceType.mpr hread.sourceType, heventType.mpr hread.eventType,
      hstatus.mpr hread.status, hseverity.mpr hread.severity,
      clampSkew_eq_iff.mpr hread.timestamp]
    rfl

/-- The two paths agree exactly on the payloads that they read alike. -/
theorem agree_iff (hpy : py.LowersBetween) (h : ofDict d = some e) (hid : ExplicitId d)
    (htimestamp : field d "timestamp" ≠ .null) :
    PathsAgree (fromRaw py r d) (fromRaw py r' e.modelDump) ↔
      ∀ t, readTimestamp py (field d "timestamp") = .ok t → ReadAlike py r r' d t := by
  have hfield : field e.modelDump "timestamp" = field d "timestamp" := by
    rw [field, any_of_ofDict h "timestamp" (by decide), Option.getD_some]
  unfold fromRaw
  rw [hfield, normalizeTs_eq_map py r.now htimestamp, normalizeTs_eq_map py r'.now htimestamp]
  cases readTimestamp py (field d "timestamp") with
  | error error => exact iff_of_true trivial fun t ht => by cases ht
  | ok t =>
    refine (sameEvent_iff hpy h hid).trans ⟨fun hread u hu => ?_, fun hall => hall t rfl⟩
    cases hu
    exact hread

theorem agree_padded_source : ∃ e : RawEvent,
    ofDict [("event_id", .str "evt-1"), ("timestamp", .int 0), ("source", .str " web-1 ")] =
      some e ∧
    PathsAgree
      (fromRaw Python.ascii ⟨0, 0, 0⟩
        [("event_id", .str "evt-1"), ("timestamp", .int 0), ("source", .str " web-1 ")])
      (fromRaw Python.ascii ⟨1, 1, 1⟩ e.modelDump) := by
  refine ⟨_, rfl, (agree_iff Python.lowersBetween_ascii rfl (by decide) (by decide)).mpr ?_⟩
  intro t ht
  have hzero : t = 0 := by
    cases ht
    decide +kernel
  rw [hzero]
  exact
    { timestamp := Or.inr (by decide)
      eventId := fun s hs => Or.inl (by cases hs; decide +kernel)
      sourceType := fun s hs => by cases hs
      eventType := fun s hs => by cases hs
      status := fun s hs => by cases hs
      severity := fun s hs => by cases hs
      metadata := fun key => rfl }

/-- An attack event with a space before its type keeps the type on the documented path only. -/
theorem not_agree_padded_type : ∃ e : RawEvent,
    ofDict [("event_id", .str "evt-1"), ("timestamp", .int 0), ("event_type", .str " db_query")] =
      some e ∧
    ¬ PathsAgree
      (fromRaw Python.ascii ⟨0, 0, 0⟩
        [("event_id", .str "evt-1"), ("timestamp", .int 0), ("event_type", .str " db_query")])
      (fromRaw Python.ascii ⟨0, 1, 1⟩ e.modelDump) := by
  refine ⟨_, rfl, fun hagree => ?_⟩
  have htype := congrArg SecurityEvent.eventType hagree.1
  exact absurd htype (by decide +kernel)

end RawEvent

end SiemEngine

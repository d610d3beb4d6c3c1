import SiemEngine.Python.IpText
import SiemEngine.Python.UuidText
import SiemEngine.Schemas.Event

/-!
# Normalizing a normalized event

Every validator but the clipping of texts returns a value of its own again: what
`model_dump` gives of an event, `from_raw` reads back. A clipped text comes back shorter
when the first cut left whitespace at its end.
-/

namespace SiemEngine

def Python.LowersAscii (py : Python) : Prop :=
  ∀ s : String, (∀ c ∈ s.toList, c.toNat < 128) → py.lower s = s.map Char.toLower

theorem Python.lowersAscii_ascii : Python.ascii.LowersAscii := fun _ _ => rfl

section

variable {limit : ℕ} [NeZero limit] {s : String} {v : Clipped limit}

theorem clip_eq_some_iff : clip limit s = some v ↔ Text.take limit (Text.strip s) = v.1 := by
  unfold clip
  split_ifs with h
  · refine iff_of_false (fun he => by cases he) fun he => v.2.1 ?_
    rw [← he, h, Text.take, String.toList_empty, List.take_nil, String.ofList_nil]
  · rw [Option.some.injEq, Subtype.ext_iff]

theorem clip_clip_iff (h : clip limit s = some v) :
    clip limit v.1 = some v ↔ ¬ Text.CutInSpace limit s := by
  have hlimit : 0 < limit := Nat.pos_of_ne_zero (NeZero.ne limit)
  have hlength : (Text.strip v.1).length ≤ limit := by
    refine le_trans ?_ v.2.2
    rw [← String.length_toList, ← String.length_toList, Text.strip, Text.toList_stripBy]
    exact (Text.length_rdropWhile_le _ _).trans (List.dropWhile_sublist _).length_le
  rw [clip_eq_some_iff] at h ⊢
  rw [Text.take_of_length_le hlength, ← h]
  exact Text.strip_take_strip_iff hlimit s

theorem not_cutInSpace_of_clip_eq_none (h : clip limit s = none) : ¬ Text.CutInSpace limit s := by
  rintro ⟨c, hc, -⟩
  unfold clip at h
  split_ifs at h with hempty
  rw [hempty] at hc
  cases hc

omit [NeZero limit] in
theorem not_cutInSpace_none : ¬ Text.CutInSpace limit "None" := by
  rintro ⟨c, hc, hspace⟩
  have hstrip : Text.strip "None" = "None" := by decide +kernel
  have hall : Text.Unspaced "None" := by decide
  rw [hstrip] at hc
  rw [hall c (List.mem_of_getElem? hc)] at hspace
  cases hspace

variable (py : Python)

def orNull {α : Type*} (f : α → Json) (value : Option α) : Json := (value.map f).getD .null

def ofText (t : Clipped limit) : Json := .str t.1

theorem clipValue_null : clipValue py limit .null = none := if_pos rfl

theorem clipValue_str (s : String) : clipValue py limit (.str s) = clip limit s :=
  if_neg (by simp)

theorem clipValue_ofText (t : Clipped limit) : clipValue py limit (ofText t) = clip limit t.1 :=
  clipValue_str py t.1

theorem clipValue_clipValue_iff (value : Json) :
    clipValue py limit (orNull ofText (clipValue py limit value)) = clipValue py limit value ↔
      ¬ Text.CutInSpace limit (value.pyStr py) := by
  by_cases hnull : value = .null
  · subst hnull
    rw [clipValue_null]
    exact iff_of_true (clipValue_null py) not_cutInSpace_none
  · have hvalue : clipValue py limit value = clip limit (value.pyStr py) := if_neg hnull
    rw [hvalue]
    cases hclip : clip limit (value.pyStr py) with
    | none => exact iff_of_true (clipValue_null py) (not_cutInSpace_of_clip_eq_none hclip)
    | some t =>
      have hread : clipValue py limit (orNull ofText (some t)) = clip limit t.1 :=
        clipValue_ofText py t
      rw [hread]
      exact clip_clip_iff hclip

theorem clip_unknownSource : clip maxStr unknownSource.1 = some unknownSource := by
  decide +kernel

theorem clipSource_clipSource_iff (value : Json) :
    clipSource py (ofText (clipSource py value)) = clipSource py value ↔
      ¬ Text.CutInSpace maxStr (value.pyStr py) := by
  rw [← clipValue_clipValue_iff py value]
  unfold clipSource
  rw [clipValue_ofText]
  cases clipValue py maxStr value with
  | none =>
    rw [Option.getD_none, clip_unknownSource]
    exact iff_of_true rfl rfl
  | some t =>
    have hagain : clipValue py maxStr (orNull ofText (some t)) = clip maxStr t.1 :=
      clipValue_ofText py t
    rw [Option.getD_some, hagain]
    cases hclip : clip maxStr t.1 with
    | some u => rw [Option.getD_some, Option.some.injEq]
    | none =>
      refine iff_of_false (fun h => ?_) (fun h => by cases h)
      rw [← h, Option.getD_none, clip_unknownSource] at hclip
      cases hclip

end

section

variable (py : Python)

theorem coerceIp_coerceIp (value : Json) :
    coerceIp py (orNull (fun a => .str a.text) (coerceIp py value)) = coerceIp py value := by
  cases hvalue : coerceIp py value with
  | none => rfl
  | some a =>
    unfold coerceIp at hvalue
    split_ifs at hvalue
    have hstrip := strip_text hvalue (Text.stripBy_stripBy _ _)
    obtain ⟨hempty, hdash⟩ := text_ne hvalue
    change coerceIp py (.str a.text) = some a
    rw [coerceIp, if_neg (by simp [hempty, hdash]), Json.pyStr, hstrip, ipAddress_text hvalue]

theorem validatePort_int (port : Option (Fin 65536)) :
    validatePort py (orNull (fun p => .int p.val) port) = port := by
  cases port with
  | none => rfl
  | some p =>
    change validatePort py (.int p.val) = some p
    rw [validatePort, if_neg (by simp), Json.pyInt]
    exact dif_pos p.isLt

theorem validateBytes_int (n : Fin (2 ^ 63)) : validateBytes py (.int n.val) = n := by
  rw [validateBytes, Json.pyInt]
  exact dif_pos n.isLt

theorem clampSkew_clampSkew (now t : Time) : clampSkew now (clampSkew now t) = clampSkew now t := by
  unfold clampSkew
  split_ifs <;> rfl

def readTimestamp (py : Python) (value : Json) : Except EventError Time :=
  let ofSeconds (seconds : ℚ) : Except EventError Time :=
    match py.fromtimestamp seconds with
    | none => .error .timestampOutOfRange
    | some t => .ok t
  match value with
  | .bool b => ofSeconds (if b then 1 else 0)
  | .int n => ofSeconds n
  | .float q => ofSeconds q
  | value =>
    match py.fromisoformat (Text.replaceChar 'Z' "+00:00" (Text.strip (value.pyStr py))) with
    | none => .error (.unparseableTimestamp ("unparseable timestamp: " ++ value.repr py))
    | some (t, none) => .ok t
    | some (t, some offset) =>
      if Datetime.minTime ≤ t - offset ∧ t - offset ≤ Datetime.maxTime then .ok (t - offset)
      else .error .timestampOutOfRange

theorem normalizeTs_eq_map (py : Python) (now : Time) {value : Json} (h : value ≠ .null) :
    normalizeTs py now value = (readTimestamp py value).map (clampSkew now) := by
  cases value
  case null => exact absurd rfl h
  case bool | int | float =>
    simp only [normalizeTs, readTimestamp, fromSeconds]
    cases py.fromtimestamp _ <;> rfl
  case str | arr | obj =>
    simp only [normalizeTs, readTimestamp]
    generalize py.fromisoformat _ = read
    rcases read with _ | ⟨t, _ | offset⟩
    · rfl
    · rfl
    · dsimp only
      split_ifs <;> rfl

theorem normalizeTs_eq_ok {py : Python} {now t : Time} {value : Json}
    (h : normalizeTs py now value = .ok t) : ∃ u, t = clampSkew now u := by
  by_cases hnull : value = .null
  · rw [hnull] at h
    cases h
    refine ⟨now, ?_⟩
    unfold clampSkew
    split_ifs <;> rfl
  · rw [normalizeTs_eq_map py now hnull] at h
    cases hread : readTimestamp py value with
    | error e => rw [hread] at h; cases h
    | ok u => rw [hread] at h; cases h; exact ⟨u, rfl⟩

end

def LowerAscii (s : String) : Prop := ∀ c ∈ s.toList, c.toNat < 128 ∧ c.toLower = c

instance : DecidablePred LowerAscii := fun _ => List.decidableBAll _ _

theorem lower_of_lowerAscii {py : Python} (hpy : py.LowersAscii) {s : String}
    (h : LowerAscii s) : py.lower s = s := by
  rw [hpy s fun c hc => (h c hc).1, ← String.toList_inj, String.toList_map,
    List.map_congr_left fun c hc => (h c hc).2, List.map_id']

/-- The members of an enumeration are found under their own values, which are lower-case and
without whitespace. -/
structure Readable {ε : Type*} (all : List ε) (value : ε → String) : Prop where
  lower : ∀ e, LowerAscii (value e)
  unspaced : ∀ e, Text.Unspaced (value e)
  ofValue : ∀ e, ofValue? all value (value e) = some e

theorem SourceType.readable : Readable all value :=
  ⟨fun e => by cases e <;> decide, fun e => by cases e <;> decide, fun e => by cases e <;> rfl⟩

theorem EventType.readable : Readable all value :=
  ⟨fun e => by cases e <;> decide, fun e => by cases e <;> decide, fun e => by cases e <;> rfl⟩

theorem EventStatus.readable : Readable all value :=
  ⟨fun e => by cases e <;> decide, fun e => by cases e <;> decide, fun e => by cases e <;> rfl⟩

theorem Severity.readable : Readable all value :=
  ⟨fun e => by cases e <;> decide, fun e => by cases e <;> decide, fun e => by cases e <;> rfl⟩

theorem Readable.ofValue_lower {ε : Type*} {all : List ε} {value : ε → String}
    (h : Readable all value) {py : Python} (hpy : py.LowersAscii) (e : ε) :
    ofValue? all value (py.lower ((Json.str (value e)).pyStr py)) = some e := by
  rw [Json.pyStr, lower_of_lowerAscii hpy (h.lower e), h.ofValue]

theorem Metadata.ext {m n : Metadata} (h : m.items = n.items) : m = n := by
  cases m
  cases n
  cases h
  rfl

theorem Metadata.ofItems_items (m : Metadata) : ofItems m.items = m := by
  refine Metadata.ext ?_
  have hentries : entries m.items = m.items := by
    rw [entries, List.take_of_length_le m.length_le]
    refine (List.map_congr_left fun kv hkv => ?_).trans (List.map_id _)
    rw [Text.take_of_length_le (m.key_length_le kv hkv), id]
  change Dict.update [] (entries m.items) = m.items
  rw [hentries]
  exact Dict.update_nil_of_nodup m.nodup_keys

/-- `model_dump()`: the identity and the times are objects, the enumerations strings. -/
structure Dump where
  eventId : UUID
  timestamp : Time
  ingestedAt : Time
  fields : JsonDict

namespace SecurityEvent

def modelDump (ev : SecurityEvent) : Dump where
  eventId := ev.eventId
  timestamp := ev.timestamp
  ingestedAt := ev.ingestedAt
  fields := [("source", ofText ev.source), ("source_type", .str ev.sourceType.value),
    ("event_type", .str ev.eventType.value),
    ("source_ip", orNull (fun a => .str a.text) ev.sourceIp),
    ("destination_ip", orNull (fun a => .str a.text) ev.destinationIp),
    ("destination_port", orNull (fun p => .int p.val) ev.destinationPort),
    ("username", orNull ofText ev.username), ("service", orNull ofText ev.service),
    ("action", orNull ofText ev.action), ("status", orNull (fun e => .str e.value) ev.status),
    ("severity", .str ev.severity.value), ("message", orNull ofText ev.message),
    ("bytes_out", .int ev.bytesOut.val), ("bytes_in", .int ev.bytesIn.val),
    ("metadata", .obj ev.metadata.items)]

/-- `from_raw` on a dump. A UUID object is never falsy, an aware timestamp is never rejected,
and all the keys are fields of the model. -/
def fromDump (py : Python) (r : Readings) (d : Dump) : SecurityEvent :=
  { ofPayload py r d.fields (clampSkew r.now d.timestamp) with
    eventId := (Uuid.ofString py (Uuid.str d.eventId)).getD (Uuid.uuid5 (Uuid.str d.eventId)) }

theorem mergedMetadata_modelDump (ev : SecurityEvent) :
    mergedMetadata ev.modelDump.fields = ev.metadata.items := by
  have hextra : ev.modelDump.fields.filter (fun kv => kv.1 ∉ modelFields) = [] := by
    simp [modelDump, modelFields]
  have hmetadata : field ev.modelDump.fields "metadata" = .obj ev.metadata.items := by
    simp [modelDump, field, Dict.get?_cons]
  unfold mergedMetadata
  rw [hextra, hmetadata]
  rfl

def clippedFields : List (String × ℕ) :=
  [("source", maxStr), ("username", maxStr), ("service", maxStr), ("action", maxStr),
    ("message", maxMsg)]

variable {py : Python} {r r' : Readings} {raw : JsonDict} {ev : SecurityEvent}

theorem ofPayload_modelDump (ev : SecurityEvent) (t : Time) :
    ofPayload py r ev.modelDump.fields t =
      { eventId := r.uuid4
        timestamp := t
        ingestedAt := r.ingestedAt
        source := clipSource py (ofText ev.source)
        sourceType := coerceSourceType py (.str ev.sourceType.value)
        eventType := coerceEventType py (.str ev.eventType.value)
        sourceIp := coerceIp py (orNull (fun a => .str a.text) ev.sourceIp)
        destinationIp := coerceIp py (orNull (fun a => .str a.text) ev.destinationIp)
        destinationPort := validatePort py (orNull (fun p => .int p.val) ev.destinationPort)
        username := clipValue py maxStr (orNull ofText ev.username)
        service := clipValue py maxStr (orNull ofText ev.service)
        action := clipValue py maxStr (orNull ofText ev.action)
        status := coerceStatus py (orNull (fun e => .str e.value) ev.status)
        severity := coerceSeverity py (.str ev.severity.value)
        message := clipValue py maxMsg (orNull ofText ev.message)
        bytesOut := validateBytes py (.int ev.bytesOut.val)
        bytesIn := validateBytes py (.int ev.bytesIn.val)
        metadata := Metadata.ofItems ev.metadata.items } := by
  unfold ofPayload
  rw [mergedMetadata_modelDump]
  simp [identity, field, modelDump, Dict.get?_cons, Json.truthy]

theorem timestamp_of_fromRaw (h : fromRaw py r raw = .ok ev) :
    clampSkew r.now ev.timestamp = ev.timestamp := by
  unfold fromRaw at h
  cases ht : normalizeTs py r.now (field raw "timestamp") with
  | error e =>
    rw [ht] at h
    cases h
  | ok t =>
    rw [ht] at h
    cases h
    obtain ⟨u, rfl⟩ := normalizeTs_eq_ok ht
    exact clampSkew_clampSkew r.now u

theorem fromDump_modelDump (hpy : py.LowersAscii) (hnow : r'.now = r.now)
    (h : fromRaw py r raw = .ok ev) : fromDump py r' ev.modelDump =
      { ev with
        ingestedAt := r'.ingestedAt
        source := clipSource py (ofText ev.source)
        username := clipValue py maxStr (orNull ofText ev.username)
        service := clipValue py maxStr (orNull ofText ev.service)
        action := clipValue py maxStr (orNull ofText ev.action)
        message := clipValue py maxMsg (orNull ofText ev.message) } := by
  have htime := timestamp_of_fromRaw h
  obtain ⟨t, hev⟩ := fromRaw_eq_ok h
  have hsourceIp : coerceIp py (orNull (fun a => .str a.text) ev.sourceIp) = ev.sourceIp := by
    rw [hev]
    exact coerceIp_coerceIp py (field raw "source_ip")
  have hdestinationIp : coerceIp py (orNull (fun a => .str a.text) ev.destinationIp) =
      ev.destinationIp := by
    rw [hev]
    exact coerceIp_coerceIp py (field raw "destination_ip")
  have hsourceType : coerceSourceType py (.str ev.sourceType.value) = ev.sourceType := by
    rw [coerceSourceType, SourceType.readable.ofValue_lower hpy, Option.getD_some]
  have heventType : coerceEventType py (.str ev.eventType.value) = ev.eventType := by
    rw [coerceEventType, EventType.readable.ofValue_lower hpy, Option.getD_some]
  have hstatus : coerceStatus py (orNull (fun e => .str e.value) ev.status) = ev.status := by
    cases ev.status with
    | none => rfl
    | some e =>
      have hread : coerceStatus py (.str e.value) = some e := by
        rw [coerceStatus, if_neg (by simp), EventStatus.readable.ofValue_lower hpy,
          Option.getD_some]
      exact hread
  have hseverity : coerceSeverity py (.str ev.severity.value) = ev.severity := by
    rw [coerceSeverity, if_neg (by simp), Severity.readable.ofValue_lower hpy, Option.getD_some]
  rw [fromDump, ofPayload_modelDump, hsourceIp, hdestinationIp, hsourceType, heventType, hstatus,
    hseverity, validatePort_int, validateBytes_int, validateBytes_int, Metadata.ofItems_items]
  simp only [modelDump, Uuid.ofString_str, Option.getD_some, hnow, htime]

/-- A normalized event normalizes to itself exactly when no text was cut in whitespace. -/
theorem fromDump_modelDump_eq_iff (hpy : py.LowersAscii) (hnow : r'.now = r.now)
    (h : fromRaw py r raw = .ok ev) :
    { fromDump py r' ev.modelDump with ingestedAt := ev.ingestedAt } = ev ↔
      ∀ kl ∈ clippedFields, ¬ Text.CutInSpace kl.2 ((field raw kl.1).pyStr py) := by
  obtain ⟨t, hev⟩ := fromRaw_eq_ok h
  have hfields : { fromDump py r' ev.modelDump with ingestedAt := ev.ingestedAt } = ev ↔
      clipSource py (ofText ev.source) = ev.source ∧
      clipValue py maxStr (orNull ofText ev.username) = ev.username ∧
      clipValue py maxStr (orNull ofText ev.service) = ev.service ∧
      clipValue py maxStr (orNull ofText ev.action) = ev.action ∧
      clipValue py maxMsg (orNull ofText ev.message) = ev.message := by
    rw [fromDump_modelDump hpy hnow h]
    constructor
    · intro heq
      have hsource := congrArg source heq
      have husername := congrArg username heq
      have hservice := congrArg service heq
      have haction := congrArg action heq
      have hmessage := congrArg message heq
      dsimp only at hsource husername hservice haction hmessage
      exact ⟨hsource, husername, hservice, haction, hmessage⟩
    · rintro ⟨hsource, husername, hservice, haction, hmessage⟩
      rw [hsource, husername, hservice, haction, hmessage]
  have hclip : ∀ {limit : ℕ} [NeZero limit] (key : String),
      clipValue py limit (orNull ofText (clipValue py limit (field raw key))) =
        clipValue py limit (field raw key) ↔
        ¬ Text.CutInSpace limit ((field raw key).pyStr py) :=
    fun key => clipValue_clipValue_iff py (field raw key)
  have hforall : (∀ kl ∈ clippedFields, ¬ Text.CutInSpace kl.2 ((field raw kl.1).pyStr py)) ↔
      ¬ Text.CutInSpace maxStr ((field raw "source").pyStr py) ∧
      ¬ Text.CutInSpace maxStr ((field raw "username").pyStr py) ∧
      ¬ Text.CutInSpace maxStr ((field raw "service").pyStr py) ∧
      ¬ Text.CutInSpace maxStr ((field raw "action").pyStr py) ∧
      ¬ Text.CutInSpace maxMsg ((field raw "message").pyStr py) := by
    simp only [clippedFields, List.forall_mem_cons, List.not_mem_nil, IsEmpty.forall_iff,
      implies_true, and_true]
  rw [hfields, hforall, hev]
  exact and_congr (clipSource_clipSource_iff py _) (and_congr (hclip "username")
    (and_congr (hclip "service") (and_congr (hclip "action") (hclip "message"))))

theorem fromDump_modelDump_eq_padded : ∃ ev : SecurityEvent,
    fromRaw Python.ascii ⟨0, 0, 0⟩ [("username", .str " alice ")] = .ok ev ∧
      { fromDump Python.ascii ⟨0, 1, 1⟩ ev.modelDump with ingestedAt := ev.ingestedAt } = ev := by
  have hread : fromRaw Python.ascii ⟨0, 0, 0⟩ [("username", .str " alice ")] =
      .ok (ofPayload Python.ascii ⟨0, 0, 0⟩ [("username", .str " alice ")] 0) := rfl
  have hnow : Readings.now ⟨0, 1, 1⟩ = Readings.now ⟨0, 0, 0⟩ := rfl
  refine ⟨_, hread, (fromDump_modelDump_eq_iff Python.lowersAscii_ascii hnow hread).mpr ?_⟩
  decide +kernel

theorem cutInSpace_append (n : ℕ) :
    Text.CutInSpace (n + 2) (String.ofList ('a' :: List.replicate n 'a' ++ [' ', 'b'])) := by
  have hstrip : Text.strip (String.ofList ('a' :: List.replicate n 'a' ++ [' ', 'b'])) =
      String.ofList ('a' :: List.replicate n 'a' ++ [' ', 'b']) := by
    refine Text.stripBy_eq_self_iff.mpr ?_
    rw [String.toList_ofList, List.getLast?_append_of_ne_nil _ (List.cons_ne_nil _ _)]
    constructor
    · intro c hc
      cases hc
      decide
    · intro c hc
      cases hc
      decide
  refine ⟨' ', ?_, by decide⟩
  rw [hstrip, String.toList_ofList, List.getElem?_append_right (by simp)]
  simp

theorem fromDump_modelDump_ne_of_cutInSpace {name : String} (h : Text.CutInSpace maxStr name) :
    ∃ ev : SecurityEvent, fromRaw Python.ascii ⟨0, 0, 0⟩ [("username", .str name)] = .ok ev ∧
      { fromDump Python.ascii ⟨0, 1, 1⟩ ev.modelDump with ingestedAt := ev.ingestedAt } ≠ ev := by
  have hread : fromRaw Python.ascii ⟨0, 0, 0⟩ [("username", .str name)] =
      .ok (ofPayload Python.ascii ⟨0, 0, 0⟩ [("username", .str name)] 0) := rfl
  have hnow : Readings.now ⟨0, 1, 1⟩ = Readings.now ⟨0, 0, 0⟩ := rfl
  refine ⟨_, hread, fun heq => ?_⟩
  have hname : field [("username", Json.str name)] "username" = .str name := by
    simp [field, Dict.get?_cons]
  have husername : (ofPayload Python.ascii ⟨0, 0, 0⟩ [("username", .str name)] 0).username =
      clipValue Python.ascii maxStr (.str name) := by
    rw [ofPayload, hname]
  rw [fromDump_modelDump Python.lowersAscii_ascii hnow hread] at heq
  have hagain := congrArg username heq
  dsimp only at hagain
  rw [husername] at hagain
  exact (clipValue_clipValue_iff Python.ascii (.str name)).mp hagain h

/-- A user name of 513 characters whose 512th is a space loses it on the second pass. -/
theorem fromDump_modelDump_ne : ∃ ev : SecurityEvent,
    fromRaw Python.ascii ⟨0, 0, 0⟩
      [("username", .str (String.ofList ('a' :: List.replicate 510 'a' ++ [' ', 'b'])))] =
        .ok ev ∧
      { fromDump Python.ascii ⟨0, 1, 1⟩ ev.modelDump with ingestedAt := ev.ingestedAt } ≠ ev :=
  fromDump_modelDump_ne_of_cutInSpace (cutInSpace_append 510)

end SecurityEvent

end SiemEngine

import SiemEngine.Models.Event
import SiemEngine.Schemas.Event

/-!
# Storing accepted events

`rowFromEvent` maps a normalized event to its row. The validators clip texts at 512
characters, the columns are narrower, and neither clips a scope id or removes U+0000, so
whether an accepted event fits is a condition on its payload, `Storable`.
-/

namespace SiemEngine

open Column

def rowFromEvent (ev : SecurityEvent) : SecurityEventRow where
  eventId := ev.eventId
  timestamp := ev.timestamp
  ingestedAt := ev.ingestedAt
  source := ev.source
  sourceType := ev.sourceType.value
  eventType := ev.eventType.value
  sourceIp := ev.sourceIp.map IpAddress.text
  destinationIp := ev.destinationIp.map IpAddress.text
  destinationPort := ev.destinationPort.map fun port : Fin 65536 => (port.val : ℤ)
  username := ev.username.map Subtype.val
  service := ev.service.map Subtype.val
  action := ev.action.map Subtype.val
  status := ev.status.map EventStatus.value
  severity := ev.severity.value
  message := ev.message.map Subtype.val
  bytesOut := ev.bytesOut
  bytesIn := ev.bytesIn
  eventMetadata := ev.metadata.items

def TextFits (py : Python) (width : ℕ) (value : Json) : Prop :=
  value ≠ .null → Varchar width (Text.strip (value.pyStr py))

def ScopeFits (a : IpAddress) : Prop :=
  ∀ len scope, a.scoped? = some (len, scope) → len + 1 + scope.length ≤ 45 ∧ '\x00' ∉ scope

/-- What a payload needs beyond being accepted. -/
structure Storable (py : Python) (raw : JsonDict) : Prop where
  source : TextFits py 255 (field raw "source")
  username : TextFits py 255 (field raw "username")
  service : TextFits py 128 (field raw "service")
  action : TextFits py 255 (field raw "action")
  message : field raw "message" ≠ .null →
    NulFree (Text.take maxMsg (Text.strip ((field raw "message").pyStr py)))
  sourceIp : ∀ a, coerceIp py (field raw "source_ip") = some a → ScopeFits a
  destinationIp : ∀ a, coerceIp py (field raw "destination_ip") = some a → ScopeFits a
  /-- of the first fifty entries, for every truncated key the last one -/
  metadata : ∀ key value,
    Dict.get? (Metadata.entries (SecurityEvent.mergedMetadata raw)).reverse key = some value →
      NulFree key ∧ Jsonb value

theorem varchar_take_iff {width limit : ℕ} (h : width < limit) (s : String) :
    Varchar width (Text.take limit s) ↔ Varchar width s := by
  have hlen : (Text.take limit s).length ≤ width ↔ s.length ≤ width := by
    rw [Text.length_take]
    omega
  rw [Varchar, Varchar, hlen, and_congr_right_iff]
  intro hs
  rw [Text.take_of_length_le (hs.trans h.le)]

theorem nullable_clipValue_iff (py : Python) {limit : ℕ} [NeZero limit] (value : Json)
    (p : String → Prop) (hempty : p "") :
    Nullable p ((clipValue py limit value).map Subtype.val) ↔
      (value ≠ .null → p (Text.take limit (Text.strip (value.pyStr py)))) := by
  unfold clipValue clip
  split_ifs with hnull hblank
  · simp [Nullable, hnull]
  · have htake : Text.take limit "" = "" := Text.take_of_length_le (Nat.zero_le limit)
    simp [Nullable, hnull, hblank, htake, hempty]
  · simp [Nullable, hnull]

theorem username_fits_iff (py : Python) {width : ℕ} (h : width < maxStr) (value : Json) :
    Nullable (Varchar width) ((clipValue py maxStr value).map Subtype.val) ↔
      TextFits py width value := by
  rw [nullable_clipValue_iff py value _ ⟨Nat.zero_le width, by decide⟩]
  simp only [varchar_take_iff h, TextFits]

theorem source_fits_iff (py : Python) (value : Json) :
    Varchar 255 (clipSource py value).val ↔ TextFits py 255 value := by
  rw [← username_fits_iff py (by decide) value, clipSource]
  cases clipValue py maxStr value with
  | none => simpa [Nullable] using (by decide : Varchar 255 unknownSource.val)
  | some s => simp [Nullable]

theorem text_fits_iff (a : IpAddress) : Varchar 45 a.text ↔ ScopeFits a := by
  have htext : a.text.toList = a.str := by simp [IpAddress.text]
  have hlen : a.text.length = a.str.length := by rw [← String.length_toList, htext]
  rw [Varchar, NulFree, htext, hlen]
  cases a with
  | v4 a =>
    refine iff_of_true ⟨a.length_str_le.trans (by decide), a.nul_notMem_str⟩ ?_
    intro len scope h
    cases h
  | v6 a =>
    have hbound := a.length_compressed_le
    have hnul := a.nul_notMem_compressed
    cases hscope : a.scopeId with
    | none =>
      simp [ScopeFits, IpAddress.str, IpAddress.scoped?, IPv6Address.str, hscope, hbound, hnul]
    | some scope =>
      simp [ScopeFits, IpAddress.str, IpAddress.scoped?, IPv6Address.str, hscope, hnul,
        Nat.add_assoc, Nat.add_comm 1]

theorem ip_fits_iff (x : Option IpAddress) :
    Nullable (Varchar 45) (x.map IpAddress.text) ↔ ∀ a, x = some a → ScopeFits a := by
  cases x with
  | none => simp [Nullable]
  | some a => simp [Nullable, text_fits_iff]

theorem metadata_fits_iff (items : JsonDict) :
    JsonbDict (Metadata.ofItems items).items ↔ ∀ key value,
      Dict.get? (Metadata.entries items).reverse key = some value → NulFree key ∧ Jsonb value := by
  rw [jsonbDict_iff]
  constructor
  · intro h key value hget
    exact h (key, value) ((Dict.mem_update_nil_iff _ _ _).mpr hget)
  · intro h entry hmem
    obtain ⟨key, value⟩ := entry
    exact h key value ((Dict.mem_update_nil_iff _ _ _).mp hmem)

theorem varchar_sourceType (t : SourceType) : Varchar 64 t.value := by
  cases t <;> decide +kernel

theorem varchar_eventType (t : EventType) : Varchar 64 t.value := by
  cases t <;> decide +kernel

theorem varchar_status (t : EventStatus) : Varchar 32 t.value := by
  cases t <;> decide +kernel

theorem varchar_severity (t : Severity) : Varchar 16 t.value := by
  cases t <;> decide +kernel

theorem integerBits_bytes (n : Fin (2 ^ 63)) : IntegerBits 64 (n : ℤ) := by
  have hn := n.isLt
  simp only [IntegerBits]
  omega

theorem integerBits_port (n : Fin 65536) : IntegerBits 32 (n : ℤ) := by
  have hn := n.isLt
  simp only [IntegerBits]
  omega

section

variable {py : Python} {r : Readings} {raw : JsonDict} {t : Time}

theorem message_fits_iff :
    Nullable NulFree (rowFromEvent (SecurityEvent.ofPayload py r raw t)).message ↔
      (field raw "message" ≠ .null →
        NulFree (Text.take maxMsg (Text.strip ((field raw "message").pyStr py)))) :=
  nullable_clipValue_iff py (field raw "message") NulFree (by decide)

theorem storable_of_fits (h : (rowFromEvent (SecurityEvent.ofPayload py r raw t)).Fits) :
    Storable py raw where
  source := (source_fits_iff py _).mp h.source
  username := (username_fits_iff py (by decide) _).mp h.username
  service := (username_fits_iff py (by decide) _).mp h.service
  action := (username_fits_iff py (by decide) _).mp h.action
  message := message_fits_iff.mp h.message
  sourceIp := (ip_fits_iff _).mp h.sourceIp
  destinationIp := (ip_fits_iff _).mp h.destinationIp
  metadata := (metadata_fits_iff _).mp h.eventMetadata

theorem fits_of_storable (h : Storable py raw) :
    (rowFromEvent (SecurityEvent.ofPayload py r raw t)).Fits where
  source := (source_fits_iff py _).mpr h.source
  sourceType := varchar_sourceType _
  eventType := varchar_eventType _
  sourceIp := (ip_fits_iff _).mpr h.sourceIp
  destinationIp := (ip_fits_iff _).mpr h.destinationIp
  destinationPort := by
    intro n hn
    obtain ⟨port, -, hport⟩ := Option.map_eq_some_iff.mp hn
    rw [← hport]
    exact integerBits_port port
  username := (username_fits_iff py (by decide) _).mpr h.username
  service := (username_fits_iff py (by decide) _).mpr h.service
  action := (username_fits_iff py (by decide) _).mpr h.action
  status := by
    intro s hs
    obtain ⟨status, -, hstatus⟩ := Option.map_eq_some_iff.mp hs
    rw [← hstatus]
    exact varchar_status status
  severity := varchar_severity _
  message := message_fits_iff.mpr h.message
  bytesOut := integerBits_bytes _
  bytesIn := integerBits_bytes _
  eventMetadata := (metadata_fits_iff _).mpr h.metadata

end

/-- An accepted event fits the table exactly when its payload is `Storable`. -/
theorem accepted_fits_iff (py : Python) (r : Readings) (raw : JsonDict) (ev : SecurityEvent)
    (h : SecurityEvent.fromRaw py r raw = .ok ev) :
    (rowFromEvent ev).Fits ↔ Storable py raw := by
  obtain ⟨t, rfl⟩ := SecurityEvent.fromRaw_eq_ok h
  exact ⟨storable_of_fits, fits_of_storable⟩

def someReadings : Readings := ⟨0, 0, ⟨1, by decide⟩⟩

def loginOf (username : String) : JsonDict :=
  [("event_type", .str "authentication_failure"), ("username", .str username),
    ("source_ip", .str "2001:db8:0:0:1:0:0:1")]

theorem field_loginOf (username : String) :
    field (loginOf username) "username" = .str username := by
  simp [loginOf, field, Dict.get?_cons]

theorem accepted_fits_iff_alice : ∃ ev,
    SecurityEvent.fromRaw Python.ascii someReadings (loginOf "alice") = .ok ev ∧
      ((rowFromEvent ev).Fits ↔ Storable Python.ascii (loginOf "alice")) :=
  ⟨_, rfl, accepted_fits_iff Python.ascii someReadings (loginOf "alice") _ rfl⟩

/-- A user name of 256 characters is accepted and does not fit its column. -/
theorem long_username_accepted :
    let name := String.ofList (List.replicate 256 'a')
    ∃ ev, SecurityEvent.fromRaw Python.ascii someReadings (loginOf name) = .ok ev ∧
      ¬ (rowFromEvent ev).Fits := by
  intro name
  refine ⟨SecurityEvent.ofPayload Python.ascii someReadings (loginOf name) 0, rfl, fun hfits => ?_⟩
  have hname := (storable_of_fits hfits).username
  rw [field_loginOf] at hname
  have hlen := (hname nofun).1
  rw [Json.pyStr, Text.strip_replicate 256 (by decide), String.length_ofList,
    List.length_replicate] at hlen
  exact absurd hlen (by decide)

end SiemEngine

import Mathlib.Data.List.Nodup
import SiemEngine.Python.IpAddress
import SiemEngine.Python.Uuid
import SiemEngine.Schemas.Enums

/-!
# Security event schemas

`SecurityEvent` is the normalized event. What its validators guarantee of a field is part
of the field's type, so an event that violates it cannot be built. `fromRaw` is
`SecurityEvent.from_raw` on a decoded JSON object; the clock readings and the random UUID
of one call are its `Readings`.
-/

namespace SiemEngine

abbrev maxStr : ℕ := 512
abbrev maxMsg : ℕ := 2048
def maxMetadataItems : ℕ := 50
def maxMetadataKey : ℕ := 128

abbrev Clipped (limit : ℕ) := { s : String // s ≠ "" ∧ s.length ≤ limit }

def clip (limit : ℕ) [NeZero limit] (value : String) : Option (Clipped limit) :=
  if h : Text.strip value = "" then none
  else some ⟨Text.take limit (Text.strip value),
    Text.take_ne_empty (Nat.pos_of_ne_zero (NeZero.ne limit)) h,
    (Text.length_take _ _).trans_le (Nat.min_le_left _ _)⟩

structure Metadata where
  items : JsonDict
  length_le : items.length ≤ maxMetadataItems
  key_length_le : ∀ kv ∈ items, kv.1.length ≤ maxMetadataKey
  nodup_keys : (items.map Prod.fst).Nodup

namespace Metadata

def get? (m : Metadata) (key : String) : Option Json := Dict.get? m.items key

def entries (items : JsonDict) : JsonDict :=
  (items.take maxMetadataItems).map fun kv => (Text.take maxMetadataKey kv.1, kv.2)

theorem length_entries_le (items : JsonDict) : (entries items).length ≤ maxMetadataItems := by
  simp [entries]

def ofItems (items : JsonDict) : Metadata where
  items := Dict.update [] (entries items)
  length_le := by
    refine (Dict.length_update_le [] _).trans ?_
    simpa using length_entries_le items
  key_length_le kv hkv := by
    have hmem : kv ∈ entries items := (Dict.mem_update hkv).resolve_left List.not_mem_nil
    obtain ⟨lw, -, rfl⟩ := List.mem_map.mp hmem
    rw [Text.length_take]
    exact min_le_left _ _
  nodup_keys := Dict.nodup_keys_update (d := []) List.nodup_nil _

end Metadata

structure SecurityEvent where
  eventId : UUID
  timestamp : Time
  ingestedAt : Time
  source : Clipped maxStr
  sourceType : SourceType
  eventType : EventType
  sourceIp : Option IpAddress
  destinationIp : Option IpAddress
  destinationPort : Option (Fin 65536)
  username : Option (Clipped maxStr)
  service : Option (Clipped maxStr)
  action : Option (Clipped maxStr)
  status : Option EventStatus
  severity : Severity
  message : Option (Clipped maxMsg)
  bytesOut : Fin (2 ^ 63)
  bytesIn : Fin (2 ^ 63)
  metadata : Metadata

/-- What one call of `from_raw` reads from its environment. -/
structure Readings where
  now : Time
  ingestedAt : Time
  uuid4 : UUID

inductive EventError
  | unparseableTimestamp (message : String)
  | timestampOutOfRange
  deriving DecidableEq

def oneDay : Time := 86400 * Datetime.microsPerSecond

def field (raw : JsonDict) (key : String) : Json := (Dict.get? raw key).getD .null

section

variable (py : Python)

def coerceIp (value : Json) : Option IpAddress :=
  if value ∈ [.null, .str "", .str "-"] then none
  else ipAddress (Text.strip (value.pyStr py))

def clampSkew (now t : Time) : Time := if oneDay < t - now then now else t

def fromSeconds (now : Time) (seconds : ℚ) : Except EventError Time :=
  match py.fromtimestamp seconds with
  | none => .error .timestampOutOfRange
  | some t => .ok (clampSkew now t)

def normalizeTs (now : Time) (value : Json) : Except EventError Time :=
  match value with
  | .null => .ok now
  | .bool b => fromSeconds py now (if b then 1 else 0)
  | .int n => fromSeconds py now n
  | .float q => fromSeconds py now q
  | value =>
    match py.fromisoformat (Text.replaceChar 'Z' "+00:00" (Text.strip (value.pyStr py))) with
    | none => .error (.unparseableTimestamp ("unparseable timestamp: " ++ value.repr py))
    | some (t, none) => .ok (clampSkew now t)
    | some (t, some offset) =>
      if Datetime.minTime ≤ t - offset ∧ t - offset ≤ Datetime.maxTime then
        .ok (clampSkew now (t - offset))
      else .error .timestampOutOfRange

def validatePort (value : Json) : Option (Fin 65536) :=
  if value ∈ [.null, .str "", .str "-"] then none
  else match value.pyInt py with
    | some (.ofNat port) => if h : port < 65536 then some ⟨port, h⟩ else none
    | _ => none

def validateBytes (value : Json) : Fin (2 ^ 63) :=
  match value.pyInt py with
  | some (.ofNat n) => if h : n < 2 ^ 63 then ⟨n, h⟩ else Fin.last (2 ^ 63 - 1)
  | _ => 0

def clipValue (limit : ℕ) [NeZero limit] (value : Json) : Option (Clipped limit) :=
  if value = .null then none else clip limit (value.pyStr py)

def unknownSource : Clipped maxStr := ⟨"unknown", by decide, by decide⟩

def clipSource (value : Json) : Clipped maxStr := (clipValue py maxStr value).getD unknownSource

def coerceSourceType (value : Json) : SourceType :=
  (ofValue? SourceType.all SourceType.value (py.lower (value.pyStr py))).getD .unknown

def coerceEventType (value : Json) : EventType :=
  (ofValue? EventType.all EventType.value (py.lower (value.pyStr py))).getD .unknown

def coerceStatus (value : Json) : Option EventStatus :=
  if value = .null then none
  else (ofValue? EventStatus.all EventStatus.value (py.lower (value.pyStr py))).getD .info

def coerceSeverity (value : Json) : Severity :=
  if value = .null then .info
  else (ofValue? Severity.all Severity.value (py.lower (value.pyStr py))).getD .info

end

namespace SecurityEvent

def modelFields : List String :=
  ["event_id", "timestamp", "ingested_at", "source", "source_type", "event_type", "source_ip",
    "destination_ip", "destination_port", "username", "service", "action", "status", "severity",
    "message", "bytes_out", "bytes_in", "metadata"]

/-- The metadata of the payload, with its unknown fields added. -/
def mergedMetadata (raw : JsonDict) : JsonDict :=
  let extra := raw.filter fun kv => kv.1 ∉ modelFields
  let given := match field raw "metadata" with
    | .obj items => items
    | _ => []
  extra.foldl (fun acc kv => Dict.setDefault acc kv.1 kv.2) given

/-- The identity of a payload: its id as a UUID, the name-based UUID of other ids, a random
one when the id is missing or falsy. -/
def identity (py : Python) (uuid4 : UUID) (raw : JsonDict) : UUID :=
  let eid := field raw "event_id"
  if eid.truthy then (Uuid.ofString py (eid.pyStr py)).getD (Uuid.uuid5 (eid.pyStr py)) else uuid4

def ofPayload (py : Python) (r : Readings) (raw : JsonDict) (timestamp : Time) :
    SecurityEvent where
  eventId := identity py r.uuid4 raw
  timestamp := timestamp
  ingestedAt := r.ingestedAt
  source := clipSource py (field raw "source")
  sourceType := coerceSourceType py (field raw "source_type")
  eventType := coerceEventType py (field raw "event_type")
  sourceIp := coerceIp py (field raw "source_ip")
  destinationIp := coerceIp py (field raw "destination_ip")
  destinationPort := validatePort py (field raw "destination_port")
  username := clipValue py maxStr (field raw "username")
  service := clipValue py maxStr (field raw "service")
  action := clipValue py maxStr (field raw "action")
  status := coerceStatus py (field raw "status")
  severity := coerceSeverity py (field raw "severity")
  message := clipValue py maxMsg (field raw "message")
  bytesOut := validateBytes py ((Dict.get? raw "bytes_out").getD (.int 0))
  bytesIn := validateBytes py ((Dict.get? raw "bytes_in").getD (.int 0))
  metadata := Metadata.ofItems (mergedMetadata raw)

def fromRaw (py : Python) (r : Readings) (raw : JsonDict) : Except EventError SecurityEvent :=
  (normalizeTs py r.now (field raw "timestamp")).map (ofPayload py r raw)

theorem fromRaw_eq_ok {py : Python} {r : Readings} {raw : JsonDict} {ev : SecurityEvent}
    (h : fromRaw py r raw = .ok ev) : ∃ timestamp, ev = ofPayload py r raw timestamp := by
  unfold fromRaw at h
  cases ht : normalizeTs py r.now (field raw "timestamp") with
  | error e => rw [ht] at h; cases h
  | ok t => rw [ht] at h; cases h; exact ⟨t, rfl⟩

def ExplicitId (raw : JsonDict) : Prop := (field raw "event_id").truthy

instance : DecidablePred ExplicitId := fun _ => inferInstanceAs (Decidable (_ = true))

theorem identity_of_explicitId {raw : JsonDict} (h : ExplicitId raw) (py : Python)
    (u v : UUID) : identity py u raw = identity py v raw := by
  simp only [identity, if_pos (show (field raw "event_id").truthy = true from h)]

theorem normalizeTs_isOk (py : Python) (now now' : Time) (value : Json) :
    (normalizeTs py now value).isOk = (normalizeTs py now' value).isOk := by
  cases value with
  | null => rfl
  | bool b => simp only [normalizeTs, fromSeconds]; split <;> rfl
  | int n => simp only [normalizeTs, fromSeconds]; split <;> rfl
  | float q => simp only [normalizeTs, fromSeconds]; split <;> rfl
  | str s => simp only [normalizeTs]; split <;> first | rfl | (split_ifs <;> rfl)
  | arr xs => simp only [normalizeTs]; split <;> first | rfl | (split_ifs <;> rfl)
  | obj kvs => simp only [normalizeTs]; split <;> first | rfl | (split_ifs <;> rfl)

theorem fromRaw_isOk {py : Python} {r : Readings} {raw : JsonDict} {ev : SecurityEvent}
    (h : fromRaw py r raw = .ok ev) (r' : Readings) :
    ∃ timestamp, fromRaw py r' raw = .ok (ofPayload py r' raw timestamp) := by
  have hok := normalizeTs_isOk py r.now r'.now (field raw "timestamp")
  unfold fromRaw at h ⊢
  cases ht : normalizeTs py r.now (field raw "timestamp") with
  | error e => rw [ht] at h; cases h
  | ok t =>
    cases ht' : normalizeTs py r'.now (field raw "timestamp") with
    | error e => rw [ht, ht'] at hok; cases hok
    | ok t' => exact ⟨t', rfl⟩

end SecurityEvent

end SiemEngine

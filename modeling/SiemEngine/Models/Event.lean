import SiemEngine.Python.Uuid
import SiemEngine.Storage.Columns

/-!
# The security_events table

`SecurityEventRow.Fits` is the schema: a row that does not fit makes the statement that
inserts it fail. The table is keyed by `event_id`; a table with two rows of one id cannot
be built.
-/

namespace SiemEngine

structure SecurityEventRow where
  eventId : UUID
  timestamp : Time
  ingestedAt : Time
  source : String
  sourceType : String
  eventType : String
  sourceIp : Option String
  destinationIp : Option String
  destinationPort : Option ℤ
  username : Option String
  service : Option String
  action : Option String
  status : Option String
  severity : String
  message : Option String
  bytesOut : ℤ
  bytesIn : ℤ
  eventMetadata : JsonDict
  deriving DecidableEq

open Column in
structure SecurityEventRow.Fits (row : SecurityEventRow) : Prop where
  source : Varchar 255 row.source
  sourceType : Varchar 64 row.sourceType
  eventType : Varchar 64 row.eventType
  sourceIp : Nullable (Varchar 45) row.sourceIp
  destinationIp : Nullable (Varchar 45) row.destinationIp
  destinationPort : Nullable (IntegerBits 32) row.destinationPort
  username : Nullable (Varchar 255) row.username
  service : Nullable (Varchar 128) row.service
  action : Nullable (Varchar 255) row.action
  status : Nullable (Varchar 32) row.status
  severity : Varchar 16 row.severity
  message : Nullable NulFree row.message
  bytesOut : IntegerBits 64 row.bytesOut
  bytesIn : IntegerBits 64 row.bytesIn
  eventMetadata : JsonbDict row.eventMetadata

namespace SecurityEventRow

open Column in
theorem fits_iff (row : SecurityEventRow) : row.Fits ↔
    Varchar 255 row.source ∧ Varchar 64 row.sourceType ∧ Varchar 64 row.eventType ∧
    Nullable (Varchar 45) row.sourceIp ∧ Nullable (Varchar 45) row.destinationIp ∧
    Nullable (IntegerBits 32) row.destinationPort ∧ Nullable (Varchar 255) row.username ∧
    Nullable (Varchar 128) row.service ∧ Nullable (Varchar 255) row.action ∧
    Nullable (Varchar 32) row.status ∧ Varchar 16 row.severity ∧ Nullable NulFree row.message ∧
    IntegerBits 64 row.bytesOut ∧ IntegerBits 64 row.bytesIn ∧ JsonbDict row.eventMetadata := by
  constructor
  · intro h
    obtain ⟨h₁, h₂, h₃, h₄, h₅, h₆, h₇, h₈, h₉, h₁₀, h₁₁, h₁₂, h₁₃, h₁₄, h₁₅⟩ := h
    exact ⟨h₁, h₂, h₃, h₄, h₅, h₆, h₇, h₈, h₉, h₁₀, h₁₁, h₁₂, h₁₃, h₁₄, h₁₅⟩
  · intro h
    obtain ⟨h₁, h₂, h₃, h₄, h₅, h₆, h₇, h₈, h₉, h₁₀, h₁₁, h₁₂, h₁₃, h₁₄, h₁₅⟩ := h
    exact ⟨h₁, h₂, h₃, h₄, h₅, h₆, h₇, h₈, h₉, h₁₀, h₁₁, h₁₂, h₁₃, h₁₄, h₁₅⟩

instance : DecidablePred Fits := fun row => decidable_of_iff _ row.fits_iff.symm

end SecurityEventRow

structure SecurityEvents where
  rows : List SecurityEventRow
  primaryKey : (rows.map SecurityEventRow.eventId).Nodup

namespace SecurityEvents

def empty : SecurityEvents := ⟨[], List.nodup_nil⟩

def ids (t : SecurityEvents) : List UUID := t.rows.map SecurityEventRow.eventId

/-- `INSERT … ON CONFLICT (event_id) DO NOTHING` of one row. -/
def insert (t : SecurityEvents) (row : SecurityEventRow) : SecurityEvents :=
  if h : row.eventId ∈ t.rows.map SecurityEventRow.eventId then t
  else ⟨t.rows ++ [row], by
    rw [List.map_append, List.map_singleton, ← List.concat_eq_append]
    exact List.Nodup.concat h t.primaryKey⟩

def insertAll (t : SecurityEvents) (rows : List SecurityEventRow) : SecurityEvents :=
  rows.foldl insert t

theorem mem_ids_insert (t : SecurityEvents) (row : SecurityEventRow) (id : UUID) :
    id ∈ (t.insert row).ids ↔ id ∈ t.ids ∨ id = row.eventId := by
  unfold insert
  split_ifs with h
  · exact ⟨Or.inl, fun hid => hid.elim (fun h => h) (fun he => he ▸ h)⟩
  · simp [ids]

theorem mem_ids_insertAll (t : SecurityEvents) (rows : List SecurityEventRow) (id : UUID) :
    id ∈ (t.insertAll rows).ids ↔ id ∈ t.ids ∨ id ∈ rows.map SecurityEventRow.eventId := by
  induction rows generalizing t with
  | nil => simp [insertAll]
  | cons row rows ih =>
    change id ∈ ((t.insert row).insertAll rows).ids ↔ _
    rw [ih, mem_ids_insert, List.map_cons, List.mem_cons, or_assoc]

theorem insert_of_mem {t : SecurityEvents} {row : SecurityEventRow} (h : row.eventId ∈ t.ids) :
    t.insert row = t :=
  dif_pos h

theorem insertAll_eq_self_iff (t : SecurityEvents) (rows : List SecurityEventRow) :
    t.insertAll rows = t ↔ ∀ row ∈ rows, row.eventId ∈ t.ids := by
  constructor
  · intro h row hrow
    have hmem := (mem_ids_insertAll t rows row.eventId).mpr (Or.inr (List.mem_map_of_mem hrow))
    rwa [h] at hmem
  · intro h
    induction rows with
    | nil => rfl
    | cons row rows ih =>
      change (t.insert row).insertAll rows = t
      rw [insert_of_mem (h row List.mem_cons_self)]
      exact ih fun r hr => h r (List.mem_cons_of_mem row hr)

end SecurityEvents

end SiemEngine

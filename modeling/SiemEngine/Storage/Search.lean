import SiemEngine.Lib.Like
import SiemEngine.Lib.Pages
import SiemEngine.Models.Alert
import SiemEngine.Models.Event

/-!
# Searching events and alerts

Both repositories filter their table, count what matches and return one page of it, sorted by
a time. `fold` is what PostgreSQL compares characters by when it ignores their case, and a
`Pages.Ordered` is the order in which one query returned its rows.
-/

namespace SiemEngine

def maxLimit : ℤ := 200

def paginate {ρ : Type*} (rows : List ρ) (limit offset : ℤ) : List ρ :=
  let limit := max 1 (min limit maxLimit)
  let offset := max 0 offset
  (rows.drop offset.toNat).take limit.toNat

/-- The page and the total that both `search` methods return. -/
def searchPage {ρ : Type*} {key : ρ → Time} {rows : List ρ} (result : Pages.Ordered key rows)
    (limit offset : ℤ) : List ρ × ℕ :=
  (paginate result.list limit offset, rows.length)

def given (value : Option String) : Option String := value.filter (· ≠ "")

def likeWildcards : Like.Wildcards Char := ⟨'%', '_', '\\'⟩

def ilike (fold : Char → Char) (text pattern : String) : Bool :=
  Like.like likeWildcards fold pattern.toList text.toList

structure EventFilters where
  eventType : Option String := none
  sourceIp : Option String := none
  severity : Option String := none
  source : Option String := none
  username : Option String := none
  start : Option Time := none
  end_ : Option Time := none
  q : Option String := none

namespace EventRepository

def passes (fold : Char → Char) (f : EventFilters) (row : SecurityEventRow) : Bool :=
  (given f.eventType).all (row.eventType = ·) &&
  (given f.sourceIp).all (row.sourceIp = some ·) &&
  (given f.severity).all (row.severity = ·) &&
  (given f.source).all (row.source = ·) &&
  (given f.username).all (row.username = some ·) &&
  f.start.all (· ≤ row.timestamp) &&
  f.end_.all (row.timestamp ≤ ·) &&
  (given f.q).all fun q => row.message.any fun message => ilike fold message ("%" ++ q ++ "%")

def filtered (fold : Char → Char) (t : SecurityEvents) (f : EventFilters) :
    List SecurityEventRow :=
  t.rows.filter (passes fold f)

def search {fold : Char → Char} {t : SecurityEvents} {f : EventFilters}
    (result : Pages.Ordered SecurityEventRow.timestamp (filtered fold t f)) (limit offset : ℤ) :
    List SecurityEventRow × ℕ :=
  searchPage result limit offset

end EventRepository

structure AlertFilters where
  status : Option String := none
  activeOnly : Bool := false
  severity : Option String := none
  ruleId : Option String := none
  sourceIp : Option String := none

namespace AlertRepository

def activeStatuses : List AlertStatus := [.open, .acknowledged, .investigating]

def passes (f : AlertFilters) (a : Alert) : Bool :=
  (match given f.status with
    | some status => a.status.value = status
    | none => !f.activeOnly || a.status ∈ activeStatuses) &&
  (given f.severity).all (a.severity.value = ·) &&
  (given f.ruleId).all (a.ruleId = ·) &&
  (given f.sourceIp).all (a.sourceIp = some ·)

def filtered (t : Alerts) (f : AlertFilters) : List Alert := t.rows.filter (passes f)

def search {t : Alerts} {f : AlertFilters}
    (result : Pages.Ordered Alert.lastSeen (filtered t f)) (limit offset : ℤ) :
    List Alert × ℕ :=
  searchPage result limit offset

end AlertRepository

theorem searchPage_eq_page {ρ : Type*} {key : ρ → Time} {rows : List ρ} {limit : ℕ}
    (hpos : 1 ≤ limit) (hle : limit ≤ 200) (result : Pages.Ordered key rows) (k : ℕ) :
    (searchPage result limit (k * limit : ℕ)).1 = Pages.page limit k result.list := by
  have hlimit : (max 1 (min (limit : ℤ) maxLimit)).toNat = limit := by
    unfold maxLimit
    omega
  have hoffset : (max 0 ((k * limit : ℕ) : ℤ)).toNat = k * limit := by
    rw [max_eq_right (Int.natCast_nonneg _), Int.toNat_natCast]
  unfold searchPage paginate
  dsimp only
  rw [hlimit, hoffset, Pages.page]

/-- The pages of a search at the offsets from zero up to the total, the query of each page
with a result of its own. -/
def eventPages {fold : Char → Char} {t : SecurityEvents} {f : EventFilters} (limit : ℕ)
    (results : ℕ → Pages.Ordered SecurityEventRow.timestamp
      (EventRepository.filtered fold t f)) : List SecurityEventRow :=
  let total := (EventRepository.search (results 0) limit 0).2
  ((List.range (total / limit + 1)).map fun k =>
    (EventRepository.search (results k) limit (k * limit : ℕ)).1).flatten

def alertPages {t : Alerts} {f : AlertFilters} (limit : ℕ)
    (results : ℕ → Pages.Ordered Alert.lastSeen (AlertRepository.filtered t f)) : List Alert :=
  let total := (AlertRepository.search (results 0) limit 0).2
  ((List.range (total / limit + 1)).map fun k =>
    (AlertRepository.search (results k) limit (k * limit : ℕ)).1).flatten

/-- Whatever order the database gives ties, each matching event is on one page, once. -/
def EventsCovered (fold : Char → Char) (t : SecurityEvents) (f : EventFilters) (limit : ℕ) :
    Prop :=
  ∀ results : ℕ → Pages.Ordered SecurityEventRow.timestamp (EventRepository.filtered fold t f),
    ∀ row ∈ EventRepository.filtered fold t f, (eventPages limit results).count row = 1

def AlertsCovered (t : Alerts) (f : AlertFilters) (limit : ℕ) : Prop :=
  ∀ results : ℕ → Pages.Ordered Alert.lastSeen (AlertRepository.filtered t f),
    ∀ a ∈ AlertRepository.filtered t f, (alertPages limit results).count a = 1

theorem eventsCovered_iff {limit : ℕ} (hpos : 1 ≤ limit) (hle : limit ≤ 200)
    (fold : Char → Char) (t : SecurityEvents) (f : EventFilters) :
    EventsCovered fold t f limit ↔
      Pages.Unsplit SecurityEventRow.timestamp limit (EventRepository.filtered fold t f) := by
  have hnodup : (EventRepository.filtered fold t f).Nodup := (t.primaryKey.of_map _).filter _
  rw [← Pages.covers_iff hpos hnodup]
  unfold EventsCovered Pages.Covers eventPages EventRepository.search
  simp only [searchPage_eq_page hpos hle]
  rfl

theorem alertsCovered_iff {limit : ℕ} (hpos : 1 ≤ limit) (hle : limit ≤ 200) (t : Alerts)
    (f : AlertFilters) :
    AlertsCovered t f limit ↔
      Pages.Unsplit Alert.lastSeen limit (AlertRepository.filtered t f) := by
  have hnodup : (AlertRepository.filtered t f).Nodup := (t.uqAlertOpenWindow.of_map _).filter _
  rw [← Pages.covers_iff hpos hnodup]
  unfold AlertsCovered Pages.Covers alertPages AlertRepository.search
  simp only [searchPage_eq_page hpos hle]
  rfl

/-- The pages cover the matching rows exactly when no two rows with one time stand on the two
sides of a page boundary. -/
theorem covered_iff_unsplit {limit : ℕ} (hpos : 1 ≤ limit) (hle : limit ≤ 200) :
    (∀ fold t f, EventsCovered fold t f limit ↔
      Pages.Unsplit SecurityEventRow.timestamp limit (EventRepository.filtered fold t f)) ∧
    ∀ t f, AlertsCovered t f limit ↔
      Pages.Unsplit Alert.lastSeen limit (AlertRepository.filtered t f) :=
  ⟨eventsCovered_iff hpos hle, alertsCovered_iff hpos hle⟩

def eventAt (id : UUID) (timestamp : Time) : SecurityEventRow where
  eventId := id
  timestamp := timestamp
  ingestedAt := timestamp
  source := "web-1"
  sourceType := "web_server"
  eventType := "http_request"
  sourceIp := none
  destinationIp := none
  destinationPort := none
  username := none
  service := none
  action := none
  status := none
  severity := "info"
  message := none
  bytesOut := 0
  bytesIn := 0
  eventMetadata := []

def burst (first second earlier : UUID) (h : [first, second, earlier].Nodup) : SecurityEvents where
  rows := [eventAt first 60, eventAt second 60, eventAt earlier 0]
  primaryKey := h

/-- Pages of two rows: the events of one moment share the first page. -/
theorem eventsCovered_burst : EventsCovered id (burst 0 1 2 (by decide)) {} 2 := by
  refine ((covered_iff_unsplit (by decide) (by decide)).1 id _ {}).mpr fun k hk hlt => ?_
  have hone : k = 1 := by
    change k * 2 < 3 at hlt
    omega
  rw [hone]
  decide +kernel

/-- Pages of one row: the second page can repeat what the first one showed. -/
theorem not_eventsCovered_burst : ¬ EventsCovered id (burst 0 1 2 (by decide)) {} 1 := by
  intro h
  have hunsplit := (eventsCovered_iff (by decide) (by decide) id _ {}).mp h
  exact hunsplit 1 (by decide) (by decide +kernel) (by decide +kernel)

def FoldsAscii (fold : Char → Char) : Prop := ∀ c : Char, c.toNat < 128 → fold c = c.toLower

def OccursIn (fold : Char → Char) (q message : String) : Prop :=
  q.toList.map fold <:+: message.toList.map fold

instance (fold : Char → Char) (q message : String) : Decidable (OccursIn fold q message) :=
  inferInstanceAs (Decidable (q.toList.map fold <:+: message.toList.map fold))

theorem passes_q {fold : Char → Char} {q message : String} (hq : q ≠ "")
    {row : SecurityEventRow} (hrow : row.message = some message) :
    EventRepository.passes fold { q := some q } row =
      Like.like likeWildcards fold ('%' :: q.toList ++ ['%']) message.toList := by
  have hgiven : given (some q) = some q := Option.filter_some_pos (by simpa using hq)
  have hpattern : ("%" ++ q ++ "%").toList = '%' :: q.toList ++ ['%'] := by
    rw [String.toList_append, String.toList_append]
    rfl
  have hnone : given none = none := rfl
  unfold EventRepository.passes
  rw [hgiven, hrow]
  simp only [hnone, Option.all_none, Option.all_some, Option.any_some, Bool.true_and, ilike,
    hpattern]

/-- The filter finds the messages in which `q` occurs exactly when `q` is free of the
characters of the pattern language. -/
theorem passes_q_iff_occursIn {fold : Char → Char} (hfold : FoldsAscii fold) {q : String}
    (hq : q ≠ "") :
    (∀ (row : SecurityEventRow) (message : String), row.message = some message →
      (EventRepository.passes fold { q := some q } row ↔ OccursIn fold q message)) ↔
    Like.Plain likeWildcards q.toList := by
  have hone : fold 'a' ≠ fold likeWildcards.one := by
    rw [hfold 'a' (by decide), hfold likeWildcards.one (by decide)]
    decide
  have hmany : fold likeWildcards.many ≠ fold likeWildcards.escape := by
    rw [hfold likeWildcards.many (by decide), hfold likeWildcards.escape (by decide)]
    decide
  rw [← Like.contains_iff hone hmany q.toList]
  constructor
  · intro h s
    have hrow := h { eventAt 0 0 with message := some (String.ofList s) } _ rfl
    rw [passes_q hq rfl, OccursIn, String.toList_ofList] at hrow
    exact hrow
  · intro h row message hrow
    rw [passes_q hq hrow]
    exact h message.toList

theorem passes_failed_login :
    EventRepository.passes Char.toLower { q := some "failed login" }
        { eventAt 0 0 with message := some "Failed login for root" } ↔
      OccursIn Char.toLower "failed login" "Failed login for root" :=
  (passes_q_iff_occursIn (fun _ _ => rfl) (by decide)).mpr (by decide) _ _ rfl

/-- An underscore finds a message with any other character in its place. -/
theorem passes_underscore :
    EventRepository.passes Char.toLower { q := some "db_admin" }
      { eventAt 0 0 with message := some "login by db-admin" } ∧
    ¬ OccursIn Char.toLower "db_admin" "login by db-admin" := by
  decide +kernel

end SiemEngine

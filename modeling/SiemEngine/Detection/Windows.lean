import SiemEngine.Lib.Binary64
import SiemEngine.Python.Text

/-!
# Sliding windows

Each window is a sorted set under its full key. A member is the observed value with a
random token behind a unit separator, its score the event's epoch seconds. The order of
the members of equal score is never observed, so a set is its dictionary of scores. An
expired key reads as empty.
-/

namespace SiemEngine

/-- What the evaluation of a detector reads from its environment: the wall clock, a random
token, and the clock again when the result is stamped. -/
structure Tick where
  clock : Time
  token : String
  triggeredAt : Time

structure SortedSet where
  members : List (String × ℚ)
  expiresAt : Time

abbrev Windows := List (String × SortedSet)

structure WindowResult where
  count : ℕ
  uniqueValues : List String
  oldestTs : ℚ
  newestTs : ℚ

def WindowResult.spanSeconds (res : WindowResult) : ℚ :=
  max 0 (Binary64.sub res.newestTs res.oldestTs)

def Datetime.timestamp (t : Time) : ℚ := Binary64.div t Datetime.microsPerSecond

namespace Windows

def separator : Char := '\x1f'

def encode (value token : String) : String := value ++ String.singleton separator ++ token

def decode (member : String) : String :=
  String.ofList (member.toList.takeWhile (· ≠ separator))

def key (name entity : String) : String := "siem:win:" ++ name ++ ":" ++ entity

def trimmed (ws : Windows) (clock : Time) (key : String) (cutoff : ℚ) : List (String × ℚ) :=
  match Dict.get? ws key with
  | none => []
  | some set => if set.expiresAt < clock then [] else set.members.filter fun m => cutoff < m.2

def toResult (entries : List (String × ℚ)) (now : ℚ) : WindowResult :=
  match entries with
  | [] => ⟨0, [], now, now⟩
  | m :: rest =>
    { count := entries.length
      uniqueValues := (entries.map fun e => decode e.1).dedup
      oldestTs := rest.foldl (fun acc e => min acc e.2) m.2
      newestTs := rest.foldl (fun acc e => max acc e.2) m.2 }

theorem uniqueValues_toResult (es : List (String × ℚ)) (now : ℚ) :
    (toResult es now).uniqueValues = (es.map fun e => decode e.1).dedup := by
  cases es with
  | nil => rfl
  | cons e es => rfl

theorem foldl_extremum_spec {op : ℚ → ℚ → ℚ} {r : ℚ → ℚ → Prop} (hrefl : ∀ x, r x x)
    (htrans : ∀ x y z, r x y → r y z → r x z) (hop : ∀ x y, op x y = x ∨ op x y = y)
    (hleft : ∀ x y, r (op x y) x) (hright : ∀ x y, r (op x y) y) (x : ℚ)
    (es : List (String × ℚ)) :
    let m := es.foldl (fun acc e => op acc e.2) x
    (m = x ∨ ∃ e ∈ es, m = e.2) ∧ r m x ∧ ∀ e ∈ es, r m e.2 := by
  induction es generalizing x with
  | nil => exact ⟨Or.inl rfl, hrefl x, fun _ h => absurd h List.not_mem_nil⟩
  | cons e es ih =>
    obtain ⟨hval, hle, hall⟩ := ih (op x e.2)
    refine ⟨?_, htrans _ _ _ hle (hleft _ _), List.forall_mem_cons.mpr
      ⟨htrans _ _ _ hle (hright _ _), hall⟩⟩
    rcases hval with hval | ⟨e', he', hval⟩
    · rcases hop x e.2 with hx | hx
      · exact Or.inl (hval.trans hx)
      · exact Or.inr ⟨e, List.mem_cons_self, hval.trans hx⟩
    · exact Or.inr ⟨e', List.mem_cons_of_mem _ he', hval⟩

theorem foldl_min_spec (x : ℚ) (es : List (String × ℚ)) :
    let m := es.foldl (fun acc e => min acc e.2) x
    (m = x ∨ ∃ e ∈ es, m = e.2) ∧ m ≤ x ∧ ∀ e ∈ es, m ≤ e.2 :=
  foldl_extremum_spec le_refl (fun _ _ _ => le_trans) min_choice min_le_left min_le_right x es

theorem foldl_max_spec (x : ℚ) (es : List (String × ℚ)) :
    let m := es.foldl (fun acc e => max acc e.2) x
    (m = x ∨ ∃ e ∈ es, m = e.2) ∧ x ≤ m ∧ ∀ e ∈ es, e.2 ≤ m :=
  foldl_extremum_spec (r := fun a b => b ≤ a) le_refl (fun _ _ _ h h' => le_trans h' h) max_choice
    le_max_left le_max_right x es

theorem toResult_extrema {es : List (String × ℚ)} (h : es ≠ []) (now : ℚ) :
    IsLeast {x | ∃ e ∈ es, e.2 = x} (toResult es now).oldestTs ∧
      IsGreatest {x | ∃ e ∈ es, e.2 = x} (toResult es now).newestTs := by
  obtain ⟨e, es, rfl⟩ := List.exists_cons_of_ne_nil h
  obtain ⟨hmin, hlo, hlos⟩ := foldl_min_spec e.2 es
  obtain ⟨hmax, hhi, hhis⟩ := foldl_max_spec e.2 es
  refine ⟨⟨?_, ?_⟩, ?_, ?_⟩
  · rcases hmin with hmin | ⟨a, ha, hmin⟩
    · exact ⟨e, List.mem_cons_self, hmin.symm⟩
    · exact ⟨a, List.mem_cons_of_mem _ ha, hmin.symm⟩
  · rintro x ⟨a, ha, rfl⟩
    rcases List.mem_cons.mp ha with rfl | ha
    · exact hlo
    · exact hlos a ha
  · rcases hmax with hmax | ⟨a, ha, hmax⟩
    · exact ⟨e, List.mem_cons_self, hmax.symm⟩
    · exact ⟨a, List.mem_cons_of_mem _ ha, hmax.symm⟩
  · rintro x ⟨a, ha, rfl⟩
    rcases List.mem_cons.mp ha with rfl | ha
    · exact hhi
    · exact hhis a ha

/-- Trim the key, add a member and renew its time to live; the members afterwards. -/
def add (ws : Windows) (tick : Tick) (key value : String) (windowSeconds : ℤ) (now : ℚ) :
    Windows × List (String × ℚ) :=
  let cutoff := Binary64.sub now windowSeconds
  let members := Dict.set (trimmed ws tick.clock key cutoff) (encode value tick.token) now
  let expiresAt := tick.clock + (windowSeconds + 30) * Datetime.microsPerSecond
  (Dict.set ws key ⟨members, expiresAt⟩, members)

def addAndMeasure (ws : Windows) (tick : Tick) (name entity value : String)
    (windowSeconds : ℤ) (now : ℚ) : Windows × WindowResult :=
  let (ws', members) := ws.add tick (key name entity) value windowSeconds now
  (ws', toResult members now)

def measure (ws : Windows) (tick : Tick) (name entity : String) (windowSeconds : ℤ) :
    Windows × WindowResult :=
  let now := Datetime.timestamp tick.clock
  let members := trimmed ws tick.clock (key name entity) (Binary64.sub now windowSeconds)
  let ws' := match Dict.get? ws (key name entity) with
    | none => ws
    | some set => Dict.set ws (key name entity) { set with members }
  (ws', toResult members now)

def incrSum (py : Python) (ws : Windows) (tick : Tick) (name entity : String) (amount : ℤ)
    (windowSeconds : ℤ) (now : ℚ) : Windows × ℤ :=
  let (ws', members) := ws.add tick (key name entity) (toString amount) windowSeconds now
  (ws', (members.map fun m => (Text.pyInt py 10 (decode m.1)).getD 0).sum)

end Windows

end SiemEngine

import SiemEngine.Python.Json
import SiemEngine.Python.Text

/-!
# Column types

What PostgreSQL accepts in a column: a `varchar(n)` has at most `n` characters, no text or
JSONB value contains U+0000, integers fit their width.
-/

namespace SiemEngine.Column

def NulFree (s : String) : Prop := '\x00' ∉ s.toList

def Varchar (width : ℕ) (s : String) : Prop := s.length ≤ width ∧ NulFree s

def IntegerBits (bits : ℕ) (n : ℤ) : Prop := -2 ^ (bits - 1) ≤ n ∧ n < 2 ^ (bits - 1)

theorem zero_mem_utf8EncodeChar {c : Char} : 0 ∈ String.utf8EncodeChar c ↔ c = '\x00' := by
  have hzero : c = '\x00' ↔ c.val.toNat = 0 := by
    rw [Char.ext_iff, ← UInt32.toNat_inj]
    rfl
  have hbyte : ∀ n, (0 : UInt8) = UInt8.ofNat n ↔ n % 256 = 0 := by
    intro n
    rw [← UInt8.toNat_inj, UInt8.toNat_ofNat']
    exact eq_comm
  rw [hzero, String.utf8EncodeChar]
  split_ifs <;> simp only [List.mem_cons, List.not_mem_nil, or_false, hbyte] <;> omega

theorem nulFree_iff_bytes (s : String) : NulFree s ↔ 0 ∉ s.toByteArray.data.toList := by
  rw [NulFree, ← String.utf8Encode_toList, List.utf8Encode, List.data_toByteArray]
  simp [List.mem_flatMap, zero_mem_utf8EncodeChar]

instance (s : String) : Decidable (NulFree s) := decidable_of_iff _ (nulFree_iff_bytes s).symm

instance (width : ℕ) (s : String) : Decidable (Varchar width s) :=
  inferInstanceAs (Decidable (_ ∧ _))

instance (bits : ℕ) (n : ℤ) : Decidable (IntegerBits bits n) :=
  inferInstanceAs (Decidable (_ ∧ _))

mutual
def Jsonb : Json → Prop
  | .null | .bool _ | .int _ | .float _ => True
  | .str s => NulFree s
  | .arr xs => JsonbList xs
  | .obj kvs => JsonbDict kvs
def JsonbList : List Json → Prop
  | [] => True
  | x :: xs => Jsonb x ∧ JsonbList xs
def JsonbDict : JsonDict → Prop
  | [] => True
  | (k, v) :: kvs => NulFree k ∧ Jsonb v ∧ JsonbDict kvs
end

mutual
def decJsonb : (x : Json) → Decidable (Jsonb x)
  | .null | .bool _ | .int _ | .float _ => isTrue trivial
  | .str s => inferInstanceAs (Decidable (NulFree s))
  | .arr xs => decJsonbList xs
  | .obj kvs => decJsonbDict kvs
def decJsonbList : (xs : List Json) → Decidable (JsonbList xs)
  | [] => isTrue trivial
  | x :: xs => @instDecidableAnd _ _ (decJsonb x) (decJsonbList xs)
def decJsonbDict : (kvs : JsonDict) → Decidable (JsonbDict kvs)
  | [] => isTrue trivial
  | (k, v) :: kvs =>
    @instDecidableAnd _ _ (inferInstanceAs (Decidable (NulFree k)))
      (@instDecidableAnd _ _ (decJsonb v) (decJsonbDict kvs))
end

instance : DecidablePred Jsonb := decJsonb
instance : DecidablePred JsonbDict := decJsonbDict

theorem jsonbDict_iff {kvs : JsonDict} :
    JsonbDict kvs ↔ ∀ kv ∈ kvs, NulFree kv.1 ∧ Jsonb kv.2 := by
  induction kvs with
  | nil => simp [JsonbDict]
  | cons kv kvs ih => simp only [JsonbDict, ih, List.forall_mem_cons, and_assoc]

def Nullable {α : Type*} (p : α → Prop) (x : Option α) : Prop := ∀ a ∈ x, p a

instance {α : Type*} (p : α → Prop) [DecidablePred p] (x : Option α) :
    Decidable (Nullable p x) :=
  match x with
  | none => isTrue (by simp [Nullable])
  | some a => decidable_of_iff (p a) (by simp [Nullable])

section

variable {s t : String}

theorem nulFree_literal (cs : List Char) (h : '\x00' ∉ cs) : NulFree (String.ofList cs) := by
  rwa [NulFree, String.toList_ofList]

theorem nulFree_append : NulFree (s ++ t) ↔ NulFree s ∧ NulFree t := by
  rw [NulFree, NulFree, NulFree, String.toList_append, List.mem_append, not_or]

theorem nulFree_take (h : NulFree s) (n : ℕ) : NulFree (Text.take n s) := by
  rw [NulFree, Text.toList_take]
  exact fun hmem => h (List.mem_of_mem_take hmem)

theorem nulFree_int (n : ℤ) : NulFree (toString n) := by
  intro hmem
  rcases Text.mem_toString hmem with hdash | hdigit
  · exact absurd hdash (by decide)
  · exact absurd hdigit (by decide)

theorem nulFree_nat (n : ℕ) : NulFree (toString n) := nulFree_int n

theorem nulFree_getD {x : Option String} (h : Nullable NulFree x) (ht : NulFree t) :
    NulFree (x.getD t) := by
  cases x with
  | none => exact ht
  | some s => exact h s rfl

theorem nulFree_intercalate {sep : String} (hsep : NulFree sep) {texts : List String}
    (h : ∀ s ∈ texts, NulFree s) : NulFree (Text.intercalate sep texts) := by
  induction texts with
  | nil => exact (by decide : NulFree "")
  | cons s rest ih =>
    obtain ⟨hs, hrest⟩ := List.forall_mem_cons.mp h
    cases rest with
    | nil => exact hs
    | cons s' rest => exact nulFree_append.mpr ⟨nulFree_append.mpr ⟨hs, hsep⟩, ih hrest⟩

end

/-- What the interpreter makes of texts without U+0000 has none either. -/
structure KeepsNulFree (py : Python) : Prop where
  lower : ∀ s, NulFree s → NulFree (py.lower s)
  capitalize : ∀ s, NulFree s → NulFree (py.capitalize s)
  reprStr : ∀ s, NulFree s → NulFree (py.reprStr s)
  reprFloat : ∀ q, NulFree (py.reprFloat q)
  formatFixed : ∀ places q, NulFree (py.formatFixed places q)

section

variable {py : Python}

mutual
theorem nulFree_repr (hpy : KeepsNulFree py) : (x : Json) → Jsonb x → NulFree (x.repr py)
  | .null, _ => (by decide : NulFree "None")
  | .bool true, _ => (by decide : NulFree "True")
  | .bool false, _ => (by decide : NulFree "False")
  | .int n, _ => nulFree_int n
  | .float q, _ => hpy.reprFloat q
  | .str s, h => hpy.reprStr s h
  | .arr xs, h => nulFree_append.mpr ⟨nulFree_append.mpr ⟨by decide,
      nulFree_intercalate (by decide) (nulFree_reprList hpy xs h)⟩, by decide⟩
  | .obj kvs, h => nulFree_append.mpr ⟨nulFree_append.mpr ⟨by decide,
      nulFree_intercalate (by decide) (nulFree_reprItems hpy kvs h)⟩, by decide⟩
theorem nulFree_reprList (hpy : KeepsNulFree py) :
    (xs : List Json) → JsonbList xs → ∀ s ∈ Json.reprList py xs, NulFree s
  | [], _ => fun _ hs => absurd hs List.not_mem_nil
  | x :: xs, h => List.forall_mem_cons.mpr ⟨nulFree_repr hpy x h.1, nulFree_reprList hpy xs h.2⟩
theorem nulFree_reprItems (hpy : KeepsNulFree py) :
    (kvs : JsonDict) → JsonbDict kvs → ∀ s ∈ Json.reprItems py kvs, NulFree s
  | [], _ => fun _ hs => absurd hs List.not_mem_nil
  | (k, v) :: kvs, h => List.forall_mem_cons.mpr ⟨nulFree_append.mpr
      ⟨nulFree_append.mpr ⟨hpy.reprStr k h.1, by decide⟩, nulFree_repr hpy v h.2.1⟩,
      nulFree_reprItems hpy kvs h.2.2⟩
end

theorem nulFree_pyStr (hpy : KeepsNulFree py) {x : Json} (h : Jsonb x) : NulFree (x.pyStr py) := by
  cases x with
  | str s => exact h
  | null => exact nulFree_repr hpy .null h
  | bool b => exact nulFree_repr hpy (.bool b) h
  | int n => exact nulFree_repr hpy (.int n) h
  | float q => exact nulFree_repr hpy (.float q) h
  | arr xs => exact nulFree_repr hpy (.arr xs) h
  | obj kvs => exact nulFree_repr hpy (.obj kvs) h

end

end SiemEngine.Column

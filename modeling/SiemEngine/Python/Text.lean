import Mathlib.Algebra.Order.Ring.Int
import SiemEngine.Python.Datetime
import SiemEngine.Python.Json

/-!
# Python text

Strings are sequences of code points. What the interpreter takes from its Unicode
tables, its float printer and mathematical library, its ISO 8601 parser and its regular
expression engine is the record `Python`; every result holds for all of them. Whitespace,
`strip`, `int` and the containers' `str` are written out.
-/

namespace SiemEngine

structure Python where
  lower : String → String
  capitalize : String → String
  reprStr : String → String
  reprFloat : ℚ → String
  formatFixed : ℕ → ℚ → String
  /-- the value of a non-ASCII decimal digit -/
  decimal : Char → Option (Fin 10)
  /-- `datetime.fromisoformat`: the local time and, for an aware value, its UTC offset -/
  fromisoformat : String → Option (Time × Option Time)
  /-- `datetime.fromtimestamp(x, tz=UTC)` -/
  fromtimestamp : ℚ → Option Time
  /-- `re.compile(pattern).search(text) is not None` -/
  search : String → String → Bool
  /-- the order a set of strings is iterated in -/
  setOrder : List String → List String
  sqrt : ℚ → ℚ
  exp : ℚ → ℚ

/-- What the interpreter does on texts of printable ASCII without quotes and backslashes
that no pattern matches and that are no timestamps. -/
def Python.ascii : Python where
  lower s := s.map Char.toLower
  capitalize s := String.ofList (match s.toList with
    | [] => []
    | c :: cs => c.toUpper :: cs.map Char.toLower)
  reprStr s := "'" ++ s ++ "'"
  reprFloat q := toString q
  formatFixed _ q := toString q.floor
  decimal _ := none
  fromisoformat _ := none
  fromtimestamp q := some (q * Datetime.microsPerSecond).floor
  search _ _ := false
  setOrder s := s
  sqrt q := q
  exp q := q

namespace Text

def isSpace (c : Char) : Bool :=
  let n := c.toNat
  (9 ≤ n && n ≤ 13) || (28 ≤ n && n ≤ 32) || n = 0x85 || n = 0xa0 || n = 0x1680 ||
    (0x2000 ≤ n && n ≤ 0x200a) || n = 0x2028 || n = 0x2029 || n = 0x202f || n = 0x205f ||
    n = 0x3000

def stripBy (p : Char → Bool) (s : String) : String :=
  String.ofList (((s.toList.dropWhile p).reverse.dropWhile p).reverse)

def strip (s : String) : String := stripBy isSpace s

theorem strip_replicate (n : ℕ) {c : Char} (h : isSpace c = false) :
    strip (String.ofList (List.replicate n c)) = String.ofList (List.replicate n c) := by
  simp [strip, stripBy, h]

def replaceChar (c : Char) (new : String) (s : String) : String :=
  String.ofList (s.toList.flatMap fun d => if d = c then new.toList else [d])

def take (n : ℕ) (s : String) : String := String.ofList (s.toList.take n)

@[simp] theorem toList_take (n : ℕ) (s : String) : (take n s).toList = s.toList.take n := by
  simp [take]

@[simp] theorem length_take (n : ℕ) (s : String) : (take n s).length = min n s.length := by
  rw [← String.length_toList, toList_take, List.length_take, String.length_toList]

theorem take_of_length_le {n : ℕ} {s : String} (h : s.length ≤ n) : take n s = s := by
  rw [take, List.take_of_length_le (by rwa [String.length_toList]), String.ofList_toList]

theorem take_ne_empty {n : ℕ} (hn : 0 < n) {s : String} (h : s ≠ "") : take n s ≠ "" := by
  intro he
  have hl : (take n s).length = 0 := by rw [he]; rfl
  rw [length_take] at hl
  have hs : s.length = 0 := by omega
  exact h (by simpa using hs)

def digitVal (base : ℕ) (c : Char) : Option ℕ :=
  let n := c.toNat
  let v := if 48 ≤ n ∧ n ≤ 57 then n - 48
    else if 97 ≤ n ∧ n ≤ 122 then n - 87
    else if 65 ≤ n ∧ n ≤ 90 then n - 55 else base
  if v < base then some v else none

def isAsciiSpace (c : Char) : Bool := (9 ≤ c.toNat && c.toNat ≤ 13) || c.toNat = 32

/-- `_PyUnicode_TransformDecimalAndSpaceToASCII`. -/
def toAscii (py : Python) (c : Char) : Char :=
  if c.toNat < 127 then c
  else if isSpace c then ' '
  else match py.decimal c with
    | some d => Char.ofNat (48 + d)
    | none => '?'

def digits (base : ℕ) : List Char → (afterUnderscore : Bool) → (acc : ℕ) →
    Option (ℕ × List Char)
  | [], u, acc => if u then none else some (acc, [])
  | c :: cs, u, acc =>
    if c = '_' then if u then none else digits base cs true acc
    else match digitVal base c with
      | some v => digits base cs false (acc * base + v)
      | none => if u then none else some (acc, c :: cs)

def unsigned (base : ℕ) (cs : List Char) : Option ℕ :=
  let cs := match base, cs with
    | 16, '0' :: 'x' :: '_' :: rest | 16, '0' :: 'X' :: '_' :: rest => rest
    | 16, '0' :: 'x' :: rest | 16, '0' :: 'X' :: rest => rest
    | _, _ => cs
  match cs with
  | [] => none
  | c :: _ =>
    if (digitVal base c).isNone then none
    else match digits base cs false 0 with
      | some (n, rest) => if rest.all isAsciiSpace then some n else none
      | none => none

def maxStrDigits : ℕ := 4300

/-- `int(s, base)`, `none` for `ValueError`. -/
def pyInt (py : Python) (base : ℕ) (s : String) : Option ℤ :=
  let cs := (s.toList.map (toAscii py)).dropWhile isAsciiSpace
  if base = 10 ∧ maxStrDigits < cs.countP (fun c => (digitVal 10 c).isSome) then none
  else match cs with
    | '-' :: rest => (unsigned base rest).map fun n => -(n : ℤ)
    | '+' :: rest => (unsigned base rest).map fun n => (n : ℤ)
    | rest => (unsigned base rest).map fun n => (n : ℤ)

theorem isDigit_bounds {c : Char} (h : c.isDigit) : 48 ≤ c.toNat ∧ c.toNat ≤ 57 := by
  simp only [Char.isDigit, Bool.and_eq_true, decide_eq_true_eq, UInt32.le_iff_toNat_le] at h
  exact h

theorem digitVal_digitChar {d : ℕ} (h : d < 16) : digitVal 16 (Nat.digitChar d) = some d := by
  have hall : ∀ d : Fin 16, digitVal 16 (Nat.digitChar d) = some d.val := by decide
  exact hall ⟨d, h⟩

theorem digitVal_isDigit {c : Char} (h : c.isDigit) : digitVal 10 c = some (c.toNat - 48) := by
  have hb := isDigit_bounds h
  simp only [digitVal, if_pos hb]
  exact if_pos (by omega)

theorem digits_isDigit {cs : List Char} (h : ∀ c ∈ cs, c.isDigit) (acc : ℕ) :
    digits 10 cs false acc = some (Nat.ofDigitChars 10 cs acc, []) := by
  induction cs generalizing acc with
  | nil => rfl
  | cons c cs ih =>
    obtain ⟨hc, hcs⟩ := List.forall_mem_cons.mp h
    have hne : c ≠ '_' := by
      rintro rfl
      exact absurd hc (by decide)
    rw [digits, if_neg hne, digitVal_isDigit hc, Nat.ofDigitChars_cons, ← ih hcs, Nat.mul_comm]
    rfl

theorem unsigned_toDigits (n : ℕ) : unsigned 10 (Nat.toDigits 10 n) = some n := by
  have hdigits : ∀ c ∈ Nat.toDigits 10 n, c.isDigit := fun c hc =>
    Nat.isDigit_of_mem_toDigits (by decide) (by decide) hc
  cases hcs : Nat.toDigits 10 n with
  | nil => exact absurd hcs Nat.toDigits_ne_nil
  | cons c cs =>
    rw [hcs] at hdigits
    have hval := digitVal_isDigit (hdigits c List.mem_cons_self)
    have hparse := digits_isDigit hdigits 0
    rw [← hcs, Nat.ofDigitChars_ten_toDigits, hcs] at hparse
    simp [unsigned, hval, hparse]

theorem toAscii_isDigit (py : Python) {c : Char} (h : c.isDigit) : toAscii py c = c :=
  if_pos (by have hb := isDigit_bounds h; omega)

theorem countP_toDigits (n : ℕ) :
    (Nat.toDigits 10 n).countP (fun c => (digitVal 10 c).isSome) = (Nat.toDigits 10 n).length := by
  refine List.countP_eq_length.mpr fun c hc => ?_
  rw [digitVal_isDigit (Nat.isDigit_of_mem_toDigits (by decide) (by decide) hc)]
  rfl

theorem toAscii_toDigits (py : Python) (n : ℕ) :
    (Nat.toDigits 10 n).map (toAscii py) = Nat.toDigits 10 n := by
  rw [List.map_congr_left fun c hc =>
    toAscii_isDigit py (Nat.isDigit_of_mem_toDigits (by decide) (by decide) hc), List.map_id']

theorem toList_toString_negSucc (m : ℕ) :
    (toString (Int.negSucc m)).toList = '-' :: Nat.toDigits 10 (m + 1) := by
  change ("-" ++ (m + 1).repr).toList = _
  rw [String.toList_append, Nat.toList_repr]
  rfl

theorem mem_toString {n : ℤ} {c : Char} (h : c ∈ (toString n).toList) : c = '-' ∨ c.isDigit := by
  cases n with
  | ofNat m =>
    have hlist : (toString (Int.ofNat m)).toList = Nat.toDigits 10 m := Nat.toList_repr
    rw [hlist] at h
    exact Or.inr (Nat.isDigit_of_mem_toDigits (by decide) (by decide) h)
  | negSucc m =>
    rw [toList_toString_negSucc] at h
    rcases List.mem_cons.mp h with rfl | h
    · exact Or.inl rfl
    · exact Or.inr (Nat.isDigit_of_mem_toDigits (by decide) (by decide) h)

theorem pyInt_of_unsigned {py : Python} {base n : ℕ} {s : String} {c : Char} {cs : List Char}
    (hcs : s.toList.map (toAscii py) = c :: cs) (hspace : isAsciiSpace c = false)
    (hminus : c ≠ '-') (hplus : c ≠ '+')
    (hfew : ¬ (base = 10 ∧ maxStrDigits < (c :: cs).countP fun c => (digitVal 10 c).isSome))
    (hparse : unsigned base (c :: cs) = some n) : pyInt py base s = some (n : ℤ) := by
  have hdrop : (c :: cs).dropWhile isAsciiSpace = c :: cs :=
    List.dropWhile_cons_of_neg (by simp [hspace])
  unfold pyInt
  dsimp only
  rw [hcs, hdrop, if_neg hfew]
  split
  · rename_i heq
    exact absurd (List.cons.inj heq).1 hminus
  · rename_i heq
    exact absurd (List.cons.inj heq).1 hplus
  · rw [hparse]
    rfl

theorem pyInt_toString (py : Python) {n : ℤ} (h : n.natAbs < 10 ^ maxStrDigits) :
    pyInt py 10 (toString n) = some n := by
  have hlen := (Nat.length_toDigits_le_iff (b := 10) (by decide) (by decide)).mpr h
  have hdigit : ∀ c ∈ Nat.toDigits 10 n.natAbs, c.isDigit := fun c hc =>
    Nat.isDigit_of_mem_toDigits (by decide) (by decide) hc
  have hparse := unsigned_toDigits n.natAbs
  have hcount := countP_toDigits n.natAbs
  have hascii := toAscii_toDigits py n.natAbs
  cases n with
  | ofNat m =>
    have hlist : (toString (Int.ofNat m)).toList = Nat.toDigits 10 m := Nat.toList_repr
    simp only [Int.ofNat_eq_natCast, Int.natAbs_natCast] at hdigit hparse hcount hascii hlen
    cases hcs : Nat.toDigits 10 m with
    | nil => exact absurd hcs Nat.toDigits_ne_nil
    | cons c cs =>
      rw [hcs] at hdigit hparse hcount hascii hlen
      have hb := isDigit_bounds (hdigit c List.mem_cons_self)
      have hspace : isAsciiSpace c = false := by
        simp only [isAsciiSpace, Bool.or_eq_false_iff, Bool.and_eq_false_iff,
          decide_eq_false_iff_not]
        omega
      have hfew : ¬ (10 = 10 ∧
          maxStrDigits < (c :: cs).countP fun c => (digitVal 10 c).isSome) := by
        rw [hcount]
        omega
      have hminus : c ≠ '-' := fun heq => absurd (heq ▸ hb) (by decide)
      have hplus : c ≠ '+' := fun heq => absurd (heq ▸ hb) (by decide)
      refine pyInt_of_unsigned ?_ hspace hminus hplus hfew hparse
      rw [hlist, hcs, hascii]
  | negSucc m =>
    have hlist := toList_toString_negSucc m
    simp only [Int.natAbs_negSucc, Nat.succ_eq_add_one] at hparse hcount hascii hlen
    have hfew : ¬ (10 = 10 ∧ maxStrDigits <
        ('-' :: Nat.toDigits 10 (m + 1)).countP fun c => (digitVal 10 c).isSome) := by
      rw [List.countP_cons_of_neg (by decide), hcount]
      omega
    have hdash : toAscii py '-' = '-' := if_pos (by decide)
    have hdrop : ('-' :: Nat.toDigits 10 (m + 1)).dropWhile isAsciiSpace =
        '-' :: Nat.toDigits 10 (m + 1) := List.dropWhile_cons_of_neg (by decide)
    unfold pyInt
    dsimp only
    rw [hlist, List.map_cons, hdash, hascii, hdrop, if_neg hfew]
    simp only [hparse]
    rfl

/-- Remove the occurrences of `pat`, left to right; `skip` characters of one are still
to be dropped. -/
def removeAll (pat : List Char) : List Char → (skip : ℕ) → List Char
  | [], _ => []
  | _ :: cs, skip + 1 => removeAll pat cs skip
  | c :: cs, 0 =>
    if pat.isPrefixOf (c :: cs) then removeAll pat cs (pat.length - 1)
    else c :: removeAll pat cs 0

def intercalate (sep : String) : List String → String
  | [] => ""
  | [s] => s
  | s :: rest => s ++ sep ++ intercalate sep rest

end Text

namespace Json

mutual
def repr (py : Python) : Json → String
  | .null => "None"
  | .bool b => if b then "True" else "False"
  | .int n => toString n
  | .float q => py.reprFloat q
  | .str s => py.reprStr s
  | .arr xs => "[" ++ Text.intercalate ", " (reprList py xs) ++ "]"
  | .obj kvs => "\x7b" ++ Text.intercalate ", " (reprItems py kvs) ++ "\x7d"
def reprList (py : Python) : List Json → List String
  | [] => []
  | x :: xs => repr py x :: reprList py xs
def reprItems (py : Python) : List (String × Json) → List String
  | [] => []
  | (k, v) :: kvs => (py.reprStr k ++ ": " ++ repr py v) :: reprItems py kvs
end

/-- `str(value)`, which differs from `repr` on strings only. -/
def pyStr (py : Python) : Json → String
  | .str s => s
  | v => repr py v

/-- `int(value)`, `none` for `TypeError` and `ValueError`. -/
def pyInt (py : Python) : Json → Option ℤ
  | .bool b => some (if b then 1 else 0)
  | .int n => some n
  | .float q => some (q.num.tdiv q.den)
  | .str s => Text.pyInt py 10 s
  | .null | .arr _ | .obj _ => none

end Json

end SiemEngine

import Mathlib.Tactic.Ring
import SiemEngine.Python.Uuid
import SiemEngine.Python.Whitespace

/-!
# The text of a UUID

`str` prints a UUID in its canonical form, and the constructor reads that form back.
-/

namespace SiemEngine.Uuid

/-- `'%0*x' % (width, n)` for `n < 16 ** width`. -/
def hexDigits : (width : ℕ) → ℕ → List Char
  | 0, _ => []
  | width + 1, n => Nat.digitChar (n / 16 ^ width % 16) :: hexDigits width n

/-- `str(uuid)`. -/
def str (u : UUID) : String :=
  let hex := hexDigits 32 u
  String.ofList (hex.take 8 ++ '-' :: (hex.drop 8).take 4 ++ '-' :: (hex.drop 12).take 4 ++
    '-' :: (hex.drop 16).take 4 ++ '-' :: hex.drop 20)

def IsHex (c : Char) : Prop := ∃ d < 16, c = Nat.digitChar d

theorem length_hexDigits (width n : ℕ) : (hexDigits width n).length = width := by
  induction width with
  | zero => rfl
  | succ width ih => rw [hexDigits, List.length_cons, ih]

theorem isHex_of_mem {width n : ℕ} {c : Char} (h : c ∈ hexDigits width n) : IsHex c := by
  induction width with
  | zero => exact absurd h List.not_mem_nil
  | succ width ih =>
    rcases List.mem_cons.mp h with rfl | h
    · exact ⟨_, Nat.mod_lt _ (by decide), rfl⟩
    · exact ih h

theorem IsHex.all {P : Char → Prop} (h : ∀ d : Fin 16, P (Nat.digitChar d)) {c : Char}
    (hc : IsHex c) : P c := by
  obtain ⟨d, hd, rfl⟩ := hc
  exact h ⟨d, hd⟩

theorem digits_hexDigits (width n acc : ℕ) :
    Text.digits 16 (hexDigits width n) false acc =
      some (acc * 16 ^ width + n % 16 ^ width, []) := by
  induction width generalizing acc with
  | zero => simp [hexDigits, Text.digits, Nat.mod_one]
  | succ width ih =>
    have hlt : n / 16 ^ width % 16 < 16 := Nat.mod_lt _ (by decide)
    have hne : Nat.digitChar (n / 16 ^ width % 16) ≠ '_' :=
      IsHex.all (P := (· ≠ '_')) (by decide) ⟨_, hlt, rfl⟩
    rw [hexDigits, Text.digits, if_neg hne, Text.digitVal_digitChar hlt]
    dsimp only
    rw [ih, Nat.mod_pow_succ, pow_succ]
    congr 2
    ring

theorem removeAll_of_notMem {c : Char} {rest cs : List Char} (h : c ∉ cs) :
    Text.removeAll (c :: rest) cs 0 = cs := by
  induction cs with
  | nil => rfl
  | cons d cs ih =>
    have hne : c ≠ d := fun heq => h (heq ▸ List.mem_cons_self)
    have hstart : (c :: rest).isPrefixOf (d :: cs) = false := by
      rw [List.isPrefixOf, beq_false_of_ne hne, Bool.false_and]
    rw [Text.removeAll, if_neg (Bool.eq_false_iff.mp hstart),
      ih fun hmem => h (List.mem_cons_of_mem d hmem)]

theorem removeAll_append_dash {xs ys : List Char} (h : '-' ∉ xs) :
    Text.removeAll ['-'] (xs ++ '-' :: ys) 0 = xs ++ Text.removeAll ['-'] ys 0 := by
  induction xs with
  | nil => rfl
  | cons x xs ih =>
    have hne : '-' ≠ x := fun heq => h (heq ▸ List.mem_cons_self)
    have hstart : ['-'].isPrefixOf (x :: (xs ++ '-' :: ys)) = false := by
      rw [List.isPrefixOf, beq_false_of_ne hne, Bool.false_and]
    rw [List.cons_append, Text.removeAll, if_neg (Bool.eq_false_iff.mp hstart),
      ih fun hmem => h (List.mem_cons_of_mem x hmem), List.cons_append]

theorem pyInt_hexDigits (py : Python) {width n : ℕ} (h : n < 16 ^ (width + 1)) :
    Text.pyInt py 16 (String.ofList (hexDigits (width + 1) n)) = some (n : ℤ) := by
  have hhex : ∀ c ∈ hexDigits (width + 1) n, IsHex c := fun c hc => isHex_of_mem hc
  have hparse := digits_hexDigits (width + 1) n 0
  rw [Nat.zero_mul, Nat.zero_add, Nat.mod_eq_of_lt h] at hparse
  have hascii : (hexDigits (width + 1) n).map (Text.toAscii py) = hexDigits (width + 1) n := by
    rw [List.map_congr_left fun c hc => ?_, List.map_id']
    have hsmall : c.toNat < 127 := (hhex c hc).all (P := fun c => c.toNat < 127) (by decide)
    exact if_pos hsmall
  cases hcs : hexDigits (width + 1) n with
  | nil => simp [hexDigits] at hcs
  | cons c cs =>
    rw [hcs] at hhex hparse hascii
    have hc : IsHex c := hhex c List.mem_cons_self
    have hspace : Text.isAsciiSpace c = false :=
      hc.all (P := fun c => Text.isAsciiSpace c = false) (by decide)
    have hminus : c ≠ '-' := hc.all (P := (· ≠ '-')) (by decide)
    have hplus : c ≠ '+' := hc.all (P := (· ≠ '+')) (by decide)
    have hval : (Text.digitVal 16 c).isNone = false :=
      hc.all (P := fun c => (Text.digitVal 16 c).isNone = false) (by decide)
    have hx : ∀ d ∈ cs, d ≠ 'x' ∧ d ≠ 'X' := fun d hd =>
      (hhex d (List.mem_cons_of_mem c hd)).all (P := fun d => d ≠ 'x' ∧ d ≠ 'X') (by decide)
    have hunsigned : Text.unsigned 16 (c :: cs) = some n := by
      cases cs with
      | nil => simp [Text.unsigned, hval, hparse]
      | cons d ds =>
        obtain ⟨hlower, hupper⟩ := hx d List.mem_cons_self
        simp [Text.unsigned, hlower, hupper, hval, hparse]
    refine Text.pyInt_of_unsigned ?_ hspace hminus hplus (fun hten => ?_) hunsigned
    · rw [String.toList_ofList, hascii]
    · exact absurd hten.1 (by decide)

def grouped (hex : List Char) : List Char :=
  hex.take 8 ++ '-' :: (hex.drop 8).take 4 ++ '-' :: (hex.drop 12).take 4 ++
    '-' :: (hex.drop 16).take 4 ++ '-' :: hex.drop 20

theorem str_eq_grouped (u : UUID) : str u = String.ofList (grouped (hexDigits 32 u)) := rfl

theorem mem_grouped {hex : List Char} {c : Char} (h : c ∈ grouped hex) : c = '-' ∨ c ∈ hex := by
  have hgroup : ∀ n, c ∈ (hex.drop n).take 4 → c ∈ hex := fun n hn =>
    List.mem_of_mem_drop (List.mem_of_mem_take hn)
  simp only [grouped, List.mem_append, List.mem_cons] at h
  rcases h with (((h | h | h) | h | h) | h | h) | h | h
  · exact Or.inr (List.mem_of_mem_take h)
  · exact Or.inl h
  · exact Or.inr (hgroup _ h)
  · exact Or.inl h
  · exact Or.inr (hgroup _ h)
  · exact Or.inl h
  · exact Or.inr (hgroup _ h)
  · exact Or.inl h
  · exact Or.inr (List.mem_of_mem_drop h)

theorem removeAll_grouped {hex : List Char} (h : '-' ∉ hex) :
    Text.removeAll ['-'] (grouped hex) 0 = hex := by
  have hgroup : ∀ n, (hex.drop n).take 4 ++ hex.drop (n + 4) = hex.drop n := by
    intro n
    rw [← List.drop_drop, List.take_append_drop]
  have hclear : ∀ n, '-' ∉ (hex.drop n).take 4 := fun n hn =>
    h (List.mem_of_mem_drop (List.mem_of_mem_take hn))
  unfold grouped
  simp only [List.append_assoc, List.cons_append]
  rw [removeAll_append_dash fun hn => h (List.mem_of_mem_take hn),
    removeAll_append_dash (hclear _), removeAll_append_dash (hclear _),
    removeAll_append_dash (hclear _), removeAll_of_notMem fun hn => h (List.mem_of_mem_drop hn),
    hgroup 16, hgroup 12, hgroup 8, List.take_append_drop]

theorem all_grouped {P : Char → Prop} (hdash : P '-') (hall : ∀ d : Fin 16, P (Nat.digitChar d))
    {width n : ℕ} {c : Char} (hc : c ∈ grouped (hexDigits width n)) : P c := by
  rcases mem_grouped hc with rfl | hmem
  · exact hdash
  · exact (isHex_of_mem hmem).all hall

theorem ofString_str (py : Python) (u : UUID) : ofString py (str u) = some u := by
  rw [str_eq_grouped]
  have hint := @pyInt_hexDigits py 31 u.val u.isLt
  have hlen := length_hexDigits 32 u
  have hdash : '-' ∉ hexDigits 32 u := fun hmem =>
    (isHex_of_mem hmem).all (P := fun c => c ≠ '-') (by decide) rfl
  have hu : 'u' ∉ grouped (hexDigits 32 u) := fun hmem =>
    all_grouped (P := fun c => c ≠ 'u') (by decide) (by decide) hmem rfl
  have hstrip : Text.stripBy (fun c => c = '\x7b' || c = '\x7d')
      (String.ofList (grouped (hexDigits 32 u))) = String.ofList (grouped (hexDigits 32 u)) :=
    Text.stripBy_ofList fun c hc =>
      all_grouped (P := fun c => (decide (c = '\x7b') || decide (c = '\x7d')) = false)
        (by decide) (by decide) hc
  have hprefixes : Text.removeAll "uuid:".toList
      (Text.removeAll "urn:".toList (String.ofList (grouped (hexDigits 32 u))).toList 0) 0 =
        grouped (hexDigits 32 u) := by
    have hurn : Text.removeAll "urn:".toList (grouped (hexDigits 32 u)) 0 =
        grouped (hexDigits 32 u) := removeAll_of_notMem hu
    rw [@String.toList_ofList (grouped (hexDigits 32 u)), hurn]
    exact removeAll_of_notMem hu
  unfold ofString
  dsimp only
  rw [hprefixes, hstrip, String.toList_ofList, removeAll_grouped hdash,
    if_neg (not_not.mpr hlen), hint]
  exact dif_pos u.isLt

end SiemEngine.Uuid

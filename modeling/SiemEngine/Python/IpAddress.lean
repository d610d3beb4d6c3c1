import Mathlib.Tactic.Tauto
import SiemEngine.Python.Text

/-!
# The `ipaddress` module

`ipAddress` is `ipaddress.ip_address` on a string: the strict dotted quad, else an IPv6
address with an optional `%scope`, which is any text. An address is kept as its octets or
hextets, and `str` prints it as Python 3.12 does, with the longest run of zero hextets
compressed.
-/

namespace SiemEngine

structure IPv4Address where
  octets : List (Fin 256)
  length_eq : octets.length = 4
  deriving DecidableEq

structure IPv6Address where
  hextets : List (Fin 65536)
  length_eq : hextets.length = 8
  scopeId : Option (List Char)
  deriving DecidableEq

inductive IpAddress
  | v4 (a : IPv4Address)
  | v6 (a : IPv6Address)
  deriving DecidableEq

def numeral (ds : List ℕ) : List Char :=
  match ds.dropWhile (· = 0) with
  | [] => ['0']
  | ds => ds.map Nat.digitChar

def joinChars (sep : Char) : List (List Char) → List Char
  | [] => []
  | [cs] => cs
  | cs :: rest => cs ++ sep :: joinChars sep rest

namespace IPv4Address

def parseOctet (cs : List Char) : Option (Fin 256) :=
  if cs = [] ∨ ¬ cs.all Char.isDigit ∨ 3 < cs.length ∨ (cs ≠ ['0'] ∧ cs.head? = some '0') then none
  else
    let n := cs.foldl (fun acc c => acc * 10 + (c.toNat - 48)) 0
    if h : n < 256 then some ⟨n, h⟩ else none

def ofChars (cs : List Char) : Option IPv4Address :=
  if '/' ∈ cs then none
  else ((cs.splitOn '.').mapM parseOctet).bind fun octets =>
    if h : octets.length = 4 then some ⟨octets, h⟩ else none

def octetStr (n : Fin 256) : List Char := numeral [n / 100, n / 10 % 10, n % 10]

def str (a : IPv4Address) : List Char := joinChars '.' (a.octets.map octetStr)

end IPv4Address

namespace IPv6Address

def parseHextet (cs : List Char) : Option (Fin 65536) :=
  if cs = [] ∨ 4 < cs.length then none
  else (cs.mapM (Text.digitVal 16)).bind fun ds =>
    let n := ds.foldl (fun acc d => acc * 16 + d) 0
    if h : n < 65536 then some ⟨n, h⟩ else none

def hex (n : Fin 65536) : List Char := numeral [n / 4096, n / 256 % 16, n / 16 % 16, n % 16]

def expandSuffix (parts : List (List Char)) : Option (List (List Char)) :=
  let last := parts.getLastD []
  if '.' ∈ last then
    (IPv4Address.ofChars last).map fun a =>
      let n := a.octets.foldl (fun acc o => acc * 256 + o.val) 0
      parts.dropLast ++ [hex (Fin.ofNat _ (n / 65536)), hex (Fin.ofNat _ n)]
  else some parts

def layout (parts : List (List Char)) : Option (ℕ × ℕ × ℕ) :=
  let empty (i : ℕ) : Bool := parts[i]? = some []
  let last := parts.length - 1
  match (List.range parts.length).filter fun i => 1 ≤ i && i < last && empty i with
  | [] => if parts.length ≠ 8 ∨ empty 0 ∨ empty last then none else some (8, 0, 0)
  | [i] =>
    let hi := if empty 0 then i - 1 else i
    let lo := if empty last then last - i - 1 else last - i
    if (empty 0 ∧ hi ≠ 0) ∨ (empty last ∧ lo ≠ 0) ∨ 8 < hi + lo + 1 then none
    else some (hi, lo, 8 - (hi + lo))
  | _ => none

/-- `_ip_int_from_string`, as hextets. -/
def hextetsOf (cs : List Char) : Option (List (Fin 65536)) :=
  let parts := cs.splitOn ':'
  if cs = [] ∨ parts.length < 3 then none
  else (expandSuffix parts).bind fun parts =>
    if 9 < parts.length then none
    else (layout parts).bind fun (hi, lo, skipped) =>
      ((parts.take hi).mapM parseHextet).bind fun high =>
        ((parts.drop (parts.length - lo)).mapM parseHextet).map fun low =>
          high ++ List.replicate skipped 0 ++ low

/-- `_split_scope_id`: the address and the text after a single `%`. -/
def splitScopeId (cs : List Char) : Option (List Char × Option (List Char)) :=
  match cs.dropWhile (· ≠ '%') with
  | [] => some (cs, none)
  | _ :: scope =>
    if scope = [] ∨ '%' ∈ scope then none else some (cs.takeWhile (· ≠ '%'), some scope)

def ofChars (cs : List Char) : Option IPv6Address :=
  if '/' ∈ cs then none
  else (splitScopeId cs).bind fun (addr, scope) =>
    (hextetsOf addr).bind fun hextets =>
      if h : hextets.length = 8 then some ⟨hextets, h, scope⟩ else none

/-- The state of the loop that looks for the longest run of zeros. -/
structure Runs where
  bestStart : ℕ := 0
  bestLen : ℕ := 0
  start : Option ℕ := none
  len : ℕ := 0

def Runs.next (r : Runs) (index : ℕ) (hextet : Fin 65536) : Runs :=
  if hextet = 0 then
    let start := r.start.getD index
    let len := r.len + 1
    if r.bestLen < len then ⟨start, len, some start, len⟩
    else { r with start := some start, len := len }
  else { r with start := none, len := 0 }

def compressHextets (hextets : List (Fin 65536)) : List (List Char) :=
  let runs : Runs := hextets.zipIdx.foldl (fun r hi => Runs.next r hi.2 hi.1) {}
  let parts := hextets.map hex
  if runs.bestLen ≤ 1 then parts
  else
    let stop := runs.bestStart + runs.bestLen
    (if runs.bestStart = 0 then [[]] else []) ++ parts.take runs.bestStart ++ [[]] ++
      parts.drop stop ++ (if stop = hextets.length then [[]] else [])

def compressed (a : IPv6Address) : List Char := joinChars ':' (compressHextets a.hextets)

def str (a : IPv6Address) : List Char :=
  a.compressed ++ match a.scopeId with
    | none => []
    | some scope => '%' :: scope

end IPv6Address

namespace IpAddress

def str : IpAddress → List Char
  | .v4 a => a.str
  | .v6 a => a.str

/-- The scope of the address, with the length of what is printed before it. -/
def scoped? : IpAddress → Option (ℕ × List Char)
  | .v4 _ => none
  | .v6 a => a.scopeId.map (Prod.mk a.compressed.length)

def text (a : IpAddress) : String := String.ofList a.str

end IpAddress

/-- `ipaddress.ip_address(text)`, `none` for `ValueError`. -/
def ipAddress (text : String) : Option IpAddress :=
  match IPv4Address.ofChars text.toList with
  | some a => some (.v4 a)
  | none => (IPv6Address.ofChars text.toList).map .v6

theorem digitChar_ne_nul : ∀ d : ℕ, Nat.digitChar d ≠ '\x00'
  | 0 | 1 | 2 | 3 | 4 | 5 | 6 | 7 | 8 | 9 | 10 | 11 | 12 | 13 | 14 | 15 => by decide
  | _ + 16 => by simp [Nat.digitChar]

theorem nul_notMem_numeral (ds : List ℕ) : '\x00' ∉ numeral ds := by
  unfold numeral
  split
  · decide
  · intro h
    obtain ⟨d, -, hd⟩ := List.mem_map.mp h
    exact digitChar_ne_nul d hd

theorem length_numeral_le {ds : List ℕ} (h : ds ≠ []) : (numeral ds).length ≤ ds.length := by
  unfold numeral
  split
  · exact List.length_pos_iff.mpr h
  · rw [List.length_map]
    exact (List.dropWhile_sublist _).length_le

theorem mem_joinChars {sep c : Char} {css : List (List Char)} (h : c ∈ joinChars sep css) :
    c = sep ∨ ∃ cs ∈ css, c ∈ cs := by
  induction css using joinChars.induct with
  | case1 => simp [joinChars] at h
  | case2 cs => exact Or.inr ⟨cs, List.mem_singleton_self cs, h⟩
  | case3 cs rest hne ih =>
    simp only [joinChars, List.mem_append, List.mem_cons] at h
    rcases h with h | rfl | h
    · exact Or.inr ⟨cs, List.mem_cons_self, h⟩
    · exact Or.inl rfl
    · exact (ih h).imp_right fun ⟨ds, hds, hc⟩ => ⟨ds, List.mem_cons_of_mem cs hds, hc⟩

theorem length_joinChars_le (sep : Char) (css : List (List Char)) :
    (joinChars sep css).length ≤ (css.map List.length).sum + css.length := by
  induction css using joinChars.induct with
  | case1 => simp [joinChars]
  | case2 cs => simp [joinChars]
  | case3 cs rest hne ih =>
    simp only [joinChars, List.length_append, List.length_cons, List.map_cons, List.sum_cons]
    omega

theorem sum_length_le {css : List (List Char)} {n : ℕ} (h : ∀ cs ∈ css, cs.length ≤ n) :
    (css.map List.length).sum ≤ css.length * n := by
  induction css with
  | nil => simp
  | cons cs css ih =>
    have hhead := h cs List.mem_cons_self
    have hrest := ih fun ds hds => h ds (List.mem_cons_of_mem cs hds)
    simp only [List.map_cons, List.sum_cons, List.length_cons, Nat.add_mul, Nat.one_mul]
    omega

theorem IPv4Address.length_str_le (a : IPv4Address) : a.str.length ≤ 16 := by
  have hoctets : ∀ cs ∈ a.octets.map octetStr, cs.length ≤ 3 := by
    intro cs hcs
    obtain ⟨n, -, rfl⟩ := List.mem_map.mp hcs
    exact length_numeral_le (List.cons_ne_nil _ _)
  have hsum := sum_length_le hoctets
  have hjoin := length_joinChars_le '.' (a.octets.map octetStr)
  rw [List.length_map, a.length_eq] at hsum hjoin
  unfold str
  omega

theorem IPv4Address.nul_notMem_str (a : IPv4Address) : '\x00' ∉ a.str := by
  intro h
  rcases mem_joinChars h with h | ⟨cs, hcs, h⟩
  · exact absurd h (by decide)
  · obtain ⟨n, -, rfl⟩ := List.mem_map.mp hcs
    exact nul_notMem_numeral _ h

namespace IPv6Address

theorem mem_compressHextets {hextets : List (Fin 65536)} {cs : List Char}
    (h : cs ∈ compressHextets hextets) : cs = [] ∨ ∃ n, cs = hex n := by
  have hhex : ∀ ds ∈ hextets.map hex, ∃ n, ds = hex n := by
    intro ds hds
    obtain ⟨n, -, rfl⟩ := List.mem_map.mp hds
    exact ⟨n, rfl⟩
  unfold compressHextets at h
  dsimp only at h
  generalize (hextets.zipIdx.foldl (fun r hi => Runs.next r hi.2 hi.1) ({} : Runs)) = runs at h
  split_ifs at h
  · exact Or.inr (hhex cs h)
  all_goals
    simp only [List.mem_append, List.mem_singleton, List.not_mem_nil, or_false, false_or] at h
    have htake : cs ∈ (hextets.map hex).take runs.bestStart → ∃ n, cs = hex n :=
      fun h => hhex cs (List.mem_of_mem_take h)
    have hdrop : cs ∈ (hextets.map hex).drop (runs.bestStart + runs.bestLen) → ∃ n, cs = hex n :=
      fun h => hhex cs (List.mem_of_mem_drop h)
    tauto

theorem length_compressed_le (a : IPv6Address) : a.compressed.length ≤ 45 := by
  have hhex (css : List (List Char)) (hcss : css ⊆ a.hextets.map hex) :
      (css.map List.length).sum ≤ css.length * 4 := by
    refine sum_length_le fun cs hcs => ?_
    obtain ⟨n, -, rfl⟩ := List.mem_map.mp (hcss hcs)
    exact length_numeral_le (List.cons_ne_nil _ _)
  have hlen : (a.hextets.map hex).length = 8 := by rw [List.length_map, a.length_eq]
  refine (length_joinChars_le ':' (compressHextets a.hextets)).trans ?_
  unfold compressHextets
  dsimp only
  generalize (a.hextets.zipIdx.foldl (fun r hi => Runs.next r hi.2 hi.1) ({} : Runs)) = runs
  have htake := hhex ((a.hextets.map hex).take runs.bestStart) (List.take_subset _ _)
  have hdrop := hhex ((a.hextets.map hex).drop (runs.bestStart + runs.bestLen))
    (List.drop_subset _ _)
  have hall := hhex (a.hextets.map hex) (List.Subset.refl _)
  rw [List.length_take, hlen] at htake
  rw [List.length_drop, hlen] at hdrop
  rw [hlen] at hall
  split_ifs <;>
    simp only [List.map_append, List.sum_append, List.length_append, List.length_take,
      List.length_drop, hlen, List.map_cons, List.map_nil, List.sum_cons, List.sum_nil,
      List.length_cons, List.length_nil] <;>
    omega

theorem nul_notMem_compressed (a : IPv6Address) : '\x00' ∉ a.compressed := by
  intro h
  rcases mem_joinChars h with h | ⟨cs, hcs, h⟩
  · exact absurd h (by decide)
  · rcases mem_compressHextets hcs with rfl | ⟨n, rfl⟩
    · exact List.not_mem_nil h
    · exact nul_notMem_numeral _ h

end IPv6Address

end SiemEngine

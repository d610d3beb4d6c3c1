import SiemEngine.Python.IpAddress
import SiemEngine.Python.Whitespace

/-!
# Reading back a printed address

`str` of an address is text that `ip_address` accepts, and it reads the same address from
it. The scope of an IPv6 address is printed as it was read, so the statement is about the
addresses whose scope `ip_address` could have read.
-/

namespace SiemEngine

theorem foldl_dropWhile_zero (base : ℕ) (ds : List ℕ) :
    (ds.dropWhile (· = 0)).foldl (fun acc d => acc * base + d) 0 =
      ds.foldl (fun acc d => acc * base + d) 0 := by
  induction ds with
  | nil => rfl
  | cons d ds ih =>
    by_cases h : d = 0
    · rw [List.dropWhile_cons_of_pos (by simpa using h), ih, h, List.foldl_cons, Nat.zero_mul]
    · rw [List.dropWhile_cons_of_neg (by simpa using h)]

theorem mapM_digitVal {ds : List ℕ} (h : ∀ d ∈ ds, d < 16) :
    (ds.map Nat.digitChar).mapM (Text.digitVal 16) = some ds := by
  induction ds with
  | nil => rfl
  | cons d ds ih =>
    rw [List.map_cons, List.mapM_cons, Text.digitVal_digitChar (h d List.mem_cons_self),
      ih fun e he => h e (List.mem_cons_of_mem d he)]
    rfl

theorem numeral_ne_nil (ds : List ℕ) : numeral ds ≠ [] := by
  unfold numeral
  split
  · exact List.cons_ne_nil _ _
  · rename_i hne
    exact fun h => hne (List.map_eq_nil_iff.mp h)

theorem mem_numeral {ds : List ℕ} (h : ∀ d ∈ ds, d < 16) {c : Char} (hc : c ∈ numeral ds) :
    ∃ d < 16, c = Nat.digitChar d := by
  unfold numeral at hc
  split at hc
  · exact ⟨0, by decide, List.mem_singleton.mp hc⟩
  · obtain ⟨d, hd, rfl⟩ := List.mem_map.mp hc
    exact ⟨d, h d ((List.dropWhile_sublist _).subset hd), rfl⟩

theorem exists_of_mem_of_mapM {α β : Type*} {f : α → Option β} {xs : List α} {ys : List β}
    (h : xs.mapM f = some ys) {x : α} (hx : x ∈ xs) : ∃ y, f x = some y := by
  induction xs generalizing ys with
  | nil => exact absurd hx List.not_mem_nil
  | cons z xs ih =>
    rw [List.mapM_cons] at h
    obtain ⟨y, hy, h⟩ := Option.bind_eq_some_iff.mp h
    obtain ⟨ys', hys, -⟩ := Option.bind_eq_some_iff.mp h
    rcases List.mem_cons.mp hx with rfl | hx
    · exact ⟨y, hy⟩
    · exact ih hys hx

theorem joinChars_eq_intercalate (sep : Char) (css : List (List Char)) :
    joinChars sep css = [sep].intercalate css := by
  induction css using joinChars.induct with
  | case1 => rfl
  | case2 cs => simp [joinChars]
  | case3 cs rest hne ih =>
    obtain ⟨ds, rest, rfl⟩ := List.exists_cons_of_ne_nil hne
    rw [joinChars, ih]
    · simp [List.intercalate]
    · exact fun h => hne h

theorem splitOn_joinChars {sep : Char} {css : List (List Char)} (hne : css ≠ [])
    (h : ∀ cs ∈ css, sep ∉ cs) : (joinChars sep css).splitOn sep = css := by
  rw [joinChars_eq_intercalate]
  exact List.splitOn_intercalate sep h hne

theorem sep_mem_joinChars {sep : Char} {css : List (List Char)} (h : 2 ≤ css.length) :
    sep ∈ joinChars sep css := by
  match css, h with
  | _ :: _ :: _, _ => exact List.mem_append_right _ List.mem_cons_self

namespace IPv4Address

theorem parseOctet_octetStr (n : Fin 256) : parseOctet (octetStr n) = some n := by
  have hall : ∀ n : Fin 256, parseOctet (octetStr n) = some n := by decide +kernel
  exact hall n

theorem mapM_parseOctet (octets : List (Fin 256)) :
    (octets.map octetStr).mapM parseOctet = some octets := by
  induction octets with
  | nil => rfl
  | cons n octets ih =>
    rw [List.map_cons, List.mapM_cons, parseOctet_octetStr, ih]
    rfl

theorem ofChars_str (a : IPv4Address) : ofChars a.str = some a := by
  have hdigit : ∀ n : Fin 256, ∀ c ∈ octetStr n, c ≠ '/' ∧ c ≠ '.' := by
    intro n c hc
    obtain ⟨d, hd, rfl⟩ := mem_numeral (by simp; omega) hc
    have hall : ∀ d : Fin 16, Nat.digitChar d ≠ '/' ∧ Nat.digitChar d ≠ '.' := by decide
    exact hall ⟨d, hd⟩
  have hslash : '/' ∉ a.str := by
    intro h
    rcases mem_joinChars h with h | ⟨cs, hcs, h⟩
    · exact absurd h (by decide)
    · obtain ⟨n, -, rfl⟩ := List.mem_map.mp hcs
      exact (hdigit n _ h).1 rfl
  have hsplit : a.str.splitOn '.' = a.octets.map octetStr := by
    refine splitOn_joinChars ?_ fun cs hcs h => ?_
    · rw [Ne, List.map_eq_nil_iff, ← List.length_eq_zero_iff, a.length_eq]
      decide
    · obtain ⟨n, -, rfl⟩ := List.mem_map.mp hcs
      exact (hdigit n _ h).2 rfl
  rw [ofChars, if_neg hslash, hsplit, mapM_parseOctet]
  exact dif_pos a.length_eq

theorem mem_of_ofChars {cs : List Char} {a : IPv4Address} (h : ofChars cs = some a) {c : Char}
    (hc : c ∈ cs) : c = '.' ∨ c.isDigit := by
  unfold ofChars at h
  split_ifs at h
  obtain ⟨octets, hoctets, -⟩ := Option.bind_eq_some_iff.mp h
  have hjoin : joinChars '.' (cs.splitOn '.') = cs := by
    rw [joinChars_eq_intercalate, List.intercalate_splitOn]
  rw [← hjoin] at hc
  refine (mem_joinChars hc).imp_right fun ⟨ds, hds, hc⟩ => ?_
  obtain ⟨n, hn⟩ := exists_of_mem_of_mapM hoctets hds
  unfold parseOctet at hn
  split_ifs at hn with hbad
  simp only [not_or, not_not] at hbad
  exact List.all_eq_true.mp hbad.2.1 c hc

end IPv4Address

namespace IPv6Address

theorem digit_lt (n : Fin 65536) :
    ∀ d ∈ [n.val / 4096, n.val / 256 % 16, n.val / 16 % 16, n.val % 16], d < 16 := by
  have hn := n.isLt
  simp only [List.mem_cons, List.not_mem_nil, or_false, forall_eq_or_imp, forall_eq]
  omega

theorem hex_ne_nil (n : Fin 65536) : hex n ≠ [] := numeral_ne_nil _

theorem parseHextet_hex (n : Fin 65536) : parseHextet (hex n) = some n := by
  have hlen : (hex n).length ≤ 4 := length_numeral_le (List.cons_ne_nil _ _)
  have hparse : ∃ ds, (hex n).mapM (Text.digitVal 16) = some ds ∧
      ds.foldl (fun acc d => acc * 16 + d) 0 = n.val := by
    have hvalue := foldl_dropWhile_zero 16
      [n.val / 4096, n.val / 256 % 16, n.val / 16 % 16, n.val % 16]
    have hsum : [n.val / 4096, n.val / 256 % 16, n.val / 16 % 16, n.val % 16].foldl
        (fun acc d => acc * 16 + d) 0 = n.val := by
      simp only [List.foldl_cons, List.foldl_nil]
      omega
    rw [hsum] at hvalue
    have hlt : ∀ d ∈ [n.val / 4096, n.val / 256 % 16, n.val / 16 % 16, n.val % 16].dropWhile
        (· = 0), d < 16 := fun d hd => digit_lt n d ((List.dropWhile_sublist _).subset hd)
    unfold hex numeral
    split
    · rename_i heq
      rw [heq] at hvalue
      exact ⟨[0], by decide, hvalue⟩
    · exact ⟨_, mapM_digitVal hlt, hvalue⟩
  obtain ⟨ds, hds, hvalue⟩ := hparse
  rw [parseHextet, if_neg (by simp only [hex_ne_nil, false_or]; omega), hds, Option.bind_some,
    hvalue]
  exact dif_pos n.isLt

theorem mapM_parseHextet (hextets : List (Fin 65536)) :
    (hextets.map hex).mapM parseHextet = some hextets := by
  induction hextets with
  | nil => rfl
  | cons n hextets ih =>
    rw [List.map_cons, List.mapM_cons, parseHextet_hex, ih]
    rfl

def ZerosIn (hextets : List (Fin 65536)) (start stop : ℕ) : Prop :=
  ∀ j, start ≤ j → j < stop → ∃ n ∈ hextets[j]?, n.val = 0

/-- What the loop knows before the hextet at `index`. -/
structure Runs.Ok (hextets : List (Fin 65536)) (index : ℕ) (r : Runs) : Prop where
  best_le : r.bestStart + r.bestLen ≤ index
  best : ZerosIn hextets r.bestStart (r.bestStart + r.bestLen)
  current_eq : r.start.getD index + r.len = index
  current : ZerosIn hextets (r.start.getD index) index

theorem Runs.Ok.next {hextets : List (Fin 65536)} {index : ℕ} {r : Runs}
    (h : Runs.Ok hextets index r) {hextet : Fin 65536} (hget : hextets[index]? = some hextet) :
    Runs.Ok hextets (index + 1) (r.next index hextet) := by
  unfold Runs.next
  by_cases hzero : hextet = 0
  · have hrun : ZerosIn hextets (r.start.getD index) (index + 1) := by
      intro j hstart hstop
      rcases Nat.lt_succ_iff_lt_or_eq.mp hstop with hlt | rfl
      · exact h.current j hstart hlt
      · exact ⟨hextet, hget, congrArg Fin.val hzero⟩
    have heq := h.current_eq
    rw [if_pos hzero]
    dsimp only
    split_ifs
    · refine ⟨?_, ?_, ?_, hrun⟩
      · dsimp only
        omega
      · dsimp only
        rwa [← Nat.add_assoc, heq]
      · dsimp only [Option.getD_some]
        omega
    · refine ⟨h.best_le.trans (Nat.le_succ _), h.best, ?_, hrun⟩
      dsimp only [Option.getD_some]
      omega
  · rw [if_neg hzero]
    refine ⟨h.best_le.trans (Nat.le_succ _), h.best, rfl, ?_⟩
    exact fun j hstart hstop => absurd hstop (Nat.not_lt.mpr hstart)

theorem Runs.Ok.foldl {hextets rest : List (Fin 65536)} {index : ℕ} {r : Runs}
    (h : Runs.Ok hextets index r) (hrest : hextets.drop index = rest) :
    Runs.Ok hextets (index + rest.length)
      ((rest.zipIdx index).foldl (fun r hi => Runs.next r hi.2 hi.1) r) := by
  induction rest generalizing index r with
  | nil => exact h
  | cons hextet rest ih =>
    have hget : hextets[index]? = some hextet := by
      rw [← List.head?_drop, hrest, List.head?_cons]
    have htail : hextets.drop (index + 1) = rest := by
      rw [← List.tail_drop, hrest, List.tail_cons]
    have hstep := ih (h.next hget) htail
    rw [List.zipIdx_cons, List.foldl_cons, List.length_cons, Nat.add_comm rest.length,
      ← Nat.add_assoc]
    exact hstep

theorem runs_ok (hextets : List (Fin 65536)) :
    Runs.Ok hextets hextets.length
      (hextets.zipIdx.foldl (fun r hi => Runs.next r hi.2 hi.1) ({} : Runs)) := by
  have hstart : Runs.Ok hextets 0 {} :=
    ⟨Nat.le_refl _, fun _ _ hlt => absurd hlt (Nat.not_lt_zero _), rfl,
      fun _ _ hlt => absurd hlt (Nat.not_lt_zero _)⟩
  have hend := hstart.foldl rfl
  rwa [Nat.zero_add] at hend

theorem ZerosIn.split {hextets : List (Fin 65536)} {start len : ℕ}
    (h : ZerosIn hextets start (start + len)) :
    hextets = hextets.take start ++ List.replicate len 0 ++ hextets.drop (start + len) := by
  have hmiddle : (hextets.drop start).take len = List.replicate len 0 := by
    refine List.ext_getElem? fun i => ?_
    rw [List.getElem?_take, List.getElem?_drop, List.getElem?_replicate]
    split_ifs with hi
    · obtain ⟨n, hn, hzero⟩ := h (start + i) (by omega) (by omega)
      rw [Option.mem_def.mp hn, Option.some.injEq]
      exact Fin.ext hzero
    · rfl
  rw [← hmiddle, List.append_assoc, ← List.drop_drop, List.take_append_drop,
    List.take_append_drop]

def around (front back : List (List Char)) : List (List Char) :=
  (if front = [] then [[]] else []) ++ front ++ [[]] ++ back ++ (if back = [] then [[]] else [])

theorem length_around (front back : List (List Char)) :
    3 ≤ (around front back).length ∧
      (around front back).length ≤ front.length + back.length + 3 := by
  have hfront : front = [] ↔ front.length = 0 := List.length_eq_zero_iff.symm
  have hback : back = [] ↔ back.length = 0 := List.length_eq_zero_iff.symm
  unfold around
  split_ifs with h h' h' <;>
    rw [hfront] at h <;> rw [hback] at h' <;>
    simp only [List.length_append, List.length_cons, List.length_nil] <;>
    omega

theorem take_around (front back : List (List Char)) :
    (around front back).take front.length = front := by
  unfold around
  split_ifs with h
  · rw [h, List.length_nil, List.take_zero]
  · rw [h, List.length_nil, List.take_zero]
  all_goals simp only [List.nil_append, List.append_assoc, List.take_left]

theorem drop_around (front back : List (List Char)) :
    (around front back).drop ((around front back).length - back.length) = back := by
  unfold around
  split_ifs with h h' h'
  · rw [h', List.length_nil, Nat.sub_zero, List.drop_length]
  · rw [List.append_nil, List.length_append, Nat.add_sub_cancel, List.drop_left]
  · rw [h', List.length_nil, Nat.sub_zero, List.drop_length]
  · rw [List.append_nil, List.length_append, Nat.add_sub_cancel, List.drop_left]

def mask (cs : List Char) : List Char := if cs = [] then [] else ['0']

theorem mask_eq_nil {cs : List Char} : mask cs = [] ↔ cs = [] := by
  unfold mask
  split_ifs with h <;> simp [h]

theorem layout_map_mask (parts : List (List Char)) : layout (parts.map mask) = layout parts := by
  have hempty : ∀ i : ℕ, (parts.map mask)[i]? = some [] ↔ parts[i]? = some [] := by
    intro i
    rw [List.getElem?_map]
    cases parts[i]? with
    | none => rfl
    | some cs => rw [Option.map_some, Option.some.injEq, Option.some.injEq, mask_eq_nil]
  unfold layout
  simp only [List.length_map, hempty]

theorem map_mask_of_ne_nil {parts : List (List Char)} (h : ∀ cs ∈ parts, cs ≠ []) :
    parts.map mask = List.replicate parts.length ['0'] := by
  refine List.eq_replicate_iff.mpr ⟨List.length_map _, fun cs hcs => ?_⟩
  obtain ⟨ds, hds, rfl⟩ := List.mem_map.mp hcs
  exact if_neg (h ds hds)

theorem layout_full {parts : List (List Char)} (h : ∀ cs ∈ parts, cs ≠ [])
    (hlen : parts.length = 8) : layout parts = some (8, 0, 0) := by
  rw [← layout_map_mask, map_mask_of_ne_nil h, hlen]
  decide

theorem layout_around {front back : List (List Char)} (hfront : ∀ cs ∈ front, cs ≠ [])
    (hback : ∀ cs ∈ back, cs ≠ []) (hle : front.length + back.length ≤ 7) :
    layout (around front back) =
      some (front.length, back.length, 8 - (front.length + back.length)) := by
  have hmap : (around front back).map mask =
      around (List.replicate front.length ['0']) (List.replicate back.length ['0']) := by
    rw [← map_mask_of_ne_nil hfront, ← map_mask_of_ne_nil hback]
    unfold around
    simp only [List.map_append, List.map_eq_nil_iff, apply_ite (List.map mask), List.map_cons,
      List.map_nil]
    rfl
  have hall : ∀ f : Fin 8, ∀ b : Fin 8, f.val + b.val ≤ 7 →
      layout (around (List.replicate f ['0']) (List.replicate b ['0'])) =
        some (f.val, b.val, 8 - (f.val + b.val)) := by
    decide +kernel
  rw [← layout_map_mask, hmap]
  exact hall ⟨front.length, by omega⟩ ⟨back.length, by omega⟩ hle

theorem compressHextets_eq (hextets : List (Fin 65536)) (hlen : hextets.length = 8) :
    compressHextets hextets = hextets.map hex ∨
      ∃ front back skipped, 1 < skipped ∧ hextets = front ++ List.replicate skipped 0 ++ back ∧
        compressHextets hextets = around (front.map hex) (back.map hex) := by
  have hruns := runs_ok hextets
  unfold compressHextets
  dsimp only
  generalize hextets.zipIdx.foldl (fun r hi => Runs.next r hi.2 hi.1) ({} : Runs) = runs at hruns ⊢
  by_cases hshort : runs.bestLen ≤ 1
  · exact Or.inl (if_pos hshort)
  · have hle := hruns.best_le
    refine Or.inr ⟨hextets.take runs.bestStart, hextets.drop (runs.bestStart + runs.bestLen),
      runs.bestLen, by omega, hruns.best.split, ?_⟩
    have hfront : hextets.take runs.bestStart = [] ↔ runs.bestStart = 0 := by
      rw [← List.length_eq_zero_iff, List.length_take]
      omega
    have hback : hextets.drop (runs.bestStart + runs.bestLen) = [] ↔
        runs.bestStart + runs.bestLen = hextets.length := by
      rw [← List.length_eq_zero_iff, List.length_drop]
      omega
    rw [if_neg hshort]
    simp only [around, List.map_eq_nil_iff, hfront, hback]
    rw [List.map_take, List.map_drop]

theorem mem_hex {n : Fin 65536} {c : Char} (h : c ∈ hex n) : ∃ d < 16, c = Nat.digitChar d :=
  mem_numeral (digit_lt n) h

theorem mem_compressed {a : IPv6Address} {c : Char} (h : c ∈ a.compressed) :
    c = ':' ∨ ∃ d < 16, c = Nat.digitChar d := by
  refine (mem_joinChars h).imp_right fun ⟨cs, hcs, hc⟩ => ?_
  rcases mem_compressHextets hcs with rfl | ⟨n, rfl⟩
  · exact absurd hc List.not_mem_nil
  · exact mem_hex hc

theorem notMem_compressHextets {c : Char} (hc : ∀ d : Fin 16, Nat.digitChar d ≠ c)
    {hextets : List (Fin 65536)} {cs : List Char} (h : cs ∈ compressHextets hextets) : c ∉ cs := by
  intro hmem
  rcases mem_compressHextets h with rfl | ⟨n, rfl⟩
  · exact List.not_mem_nil hmem
  · obtain ⟨d, hd, rfl⟩ := mem_hex hmem
    exact hc ⟨d, hd⟩ rfl

theorem compressHextets_length {hextets : List (Fin 65536)} (hlen : hextets.length = 8) :
    3 ≤ (compressHextets hextets).length ∧ (compressHextets hextets).length ≤ 9 := by
  rcases compressHextets_eq hextets hlen with heq | ⟨front, back, skipped, hskip, hsplit, heq⟩
  · rw [heq, List.length_map, hlen]
    decide
  · have htotal := congrArg List.length hsplit
    have hbounds := length_around (front.map hex) (back.map hex)
    rw [heq]
    simp only [List.length_append, List.length_replicate, List.length_map] at htotal hbounds
    omega

theorem hextetsOf_compressed (a : IPv6Address) : hextetsOf a.compressed = some a.hextets := by
  have hlen := a.length_eq
  have hlength := compressHextets_length hlen
  have hsplit : a.compressed.splitOn ':' = compressHextets a.hextets := by
    refine splitOn_joinChars ?_ fun cs hcs => notMem_compressHextets (by decide) hcs
    exact List.length_pos_iff.mp (by omega)
  have hne : a.compressed ≠ [] := by
    intro hnil
    rw [hnil] at hsplit
    rw [← hsplit] at hlength
    exact absurd hlength.1 (by decide)
  have hsuffix : expandSuffix (compressHextets a.hextets) = some (compressHextets a.hextets) := by
    refine if_neg ?_
    rw [List.getLastD_eq_getLast?]
    cases hlast : (compressHextets a.hextets).getLast? with
    | none => exact List.not_mem_nil
    | some cs => exact notMem_compressHextets (by decide) (List.mem_of_getLast? hlast)
  rw [hextetsOf, hsplit, if_neg (by simp only [hne, false_or]; omega), hsuffix, Option.bind_some,
    if_neg (by omega)]
  have hnonempty : ∀ hextets : List (Fin 65536), ∀ cs ∈ hextets.map hex, cs ≠ [] := by
    intro hextets cs hcs
    obtain ⟨n, -, rfl⟩ := List.mem_map.mp hcs
    exact hex_ne_nil n
  rcases compressHextets_eq a.hextets hlen with heq | ⟨front, back, skipped, hskip, hhextets, heq⟩
  · have hfull : (a.hextets.map hex).length = 8 := by rw [List.length_map, hlen]
    rw [heq, layout_full (hnonempty a.hextets) hfull, Option.bind_some]
    dsimp only
    rw [Nat.sub_zero, List.drop_length, List.take_of_length_le hfull.le, mapM_parseHextet]
    simp
  · have htotal := congrArg List.length hhextets
    simp only [List.length_append, List.length_replicate, hlen] at htotal
    have hlayout := layout_around (hnonempty front) (hnonempty back) (by simp; omega)
    have htake := take_around (front.map hex) (back.map hex)
    have hdrop := drop_around (front.map hex) (back.map hex)
    rw [heq, hlayout, Option.bind_some]
    dsimp only
    rw [htake, hdrop, mapM_parseHextet, mapM_parseHextet]
    simp only [List.length_map, Option.bind_some, Option.map_some, Option.some.injEq]
    rw [hhextets]
    congr
    omega

theorem splitScopeId_of_notMem {cs scope : List Char} (h : '%' ∉ cs) (hne : scope ≠ [])
    (hscope : '%' ∉ scope) : splitScopeId (cs ++ '%' :: scope) = some (cs, some scope) := by
  have hpos : ∀ c ∈ cs, decide (c ≠ '%') = true := fun c hc =>
    decide_eq_true fun heq => h (heq ▸ hc)
  have hdrop : (cs ++ '%' :: scope).dropWhile (· ≠ '%') = '%' :: scope := by
    rw [List.dropWhile_append_of_pos hpos]
    rfl
  have htake : (cs ++ '%' :: scope).takeWhile (· ≠ '%') = cs := by
    rw [List.takeWhile_append_of_pos hpos, List.takeWhile_cons_of_neg (by decide), List.append_nil]
  unfold splitScopeId
  rw [hdrop, htake]
  exact if_neg (not_or.mpr ⟨hne, hscope⟩)

theorem ofChars_str {a : IPv6Address}
    (h : ∀ scope ∈ a.scopeId, scope ≠ [] ∧ '%' ∉ scope ∧ '/' ∉ scope) : ofChars a.str = some a := by
  have hnot : ∀ c ∈ a.compressed, c ≠ '%' ∧ c ≠ '/' := by
    intro c hc
    rcases mem_compressed hc with rfl | ⟨d, hd, rfl⟩
    · decide
    · have hall : ∀ d : Fin 16, Nat.digitChar d ≠ '%' ∧ Nat.digitChar d ≠ '/' := by decide
      exact hall ⟨d, hd⟩
  have hsplit : splitScopeId a.str = some (a.compressed, a.scopeId) := by
    unfold str
    cases hscope : a.scopeId with
    | none =>
      have hdrop : a.compressed.dropWhile (· ≠ '%') = [] :=
        List.dropWhile_eq_nil_iff.mpr fun c hc => decide_eq_true (hnot c hc).1
      dsimp only
      rw [List.append_nil, splitScopeId, hdrop]
    | some scope =>
      obtain ⟨hne, hpercent, -⟩ := h scope hscope
      exact splitScopeId_of_notMem (fun hc => (hnot _ hc).1 rfl) hne hpercent
  have hslash : '/' ∉ a.str := by
    unfold str
    cases hscope : a.scopeId with
    | none => simpa using fun hc => (hnot _ hc).2 rfl
    | some scope =>
      have hnotScope := (h scope hscope).2.2
      simpa [hnotScope] using fun hc => (hnot _ hc).2 rfl
  rw [ofChars, if_neg hslash, hsplit, Option.bind_some]
  dsimp only
  rw [hextetsOf_compressed, Option.bind_some]
  exact dif_pos a.length_eq

theorem scopeId_of_ofChars {cs : List Char} {a : IPv6Address} (h : ofChars cs = some a) :
    ∀ scope ∈ a.scopeId, scope ≠ [] ∧ '%' ∉ scope ∧ '/' ∉ scope ∧ scope <:+ cs := by
  unfold ofChars at h
  split_ifs at h with hslash
  obtain ⟨⟨addr, scope?⟩, hsplit, h⟩ := Option.bind_eq_some_iff.mp h
  obtain ⟨hextets, -, h⟩ := Option.bind_eq_some_iff.mp h
  split_ifs at h
  cases h
  intro scope hscope
  cases Option.mem_def.mp hscope
  have hsuffix := List.dropWhile_suffix (l := cs) (· ≠ '%')
  unfold splitScopeId at hsplit
  cases hdrop : cs.dropWhile (· ≠ '%') with
  | nil =>
    rw [hdrop] at hsplit
    cases hsplit
  | cons c rest =>
    rw [hdrop] at hsplit hsuffix
    dsimp only at hsplit
    split_ifs at hsplit with hbad
    have hrest : rest <:+ cs := (List.suffix_cons c rest).trans hsuffix
    cases hsplit
    rw [not_or] at hbad
    exact ⟨hbad.1, hbad.2, fun hmem => hslash (hrest.subset hmem), hrest⟩

end IPv6Address

theorem ofChars_of_ipAddress {text : String} {a : IPv6Address}
    (h : ipAddress text = some (.v6 a)) : IPv6Address.ofChars text.toList = some a := by
  unfold ipAddress at h
  cases hv4 : IPv4Address.ofChars text.toList with
  | some b =>
    rw [hv4] at h
    cases h
  | none =>
    rw [hv4] at h
    obtain ⟨b, hb, hab⟩ := Option.map_eq_some_iff.mp h
    cases hab
    exact hb

theorem ipAddress_text {text : String} {a : IpAddress} (h : ipAddress text = some a) :
    ipAddress a.text = some a := by
  unfold ipAddress IpAddress.text
  rw [String.toList_ofList]
  cases a with
  | v4 a =>
    have hread : IPv4Address.ofChars (IpAddress.v4 a).str = some a := IPv4Address.ofChars_str a
    rw [hread]
  | v6 a =>
    have hscope : ∀ scope ∈ a.scopeId, scope ≠ [] ∧ '%' ∉ scope ∧ '/' ∉ scope := by
      intro scope hmem
      obtain ⟨hne, hpercent, hslash, -⟩ :=
        IPv6Address.scopeId_of_ofChars (ofChars_of_ipAddress h) scope hmem
      exact ⟨hne, hpercent, hslash⟩
    have hcolon : ':' ∈ a.str := by
      have hlength := IPv6Address.compressHextets_length a.length_eq
      exact List.mem_append_left _ (sep_mem_joinChars (by omega))
    have hv4 : IPv4Address.ofChars (IpAddress.v6 a).str = none := by
      refine Option.eq_none_iff_forall_ne_some.mpr fun b hb => ?_
      exact absurd (IPv4Address.mem_of_ofChars hb hcolon) (by decide)
    have hread : IPv6Address.ofChars (IpAddress.v6 a).str = some a :=
      IPv6Address.ofChars_str hscope
    rw [hv4, hread]
    rfl

theorem isSpace_digitChar {d : ℕ} (h : d < 16) : Text.isSpace (Nat.digitChar d) = false := by
  have hall : ∀ d : Fin 16, Text.isSpace (Nat.digitChar d) = false := by decide
  exact hall ⟨d, h⟩

theorem IPv4Address.isSpace_of_mem_str {a : IPv4Address} {c : Char} (h : c ∈ a.str) :
    Text.isSpace c = false := by
  rcases mem_joinChars h with rfl | ⟨cs, hcs, hc⟩
  · decide
  · obtain ⟨n, -, rfl⟩ := List.mem_map.mp hcs
    obtain ⟨d, hd, rfl⟩ := mem_numeral (by simp; omega) hc
    exact isSpace_digitChar hd

theorem IPv6Address.isSpace_of_mem_compressed {a : IPv6Address} {c : Char}
    (h : c ∈ a.compressed) : Text.isSpace c = false := by
  rcases mem_compressed h with rfl | ⟨d, hd, rfl⟩
  · decide
  · exact isSpace_digitChar hd

theorem strip_text {text : String} {a : IpAddress} (h : ipAddress text = some a)
    (htext : Text.strip text = text) : Text.strip a.text = a.text := by
  obtain ⟨-, hlast⟩ := Text.stripBy_eq_self_iff.mp htext
  unfold IpAddress.text
  cases a with
  | v4 a => exact Text.stripBy_ofList fun c hc => IPv4Address.isSpace_of_mem_str hc
  | v6 a =>
    refine Text.stripBy_eq_self_iff.mpr ?_
    rw [String.toList_ofList]
    have hne : a.compressed ≠ [] := by
      have hlength := IPv6Address.compressHextets_length a.length_eq
      exact List.ne_nil_of_mem (@sep_mem_joinChars ':' _ (by omega))
    change (∀ c ∈ a.str.head?, _) ∧ ∀ c ∈ a.str.getLast?, _
    unfold IPv6Address.str
    constructor
    · intro c hc
      rw [List.head?_append_of_ne_nil _ hne] at hc
      exact IPv6Address.isSpace_of_mem_compressed (List.mem_of_mem_head? hc)
    · intro c hc
      cases hscope : a.scopeId with
      | none =>
        rw [hscope] at hc
        dsimp only at hc
        rw [List.append_nil] at hc
        exact IPv6Address.isSpace_of_mem_compressed (List.mem_of_mem_getLast? hc)
      | some scope =>
        obtain ⟨hnonempty, -, -, front, hfront⟩ :=
          IPv6Address.scopeId_of_ofChars (ofChars_of_ipAddress h) scope hscope
        rw [hscope] at hc
        refine hlast c ?_
        rw [← hfront, List.getLast?_append_of_ne_nil _ hnonempty]
        rwa [List.getLast?_append_of_ne_nil _ (List.cons_ne_nil _ _),
          List.getLast?_cons_of_ne_nil hnonempty] at hc

theorem text_ne {text : String} {a : IpAddress} (h : ipAddress text = some a) :
    a.text ≠ "" ∧ a.text ≠ "-" := by
  have hread := ipAddress_text h
  have hempty : ipAddress "" = none := by decide +kernel
  have hdash : ipAddress "-" = none := by decide +kernel
  constructor
  · intro heq
    rw [heq, hempty] at hread
    cases hread
  · intro heq
    rw [heq, hdash] at hread
    cases hread

end SiemEngine

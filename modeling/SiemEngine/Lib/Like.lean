import Mathlib.Data.List.Infix

/-!
# Wildcard patterns

A pattern is a text with two wildcards, one for any text and one for any character, and an
escape that takes the next character literally. Characters are compared after `fold`, a map
that forgets what the comparison ignores. `contains_iff` says for which texts the pattern
made of a text between two wildcards means that the text occurs.
-/

namespace Like

inductive Token (α : Type*)
  | many
  | one
  | char (c : α)

structure Wildcards (α : Type*) where
  many : α
  one : α
  escape : α

section

variable {α β : Type*} [DecidableEq β] (fold : α → β)

def accepts : List (Token α) → List α → Bool
  | [], s => s.isEmpty
  | .many :: p, s => s.tails.any fun t => accepts p t
  | .one :: p, s => match s with
    | [] => false
    | _ :: t => accepts p t
  | .char c :: p, s => match s with
    | [] => false
    | d :: t => fold d = fold c && accepts p t

def shortest (filler : α) : List (Token α) → List α
  | [] => []
  | .many :: p => shortest filler p
  | .one :: p => filler :: shortest filler p
  | .char c :: p => c :: shortest filler p

variable {fold}

theorem accepts_many_iff {p : List (Token α)} {s : List α} :
    accepts fold (.many :: p) s ↔ ∃ t, t <:+ s ∧ accepts fold p t := by
  simp only [accepts, List.any_eq_true, List.mem_tails]

theorem accepts_chars_iff {w s : List α} :
    accepts fold (w.map .char ++ [.many]) s ↔ w.map fold <+: s.map fold := by
  induction w generalizing s with
  | nil => exact iff_of_true (accepts_many_iff.mpr ⟨[], List.nil_suffix, rfl⟩) List.nil_prefix
  | cons c w ih =>
    cases s with
    | nil => simp [accepts]
    | cons d s =>
      have hstep : accepts fold ((c :: w).map .char ++ [.many]) (d :: s) =
          (fold d = fold c && accepts fold (w.map .char ++ [.many]) s) := rfl
      rw [hstep, List.map_cons, List.map_cons, List.cons_prefix_cons, ← ih, Bool.and_eq_true,
        decide_eq_true_eq, eq_comm]

theorem accepts_infix_iff {w s : List α} :
    accepts fold (.many :: (w.map .char ++ [.many])) s ↔ w.map fold <:+: s.map fold := by
  rw [accepts_many_iff, List.infix_iff_prefix_suffix]
  constructor
  · rintro ⟨t, ht, haccepts⟩
    exact ⟨t.map fold, accepts_chars_iff.mp haccepts, ht.map fold⟩
  · rintro ⟨t, hprefix, hsuffix⟩
    obtain ⟨t, ht, rfl⟩ := List.suffix_map_iff.mp hsuffix
    exact ⟨t, ht, accepts_chars_iff.mpr hprefix⟩

theorem accepts_shortest (filler : α) (p : List (Token α)) :
    accepts fold p (shortest filler p) = true := by
  induction p with
  | nil => rfl
  | cons token p ih =>
    cases token with
    | many => exact accepts_many_iff.mpr ⟨_, List.suffix_refl _, ih⟩
    | one => exact ih
    | char c => simp [shortest, accepts, ih]

end

variable {α β : Type*} [DecidableEq α] [DecidableEq β] (x : Wildcards α)

def Plain (w : List α) : Prop := ∀ c ∈ w, c ≠ x.many ∧ c ≠ x.one ∧ c ≠ x.escape

instance (w : List α) : Decidable (Plain x w) :=
  inferInstanceAs (Decidable (∀ c ∈ w, c ≠ x.many ∧ c ≠ x.one ∧ c ≠ x.escape))

def token (c : α) : Token α := if c = x.many then .many else if c = x.one then .one else .char c

/-- The tokens of a pattern, `none` when it ends with the escape. -/
def tokens : List α → Option (List (Token α))
  | [] => some []
  | c :: w =>
    if c = x.escape then
      match w with
      | [] => none
      | d :: w => (tokens w).map (.char d :: ·)
    else (tokens w).map (token x c :: ·)

def like (fold : α → β) (pattern s : List α) : Bool :=
  match tokens x pattern with
  | none => false
  | some p => accepts fold p s

variable {x} {fold : α → β}

theorem tokens_cons {c : α} (h : c ≠ x.escape) (w : List α) :
    tokens x (c :: w) = (tokens x w).map (token x c :: ·) := by
  cases w <;> simp [tokens, h]

theorem tokens_escape (d : α) (w : List α) :
    tokens x (x.escape :: d :: w) = (tokens x w).map (.char d :: ·) := by
  simp [tokens]

theorem tokens_many (h : x.many ≠ x.escape) : tokens x [x.many] = some [.many] := by
  rw [tokens_cons h, tokens, token, if_pos rfl]
  rfl

theorem tokens_append_of_plain {w : List α} (h : Plain x w) (rest : List α) :
    tokens x (w ++ rest) = (tokens x rest).map (w.map .char ++ ·) := by
  induction w with
  | nil => simp
  | cons c w ih =>
    obtain ⟨⟨hmany, hone, hescape⟩, hw⟩ := List.forall_mem_cons.mp h
    have htoken : token x c = .char c := by rw [token, if_neg hmany, if_neg hone]
    rw [List.cons_append, tokens_cons hescape, ih hw, htoken, Option.map_map]
    rfl

omit [DecidableEq β] in
/-- A shortest accepted text that repeats the pattern repeats its first character, which is
then no wildcard. -/
theorem char_of_shortest {filler c : α} {w : List α} {p : List (Token α)}
    (hone : fold filler ≠ fold x.one) (hlength : (shortest filler p).length ≤ w.length)
    (h : (shortest filler (token x c :: p)).map fold = (c :: w).map fold) :
    c ≠ x.many ∧ c ≠ x.one ∧ (shortest filler p).map fold = w.map fold := by
  have hmany : c ≠ x.many := by
    intro hcm
    have hsame := congrArg List.length h
    rw [token, if_pos hcm] at hsame
    simp only [shortest, List.length_map, List.length_cons] at hsame
    omega
  rw [token, if_neg hmany] at h
  by_cases hco : c = x.one
  · rw [if_pos hco, shortest, List.map_cons, List.map_cons, List.cons.injEq, hco] at h
    exact absurd h.1 hone
  · rw [if_neg hco, shortest, List.map_cons, List.map_cons, List.cons.injEq] at h
    exact ⟨hmany, hco, h.2⟩

omit [DecidableEq β] in
theorem shortest_of_tokens {filler : α} (hone : fold filler ≠ fold x.one)
    (hmany : fold x.many ≠ fold x.escape) (w : List α) :
    ∃ p, tokens x (w ++ [x.many]) = some p ∧ (shortest filler p).length ≤ w.length ∧
      ((shortest filler p).map fold = w.map fold → Plain x w) := by
  have hescape : x.many ≠ x.escape := fun h => hmany (congrArg fold h)
  induction w using tokens.induct x with
  | case1 =>
    refine ⟨[.many], tokens_many hescape, Nat.le_refl _, fun _ c hc => ?_⟩
    exact absurd hc List.not_mem_nil
  | case2 =>
    refine ⟨[.char x.many], tokens_escape _ _, Nat.le_refl _, fun heq => ?_⟩
    rw [shortest, List.map_cons, List.map_cons, List.cons.injEq] at heq
    exact absurd heq.1 hmany
  | case3 d w ih =>
    -- the escaped character is accepted, so the text is longer than what it stands for
    obtain ⟨p, hp, hlength, -⟩ := ih
    refine ⟨.char d :: p, ?_, ?_, fun heq => ?_⟩
    · rw [List.cons_append, List.cons_append, tokens_escape, hp]
      rfl
    · simp only [shortest, List.length_cons]
      omega
    · have hsame := congrArg List.length heq
      simp only [shortest, List.length_map, List.length_cons] at hsame
      omega
  | case4 c w hc ih =>
    obtain ⟨p, hp, hlength, hplain⟩ := ih
    refine ⟨token x c :: p, ?_, ?_, fun heq => ?_⟩
    · rw [List.cons_append, tokens_cons hc, hp]
      rfl
    · unfold token
      split_ifs <;> simp only [shortest, List.length_cons] <;> omega
    · obtain ⟨hcmany, hcone, htail⟩ := char_of_shortest hone hlength heq
      exact List.forall_mem_cons.mpr ⟨⟨hcmany, hcone, hc⟩, hplain htail⟩

/-- The pattern means that the text occurs exactly when the text is plain. -/
theorem contains_iff {filler : α} (hone : fold filler ≠ fold x.one)
    (hmany : fold x.many ≠ fold x.escape) (w : List α) :
    (∀ s, like x fold (x.many :: w ++ [x.many]) s ↔ w.map fold <:+: s.map fold) ↔ Plain x w := by
  have hescape : x.many ≠ x.escape := fun h => hmany (congrArg fold h)
  obtain ⟨p, hp, hlength, hplain⟩ := shortest_of_tokens hone hmany w
  have htokens : tokens x (x.many :: w ++ [x.many]) = some (.many :: p) := by
    rw [List.cons_append, tokens_cons hescape, hp, token, if_pos rfl]
    rfl
  have hlike : ∀ s, like x fold (x.many :: w ++ [x.many]) s = accepts fold (.many :: p) s := by
    intro s
    rw [like, htokens]
  simp only [hlike]
  constructor
  · intro h
    have haccepts : accepts fold (.many :: p) (shortest filler p) = true :=
      accepts_many_iff.mpr ⟨_, List.suffix_refl _, accepts_shortest filler p⟩
    have hoccurs := (h _).mp haccepts
    refine hplain (hoccurs.eq_of_length_le ?_).symm
    rwa [List.length_map, List.length_map]
  · intro h s
    have hchars : p = w.map .char ++ [.many] := by
      rw [tokens_append_of_plain h, tokens_many hescape] at hp
      exact (Option.some.inj hp).symm
    rw [hchars]
    exact accepts_infix_iff

end Like

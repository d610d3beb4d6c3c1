import Mathlib.Data.List.Basic

/-!
# Rolling buffers

A buffer of bounded size that drops its oldest entry when a new one would not fit. What it
holds is the end of everything that was put into it.
-/

namespace Rolling

variable {α β : Type*} {size m n : ℕ} {xs : List α} {x : α}

def latest (size : ℕ) (xs : List α) : List α := xs.drop (xs.length - size)

def push (size : ℕ) (buffer : List α) (x : α) : List α :=
  let longer := buffer ++ [x]
  if size < longer.length then longer.tail else longer

@[simp] theorem length_latest (size : ℕ) (xs : List α) :
    (latest size xs).length = min xs.length size := by
  rw [latest, List.length_drop]
  omega

@[simp] theorem latest_nil (size : ℕ) : latest size ([] : List α) = [] := List.drop_nil

theorem latest_of_le (h : xs.length ≤ size) : latest size xs = xs := by
  rw [latest, Nat.sub_eq_zero_of_le h, List.drop_zero]

theorem push_latest (size : ℕ) (xs : List α) (x : α) :
    push size (latest size xs) x = latest size (xs ++ [x]) := by
  rw [push]
  simp only [List.length_append, length_latest, List.length_singleton]
  split_ifs with h
  · have hdrop : xs.length - size + 1 = xs.length + 1 - size := by omega
    rw [latest, latest, List.length_append, List.length_singleton, ← List.drop_one,
      ← List.drop_append_of_le_length (Nat.sub_le _ _), List.drop_drop, hdrop]
  · rw [latest_of_le (by omega), latest_of_le]
    rw [List.length_append, List.length_singleton]
    omega

theorem reverse_latest (size : ℕ) (xs : List α) :
    (latest size xs).reverse = xs.reverse.take size := by
  rw [latest, List.reverse_drop]
  rcases Nat.le_total xs.length size with h | h
  · rw [Nat.sub_eq_zero_of_le h, Nat.sub_zero, List.take_of_length_le (by simp),
      List.take_of_length_le (by simpa using h)]
  · rw [Nat.sub_sub_self h]

theorem take_cons_reverse_latest (size : ℕ) (xs : List α) (x : α) :
    (x :: (latest size xs).reverse).take size = (latest size (xs ++ [x])).reverse := by
  rw [reverse_latest, reverse_latest, List.reverse_append, List.reverse_singleton,
    List.singleton_append]
  cases size with
  | zero => rfl
  | succ size => simp only [List.take_succ_cons, List.take_take, Nat.min_eq_left (Nat.le_succ size)]

theorem dropLast_latest_concat (size : ℕ) (xs : List α) (x : α) :
    (latest size (xs ++ [x])).dropLast = latest (size - 1) xs := by
  cases size with
  | zero => simp [latest]
  | succ size =>
    rw [latest, latest, List.length_append, List.length_singleton,
      List.drop_append_of_le_length (by omega), List.dropLast_concat]
    congr 1
    omega

theorem latest_map (f : α → β) (size : ℕ) (xs : List α) :
    latest size (xs.map f) = (latest size xs).map f := by
  rw [latest, latest, List.length_map, List.map_drop]

end Rolling

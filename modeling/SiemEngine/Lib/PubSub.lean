import Mathlib.Algebra.Order.Group.Nat
import Mathlib.Data.List.Basic
import SiemEngine.Lib.Run

/-!
# Publish and subscribe

A broker hands every message to those who are subscribed to its topic when it is published,
and keeps nothing. Subscribers come, take their messages one by one and go in any order. A
subscriber has taken a part, from the front, of what was published on its topics since it came,
and what it has not taken yet waits in its inbox.
-/

namespace PubSub

variable {κ μ : Type*} [DecidableEq κ]

structure Subscriber (κ μ : Type*) where
  topics : List κ
  live : Bool := true
  inbox : List (κ × μ) := []
  taken : List (κ × μ) := []
  since : ℕ

structure Broker (κ μ : Type*) where
  published : List (κ × μ) := []
  subscribers : List (Subscriber κ μ) := []

inductive Act (κ μ : Type*)
  | subscribe (topics : List κ)
  | publish (message : κ × μ)
  | take (i : ℕ)
  | leave (i : ℕ)

def Subscriber.receive (message : κ × μ) (s : Subscriber κ μ) : Subscriber κ μ :=
  if s.live ∧ message.1 ∈ s.topics then { s with inbox := s.inbox ++ [message] } else s

def Subscriber.take (s : Subscriber κ μ) : Subscriber κ μ :=
  match s.inbox with
  | message :: rest =>
    if s.live then { s with inbox := rest, taken := s.taken ++ [message] } else s
  | [] => s

def Subscriber.leave (s : Subscriber κ μ) : Subscriber κ μ := { s with live := false, inbox := [] }

def step (b : Broker κ μ) : Act κ μ → Broker κ μ
  | .subscribe topics =>
    { b with subscribers := b.subscribers ++ [{ topics, since := b.published.length }] }
  | .publish message =>
    { published := b.published ++ [message]
      subscribers := b.subscribers.map (Subscriber.receive message) }
  | .take i => { b with subscribers := b.subscribers.modify i Subscriber.take }
  | .leave i => { b with subscribers := b.subscribers.modify i Subscriber.leave }

/-- What a subscriber is to get of the messages since it came. -/
def Subscriber.due (published : List (κ × μ)) (s : Subscriber κ μ) : List (κ × μ) :=
  (published.drop s.since).filter fun message => message.1 ∈ s.topics

structure Subscriber.Served (published : List (κ × μ)) (s : Subscriber κ μ) : Prop where
  since : s.since ≤ published.length
  live : s.live = true → s.taken ++ s.inbox = s.due published
  gone : s.taken <+: s.due published

section

variable {published : List (κ × μ)} {s : Subscriber κ μ} {message : κ × μ}

theorem due_publish (message : κ × μ) (h : s.since ≤ published.length) :
    s.due (published ++ [message]) =
      s.due published ++ if message.1 ∈ s.topics then [message] else [] := by
  rw [Subscriber.due, Subscriber.due, List.drop_append_of_le_length h, List.filter_append,
    List.filter_singleton]
  by_cases hmem : message.1 ∈ s.topics
  · simp [hmem]
  · simp [hmem]

theorem served_receive (h : s.Served published) :
    (s.receive message).Served (published ++ [message]) := by
  have hdue := due_publish message h.since
  have hsince : s.since ≤ (published ++ [message]).length :=
    h.since.trans (by rw [List.length_append]; exact Nat.le_add_right _ _)
  have hgone : s.taken <+: s.due (published ++ [message]) :=
    h.gone.trans (hdue ▸ List.prefix_append _ _)
  rw [Subscriber.receive]
  split_ifs with hget
  · refine ⟨hsince, fun hlive => ?_, hgone⟩
    change s.taken ++ (s.inbox ++ [message]) = s.due (published ++ [message])
    rw [hdue, if_pos hget.2, ← h.live hlive, List.append_assoc]
  · refine ⟨hsince, fun hlive => ?_, hgone⟩
    rw [hdue, if_neg fun hmem => hget ⟨hlive, hmem⟩, List.append_nil]
    exact h.live hlive

theorem served_take (h : s.Served published) : s.take.Served published := by
  rw [Subscriber.take]
  cases hinbox : s.inbox with
  | nil => exact h
  | cons message rest =>
    dsimp only
    split_ifs with hlive
    · have hdue := h.live hlive
      rw [hinbox] at hdue
      have hsplit : (s.taken ++ [message]) ++ rest = s.due published := by
        rw [List.append_assoc, List.singleton_append, hdue]
      exact ⟨h.since, fun _ => hsplit, hsplit ▸ List.prefix_append _ _⟩
    · exact h

theorem served_leave (h : s.Served published) : s.leave.Served published :=
  ⟨h.since, fun hlive => absurd hlive Bool.false_ne_true, h.gone⟩

end

def Broker.Served (b : Broker κ μ) : Prop := ∀ s ∈ b.subscribers, s.Served b.published

theorem forall_mem_modify {α : Type*} {P : α → Prop} {f : α → α} {l : List α} (i : ℕ)
    (hl : ∀ a ∈ l, P a) (hf : ∀ a, P a → P (f a)) : ∀ a ∈ l.modify i f, P a := by
  intro a ha
  rw [List.mem_iff_getElem?] at ha
  obtain ⟨j, hj⟩ := ha
  rw [List.getElem?_modify] at hj
  obtain ⟨b, hb, rfl⟩ := Option.map_eq_some_iff.mp hj
  have hmem := hl b (List.mem_of_getElem? hb)
  split_ifs
  · exact hf b hmem
  · exact hmem

theorem served_step (b : Broker κ μ) (a : Act κ μ) (h : b.Served) : (step b a).Served := by
  cases a with
  | subscribe topics =>
    refine List.forall_mem_append.mpr ⟨h, List.forall_mem_singleton.mpr ⟨le_rfl, fun _ => ?_,
      List.nil_prefix⟩⟩
    change [] = (b.published.drop b.published.length).filter _
    rw [List.drop_length]
    rfl
  | publish message =>
    intro s' hs'
    obtain ⟨s, hs, rfl⟩ := List.mem_map.mp hs'
    exact served_receive (h s hs)
  | take i => exact forall_mem_modify i h fun s hs => served_take hs
  | leave i => exact forall_mem_modify i h fun s hs => served_leave hs

end PubSub

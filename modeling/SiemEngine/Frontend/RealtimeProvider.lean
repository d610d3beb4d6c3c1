import Mathlib.Data.List.Nodup
import SiemEngine.Lib.Run

/-!
# The live stream of the dashboard

The provider keeps the displayed events in React state and the events that arrive while the
stream is paused in a mutable ref. State updates wait in a queue until the component renders;
an updater passed to `setEvents` is executed at once only when no other update is waiting, and
need not be even then. Merging on resume reads the ref when it is executed, the handler clears
the ref before it returns. The events received since the list was last cleared, newest first,
are recorded for the statements only.
-/

namespace SiemEngine.RealtimeProvider

def maxEvents : ℕ := 250

/-- A queued state update: of `paused`, of `eventCount`, of the events by an updater, with an
updater that has been executed already, or of any other state of the component. -/
inductive Update (ε : Type*)
  | paused (v : Bool)
  | count
  | prepend (e : ε)
  | merge
  | computed (events : List ε)
  | other

structure Shown (ε : Type*) where
  events : List ε := []
  paused : Bool := false
  eventCount : ℕ := 0

structure Provider (ε : Type*) where
  shown : Shown ε := {}
  queue : List (Update ε) := []
  pausedRef : Bool := false
  bufferRef : List ε := []
  received : List ε := []

inductive Act (ε : Type*)
  | message (e : ε)
  | setPaused (v eager : Bool)
  | clear
  | update
  | render

variable {ε : Type*}

def Update.apply (buffer : List ε) (s : Shown ε) : Update ε → Shown ε
  | .paused v => { s with paused := v }
  | .count => { s with eventCount := s.eventCount + 1 }
  | .prepend e => { s with events := (e :: s.events).take maxEvents }
  | .merge => { s with events := (buffer ++ s.events).take maxEvents }
  | .computed events => { s with events }
  | .other => s

def flush (buffer : List ε) (queue : List (Update ε)) (s : Shown ε) : Shown ε :=
  queue.foldl (Update.apply buffer) s

namespace Provider

def next (s : Provider ε) : Shown ε := flush s.bufferRef s.queue s.shown

def render (s : Provider ε) : Provider ε :=
  { s with shown := s.next, queue := [], pausedRef := s.next.paused }

def onMessage (s : Provider ε) (e : ε) : Provider ε :=
  let counted := { s with queue := s.queue ++ [Update.count], received := e :: s.received }
  if s.pausedRef then { counted with bufferRef := (e :: s.bufferRef).take maxEvents }
  else { counted with queue := counted.queue ++ [Update.prepend e] }

/-- The queue after `setPausedState`, which skips the current value when nothing waits. -/
def pausing (s : Provider ε) (v : Bool) : List (Update ε) :=
  if s.queue.isEmpty && s.shown.paused = v then [] else s.queue ++ [.paused v]

/-- The updater of a resume is executed before the buffer is cleared only if it is eager. -/
def setPaused (s : Provider ε) (v eager : Bool) : Provider ε :=
  if v || s.bufferRef.isEmpty then { s with queue := s.pausing v }
  else
    let updater : Update ε :=
      if (s.pausing v).isEmpty && eager then
        .computed ((s.bufferRef ++ s.shown.events).take maxEvents)
      else .merge
    { s with queue := s.pausing v ++ [updater], bufferRef := [] }

def clearEvents (s : Provider ε) : Provider ε :=
  { s with queue := s.queue ++ [.computed []], bufferRef := [], received := [] }

def step (s : Provider ε) : Act ε → Provider ε
  | .message e => s.onMessage e
  | .setPaused v eager => s.setPaused v eager
  | .clear => s.clearEvents
  | .update => { s with queue := s.queue ++ [.other] }
  | .render => s.render

/-- Rendered without a pause in force, the provider displays the newest of the received
events. -/
def Transparent (s : Provider ε) : Prop :=
  s.render.shown.paused = false → s.render.shown.events = s.received.take maxEvents

/-- No resume finds an event in the buffer, and none is buffered once a resume waits to be
rendered. -/
def Allowed (s : Provider ε) : Act ε → Prop
  | .message _ => s.pausedRef = true → s.next.paused = true
  | .setPaused v _ => v = false → s.bufferRef = []
  | .clear => True
  | .update => True
  | .render => True

theorem take_take (xs : List ε) : (xs.take maxEvents).take maxEvents = xs.take maxEvents := by
  rw [List.take_take, Nat.min_self]

theorem take_cons_take (e : ε) (xs : List ε) :
    (e :: xs.take maxEvents).take maxEvents = (e :: xs).take maxEvents := by
  have hlt : maxEvents = 249 + 1 := rfl
  rw [hlt, List.take_succ_cons, List.take_succ_cons, List.take_take]
  rfl

theorem take_eq_nil {xs : List ε} (h : xs.take maxEvents = []) : xs = [] := by
  rcases List.take_eq_nil_iff.mp h with h | h
  · exact absurd h (by decide)
  · exact h

theorem take_append_ne {xs ys : List ε} (hd : (xs ++ ys).Nodup) (hx : xs ≠ []) :
    ys.take maxEvents ≠ (xs ++ ys).take maxEvents := by
  intro heq
  obtain ⟨x, xs, rfl⟩ := List.exists_cons_of_ne_nil hx
  have hmem : x ∈ ((x :: xs) ++ ys).take maxEvents := by
    have hlt : maxEvents = 249 + 1 := rfl
    rw [hlt, List.cons_append, List.take_succ_cons]
    exact List.mem_cons_self
  rw [← heq] at hmem
  exact List.disjoint_of_nodup_append hd List.mem_cons_self (List.mem_of_mem_take hmem)

theorem flush_concat (buffer : List ε) (queue : List (Update ε)) (u : Update ε) (s : Shown ε) :
    flush buffer (queue ++ [u]) s = u.apply buffer (flush buffer queue s) := by
  rw [flush, List.foldl_append]
  rfl

theorem flush_congr {queue : List (Update ε)} (h : .merge ∉ queue) (buffer buffer' : List ε)
    (s : Shown ε) : flush buffer queue s = flush buffer' queue s := by
  induction queue generalizing s with
  | nil => rfl
  | cons u queue ih =>
    rw [List.mem_cons, not_or] at h
    have happly : u.apply buffer s = u.apply buffer' s := by
      cases u with
      | merge => exact absurd rfl h.1
      | _ => rfl
    rw [flush, List.foldl_cons, happly]
    exact ih h.2 (u.apply buffer' s)

/-- The received events are those in the buffer and older ones, which are to be displayed; the
buffer is empty unless a pause is in force and stays so. -/
structure Invariant (s : Provider ε) : Prop where
  split : ∃ newer older, s.received = newer ++ older ∧ s.bufferRef = newer.take maxEvents ∧
    s.next.events = older.take maxEvents
  buffering : s.bufferRef ≠ [] → s.pausedRef = true ∧ s.next.paused = true
  unmerged : .merge ∉ s.queue

section

variable {s : Provider ε}

theorem Invariant.transparent (h : s.Invariant) : s.Transparent := by
  intro hpaused
  obtain ⟨newer, older, hreceived, hbuffer, hnext⟩ := h.split
  have hempty : s.bufferRef = [] := by
    by_contra hne
    exact Bool.noConfusion ((h.buffering hne).2.symm.trans hpaused)
  obtain rfl := take_eq_nil (hbuffer.symm.trans hempty)
  exact hnext.trans (by rw [hreceived, List.nil_append])

theorem invariant_render (h : s.Invariant) : s.render.Invariant where
  split := h.split
  buffering hne := ⟨(h.buffering hne).2, (h.buffering hne).2⟩
  unmerged := List.not_mem_nil

theorem invariant_update (h : s.Invariant) : (s.step .update).Invariant := by
  have hnext : (s.step .update).next = s.next := flush_concat s.bufferRef s.queue .other s.shown
  refine ⟨by rw [hnext]; exact h.split, by rw [hnext]; exact h.buffering, fun hmem => ?_⟩
  rcases List.mem_append.mp hmem with hold | hnew
  · exact h.unmerged hold
  · cases List.mem_singleton.mp hnew

theorem invariant_clear (h : s.Invariant) : (s.step .clear).Invariant := by
  have hnext : (s.step .clear).next.events = [] :=
    congrArg Shown.events (flush_concat [] s.queue (.computed []) s.shown)
  refine ⟨⟨[], [], rfl, rfl, hnext⟩, fun hne => absurd rfl hne, fun hmem => ?_⟩
  rcases List.mem_append.mp hmem with hold | hnew
  · exact h.unmerged hold
  · cases List.mem_singleton.mp hnew

theorem onMessage_paused (h : s.Invariant) (hp : s.pausedRef = true) (e : ε) :
    (s.onMessage e).bufferRef = (e :: s.bufferRef).take maxEvents ∧
      (s.onMessage e).next.events = s.next.events ∧
      (s.onMessage e).next.paused = s.next.paused := by
  have hstep : s.onMessage e = { s with
      queue := s.queue ++ [Update.count]
      received := e :: s.received
      bufferRef := (e :: s.bufferRef).take maxEvents } := if_pos hp
  have hnext : (s.onMessage e).next =
      Update.apply ((e :: s.bufferRef).take maxEvents) s.next .count := by
    rw [hstep, next, flush_concat, flush_congr h.unmerged _ s.bufferRef]
    rfl
  rw [hnext]
  exact ⟨by rw [hstep], rfl, rfl⟩

theorem onMessage_live (hp : s.pausedRef = false) (e : ε) :
    (s.onMessage e).bufferRef = s.bufferRef ∧
      (s.onMessage e).next.events = (e :: s.next.events).take maxEvents ∧
      (s.onMessage e).next.paused = s.next.paused := by
  have hstep : s.onMessage e = { s with
      queue := s.queue ++ [Update.count] ++ [Update.prepend e]
      received := e :: s.received } := if_neg (by simp [hp])
  have hnext : (s.onMessage e).next = Update.apply s.bufferRef
      (Update.apply s.bufferRef s.next .count) (.prepend e) := by
    rw [hstep, next, flush_concat, flush_concat]
    rfl
  rw [hnext]
  exact ⟨by rw [hstep], rfl, rfl⟩

theorem received_onMessage (s : Provider ε) (e : ε) :
    (s.onMessage e).received = e :: s.received ∧ (s.onMessage e).pausedRef = s.pausedRef ∧
      (.merge ∈ (s.onMessage e).queue → .merge ∈ s.queue) := by
  unfold onMessage
  dsimp only
  split_ifs <;> simp

theorem invariant_message (h : s.Invariant) {e : ε} (ha : s.Allowed (.message e)) :
    (s.step (.message e)).Invariant := by
  obtain ⟨newer, older, hreceived, hbuffer, hevents⟩ := h.split
  obtain ⟨hreceived', href, hmerge⟩ := received_onMessage s e
  change (s.onMessage e).Invariant
  cases hp : s.pausedRef with
  | true =>
    obtain ⟨hbuffer', hevents', hpaused⟩ := onMessage_paused h hp e
    refine ⟨⟨e :: newer, older, ?_, ?_, hevents'.trans hevents⟩, fun _ => ?_,
      fun hmem => h.unmerged (hmerge hmem)⟩
    · rw [hreceived', hreceived, List.cons_append]
    · rw [hbuffer', hbuffer, take_cons_take]
    · exact ⟨href.trans hp, hpaused.trans (ha hp)⟩
  | false =>
    obtain ⟨hbuffer', hevents', -⟩ := onMessage_live hp e
    have hempty : s.bufferRef = [] := by
      by_contra hne
      exact Bool.noConfusion ((h.buffering hne).1.symm.trans hp)
    obtain rfl := take_eq_nil (hbuffer.symm.trans hempty)
    refine ⟨⟨[], e :: older, ?_, hbuffer'.trans hbuffer, ?_⟩,
      fun hne => absurd (hbuffer'.trans hempty) hne, fun hmem => h.unmerged (hmerge hmem)⟩
    · rw [hreceived', hreceived]
      rfl
    · rw [hevents', hevents, take_cons_take]

theorem flush_pausing (s : Provider ε) (v : Bool) :
    flush s.bufferRef (s.pausing v) s.shown = { s.next with paused := v } := by
  unfold pausing
  split_ifs with hskip
  · obtain ⟨hqueue, hv⟩ := Bool.and_eq_true_iff.mp hskip
    rw [next, List.isEmpty_iff.mp hqueue, ← of_decide_eq_true hv]
    rfl
  · rw [flush_concat]
    rfl

theorem unmerged_pausing (h : .merge ∉ s.queue) (v : Bool) : .merge ∉ s.pausing v := by
  unfold pausing
  split_ifs
  · exact List.not_mem_nil
  · simpa using h

theorem setPaused_plain {v : Bool} (hplain : v = false → s.bufferRef = []) (eager : Bool) :
    s.setPaused v eager = { s with queue := s.pausing v } := by
  refine if_pos ?_
  cases v with
  | true => rfl
  | false => simp [hplain rfl]

theorem invariant_setPaused (h : s.Invariant) {v eager : Bool}
    (ha : s.Allowed (.setPaused v eager)) : (s.step (.setPaused v eager)).Invariant := by
  change (s.setPaused v eager).Invariant
  have hstep := setPaused_plain (s := s) ha eager
  have hnext : (s.setPaused v eager).next = { s.next with paused := v } := by
    rw [hstep]
    exact flush_pausing s v
  refine ⟨?_, fun hne => ?_, ?_⟩
  · rw [hnext, hstep]
    exact h.split
  · rw [hnext]
    rw [hstep] at hne ⊢
    refine ⟨(h.buffering hne).1, ?_⟩
    cases v with
    | true => rfl
    | false => exact absurd (ha rfl) hne
  · rw [hstep]
    exact unmerged_pausing h.unmerged v

/-- A resume that finds events in the buffer discards them: its updater waits, since the
update of `paused` waits before it, and reads the buffer that the handler has cleared. -/
theorem resume_discards (h : s.Invariant) (hne : s.bufferRef ≠ []) (eager : Bool) :
    (s.setPaused false eager).next.paused = false ∧
      (s.setPaused false eager).next.events = s.next.events.take maxEvents ∧
      (s.setPaused false eager).received = s.received := by
  have hwaits : (s.pausing false).isEmpty = false := by
    unfold pausing
    split_ifs with hskip
    · obtain ⟨hqueue, hv⟩ := Bool.and_eq_true_iff.mp hskip
      have hpaused : s.next.paused = s.shown.paused := by
        rw [next, List.isEmpty_iff.mp hqueue]
        rfl
      exact absurd ((h.buffering hne).2.symm.trans (hpaused.trans (of_decide_eq_true hv)))
        (by decide)
    · simp
  have hfilled : ¬ (false || s.bufferRef.isEmpty) = true := by simpa using hne
  have hstep : s.setPaused false eager =
      { s with queue := s.pausing false ++ [.merge], bufferRef := [] } := by
    have hlazy : ¬ ((s.pausing false).isEmpty && eager) = true := by simp [hwaits]
    unfold setPaused
    rw [if_neg hfilled]
    simp only [if_neg hlazy]
  have hnext : (s.setPaused false eager).next =
      Update.apply [] { s.next with paused := false } .merge := by
    rw [hstep, next, flush_concat, flush_congr (unmerged_pausing h.unmerged false) [] s.bufferRef,
      flush_pausing]
  rw [hnext]
  exact ⟨rfl, rfl, by rw [hstep]⟩

theorem invariant_step (a : Act ε) (h : s.Invariant) (ha : s.Allowed a) :
    (s.step a).Invariant := by
  cases a with
  | message e => exact invariant_message h ha
  | setPaused v eager => exact invariant_setPaused h ha
  | clear => exact invariant_clear h
  | update => exact invariant_update h
  | render => exact invariant_render h

def messages : List (Act ε) → List ε
  | [] => []
  | .message e :: as => e :: messages as
  | .setPaused .. :: as => messages as
  | .clear :: as => messages as
  | .update :: as => messages as
  | .render :: as => messages as

theorem allowed_of_transparent (a : Act ε) (h : s.Invariant) (hd : (s.step a).received.Nodup)
    (ht : (s.step a).Transparent) : s.Allowed a := by
  obtain ⟨newer, older, hreceived, hbuffer, hevents⟩ := h.split
  cases a with
  | message e =>
    intro hp
    by_contra hresumed
    obtain ⟨-, hevents', hpaused'⟩ := onMessage_paused h hp e
    have hreceived' : (s.onMessage e).received = (e :: newer) ++ older := by
      rw [(received_onMessage s e).1, hreceived, List.cons_append]
    have hshown : (s.onMessage e).next.events = (s.onMessage e).received.take maxEvents :=
      ht (hpaused'.trans (Bool.eq_false_iff.mpr hresumed))
    rw [hevents', hevents, hreceived'] at hshown
    exact take_append_ne (hreceived' ▸ hd) (List.cons_ne_nil e newer) hshown
  | setPaused v eager =>
    intro hv
    subst hv
    by_contra hne
    obtain ⟨hpaused, hevents', hreceived'⟩ := resume_discards h hne eager
    have hshown : (s.setPaused false eager).next.events =
        (s.setPaused false eager).received.take maxEvents := ht hpaused
    rw [hevents', hreceived', hevents, take_take, hreceived] at hshown
    have hnewer : newer ≠ [] := fun hnil => hne (by rw [hbuffer, hnil, List.take_nil])
    have hd' : (s.setPaused false eager).received.Nodup := hd
    rw [hreceived', hreceived] at hd'
    exact take_append_ne hd' hnewer hshown
  | clear => trivial
  | update => trivial
  | render => trivial

end

theorem received_step (s : Provider ε) (a : Act ε) :
    (s.step a).received = if a matches .clear then [] else messages [a] ++ s.received := by
  cases a with
  | message e => exact (received_onMessage s e).1
  | setPaused v eager =>
    change (s.setPaused v eager).received = s.received
    unfold setPaused
    split_ifs <;> rfl
  | clear => rfl
  | update => rfl
  | render => rfl

theorem guarded_of_holds {s : Provider ε} {as : List (Act ε)} (h : s.Invariant)
    (hd : (messages as ++ s.received).Nodup) (ht : Run.Holds step Transparent s as) :
    Run.Guarded step Allowed s as := by
  induction as generalizing s with
  | nil => trivial
  | cons a as ih =>
    have hsplit : messages (a :: as) = messages [a] ++ messages as := by cases a <;> rfl
    have hd' : (messages as ++ (s.step a).received).Nodup := by
      rw [hsplit] at hd
      have hall := (List.perm_append_comm.append_right s.received).nodup_iff.mp hd
      rw [List.append_assoc] at hall
      rw [received_step]
      split_ifs
      · rw [List.append_nil]
        exact List.Nodup.of_append_left hall
      · exact hall
    have hallowed : s.Allowed a :=
      allowed_of_transparent a h (List.Nodup.of_append_right hd') ht.2.head
    exact ⟨hallowed, ih (invariant_step a h hallowed) hd' ht.2⟩

end Provider

open Provider

/-- Pausing is transparent along every run, with clears or without, in which no resume finds
events in the buffer and none is buffered once a resume waits to be rendered. Where the messages
are distinct there is no other such run. -/
theorem pausing_transparent_iff (as : List (Act ε)) :
    (Run.Guarded step Allowed ({} : Provider ε) as →
        Run.Holds step Transparent ({} : Provider ε) as) ∧
      ((messages as).Nodup →
        (Run.Holds step Transparent ({} : Provider ε) as ↔
          Run.Guarded step Allowed ({} : Provider ε) as)) := by
  have hstart : ({} : Provider ε).Invariant :=
    ⟨⟨[], [], rfl, rfl, rfl⟩, fun h => absurd rfl h, List.not_mem_nil⟩
  have hholds : Run.Guarded step Allowed ({} : Provider ε) as →
      Run.Holds step Transparent ({} : Provider ε) as := fun hg =>
    (Run.holds_of_guarded (fun _ a h ha => invariant_step a h ha) hstart hg).mono
      fun _ h => h.transparent
  refine ⟨hholds, fun hd => ⟨guarded_of_holds hstart ?_, hholds⟩⟩
  rwa [List.append_nil]

/-- An event that arrives while the stream is paused is not displayed after the resume. -/
theorem paused_event_discarded :
    let as : List (Act ℕ) := [.setPaused true true, .render, .message 7, .setPaused false true,
      .render]
    let s := Run.exec step ({} : Provider ℕ) as
    s.shown.paused = false ∧ s.queue.isEmpty ∧ s.received = [7] ∧ s.shown.events = [] ∧
      ¬ Run.Holds step Transparent ({} : Provider ℕ) as := by
  intro as s
  refine ⟨rfl, rfl, rfl, rfl, fun h => ?_⟩
  have hlast : s.render.shown.events = s.received.take maxEvents := h.last rfl
  exact List.cons_ne_nil _ _ hlast.symm

end SiemEngine.RealtimeProvider

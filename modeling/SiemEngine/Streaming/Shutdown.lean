import SiemEngine.Streaming.Worker

/-!
# Shutdown of the worker

The worker loop again, cut at its await points so that a signal can come at any of them.
There are two stop flags. The signal sets the worker's, which `run` reads when `batches`
yields a batch. `batches` itself loops on the consumer's, which `EventConsumer.stop` sets
after the loop was left. The `getmany` calls and the batches begun after the signal are
counted for the statements only.
-/

namespace SiemEngine.Shutdown

open Worker (Turn Topic getmany)

inductive Phase
  | starting
  | polling
  | reconnecting
  | processing (c : Call) (commits : Bool)
  | committing (commits : Bool)
  | pausing
  | left

structure Loop where
  worker : Worker.State
  phase : Phase := .starting
  stop : Bool := false
  stopping : Bool := false
  lateCalls : ℕ := 0
  lateBatches : ℕ := 0

/-- How a `getmany` call ends: with records, with a `KafkaConnectionError`, or with another
exception. -/
inductive Poll
  | fetched (t : Turn)
  | connectionError
  | raised

inductive Act
  | signal
  | polled (p : Poll)
  | resumed
  | expire

namespace Loop

/-- The `finally` of `run`. -/
def leave (s : Loop) : Loop := { s with phase := .left, stop := true, stopping := true }

/-- The head of the loop in `batches`. -/
def poll (s : Loop) : Loop :=
  if s.stopping then s.leave
  else { s with phase := .polling, lateCalls := s.lateCalls + if s.stop then 1 else 0 }

def process (s : Loop) (c : Call) (commits : Bool) : Loop :=
  { s with
    phase := .processing c commits
    lateBatches := s.lateBatches + if s.stop then 1 else 0 }

/-- `batches` with the records of a call, and the body of `run` when it yields some. -/
def fetch (topic : Topic) (s : Loop) (t : Turn) : Loop :=
  let records := t.records topic s.worker.position
  let moved := { s with
    worker := { s.worker with position := (getmany topic s.worker.position t.chunks).2 } }
  if records.isEmpty then moved.poll
  else if s.stop then moved.leave
  else { moved with worker := { moved.worker with yielded := s.worker.yielded ++ records } }.process
    (t.call topic s.worker.position) t.commits

def finish (cfg : Config) (s : Loop) (c : Call) (commits : Bool) : Loop :=
  let out := s.worker.pipeline.processBatch cfg c
  { s with
    worker := { s.worker with pipeline := out.1 }
    phase := if out.2 then .pausing else .committing commits }

def commit (s : Loop) (commits : Bool) : Loop :=
  if commits then { s with worker := { s.worker with committed := s.worker.position } }.poll
  else { s with phase := .pausing }

def receive (topic : Topic) (s : Loop) : Poll → Loop
  | .fetched t => s.fetch topic t
  | .connectionError => { s with phase := .reconnecting }
  | .raised => s.leave

def resume (cfg : Config) (s : Loop) : Loop :=
  match s.phase with
  | .starting | .reconnecting | .pausing => s.poll
  | .processing c commits => s.finish cfg c commits
  | .committing commits => s.commit commits
  | .polling | .left => s

end Loop

def step (cfg : Config) (topic : Topic) (s : Loop) : Act → Loop
  | .signal => { s with stop := true }
  | .polled p => match s.phase with
    | .polling => s.receive topic p
    | _ => s
  | .resumed => s.resume cfg
  | .expire => { s with worker := Worker.step cfg topic s.worker .expire }

def start (pipeline : Pipeline) (position : ℕ → ℕ) : Loop where
  worker := Worker.start pipeline position

/-- At most one `getmany` call and no batch begins after the signal. -/
def Loop.Prompt (s : Loop) : Prop := s.lateCalls ≤ 1 ∧ s.lateBatches = 0

/-- What the one call made after the signal needs: records that decode, or an exception that
is not a connection error. -/
def Answered (topic : Topic) (s : Loop) : Act → Prop
  | .signal | .expire => True
  | .polled p => ∀ t, s.phase = .polling → s.lateCalls = 1 → p = .fetched t →
      t.records topic s.worker.position ≠ []
  | .resumed => s.phase = .reconnecting → s.lateCalls ≠ 1

def Phase.Idle : Phase → Prop
  | .polling | .reconnecting | .left => True
  | .starting | .processing _ _ | .committing _ | .pausing => False

structure Loop.Invariant (s : Loop) : Prop where
  prompt : s.Prompt
  late : 0 < s.lateCalls → s.stop = true ∧ s.phase.Idle
  running : s.phase ≠ .left → s.stopping = false

section

variable {cfg : Config} {topic : Topic} {s : Loop} {t : Turn}

theorem poll_of_running (h : s.stopping = false) : s.poll =
    { s with phase := .polling, lateCalls := s.lateCalls + if s.stop then 1 else 0 } := by
  rw [Loop.poll, h, if_neg Bool.false_ne_true]

theorem lateCalls_poll (h : s.stopping = false) :
    s.poll.lateCalls = s.lateCalls + if s.stop then 1 else 0 := by
  rw [poll_of_running h]

theorem resume_cases (cfg : Config) (s : Loop) :
    ((s.phase = .starting ∨ s.phase = .reconnecting ∨ s.phase = .pausing) ∧
        s.resume cfg = s.poll) ∨
      (∃ c commits, s.phase = .processing c commits ∧ s.resume cfg = s.finish cfg c commits) ∨
      (∃ commits, s.phase = .committing commits ∧ s.resume cfg = s.commit commits) ∨
      s.resume cfg = s := by
  unfold Loop.resume
  cases hphase : s.phase with
  | starting => exact Or.inl ⟨Or.inl rfl, rfl⟩
  | reconnecting => exact Or.inl ⟨Or.inr (Or.inl rfl), rfl⟩
  | pausing => exact Or.inl ⟨Or.inr (Or.inr rfl), rfl⟩
  | processing c commits => exact Or.inr (Or.inl ⟨c, commits, rfl, rfl⟩)
  | committing commits => exact Or.inr (Or.inr (Or.inl ⟨commits, rfl, rfl⟩))
  | polling | left => exact Or.inr (Or.inr (Or.inr rfl))

theorem lateCalls_fetch_of_empty (h : t.records topic s.worker.position = [])
    (hrunning : s.stopping = false) :
    (s.fetch topic t).lateCalls = s.lateCalls + if s.stop then 1 else 0 := by
  simp only [Loop.fetch, h, List.isEmpty_nil, if_true]
  exact lateCalls_poll hrunning

namespace Loop.Invariant

theorem stopping_eq_false (hI : s.Invariant) {phase : Phase} (h : s.phase = phase)
    (hleft : phase ≠ .left) : s.stopping = false :=
  hI.running (h ▸ hleft)

theorem lateCalls_eq_zero (hI : s.Invariant) {phase : Phase} (h : s.phase = phase)
    (hidle : ¬ phase.Idle) : s.lateCalls = 0 := by
  by_contra hne
  exact hidle (h ▸ (hI.late (Nat.pos_of_ne_zero hne)).2)

theorem of_lateCalls_eq_zero (hbatches : s.lateBatches = 0) (hcalls : s.lateCalls = 0)
    (hrunning : s.stopping = false) : s.Invariant :=
  ⟨⟨by omega, hbatches⟩, fun hlate => absurd hcalls (Nat.pos_iff_ne_zero.mp hlate),
    fun _ => hrunning⟩

theorem leave (hI : s.Invariant) : s.leave.Invariant :=
  ⟨hI.prompt, fun _ => ⟨rfl, trivial⟩, fun h => absurd rfl h⟩

theorem poll (hrunning : s.stopping = false) (hcalls : s.lateCalls = 0)
    (hbatches : s.lateBatches = 0) : s.poll.Invariant := by
  rw [poll_of_running hrunning]
  refine ⟨⟨?_, hbatches⟩, fun hlate => ⟨?_, trivial⟩, fun _ => hrunning⟩
  · dsimp only
    split_ifs <;> omega
  · dsimp only at hlate
    split_ifs at hlate with hstop
    · exact hstop
    · omega

theorem fetch (hI : s.Invariant) (hpolling : s.phase = .polling)
    (hg : s.lateCalls = 1 → t.records topic s.worker.position ≠ []) :
    (s.fetch topic t).Invariant := by
  have hrunning := hI.stopping_eq_false hpolling nofun
  simp only [Loop.fetch]
  split_ifs with hempty hstop
  · have hcalls : s.lateCalls ≠ 1 := fun h => hg h (List.isEmpty_iff.mp hempty)
    have hle := hI.prompt.1
    exact poll hrunning (by dsimp only; omega) hI.prompt.2
  · exact ⟨hI.prompt, fun _ => ⟨rfl, trivial⟩, fun h => absurd rfl h⟩
  · -- without a signal no call was late, and this batch is not either
    have hcalls : s.lateCalls = 0 := by
      by_contra hne
      exact hstop (hI.late (Nat.pos_of_ne_zero hne)).1
    refine of_lateCalls_eq_zero ?_ hcalls hrunning
    simp [Loop.process, hstop, hI.prompt.2]

theorem receive (hI : s.Invariant) (hpolling : s.phase = .polling) {p : Poll}
    (hg : ∀ t, s.lateCalls = 1 → p = .fetched t → t.records topic s.worker.position ≠ []) :
    (s.receive topic p).Invariant := by
  cases p with
  | fetched t => exact hI.fetch hpolling fun hlate => hg t hlate rfl
  | connectionError =>
    exact ⟨hI.prompt, fun hlate => ⟨(hI.late hlate).1, trivial⟩,
      fun _ => hI.stopping_eq_false hpolling nofun⟩
  | raised => exact hI.leave

theorem resume (hI : s.Invariant) (hg : s.phase = .reconnecting → s.lateCalls ≠ 1) :
    (s.resume cfg).Invariant := by
  obtain ⟨hle, hbatches⟩ := hI.prompt
  rcases resume_cases cfg s with ⟨hphase, hresume⟩ | ⟨c, commits, hphase, hresume⟩ |
    ⟨commits, hphase, hresume⟩ | hresume
  · rw [hresume]
    rcases hphase with h | h | h
    · exact poll (hI.stopping_eq_false h nofun) (hI.lateCalls_eq_zero h id) hbatches
    · have hne := hg h
      exact poll (hI.stopping_eq_false h nofun) (by omega) hbatches
    · exact poll (hI.stopping_eq_false h nofun) (hI.lateCalls_eq_zero h id) hbatches
  · rw [hresume]
    exact of_lateCalls_eq_zero hbatches (hI.lateCalls_eq_zero hphase id)
      (hI.stopping_eq_false hphase nofun)
  · have hcalls := hI.lateCalls_eq_zero hphase id
    have hrunning := hI.stopping_eq_false hphase nofun
    rw [hresume]
    cases commits with
    | true => exact poll hrunning hcalls hbatches
    | false => exact of_lateCalls_eq_zero hbatches hcalls hrunning
  · rw [hresume]
    exact hI

end Loop.Invariant

theorem invariant_step (a : Act) (hI : s.Invariant) (hg : Answered topic s a) :
    (step cfg topic s a).Invariant := by
  cases a with
  | signal => exact ⟨hI.prompt, fun hlate => ⟨rfl, (hI.late hlate).2⟩, hI.running⟩
  | polled p =>
    simp only [step]
    split
    · rename_i hpolling
      exact hI.receive hpolling fun t => hg t hpolling
    · exact hI
  | resumed => exact hI.resume hg
  | expire => exact ⟨hI.prompt, hI.late, hI.running⟩

theorem answered_of_prompt (a : Act) (hI : s.Invariant) (h : (step cfg topic s a).Prompt) :
    Answered topic s a := by
  obtain ⟨hcalls, -⟩ := h
  cases a with
  | signal | expire => trivial
  | polled p =>
    intro t hpolling hlate hp hempty
    have hstop := (hI.late (by omega)).1
    have hrunning := hI.stopping_eq_false hpolling nofun
    simp only [step, hpolling, hp, Loop.receive] at hcalls
    rw [lateCalls_fetch_of_empty hempty hrunning, hstop, if_pos rfl] at hcalls
    omega
  | resumed =>
    intro hreconnecting hlate
    have hstop := (hI.late (by omega)).1
    have hrunning := hI.stopping_eq_false hreconnecting nofun
    simp only [step, Loop.resume, hreconnecting] at hcalls
    rw [lateCalls_poll hrunning, hstop, if_pos rfl] at hcalls
    omega

theorem lateBatches_poll : s.poll.lateBatches = s.lateBatches := by
  unfold Loop.poll
  split_ifs <;> rfl

theorem lateBatches_fetch : (s.fetch topic t).lateBatches = s.lateBatches := by
  simp only [Loop.fetch]
  split_ifs with hempty hstop
  · exact lateBatches_poll
  · rfl
  · simp only [Loop.process, if_neg hstop, Nat.add_zero]

theorem lateBatches_resume : (s.resume cfg).lateBatches = s.lateBatches := by
  rcases resume_cases cfg s with ⟨-, hresume⟩ | ⟨c, commits, -, hresume⟩ |
    ⟨commits, -, hresume⟩ | hresume
  · rw [hresume]
    exact lateBatches_poll
  · rw [hresume]
    rfl
  · rw [hresume]
    cases commits with
    | true => exact lateBatches_poll
    | false => rfl
  · rw [hresume]

theorem lateBatches_step (a : Act) : (step cfg topic s a).lateBatches = s.lateBatches := by
  cases a with
  | signal | expire => rfl
  | resumed => exact lateBatches_resume
  | polled p =>
    simp only [step]
    split
    · cases p with
      | fetched t => exact lateBatches_fetch
      | connectionError | raised => rfl
    · rfl

end

/-- In every run no batch is begun after the signal. -/
theorem lateBatches_eq_zero (cfg : Config) (topic : Topic) (pipeline : Pipeline)
    (position : ℕ → ℕ) (acts : List Act) :
    Run.Holds (step cfg topic) (fun s => s.lateBatches = 0) (start pipeline position) acts :=
  Run.holds_of_step (I := fun s : Loop => s.lateBatches = 0)
    (fun _ a h => (lateBatches_step a).trans h) rfl acts

theorem invariant_start (pipeline : Pipeline) (position : ℕ → ℕ) :
    (start pipeline position).Invariant :=
  .of_lateCalls_eq_zero rfl rfl rfl

/-- The worker stops promptly exactly when the call it makes after the signal is answered. -/
theorem prompt_iff_answered (cfg : Config) (topic : Topic) (pipeline : Pipeline)
    (position : ℕ → ℕ) (acts : List Act) :
    Run.Holds (step cfg topic) Loop.Prompt (start pipeline position) acts ↔
      Run.Guarded (step cfg topic) (Answered topic) (start pipeline position) acts :=
  Run.holds_iff_guarded (I := Loop.Invariant) (fun _ hI => hI.prompt)
    (fun _ a hI hg => invariant_step a hI hg) (fun _ a hI h => answered_of_prompt a hI h)
    (invariant_start pipeline position) acts

def idlePoll : Turn where
  chunks := []
  readings := fun _ => someReadings
  ticks := fun _ _ => ⟨0, "", 0⟩
  circumstances := Pipeline.atZero none
  commits := true

/-- On an idle topic the signal comes while `getmany` waits; that call and the next one return
nothing, and a second call is made after the signal. -/
theorem idle_topic_polled_again :
    ¬ Run.Holds (step { py := Python.ascii } fun _ => []) Loop.Prompt
      (start (Pipeline.init 0) fun _ => 0)
      [.resumed, .signal, .polled (.fetched idlePoll), .polled (.fetched idlePoll)] := by
  intro h
  exact absurd h.last.1 (by decide +kernel)

section

variable {cfg : Config} {topic : Topic} {s : Loop} {t : Turn}

def Fruitless (topic : Topic) (s : Loop) : Act → Prop
  | .polled (.fetched t) => t.records topic s.worker.position = []
  | .polled .raised => False
  | .polled .connectionError | .signal | .resumed | .expire => True

def Loop.Running (s : Loop) : Prop := s.phase ≠ .left ∧ s.stopping = false

theorem running_poll (h : s.stopping = false) : s.poll.Running := by
  rw [poll_of_running h]
  exact ⟨nofun, h⟩

theorem running_resume (h : s.Running) : (s.resume cfg).Running := by
  rcases resume_cases cfg s with ⟨-, hresume⟩ | ⟨c, commits, -, hresume⟩ |
    ⟨commits, -, hresume⟩ | hresume
  · rw [hresume]
    exact running_poll h.2
  · rw [hresume]
    refine ⟨?_, h.2⟩
    simp only [Loop.finish]
    split_ifs <;> nofun
  · rw [hresume]
    cases commits with
    | true => exact running_poll h.2
    | false => exact ⟨nofun, h.2⟩
  · rw [hresume]
    exact h

theorem running_step (a : Act) (h : s.Running) (hg : Fruitless topic s a) :
    (step cfg topic s a).Running := by
  cases a with
  | signal | expire => exact h
  | resumed => exact running_resume h
  | polled p =>
    simp only [step]
    split
    · cases p with
      | fetched t =>
        have hempty : t.records topic s.worker.position = [] := hg
        simp only [Loop.receive, Loop.fetch, hempty, List.isEmpty_nil, if_true]
        exact running_poll h.2
      | connectionError => exact ⟨nofun, h.2⟩
      | raised => exact hg.elim
    · exact h

theorem running_start {pipeline : Pipeline} {position : ℕ → ℕ} :
    (start pipeline position).Running :=
  ⟨nofun, rfl⟩

/-- While no poll brings a decodable record the loop is not left, whether or not the signal
came. -/
theorem never_left_of_fruitless {pipeline : Pipeline} {position : ℕ → ℕ} {acts : List Act}
    (h : Run.Guarded (step cfg topic) (Fruitless topic) (start pipeline position) acts) :
    Run.Holds (step cfg topic) (fun s => s.phase ≠ .left) (start pipeline position) acts :=
  (Run.holds_of_guarded (I := Loop.Running) (fun _ a => running_step a) running_start h).mono
    fun _ hs => hs.1

/-- There is no bound on the calls made after the signal. -/
theorem lateCalls_idle (ht : t.chunks = []) (hpolling : s.phase = .polling)
    (hstop : s.stop = true) (hrunning : s.stopping = false) (n : ℕ) :
    (Run.exec (step cfg topic) s (List.replicate n (.polled (.fetched t)))).lateCalls =
      s.lateCalls + n := by
  induction n generalizing s with
  | zero => rfl
  | succ n ih =>
    have hempty : t.records topic s.worker.position = [] := by
      simp [Turn.records, ht, getmany]
    have hstep : step cfg topic s (.polled (.fetched t)) = s.fetch topic t := by
      simp only [step, hpolling, Loop.receive]
    have hfetch : s.fetch topic t = { s with lateCalls := s.lateCalls + 1 } := by
      simp only [Loop.fetch, hempty, List.isEmpty_nil, if_true, ht, getmany]
      rw [poll_of_running hrunning]
      simp only [hstop, if_true, ← hpolling]
    rw [List.replicate_succ, Run.exec_cons, hstep, hfetch]
    rw [ih (s := { s with lateCalls := s.lateCalls + 1 }) hpolling hstop hrunning]
    exact Nat.succ_add_eq_add_succ s.lateCalls n

end

/-- The worker of the turn-by-turn model that the loop matches: while a batch is processed, the
one before its turn, afterwards the one after it. -/
def Loop.Matches (topic : Topic) (s : Loop) (w : Worker.State) : Prop :=
  match s.phase with
  | .processing c commits => ∃ t : Turn, c = t.call topic w.position ∧ commits = t.commits ∧
      t.records topic w.position ≠ [] ∧
      s.worker = { w with
        position := (getmany topic w.position t.chunks).2
        yielded := w.yielded ++ t.records topic w.position }
  | .committing commits =>
    w = { s.worker with committed := if commits then s.worker.position else s.worker.committed }
  | .left => ∃ position, s.worker = { w with position }
  | .starting | .polling | .reconnecting | .pausing => s.worker = w

section

variable {cfg : Config} {topic : Topic} {s : Loop} {w : Worker.State}

theorem matches_poll (h : s.worker = w) : s.poll.Matches topic w := by
  unfold Loop.poll
  cases s.stopping with
  | true => exact ⟨w.position, h⟩
  | false => exact h

theorem matches_fetch (t : Turn) (h : s.worker = w) :
    ∃ as, (s.fetch topic t).Matches topic (Run.exec (Worker.step cfg topic) w as) := by
  subst h
  simp only [Loop.fetch]
  split_ifs with hempty hstop
  · refine ⟨[.turn t], matches_poll ?_⟩
    simp only [Run.exec_cons, Run.exec_nil, Worker.step, hempty, if_true]
  · exact ⟨[], _, rfl⟩
  · exact ⟨[], t, rfl, rfl, fun h => hempty (List.isEmpty_iff.mpr h), rfl⟩

theorem matches_finish {c : Call} {commits : Bool} (hphase : s.phase = .processing c commits)
    (h : s.Matches topic w) :
    ∃ as, (s.finish cfg c commits).Matches topic (Run.exec (Worker.step cfg topic) w as) := by
  simp only [Loop.Matches, hphase] at h
  obtain ⟨t, rfl, rfl, hrecords, hworker⟩ := h
  have hempty : (t.records topic w.position).isEmpty = false := by simpa using hrecords
  refine ⟨[.turn t], ?_⟩
  simp only [Run.exec_cons, Run.exec_nil, Worker.step, hempty, Loop.finish, hworker]
  cases hraised : (w.pipeline.processBatch cfg (t.call topic w.position)).2 with
  | true => simp [Loop.Matches]
  | false => simp [Loop.Matches]

theorem matches_resume (h : s.Matches topic w) :
    ∃ as, (s.resume cfg).Matches topic (Run.exec (Worker.step cfg topic) w as) := by
  rcases resume_cases cfg s with ⟨hphase, hresume⟩ | ⟨c, commits, hphase, hresume⟩ |
    ⟨commits, hphase, hresume⟩ | hresume
  · have hworker : s.worker = w := by
      rcases hphase with hphase | hphase | hphase
      all_goals rwa [Loop.Matches, hphase] at h
    rw [hresume]
    exact ⟨[], matches_poll hworker⟩
  · rw [hresume]
    exact matches_finish hphase h
  · rw [Loop.Matches, hphase] at h
    rw [hresume]
    refine ⟨[], ?_⟩
    cases commits with
    | true => exact matches_poll h.symm
    | false => exact h.symm
  · rw [hresume]
    exact ⟨[], h⟩

theorem matches_expire (h : s.Matches topic w) :
    (step cfg topic s .expire).Matches topic (Worker.step cfg topic w .expire) := by
  simp only [Loop.Matches, step] at h ⊢
  split at h
  next hphase =>
    obtain ⟨t, hc, hcommits, hrecords, hworker⟩ := h
    refine ⟨t, hc, hcommits, hrecords, ?_⟩
    rw [hworker]
    rfl
  next => rw [h]; rfl
  next =>
    obtain ⟨position, hworker⟩ := h
    exact ⟨position, by rw [hworker]; rfl⟩
  all_goals rw [h]

theorem matches_step (a : Act) (h : s.Matches topic w) :
    ∃ as, (step cfg topic s a).Matches topic (Run.exec (Worker.step cfg topic) w as) := by
  cases a with
  | signal => exact ⟨[], h⟩
  | expire => exact ⟨[.expire], matches_expire h⟩
  | resumed => exact matches_resume h
  | polled p =>
    simp only [step]
    split
    · rename_i hpolling
      have hworker : s.worker = w := by rwa [Loop.Matches, hpolling] at h
      cases p with
      | fetched t => exact matches_fetch t hworker
      | connectionError => exact ⟨[], hworker⟩
      | raised => exact ⟨[], w.position, hworker⟩
    · exact ⟨[], h⟩

/-- Wherever a signal comes, the loop is a run of turns of the worker; the batch fetched when it
is left moves the positions only, and stays uncommitted. -/
theorem matches_run (cfg : Config) (topic : Topic) (pipeline : Pipeline) (position : ℕ → ℕ)
    (acts : List Act) :
    Run.Holds (step cfg topic) (fun s => ∃ as, s.Matches topic
      (Run.exec (Worker.step cfg topic) (Worker.start pipeline position) as))
      (start pipeline position) acts := by
  have hstart : (start pipeline position).Matches topic (Worker.start pipeline position) := rfl
  exact Run.holds_of_simulates (fun _ _ a h => matches_step a h) hstart acts

end

end SiemEngine.Shutdown

import SiemEngine.Api.Realtime
import SiemEngine.Frontend.RealtimeProvider
import SiemEngine.Streaming.Publication

/-!
# From the pipeline to the page

The pipeline publishes, the broker hands on, a connection writes frames and the page shows
them. Between the calls of the pipeline the seen-set expires, connections come and go, frames are
written and handled, others publish on the other channels, and the page is paused, cleared,
rendered and connected anew, in any order. What is published while a connection is there, and
what the page has received before, is recorded for the statements.
-/

namespace SiemEngine.LiveFeed

open Pipeline (publishedEvents publishedAlerts processBatch)
open Realtime (channelEvents channelAlerts channelMetrics Connection Frame Server)
open RealtimeProvider (Provider maxEvents)

/-- `orjson` and pydantic: the texts of an event and of an alert, and what a text is read as. -/
structure Codec where
  eventText : SecurityEvent → String
  alertText : ℕ → Alert → String
  loads : String → Option Json

def Codec.shown (codec : Codec) (ev : SecurityEvent) : Json :=
  Realtime.payload codec.loads (codec.eventText ev)

structure Page where
  provider : Provider Json := {}
  /-- the connection that its socket is an end of -/
  socket : Option ℕ := none
  handled : ℕ := 0
  /-- how many events of the socket it had received when the list was last cleared -/
  skipped : ℕ := 0
  /-- what it had received over earlier sockets since the list was last cleared -/
  earlier : List Json := []

structure State where
  pipeline : Pipeline
  server : Server := {}
  /-- the events published since each connection came -/
  fed : List (List SecurityEvent) := []
  page : Page := {}

/-- From `open` on they are those of the page: its socket is opened and closes, it handles the
next frame, and what is done to its provider. -/
inductive Act
  | call (c : Call) (sent : ℕ)
  | expire
  | alert (data : String)
  | metrics (data : String)
  | connect (transport : Realtime.Transport) (topics : Option String)
  | pump (i : ℕ)
  | ping (i : ℕ)
  | drop (i : ℕ)
  | open
  | close
  | handle
  | setPaused (v eager : Bool)
  | clear
  | update
  | render

def publications (codec : Codec) (cfg : Config) (s : Pipeline) (c : Call) (sent : ℕ) :
    List (String × String) :=
  (publishedEvents cfg s c sent).map (fun ev => (channelEvents, codec.eventText ev)) ++
    (publishedAlerts cfg s c sent).map fun x => (channelAlerts, codec.alertText x.1 x.2)

def publish (codec : Codec) (server : Server) (message : String × String) : Server :=
  Realtime.step codec.loads server (.publish message.1 message.2)

def eventData : Frame → Option Json
  | .json type data => if type = "events" then some data else none
  | .connected _ => none
  | .event _ _ => none
  | .ping => none

/-- `ws.onmessage`; an alert or a metrics message updates other state of the provider. -/
def onMessage (p : Provider Json) : Frame → Provider Json
  | .json type data =>
    if type = "events" then p.step (.message data)
    else if type = "alerts" ∨ type = "metrics" then p.step .update
    else p
  | .connected _ => p
  | .event _ _ => p
  | .ping => p

def State.frames (s : State) : List Frame :=
  match s.page.socket.bind fun i => s.server.connections[i]? with
  | some c => c.sent
  | none => []

def State.handledEvents (s : State) : List Json :=
  (s.frames.take s.page.handled).filterMap eventData

def Page.act (page : Page) (a : RealtimeProvider.Act Json) : Page :=
  { page with provider := page.provider.step a }

def step (codec : Codec) (cfg : Config) (s : State) : Act → State
  | .call c sent =>
    { s with
      pipeline := (processBatch cfg s.pipeline c).1
      server := (publications codec cfg s.pipeline c sent).foldl (publish codec) s.server
      fed := s.fed.map fun events => events ++ publishedEvents cfg s.pipeline c sent }
  | .expire => { s with pipeline := { s.pipeline with seen := ∅ } }
  | .alert data => { s with server := publish codec s.server (channelAlerts, data) }
  | .metrics data => { s with server := publish codec s.server (channelMetrics, data) }
  | .connect transport topics =>
    { s with
      server := Realtime.step codec.loads s.server (.connect transport topics)
      fed := s.fed ++ [[]] }
  | .pump i => { s with server := Realtime.step codec.loads s.server (.pump i) }
  | .ping i => { s with server := Realtime.step codec.loads s.server (.ping i) }
  | .drop i => { s with server := Realtime.step codec.loads s.server (.drop i) }
  | .open => match s.page.socket with
    | some _ => s
    | none =>
      { s with
        server := Realtime.step codec.loads s.server (.connect .ws none)
        fed := s.fed ++ [[]]
        page := { s.page with socket := some s.server.connections.length } }
  | .close =>
    { s with
      page := { provider := s.page.provider, earlier := s.page.provider.received } }
  | .handle => match s.frames[s.page.handled]? with
    | none => s
    | some frame =>
      { s with
        page := { s.page with
          provider := onMessage s.page.provider frame
          handled := s.page.handled + 1 } }
  | .setPaused v eager => { s with page := s.page.act (.setPaused v eager) }
  | .clear =>
    { s with
      page := { s.page.act .clear with skipped := s.handledEvents.length, earlier := [] } }
  | .update => { s with page := s.page.act .update }
  | .render => { s with page := s.page.act .render }

/-- No resume finds an event in the buffer, and no event is put there once a resume waits to be
rendered: what would be lost is not there. -/
def Allowed (s : State) : Act → Prop
  | .handle => ∀ frame ∈ s.frames[s.page.handled]?, ∀ e ∈ eventData frame,
      s.page.provider.Allowed (.message e)
  | .setPaused v eager => s.page.provider.Allowed (.setPaused v eager)
  | _ => True

/-- The socket of the page is up and nothing waits on either side of it. -/
structure UpToDate (s : State) (i : ℕ) (events : List SecurityEvent) : Prop where
  socket : s.page.socket = some i
  fed : s.fed[i]? = some events
  live : ∀ subscriber ∈ s.server.subscriber i, subscriber.live = true ∧ subscriber.inbox = []
  handled : s.page.handled = s.frames.length

/-- What the page displays is stored. When it is up to date and not paused it displays the newest
of the events published since its socket was opened or the list was cleared, and after them what
it had received before. -/
structure Shows (codec : Codec) (s : State) : Prop where
  stored : ∀ x ∈ s.page.provider.render.shown.events,
    ∃ ev, x = codec.shown ev ∧ ev.eventId ∈ s.pipeline.db.events.ids
  newest : ∀ i events, UpToDate s i events → s.page.provider.render.shown.paused = false →
    s.page.provider.render.shown.events =
      (((events.map codec.shown).drop s.page.skipped).reverse ++ s.page.earlier).take maxEvents

theorem kind_eq_events {channel : String} : Realtime.kind channel = "events" ↔
    channel = channelEvents := by
  simp only [Realtime.kind, Realtime.channels, List.find?_cons, List.find?_nil]
  by_cases h₁ : channelEvents = channel
  · simp [h₁]
  · by_cases h₂ : channelAlerts = channel
    · simp [h₁, h₂, Ne.symm h₁]
    · by_cases h₃ : channelMetrics = channel
      · simp [h₁, h₂, h₃, Ne.symm h₁]
      · simp [h₁, h₂, h₃, Ne.symm h₁]

theorem eventData_frame (loads : String → Option Json) (message : String × String) :
    eventData (Realtime.frame loads .ws message) =
      if message.1 = channelEvents then some (Realtime.payload loads message.2) else none := by
  simp only [Realtime.frame, eventData, kind_eq_events]

theorem filterMap_messages (c : Connection) :
    c.messages.filterMap eventData = c.sent.filterMap eventData := by
  rw [Connection.messages, List.filterMap_filter]
  refine List.filterMap_congr fun f _ => ?_
  cases f <;> rfl

theorem filterMap_frames (loads : String → Option Json) (ms : List (String × String)) :
    (ms.map (Realtime.frame loads .ws)).filterMap eventData =
      (ms.filter fun m => m.1 = channelEvents).map fun m => Realtime.payload loads m.2 := by
  induction ms with
  | nil => rfl
  | cons m ms ih =>
    rw [List.map_cons, List.filterMap_cons, eventData_frame, List.filter_cons]
    by_cases hm : m.1 = channelEvents
    · simp only [hm, if_true, decide_true, List.map_cons, ih]
    · simp only [hm, if_false, decide_false, Bool.false_eq_true, ih]

section

variable {codec : Codec} {cfg : Config}

def sinces (server : Server) : List ℕ := server.broker.subscribers.map PubSub.Subscriber.since

def Fed (codec : Codec) (published : List (String × String)) (events : List SecurityEvent)
    (n : ℕ) : Prop :=
  n ≤ published.length ∧ (published.drop n).filter (fun m => m.1 = channelEvents) =
    events.map fun ev => (channelEvents, codec.eventText ev)

theorem Fed.append {published ms : List (String × String)} {events : List SecurityEvent} {n : ℕ}
    (h : Fed codec published events n) (more : List SecurityEvent)
    (hms : ms.filter (fun m => m.1 = channelEvents) =
      more.map fun ev => (channelEvents, codec.eventText ev)) :
    Fed codec (published ++ ms) (events ++ more) n := by
  obtain ⟨hn, hevents⟩ := h
  refine ⟨hn.trans (by rw [List.length_append]; exact Nat.le_add_right _ _), ?_⟩
  rw [List.drop_append_of_le_length hn, List.filter_append, hevents, hms, List.map_append]

theorem sinces_publish (server : Server) (m : String × String) :
    sinces (publish codec server m) = sinces server := by
  refine (List.map_map ..).trans (List.map_congr_left fun subscriber _ => ?_)
  change (subscriber.receive m).since = subscriber.since
  rw [PubSub.Subscriber.receive]
  split_ifs <;> rfl

theorem publish_all (codec : Codec) (server : Server) (ms : List (String × String)) :
    (ms.foldl (publish codec) server).broker.published = server.broker.published ++ ms ∧
      sinces (ms.foldl (publish codec) server) = sinces server := by
  induction ms generalizing server with
  | nil => exact ⟨(List.append_nil _).symm, rfl⟩
  | cons m ms ih =>
    obtain ⟨hpublished, hsinces⟩ := ih (publish codec server m)
    refine ⟨?_, hsinces.trans (sinces_publish server m)⟩
    rw [List.foldl_cons, hpublished, ← List.singleton_append, ← List.append_assoc]
    rfl

theorem since_take (subscriber : PubSub.Subscriber String String) :
    subscriber.take.since = subscriber.since := by
  rw [PubSub.Subscriber.take]
  cases subscriber.inbox with
  | nil => rfl
  | cons m rest => exact (apply_ite PubSub.Subscriber.since _ _ _).trans (ite_self _)

theorem map_modify_of_eq {α β : Type*} {f : α → α} {g : α → β} (h : ∀ a, g (f a) = g a) (i : ℕ)
    (l : List α) : (l.modify i f).map g = l.map g := by
  induction l generalizing i with
  | nil => simp
  | cons a l ih =>
    cases i with
    | zero => exact congrArg (· :: l.map g) (h a)
    | succ i => rw [List.modify_succ_cons, List.map_cons, ih, List.map_cons]

theorem quiet (codec : Codec) (server : Server) {a : Realtime.Act}
    (ha : (∃ i, a = .pump i) ∨ (∃ i, a = .ping i) ∨ ∃ i, a = .drop i) :
    (Realtime.step codec.loads server a).broker.published = server.broker.published ∧
      sinces (Realtime.step codec.loads server a) = sinces server := by
  rcases ha with ⟨i, rfl⟩ | ⟨i, rfl⟩ | ⟨i, rfl⟩
  · cases hnext : server.next i with
    | none => simp only [Realtime.step, hnext, and_self]
    | some message =>
      simp only [Realtime.step, hnext]
      exact ⟨rfl, map_modify_of_eq since_take i _⟩
  · exact ⟨rfl, rfl⟩
  · exact ⟨rfl, map_modify_of_eq (f := PubSub.Subscriber.leave) (fun _ => rfl) i _⟩

theorem filter_publications (s : Pipeline) (c : Call) (sent : ℕ) :
    (publications codec cfg s c sent).filter (fun m => m.1 = channelEvents) =
      (publishedEvents cfg s c sent).map fun ev => (channelEvents, codec.eventText ev) := by
  have hother : channelAlerts ≠ channelEvents := by decide
  rw [publications, List.filter_append, List.filter_map, List.filter_map]
  simp [Function.comp_def, hother]

structure Sound (codec : Codec) (s : State) : Prop where
  server : s.server.Sound codec.loads
  fed : List.Forall₂ (Fed codec s.server.broker.published) s.fed (sinces s.server)
  stored : ∀ events ∈ s.fed, ∀ ev ∈ events, ev.eventId ∈ s.pipeline.db.events.ids

theorem sound_publish {server : Server} (h : server.Sound codec.loads)
    (ms : List (String × String)) : (ms.foldl (publish codec) server).Sound codec.loads := by
  induction ms generalizing server with
  | nil => exact h
  | cons m ms ih => exact ih (Realtime.sound_step server (.publish m.1 m.2) h)

variable {s : State}

theorem fed_publish (h : Sound codec s) {server : Server} {ms : List (String × String)}
    {more : List SecurityEvent}
    (hpublished : server.broker.published = s.server.broker.published ++ ms)
    (hsinces : sinces server = sinces s.server)
    (hms : ms.filter (fun m => m.1 = channelEvents) =
      more.map fun ev => (channelEvents, codec.eventText ev)) :
    List.Forall₂ (Fed codec server.broker.published) (s.fed.map fun events => events ++ more)
      (sinces server) := by
  rw [hpublished, hsinces, List.forall₂_map_left_iff]
  exact h.fed.imp fun events n hfed => hfed.append more hms

theorem sound_call (h : Sound codec s) (c : Call) (sent : ℕ) :
    Sound codec (step codec cfg s (.call c sent)) := by
  obtain ⟨hpublished, hsinces⟩ := publish_all codec s.server
    (publications codec cfg s.pipeline c sent)
  refine ⟨sound_publish h.server _,
    fed_publish h hpublished hsinces (filter_publications s.pipeline c sent), ?_⟩
  intro events hevents ev hev
  obtain ⟨before, hbefore, rfl⟩ := List.mem_map.mp hevents
  rcases List.mem_append.mp hev with hold | hnew
  · exact Pipeline.mem_ids_processBatch_of_mem (h.stored before hbefore ev hold)
  · exact Pipeline.stored_of_published hnew

theorem sound_other (h : Sound codec s) {m : String × String} (hm : m.1 ≠ channelEvents) :
    Sound codec { s with server := publish codec s.server m } := by
  obtain ⟨hpublished, hsinces⟩ := publish_all codec s.server [m]
  have hfed := @fed_publish _ _ h _ _ [] hpublished hsinces (by simp [hm])
  simp only [List.append_nil, List.map_id'] at hfed
  exact ⟨sound_publish h.server [m], hfed, h.stored⟩

theorem sound_quiet (h : Sound codec s) {a : Realtime.Act}
    (ha : (∃ i, a = .pump i) ∨ (∃ i, a = .ping i) ∨ ∃ i, a = .drop i) :
    Sound codec { s with server := Realtime.step codec.loads s.server a } := by
  obtain ⟨hpublished, hsinces⟩ := quiet codec s.server ha
  rw [← List.append_nil s.server.broker.published] at hpublished
  have hfed := @fed_publish _ _ h _ _ [] hpublished hsinces rfl
  simp only [List.append_nil, List.map_id'] at hfed
  exact ⟨Realtime.sound_step s.server a h.server, hfed, h.stored⟩

theorem sound_connect (h : Sound codec s) (transport : Realtime.Transport)
    (topics : Option String) : Sound codec (step codec cfg s (.connect transport topics)) := by
  refine ⟨Realtime.sound_step s.server (.connect transport topics) h.server, ?_, ?_⟩
  · change List.Forall₂ (Fed codec s.server.broker.published) (s.fed ++ [[]])
      ((s.server.broker.subscribers ++ [_]).map _)
    rw [List.map_append]
    refine List.rel_append h.fed (List.Forall₂.cons ⟨le_rfl, ?_⟩ List.Forall₂.nil)
    change (s.server.broker.published.drop s.server.broker.published.length).filter _ = _
    rw [List.drop_length]
    rfl
  · refine List.forall_mem_append.mpr ⟨h.stored, List.forall_mem_singleton.mpr ?_⟩
    simp

theorem sound_step (a : Act) (h : Sound codec s) : Sound codec (step codec cfg s a) := by
  cases a with
  | call c sent => exact sound_call h c sent
  | expire => exact ⟨h.server, h.fed, h.stored⟩
  | alert data =>
    have hother : channelAlerts ≠ channelEvents := by decide
    exact sound_other h hother
  | metrics data =>
    have hother : channelMetrics ≠ channelEvents := by decide
    exact sound_other h hother
  | connect transport topics => exact sound_connect h transport topics
  | pump i => exact sound_quiet h (Or.inl ⟨i, rfl⟩)
  | ping i => exact sound_quiet h (Or.inr (Or.inl ⟨i, rfl⟩))
  | drop i => exact sound_quiet h (Or.inr (Or.inr ⟨i, rfl⟩))
  | «open» =>
    rw [step]
    split
    · exact h
    · obtain ⟨hserver, hfed, hstored⟩ := @sound_connect _ cfg _ h .ws none
      exact ⟨hserver, hfed, hstored⟩
  | handle =>
    rw [step]
    split
    · exact h
    · exact ⟨h.server, h.fed, h.stored⟩
  | close | setPaused v eager | clear | update | render => exact ⟨h.server, h.fed, h.stored⟩

theorem getElem?_of_forall₂ {α β : Type*} {R : α → β → Prop} {l : List α} {l' : List β}
    (h : List.Forall₂ R l l') {i : ℕ} {a : α} (ha : l[i]? = some a) :
    ∃ b, l'[i]? = some b ∧ R a b := by
  obtain ⟨hi, rfl⟩ := List.getElem?_eq_some_iff.mp ha
  obtain ⟨hlen, hget⟩ := List.forall₂_iff_get.mp h
  exact ⟨l'[i], List.getElem?_eq_getElem _, hget i hi (hlen ▸ hi)⟩

theorem Sound.eventFrames (h : Sound codec s) {i : ℕ} {c : Connection}
    {events : List SecurityEvent} (hc : s.server.connections[i]? = some c)
    (hws : c.transport = .ws) (hsubscribed : channelEvents ∈ c.channels)
    (hevents : s.fed[i]? = some events) :
    c.sent.filterMap eventData <+: events.map codec.shown ∧
      ((∀ subscriber ∈ s.server.subscriber i, subscriber.live = true ∧ subscriber.inbox = []) →
        c.sent.filterMap eventData = events.map codec.shown) := by
  obtain ⟨subscriber, hsubscriber, hrelayed⟩ := getElem?_of_forall₂ h.server.relayed hc
  obtain ⟨n, hn, -, hfed⟩ := getElem?_of_forall₂ h.fed hevents
  have hsince : subscriber.since = n := by
    rw [sinces, List.getElem?_map, hsubscriber] at hn
    exact Option.some.inj hn
  have hdue : (subscriber.due s.server.broker.published).filter (fun m => m.1 = channelEvents) =
      events.map fun ev => (channelEvents, codec.eventText ev) := by
    rw [← hfed, PubSub.Subscriber.due, hsince, List.filter_filter]
    refine List.filter_congr fun m _ => ?_
    by_cases hm : m.1 = channelEvents
    · simp [hm, hrelayed.channels, hsubscribed]
    · simp [hm]
  have hall : (Realtime.greeting c.transport c.channels ++ (subscriber.due
      s.server.broker.published).map (Realtime.frame codec.loads c.transport)).filterMap eventData =
      events.map codec.shown := by
    rw [hws, List.filterMap_append, filterMap_frames, hdue, List.map_map]
    rfl
  rw [← filterMap_messages, ← hall]
  refine ⟨hrelayed.written.filterMap eventData, fun hwaits => ?_⟩
  obtain ⟨hlive, hinbox⟩ := hwaits subscriber hsubscriber
  rw [hrelayed.complete hlive hinbox]

theorem Sound.exists_fed (h : Sound codec s) {i : ℕ} {c : Connection}
    (hc : s.server.connections[i]? = some c) : ∃ events, s.fed[i]? = some events := by
  have hlen : s.fed.length = s.server.connections.length := by
    rw [h.fed.length_eq, sinces, List.length_map, ← h.server.linked.length_eq]
  exact ⟨_, List.getElem?_eq_getElem (hlen ▸ (List.getElem?_eq_some_iff.mp hc).1)⟩

def Grown (server server' : Server) : Prop :=
  ∀ (i : ℕ) (c : Connection), server.connections[i]? = some c →
    ∃ more, server'.connections[i]? = some { c with sent := c.sent ++ more }

theorem Grown.refl (server : Server) : Grown server server := fun _ c hc =>
  ⟨[], by rw [List.append_nil, hc]⟩

theorem Grown.trans {server server' server'' : Server} (h : Grown server server')
    (h' : Grown server' server'') : Grown server server'' := by
  intro i c hc
  obtain ⟨more, hmore⟩ := h i c hc
  obtain ⟨more', hmore'⟩ := h' i _ hmore
  exact ⟨more ++ more', by rw [hmore', List.append_assoc]⟩

theorem grown_modify {server : Server} (broker : PubSub.Broker String String) (i : ℕ)
    {f : Connection → Connection}
    (hf : ∀ c, ∃ more, f c = { c with sent := c.sent ++ more }) :
    Grown server ⟨broker, server.connections.modify i f⟩ := by
  intro j c hc
  change ∃ more, (server.connections.modify i f)[j]? = _
  rw [List.getElem?_modify, hc]
  obtain ⟨more, hmore⟩ := hf c
  by_cases hij : i = j
  · exact ⟨more, by simp [hij, hmore]⟩
  · exact ⟨[], by simp [hij]⟩

theorem grown_step (loads : String → Option Json) (server : Server) (a : Realtime.Act) :
    Grown server (Realtime.step loads server a) := by
  cases a with
  | connect transport topics =>
    intro i c hc
    refine ⟨[], ?_⟩
    rw [List.append_nil]
    exact (List.getElem?_append_left (List.getElem?_eq_some_iff.mp hc).1).trans hc
  | publish channel data => exact Grown.refl server
  | pump i =>
    cases hnext : server.next i with
    | none => simpa only [Realtime.step, hnext] using Grown.refl server
    | some message =>
      simp only [Realtime.step, hnext]
      exact grown_modify _ i fun c => ⟨[_], rfl⟩
  | ping i =>
    refine grown_modify _ i fun c => ?_
    split_ifs
    · exact ⟨[_], rfl⟩
    · exact ⟨[], by rw [List.append_nil]⟩
  | drop i => exact Grown.refl server

theorem grown_publish (codec : Codec) (server : Server) (ms : List (String × String)) :
    Grown server (ms.foldl (publish codec) server) := by
  induction ms generalizing server with
  | nil => exact Grown.refl server
  | cons m ms ih => exact (grown_step codec.loads server (.publish m.1 m.2)).trans (ih _)

/-- What the provider of the page has received, and that it loses none of it. -/
structure Watched (codec : Codec) (s : State) : Prop where
  provider : s.page.provider.Invariant
  socket : ∀ i ∈ s.page.socket, ∃ c, s.server.connections[i]? = some c ∧ c.transport = .ws ∧
    channelEvents ∈ c.channels
  handled : s.page.handled ≤ s.frames.length
  skipped : s.page.skipped ≤ s.handledEvents.length
  received : s.page.provider.received =
    (s.handledEvents.drop s.page.skipped).reverse ++ s.page.earlier
  stored : ∀ x ∈ s.page.provider.received,
    ∃ ev, x = codec.shown ev ∧ ev.eventId ∈ s.pipeline.db.events.ids

theorem frames_of_socket {i : ℕ} {c : Connection} (hi : s.page.socket = some i)
    (hc : s.server.connections[i]? = some c) : s.frames = c.sent := by
  rw [State.frames, hi, Option.bind_some, hc]

theorem Watched.beside (h : Watched codec s) {s' : State} (hpage : s'.page = s.page)
    (hserver : Grown s.server s'.server)
    (hstored : ∀ id ∈ s.pipeline.db.events.ids, id ∈ s'.pipeline.db.events.ids) :
    Watched codec s' := by
  have hsocket : ∀ i ∈ s'.page.socket, ∃ c, s'.server.connections[i]? = some c ∧
      c.transport = .ws ∧ channelEvents ∈ c.channels := by
    intro i hi
    obtain ⟨c, hc, hws, hsubscribed⟩ := h.socket i (hpage ▸ hi)
    obtain ⟨more, hmore⟩ := hserver i c hc
    exact ⟨_, hmore, hws, hsubscribed⟩
  have hframes : s.frames <+: s'.frames := by
    cases hi : s.page.socket with
    | none =>
      rw [State.frames, hi]
      exact List.nil_prefix
    | some i =>
      obtain ⟨c, hc, -⟩ := h.socket i hi
      obtain ⟨more, hmore⟩ := hserver i c hc
      rw [frames_of_socket hi hc, frames_of_socket (hpage ▸ hi) hmore]
      exact List.prefix_append _ _
  have hevents : s'.handledEvents = s.handledEvents := by
    obtain ⟨more, hmore⟩ := hframes
    rw [State.handledEvents, State.handledEvents, hpage, ← hmore,
      List.take_append_of_le_length h.handled]
  refine ⟨hpage ▸ h.provider, hsocket, hpage ▸ h.handled.trans hframes.length_le, ?_, ?_, ?_⟩
  · rw [hevents, hpage]
    exact h.skipped
  · rw [hevents, hpage]
    exact h.received
  · intro x hx
    obtain ⟨ev, hev, hid⟩ := h.stored x (hpage ▸ hx)
    exact ⟨ev, hev, hstored _ hid⟩

theorem invariant_onMessage {p : Provider Json} {frame : Frame} (h : p.Invariant)
    (ha : ∀ e ∈ eventData frame, p.Allowed (.message e)) : (onMessage p frame).Invariant := by
  cases frame with
  | json type data =>
    rw [onMessage]
    split_ifs with hevents
    · exact Provider.invariant_step _ h (ha data (by simp [eventData, hevents]))
    · exact Provider.invariant_step _ h trivial
    · exact h
  | connected _ | event _ _ | ping => exact h

theorem received_onMessage (p : Provider Json) (frame : Frame) :
    (onMessage p frame).received = (eventData frame).toList ++ p.received := by
  cases frame with
  | json type data =>
    rw [onMessage, eventData]
    split_ifs
    · exact Provider.received_step p (.message data)
    · exact Provider.received_step p .update
    · rfl
  | connected _ | event _ _ | ping => rfl

theorem watched_handle (h : Watched codec s) (hs : Sound codec s) (ha : Allowed s .handle) :
    Watched codec (step codec cfg s .handle) := by
  cases hframe : s.frames[s.page.handled]? with
  | none => simpa only [step, hframe] using h
  | some frame =>
    have hlt : s.page.handled < s.frames.length := (List.getElem?_eq_some_iff.mp hframe).1
    have hevents : State.handledEvents { s with
        page := { s.page with
          provider := onMessage s.page.provider frame
          handled := s.page.handled + 1 } } = s.handledEvents ++ (eventData frame).toList := by
      change (s.frames.take (s.page.handled + 1)).filterMap eventData = _
      rw [List.take_add_one, hframe, List.filterMap_append]
      exact congrArg _ (by cases hdata : eventData frame <;> simp [hdata])
    simp only [step, hframe]
    refine ⟨invariant_onMessage h.provider (ha frame hframe), h.socket, hlt, ?_, ?_, fun x hx => ?_⟩
    · rw [hevents, List.length_append]
      exact h.skipped.trans (Nat.le_add_right _ _)
    · change (onMessage s.page.provider frame).received = _
      rw [received_onMessage, h.received, hevents, List.drop_append_of_le_length h.skipped,
        List.reverse_append, List.append_assoc]
      cases eventData frame <;> rfl
    · change x ∈ (onMessage s.page.provider frame).received at hx
      rw [received_onMessage] at hx
      rcases List.mem_append.mp hx with hnew | hold
      · cases hi : s.page.socket with
        | none => simp [State.frames, hi] at hlt
        | some i =>
          obtain ⟨c, hc, hws, hsubscribed⟩ := h.socket i hi
          obtain ⟨events, hfed⟩ := hs.exists_fed hc
          have hmem : x ∈ c.sent.filterMap eventData := by
            rw [← frames_of_socket hi hc]
            exact List.mem_filterMap.mpr
              ⟨frame, List.mem_of_getElem? hframe, Option.mem_toList.mp hnew⟩
          obtain ⟨ev, hev, rfl⟩ := List.mem_map.mp
            ((hs.eventFrames hc hws hsubscribed hfed).1.subset hmem)
          exact ⟨ev, rfl, hs.stored events (List.mem_of_getElem? hfed) ev hev⟩
      · exact h.stored x hold

theorem watched_act (h : Watched codec s) {a : RealtimeProvider.Act Json}
    (ha : s.page.provider.Allowed a)
    (hreceived : (s.page.provider.step a).received = s.page.provider.received) :
    Watched codec { s with page := s.page.act a } where
  provider := Provider.invariant_step a h.provider ha
  socket := h.socket
  handled := h.handled
  skipped := h.skipped
  received := hreceived.trans h.received
  stored x hx := h.stored x (hreceived ▸ hx)

theorem watched_step (a : Act) (h : Watched codec s) (hs : Sound codec s) (ha : Allowed s a) :
    Watched codec (step codec cfg s a) := by
  cases a with
  | call c sent =>
    exact h.beside rfl (grown_publish codec s.server _)
      fun id hid => Pipeline.mem_ids_processBatch_of_mem hid
  | expire => exact h.beside rfl (Grown.refl _) fun _ hid => hid
  | alert data => exact h.beside rfl (grown_publish codec s.server [_]) fun _ hid => hid
  | metrics data => exact h.beside rfl (grown_publish codec s.server [_]) fun _ hid => hid
  | connect transport topics => exact h.beside rfl (grown_step codec.loads _ _) fun _ hid => hid
  | pump i => exact h.beside rfl (grown_step codec.loads _ (.pump i)) fun _ hid => hid
  | ping i => exact h.beside rfl (grown_step codec.loads _ (.ping i)) fun _ hid => hid
  | drop i => exact h.beside rfl (grown_step codec.loads _ (.drop i)) fun _ hid => hid
  | «open» =>
    cases hi : s.page.socket with
    | some i => simpa only [step, hi] using h
    | none =>
      have hframes : s.frames = [] := by rw [State.frames, hi]; rfl
      have hhandled : s.page.handled = 0 := Nat.le_zero.mp (by simpa [hframes] using h.handled)
      have hnone : s.handledEvents = [] := by rw [State.handledEvents, hframes, List.take_nil]; rfl
      have hskipped : s.page.skipped = 0 := Nat.le_zero.mp (by simpa [hnone] using h.skipped)
      simp only [step, hi]
      refine ⟨h.provider, fun i hnew => ?_, ?_, ?_, ?_, h.stored⟩
      · obtain rfl := Option.some.inj hnew
        exact ⟨_, List.getElem?_concat_length, rfl, by decide⟩
      · exact hhandled.le.trans (Nat.zero_le _)
      · exact hskipped.le.trans (Nat.zero_le _)
      · change s.page.provider.received = _
        rw [h.received, hnone, State.handledEvents]
        simp [hhandled]
  | close =>
    exact ⟨h.provider, fun i hi => (Option.not_mem_none i hi).elim, Nat.zero_le _, Nat.zero_le _,
      rfl, h.stored⟩
  | handle => exact watched_handle h hs ha
  | setPaused v eager =>
    exact watched_act h ha (Provider.received_step s.page.provider (.setPaused v eager))
  | clear =>
    refine ⟨Provider.invariant_step .clear h.provider trivial, h.socket, h.handled, le_rfl, ?_,
      fun x hx => absurd hx List.not_mem_nil⟩
    change [] = (s.handledEvents.drop s.handledEvents.length).reverse ++ []
    rw [List.drop_length]
    rfl
  | update => exact watched_act h trivial (Provider.received_step s.page.provider .update)
  | render => exact watched_act h trivial (Provider.received_step s.page.provider .render)

theorem shows_of_watched (hs : Sound codec s) (h : Watched codec s) : Shows codec s where
  stored x hx := by
    obtain ⟨newer, older, hreceived, -, hnext⟩ := h.provider.split
    refine h.stored x (hreceived ▸ List.mem_append_right _ ?_)
    have hx : x ∈ s.page.provider.next.events := hx
    rw [hnext] at hx
    exact List.mem_of_mem_take hx
  newest i events hup hrunning := by
    obtain ⟨c, hc, hws, hsubscribed⟩ := h.socket i hup.socket
    have hall := (hs.eventFrames hc hws hsubscribed hup.fed).2 hup.live
    have hhandled : s.handledEvents = events.map codec.shown := by
      rw [State.handledEvents, hup.handled, List.take_length, frames_of_socket hup.socket hc, hall]
    rw [h.provider.transparent hrunning, h.received, hhandled]

end

/-- From the pipeline to the page: however the calls, with any of their faults, take turns with
connections, frames, other publishers, and the clears, renderings and new sockets of the page,
along every run that loses no buffered event the page shows stored events only, and when it is up
to date and not paused the newest 250 of those published since it connected or was cleared. -/
theorem live_events_shown (codec : Codec) (cfg : Config) (p : Pipeline) (acts : List Act)
    (hg : Run.Guarded (step codec cfg) Allowed { pipeline := p } acts) :
    Run.Holds (step codec cfg) (Shows codec) { pipeline := p } acts := by
  have hstart : Sound codec { pipeline := p } ∧ Watched codec { pipeline := p } :=
    ⟨⟨Realtime.sound_init codec.loads, List.Forall₂.nil, by simp⟩,
      ⟨⟨[], [], rfl, rfl, rfl⟩, fun h => absurd rfl h, List.not_mem_nil⟩,
      fun i hi => (Option.not_mem_none i hi).elim, le_rfl, le_rfl, rfl,
      fun x hx => absurd hx List.not_mem_nil⟩
  exact (Run.holds_of_guarded (I := fun s => Sound codec s ∧ Watched codec s)
    (fun _ a h ha => ⟨sound_step a h.1, watched_step a h.2 h.1 ha⟩) hstart hg).mono
    fun _ h => shows_of_watched h.1 h.2

def rawCodec : Codec where
  eventText ev := toString ev.eventId
  alertText _ a := a.title
  loads _ := none

theorem live_events_shown_after_pause :
    let cfg : Config := { py := Python.ascii }
    let acts : List Act :=
      [.open, .call (Pipeline.callAtZero [Pipeline.requestOf "7"] none) 1, .handle, .pump 0, .handle,
        .setPaused true true, .render, .setPaused false true, .render]
    let s : State := { pipeline := Pipeline.init 0 }
    Run.Holds (step rawCodec cfg) (Shows rawCodec) s acts ∧
      (Run.exec (step rawCodec cfg) s acts).page.provider.shown.events.length = 1 := by
  intro cfg acts s
  refine ⟨live_events_shown rawCodec cfg _ acts ⟨trivial, trivial, ?_, trivial, ?_, ?_, trivial,
    ?_, trivial, trivial⟩, by decide +kernel⟩
  · intro _ _ _ _ hpaused
    cases hpaused
  · intro _ _ _ _ hpaused
    exact absurd hpaused (by decide +kernel)
  · intro h
    cases h
  · intro _
    decide +kernel

end SiemEngine.LiveFeed

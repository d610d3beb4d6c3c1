import SiemEngine.Lib.PubSub
import SiemEngine.Python.Json
import SiemEngine.Python.Text

/-!
# Real-time transports

A WebSocket or an SSE connection subscribes to Redis channels and writes every message that
comes in as one frame, tagged with the topic of its channel. Connections open and close, and
messages are published and passed on, in any order.
-/

namespace SiemEngine.Realtime

def channelEvents : String := "siem:stream:events"

def channelAlerts : String := "siem:stream:alerts"

def channelMetrics : String := "siem:stream:metrics"

def channels : List (String × String) :=
  [("events", channelEvents), ("alerts", channelAlerts), ("metrics", channelMetrics)]

def resolveChannels (topics : Option String) : List String :=
  match topics with
  | none => channels.map Prod.snd
  | some text =>
    let picked := (text.toList.splitOn ',').filterMap fun topic =>
      Dict.get? channels (Text.strip (String.ofList topic))
    if picked.isEmpty then channels.map Prod.snd else picked

def kind (channel : String) : String :=
  match channels.find? fun kv => kv.2 = channel with
  | some kv => kv.1
  | none => "unknown"

inductive Transport
  | ws | sse
  deriving DecidableEq

inductive Frame
  | connected (channels : List String)
  | json (type : String) (data : Json)
  | event (event : String) (data : String)
  | ping

/-- What `orjson.loads` makes of the data, which is wrapped where that raises. -/
def payload (loads : String → Option Json) (data : String) : Json :=
  match loads data with
  | some json => json
  | none => .obj [("raw", .str data)]

def frame (loads : String → Option Json) (transport : Transport) (message : String × String) :
    Frame :=
  match transport with
  | .ws => .json (kind message.1) (payload loads message.2)
  | .sse => .event (kind message.1) message.2

structure Connection where
  transport : Transport
  channels : List String
  sent : List Frame

def greeting (transport : Transport) (channels : List String) : List Frame :=
  match transport with
  | .ws => [.connected channels]
  | .sse => []

/-- The connections beside the broker's subscribers, in the same order. -/
structure Server where
  broker : PubSub.Broker String String := {}
  connections : List Connection := []

/-- `pump` is a round of the loop that gets a message, `drop` one in which the send raises or
that finds the client gone, `ping` one that times out. -/
inductive Act
  | connect (transport : Transport) (topics : Option String)
  | publish (channel data : String)
  | pump (i : ℕ)
  | ping (i : ℕ)
  | drop (i : ℕ)

def Server.subscriber (s : Server) (i : ℕ) : Option (PubSub.Subscriber String String) :=
  s.broker.subscribers[i]?

def Server.next (s : Server) (i : ℕ) : Option (String × String) :=
  match s.subscriber i with
  | some subscriber => if subscriber.live then subscriber.inbox.head? else none
  | none => none

def Connection.send (f : Frame) (c : Connection) : Connection := { c with sent := c.sent ++ [f] }

def step (loads : String → Option Json) (s : Server) : Act → Server
  | .connect transport topics =>
    let channels := resolveChannels topics
    { broker := PubSub.step s.broker (.subscribe channels)
      connections := s.connections ++ [⟨transport, channels, greeting transport channels⟩] }
  | .publish channel data => { s with broker := PubSub.step s.broker (.publish (channel, data)) }
  | .pump i =>
    match s.next i with
    | none => s
    | some message =>
      { broker := PubSub.step s.broker (.take i)
        connections := s.connections.modify i fun c =>
          c.send (frame loads c.transport message) }
  | .ping i =>
    { s with
      connections := s.connections.modify i fun c =>
        if c.transport = .sse ∧ ∃ subscriber ∈ s.subscriber i,
          subscriber.live = true ∧ subscriber.inbox = [] then c.send .ping else c }
  | .drop i => { s with broker := PubSub.step s.broker (.leave i) }

def Frame.isPing : Frame → Bool
  | .ping => true
  | .connected _ => false
  | .json _ _ => false
  | .event _ _ => false

def Connection.messages (c : Connection) : List Frame := c.sent.filter fun f => !f.isPing

/-- What a connection has written, pings aside, is its greeting and then, in order and each
once, a part of what was published on its channels since it subscribed; it is all of it when
the connection is up and nothing waits. -/
structure Relayed (loads : String → Option Json) (published : List (String × String))
    (c : Connection) (subscriber : PubSub.Subscriber String String) : Prop where
  channels : subscriber.topics = c.channels
  written : c.messages <+: greeting c.transport c.channels ++
    (subscriber.due published).map (frame loads c.transport)
  complete : subscriber.live = true → subscriber.inbox = [] →
    c.messages = greeting c.transport c.channels ++
      (subscriber.due published).map (frame loads c.transport)

structure Linked (loads : String → Option Json) (c : Connection)
    (subscriber : PubSub.Subscriber String String) : Prop where
  channels : subscriber.topics = c.channels
  written : c.messages = greeting c.transport c.channels ++
    subscriber.taken.map (frame loads c.transport)

section

variable {loads : String → Option Json} {c : Connection}
  {subscriber : PubSub.Subscriber String String} {s : Server}

theorem messages_send (c : Connection) (f : Frame) :
    (c.send f).messages = c.messages ++ if f.isPing then [] else [f] := by
  rw [Connection.messages, Connection.send, List.filter_append, ← Connection.messages]
  cases hping : f.isPing <;> simp [hping]

theorem isPing_frame (transport : Transport) (message : String × String) :
    (frame loads transport message).isPing = false := by
  cases transport <;> rfl

theorem messages_greeting (transport : Transport) (channels : List String) :
    (Connection.mk transport channels (greeting transport channels)).messages =
      greeting transport channels := by
  cases transport <;> rfl

theorem Linked.receive (h : Linked loads c subscriber) (message : String × String) :
    Linked loads c (subscriber.receive message) := by
  rw [PubSub.Subscriber.receive]
  split_ifs
  · exact ⟨h.channels, h.written⟩
  · exact h

theorem Linked.take (h : Linked loads c subscriber) {message : String × String}
    (hlive : subscriber.live = true) (hnext : subscriber.inbox.head? = some message) :
    Linked loads (c.send (frame loads c.transport message)) subscriber.take := by
  obtain ⟨rest, hinbox⟩ := List.head?_eq_some_iff.mp hnext
  have htake : subscriber.take =
      { subscriber with inbox := rest, taken := subscriber.taken ++ [message] } := by
    rw [PubSub.Subscriber.take, hinbox]
    exact if_pos hlive
  rw [htake]
  refine ⟨h.channels, ?_⟩
  rw [messages_send, isPing_frame, h.written, List.map_append, ← List.append_assoc]
  rfl

theorem Linked.ping (h : Linked loads c subscriber) : Linked loads (c.send .ping) subscriber := by
  refine ⟨h.channels, ?_⟩
  rw [messages_send]
  exact (List.append_nil _).trans h.written

theorem forall₂_modify {α β : Type*} {R : α → β → Prop} {f : α → α} {g : β → β} {l : List α}
    {l' : List β} (i : ℕ) (h : List.Forall₂ R l l')
    (hi : ∀ a b, l'[i]? = some b → R a b → R (f a) (g b)) :
    List.Forall₂ R (l.modify i f) (l'.modify i g) := by
  induction h generalizing i with
  | nil => simp
  | @cons a b l l' hab h ih =>
    cases i with
    | zero => exact List.Forall₂.cons (hi a b rfl hab) h
    | succ i => exact List.Forall₂.cons hab (ih i fun a b hb => hi a b hb)

theorem modify_id {α : Type*} (i : ℕ) (l : List α) : l.modify i id = l := by
  induction l generalizing i with
  | nil => simp
  | cons a l ih =>
    cases i with
    | zero => rfl
    | succ i => rw [List.modify_succ_cons, ih]

theorem linked_step (h : List.Forall₂ (Linked loads) s.connections s.broker.subscribers)
    (a : Act) : List.Forall₂ (Linked loads) (step loads s a).connections
      (step loads s a).broker.subscribers := by
  cases a with
  | connect transport topics =>
    refine List.rel_append h (List.Forall₂.cons ⟨rfl, ?_⟩ List.Forall₂.nil)
    exact (messages_greeting transport _).trans (List.append_nil _).symm
  | publish channel data =>
    exact (List.forall₂_map_right_iff).mpr (h.imp fun c subscriber hc => hc.receive _)
  | pump i =>
    cases hnext : s.next i with
    | none => simpa only [step, hnext] using h
    | some message =>
      simp only [step, hnext]
      refine forall₂_modify i h fun c subscriber hi hc => ?_
      rw [Server.next, Server.subscriber, hi] at hnext
      dsimp only at hnext
      split_ifs at hnext with hlive
      exact hc.take hlive hnext
  | ping i =>
    have hping := forall₂_modify (g := id) (f := fun c : Connection =>
      if c.transport = .sse ∧ ∃ subscriber ∈ s.subscriber i,
        subscriber.live = true ∧ subscriber.inbox = [] then c.send .ping else c) i h (by
      intro c subscriber _ hc
      dsimp only [id]
      split_ifs
      · exact hc.ping
      · exact hc)
    rwa [modify_id] at hping
  | drop i =>
    have hdrop := forall₂_modify (f := id) (g := PubSub.Subscriber.leave) i h
      fun c subscriber _ hc => (⟨hc.channels, hc.written⟩ : Linked loads c subscriber.leave)
    rwa [modify_id] at hdrop

end

theorem broker_step (loads : String → Option Json) (s : Server) (a : Act) :
    (step loads s a).broker = s.broker ∨
      ∃ b, (step loads s a).broker = PubSub.step s.broker b := by
  cases a with
  | connect transport topics => exact Or.inr ⟨.subscribe (resolveChannels topics), rfl⟩
  | publish channel data => exact Or.inr ⟨.publish (channel, data), rfl⟩
  | pump i =>
    cases hnext : s.next i with
    | none => exact Or.inl (by simp only [step, hnext])
    | some message => exact Or.inr ⟨.take i, by simp only [step, hnext]⟩
  | ping i => exact Or.inl rfl
  | drop i => exact Or.inr ⟨.leave i, rfl⟩

structure Server.Sound (loads : String → Option Json) (s : Server) : Prop where
  served : s.broker.Served
  linked : List.Forall₂ (Linked loads) s.connections s.broker.subscribers

theorem sound_step {loads : String → Option Json} (s : Server) (a : Act) (h : s.Sound loads) :
    (step loads s a).Sound loads := by
  refine ⟨?_, linked_step h.linked a⟩
  rcases broker_step loads s a with hb | ⟨b, hb⟩
  · rw [hb]
    exact h.served
  · rw [hb]
    exact PubSub.served_step s.broker b h.served

theorem sound_init (loads : String → Option Json) : ({} : Server).Sound loads :=
  ⟨by simp [PubSub.Broker.Served], List.Forall₂.nil⟩

theorem Linked.relayed {loads : String → Option Json} {published : List (String × String)}
    {c : Connection} {subscriber : PubSub.Subscriber String String} (h : Linked loads c subscriber)
    (hserved : subscriber.Served published) : Relayed loads published c subscriber where
  channels := h.channels
  written := by
    rw [h.written]
    exact (List.prefix_append_right_inj _).mpr (hserved.gone.map _)
  complete := by
    intro hlive hinbox
    have htaken := hserved.live hlive
    rw [hinbox, List.append_nil] at htaken
    rw [h.written, htaken]

theorem Server.Sound.relayed {loads : String → Option Json} {s : Server} (h : s.Sound loads) :
    List.Forall₂ (Relayed loads s.broker.published) s.connections s.broker.subscribers := by
  rw [List.forall₂_iff_get]
  refine ⟨h.linked.length_eq, fun i hi hi' => ?_⟩
  have hlinked := (List.forall₂_iff_get.mp h.linked).2 i hi hi'
  exact hlinked.relayed (h.served _ (List.get_mem _ _))

/-- Fan-out in any order of connecting, publishing, passing on and disconnecting. -/
theorem relayed_exec (loads : String → Option Json) (as : List Act) :
    let s := Run.exec (step loads) {} as
    List.Forall₂ (Relayed loads s.broker.published) s.connections s.broker.subscribers :=
  (Run.holds_of_step (I := Server.Sound loads) sound_step (sound_init loads) as).last.relayed

end SiemEngine.Realtime

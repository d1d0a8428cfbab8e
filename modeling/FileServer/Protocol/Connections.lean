import FileServer.Protocol.Streams
import FileServer.Transition.Run

/-!
# Connections

The decoders that a server or a client keeps while connections come and go.
A new `TcpConnection` may have the address of one that was destroyed; a client
goes on with the one decoder it has.
-/

namespace FileServer.Protocol

open FileServer.Sequence FileServer.Transition

section Leftovers

theorem take_of_items {buffer piece : Bytes} {msg : Message}
    (emitted : Scanner.items (frames.feed buffer piece).1 = [msg]) :
    ∃ count, frameAt (buffer ++ piece) = .take count msg := by
  rw [Scanner.feed, Scanner.advance, frames_verdict] at emitted
  cases front : frameAt (buffer ++ piece) with
  | wait => simp [front, Scanner.items] at emitted
  | skip => simp [front, Scanner.items] at emitted
  | take count taken =>
      simp only [front, Scanner.items, List.filterMap_cons, List.cons.injEq] at emitted
      exact ⟨count, by rw [emitted.1]⟩

theorem header_of_take {stream : Bytes} {count : Nat} {msg : Message}
    (taken : frameAt stream = .take count msg) :
    msg.header = (MessageHeader.decodeFrom stream).2 := by
  simp only [frameAt] at taken
  split at taken
  · cases taken
  split at taken
  · split at taken
    · cases taken
    split at taken
    · cases taken
      rfl
    · cases taken
  · cases taken

def signal (requestId : UInt32) : Message := ⟨{ requestId }, [], []⟩

theorem signal_sendable (requestId : UInt32) : (signal requestId).Sendable :=
  ⟨rfl, by simp [signal], by simp [signal]⟩

/-- A message whose last bytes differ from those before them. -/
def marked (size : Nat) : Message := ⟨{}, [], 1 :: List.replicate size 0⟩

theorem marked_sendable {size : Nat} (short : size < kHeaderSize) : (marked size).Sendable := by
  rw [kHeaderSize] at short
  exact ⟨rfl, by simp [marked], by simp [marked]; omega⟩

/-- Its frame does not stand at another place behind itself. -/
theorem not_shifted {buffer : Bytes} (left : buffer ≠ []) {count : Nat}
    (front : Encoder.encode (Encoder.sent (marked buffer.length)) =
      (buffer ++ Encoder.encode (marked buffer.length)).take count)
    (inRange : count ≤ (buffer ++ Encoder.encode (marked buffer.length)).length) : False := by
  have encoded : Encoder.encode (Encoder.sent (marked buffer.length)) =
      Encoder.encode (marked buffer.length) := rfl
  obtain ⟨header, frame⟩ : ∃ header : Bytes, Encoder.encode (marked buffer.length) =
      header ++ [1] ++ List.replicate buffer.length 0 := by
    rw [Encoder.encode_eq]
    exact ⟨(Encoder.sent (marked buffer.length)).header.encodeTo, by simp [marked]⟩
  have size := congrArg List.length front
  rw [List.length_take_of_le inRange, encoded, frame] at size
  have whole : buffer ++ (header ++ [1] ++ List.replicate buffer.length 0) =
      (buffer ++ header ++ [1]) ++ List.replicate buffer.length 0 := by
    simp
  rw [encoded, frame, whole, List.take_left' (by simp at size ⊢; omega)] at front
  have last := congrArg List.getLast? front
  cases buffer with
  | nil => exact left rfl
  | cons first rest =>
      rw [List.length_cons, List.replicate_succ', ← List.append_assoc, List.getLast?_concat,
        List.getLast?_concat] at last
      cases last

theorem fresh_feed {msg : Message} (sendable : msg.Sendable) :
    ((Decoder.feeds []).2.feed (Encoder.encode msg)).1 = [Encoder.sent msg] := by
  have batch : [Encoder.encode msg].flatten = Encoder.encodeBatch [msg] := by
    simp [Encoder.encodeBatch]
  have emitted := (feeds_encodeBatch (by simpa using sendable) batch).1
  have single := Decoder.feeds_append [] (Encoder.encode msg)
  rw [List.nil_append] at single
  rw [single] at emitted
  simpa [Decoder.feeds] using emitted

theorem spoils {buffer : Bytes} (left : buffer ≠ []) :
    ∃ msg : Message, msg.Sendable ∧
      Scanner.items (frames.feed buffer (Encoder.encode msg)).1 ≠ [Encoder.sent msg] := by
  by_contra none
  push Not at none
  by_cases short : buffer.length < kHeaderSize
  · obtain ⟨count, taken⟩ := take_of_items (none _ (marked_sendable short))
    exact not_shifted left (Encoder.encode_of_take taken) (frameAt_bounded taken).2
  · have requestId : ∀ id, id = (MessageHeader.decodeFrom buffer).2.requestId := by
      intro id
      obtain ⟨count, taken⟩ := take_of_items (none _ (signal_sendable id))
      have header := header_of_take taken
      rw [MessageHeader.decodeFrom_append (Nat.le_of_not_lt short)] at header
      exact congrArg MessageHeader.requestId header
    have same := (requestId 0).trans (requestId 1).symm
    exact absurd same (by decide)

end Leftovers

/-- A connection, the pieces received on it, and what was decoded for each. -/
structure Connection (Address : Type) where
  address : Address
  connected : Bool
  pieces : List Bytes
  decoded : List (List Message)

structure Endpoint (Address Decoders : Type) where
  initial : Decoders
  /-- `OnConnection`, with `conn->connected()`. -/
  onConnection : Bool → Address → Decoders → Decoders
  /-- `OnMessage`, up to the messages decoded. -/
  onMessage : Address → Bytes → Decoders → List Message × Decoders

/-- An endpoint with all connections there have been. -/
structure Network (Address Decoders : Type) where
  decoders : Decoders
  connections : List (Connection Address)

inductive NetworkAction (Address : Type) where
  | connect (address : Address)
  | data (connection : Nat) (piece : Bytes)
  | disconnect (connection : Nat)

namespace Endpoint

variable {Address Decoders : Type} [DecidableEq Address] (endpoint : Endpoint Address Decoders)

def connect (network : Network Address Decoders) (address : Address) : Network Address Decoders where
  decoders := endpoint.onConnection true address network.decoders
  connections := network.connections ++ [⟨address, true, [], []⟩]

def receive (network : Network Address Decoders) (index : Nat) (connection : Connection Address)
    (piece : Bytes) : Network Address Decoders :=
  let (msgs, decoders) := endpoint.onMessage connection.address piece network.decoders
  { decoders
    connections := network.connections.set index { connection with
      pieces := connection.pieces ++ [piece], decoded := connection.decoded ++ [msgs] } }

def disconnect (network : Network Address Decoders) (index : Nat)
    (connection : Connection Address) : Network Address Decoders where
  decoders := endpoint.onConnection false connection.address network.decoders
  connections := network.connections.set index { connection with connected := false }

/-- Two objects that exist have different addresses. -/
def step (network : Network Address Decoders) :
    NetworkAction Address → Option (Network Address Decoders)
  | .connect address =>
      if ∀ connection ∈ network.connections, connection.connected → connection.address ≠ address then
        some (endpoint.connect network address)
      else
        none
  | .data index piece =>
      (network.connections[index]?.filter (·.connected)).map fun connection =>
        endpoint.receive network index connection piece
  | .disconnect index =>
      (network.connections[index]?.filter (·.connected)).map fun connection =>
        endpoint.disconnect network index connection

def network : System (Network Address Decoders) (NetworkAction Address) where
  initial := ⟨endpoint.initial, []⟩
  step := endpoint.step

end Endpoint

def Network.Apart {Address Decoders : Type} (network : Network Address Decoders) : Prop :=
  ∀ connection ∈ network.connections, connection.decoded = (Decoder.feeds connection.pieces).1

instance {Address Decoders : Type} (network : Network Address Decoders) :
    Decidable network.Apart := inferInstanceAs (Decidable (∀ _ ∈ _, _ = _))

def businessProcessor : Endpoint Nat (Nat → Option Decoder) where
  initial := fun _ => none
  onConnection _ _ decoders := decoders
  onMessage conn raw decoders :=
    -- `GetDecoder`
    let decoder := (decoders conn).getD {}
    let (messages, decoder) := decoder.feed raw
    (messages, fun key => if key = conn then some decoder else decoders key)

def rpcServer : Endpoint Nat (Nat → Option Decoder) where
  initial := fun _ => none
  onConnection connected conn decoders :=
    fun key => if key = conn then (if connected then some {} else none) else decoders key
  onMessage conn raw decoders :=
    match decoders conn with
    | none => ([], decoders)
    | some decoder =>
        let (msgs, decoder) := decoder.feed raw
        (msgs, fun key => if key = conn then some decoder else decoders key)

/-- A client has one connection at a time, and one decoder for all of them. -/
def reusedDecoder : Endpoint Unit Decoder where
  initial := {}
  onConnection _ _ decoder := decoder
  onMessage _ raw decoder := decoder.feed raw

def fileClient : Endpoint Unit Decoder := reusedDecoder

def rpcClient : Endpoint Unit Decoder := reusedDecoder

namespace Endpoint

variable {Address Decoders : Type} [DecidableEq Address] {endpoint : Endpoint Address Decoders}

structure Decodes (endpoint : Endpoint Address Decoders) (decoder : Decoders → Address → Decoder)
    (ready : Decoders → Address → Prop) : Prop where
  fresh : ∀ address, decoder endpoint.initial address = {}
  opened : ∀ address decoders, ready (endpoint.onConnection true address decoders) address
  kept : ∀ connected address decoders,
    decoder (endpoint.onConnection connected address decoders) address = decoder decoders address ∨
      decoder (endpoint.onConnection connected address decoders) address = {}
  elsewhere : ∀ connected address decoders other, other ≠ address →
    decoder (endpoint.onConnection connected address decoders) other = decoder decoders other ∧
      (ready decoders other → ready (endpoint.onConnection connected address decoders) other)
  fed : ∀ address piece decoders, ready decoders address →
    (endpoint.onMessage address piece decoders).1 = ((decoder decoders address).feed piece).1 ∧
      decoder (endpoint.onMessage address piece decoders).2 address =
        ((decoder decoders address).feed piece).2 ∧
      ready (endpoint.onMessage address piece decoders).2 address
  apart : ∀ address piece decoders other, other ≠ address →
    decoder (endpoint.onMessage address piece decoders).2 other = decoder decoders other ∧
      (ready decoders other → ready (endpoint.onMessage address piece decoders).2 other)

/-- When the first data of a connection arrives, nothing is left in the decoder
by an earlier one. -/
def StartsEmpty (decoder : Decoders → Address → Decoder)
    (event : Event (Network Address Decoders) (NetworkAction Address)) : Prop :=
  match event.action with
  | .data index _ => ∀ connection ∈ event.before.connections[index]?, connection.connected →
      connection.pieces = [] → (decoder event.before.decoders connection.address).buffer = []
  | _ => True

instance (decoder : Decoders → Address → Decoder)
    (event : Event (Network Address Decoders) (NetworkAction Address)) :
    Decidable (StartsEmpty decoder event) := by
  unfold StartsEmpty
  split <;> infer_instance

/-- Every connection has been decoded as the only one, and with the next piece
those without data still will be, just when nothing is left over for them. -/
def DecodedApart (endpoint : Endpoint Address Decoders) (decoder : Decoders → Address → Decoder)
    (history : List (Event (Network Address Decoders) (NetworkAction Address)))
    (network : Network Address Decoders) : Prop :=
  (∀ earlier, Visited history network earlier → earlier.Apart) ∧
    ∀ index connection, network.connections[index]? = some connection → connection.connected →
      connection.pieces = [] →
      ((∀ piece after, endpoint.step network (.data index piece) = some after → after.Apart) ↔
        (decoder network.decoders connection.address).buffer = [])

def Distinct (connections : List (Connection Address)) : Prop :=
  connections.Pairwise fun first second =>
    first.connected → second.connected → first.address ≠ second.address

/-- What the decoders hold belongs to the connections. -/
structure Separate (decoder : Decoders → Address → Decoder) (ready : Decoders → Address → Prop)
    (network : Network Address Decoders) : Prop where
  distinct : Distinct network.connections
  sound : ∀ address, (decoder network.decoders address).Sound
  decoded : ∀ connection ∈ network.connections,
    connection.decoded = (Decoder.feeds connection.pieces).1
  ready : ∀ connection ∈ network.connections, connection.connected →
    ready network.decoders connection.address
  held : ∀ connection ∈ network.connections, connection.connected → connection.pieces ≠ [] →
    (decoder network.decoders connection.address).buffer =
      (Decoder.feeds connection.pieces).2.buffer

/-- Nothing is in the decoders of connections without data. -/
def Unread (decoder : Decoders → Address → Decoder) (network : Network Address Decoders) : Prop :=
  ∀ connection ∈ network.connections, connection.connected → connection.pieces = [] →
    (decoder network.decoders connection.address).buffer = []

theorem step_cases {network after : Network Address Decoders} {action : NetworkAction Address}
    (stepped : endpoint.step network action = some after) :
    (∃ address, action = .connect address ∧
      (∀ connection ∈ network.connections, connection.connected → connection.address ≠ address) ∧
      after = endpoint.connect network address) ∨
    ∃ index connection, network.connections[index]? = some connection ∧ connection.connected ∧
      ((∃ piece, action = .data index piece ∧
        after = endpoint.receive network index connection piece) ∨
      action = .disconnect index ∧ after = endpoint.disconnect network index connection) := by
  cases action with
  | connect address =>
      simp only [step] at stepped
      split at stepped
      next free =>
        cases stepped
        exact .inl ⟨address, rfl, free, rfl⟩
      · cases stepped
  | data index piece =>
      simp only [step, Option.map_eq_some_iff, Option.filter_eq_some_iff] at stepped
      obtain ⟨connection, ⟨found, connected⟩, rfl⟩ := stepped
      exact .inr ⟨index, connection, found, connected, .inl ⟨piece, rfl, rfl⟩⟩
  | disconnect index =>
      simp only [step, Option.map_eq_some_iff, Option.filter_eq_some_iff] at stepped
      obtain ⟨connection, ⟨found, connected⟩, rfl⟩ := stepped
      exact .inr ⟨index, connection, found, connected, .inr ⟨rfl, rfl⟩⟩

section Steps

variable {decoder : Decoders → Address → Decoder} {ready : Decoders → Address → Prop}
  {network : Network Address Decoders}

theorem feed_buffer {first second : Decoder} (sound : first.Sound) (sound' : second.Sound)
    (same : first.buffer = second.buffer) (piece : Bytes) :
    (first.feed piece).1 = (second.feed piece).1 ∧
      (first.feed piece).2.buffer = (second.feed piece).2.buffer := by
  obtain ⟨_, _, results, rest⟩ := Decoder.feed_spec sound piece
  obtain ⟨_, _, results', rest'⟩ := Decoder.feed_spec sound' piece
  rw [results, results', rest, rest', same]
  exact ⟨rfl, rfl⟩

theorem separate_connect (decodes : endpoint.Decodes decoder ready)
    (separate : Separate decoder ready network) {address : Address}
    (free : ∀ connection ∈ network.connections, connection.connected →
      connection.address ≠ address) :
    Separate decoder ready (endpoint.connect network address) := by
  have known : ∀ connection ∈ (endpoint.connect network address).connections,
      connection ∈ network.connections ∨ connection = ⟨address, true, [], []⟩ := by
    intro connection membership
    simpa [connect] using membership
  refine ⟨?_, ?_, ?_, ?_, ?_⟩
  · refine List.pairwise_append.mpr ⟨separate.distinct, List.pairwise_singleton _ _, ?_⟩
    intro connection older other newer connected _
    rw [List.mem_singleton.mp newer]
    exact free connection older connected
  · intro other
    by_cases here : other = address
    · subst here
      rcases decodes.kept true other network.decoders with kept | fresh
      · simpa [connect, kept] using separate.sound other
      · simpa [connect, fresh] using Decoder.sound_fresh
    · simpa [connect, (decodes.elsewhere true address network.decoders other here).1]
        using separate.sound other
  · intro connection membership
    rcases known connection membership with older | rfl
    · exact separate.decoded connection older
    · rfl
  · intro connection membership connected
    rcases known connection membership with older | rfl
    · exact (decodes.elsewhere true address network.decoders _ (free connection older connected)).2
        (separate.ready connection older connected)
    · exact decodes.opened address network.decoders
  · intro connection membership connected received
    rcases known connection membership with older | rfl
    · simp only [connect,
        (decodes.elsewhere true address network.decoders _ (free connection older connected)).1]
      exact separate.held connection older connected received
    · exact absurd rfl received

omit [DecidableEq Address] in
/-- A connection among the others, in whose place another one may be put. -/
theorem distinct_split {connections : List (Connection Address)} (distinct : Distinct connections)
    {index : Nat} {connection : Connection Address} (found : connections[index]? = some connection)
    (connected : connection.connected) (changed : Connection Address)
    (same : changed.address = connection.address) :
    Distinct (connections.set index changed) ∧
      ∀ other ∈ connections.set index changed, other = changed ∨
        other ∈ connections ∧ (other.connected → other.address ≠ connection.address) := by
  obtain ⟨inRange, rfl⟩ := List.getElem?_eq_some_iff.mp found
  have split := List.set_eq_take_append_cons_drop (a := changed) (l := connections) (i := index)
  rw [if_pos inRange] at split
  have whole : connections = connections.take index ++ connections[index] ::
      connections.drop (index + 1) := by
    rw [List.getElem_cons_drop, List.take_append_drop]
  rw [Distinct, whole, List.pairwise_append, List.pairwise_cons] at distinct
  obtain ⟨front, ⟨back, behind⟩, across⟩ := distinct
  rw [split]
  refine ⟨?_, ?_⟩
  · refine List.pairwise_append.mpr ⟨front, List.pairwise_cons.mpr ⟨?_, behind⟩, ?_⟩
    · intro other later changedOpen open'
      rw [same]
      exact back other later connected open'
    · intro other earlier later membership open' laterOpen
      rcases List.mem_cons.mp membership with rfl | inBack
      · rw [same]
        exact across other earlier _ List.mem_cons_self open' connected
      · exact across other earlier later (List.mem_cons_of_mem _ inBack) open' laterOpen
  · intro other membership
    rcases List.mem_append.mp membership with earlier | membership
    · exact .inr ⟨List.mem_of_mem_take earlier, fun open' =>
        across other earlier _ List.mem_cons_self open' connected⟩
    rcases List.mem_cons.mp membership with rfl | later
    · exact .inl rfl
    · exact .inr ⟨List.mem_of_mem_drop later, fun open' =>
        (back other later connected open').symm⟩

theorem separate_disconnect (decodes : endpoint.Decodes decoder ready)
    (separate : Separate decoder ready network) {index : Nat} {connection : Connection Address}
    (found : network.connections[index]? = some connection) (connected : connection.connected) :
    Separate decoder ready (endpoint.disconnect network index connection) := by
  obtain ⟨distinct, known⟩ := distinct_split separate.distinct found connected
    { connection with connected := false } rfl
  have elsewhere := decodes.elsewhere false connection.address network.decoders
  refine ⟨distinct, ?_, ?_, ?_, ?_⟩
  · intro other
    by_cases here : other = connection.address
    · subst here
      rcases decodes.kept false connection.address network.decoders with kept | fresh
      · simpa [disconnect, kept] using separate.sound connection.address
      · simpa [disconnect, fresh] using Decoder.sound_fresh
    · simpa [disconnect, (elsewhere other here).1] using separate.sound other
  · intro other membership
    rcases known other membership with rfl | ⟨older, _⟩
    · exact separate.decoded connection (List.mem_of_getElem? found)
    · exact separate.decoded other older
  · intro other membership open'
    rcases known other membership with rfl | ⟨older, away⟩
    · cases open'
    · exact (elsewhere _ (away open')).2 (separate.ready other older open')
  · intro other membership open' received
    rcases known other membership with rfl | ⟨older, away⟩
    · cases open'
    · rw [disconnect, (elsewhere _ (away open')).1]
      exact separate.held other older open' received

theorem separate_receive (decodes : endpoint.Decodes decoder ready)
    (separate : Separate decoder ready network) {index : Nat} {connection : Connection Address}
    (found : network.connections[index]? = some connection) (connected : connection.connected)
    (piece : Bytes)
    (starts : connection.pieces = [] → (decoder network.decoders connection.address).buffer = []) :
    Separate decoder ready (endpoint.receive network index connection piece) := by
  have member := List.mem_of_getElem? found
  have isReady := separate.ready connection member connected
  obtain ⟨emitted, next, readyAfter⟩ := decodes.fed connection.address piece network.decoders isReady
  have elsewhere := decodes.apart connection.address piece network.decoders
  have buffer : (decoder network.decoders connection.address).buffer =
      (Decoder.feeds connection.pieces).2.buffer := by
    by_cases first : connection.pieces = []
    · rw [starts first, first]
      rfl
    · exact separate.held connection member connected first
  have sound := separate.sound connection.address
  have alike := feed_buffer sound (Decoder.feeds_spec connection.pieces).1 buffer piece
  obtain ⟨distinct, known⟩ := distinct_split separate.distinct found connected
    { connection with
      pieces := connection.pieces ++ [piece]
      decoded := connection.decoded ++
        [(endpoint.onMessage connection.address piece network.decoders).1] } rfl
  refine ⟨distinct, ?_, ?_, ?_, ?_⟩
  · intro other
    by_cases here : other = connection.address
    · subst here
      rw [receive, next]
      exact (Decoder.feed_spec sound piece).1
    · rw [receive, (elsewhere other here).1]
      exact separate.sound other
  · intro other membership
    rcases known other membership with rfl | ⟨older, _⟩
    · rw [Decoder.feeds_append, emitted, alike.1, separate.decoded connection member]
    · exact separate.decoded other older
  · intro other membership open'
    rcases known other membership with rfl | ⟨older, away⟩
    · exact readyAfter
    · exact (elsewhere _ (away open')).2 (separate.ready other older open')
  · intro other membership open' received
    rcases known other membership with rfl | ⟨older, away⟩
    · rw [receive, next, Decoder.feeds_append]
      exact alike.2
    · rw [receive, (elsewhere _ (away open')).1]
      exact separate.held other older open' received

/-- A step keeps the connections apart when no leftovers are taken up. -/
theorem separate_step (decodes : endpoint.Decodes decoder ready)
    (separate : Separate decoder ready network) {after : Network Address Decoders}
    {action : NetworkAction Address} (starts : StartsEmpty decoder ⟨network, action, after⟩)
    (stepped : endpoint.step network action = some after) : Separate decoder ready after := by
  rcases step_cases stepped with ⟨address, rfl, free, rfl⟩ |
    ⟨index, connection, found, connected, ⟨piece, rfl, rfl⟩ | ⟨rfl, rfl⟩⟩
  · exact separate_connect decodes separate free
  · exact separate_receive decodes separate found connected piece
      (starts connection found connected)
  · exact separate_disconnect decodes separate found connected

theorem separate_initial (decodes : endpoint.Decodes decoder ready) :
    Separate decoder ready endpoint.network.initial where
  distinct := .nil
  sound address := by
    rw [network, decodes.fresh]
    exact Decoder.sound_fresh
  decoded _ membership := nomatch membership
  ready _ membership := nomatch membership
  held _ membership := nomatch membership

/-- The first data are decoded rightly, whatever they are, just when nothing is
left over. -/
theorem first_data_iff (decodes : endpoint.Decodes decoder ready)
    (separate : Separate decoder ready network) {index : Nat} {connection : Connection Address}
    (found : network.connections[index]? = some connection) (connected : connection.connected)
    (first : connection.pieces = []) :
    (∀ piece after, endpoint.step network (.data index piece) = some after → after.Apart) ↔
      (decoder network.decoders connection.address).buffer = [] := by
  have stepped : ∀ piece, endpoint.step network (.data index piece) =
      some (endpoint.receive network index connection piece) := by
    intro piece
    simp [step, found, connected]
  have member := List.mem_of_getElem? found
  constructor
  · intro right
    by_contra left
    obtain ⟨msg, sendable, spoilt⟩ := spoils left
    obtain ⟨emitted, _, _⟩ := decodes.fed connection.address (Encoder.encode msg) network.decoders
      (separate.ready connection member connected)
    obtain ⟨_, _, results, _⟩ :=
      Decoder.feed_spec (separate.sound connection.address) (Encoder.encode msg)
    obtain ⟨inRange, _⟩ := List.getElem?_eq_some_iff.mp found
    have apart := right (Encoder.encode msg) _ (stepped _) _ (List.mem_set inRange _)
    simp only [separate.decoded connection member, first, emitted, results] at apart
    rw [Decoder.feeds_append, List.append_right_inj, List.cons.injEq] at apart
    exact spoilt (apart.1.trans (fresh_feed sendable))
  · intro empty piece after continued
    rw [stepped, Option.some.injEq] at continued
    subst after
    exact (separate_receive decodes separate found connected piece fun _ => empty).decoded

/-- Without leftovers the connections of a run are decoded apart; where there
are some, the first data of a connection may be decoded wrongly. -/
theorem decodedApart_of_startsEmpty (decodes : endpoint.Decodes decoder ready)
    {history : List (Event (Network Address Decoders) (NetworkAction Address))}
    (run : Run endpoint.network history network)
    (starts : ∀ event ∈ history, StartsEmpty decoder event) :
    endpoint.DecodedApart decoder history network := by
  have separate : ∀ earlier, Visited history network earlier → Separate decoder ready earlier :=
    fun earlier => run.visitedUnder (Separate decoder ready) (StartsEmpty decoder)
      (separate_initial decodes)
      (fun _ _ _ separate starts => separate_step decodes separate starts) starts
  refine ⟨fun earlier seen => (separate earlier seen).decoded, ?_⟩
  intro index connection found connected first
  exact first_data_iff decodes (separate network (.last _ _)) found connected first

theorem apart_of_refreshes (decodes : endpoint.Decodes decoder ready)
    (refreshes : ∀ address decoders,
      decoder (endpoint.onConnection true address decoders) address = {})
    {history : List (Event (Network Address Decoders) (NetworkAction Address))}
    (run : Run endpoint.network history network) : network.Apart := by
  suffices Separate decoder ready network ∧ Unread decoder network from this.1.decoded
  apply run.invariant (fun network => Separate decoder ready network ∧ Unread decoder network)
  · exact ⟨separate_initial decodes, fun _ membership => nomatch membership⟩
  · rintro before action after ⟨separate, unread⟩ stepped
    have starts : StartsEmpty decoder ⟨before, action, after⟩ := by
      cases action with
      | data index piece =>
          exact fun connection found => unread connection (List.mem_of_getElem? found)
      | connect | disconnect => trivial
    refine ⟨separate_step decodes separate starts stepped, ?_⟩
    rcases step_cases stepped with ⟨address, rfl, free, rfl⟩ |
      ⟨index, connection, found, connected, ⟨piece, rfl, rfl⟩ | ⟨rfl, rfl⟩⟩
    · intro other membership open' first
      rcases List.mem_append.mp membership with older | newer
      · rw [connect, (decodes.elsewhere true address before.decoders _ (free other older open')).1]
        exact unread other older open' first
      · rw [List.mem_singleton.mp newer, connect, refreshes]
    · intro other membership open' first
      obtain ⟨_, known⟩ := distinct_split separate.distinct found connected { connection with
        pieces := connection.pieces ++ [piece]
        decoded := connection.decoded ++
          [(endpoint.onMessage connection.address piece before.decoders).1] } rfl
      rcases known other membership with rfl | ⟨older, away⟩
      · simp at first
      · rw [receive, (decodes.apart connection.address piece _ _ (away open')).1]
        exact unread other older open' first
    · intro other membership open' first
      obtain ⟨_, known⟩ := distinct_split separate.distinct found connected
        { connection with connected := false } rfl
      rcases known other membership with rfl | ⟨older, away⟩
      · cases open'
      · rw [disconnect, (decodes.elsewhere false connection.address _ _ (away open')).1]
        exact unread other older open' first

end Steps

end Endpoint

section Endpoints

open Endpoint

/-- The decoder of `GetDecoder`. -/
def keyedDecoder (decoders : Nat → Option Decoder) (conn : Nat) : Decoder :=
  (decoders conn).getD {}

theorem businessProcessor_decodes : businessProcessor.Decodes keyedDecoder fun _ _ => True where
  fresh _ := rfl
  opened _ _ := trivial
  kept _ _ _ := .inl rfl
  elsewhere _ _ _ _ _ := ⟨rfl, id⟩
  fed conn raw decoders _ := by simp [businessProcessor, keyedDecoder]
  apart conn raw decoders other away := by simp [businessProcessor, keyedDecoder, away]

theorem rpcServer_decodes :
    rpcServer.Decodes keyedDecoder fun decoders conn => (decoders conn).isSome where
  fresh _ := rfl
  opened conn decoders := by simp [rpcServer]
  kept connected conn decoders := by cases connected <;> simp [rpcServer, keyedDecoder]
  elsewhere connected conn decoders other away := by simp [rpcServer, keyedDecoder, away]
  fed conn raw decoders ready := by
    obtain ⟨decoder, found⟩ := Option.isSome_iff_exists.mp ready
    simp [rpcServer, keyedDecoder, found]
  apart conn raw decoders other away := by
    cases found : decoders conn <;> simp [rpcServer, keyedDecoder, found, away]

theorem reusedDecoder_decodes :
    reusedDecoder.Decodes (fun decoder _ => decoder) fun _ _ => True where
  fresh _ := rfl
  opened _ _ := trivial
  kept _ _ _ := .inl rfl
  elsewhere _ _ _ _ away := absurd rfl away
  fed _ _ _ _ := ⟨rfl, rfl, trivial⟩
  apart _ _ _ _ away := absurd rfl away

theorem rpcServer_apart {history : List (Event (Network Nat (Nat → Option Decoder)) (NetworkAction Nat))}
    {network : Network Nat (Nat → Option Decoder)} (run : Run rpcServer.network history network) :
    network.Apart :=
  apart_of_refreshes rpcServer_decodes (fun _ _ => by simp [rpcServer, keyedDecoder]) run

theorem businessProcessor_apart
    {history : List (Event (Network Nat (Nat → Option Decoder)) (NetworkAction Nat))}
    {network : Network Nat (Nat → Option Decoder)}
    (run : Run businessProcessor.network history network)
    (starts : ∀ event ∈ history, StartsEmpty keyedDecoder event) :
    businessProcessor.DecodedApart keyedDecoder history network :=
  decodedApart_of_startsEmpty businessProcessor_decodes run starts

/-- Each client decodes the responses of a connection as a fresh one would. -/
theorem clients_apart :
    ∀ client ∈ [fileClient, rpcClient],
      ∀ (history : List (Event (Network Unit Decoder) (NetworkAction Unit)))
        (network : Network Unit Decoder), Run client.network history network →
      (∀ event ∈ history, StartsEmpty (fun decoder _ => decoder) event) →
      client.DecodedApart (fun decoder _ => decoder) history network := by
  intro client membership history network run starts
  have reused : client = reusedDecoder := by
    simpa [fileClient, rpcClient] using membership
  subst reused
  exact decodedApart_of_startsEmpty reusedDecoder_decodes run starts

/-- A connection is lost after the first byte of a frame, and the next one has
the same address. -/
def interrupted {Address : Type} (address : Address) : List (NetworkAction Address) :=
  [.connect address, .data 0 [0x4D], .disconnect 0, .connect address,
    .data 1 (Encoder.encode (signal 1))]

/-- The first connection is lost between two frames. -/
def completed {Address : Type} (address : Address) : List (NetworkAction Address) :=
  [.connect address, .data 0 (Encoder.encode (signal 1)), .disconnect 0, .connect address,
    .data 1 (Encoder.encode (signal 2))]

theorem completed_apart :
    ∃ history network, Run businessProcessor.network history network ∧
      businessProcessor.DecodedApart keyedDecoder history network :=
  have run := businessProcessor.network.run (completed 7) (by decide +kernel)
  ⟨_, _, run, businessProcessor_apart run (by decide +kernel)⟩

theorem completed_clients_apart :
    ∃ history network, Run fileClient.network history network ∧
      fileClient.DecodedApart (fun decoder _ => decoder) history network :=
  have run := fileClient.network.run (completed ()) (by decide +kernel)
  ⟨_, _, run, clients_apart fileClient (by simp) _ _ run (by decide +kernel)⟩

theorem businessProcessor_leaks :
    ¬∀ (history : List (Event (Network Nat (Nat → Option Decoder)) (NetworkAction Nat)))
      (network : Network Nat (Nat → Option Decoder)),
      Run businessProcessor.network history network → network.Apart := by
  intro apart
  have last := apart _ _ (businessProcessor.network.run (interrupted 7) (by decide +kernel))
  revert last
  decide +kernel

theorem fileClient_leaks :
    ¬∀ client ∈ [fileClient, rpcClient],
      ∀ (history : List (Event (Network Unit Decoder) (NetworkAction Unit)))
        (network : Network Unit Decoder), Run client.network history network → network.Apart := by
  intro apart
  have last := apart fileClient (by simp) _ _
    (fileClient.network.run (interrupted ()) (by decide +kernel))
  revert last
  decide +kernel

end Endpoints

end FileServer.Protocol

import Stalker2D.EndToEnd.Rest

/-!
# Every request is answered or a connection closes

Whatever happens between two open ends, the events that get on with it come to an end:
`pairWork` is what is left to do, from the writes of the client over the reads of the server
and its writes to the reads of the client, and each of them lowers it. Where they have come
to an end an end has closed, or every request that was sent has its answer.
-/

namespace Stalker2D.EndToEnd

open Protocol Network Client Game Machine

/-- Two ends and what belongs to them. -/
structure Joined (system : System) (place position : Nat) (link : ClientLink)
    (socket : ServerLink) (peer : Peer) : Prop where
  link : system.links[place]? = some link
  socket : system.sockets[position]? = some socket
  peer : system.server.connections[position]? = some peer

/-- What getting on can mean for two ends. -/
inductive PairStep (hosts : Hosts) (link : ClientLink) (socket : ServerLink) (peer : Peer) :
    ClientLink → ServerLink → Peer → Prop
  | link (event : Connection.Event ServerMessage ClientMessage)
      (connection : Connection ServerMessage ClientMessage) (progress : event.progress = true)
      (step : Connection.step hosts.client hosts.requests.serializeToString link.connection
        event = some connection) :
      PairStep hosts link socket peer { link with connection } socket peer
  | peer (event : Connection.Event ClientMessage ServerMessage) (connection : ServerConnection)
      (progress : event.progress = true)
      (step : Connection.step hosts.server hosts.responses.serializeToString peer.connection
        event = some connection) :
      PairStep hosts link socket peer link socket { peer with connection }
  | read (arrived : Nat) (message : ServerMessage) (channel : MessageChannel) (consumed : Nat)
      (handling : Option ServerMessage)
      (transfers : transfer hosts.responses hosts.client link.channel peer.connection.wire
        link.consumed arrived = some (message, channel, consumed)) :
      PairStep hosts link socket peer
        { link with
          connection := link.connection.readMessage message, channel, consumed, handling }
        socket peer
  | deliver (arrived : Nat) (message : ClientMessage) (channel : MessageChannel) (consumed : Nat)
      (later : Peer)
      (transfers : transfer hosts.requests hosts.server socket.channel link.connection.wire
        socket.consumed arrived = some (message, channel, consumed)) :
      PairStep hosts link socket peer link { socket with channel, consumed } later
  | receive (message : ServerMessage) (handling : link.handling = some message) :
      PairStep hosts link socket peer { link with handling := none } socket peer

section Steps

variable {hosts : Hosts} {system t : System} {place position : Nat} {e : System.Event}
variable {link link' : ClientLink} {socket socket' : ServerLink} {peer peer' : Peer}

theorem getElem?_modify_self {α : Type} {l : List α} {i : Nat} {a : α} (h : l[i]? = some a)
    (f : α → α) : (l.modify i f)[i]? = some (f a) := by
  rw [List.getElem?_modify_eq, h]
  rfl

/-- Every event that gets on with the two ends is one of these. -/
theorem pair_step (joined : Joined system place position link socket peer)
    (hprogress : progress place position e = true) (hstep : System.step hosts system e = some t) :
    ∃ link' socket' peer', Joined t place position link' socket' peer' ∧
      PairStep hosts link socket peer link' socket' peer' := by
  obtain ⟨hlink, hsocket, hpeer⟩ := joined
  cases step_cases hstep with
  | link moved event link connection get internal step =>
    simp only [progress, Bool.and_eq_true, decide_eq_true_eq] at hprogress
    obtain ⟨rfl, hprogress⟩ := hprogress
    obtain rfl := Option.some.inj (hlink.symm.trans get)
    exact ⟨_, socket, peer, ⟨getElem?_modify_self hlink _, hsocket, hpeer⟩,
      .link event connection hprogress step⟩
  | server event server own step =>
    cases event with
    | connection moved event =>
      simp only [progress, Bool.and_eq_true, decide_eq_true_eq] at hprogress
      obtain ⟨rfl, hprogress⟩ := hprogress
      simp only [Server.step, hpeer, Option.ite_none_right_eq_some, Option.map_eq_some_iff] at step
      obtain ⟨-, connection, hconnection, rfl⟩ := step
      refine ⟨link, socket, _, ⟨hlink, hsocket, ?_⟩, .peer event connection hprogress hconnection⟩
      rw [Server.connections_advance]
      exact getElem?_modify_self hpeer _
    | accept | deliver | stopAll => cases hprogress
  | read reader writer arrived link peer message channel consumed connection get peerGet transfers
      step =>
    simp only [progress, Bool.and_eq_true, decide_eq_true_eq] at hprogress
    obtain ⟨rfl, rfl⟩ := hprogress
    obtain rfl := Option.some.inj (hlink.symm.trans get)
    obtain rfl := Option.some.inj (hpeer.symm.trans peerGet)
    simp only [Connection.step, Option.ite_none_right_eq_some, Option.some.injEq] at step
    obtain ⟨-, rfl⟩ := step
    exact ⟨_, socket, _, ⟨getElem?_modify_self hlink _, hsocket, hpeer⟩,
      .read arrived message channel consumed _ transfers⟩
  | deliver reader writer arrived socket link message channel consumed server socketGet get
      transfers step =>
    simp only [progress, Bool.and_eq_true, decide_eq_true_eq] at hprogress
    obtain ⟨rfl, rfl⟩ := hprogress
    obtain rfl := Option.some.inj (hlink.symm.trans get)
    obtain rfl := Option.some.inj (hsocket.symm.trans socketGet)
    obtain ⟨later, hlater⟩ : ∃ later, server.connections[reader]? = some later := by
      have hlength := (Server.effect_step step).length
      simp only [Server.standings, List.length_map] at hlength
      have hlt := (List.getElem?_eq_some_iff.mp hpeer).1
      exact ⟨_, List.getElem?_eq_getElem (Nat.lt_of_lt_of_le hlt hlength)⟩
    exact ⟨_, _, later, ⟨hlink, getElem?_modify_self hsocket _, hlater⟩,
      .deliver arrived message channel consumed later transfers⟩
  | receive handler link message get handling =>
    simp only [progress, decide_eq_true_eq] at hprogress
    subst hprogress
    obtain rfl := Option.some.inj (hlink.symm.trans get)
    exact ⟨_, socket, peer, ⟨getElem?_modify_self hlink _, hsocket, hpeer⟩,
      .receive message handling⟩
  | refused | started | idle | stops | unsent | sends | client | refuses | accepts | foreign =>
    cases hprogress

end Steps

section Work

/-- A successful `async_read` takes the bytes of the buffer off the stream. -/
theorem length_asyncRead {stream buffer bytes rest : List UInt8}
    (h : MessageChannel.asyncRead stream buffer = (.ok (), bytes, rest)) :
    rest.length + buffer.length = stream.length := by
  simp only [MessageChannel.asyncRead] at h
  split at h
  next hle =>
    cases h
    rw [List.length_drop]
    omega
  next => cases h

/-- A read that succeeds takes at least the prefix off the stream. -/
theorem length_readMessage {μ : Type} {parseFromArray : List UInt8 → Int32 → Option μ}
    {native : Endian} {channel channel' : MessageChannel} {stream rest : List UInt8} {message : μ}
    (h : channel.readMessage parseFromArray native stream = (.ok message, channel', rest)) :
    rest.length < stream.length := by
  simp only [MessageChannel.readMessage] at h
  split at h
  next => cases h
  next bytes afterPrefix hprefix =>
    have hfour := length_asyncRead hprefix
    rw [List.length_replicate] at hfour
    split at h
    next => cases h
    next =>
      split at h
      next => cases h
      next data afterData hdata =>
        have hpayload := length_asyncRead hdata
        split at h
        next => cases h
        next =>
          cases h
          omega

/-- Less is left to be read. -/
theorem transfer_lt {μ : Type} {protobuf : Protobuf μ} {native : Endian}
    {channel channel' : MessageChannel} {wire : List UInt8} {consumed consumed' arrived : Nat}
    {message : μ}
    (h : transfer protobuf native channel wire consumed arrived =
      some (message, channel', consumed')) :
    wire.length - consumed' < wire.length - consumed := by
  simp only [transfer] at h
  split at h
  next hread =>
    cases h
    have hlt := length_readMessage hread
    simp only [List.length_take, List.length_drop] at hlt ⊢
    omega
  next => cases h

/-- What is left to do for two ends. Getting on with one of these may add to those after it. -/
def pairWork (link : ClientLink) (socket : ServerLink) (peer : Peer) :
    (ℕ ×ₗ ℕ ×ₗ ℕ ×ₗ ℕ) ×ₗ ℕ ×ₗ (ℕ ×ₗ ℕ ×ₗ ℕ ×ₗ ℕ) ×ₗ ℕ ×ₗ ℕ ×ₗ ℕ :=
  toLex (link.connection.work, toLex (link.connection.wire.length - socket.consumed,
    toLex (peer.connection.work, toLex (peer.connection.reader.busy,
      toLex (peer.connection.wire.length - link.consumed,
        link.connection.reader.busy + link.handling.toList.length)))))

variable {hosts : Hosts} {link link' : ClientLink} {socket socket' : ServerLink}
variable {peer peer' : Peer}

theorem pairWork_lt (step : PairStep hosts link socket peer link' socket' peer') :
    pairWork link' socket' peer' < pairWork link socket peer := by
  simp only [pairWork, Prod.Lex.toLex_lt_toLex]
  cases step with
  | link event connection progress step =>
    obtain hwork | ⟨rfl, hreader⟩ := Connection.progress_step progress step
    · exact .inl hwork
    · have hbusy := Connection.busy_readLoop hreader
      refine .inr ⟨rfl, .inr ⟨rfl, .inr ⟨rfl, .inr ⟨rfl, .inr ⟨rfl, ?_⟩⟩⟩⟩⟩
      exact Nat.add_lt_add_right hbusy _
  | peer event connection progress step =>
    refine .inr ⟨rfl, .inr ⟨rfl, ?_⟩⟩
    obtain hwork | ⟨rfl, hreader⟩ := Connection.progress_step progress step
    · exact .inl hwork
    · exact .inr ⟨rfl, .inl (Connection.busy_readLoop hreader)⟩
  | read arrived message channel consumed handling transfers =>
    have hwire : (link.connection.readMessage message).wire = link.connection.wire := by
      rw [Connection.readMessage]
      split <;> rfl
    refine .inr ⟨Connection.work_readMessage _ _, .inr ⟨?_, .inr ⟨rfl, .inr ⟨rfl, .inl ?_⟩⟩⟩⟩
    · rw [hwire]
    · exact transfer_lt transfers
  | deliver arrived message channel consumed later transfers =>
    exact .inr ⟨rfl, .inl (transfer_lt transfers)⟩
  | receive message handling =>
    refine .inr ⟨rfl, .inr ⟨rfl, .inr ⟨rfl, .inr ⟨rfl, .inr ⟨rfl, ?_⟩⟩⟩⟩⟩
    rw [handling]
    exact Nat.lt_succ_self _

/-- What is between two ends cannot go on for ever. -/
theorem pair_ends {system : System} {place position : Nat}
    (joined : Joined system place position link socket peer) :
    Ends (System.step hosts) (fun e => progress place position e = true) system := by
  refine Ends.ofMeasure (fun system work => ∃ link socket peer,
    Joined system place position link socket peer ∧ pairWork link socket peer = work) ?_
    ⟨link, socket, peer, joined, rfl⟩
  rintro system work e t ⟨link, socket, peer, joined, rfl⟩ hprogress hstep
  obtain ⟨link', socket', peer', joined', step⟩ := pair_step joined hprogress hstep
  exact ⟨_, ⟨link', socket', peer', joined', rfl⟩, pairWork_lt step⟩

end Work

section Conclusion

variable {hosts : Hosts} {system t : System} {place position : Nat} {e : System.Event}

/-- Only `stopAll` stops the server. -/
theorem stopped_step {server next : Server} {event : Server.Event}
    (hstep : Server.step hosts.server hosts.responses.serializeToString server event = some next)
    (hne : event ≠ .stopAll) : next.manager.stopped = server.manager.stopped := by
  cases Server.effect_step hstep with
  | unchanged _ _ _ manager => rw [manager]
  | refused _ _ _ manager => rw [manager]
  | created _ _ _ _ manager => rw [manager]
  | served _ _ _ _ _ _ _ _ manager => rw [manager]
  | closed _ _ _ _ _ _ _ manager => rw [manager, ServerConnectionManager.stopped_remove]
  | stopped => exact absurd rfl hne

/-- Nothing is sent meanwhile, and the server runs on. -/
theorem progress_frame (hprogress : progress place position e = true)
    (hstep : System.step hosts system e = some t) :
    t.client.calls.length = system.client.calls.length ∧
      t.server.manager.stopped = system.server.manager.stopped ∧ System.accepts [e] = 0 := by
  have unsent : ∀ {client : ClientRequestManager} (event : ClientRequestManager.Event),
      system.client.step event = some client → (∀ message, event ≠ .send message) →
      client.calls.length = system.client.calls.length := by
    intro client event hclient hno
    obtain ⟨hlength, -⟩ | ⟨link, message, he, -⟩ :=
      ClientRequestManager.calls_length_step hclient
    · exact hlength
    · exact absurd he (hno message)
  cases step_cases hstep with
  | link moved event link connection =>
    refine ⟨?_, rfl, rfl⟩
    obtain hsame | hcloses := client_advance system moved link connection
    · rw [hsame]
    · exact unsent _ hcloses fun _ he => by cases he
  | server event server own step =>
    cases event with
    | connection moved event =>
      exact ⟨rfl, stopped_step step (fun he => by cases he), rfl⟩
    | accept | deliver | stopAll => cases hprogress
  | read => exact ⟨rfl, rfl, rfl⟩
  | deliver _ _ _ _ _ _ _ _ _ _ _ _ step =>
    exact ⟨rfl, stopped_step step (fun he => by cases he), rfl⟩
  | receive handler link message =>
    exact ⟨unsent (.receive message) rfl (fun _ he => by cases he), rfl, rfl⟩
  | refused | started | idle | stops | unsent | sends | client | refuses | accepts | foreign =>
    cases hprogress

variable {config : Config} {link link' : ClientLink} {socket socket' : ServerLink}
variable {peer peer' : Peer}

/-- A pair keeps its socket and the limit of the client's end. -/
theorem kept_pairStep (step : PairStep hosts link socket peer link' socket' peer') :
    link'.socket = link.socket ∧ socket'.socket = socket.socket ∧
      link'.connection.codec = link.connection.codec := by
  cases step with
  | link event connection progress step => exact ⟨rfl, rfl, (Connection.limits_step step).1⟩
  | peer | deliver | receive => exact ⟨rfl, rfl, rfl⟩
  | read =>
    refine ⟨rfl, rfl, ?_⟩
    dsimp only
    rw [Connection.readMessage]
    split <;> rfl

/-- Two ends whose requests can be answered. -/
structure Awaiting (hosts : Hosts) (config : Config) (place position : Nat) (system : System) :
    Prop where
  reached : ∃ es, (System.step hosts).exec (.initial config) es = some system ∧
    System.accepts es < 65536
  numbered : system.client.calls.length < UInt64.size
  running : system.server.manager.stopped = false
  joined : ∃ link socket peer, Joined system place position link socket peer ∧
    socket.socket = some link.socket ∧ link.connection.codec = peer.connection.codec

theorem Awaiting.step (lawful : hosts.Lawful)
    (awaiting : Awaiting hosts config place position system)
    (hprogress : progress place position e = true)
    (hstep : System.step hosts system e = some t) : Awaiting hosts config place position t := by
  obtain ⟨es, run, few⟩ := awaiting.reached
  obtain ⟨link, socket, peer, joined, hnumber, limits⟩ := awaiting.joined
  obtain ⟨hlength, hstopped, haccepts⟩ := progress_frame hprogress hstep
  refine ⟨⟨es ++ [e], ?_, ?_⟩, hlength ▸ awaiting.numbered, hstopped ▸ awaiting.running, ?_⟩
  · exact Machine.exec_concat_eq_some.mpr ⟨system, run, hstep⟩
  · rw [System.accepts_append]
    omega
  · obtain ⟨link', socket', peer', joined', step⟩ := pair_step joined hprogress hstep
    obtain ⟨hlink, hsocket, hcodec⟩ := kept_pairStep step
    refine ⟨link', socket', peer', joined', ?_, ?_⟩
    · rw [hsocket, hlink, hnumber]
    · have hpeer : peer'.connection.codec = peer.connection.codec := by
        obtain ⟨hsame, -⟩ | ⟨event, serves⟩ := server_step hstep
        · have hget := joined'.peer
          rw [hsame, joined.peer] at hget
          rw [Option.some.inj hget]
        · obtain ⟨later, fs, hlater, run'⟩ := Server.peer_later (safe_exec lawful run few).linked
            serves.step serves.solicited joined.peer
          obtain rfl := Option.some.inj (joined'.peer.symm.trans hlater)
          exact (Connection.lasting_exec run').1
      rw [hcodec, hpeer, limits]

/-- An end has closed, or every request that was sent has been answered. -/
inductive Concluded (system : System) (place position : Nat) : Prop
  | linkClosed (link : ClientLink) (get : system.links[place]? = some link)
      (closed : link.connection.closed = true)
  | peerClosed (peer : Peer) (get : system.server.connections[position]? = some peer)
      (closed : peer.connection.closed = true)
  | answered (link : ClientLink) (get : system.links[place]? = some link)
      (all : AllAnswered system place link)

theorem Awaiting.concluded (lawful : hosts.Lawful)
    (awaiting : Awaiting hosts config place position system)
    (rest : Resting hosts place position system) : Concluded system place position := by
  obtain ⟨es, run, few⟩ := awaiting.reached
  obtain ⟨link, socket, peer, joined, hnumber, limits⟩ := awaiting.joined
  cases hopen : link.connection.closed with
  | true => exact .linkClosed link joined.link hopen
  | false =>
    cases hopen' : peer.connection.closed with
    | true => exact .peerClosed peer joined.peer hopen'
    | false =>
      have all := all_answered_at_rest lawful run few awaiting.numbered joined.link joined.socket
        hnumber joined.peer hopen hopen' awaiting.running limits rest
      exact .answered link joined.link all

/-- What is between the two ends of a connection cannot go on for ever, in whatever order it
happens, and it does come to rest; by then an end has closed or every request that was sent on
the connection has been answered. This holds from every state of every run. -/
theorem requests_concluded {es : List System.Event} (lawful : hosts.Lawful)
    (run : (System.step hosts).exec (.initial config) es = some system)
    (few : System.accepts es < 65536) (numbered : system.client.calls.length < UInt64.size)
    (joined : Joined system place position link socket peer)
    (hnumber : socket.socket = some link.socket)
    (running : system.server.manager.stopped = false)
    (limits : link.connection.codec = peer.connection.codec) :
    Inevitable (System.step hosts) (fun e => progress place position e = true)
      (fun t => Concluded t place position) system := by
  have awaiting : Awaiting hosts config place position system :=
    ⟨⟨es, run, few⟩, numbered, running, link, socket, peer, joined, hnumber, limits⟩
  exact (pair_ends joined).inevitable awaiting (fun _ _ _ awaiting => awaiting.step lawful)
    fun _ awaiting => awaiting.concluded lawful

/-- Two pings have been sent and nothing has been written. One way to get on from there ends
with both answers handled and both ends open. -/
theorem requests_concluded_bothSent :
    ∃ system t, (System.step twoHosts).exec (.initial { maxMessageBytes := 64 }) bothSent =
        some system ∧
      Inevitable (System.step twoHosts) (fun e => progress 0 0 e = true)
        (fun t => Concluded t 0 0) system ∧
      (System.step twoHosts).exec system (carried ++ nextAnswer ++ nextAnswer) = some t ∧
      Resting twoHosts 0 0 t ∧ t.links.map (fun link => (link.connection.closed,
        link.connection.handled.map ServerMessage.requestId)) = [(false, [1, 2])] := by
  have before : ∃ system ∈ (System.step twoHosts).exec (.initial { maxMessageBytes := 64 })
      bothSent, ∃ link ∈ system.links[0]?, ∃ socket ∈ system.sockets[0]?,
      ∃ peer ∈ system.server.connections[0]?,
      system.client.calls.length < UInt64.size ∧ socket.socket = some link.socket ∧
        system.server.manager.stopped = false ∧
        link.connection.codec = peer.connection.codec := by
    decide +kernel
  have after : ∃ t ∈ (System.step twoHosts).exec (.initial { maxMessageBytes := 64 })
      (bothSent ++ (carried ++ nextAnswer ++ nextAnswer)), ∃ link ∈ t.links[0]?,
      ∃ socket ∈ t.sockets[0]?, ∃ peer ∈ t.server.connections[0]?,
      (link.connection.posted = [] ∧ link.connection.live = [] ∧
        link.connection.reader = .reading ∧ link.handling = none) ∧
      (peer.connection.posted = [] ∧ peer.connection.live = [] ∧
        peer.connection.reader = .reading) ∧
      (link.connection.wire.length ≤ socket.consumed ∧
        peer.connection.wire.length ≤ link.consumed) ∧
      t.links.map (fun link => (link.connection.closed,
        link.connection.handled.map ServerMessage.requestId)) = [(false, [1, 2])] := by
    decide +kernel
  obtain ⟨system, run, link, hlink, socket, hsocket, peer, hpeer, numbered, hnumber, running,
    limits⟩ := before
  obtain ⟨t, wholeRun, link', hlink', socket', hsocket', peer', hpeer', linkQuiet, peerQuiet,
    ⟨served, heard⟩, hhandled⟩ := after
  obtain ⟨s, hs, ht⟩ := exec_append_eq_some.mp wholeRun
  obtain rfl := Option.some.inj (hs.symm.trans run)
  exact ⟨s, t, run, requests_concluded lawful_twoHosts run (by decide) numbered
    ⟨hlink, hsocket, hpeer⟩ hnumber running limits, ht,
    resting_of_quiet hlink' hsocket' hpeer' linkQuiet peerQuiet served heard, hhandled⟩

end Conclusion

end Stalker2D.EndToEnd

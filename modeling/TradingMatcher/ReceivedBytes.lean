import TradingMatcher.EpollServer

/-!
# The bytes that reach the handler

What has arrived on a connection is what was handled followed by what is still
in its receive buffer.  Nothing is left behind as long as every connection with
unread bytes has an edge to report or stands among the reported events; a read
that leaves bytes behind without a new edge ends that for good.
-/

namespace TradingMatcher

variable {Fd : Type*} [DecidableEq Fd] {source target server : EpollServer Fd}
  {event : EpollEvent Fd} {history : List (EpollEvent Fd)}

/-- The reported events that the loop has still to handle. -/
def EpollPc.events : EpollPc Fd → List (Ready Fd)
  | .handling events | .accepting events | .registering _ events => events

/-- What arrived is what was handled and what is unread. -/
def Received (history : List (EpollEvent Fd)) (server : EpollServer Fd) : Prop :=
  ∀ fd client, server.clients fd = some client →
    arrived fd history = handled fd history ++ client.unread

@[simp]
theorem EpollServer.setClient_pc (server : EpollServer Fd) (fd : Fd)
    (client : Option Client) : (server.setClient fd client).pc = server.pc :=
  rfl

theorem EpollServer.setClient_clients (server : EpollServer Fd) (fd other : Fd)
    (client : Option Client) :
    (server.setClient fd client).clients other =
      if other = fd then client else server.clients other :=
  Function.update_apply ..

/-- A client that is open after a descriptor was set is the one that was set, or
was open before under another descriptor. -/
theorem EpollServer.setClient_cases {fd subject : Fd} {slot : Option Client}
    {client : Client}
    (isOpen : (server.setClient subject slot).clients fd = some client) :
    fd = subject ∧ slot = some client ∨
      fd ≠ subject ∧ server.clients fd = some client := by
  rw [setClient_clients] at isOpen
  by_cases same : fd = subject
  · rw [if_pos same] at isOpen
    exact .inl ⟨same, isOpen⟩
  · rw [if_neg same] at isOpen
    exact .inr ⟨same, isOpen⟩

theorem Received.step (received : Received history source)
    (edge : EpollStep source event target) :
    Received (event :: history) target := by
  intro fd client isOpen
  cases edge with
  | connect | arriveInBacklog | hangUpInBacklog | handleNewConnection
  | acceptAgain | acceptError | registerError | readAgain =>
      exact received fd client isOpen
  | @arrive subject before chunk wasOpen =>
      rcases EpollServer.setClient_cases isOpen with ⟨rfl, ⟨⟩⟩ | ⟨differ, isOpen⟩
      · simp [arrived, handled, Client.receive, Connection.receive,
          received fd before wasOpen]
      · simpa [arrived, handled, differ.symm] using received fd client isOpen
  | @hangUp subject before wasOpen | @register _ subject before _ wasOpen =>
      rcases EpollServer.setClient_cases isOpen with ⟨rfl, ⟨⟩⟩ | ⟨-, isOpen⟩
      · exact received fd before wasOpen
      · exact received fd client isOpen
  | @accept events subject connection =>
      rcases EpollServer.setClient_cases isOpen with ⟨rfl, ⟨⟩⟩ | ⟨differ, isOpen⟩
      · simp [arrived, handled, Client.accepted]
      · simpa [arrived, handled, differ.symm] using received fd client isOpen
  | @handle events subject before count _ wasOpen =>
      rcases EpollServer.setClient_cases isOpen with ⟨rfl, ⟨⟩⟩ | ⟨differ, isOpen⟩
      · simp [arrived, handled, Client.consume, received fd before wasOpen]
      · simpa [arrived, handled, differ.symm] using received fd client isOpen
  | @readClosed events subject =>
      rcases EpollServer.setClient_cases isOpen with ⟨-, ⟨⟩⟩ | ⟨-, isOpen⟩
      exact received fd client isOpen
  | @wait events =>
      obtain ⟨before, wasOpen, unread⟩ : ∃ before,
          source.clients fd = some before ∧ client.unread = before.unread := by
        dsimp only [EpollServer.report] at isOpen
        split at isOpen
        · obtain ⟨before, wasOpen, rfl⟩ := Option.map_eq_some_iff.mp isOpen
          exact ⟨before, wasOpen, rfl⟩
        · exact ⟨client, isOpen, rfl⟩
      rw [unread]
      exact received fd before wasOpen

/-- A registered connection with unread bytes has an edge to report or is among
the reported events. -/
def Attended (server : EpollServer Fd) : Prop :=
  ∀ fd client, server.clients fd = some client → client.registered = true →
    client.unread ≠ [] → client.pending = true ∨ .client fd ∈ server.pc.events

/-- A read takes all the bytes that wait, unless a new edge has been raised
since the connection was reported. -/
def ReadsOut (server : EpollServer Fd) : EpollEvent Fd → Prop
  | .handle fd data => ∀ client ∈ server.clients fd,
      client.unread = data ∨ client.pending = true
  | _ => True

instance readsOutDecidable (server : EpollServer Fd) :
    ∀ event, Decidable (ReadsOut server event)
  | .handle fd data => inferInstanceAs (Decidable (∀ client ∈
      server.clients fd, client.unread = data ∨ client.pending = true))
  | .connect | .arriveInBacklog _ _ | .hangUpInBacklog _ | .arrive _ _
  | .hangUp _ | .wait _ | .handleNewConnection | .accept _ _ | .acceptAgain | .acceptError _
  | .register _ | .registerError _ | .readAgain _ | .readClosed _ =>
      .isTrue trivial

theorem Attended.step (attended : Attended source)
    (readsOut : ReadsOut source event) (edge : EpollStep source event target) :
    Attended target := by
  intro fd client isOpen registered unread
  cases edge with
  | connect | arriveInBacklog | hangUpInBacklog | acceptError =>
      exact attended fd client isOpen registered unread
  | handleNewConnection pc =>
      have before := attended fd client isOpen registered unread
      simpa [pc, EpollPc.events] using before
  | acceptAgain pc | registerError pc =>
      have before := attended fd client isOpen registered unread
      rwa [pc] at before
  | @readAgain events subject before pc wasOpen empty =>
      have differ : fd ≠ subject := by
        rintro rfl
        obtain rfl := Option.some.inj (wasOpen.symm.trans isOpen)
        exact unread empty
      have before := attended fd client isOpen registered unread
      simpa [pc, EpollPc.events, differ] using before
  | @arrive subject before chunk wasOpen =>
      rcases EpollServer.setClient_cases isOpen with ⟨-, ⟨⟩⟩ | ⟨-, isOpen⟩
      · exact .inl (by simp_all [Client.receive])
      · exact attended fd client isOpen registered unread
  | @hangUp subject before wasOpen =>
      rcases EpollServer.setClient_cases isOpen with ⟨-, ⟨⟩⟩ | ⟨-, isOpen⟩
      · exact .inl (by simp_all [Client.hangUp])
      · exact attended fd client isOpen registered unread
  | @register events subject before pc wasOpen =>
      rcases EpollServer.setClient_cases isOpen with ⟨-, ⟨⟩⟩ | ⟨-, isOpen⟩
      · exact .inl (by simp_all [Client.register])
      · have before := attended fd client isOpen registered unread
        rwa [pc] at before
  | @accept events subject connection backlog pc =>
      rcases EpollServer.setClient_cases isOpen with ⟨-, ⟨⟩⟩ | ⟨-, isOpen⟩
      · cases registered
      · have before := attended fd client isOpen registered unread
        rwa [pc] at before
  | @handle events subject before count pc wasOpen positive requested available =>
      rcases EpollServer.setClient_cases isOpen with ⟨-, ⟨⟩⟩ | ⟨differ, isOpen⟩
      · refine .inl ((readsOut before wasOpen).resolve_left fun whole => ?_)
        -- What is left after a read of everything is nothing.
        apply unread
        exact List.drop_eq_nil_iff.mpr ((List.take_eq_self_iff _).mp whole.symm)
      · have before := attended fd client isOpen registered unread
        simpa [pc, EpollPc.events, differ] using before
  | @readClosed events subject pc =>
      rcases EpollServer.setClient_cases isOpen with ⟨-, ⟨⟩⟩ | ⟨differ, isOpen⟩
      have before := attended fd client isOpen registered unread
      simpa [pc, EpollPc.events, differ] using before
  | @wait events pc =>
      dsimp only [EpollServer.report] at isOpen ⊢
      by_cases reported : .client fd ∈ events
      · exact .inr reported
      · rw [if_neg reported] at isOpen
        have before := attended fd client isOpen registered unread
        simpa [pc, EpollPc.events, reported] using before

section Runs

theorem received_of_run (run : Run EpollStep .started history server) :
    Received history server := by
  apply run.invariant Received
  · intro fd client isOpen
    cases isOpen
  · intro _ _ _ _ _ received edge
    exact received.step edge

/-- What the handler gets is always a prefix of what has arrived. -/
theorem handled_prefix_arrived (run : Run EpollStep .started history server)
    {fd : Fd} {client : Client} (isOpen : server.clients fd = some client) :
    handled fd history <+: arrived fd history :=
  ⟨client.unread, (received_of_run run fd client isOpen).symm⟩

/-- Where every read takes all that waits, a loop with nothing reported and
nothing to report has passed every byte of every registered connection to the
handler, in order and exactly once. -/
theorem readsOut_strands_nothing
    (run : Run (Guarded ReadsOut EpollStep) .started history server)
    (idle : server.pc = .handling [])
    (quiet : ∀ ready, ¬ server.IsPending ready) {fd : Fd} {client : Client}
    (isOpen : server.clients fd = some client)
    (registered : client.registered = true) :
    handled fd history = arrived fd history := by
  have attended : Attended server := by
    apply run.invariant fun _ server => Attended server
    · intro fd client isOpen
      cases isOpen
    · intro _ _ _ _ _ attended edge
      exact attended.step edge.1 edge.2
  have empty : client.unread = [] := by
    by_contra unread
    rcases attended fd client isOpen registered unread with pending | reported
    · exact quiet (.client fd) ⟨client, isOpen, pending⟩
    · rw [idle] at reported
      cases reported
  rw [received_of_run run.unguard fd client isOpen, empty, List.append_nil]

/-- One client connects and is registered. -/
def oneClient : List (EpollEvent Unit) :=
  [.acceptAgain, .register (), .accept () [], .handleNewConnection,
    .wait [.listen], .connect]

/-- Two chunks are reported by one edge and read at once. -/
def smallChunks : List (EpollEvent Unit) :=
  [.handle () [1, 2, 3], .wait [.client ()], .arrive () [3],
    .arrive () [1, 2]] ++ oneClient

theorem readsOut_strands_nothing_small :
    ∃ server : EpollServer Unit,
      Run (Guarded ReadsOut EpollStep) .started smallChunks server ∧
        handled () smallChunks = arrived () smallChunks := by
  obtain ⟨server, run, passes⟩ := exists_epollRun_of_replay ReadsOut
    smallChunks (fun server => server.pc = .handling [] ∧
      server.listenPending = false ∧
      server.clients () = some ⟨⟨[], false⟩, true, false⟩) (by decide)
  obtain ⟨idle, listens, isOpen⟩ := of_decide_eq_true passes
  refine ⟨server, run, readsOut_strands_nothing run idle ?_ isOpen rfl⟩
  rintro (_ | ⟨⟨⟩⟩)
  · simp [EpollServer.IsPending, listens]
  · simp [EpollServer.IsPending, isOpen]

/-- One chunk arrives, is reported and read once. -/
def burst (chunk : List UInt8) : List (EpollEvent Unit) :=
  [.handle () (chunk.take readRequest), .wait [.client ()],
    .arrive () chunk] ++ oneClient

/-- Of every chunk larger than a read asks for, the rest waits although nothing
is reported and nothing is to be reported. -/
theorem burst_strands {chunk : List UInt8}
    (large : readRequest < chunk.length) :
    ∃ server : EpollServer Unit, Run EpollStep .started (burst chunk) server ∧
      server.pc = .handling [] ∧ (∀ ready, ¬ server.IsPending ready) ∧
      server.clients () =
        some ⟨⟨chunk.drop readRequest, false⟩, true, false⟩ := by
  obtain ⟨server, run, passes⟩ := exists_epollRun_of_replay
    (fun _ _ => True) oneClient (fun server => server.pc = .handling [] ∧
      server.listenPending = false ∧
      server.clients () = some ⟨⟨[], false⟩, true, false⟩) (by decide)
  obtain ⟨idle, listens, isOpen⟩ := of_decide_eq_true passes
  have nonempty : chunk ≠ [] := by
    rintro rfl
    cases large
  have arrives : EpollStep server (.arrive () chunk) _ :=
    .arrive isOpen nonempty
  generalize reached : server.setClient () _ = received at arrives
  have receivedPc : received.pc = .handling [] := by rw [← reached, ← idle]; rfl
  have receivedClient : received.clients () =
      some ⟨⟨chunk, false⟩, true, true⟩ := by
    rw [← reached, EpollServer.setClient_clients]
    rfl
  have waits : EpollStep received (.wait [.client ()]) _ :=
    .wait receivedPc (by decide) (by decide)
      (by simp [EpollServer.IsPending, receivedClient])
  generalize reported : received.report _ = waited at waits
  have waitedClient : waited.clients () =
      some ⟨⟨chunk, false⟩, true, false⟩ := by
    rw [← reported]
    simp [EpollServer.report, receivedClient, Client.report]
  have handles : EpollStep waited (.handle () (chunk.take readRequest)) _ :=
    .handle (by rw [← reported]; rfl) waitedClient (by decide) (Nat.le_refl _)
      (Nat.le_of_lt large)
  refine ⟨_, ((run.unguard.next arrives).next waits).next handles, rfl, ?_, ?_⟩
  · rintro (_ | ⟨⟨⟩⟩)
    · simp [EpollServer.IsPending, EpollServer.setClient, ← reported,
        EpollServer.report, ← reached, listens]
    · simp [EpollServer.IsPending, EpollServer.setClient_clients,
        Client.consume]
  · rw [EpollServer.setClient_clients]
    rfl

/-- A chunk of one byte more than a read asks for leaves its last byte
unhandled. -/
theorem strands_last_byte :
    ∃ server : EpollServer Unit,
      Run EpollStep .started (burst (List.replicate 4096 0)) server ∧
        server.pc = .handling [] ∧ (∀ ready, ¬ server.IsPending ready) ∧
        (∃ client ∈ server.clients (), client.registered = true) ∧
        handled () (burst (List.replicate 4096 0)) ≠
          arrived () (burst (List.replicate 4096 0)) := by
  have large : readRequest < (List.replicate 4096 (0 : UInt8)).length := by
    rw [List.length_replicate]
    decide
  generalize List.replicate 4096 (0 : UInt8) = chunk at large
  obtain ⟨server, run, idle, quiet, isOpen⟩ := burst_strands large
  refine ⟨server, run, idle, quiet, ⟨_, isOpen, rfl⟩, fun same => ?_⟩
  have whole := congrArg List.length (received_of_run run () _ isOpen)
  rw [same, List.length_append, List.length_drop] at whole
  omega

end Runs

end TradingMatcher

import TradingMatcher.ReceivedBytes
import Mathlib.Data.List.Nodup

/-!
# What the loop does to its descriptors

Events are handled one after the other, and what is handled first may close a
descriptor and accept a new connection under it.  Every event is nevertheless
handled on the connection that it was reported for, and every accepted
connection is closed once at most.  A hang-up that is reported together with
data is spent on the data: the connection then stays open for good.
-/

namespace TradingMatcher

variable {Fd : Type*} [DecidableEq Fd] {source target server : EpollServer Fd}
  {event : EpollEvent Fd} {history : List (EpollEvent Fd)} {fd : Fd}

/-- The descriptor of a client that a step of the loop works on. -/
def EpollEvent.descriptor : EpollEvent Fd → Option Fd
  | .accept fd _ | .register fd | .registerError fd
  | .handle fd _ | .readAgain fd | .readClosed fd => some fd
  | .connect | .arriveInBacklog _ _ | .hangUpInBacklog _ | .arrive _ _
  | .hangUp _ | .wait _ | .handleNewConnection | .acceptAgain
  | .acceptError _ => none

/-- The descriptor whose peer a step comes from. -/
def EpollEvent.peer : EpollEvent Fd → Option Fd
  | .arrive fd _ | .hangUp fd => some fd
  | _ => none

/-- The steps since the last return of `epoll_wait`. -/
def sinceWait : List (EpollEvent Fd) → List (EpollEvent Fd)
  | [] => []
  | .wait _ :: _ => []
  | event :: earlier => event :: sinceWait earlier

/-- The connections accepted under a descriptor. -/
def accepts (fd : Fd) (history : List (EpollEvent Fd)) : Nat :=
  history.countP fun
    | .accept other _ => other = fd
    | _ => false

/-- The closes of a descriptor. -/
def closes (fd : Fd) (history : List (EpollEvent Fd)) : Nat :=
  history.countP fun
    | .readClosed other => other = fd
    | _ => false

/-- Epoll knows the descriptor. -/
def EpollServer.Registered (server : EpollServer Fd) (fd : Fd) : Prop :=
  ∃ client, server.clients fd = some client ∧ client.registered = true

/-- What the loop has still to handle stands for itself once, and is open and
registered; what it is about to register is not. -/
structure EventsSound (server : EpollServer Fd) : Prop where
  nodup : server.pc.events.Nodup
  pending : ∀ fd client, server.clients fd = some client →
    client.pending = true → client.registered = true
  reported : ∀ fd, .client fd ∈ server.pc.events → server.Registered fd
  registering : ∀ fd events, server.pc = .registering fd events →
    ∃ client, server.clients fd = some client ∧ client.registered = false

theorem EpollServer.Registered.setClient (registered : server.Registered fd)
    {subject : Fd} {client : Client}
    (keeps : fd = subject → client.registered = true) :
    (server.setClient subject (some client)).Registered fd := by
  obtain ⟨before, isOpen, known⟩ := registered
  rw [Registered, setClient_clients]
  by_cases same : fd = subject
  · rw [if_pos same]
    exact ⟨client, rfl, keeps same⟩
  · rw [if_neg same]
    exact ⟨before, isOpen, known⟩

@[simp]
theorem EpollServer.report_clients_eq_none (server : EpollServer Fd)
    (events : List (Ready Fd)) (fd : Fd) :
    (server.report events).clients fd = none ↔ server.clients fd = none := by
  dsimp only [report]
  split
  · exact Option.map_eq_none_iff
  · rfl

/-- A registered descriptor stays registered, unless the step closes it. -/
theorem EpollStep.registered (edge : EpollStep source event target)
    (registered : source.Registered fd)
    (notClosed : event ≠ .readClosed fd) : target.Registered fd := by
  cases edge with
  | connect | arriveInBacklog | hangUpInBacklog | handleNewConnection
  | acceptAgain | acceptError | registerError | readAgain => exact registered
  | @arrive subject before _ wasOpen | @hangUp subject before wasOpen
  | @handle _ subject before _ _ wasOpen =>
      refine registered.setClient ?_
      rintro rfl
      obtain ⟨client, isOpen, known⟩ := registered
      obtain rfl := Option.some.inj (wasOpen.symm.trans isOpen)
      exact known
  | register => exact registered.setClient fun _ => rfl
  | @accept _ subject _ _ _ _ unused =>
      refine registered.setClient ?_
      rintro rfl
      obtain ⟨client, isOpen, -⟩ := registered
      cases unused.symm.trans isOpen
  | @readClosed _ subject =>
      obtain ⟨client, isOpen, known⟩ := registered
      refine ⟨client, ?_, known⟩
      rw [EpollServer.setClient_clients, if_neg]
      · exact isOpen
      · rintro rfl
        exact notClosed rfl
  | @wait events =>
      obtain ⟨client, isOpen, known⟩ := registered
      by_cases reported : .client fd ∈ events
      · exact ⟨client.report, by simp [EpollServer.report, reported, isOpen],
          known⟩
      · exact ⟨client, by simp [EpollServer.report, reported, isOpen], known⟩

/-- What a step does to the events that are still to be handled. -/
theorem EpollStep.events_cases (edge : EpollStep source event target) :
    (event = .wait target.pc.events ∧ target.pc.events.Nodup ∧
        ∀ ready ∈ target.pc.events, source.IsPending ready) ∨
      target.pc.events = source.pc.events ∨
      source.pc.events = .listen :: target.pc.events ∨
      ∃ fd, event.descriptor = some fd ∧
        source.pc.events = .client fd :: target.pc.events := by
  cases edge with
  | connect | arriveInBacklog | hangUpInBacklog | arrive | hangUp
  | acceptError => exact .inr (.inl rfl)
  | accept pc | acceptAgain pc | register pc | registerError pc =>
      refine .inr (.inl ?_)
      rw [pc]
      rfl
  | handleNewConnection pc =>
      refine .inr (.inr (.inl ?_))
      rw [pc]
      rfl
  | handle pc | readAgain pc | readClosed pc =>
      refine .inr (.inr (.inr ⟨_, rfl, ?_⟩))
      rw [pc]
      rfl
  | wait _ _ once ready => exact .inl ⟨rfl, once, ready⟩

theorem EventsSound.nodup_step (sound : EventsSound source)
    (edge : EpollStep source event target) : target.pc.events.Nodup := by
  rcases edge.events_cases with ⟨-, once, -⟩ | same | head | ⟨fd, -, head⟩
  · exact once
  · rw [same]
    exact sound.nodup
  all_goals
    have nodup := sound.nodup
    rw [head] at nodup
    exact (List.nodup_cons.mp nodup).2

/-- A descriptor that is still to be handled after a step is not the one that
the step worked on. -/
theorem EventsSound.descriptor_ne (sound : EventsSound source)
    (edge : EpollStep source event target)
    (reported : .client fd ∈ target.pc.events) :
    event.descriptor ≠ some fd := by
  intro names
  cases edge with
  | accept pc _ unused =>
      obtain rfl := Option.some.inj names
      obtain ⟨client, isOpen, -⟩ := sound.reported _ (by rwa [pc])
      cases unused.symm.trans isOpen
  | register pc | registerError pc =>
      obtain rfl := Option.some.inj names
      obtain ⟨client, isOpen, known⟩ := sound.reported _ (by rwa [pc])
      obtain ⟨other, otherOpen, unknown⟩ := sound.registering _ _ pc
      obtain rfl := Option.some.inj (otherOpen.symm.trans isOpen)
      rw [known] at unknown
      cases unknown
  | handle pc | readAgain pc | readClosed pc =>
      obtain rfl := Option.some.inj names
      have nodup := sound.nodup
      rw [pc] at nodup
      exact (List.nodup_cons.mp nodup).1 reported
  | _ => cases names

theorem EventsSound.pending_step (sound : EventsSound source)
    (edge : EpollStep source event target) {client : Client}
    (isOpen : target.clients fd = some client)
    (pending : client.pending = true) : client.registered = true := by
  cases edge with
  | connect | arriveInBacklog | hangUpInBacklog | handleNewConnection
  | acceptAgain | acceptError | registerError | readAgain =>
      exact sound.pending fd client isOpen pending
  | @arrive subject before _ wasOpen | @hangUp subject before wasOpen =>
      rcases EpollServer.setClient_cases isOpen with ⟨-, ⟨⟩⟩ | ⟨-, isOpen⟩
      · rcases (Bool.or_eq_true _ _).mp pending with known | pending
        exacts [known, sound.pending subject before wasOpen pending]
      · exact sound.pending fd client isOpen pending
  | accept =>
      rcases EpollServer.setClient_cases isOpen with ⟨-, ⟨⟩⟩ | ⟨-, isOpen⟩
      · cases pending
      · exact sound.pending fd client isOpen pending
  | register =>
      rcases EpollServer.setClient_cases isOpen with ⟨-, ⟨⟩⟩ | ⟨-, isOpen⟩
      · rfl
      · exact sound.pending fd client isOpen pending
  | @handle _ subject before _ _ wasOpen =>
      rcases EpollServer.setClient_cases isOpen with ⟨-, ⟨⟩⟩ | ⟨-, isOpen⟩
      · exact sound.pending subject before wasOpen pending
      · exact sound.pending fd client isOpen pending
  | readClosed =>
      rcases EpollServer.setClient_cases isOpen with ⟨-, ⟨⟩⟩ | ⟨-, isOpen⟩
      exact sound.pending fd client isOpen pending
  | @wait events =>
      dsimp only [EpollServer.report] at isOpen
      split at isOpen
      · obtain ⟨before, -, rfl⟩ := Option.map_eq_some_iff.mp isOpen
        cases pending
      · exact sound.pending fd client isOpen pending

theorem EventsSound.reported_step (sound : EventsSound source)
    (edge : EpollStep source event target)
    (reported : .client fd ∈ target.pc.events) : target.Registered fd := by
  have different := sound.descriptor_ne edge reported
  have before : source.Registered fd := by
    rcases edge.events_cases with ⟨-, -, ready⟩ | same | head | ⟨_, -, head⟩
    · obtain ⟨client, isOpen, pending⟩ := ready _ reported
      exact ⟨client, isOpen, sound.pending fd client isOpen pending⟩
    · exact sound.reported fd (same ▸ reported)
    · exact sound.reported fd (head ▸ List.mem_cons_of_mem _ reported)
    · exact sound.reported fd (head ▸ List.mem_cons_of_mem _ reported)
  apply edge.registered before
  rintro rfl
  exact different rfl

theorem EventsSound.registering_step (sound : EventsSound source)
    (edge : EpollStep source event target) {events : List (Ready Fd)}
    (pc : target.pc = .registering fd events) :
    ∃ client, target.clients fd = some client ∧ client.registered = false := by
  cases edge with
  | connect | arriveInBacklog | hangUpInBacklog =>
      exact sound.registering fd events pc
  | accept =>
      cases pc
      exact ⟨_, by rw [EpollServer.setClient_clients, if_pos rfl], rfl⟩
  | @arrive subject before _ wasOpen | @hangUp subject before wasOpen =>
      obtain ⟨client, isOpen, unknown⟩ := sound.registering fd events pc
      rw [EpollServer.setClient_clients]
      by_cases same : fd = subject
      · subst same
        obtain rfl := Option.some.inj (wasOpen.symm.trans isOpen)
        rw [if_pos rfl]
        exact ⟨_, rfl, unknown⟩
      · rw [if_neg same]
        exact ⟨client, isOpen, unknown⟩
  | acceptError accepting =>
      cases accepting.symm.trans pc
  | _ => cases pc

theorem EventsSound.step (sound : EventsSound source)
    (edge : EpollStep source event target) : EventsSound target where
  nodup := sound.nodup_step edge
  pending _ _ := sound.pending_step edge
  reported _ := sound.reported_step edge
  registering _ _ := sound.registering_step edge

theorem EventsSound.of_run (run : Run EpollStep .started history server) :
    EventsSound server := by
  apply run.invariant fun _ server => EventsSound server
  · exact ⟨List.nodup_nil, nofun, nofun, nofun⟩
  · intro _ _ _ _ _ sound edge
    exact sound.step edge

section Reported

/-- An event is still to be handled only as long as the loop has not worked on
its descriptor. -/
theorem untouched_of_run (run : Run EpollStep .started history server)
    (reported : .client fd ∈ server.pc.events) :
    ∀ event ∈ sinceWait history, event.descriptor ≠ some fd := by
  refine run.invariant (fun history server => .client fd ∈ server.pc.events →
    ∀ event ∈ sinceWait history, event.descriptor ≠ some fd) nofun ?_ reported
  intro history source event target runBefore untouched edge reported
  have sound := EventsSound.of_run runBefore
  have different := sound.descriptor_ne edge reported
  have since : (∀ events, event ≠ .wait events) →
      .client fd ∈ source.pc.events := by
    intro notWait
    rcases edge.events_cases with ⟨wait, -⟩ | same | head | ⟨_, -, head⟩
    · exact (notWait _ wait).elim
    · rwa [← same]
    · exact head ▸ List.mem_cons_of_mem _ reported
    · exact head ▸ List.mem_cons_of_mem _ reported
  cases event with
  | wait => exact nofun
  | _ => exact List.forall_mem_cons.mpr ⟨different, untouched (since nofun)⟩

/-- Each accepted connection is closed once at most, and otherwise open. -/
theorem accepts_eq_closes_add (run : Run EpollStep .started history server)
    (fd : Fd) :
    accepts fd history =
      closes fd history + if server.clients fd = none then 0 else 1 := by
  refine run.invariant (fun history server => accepts fd history =
    closes fd history + if server.clients fd = none then 0 else 1) rfl ?_
  intro history source event target runBefore count edge
  have sound := EventsSound.of_run runBefore
  rw [accepts, closes] at count ⊢
  rw [List.countP_cons, List.countP_cons]
  cases edge with
  | connect | arriveInBacklog | hangUpInBacklog | handleNewConnection
  | acceptAgain | acceptError | registerError | readAgain =>
      simpa using count
  | @arrive subject before _ wasOpen | @hangUp subject before wasOpen
  | @register _ subject before _ wasOpen | @handle _ subject before _ _ wasOpen =>
      rw [EpollServer.setClient_clients]
      by_cases same : fd = subject
      · subst same
        rw [wasOpen] at count
        simpa using count
      · simpa [same] using count
  | @accept _ subject _ _ _ _ unused =>
      rw [EpollServer.setClient_clients]
      by_cases same : fd = subject
      · subst same
        rw [unused] at count
        simpa using count
      · simpa [same, Ne.symm same] using count
  | @readClosed _ subject pc =>
      rw [EpollServer.setClient_clients]
      by_cases same : fd = subject
      · subst same
        obtain ⟨client, isOpen, -⟩ := sound.reported fd
          (by rw [pc]; exact List.mem_cons_self)
        rw [isOpen] at count
        simpa using count
      · simpa [same, Ne.symm same] using count
  | wait => simpa using count

/-- In every run, an event is handled on the connection that it was reported
for, which epoll knows and the loop has not worked on since; and of the
connections accepted under a descriptor all but an open one have been closed,
once each. -/
theorem reported_connections_stand
    (run : Run EpollStep .started history server) :
    server.pc.events.Nodup ∧
      (∀ fd, .client fd ∈ server.pc.events → server.Registered fd ∧
        ∀ event ∈ sinceWait history, event.descriptor ≠ some fd) ∧
      ∀ fd, accepts fd history =
        closes fd history + if server.clients fd = none then 0 else 1 := by
  have sound := EventsSound.of_run run
  exact ⟨sound.nodup,
    fun fd reported => ⟨sound.reported fd reported,
      untouched_of_run run reported⟩,
    accepts_eq_closes_add run⟩

/-- The descriptor of the client that hangs up is closed and used again, while
the event of the other one waits. -/
def usedAgain : List (EpollEvent Bool) :=
  [.acceptAgain, .register false, .accept false [], .handleNewConnection,
    .readClosed false, .wait [.client false, .listen, .client true], .connect,
    .hangUp false, .arrive true [1], .acceptAgain, .register true,
    .accept true [], .register false, .accept false [], .handleNewConnection,
    .wait [.listen], .connect, .connect]

theorem reported_connections_stand_usedAgain :
    ∃ server : EpollServer Bool, Run EpollStep .started usedAgain server ∧
      .client true ∈ server.pc.events ∧ server.Registered true ∧
      accepts false usedAgain = closes false usedAgain +
        if server.clients false = none then 0 else 1 := by
  obtain ⟨server, run, reported⟩ := exists_epollRun_of_replay
    (fun _ _ => True) usedAgain
    (fun server => .client true ∈ server.pc.events) (by decide)
  have reported := of_decide_eq_true reported
  obtain ⟨-, stand, counts⟩ := reported_connections_stand run.unguard
  exact ⟨server, run.unguard, reported, (stand true reported).1, counts false⟩

end Reported

section Waiting

/-- The connections that were made. -/
def connections (history : List (EpollEvent Fd)) : Nat :=
  history.countP fun
    | .connect => true
    | _ => false

/-- The connections that were accepted, under whatever descriptor. -/
def acceptances (history : List (EpollEvent Fd)) : Nat :=
  history.countP fun
    | .accept _ _ => true
    | _ => false

/-- The accepts that failed because the connection was gone. -/
def aborts (history : List (EpollEvent Fd)) : Nat :=
  history.countP fun
    | .acceptError aborted => aborted
    | _ => false

/-- The loop is in `handleNewConnection`. -/
def EpollPc.Accepting : EpollPc Fd → Prop
  | .handling _ => False
  | .accepting _ | .registering _ _ => True

@[simp]
theorem EpollServer.setClient_backlog (server : EpollServer Fd) (fd : Fd)
    (client : Option Client) :
    (server.setClient fd client).backlog = server.backlog :=
  rfl

@[simp]
theorem EpollServer.setClient_listenPending (server : EpollServer Fd) (fd : Fd)
    (client : Option Client) :
    (server.setClient fd client).listenPending = server.listenPending :=
  rfl

@[simp]
theorem EpollServer.report_backlog (server : EpollServer Fd)
    (events : List (Ready Fd)) :
    (server.report events).backlog = server.backlog :=
  rfl

/-- As long as connections wait, the listening socket has an edge to report, is
among the reported events or is being attended to. -/
def Listens (server : EpollServer Fd) : Prop :=
  server.backlog ≠ [] → server.listenPending = true ∨
    .listen ∈ server.pc.events ∨ server.pc.Accepting

theorem Listens.step (listens : Listens source)
    (edge : EpollStep source event target) : Listens target := by
  intro waiting
  cases edge with
  | connect => exact .inl rfl
  | arriveInBacklog | hangUpInBacklog =>
      refine listens fun empty => waiting ?_
      rw [empty]
      exact List.modify_nil _ _
  | arrive | hangUp => exact listens waiting
  | handleNewConnection | accept | acceptError | register | registerError =>
      exact .inr (.inr (by simp_all [EpollPc.Accepting]))
  | acceptAgain _ empty => exact (waiting empty).elim
  | handle pc | readAgain pc | readClosed pc =>
      have before := listens waiting
      simpa [pc, EpollPc.events, EpollPc.Accepting] using before
  | @wait events pc =>
      have before := listens waiting
      by_cases reported : .listen ∈ events
      · exact .inr (.inl reported)
      · refine .inl ?_
        simpa [EpollServer.report, reported, pc, EpollPc.events,
          EpollPc.Accepting] using before

/-- A connection waits, was accepted, or was gone when it was to be. -/
theorem connections_within (run : Run EpollStep .started history server) :
    acceptances history + server.backlog.length ≤ connections history ∧
      connections history ≤
        acceptances history + aborts history + server.backlog.length := by
  refine run.invariant (fun history server =>
    acceptances history + server.backlog.length ≤ connections history ∧
      connections history ≤ acceptances history + aborts history +
        server.backlog.length) ⟨Nat.le_refl _, Nat.le_refl _⟩ ?_
  intro history source event target _ within edge
  rw [acceptances, connections, aborts] at within ⊢
  rw [List.countP_cons, List.countP_cons, List.countP_cons]
  cases edge with
  | connect =>
      simp only [List.length_append, List.length_singleton, if_true,
        Bool.false_eq_true, if_false]
      omega
  | arriveInBacklog | hangUpInBacklog =>
      simpa [List.length_modify] using within
  | accept _ next =>
      rw [next, List.length_cons] at within
      simp only [EpollServer.setClient_backlog, if_true, Bool.false_eq_true,
        if_false]
      omega
  | @acceptError _ aborted =>
      have shorter := List.length_tail (l := source.backlog)
      cases aborted with
      | true =>
          simp only [shorter, if_true, Bool.false_eq_true, if_false]
          omega
      | false => simpa using within
  | _ => simpa using within

/-- When the listening socket has nothing to report and nothing is left to be
handled, every connection has been accepted, except for those that were gone. -/
theorem quiet_accepts_all (run : Run EpollStep .started history server)
    (idle : server.pc = .handling []) (quiet : server.listenPending = false) :
    server.backlog = [] ∧ acceptances history ≤ connections history ∧
      connections history ≤ acceptances history + aborts history := by
  have listens : Listens server := by
    apply run.invariant fun _ server => Listens server
    · intro waiting
      exact (waiting rfl).elim
    · intro _ _ _ _ _ listens edge
      exact listens.step edge
  have empty : server.backlog = [] := by
    by_contra waiting
    have attended := listens waiting
    simp [idle, quiet, EpollPc.events, EpollPc.Accepting] at attended
  have within := connections_within run
  rw [empty] at within
  exact ⟨empty, within⟩

/-- One connection is gone when it is to be accepted, the other is accepted. -/
def oneOfTwoGone : List (EpollEvent Unit) :=
  [.acceptAgain, .register (), .accept () [], .acceptError true,
    .handleNewConnection, .wait [.listen], .connect, .connect]

theorem quiet_accepts_all_oneOfTwo :
    ∃ server : EpollServer Unit, Run EpollStep .started oneOfTwoGone server ∧
      server.backlog = [] ∧
      acceptances oneOfTwoGone ≤ connections oneOfTwoGone ∧
      connections oneOfTwoGone ≤
        acceptances oneOfTwoGone + aborts oneOfTwoGone := by
  obtain ⟨server, run, passes⟩ := exists_epollRun_of_replay
    (fun _ _ => True) oneOfTwoGone (fun server =>
      server.pc = .handling [] ∧ server.listenPending = false) (by decide)
  obtain ⟨idle, quiet⟩ := of_decide_eq_true passes
  exact ⟨server, run.unguard, quiet_accepts_all run.unguard idle quiet⟩

end Waiting

section HangUps

/-- A read passes data to the handler only while a hang-up, if there is one, has
still to be reported. -/
def NoticesHangUp (server : EpollServer Fd) : EpollEvent Fd → Prop
  | .handle fd _ => ∀ client ∈ server.clients fd,
      client.hungUp = true → client.pending = true
  | _ => True

instance noticesHangUpDecidable (server : EpollServer Fd) :
    ∀ event, Decidable (NoticesHangUp server event)
  | .handle fd _ => inferInstanceAs (Decidable (∀ client ∈ server.clients fd,
      client.hungUp = true → client.pending = true))
  | .connect | .arriveInBacklog _ _ | .hangUpInBacklog _ | .arrive _ _
  | .hangUp _ | .wait _ | .handleNewConnection | .accept _ _ | .acceptAgain
  | .acceptError _ | .register _ | .registerError _ | .readAgain _
  | .readClosed _ => .isTrue trivial

/-- A registered connection whose peer has hung up has an edge to report or is
among the reported events. -/
def HangUpsAttended (server : EpollServer Fd) : Prop :=
  ∀ fd client, server.clients fd = some client → client.registered = true →
    client.hungUp = true →
      client.pending = true ∨ .client fd ∈ server.pc.events

theorem HangUpsAttended.step (attended : HangUpsAttended source)
    (notices : NoticesHangUp source event)
    (edge : EpollStep source event target) : HangUpsAttended target := by
  intro fd client isOpen registered hungUp
  cases edge with
  | connect | arriveInBacklog | hangUpInBacklog | acceptError =>
      exact attended fd client isOpen registered hungUp
  | handleNewConnection pc =>
      have before := attended fd client isOpen registered hungUp
      simpa [pc, EpollPc.events] using before
  | acceptAgain pc | registerError pc =>
      have before := attended fd client isOpen registered hungUp
      rwa [pc] at before
  | @readAgain events subject before pc wasOpen empty connected =>
      have differ : fd ≠ subject := by
        rintro rfl
        obtain rfl := Option.some.inj (wasOpen.symm.trans isOpen)
        rw [connected] at hungUp
        cases hungUp
      have before := attended fd client isOpen registered hungUp
      simpa [pc, EpollPc.events, differ] using before
  | @arrive subject before chunk wasOpen =>
      rcases EpollServer.setClient_cases isOpen with ⟨-, ⟨⟩⟩ | ⟨-, isOpen⟩
      · exact .inl (by simp_all [Client.receive])
      · exact attended fd client isOpen registered hungUp
  | @hangUp subject before wasOpen =>
      rcases EpollServer.setClient_cases isOpen with ⟨-, ⟨⟩⟩ | ⟨-, isOpen⟩
      · exact .inl (by simp_all [Client.hangUp])
      · exact attended fd client isOpen registered hungUp
  | @register events subject before pc wasOpen =>
      rcases EpollServer.setClient_cases isOpen with ⟨-, ⟨⟩⟩ | ⟨-, isOpen⟩
      · exact .inl (by simp_all [Client.register])
      · have before := attended fd client isOpen registered hungUp
        rwa [pc] at before
  | @accept events subject connection backlog pc =>
      rcases EpollServer.setClient_cases isOpen with ⟨-, ⟨⟩⟩ | ⟨-, isOpen⟩
      · cases registered
      · have before := attended fd client isOpen registered hungUp
        rwa [pc] at before
  | @handle events subject before count pc wasOpen =>
      rcases EpollServer.setClient_cases isOpen with ⟨-, ⟨⟩⟩ | ⟨differ, isOpen⟩
      · exact .inl (notices before wasOpen hungUp)
      · have before := attended fd client isOpen registered hungUp
        simpa [pc, EpollPc.events, differ] using before
  | @readClosed events subject pc =>
      rcases EpollServer.setClient_cases isOpen with ⟨-, ⟨⟩⟩ | ⟨differ, isOpen⟩
      have before := attended fd client isOpen registered hungUp
      simpa [pc, EpollPc.events, differ] using before
  | @wait events pc =>
      dsimp only [EpollServer.report] at isOpen ⊢
      by_cases reported : .client fd ∈ events
      · exact .inr reported
      · rw [if_neg reported] at isOpen
        have before := attended fd client isOpen registered hungUp
        simpa [pc, EpollPc.events, reported] using before

/-- Where no read of data uses up the report of a hang-up, a loop with nothing
reported and nothing to report has closed every registered connection whose peer
has hung up. -/
theorem noticesHangUp_closes
    (run : Run (Guarded NoticesHangUp EpollStep) .started history server)
    (idle : server.pc = .handling [])
    (quiet : ∀ ready, ¬ server.IsPending ready) {client : Client}
    (isOpen : server.clients fd = some client)
    (registered : client.registered = true) : client.hungUp = false := by
  have attended : HangUpsAttended server := by
    apply run.invariant fun _ server => HangUpsAttended server
    · exact nofun
    · intro _ _ _ _ _ attended edge
      exact attended.step edge.1 edge.2
  by_contra hungUp
  rcases attended fd client isOpen registered (eq_true_of_ne_false hungUp) with
    pending | reported
  · exact quiet (.client fd) ⟨client, isOpen, pending⟩
  · rw [idle] at reported
    cases reported

/-- Two clients connect, and the peer of one of them hangs up. -/
def oneOfTwoHangsUp : List (EpollEvent Bool) :=
  [.readClosed false, .wait [.client false], .hangUp false, .acceptAgain,
    .register true, .accept true [], .register false, .accept false [],
    .handleNewConnection, .wait [.listen], .connect, .connect]

theorem noticesHangUp_closes_one :
    ∃ (server : EpollServer Bool) (client : Client),
      Run (Guarded NoticesHangUp EpollStep) .started oneOfTwoHangsUp server ∧
        server.clients false = none ∧ server.clients true = some client ∧
        client.hungUp = false := by
  obtain ⟨server, run, passes⟩ := exists_epollRun_of_replay NoticesHangUp
    oneOfTwoHangsUp (fun server => server.pc = .handling [] ∧
      server.listenPending = false ∧ server.clients false = none ∧
      server.clients true = some ⟨⟨[], false⟩, true, false⟩) (by decide)
  obtain ⟨idle, listens, closed, isOpen⟩ := of_decide_eq_true passes
  refine ⟨server, _, run, closed, isOpen,
    noticesHangUp_closes run idle ?_ isOpen rfl⟩
  rintro (_ | _ | _)
  · simp [EpollServer.IsPending, listens]
  · simp [EpollServer.IsPending, closed]
  · simp [EpollServer.IsPending, isOpen]

/-- A registered connection with nothing reported and nothing to report. -/
structure Silenced (fd : Fd) (client : Client) (server : EpollServer Fd) :
    Prop where
  isOpen : server.clients fd = some client
  registered : client.registered = true
  spent : client.pending = false
  unreported : .client fd ∉ server.pc.events

/-- A step changes no client but the one that it works on, that its peer sends
to, or that it reports. -/
theorem EpollStep.clients_eq (edge : EpollStep source event target)
    (silent : event.peer ≠ some fd) (different : event.descriptor ≠ some fd)
    (unreported : ∀ events, event = .wait events → .client fd ∉ events) :
    target.clients fd = source.clients fd := by
  cases edge with
  | connect | arriveInBacklog | hangUpInBacklog | handleNewConnection
  | acceptAgain | acceptError | registerError | readAgain => rfl
  | @arrive subject | @hangUp subject =>
      rw [EpollServer.setClient_clients, if_neg]
      rintro rfl
      exact silent rfl
  | @accept _ subject | @register _ subject | @handle _ subject
  | @readClosed _ subject =>
      rw [EpollServer.setClient_clients, if_neg]
      rintro rfl
      exact different rfl
  | wait => exact if_neg (unreported _ rfl)

theorem Silenced.descriptor_ne {client : Client}
    (silenced : Silenced fd client source) (sound : EventsSound source)
    (edge : EpollStep source event target) : event.descriptor ≠ some fd := by
  intro names
  cases edge with
  | accept _ _ unused =>
      obtain rfl := Option.some.inj names
      cases unused.symm.trans silenced.isOpen
  | register pc | registerError pc =>
      obtain rfl := Option.some.inj names
      obtain ⟨other, isOpen, unknown⟩ := sound.registering _ _ pc
      obtain rfl := Option.some.inj (isOpen.symm.trans silenced.isOpen)
      cases unknown.symm.trans silenced.registered
  | handle pc | readAgain pc | readClosed pc =>
      obtain rfl := Option.some.inj names
      apply silenced.unreported
      rw [pc]
      exact List.mem_cons_self
  | _ => cases names

theorem Silenced.step {client : Client}
    (silenced : Silenced fd client source) (sound : EventsSound source)
    (silent : event.peer ≠ some fd) (edge : EpollStep source event target) :
    Silenced fd client target := by
  have unreported : .client fd ∉ target.pc.events := by
    intro reported
    rcases edge.events_cases with ⟨-, -, ready⟩ | same | head | ⟨_, -, head⟩
    · obtain ⟨other, isOpen, pending⟩ := ready _ reported
      obtain rfl := Option.some.inj (isOpen.symm.trans silenced.isOpen)
      cases pending.symm.trans silenced.spent
    · exact silenced.unreported (same ▸ reported)
    · exact silenced.unreported (head ▸ List.mem_cons_of_mem _ reported)
    · exact silenced.unreported (head ▸ List.mem_cons_of_mem _ reported)
  refine ⟨?_, silenced.registered, silenced.spent, unreported⟩
  rw [edge.clients_eq silent (silenced.descriptor_ne sound edge) ?_]
  · exact silenced.isOpen
  · rintro events rfl
    cases edge
    exact unreported

/-- As long as its peer does nothing, the loop does nothing with it either. -/
theorem Silenced.of_run {client : Client} {later : List (EpollEvent Fd)}
    {final : EpollServer Fd} (silenced : Silenced fd client server)
    (sound : EventsSound server) (run : Run EpollStep server later final)
    (silent : ∀ event ∈ later, event.peer ≠ some fd) :
    Silenced fd client final ∧
      ∀ event ∈ later, event.descriptor ≠ some fd := by
  have : EventsSound final ∧ Silenced fd client final ∧
      ∀ event ∈ later, event.descriptor ≠ some fd := by
    induction run with
    | start => exact ⟨sound, silenced, nofun⟩
    | next _ edge ih =>
        have quietNow := List.forall_mem_cons.mp silent
        obtain ⟨sound, silenced, untouched⟩ := ih quietNow.2
        exact ⟨sound.step edge, silenced.step sound quietNow.1 edge,
          List.forall_mem_cons.mpr
            ⟨silenced.descriptor_ne sound edge, untouched⟩⟩
  exact this.2

/-- A hang-up reported together with data is spent on the data: unless the peer
does something more, the loop never works on the connection again, which stays
open with what the read has left in its buffer. -/
theorem hangUp_with_data_leaks (run : Run EpollStep .started history server)
    {client : Client} {data : List UInt8} {after final : EpollServer Fd}
    {later : List (EpollEvent Fd)} (isOpen : server.clients fd = some client)
    (hungUp : client.hungUp = true) (spent : client.pending = false)
    (reads : EpollStep server (.handle fd data) after)
    (continued : Run EpollStep after later final)
    (silent : ∀ event ∈ later, event.peer ≠ some fd) :
    (∃ left, final.clients fd = some left ∧ left.registered = true ∧
      left.hungUp = true ∧ client.unread = data ++ left.unread) ∧
      ∀ event ∈ later, event.descriptor ≠ some fd := by
  have sound := EventsSound.of_run run
  have unreported : .client fd ∉ after.pc.events := fun reported =>
    sound.descriptor_ne reads reported rfl
  have registered := sound.reported fd (by
    cases reads with
    | handle pc =>
        rw [pc]
        exact List.mem_cons_self)
  obtain ⟨same, sameOpen, registered⟩ := registered
  obtain rfl := Option.some.inj (sameOpen.symm.trans isOpen)
  have soundAfter := sound.step reads
  cases reads with
  | @handle events _ before count _ wasOpen =>
      obtain rfl := Option.some.inj (wasOpen.symm.trans isOpen)
      have silenced : Silenced fd (before.consume count) _ :=
        ⟨by rw [EpollServer.setClient_clients, if_pos rfl], registered, spent,
          unreported⟩
      obtain ⟨silenced, untouched⟩ :=
        silenced.of_run soundAfter continued silent
      exact ⟨⟨_, silenced.isOpen, registered, hungUp,
        (List.take_append_drop count before.unread).symm⟩, untouched⟩

/-- The last byte of a client arrives together with its hang-up. -/
def lastByte : List (EpollEvent Unit) :=
  [.wait [.client ()], .hangUp (), .arrive () [1]] ++ oneClient

/-- The byte is read, and the connection stays open although nothing is left to
be read. -/
theorem hangUp_with_data_leaks_lastByte :
    ∃ server after final : EpollServer Unit,
      Run EpollStep .started lastByte server ∧
        EpollStep server (.handle () [1]) after ∧
        Run EpollStep after [.wait []] final ∧
        ∃ left, final.clients () = some left ∧ left.registered = true ∧
          left.hungUp = true ∧ [1] = [1] ++ left.unread := by
  obtain ⟨server, run, passes⟩ := exists_epollRun_of_replay
    (fun _ _ => True) lastByte (fun server =>
      server.pc = .handling [.client ()] ∧
      server.clients () = some ⟨⟨[1], true⟩, true, false⟩) (by decide)
  obtain ⟨pc, isOpen⟩ := of_decide_eq_true passes
  obtain ⟨after, reads, idle⟩ : ∃ after,
      EpollStep server (.handle () ([1].take 1)) after ∧
        after.pc = .handling [] :=
    ⟨_, .handle pc isOpen (by decide) (by decide) (by decide), rfl⟩
  have continued : Run EpollStep after [.wait []] _ :=
    Run.start.next (.wait idle (Nat.zero_le _) List.nodup_nil nofun)
  exact ⟨server, _, _, run.unguard, reads, continued,
    (hangUp_with_data_leaks run.unguard isOpen rfl rfl reads continued
      (by simp [EpollEvent.peer])).1⟩

end HangUps

end TradingMatcher

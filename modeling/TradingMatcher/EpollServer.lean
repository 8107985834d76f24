import TradingMatcher.Runs
import Mathlib.Logic.Function.Basic

/-!
# The event loop

The loop of `EpollServer` with the kernel below it: connections that wait to be
accepted, bytes that wait to be read, and the edges that epoll has still to
report.  An edge is raised when bytes arrive or the peer hangs up, and when a
descriptor is registered that is readable already; reporting it clears it,
however much is left to read.  `run` and repeated calls of `processEvents` take
the same steps: a wait that is interrupted or times out changes nothing.
-/

namespace TradingMatcher

/-- A connection: the bytes in its receive buffer, and whether the peer has hung
up. -/
structure Connection where
  unread : List UInt8
  hungUp : Bool
  deriving DecidableEq

namespace Connection

/-- A connection that has just been made. -/
def new : Connection := ⟨[], false⟩

def receive (connection : Connection) (chunk : List UInt8) : Connection :=
  { connection with unread := connection.unread ++ chunk }

def hangUp (connection : Connection) : Connection :=
  { connection with hungUp := true }

end Connection

/-- An accepted connection: whether epoll knows it, and whether it has an edge
to report. -/
structure Client extends Connection where
  registered : Bool
  pending : Bool
  deriving DecidableEq

namespace Client

def accepted (connection : Connection) : Client :=
  { connection with registered := false, pending := false }

def receive (client : Client) (chunk : List UInt8) : Client :=
  { client.toConnection.receive chunk with
    registered := client.registered
    pending := client.registered || client.pending }

def hangUp (client : Client) : Client :=
  { client.toConnection.hangUp with
    registered := client.registered
    pending := client.registered || client.pending }

/-- `EPOLL_CTL_ADD`, which reports what is readable already. -/
def register (client : Client) : Client :=
  { client with
    registered := true
    pending := client.hungUp || !client.unread.isEmpty }

/-- The first `count` bytes are read. -/
def consume (client : Client) (count : Nat) : Client :=
  { client with unread := client.unread.drop count }

def report (client : Client) : Client := { client with pending := false }

end Client

/-- What an entry of `events` names: the listening socket or a client. -/
inductive Ready (Fd : Type*)
  | listen
  | client (fd : Fd)
  deriving DecidableEq

/-- Where the loop is, with the reported events it has still to handle. -/
inductive EpollPc (Fd : Type*)
  | handling (events : List (Ready Fd))
  | accepting (events : List (Ready Fd))
  | registering (fd : Fd) (events : List (Ready Fd))
  deriving DecidableEq

/-- The listening socket with its backlog, the open descriptors and the place of
the loop. -/
structure EpollServer (Fd : Type*) where
  backlog : List Connection
  listenPending : Bool
  clients : Fd → Option Client
  pc : EpollPc Fd

/-- The steps of the peers and of the loop.  `handle` is the read that returns
`data` with the call of the handler; the other reads and accepts are named by
what they return. -/
inductive EpollEvent (Fd : Type*)
  | connect
  | arriveInBacklog (index : Nat) (chunk : List UInt8)
  | hangUpInBacklog (index : Nat)
  | arrive (fd : Fd) (chunk : List UInt8)
  | hangUp (fd : Fd)
  | wait (events : List (Ready Fd))
  | handleNewConnection
  | accept (fd : Fd) (waiting : List UInt8)
  | acceptAgain
  | acceptError (aborted : Bool)
  | register (fd : Fd)
  | registerError (fd : Fd)
  | handle (fd : Fd) (data : List UInt8)
  | readAgain (fd : Fd)
  | readClosed (fd : Fd)
  deriving DecidableEq

/-- `MAX_EVENTS` -/
def maxEvents : Nat := 64

/-- The number of bytes that a read asks for, `sizeof(buffer) - 1`. -/
def readRequest : Nat := 4096 - 1

namespace EpollServer

variable {Fd : Type*}

/-- The server when `start` has returned true. -/
def started : EpollServer Fd where
  backlog := []
  listenPending := false
  clients _ := none
  pc := .handling []

def IsPending (server : EpollServer Fd) : Ready Fd → Prop
  | .listen => server.listenPending = true
  | .client fd => ∃ client ∈ server.clients fd, client.pending = true

instance isPendingDecidable (server : EpollServer Fd) :
    ∀ ready, Decidable (server.IsPending ready)
  | .listen => inferInstanceAs (Decidable (server.listenPending = true))
  | .client fd => inferInstanceAs
      (Decidable (∃ client ∈ server.clients fd, client.pending = true))

variable [DecidableEq Fd]

def setClient (server : EpollServer Fd) (fd : Fd) (client : Option Client) :
    EpollServer Fd :=
  { server with clients := Function.update server.clients fd client }

/-- Hand over the events and clear their edges. -/
def report (server : EpollServer Fd) (events : List (Ready Fd)) :
    EpollServer Fd :=
  { server with
    listenPending := server.listenPending && .listen ∉ events
    clients := fun fd =>
      if .client fd ∈ events then (server.clients fd).map Client.report
      else server.clients fd
    pc := .handling events }

end EpollServer

section Steps

variable {Fd : Type*} [DecidableEq Fd]

/-- One step of a peer or of the loop. -/
inductive EpollStep :
    EpollServer Fd → EpollEvent Fd → EpollServer Fd → Prop
  | connect {server : EpollServer Fd} :
      EpollStep server .connect { server with
        backlog := server.backlog ++ [.new]
        listenPending := true }
  | arriveInBacklog {server : EpollServer Fd} {index : Nat}
      {chunk : List UInt8} (nonempty : chunk ≠ []) :
      EpollStep server (.arriveInBacklog index chunk) { server with
        backlog := server.backlog.modify index (·.receive chunk) }
  | hangUpInBacklog {server : EpollServer Fd} {index : Nat} :
      EpollStep server (.hangUpInBacklog index) { server with
        backlog := server.backlog.modify index .hangUp }
  | arrive {server : EpollServer Fd} {fd : Fd} {client : Client}
      {chunk : List UInt8} (isOpen : server.clients fd = some client)
      (nonempty : chunk ≠ []) :
      EpollStep server (.arrive fd chunk)
        (server.setClient fd (client.receive chunk))
  | hangUp {server : EpollServer Fd} {fd : Fd} {client : Client}
      (isOpen : server.clients fd = some client) :
      EpollStep server (.hangUp fd) (server.setClient fd client.hangUp)
  | wait {server : EpollServer Fd} {events : List (Ready Fd)}
      (pc : server.pc = .handling []) (limit : events.length ≤ maxEvents)
      (once : events.Nodup) (ready : ∀ event ∈ events, server.IsPending event) :
      EpollStep server (.wait events) (server.report events)
  | handleNewConnection {server : EpollServer Fd} {events : List (Ready Fd)}
      (pc : server.pc = .handling (.listen :: events)) :
      EpollStep server .handleNewConnection
        { server with pc := .accepting events }
  | accept {server : EpollServer Fd} {events : List (Ready Fd)} {fd : Fd}
      {connection : Connection} {backlog : List Connection}
      (pc : server.pc = .accepting events)
      (next : server.backlog = connection :: backlog)
      (unused : server.clients fd = none) :
      EpollStep server (.accept fd connection.unread)
        ({ server with backlog, pc := .registering fd events }.setClient fd
          (Client.accepted connection))
  | acceptAgain {server : EpollServer Fd} {events : List (Ready Fd)}
      (pc : server.pc = .accepting events) (empty : server.backlog = []) :
      EpollStep server .acceptAgain { server with pc := .handling events }
  | acceptError {server : EpollServer Fd} {events : List (Ready Fd)}
      {aborted : Bool} (pc : server.pc = .accepting events) :
      EpollStep server (.acceptError aborted) { server with backlog :=
        if aborted then server.backlog.tail else server.backlog }
  | register {server : EpollServer Fd} {events : List (Ready Fd)} {fd : Fd}
      {client : Client} (pc : server.pc = .registering fd events)
      (isOpen : server.clients fd = some client) :
      EpollStep server (.register fd)
        ({ server with pc := .accepting events }.setClient fd client.register)
  | registerError {server : EpollServer Fd} {events : List (Ready Fd)}
      {fd : Fd} (pc : server.pc = .registering fd events) :
      EpollStep server (.registerError fd)
        { server with pc := .accepting events }
  | handle {server : EpollServer Fd} {events : List (Ready Fd)} {fd : Fd}
      {client : Client} {count : Nat}
      (pc : server.pc = .handling (.client fd :: events))
      (isOpen : server.clients fd = some client) (positive : 0 < count)
      (requested : count ≤ readRequest)
      (available : count ≤ client.unread.length) :
      EpollStep server (.handle fd (client.unread.take count))
        ({ server with pc := .handling events }.setClient fd
          (client.consume count))
  | readAgain {server : EpollServer Fd} {events : List (Ready Fd)} {fd : Fd}
      {client : Client} (pc : server.pc = .handling (.client fd :: events))
      (isOpen : server.clients fd = some client) (empty : client.unread = [])
      (connected : client.hungUp = false) :
      EpollStep server (.readAgain fd) { server with pc := .handling events }
  | readClosed {server : EpollServer Fd} {events : List (Ready Fd)} {fd : Fd}
      (pc : server.pc = .handling (.client fd :: events)) :
      EpollStep server (.readClosed fd)
        ({ server with pc := .handling events }.setClient fd none)

/-- The step that an event names, if it can be taken. -/
def EpollServer.next? (server : EpollServer Fd) :
    EpollEvent Fd → Option (EpollServer Fd)
  | .connect =>
      some { server with
        backlog := server.backlog ++ [.new]
        listenPending := true }
  | .arriveInBacklog index chunk =>
      if chunk ≠ [] then
        some { server with
          backlog := server.backlog.modify index (·.receive chunk) }
      else none
  | .hangUpInBacklog index =>
      some { server with backlog := server.backlog.modify index .hangUp }
  | .arrive fd chunk =>
      match server.clients fd with
      | some client =>
          if chunk ≠ [] then some (server.setClient fd (client.receive chunk))
          else none
      | none => none
  | .hangUp fd =>
      match server.clients fd with
      | some client => some (server.setClient fd client.hangUp)
      | none => none
  | .wait events =>
      if server.pc = .handling [] ∧ events.length ≤ maxEvents ∧ events.Nodup ∧
          ∀ event ∈ events, server.IsPending event then
        some (server.report events)
      else none
  | .handleNewConnection =>
      match server.pc with
      | .handling (.listen :: events) =>
          some { server with pc := .accepting events }
      | _ => none
  | .accept fd waiting =>
      match server.pc, server.backlog, server.clients fd with
      | .accepting events, connection :: backlog, none =>
          if connection.unread = waiting then
            some ({ server with backlog, pc := .registering fd events
              }.setClient fd (Client.accepted connection))
          else none
      | _, _, _ => none
  | .acceptAgain =>
      match server.pc, server.backlog with
      | .accepting events, [] => some { server with pc := .handling events }
      | _, _ => none
  | .acceptError aborted =>
      match server.pc with
      | .accepting _ =>
          some { server with backlog :=
            if aborted then server.backlog.tail else server.backlog }
      | _ => none
  | .register fd =>
      match server.pc, server.clients fd with
      | .registering accepted events, some client =>
          if accepted = fd then
            some ({ server with pc := .accepting events }.setClient fd
              client.register)
          else none
      | _, _ => none
  | .registerError fd =>
      match server.pc with
      | .registering accepted events =>
          if accepted = fd then some { server with pc := .accepting events }
          else none
      | _ => none
  | .handle fd data =>
      match server.pc, server.clients fd with
      | .handling (.client reported :: events), some client =>
          if reported = fd ∧ 0 < data.length ∧ data.length ≤ readRequest ∧
              data.length ≤ client.unread.length ∧
              client.unread.take data.length = data then
            some ({ server with pc := .handling events }.setClient fd
              (client.consume data.length))
          else none
      | _, _ => none
  | .readAgain fd =>
      match server.pc, server.clients fd with
      | .handling (.client reported :: events), some client =>
          if reported = fd ∧ client.unread = [] ∧ client.hungUp = false then
            some { server with pc := .handling events }
          else none
      | _, _ => none
  | .readClosed fd =>
      match server.pc with
      | .handling (.client reported :: events) =>
          if reported = fd then
            some ({ server with pc := .handling events }.setClient fd none)
          else none
      | _ => none

theorem EpollStep.of_next? {source target : EpollServer Fd}
    {event : EpollEvent Fd} (taken : source.next? event = some target) :
    EpollStep source event target := by
  cases event with
  | wait events =>
      rw [EpollServer.next?] at taken
      split at taken
      next holds =>
        obtain rfl := Option.some.inj taken
        exact .wait holds.1 holds.2.1 holds.2.2.1 holds.2.2.2
      next => cases taken
  | accept fd waiting =>
      rw [EpollServer.next?] at taken
      split at taken
      next events connection backlog pc next unused =>
        split at taken
        next same =>
          obtain rfl := Option.some.inj taken
          subst same
          exact .accept pc next unused
        next => cases taken
      next => cases taken
  | handle fd data =>
      rw [EpollServer.next?] at taken
      split at taken
      next reported events client pc isOpen =>
        split at taken
        next holds =>
          obtain ⟨rfl, positive, requested, available, same⟩ := holds
          obtain rfl := Option.some.inj taken
          have step := EpollStep.handle pc isOpen positive requested available
          rwa [same] at step
        next => cases taken
      next => cases taken
  | readAgain fd =>
      rw [EpollServer.next?] at taken
      split at taken
      next reported events client pc isOpen =>
        split at taken
        next holds =>
          obtain ⟨rfl, empty, connected⟩ := holds
          obtain rfl := Option.some.inj taken
          exact .readAgain pc isOpen empty connected
        next => cases taken
      next => cases taken
  | acceptError aborted =>
      rw [EpollServer.next?] at taken
      split at taken
      next events pc =>
        obtain rfl := Option.some.inj taken
        exact .acceptError pc
      next => cases taken
  | _ =>
      rw [EpollServer.next?] at taken
      try split at taken
      all_goals try split at taken
      all_goals cases taken
      all_goals subst_vars
      all_goals constructor <;> assumption

/-- A history that replays is the history of a run. -/
theorem exists_epollRun_of_replay
    (condition : EpollServer Fd → EpollEvent Fd → Prop)
    [∀ server event, Decidable (condition server event)]
    (history : List (EpollEvent Fd)) (test : EpollServer Fd → Bool)
    (replays : (Run.replay (Run.guardNext condition EpollServer.next?) .started
      history).any test = true) :
    ∃ server, Run (Guarded condition EpollStep) .started history server ∧
      test server = true :=
  Run.exists_of_replay (Run.guardNext_sound EpollStep.of_next?) _ history test
    replays

end Steps

section Histories

variable {Fd : Type*} [DecidableEq Fd]

/-- The bytes that have arrived on the connection now open under a descriptor,
those that arrived before it was accepted included. -/
def arrived (fd : Fd) : List (EpollEvent Fd) → List UInt8
  | [] => []
  | .accept other waiting :: earlier =>
      if other = fd then waiting else arrived fd earlier
  | .arrive other chunk :: earlier =>
      if other = fd then arrived fd earlier ++ chunk else arrived fd earlier
  | _ :: earlier => arrived fd earlier

/-- The bytes of that connection that were passed to the handler, in that
order. -/
def handled (fd : Fd) : List (EpollEvent Fd) → List UInt8
  | [] => []
  | .accept other _ :: earlier =>
      if other = fd then [] else handled fd earlier
  | .handle other data :: earlier =>
      if other = fd then handled fd earlier ++ data else handled fd earlier
  | _ :: earlier => handled fd earlier

end Histories

end TradingMatcher

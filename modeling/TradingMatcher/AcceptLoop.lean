import TradingMatcher.EpollServer
import Mathlib.Data.List.Nodup

/-!
# The accept loop

`handleNewConnection` calls `accept4` until it fails with `EAGAIN`, and tries
again after every other error.  `accept4` takes the next connection under the
lowest descriptor that is not in use, fails with `EMFILE` and takes nothing when
there is none, and fails with `EAGAIN` when no connection waits.  Descriptors are
given back by `handleClientData` only, which the same thread calls.
-/

namespace TradingMatcher

/-- The descriptors of the process: their limit, those that are open for
something else than a client, and those that `EPOLL_CTL_ADD` succeeds for. -/
structure Descriptors where
  limit : Nat
  others : List Nat
  adds : Nat → Bool

inductive AcceptError
  | again | tooManyFiles
  deriving DecidableEq

namespace EpollServer

/-- The descriptors not in use, the lowest first. -/
def unused (descriptors : Descriptors) (server : EpollServer Nat) : List Nat :=
  (List.range descriptors.limit).filter fun fd =>
    fd ∉ descriptors.others ∧ server.clients fd = none

def accept4 (descriptors : Descriptors) (server : EpollServer Nat) :
    Except AcceptError (Nat × EpollServer Nat) :=
  match server.backlog with
  | [] => .error .again
  | connection :: backlog =>
      match server.unused descriptors with
      | [] => .error .tooManyFiles
      | fd :: _ =>
          .ok (fd, { server with backlog }.setClient fd
            (Client.accepted connection))

/-- `EPOLL_CTL_ADD`, whose result the loop does not look at. -/
def epollAdd (descriptors : Descriptors) (fd : Nat)
    (server : EpollServer Nat) : EpollServer Nat :=
  if descriptors.adds fd then
    server.setClient fd ((server.clients fd).map Client.register)
  else server

/-- The loop, allowed to make at most `passes` passes, with the events that are
handled after it; `none` when it would go on. -/
def handleNewConnection (descriptors : Descriptors)
    (events : List (Ready Nat)) : Nat → EpollServer Nat →
      Option (EpollServer Nat)
  | 0, _ => none
  | passes + 1, server =>
      match server.accept4 descriptors with
      | .error .again => some { server with pc := .handling events }
      | .error .tooManyFiles =>
          handleNewConnection descriptors events passes server
      | .ok (fd, server) =>
          handleNewConnection descriptors events passes
            ({ server with pc := .accepting events }.epollAdd descriptors fd)

/-- What `epoll` is told about a connection accepted under a descriptor. -/
def afterAdd (descriptors : Descriptors) (fd : Nat)
    (connection : Connection) : Client :=
  if descriptors.adds fd then (Client.accepted connection).register
  else Client.accepted connection

/-- A pass that accepts a connection. -/
def acceptPass (descriptors : Descriptors) (events : List (Ready Nat))
    (server : EpollServer Nat) (fd : Nat) (connection : Connection)
    (backlog : List Connection) : EpollServer Nat where
  backlog := backlog
  listenPending := server.listenPending
  clients := Function.update server.clients fd
    (some (afterAdd descriptors fd connection))
  pc := .accepting events

section Passes

variable {descriptors : Descriptors} {events : List (Ready Nat)}
  {server after : EpollServer Nat} {connection : Connection}
  {backlog : List Connection} {fd passes : Nat} {rest : List Nat}

theorem handleNewConnection_again (empty : server.backlog = []) :
    handleNewConnection descriptors events (passes + 1) server =
      some { server with pc := .handling events } := by
  rw [handleNewConnection, accept4, empty]

/-- With no descriptor left, a pass changes nothing. -/
theorem handleNewConnection_tooManyFiles
    (next : server.backlog = connection :: backlog)
    (full : server.unused descriptors = []) :
    handleNewConnection descriptors events (passes + 1) server =
      handleNewConnection descriptors events passes server := by
  rw [handleNewConnection, accept4, next, full]

theorem handleNewConnection_accept
    (next : server.backlog = connection :: backlog)
    (free : server.unused descriptors = fd :: rest) :
    handleNewConnection descriptors events (passes + 1) server =
      handleNewConnection descriptors events passes
        (server.acceptPass descriptors events fd connection backlog) := by
  rw [handleNewConnection, accept4, next, free]
  simp only [epollAdd, acceptPass, afterAdd, setClient]
  cases descriptors.adds fd with
  | true => simp
  | false => simp

theorem unused_nodup (descriptors : Descriptors) (server : EpollServer Nat) :
    (server.unused descriptors).Nodup :=
  List.nodup_range.filter _

theorem clients_eq_none_of_unused (free : fd ∈ server.unused descriptors) :
    server.clients fd = none := by
  have := (List.mem_filter.mp free).2
  rw [decide_eq_true_eq] at this
  exact this.2

theorem notMem_of_unused (free : server.unused descriptors = fd :: rest) :
    fd ∉ rest := by
  have nodup := server.unused_nodup descriptors
  rw [free] at nodup
  exact (List.nodup_cons.mp nodup).1

/-- A pass that accepts uses up the lowest free descriptor. -/
theorem unused_acceptPass (free : server.unused descriptors = fd :: rest) :
    (server.acceptPass descriptors events fd connection backlog).unused
      descriptors = rest := by
  have others : (server.acceptPass descriptors events fd connection
      backlog).unused descriptors =
        (server.unused descriptors).filter (· ≠ fd) := by
    rw [unused, unused, List.filter_filter]
    apply List.filter_congr
    intro other _
    by_cases same : other = fd
    · simp [acceptPass, same]
    · simp [acceptPass, same]
  rw [others, free, List.filter_cons_of_neg (by simp), List.filter_eq_self]
  intro other mem
  have differ : other ≠ fd := by
    rintro rfl
    exact notMem_of_unused free mem
  simpa using differ

/-- The loop does not return when connections wait and the descriptors do not
suffice. -/
theorem handleNewConnection_spins
    (few : (server.unused descriptors).length < server.backlog.length) :
    handleNewConnection descriptors events passes server = none := by
  induction passes generalizing server with
  | zero => rfl
  | succ passes ih =>
      cases next : server.backlog with
      | nil => simp [next] at few
      | cons connection backlog =>
          cases free : server.unused descriptors with
          | nil =>
              rw [handleNewConnection_tooManyFiles next free]
              exact ih few
          | cons fd rest =>
              rw [handleNewConnection_accept next free]
              apply ih
              rw [unused_acceptPass free]
              rw [next, free] at few
              exact Nat.lt_of_succ_lt_succ few

/-- With enough descriptors, the loop returns after one pass for each connection
and one more. -/
theorem handleNewConnection_returns (events : List (Ready Nat))
    (enough : server.backlog.length ≤ (server.unused descriptors).length) :
    ∃ after, handleNewConnection descriptors events
      (server.backlog.length + 1) server = some after := by
  generalize waiting : server.backlog = connections at enough ⊢
  induction connections generalizing server with
  | nil => exact ⟨_, handleNewConnection_again waiting⟩
  | cons connection backlog ih =>
      cases free : server.unused descriptors with
      | nil => simp [free] at enough
      | cons fd rest =>
          rw [List.length_cons, handleNewConnection_accept waiting free]
          apply ih rfl
          rw [unused_acceptPass free]
          rw [free] at enough
          exact Nat.le_of_succ_le_succ enough

/-- When the loop returns, the backlog is empty, each connection of it is open
under one of the first free descriptors, registered if that succeeded, and the
other descriptors are as before. -/
structure AcceptedAll (descriptors : Descriptors)
    (server after : EpollServer Nat) : Prop where
  backlog : after.backlog = []
  accepted : ∀ fd ∈ (server.unused descriptors).take server.backlog.length,
    ∃ client, after.clients fd = some client ∧
      client.registered = descriptors.adds fd
  others : ∀ fd ∉ (server.unused descriptors).take server.backlog.length,
    after.clients fd = server.clients fd

theorem AcceptedAll.of_returns
    (returns : handleNewConnection descriptors events passes server =
      some after) : AcceptedAll descriptors server after := by
  induction passes generalizing server with
  | zero => cases returns
  | succ passes ih =>
      cases next : server.backlog with
      | nil =>
          rw [handleNewConnection_again next] at returns
          obtain rfl := Option.some.inj returns
          exact ⟨next, by simp [next], fun _ _ => rfl⟩
      | cons connection backlog =>
          cases free : server.unused descriptors with
          | nil =>
              rw [handleNewConnection_tooManyFiles next free] at returns
              exact ih returns
          | cons fd rest =>
              rw [handleNewConnection_accept next free] at returns
              obtain ⟨empty, accepted, others⟩ := ih returns
              rw [unused_acceptPass free] at accepted others
              have notLater : fd ∉ rest.take backlog.length := fun mem =>
                notMem_of_unused free (List.mem_of_mem_take mem)
              refine ⟨empty, ?_, ?_⟩
              · rw [free, next, List.length_cons, List.take_succ_cons]
                intro other mem
                rcases List.mem_cons.mp mem with rfl | later
                · refine ⟨_, (others other notLater).trans
                    (Function.update_self ..), ?_⟩
                  rw [afterAdd]
                  cases descriptors.adds other <;> rfl
                · exact accepted other later
              · rw [free, next, List.length_cons, List.take_succ_cons]
                intro other notMem
                rw [List.mem_cons, not_or] at notMem
                obtain ⟨differ, notLater⟩ := notMem
                exact (others other notLater).trans
                  (Function.update_of_ne differ _ _)

/-- A pass that accepts takes two steps of the event loop. -/
theorem acceptPass_run (pc : server.pc = .accepting events)
    (next : server.backlog = connection :: backlog)
    (free : server.unused descriptors = fd :: rest) :
    ∃ history, Run EpollStep server history
      (server.acceptPass descriptors events fd connection backlog) := by
  have first : fd ∈ server.unused descriptors := by
    rw [free]
    exact List.mem_cons_self
  have accepts := Run.next .start
    (EpollStep.accept pc next (clients_eq_none_of_unused first))
  cases added : descriptors.adds fd with
  | true =>
      have registers := accepts.next (.register rfl (Function.update_self ..))
      refine ⟨[.register fd, .accept fd connection.unread], ?_⟩
      simpa [setClient, acceptPass, afterAdd, added] using registers
  | false =>
      have registers := accepts.next (.registerError rfl)
      refine ⟨[.registerError fd, .accept fd connection.unread], ?_⟩
      simpa [setClient, acceptPass, afterAdd, added] using registers

/-- The loop takes steps of the event loop. -/
theorem handleNewConnection_run (pc : server.pc = .accepting events)
    (returns : handleNewConnection descriptors events passes server =
      some after) : ∃ history, Run EpollStep server history after := by
  induction passes generalizing server with
  | zero => cases returns
  | succ passes ih =>
      cases next : server.backlog with
      | nil =>
          rw [handleNewConnection_again next] at returns
          obtain rfl := Option.some.inj returns
          exact ⟨_, .next .start (.acceptAgain pc next)⟩
      | cons connection backlog =>
          cases free : server.unused descriptors with
          | nil =>
              rw [handleNewConnection_tooManyFiles next free] at returns
              exact ih pc returns
          | cons fd rest =>
              rw [handleNewConnection_accept next free] at returns
              obtain ⟨_, first⟩ := acceptPass_run pc next free
              obtain ⟨_, later⟩ := ih rfl returns
              exact ⟨_, first.trans later⟩

end Passes

/-- The call returns after finitely many passes, and every connection that it
accepted is registered. -/
def ReturnsRegistered (descriptors : Descriptors) (events : List (Ready Nat))
    (server : EpollServer Nat) : Prop :=
  ∃ passes after,
    handleNewConnection descriptors events passes server = some after ∧
      ∀ fd, server.clients fd = none → ∀ client ∈ after.clients fd,
        client.registered = true

/-- It does so if and only if no more connections wait than descriptors are
free, and each of the descriptors taken can be registered. -/
theorem returnsRegistered_iff (descriptors : Descriptors)
    (events : List (Ready Nat)) (server : EpollServer Nat) :
    ReturnsRegistered descriptors events server ↔
      server.backlog.length ≤ (server.unused descriptors).length ∧
        ∀ fd ∈ (server.unused descriptors).take server.backlog.length,
          descriptors.adds fd = true := by
  constructor
  · rintro ⟨passes, after, returns, registered⟩
    constructor
    · by_contra few
      rw [handleNewConnection_spins (Nat.lt_of_not_le few)] at returns
      cases returns
    · intro fd taken
      obtain ⟨client, accepted, added⟩ :=
        (AcceptedAll.of_returns returns).accepted fd taken
      rw [← added]
      exact registered fd
        (clients_eq_none_of_unused (List.mem_of_mem_take taken)) client accepted
  · rintro ⟨enough, added⟩
    obtain ⟨after, returns⟩ := handleNewConnection_returns events enough
    refine ⟨_, after, returns, ?_⟩
    intro fd unused client accepted
    have all := AcceptedAll.of_returns returns
    by_cases taken : fd ∈ (server.unused descriptors).take server.backlog.length
    · obtain ⟨other, same, registered⟩ := all.accepted fd taken
      obtain rfl := Option.some.inj (same.symm.trans accepted)
      exact registered.trans (added fd taken)
    · rw [all.others fd taken, unused] at accepted
      cases accepted

/-- One connection waits, and the standard streams, the listening socket and
`epoll` use up the descriptors. -/
def exhaustedDescriptors : Descriptors where
  limit := 5
  others := [0, 1, 2, 3, 4]
  adds _ := true

theorem handleNewConnection_never_returns :
    ¬ReturnsRegistered exhaustedDescriptors []
      { EpollServer.started with
        backlog := [.new]
        pc := .accepting [] } := by
  rintro ⟨passes, after, returns, -⟩
  rw [handleNewConnection_spins (by decide)] at returns
  cases returns

end EpollServer

end TradingMatcher

import TradingMatcher.Runs

/-!
# The receive loop

`UDPServer` and `UDPMulticastReceiver` take datagrams out of a socket, at most
`max_messages` of them in a call of `receiveMessages`, hand each to the handler
and pause after a call that received none.  The kernel puts datagrams in at any
time.  What a datagram comes with besides its bytes is a parameter: the address
of its sender, or nothing for a multicast group.
-/

namespace TradingMatcher

variable {Sender : Type*}

/-- A datagram in the socket's buffer.  The length field of UDP has 16 bits. -/
structure Datagram (Sender : Type*) where
  data : List UInt8
  sender : Sender
  fits : data.length < 65536
  deriving DecidableEq

/-- What `recvfrom` leaves in a buffer of 65536 bytes. -/
def Datagram.copied (datagram : Datagram Sender) : List UInt8 :=
  datagram.data.take 65536

@[simp]
theorem Datagram.copied_eq (datagram : Datagram Sender) :
    datagram.copied = datagram.data :=
  List.take_of_length_le datagram.fits.le

/-- Where the loop is: in `run`, before iteration `i` of `receiveMessages`, in
the handler, after the `break`, or in the pause of `run`. -/
inductive UDPPc (Sender : Type*)
  | running
  | receiving (i received : Nat)
  | handling (data : List UInt8) (sender : Sender) (i received : Nat)
  | broken (received : Nat)
  | pausing
  deriving DecidableEq

/-- The socket with the datagrams that wait in it, and the place of the loop. -/
structure UDPServer (Sender : Type*) where
  socket : List (Datagram Sender)
  pc : UDPPc Sender
  deriving DecidableEq

/-- The steps of the kernel and of the loop.  A `recvfrom` returns a datagram,
`EAGAIN` or another error; the pause is `poll` or `usleep`. -/
inductive UDPEvent (Sender : Type*)
  | arrive (datagram : Datagram Sender)
  | call
  | recv (datagram : Datagram Sender)
  | recvAgain
  | recvFails
  | handle (data : List UInt8) (sender : Sender)
  | returns (received : Nat)
  | pause
  deriving DecidableEq

/-- What `run` does with the result of `receiveMessages`. -/
def UDPPc.resume (received : Nat) : UDPPc Sender :=
  if received = 0 then .pausing else .running

/-- One step, of a loop that calls `receiveMessages` with `maxMessages`. -/
inductive UDPStep (maxMessages : Nat) :
    UDPServer Sender → UDPEvent Sender → UDPServer Sender → Prop
  | arrive {socket : List (Datagram Sender)} {pc : UDPPc Sender}
      {datagram : Datagram Sender} :
      UDPStep maxMessages ⟨socket, pc⟩ (.arrive datagram)
        ⟨socket ++ [datagram], pc⟩
  | call {socket : List (Datagram Sender)} :
      UDPStep maxMessages ⟨socket, .running⟩ .call ⟨socket, .receiving 0 0⟩
  | recv {socket : List (Datagram Sender)} {datagram : Datagram Sender}
      {i received : Nat} (more : i < maxMessages) :
      UDPStep maxMessages ⟨datagram :: socket, .receiving i received⟩
        (.recv datagram)
        ⟨socket, .handling datagram.copied datagram.sender i received⟩
  | recvAgain {i received : Nat} (more : i < maxMessages) :
      UDPStep maxMessages ⟨[], .receiving i received⟩ .recvAgain
        ⟨[], .broken received⟩
  | recvFails {socket : List (Datagram Sender)} {i received : Nat}
      (more : i < maxMessages) :
      UDPStep maxMessages ⟨socket, .receiving i received⟩ .recvFails
        ⟨socket, .receiving (i + 1) received⟩
  | handle {socket : List (Datagram Sender)} {data : List UInt8}
      {sender : Sender} {i received : Nat} :
      UDPStep maxMessages ⟨socket, .handling data sender i received⟩
        (.handle data sender) ⟨socket, .receiving (i + 1) (received + 1)⟩
  | returns {socket : List (Datagram Sender)} {i received : Nat}
      (done : ¬ i < maxMessages) :
      UDPStep maxMessages ⟨socket, .receiving i received⟩ (.returns received)
        ⟨socket, .resume received⟩
  | returnsBroken {socket : List (Datagram Sender)} {received : Nat} :
      UDPStep maxMessages ⟨socket, .broken received⟩ (.returns received)
        ⟨socket, .resume received⟩
  | pause {socket : List (Datagram Sender)} :
      UDPStep maxMessages ⟨socket, .pausing⟩ .pause ⟨socket, .running⟩

/-- The step that an event names, if it can be taken. -/
def UDPServer.next? [DecidableEq Sender] (maxMessages : Nat) :
    UDPServer Sender → UDPEvent Sender → Option (UDPServer Sender)
  | ⟨socket, pc⟩, .arrive datagram => some ⟨socket ++ [datagram], pc⟩
  | ⟨socket, .running⟩, .call => some ⟨socket, .receiving 0 0⟩
  | ⟨first :: socket, .receiving i received⟩, .recv datagram =>
      if i < maxMessages ∧ first = datagram then
        some ⟨socket, .handling datagram.copied datagram.sender i received⟩
      else none
  | ⟨[], .receiving i received⟩, .recvAgain =>
      if i < maxMessages then some ⟨[], .broken received⟩ else none
  | ⟨socket, .receiving i received⟩, .recvFails =>
      if i < maxMessages then some ⟨socket, .receiving (i + 1) received⟩
      else none
  | ⟨socket, .handling data sender i received⟩, .handle handed from_ =>
      if data = handed ∧ sender = from_ then
        some ⟨socket, .receiving (i + 1) (received + 1)⟩
      else none
  | ⟨socket, .receiving i received⟩, .returns count =>
      if ¬ i < maxMessages ∧ received = count then
        some ⟨socket, .resume received⟩
      else none
  | ⟨socket, .broken received⟩, .returns count =>
      if received = count then some ⟨socket, .resume received⟩ else none
  | ⟨socket, .pausing⟩, .pause => some ⟨socket, .running⟩
  | _, _ => none

theorem UDPStep.of_next? [DecidableEq Sender] {maxMessages : Nat}
    {source target : UDPServer Sender} {event : UDPEvent Sender}
    (taken : source.next? maxMessages event = some target) :
    UDPStep maxMessages source event target := by
  unfold UDPServer.next? at taken
  split at taken
  · cases taken
    exact .arrive
  · cases taken
    exact .call
  · obtain ⟨⟨more, rfl⟩, ⟨⟩⟩ := Option.ite_none_right_eq_some.mp taken
    exact .recv more
  · obtain ⟨more, ⟨⟩⟩ := Option.ite_none_right_eq_some.mp taken
    exact .recvAgain more
  · obtain ⟨more, ⟨⟩⟩ := Option.ite_none_right_eq_some.mp taken
    exact .recvFails more
  · obtain ⟨⟨rfl, rfl⟩, ⟨⟩⟩ := Option.ite_none_right_eq_some.mp taken
    exact .handle
  · obtain ⟨⟨done, rfl⟩, ⟨⟩⟩ := Option.ite_none_right_eq_some.mp taken
    exact .returns done
  · obtain ⟨rfl, ⟨⟩⟩ := Option.ite_none_right_eq_some.mp taken
    exact .returnsBroken
  · cases taken
    exact .pause
  · cases taken

theorem exists_udpRun_of_replay [DecidableEq Sender] (maxMessages : Nat)
    (start : UDPServer Sender) (history : List (UDPEvent Sender))
    (test : UDPServer Sender → Bool)
    (replays : (Run.replay (UDPServer.next? maxMessages) start history).any
      test = true) :
    ∃ server, Run (UDPStep maxMessages) start history server ∧
      test server = true :=
  Run.exists_of_replay UDPStep.of_next? _ history test replays

namespace UDPServer

/-- The datagrams that the kernel has put into the socket, in that order. -/
def delivered : List (UDPEvent Sender) → List (Datagram Sender)
  | [] => []
  | .arrive datagram :: earlier => delivered earlier ++ [datagram]
  | _ :: earlier => delivered earlier

/-- The datagrams that `recvfrom` has returned. -/
def taken : List (UDPEvent Sender) → List (Datagram Sender)
  | [] => []
  | .recv datagram :: earlier => taken earlier ++ [datagram]
  | _ :: earlier => taken earlier

/-- What the handler has been called with. -/
def handedOver : List (UDPEvent Sender) → List (List UInt8 × Sender)
  | [] => []
  | .handle data sender :: earlier => handedOver earlier ++ [(data, sender)]
  | _ :: earlier => handedOver earlier

/-- The results of the calls of `receiveMessages`. -/
def returned : List (UDPEvent Sender) → List Nat
  | [] => []
  | .returns received :: earlier => returned earlier ++ [received]
  | _ :: earlier => returned earlier

/-- How often `recvfrom` has failed with another error than `EAGAIN`. -/
def failures : List (UDPEvent Sender) → Nat
  | [] => 0
  | .recvFails :: earlier => failures earlier + 1
  | _ :: earlier => failures earlier

/-- The failures since the last call of `receiveMessages`. -/
def failuresInCall : List (UDPEvent Sender) → Nat
  | [] | .call :: _ => 0
  | .recvFails :: earlier => failuresInCall earlier + 1
  | _ :: earlier => failuresInCall earlier

/-- The datagrams that arrived since `recvfrom` found none. -/
def arrivedSinceEmpty : List (UDPEvent Sender) → List (Datagram Sender)
  | [] | .recvAgain :: _ => []
  | .arrive datagram :: earlier => arrivedSinceEmpty earlier ++ [datagram]
  | _ :: earlier => arrivedSinceEmpty earlier

end UDPServer

open UDPServer

namespace UDPPc

/-- What the handler is being called with. -/
def inHand : UDPPc Sender → List (List UInt8 × Sender)
  | .handling data sender _ _ => [(data, sender)]
  | .running | .receiving _ _ | .broken _ | .pausing => []

/-- The messages that the call in progress has counted. -/
def received : UDPPc Sender → Nat
  | .receiving _ received | .handling _ _ _ received | .broken received =>
      received
  | .running | .pausing => 0

/-- The iterations that the call in progress has used up; a `break` uses up
those that are left. -/
def spent (maxMessages : Nat) : UDPPc Sender → Nat
  | .receiving i _ => i
  | .handling _ _ i _ => i + 1
  | .broken _ => maxMessages
  | .running | .pausing => 0

@[simp]
theorem inHand_resume (count : Nat) :
    (UDPPc.resume count : UDPPc Sender).inHand = [] := by
  unfold resume
  split <;> rfl

@[simp]
theorem received_resume (count : Nat) :
    (UDPPc.resume count : UDPPc Sender).received = 0 := by
  unfold resume
  split <;> rfl

@[simp]
theorem spent_resume (maxMessages count : Nat) :
    (UDPPc.resume count : UDPPc Sender).spent maxMessages = 0 := by
  unfold resume
  split <;> rfl

end UDPPc

section Runs

variable {maxMessages : Nat} {waiting : List (Datagram Sender)}
  {history : List (UDPEvent Sender)} {server : UDPServer Sender}

/-- What was taken and what still waits is what was there and what arrived. -/
theorem taken_append_socket
    (run : Run (UDPStep maxMessages) ⟨waiting, .running⟩ history server) :
    taken history ++ server.socket = waiting ++ delivered history := by
  induction run with
  | start => simp [taken, delivered]
  | next run edge ih =>
      cases edge with
      | arrive => simp [taken, delivered, ← List.append_assoc, ← ih]
      | recv => simpa [taken, delivered] using ih
      | _ => exact ih

/-- The handler gets the bytes of every datagram that is taken. -/
theorem handedOver_append_inHand
    (run : Run (UDPStep maxMessages) ⟨waiting, .running⟩ history server) :
    handedOver history ++ server.pc.inHand =
      (taken history).map fun datagram => (datagram.data, datagram.sender) := by
  induction run with
  | start => rfl
  | next run edge ih =>
      cases edge with
      | recv => simpa [taken, handedOver, UDPPc.inHand] using ih
      | handle => simpa [taken, handedOver, UDPPc.inHand] using ih
      | returns | returnsBroken =>
          rw [UDPPc.inHand_resume]
          exact ih
      | _ => exact ih

/-- Every message is counted in the result of one call. -/
theorem sum_returned_add
    (run : Run (UDPStep maxMessages) ⟨waiting, .running⟩ history server) :
    (returned history).sum + server.pc.received =
      (handedOver history).length := by
  induction run with
  | start => rfl
  | next run edge ih =>
      cases edge with
      | handle =>
          simp only [UDPPc.received, handedOver, returned, List.length_append,
            List.length_singleton] at ih ⊢
          omega
      | returns | returnsBroken =>
          simp only [returned, List.sum_append, List.sum_singleton,
            UDPPc.received_resume]
          exact ih
      | _ => exact ih

/-- A call takes a datagram in each of its iterations that does not fail, as
long as one of the first ones waits. -/
structure Paced (maxMessages : Nat) (waiting : List (Datagram Sender))
    (history : List (UDPEvent Sender)) (server : UDPServer Sender) : Prop where
  inTurn : server.pc.spent maxMessages ≤ maxMessages
  atMost : (taken history).length ≤
    (returned history).length * maxMessages + server.pc.spent maxMessages
  atLeast : waiting.length ≤ (taken history).length ∨
    (returned history).length * maxMessages + server.pc.spent maxMessages ≤
      (taken history).length + failures history

theorem Paced.of_run
    (run : Run (UDPStep maxMessages) ⟨waiting, .running⟩ history server) :
    Paced maxMessages waiting history server := by
  induction run with
  | start => exact ⟨Nat.zero_le _, by simp [taken], .inr (by simp [returned,
      UDPPc.spent])⟩
  | next run edge ih =>
      obtain ⟨inTurn, atMost, atLeast⟩ := ih
      cases edge with
      | arrive | call | pause => exact ⟨inTurn, atMost, atLeast⟩
      | handle => exact ⟨inTurn, atMost, atLeast⟩
      | recv more =>
          simp only [UDPPc.spent] at inTurn atMost atLeast
          refine ⟨more, ?_, ?_⟩ <;>
            simp only [taken, returned, failures, UDPPc.spent,
              List.length_append, List.length_singleton] <;> omega
      | recvFails more =>
          simp only [UDPPc.spent] at inTurn atMost atLeast
          refine ⟨more, ?_, ?_⟩ <;>
            simp only [taken, returned, failures, UDPPc.spent] <;> omega
      | recvAgain more =>
          have all := congrArg List.length (taken_append_socket run)
          simp only [UDPPc.spent, List.length_append, List.length_nil]
            at inTurn atMost atLeast all
          refine ⟨le_rfl, ?_, .inl ?_⟩ <;>
            simp only [taken, returned, UDPPc.spent] <;> omega
      | returns done =>
          simp only [UDPPc.spent] at inTurn atMost atLeast
          refine ⟨by simp, ?_, ?_⟩ <;>
            simp only [taken, returned, failures, UDPPc.spent_resume,
              List.length_append, List.length_singleton, Nat.add_mul,
              Nat.one_mul] <;> omega
      | returnsBroken =>
          simp only [UDPPc.spent] at inTurn atMost atLeast
          refine ⟨by simp, ?_, ?_⟩ <;>
            simp only [taken, returned, failures, UDPPc.spent_resume,
              List.length_append, List.length_singleton, Nat.add_mul,
              Nat.one_mul] <;> omega

/-- Between two calls the handler has got the first datagrams, each once and in
the order of their arrival.  All that the calls returned are counted, no call
returned more than its bound, and each call took a datagram in each of its
iterations that did not fail as long as one of those waited that were there at
the start. -/
theorem receiveMessages_keeps_up
    (run : Run (UDPStep maxMessages) ⟨waiting, .running⟩ history server)
    (between : server.pc = .running) :
    ∃ count,
      handedOver history = ((waiting ++ delivered history).take count).map
        (fun datagram => (datagram.data, datagram.sender)) ∧
      server.socket = (waiting ++ delivered history).drop count ∧
      (returned history).sum = count ∧
      count ≤ (returned history).length * maxMessages ∧
      min waiting.length ((returned history).length * maxMessages -
        failures history) ≤ count := by
  obtain ⟨inTurn, atMost, atLeast⟩ := Paced.of_run run
  have parts := taken_append_socket run
  have same := handedOver_append_inHand run
  have counted := sum_returned_add run
  rw [between] at atMost atLeast same counted
  simp only [UDPPc.inHand, UDPPc.received, UDPPc.spent, List.append_nil,
    Nat.add_zero] at atMost atLeast same counted
  refine ⟨(taken history).length, ?_, ?_, ?_, atMost, ?_⟩
  · rw [← parts, List.take_left, same]
  · rw [← parts, List.drop_left]
  · rw [counted, same, List.length_map]
  · omega

def threeBytes : List (Datagram Unit) :=
  [⟨[1], (), by decide⟩, ⟨[2], (), by decide⟩, ⟨[3], (), by decide⟩]

/-- Two calls for at most two messages, with one failure. -/
def twoCalls : List (UDPEvent Unit) :=
  [.returns 1, .handle [3] (), .recv ⟨[3], (), by decide⟩, .recvFails, .call,
    .returns 2, .handle [2] (), .recv ⟨[2], (), by decide⟩, .handle [1] (),
    .recv ⟨[1], (), by decide⟩, .call]

theorem receiveMessages_keeps_up_failing :
    ∃ server, Run (UDPStep 2) ⟨threeBytes, .running⟩ twoCalls server ∧
      ∃ count,
        handedOver twoCalls =
          ((threeBytes ++ delivered twoCalls).take count).map
            (fun datagram => (datagram.data, datagram.sender)) ∧
        server.socket = (threeBytes ++ delivered twoCalls).drop count ∧
        (returned twoCalls).sum = count ∧ count ≤ 2 * 2 ∧
        min 3 (2 * 2 - 1) ≤ count := by
  obtain ⟨server, run, between⟩ := exists_udpRun_of_replay 2
    ⟨threeBytes, .running⟩ twoCalls (fun server => server.pc = .running)
    (by decide)
  exact ⟨server, run, receiveMessages_keeps_up run (of_decide_eq_true between)⟩

/-- What a place of the loop says about the call. -/
def UDPPc.Looks (maxMessages : Nat) (history : List (UDPEvent Sender))
    (socket : List (Datagram Sender)) : UDPPc Sender → Prop
  | .running => True
  | .receiving i received =>
      failuresInCall history + received = i ∧ i ≤ maxMessages
  | .handling _ _ i received =>
      failuresInCall history + received = i ∧ i < maxMessages
  | .broken _ => socket = arrivedSinceEmpty history
  | .pausing => socket = arrivedSinceEmpty history ∨
      failuresInCall history = maxMessages

theorem looks_of_run
    (run : Run (UDPStep maxMessages) ⟨waiting, .running⟩ history server) :
    server.pc.Looks maxMessages history server.socket := by
  induction run with
  | start => trivial
  | @next history source target event run edge ih =>
      cases edge with
      | @arrive socket pc datagram =>
          cases pc with
          | broken => exact congrArg (· ++ [datagram]) ih
          | pausing => exact ih.imp_left (congrArg (· ++ [datagram]))
          | running | receiving | handling => exact ih
      | call => exact ⟨rfl, Nat.zero_le _⟩
      | recv more => exact ⟨ih.1, more⟩
      | recvAgain => rfl
      | recvFails more =>
          simp only [UDPPc.Looks, failuresInCall] at ih ⊢
          omega
      | handle =>
          simp only [UDPPc.Looks, failuresInCall] at ih ⊢
          omega
      | @returns socket i received done =>
          unfold UDPPc.resume
          split
          next none =>
            refine .inr ?_
            simp only [UDPPc.Looks, failuresInCall] at ih ⊢
            omega
          next => trivial
      | returnsBroken =>
          unfold UDPPc.resume
          split
          next => exact .inl ih
          next => trivial
      | pause => trivial

/-- When the loop pauses, all that waits has arrived since `recvfrom` found the
socket empty, or every `recvfrom` of the last call has failed. -/
theorem pauses_when_empty
    (run : Run (UDPStep maxMessages) ⟨waiting, .running⟩ history server)
    (pauses : server.pc = .pausing) :
    server.socket = arrivedSinceEmpty history ∨
      failuresInCall history = maxMessages := by
  have looks := looks_of_run run
  rw [pauses] at looks
  exact looks

theorem pauses_when_empty_late :
    ∃ server, Run (UDPStep 64) ⟨[], .running⟩
        [.returns 0, .arrive ⟨[1], (), by decide⟩, .recvAgain, .call] server ∧
      (server.socket = [⟨[1], (), by decide⟩] ∨ 0 = 64) := by
  obtain ⟨server, run, pauses⟩ := exists_udpRun_of_replay 64 ⟨[], .running⟩
    [.returns 0, .arrive ⟨[1], (), by decide⟩, .recvAgain, .call]
    (fun server => server.pc = .pausing) (by decide)
  exact ⟨server, run, pauses_when_empty run (of_decide_eq_true pauses)⟩

end Runs

end TradingMatcher

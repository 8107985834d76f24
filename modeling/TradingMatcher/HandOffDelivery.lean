import TradingMatcher.HandOff

/-!
# What the hand-off delivers, and to whom it belongs

The consumer raises its eyes from the queue only after it has seen the flag, and
from then on no push moves the write position: an empty queue stays empty.  The
orders themselves lie in the producer's pool, which nobody keeps for the
consumer.
-/

namespace TradingMatcher

section Histories

def HandOffEvent.orderQueue? : HandOffEvent →
    Option (RingEvent Unit Unit (OrderAddress HandOffThread))
  | .push event | .pop event => some event
  | _ => none

/-- The steps of the queue. -/
def orderQueueHistory (history : List HandOffEvent) :
    List (RingEvent Unit Unit (OrderAddress HandOffThread)) :=
  history.filterMap HandOffEvent.orderQueue?

end Histories

section Calls

variable {Item : Type*} {size : RingSize} {source target : Ring Unit Unit Item}
  {event : RingEvent Unit Unit Item}

/-- A step of `push` leaves the consumer alone, and the read position. -/
theorem RingStep.of_isPushOf {item : Item} (edge : RingStep size source event target)
    (pushes : event.IsPushOf item) :
    target.pop () = source.pop () ∧
      target.queue.readPos = source.queue.readPos := by
  cases edge <;> first | exact ⟨rfl, rfl⟩ | cases pushes

/-- A step of `pop` leaves the producer alone, and the write position. -/
theorem RingStep.of_isPop (edge : RingStep size source event target)
    (pops : event.IsPop) :
    target.push () = source.push () ∧
      target.queue.writePos = source.queue.writePos := by
  cases edge <;> first | exact ⟨rfl, rfl⟩ | cases pops

end Calls

/-- What the producer's place says: only inside its loop does it push, and only
after its loop is the flag up. -/
def ProducerPc.Place (done : Bool)
    (push : PushPc (OrderAddress HandOffThread)) : ProducerPc → Prop
  | .loop _ | .allocated _ _ => done = false ∧ push = .outside
  | .pushing _ _ => done = false
  | .storedDone | .exited => done = true ∧ push = .outside

/-- What the consumer's place says: once it has seen the flag, the positions it
has loaded are the current ones. -/
def ConsumerPc.Place (done : Bool)
    (queue : SPSCQueue (OrderAddress HandOffThread))
    (pop : PopPc (OrderAddress HandOffThread)) : ConsumerPc → Prop
  | .loop | .popped _ => pop = .outside
  | .popping => True
  | .sawDone => pop = .outside ∧ done = true
  | .emptyLoadedRead read =>
      pop = .outside ∧ done = true ∧ read = queue.readPos
  | .emptyLoadedWrite write =>
      pop = .outside ∧ done = true ∧ write = queue.writePos
  | .left => pop = .outside ∧ done = true ∧ queue.readPos = queue.writePos

/-- While the flag is down the consumer's place says nothing of the
positions. -/
theorem ConsumerPc.Place.of_running {consumer : ConsumerPc}
    {queue moved : SPSCQueue (OrderAddress HandOffThread)}
    {pop : PopPc (OrderAddress HandOffThread)} {done : Bool}
    (place : consumer.Place false queue pop) :
    consumer.Place done moved pop := by
  cases consumer <;> simp_all [Place]

theorem ProducerPc.place_resume {size : RingSize} {i : Nat}
    {order : OrderAddress HandOffThread}
    {source target : Ring Unit Unit (OrderAddress HandOffThread)}
    {event : RingEvent Unit Unit (OrderAddress HandOffThread)}
    (edge : RingStep size source event target)
    (pushes : event.IsPushOf order) :
    (ProducerPc.resume i order event).Place false (target.push ()) := by
  cases edge with
  | pushFull | pushStoreWrite => exact ⟨rfl, by simp⟩
  | pushLoadWrite | pushRoom | pushWriteSlot => rfl
  | _ => cases pushes

theorem ConsumerPc.place_resume {size : RingSize} {done : Bool}
    {source target : Ring Unit Unit (OrderAddress HandOffThread)}
    {event : RingEvent Unit Unit (OrderAddress HandOffThread)}
    (edge : RingStep size source event target) (pops : event.IsPop) :
    (ConsumerPc.resume event).Place done target.queue (target.pop ()) := by
  cases edge with
  | popEmpty | popStoreRead => simp [resume, Place]
  | popLoadRead | popAvailable | popReadSlot => trivial
  | _ => cases pops

theorem ConsumerPc.place_afterEmpty {done : Bool}
    {queue : SPSCQueue (OrderAddress HandOffThread)}
    {pop : PopPc (OrderAddress HandOffThread)} (outside : pop = .outside)
    (raised : done = true) :
    (ConsumerPc.afterEmpty queue.readPos queue.writePos).Place done queue
      pop := by
  unfold afterEmpty
  split
  next empty => exact ⟨outside, raised, empty⟩
  next => trivial

/-- Both places. -/
structure HandOff.Shutdown (handOff : HandOff) : Prop where
  producer : handOff.producer.Place handOff.producerDone
    (handOff.orderQueue.push ())
  consumer : handOff.consumer.Place handOff.producerDone
    handOff.orderQueue.queue (handOff.orderQueue.pop ())

namespace HandOff.Shutdown

variable {size : RingSize} {poolSize : UInt64} {n : Nat} {fields : Nat → Order}
  {source target : HandOff} {event : HandOffEvent}

theorem start (buffer : Nat → OrderAddress HandOffThread)
    (object : OrderAddress HandOffThread → Order) :
    (HandOff.start buffer object).Shutdown :=
  ⟨⟨rfl, rfl⟩, rfl⟩

theorem step (shutdown : source.Shutdown)
    (edge : HandOffStep size poolSize n fields source event target) :
    target.Shutdown := by
  obtain ⟨producer, consumer⟩ := shutdown
  cases edge with
  | allocate pc | assign pc =>
      rw [pc] at producer
      first | exact ⟨producer, consumer⟩ | exact ⟨producer.1, consumer⟩
  | storeDone pc =>
      rw [pc] at producer
      rw [producer.1] at consumer
      exact ⟨⟨rfl, producer.2⟩, consumer.of_running⟩
  | exit pc =>
      rw [pc] at producer
      exact ⟨producer, consumer⟩
  | push pc pushes edge =>
      rw [pc] at producer
      have running : source.producerDone = false := producer
      rw [running] at consumer
      obtain ⟨samePop, -⟩ := edge.of_isPushOf pushes
      refine ⟨?_, ?_⟩
      · rw [running]
        exact ProducerPc.place_resume edge pushes
      · rw [samePop]
        exact consumer.of_running
  | loadDone pc =>
      rw [pc] at consumer
      refine ⟨producer, ?_⟩
      cases raised : source.producerDone with
      | false => simp [ConsumerPc.Place]
      | true => simpa [ConsumerPc.Place, raised] using consumer
  | emptyReadFirst pc | emptyWriteFirst pc =>
      rw [pc] at consumer
      exact ⟨producer, consumer.1, consumer.2, rfl⟩
  | emptyWriteSecond pc | emptyReadSecond pc =>
      rw [pc] at consumer
      obtain ⟨outside, raised, rfl⟩ := consumer
      exact ⟨producer, ConsumerPc.place_afterEmpty outside raised⟩
  | pop pc pops edge =>
      obtain ⟨samePush, -⟩ := edge.of_isPop pops
      refine ⟨?_, ConsumerPc.place_resume edge pops⟩
      rw [samePush]
      exact producer
  | readOrder pc =>
      rw [pc] at consumer
      exact ⟨producer, consumer⟩

end HandOff.Shutdown

section Runs

variable {size : RingSize} {poolSize : UInt64} {n : Nat} {fields : Nat → Order}
  {buffer : Nat → OrderAddress HandOffThread}
  {object : OrderAddress HandOffThread → Order}
  {history : List HandOffEvent} {handOff : HandOff}

/-- A run of the hand-off runs its queue. -/
theorem orderQueueRun
    (run : Run (HandOffStep size poolSize n fields) (.start buffer object)
      history handOff) :
    Run (RingStep size) (.new buffer) (orderQueueHistory history)
      handOff.orderQueue := by
  apply run.project HandOff.orderQueue HandOffEvent.orderQueue?
  · intro _ _ _ edge notQueue
    cases edge with
    | push | pop => cases notQueue
    | _ => rfl
  · intro _ _ _ _ edge observed
    cases edge with
    | push _ _ edge | pop _ _ edge =>
        obtain rfl := Option.some.inj observed
        exact edge
    | _ => cases observed

theorem shutdown_of_run
    (run : Run (HandOffStep size poolSize n fields) (.start buffer object)
      history handOff) : handOff.Shutdown := by
  apply run.invariant fun _ handOff => handOff.Shutdown
  · exact .start buffer object
  · intro _ _ _ _ _ shutdown edge
    exact shutdown.step edge

/-- When the consumer has left its loop it has popped exactly the orders whose
push returned true, in that order, and the queue is empty. -/
theorem handOff_drains
    (run : Run (HandOffStep size poolSize n fields) (.start buffer object)
      history handOff) (left : handOff.consumer = .left) :
    popped (orderQueueHistory history) = accepted (orderQueueHistory history) ∧
      handOff.orderQueue.queue.size size = 0 := by
  have fifo := Fifo.of_one_of_each (orderQueueRun run)
  have place := (shutdown_of_run run).consumer
  rw [left] at place
  obtain ⟨-, -, empty⟩ := place
  have drained := fifo.readPos_eq_writePos_iff.mp empty
  refine ⟨drained, ?_⟩
  rw [fifo.size_eq, drained, Nat.sub_self]

/-- The order of every iteration in the runs below. -/
def sampleOrder (_ : Nat) : Order := Order.new 100 true 10 100000000 1

/-- The hand-off before the runs below. -/
def sampleStart : HandOff := .start (fun _ => .heap 0) fun _ => Order.zero

/-- The four steps of a push that finds room. -/
def pushOrder (order : OrderAddress HandOffThread) : List HandOffEvent :=
  [.push (.pushStoreWrite () order), .push (.pushWriteSlot ()),
    .push (.pushRoom ()), .push (.pushLoadWrite () order)]

/-- The four steps of a pop that finds an order. -/
def popOrder (order : OrderAddress HandOffThread) : List HandOffEvent :=
  [.pop (.popStoreRead () order), .pop (.popReadSlot ()),
    .pop (.popAvailable ()), .pop (.popLoadRead ())]

/-- With two slots the second of two pushes fails; the flag goes up before the
consumer looks. -/
def secondRefused : List HandOffEvent :=
  List.flatten [
    [.emptyLoadWrite, .emptyLoadRead, .loadDone,
      .readOrder (.pooled .producer 0) (sampleOrder 0)],
    popOrder (.pooled .producer 0),
    [.emptyLoadRead, .emptyLoadWrite, .loadDone, .storeDone,
      .push (.pushFull ()), .push (.pushLoadWrite () (.pooled .producer 1)),
      .assign, .allocate 0],
    pushOrder (.pooled .producer 0), [.assign, .allocate 0]]

theorem handOff_drains_refused :
    ∃ handOff, Run (HandOffStep twoSlots 1024 2 sampleOrder) sampleStart
        secondRefused handOff ∧
      popped (orderQueueHistory secondRefused) =
        accepted (orderQueueHistory secondRefused) ∧
      handOff.orderQueue.queue.size twoSlots = 0 := by
  obtain ⟨handOff, run, left⟩ := exists_handOffRun_of_replay (fun _ _ => True)
    twoSlots 1024 2 sampleOrder sampleStart secondRefused
    (fun handOff => handOff.consumer = .left) (by decide +kernel)
  exact ⟨handOff, run.unguard,
    handOff_drains run.unguard (of_decide_eq_true left)⟩

end Runs

section Lifetime

variable {size : RingSize} {poolSize : UInt64} {n : Nat} {fields : Nat → Order}
  {buffer : Nat → OrderAddress HandOffThread}
  {object : OrderAddress HandOffThread → Order}
  {history : List HandOffEvent} {handOff source target : HandOff}
  {event : HandOffEvent}

/-- The orders that are accepted and not yet popped. -/
def unpopped (history : List HandOffEvent) :
    List (OrderAddress HandOffThread) :=
  (accepted (orderQueueHistory history)).drop
    (popped (orderQueueHistory history)).length

/-- The order that the consumer has popped and not yet read. -/
def ConsumerPc.order? : ConsumerPc → Option (OrderAddress HandOffThread)
  | .popped order => some order
  | _ => none

/-- The producer exits only when no order of its pool is in the queue or in the
consumer's hands. -/
def ExitsDrained (size : RingSize) (handOff : HandOff) : HandOffEvent → Prop
  | .exit =>
      (∀ order ∈ handOff.orderQueue.queue.contents size,
        order.owner? ≠ some .producer) ∧
      ∀ order ∈ handOff.consumer.order?, order.owner? ≠ some .producer
  | _ => True

instance exitsDrainedDecidable (size : RingSize) (handOff : HandOff) :
    ∀ event, Decidable (ExitsDrained size handOff event)
  | .exit => inferInstanceAs (Decidable (
      (∀ order ∈ handOff.orderQueue.queue.contents size,
        order.owner? ≠ some .producer) ∧
      ∀ order ∈ handOff.consumer.order?, order.owner? ≠ some .producer))
  | .allocate _ | .assign | .push _ | .storeDone | .loadDone | .emptyLoadRead
  | .emptyLoadWrite | .pop _ | .readOrder _ _ => .isTrue trivial

/-- The orders on their way to the consumer are alive. -/
structure HandOff.Kept (history : List HandOffEvent) (handOff : HandOff) :
    Prop where
  running : handOff.producer ≠ .exited → ∀ order, handOff.pools.Alive order
  waiting : ∀ order ∈ unpopped history, handOff.pools.Alive order
  held : ∀ order ∈ handOff.consumer.order?, handOff.pools.Alive order

namespace HandOff.Kept

theorem of_alive (alive : ∀ order, handOff.pools.Alive order) :
    handOff.Kept history :=
  ⟨fun _ => alive, fun order _ => alive order, fun order _ => alive order⟩

/-- The consumer moves on without popping. -/
theorem of_consumer (kept : source.Kept history)
    (pools : target.pools = source.pools)
    (producer : target.producer = source.producer)
    (empty : target.consumer.order? = none)
    (same : unpopped (event :: history) = unpopped history) :
    target.Kept (event :: history) where
  running := by
    rw [pools, producer]
    exact kept.running
  waiting := by
    rw [same, pools]
    exact kept.waiting
  held order holds := by
    rw [empty] at holds
    cases holds

theorem popStep (kept : source.Kept history)
    (fifo : Fifo size (accepted (orderQueueHistory history))
      (popped (orderQueueHistory history)) source.orderQueue)
    {event : RingEvent Unit Unit (OrderAddress HandOffThread)}
    {orderQueue : Ring Unit Unit (OrderAddress HandOffThread)}
    (pops : event.IsPop) (edge : RingStep size source.orderQueue event orderQueue) :
    HandOff.Kept (.pop event :: history)
      { source with orderQueue, consumer := .resume event } := by
  cases edge with
  | @popStoreRead consumer currentRead item pc =>
      obtain ⟨-, first⟩ := fifo.popping.read _ _ _ pc
      have waiting : item ∈ unpopped history := by
        apply List.mem_of_getElem? (i := 0)
        rwa [unpopped, List.getElem?_drop]
      have fewer : unpopped (.pop (.popStoreRead consumer item) :: history) =
          (unpopped history).drop 1 := by
        rw [unpopped, unpopped, List.drop_drop]
        simp [orderQueueHistory, HandOffEvent.orderQueue?, accepted, popped]
      refine ⟨kept.running, ?_, ?_⟩
      · intro order member
        rw [fewer] at member
        exact kept.waiting order (List.mem_of_mem_drop member)
      · rintro order ⟨⟩
        exact kept.waiting item waiting
  | popEmpty | popLoadRead | popAvailable | popReadSlot =>
      exact kept.of_consumer rfl rfl rfl rfl
  | _ => cases pops

theorem step (kept : source.Kept history)
    (fifo : Fifo size (accepted (orderQueueHistory history))
      (popped (orderQueueHistory history)) source.orderQueue)
    (drained : ExitsDrained size source event)
    (edge : HandOffStep size poolSize n fields source event target) :
    target.Kept (event :: history) := by
  cases edge with
  | allocate pc | assign pc | push pc | storeDone pc =>
      have alive := kept.running (by simp [pc])
      exact .of_alive alive
  | exit pc =>
      have alive := kept.running (by simp [pc])
      obtain ⟨queued, held⟩ := drained
      rw [fifo.contents_eq] at queued
      refine ⟨fun running => (running rfl).elim, ?_, ?_⟩
      · intro order member
        exact OrderPools.alive_exit_iff.mpr ⟨alive order, queued order member⟩
      · intro order holds
        exact OrderPools.alive_exit_iff.mpr ⟨alive order, held order holds⟩
  | loadDone pc =>
      refine kept.of_consumer rfl rfl ?_ rfl
      dsimp only
      split <;> rfl
  | emptyWriteSecond pc | emptyReadSecond pc =>
      refine kept.of_consumer rfl rfl ?_ rfl
      unfold ConsumerPc.afterEmpty
      dsimp only
      split <;> rfl
  | emptyReadFirst | emptyWriteFirst | readOrder =>
      exact kept.of_consumer rfl rfl rfl rfl
  | pop pc pops edge => exact kept.popStep fifo pops edge

end HandOff.Kept

theorem kept_of_run
    (run : Run (Guarded (ExitsDrained size)
      (HandOffStep size poolSize n fields)) (.start buffer object) history
      handOff) : handOff.Kept history := by
  apply run.invariant fun history handOff => handOff.Kept history
  · exact .of_alive fun _ _ _ => rfl
  · intro _ _ _ _ run kept edge
    exact kept.step (.of_one_of_each (orderQueueRun run.unguard)) edge.1 edge.2

/-- Where the producer exits only with its orders read, every order that the
consumer reads is alive. -/
theorem exitsDrained_reads_alive
    (run : Run (Guarded (ExitsDrained size)
      (HandOffStep size poolSize n fields)) (.start buffer object) history
      handOff) {order : OrderAddress HandOffThread} {read : Order}
    (reads : HandOffStep size poolSize n fields handOff
      (.readOrder order read) target) :
    handOff.pools.Alive order := by
  cases reads with
  | readOrder pc =>
      apply (kept_of_run run).held
      rw [pc]
      rfl

/-- With a pool of one slot the second order comes from the heap, and the
producer leaves it in the queue when it exits. -/
def heapOrderLeft : List HandOffEvent :=
  List.flatten [
    popOrder (.heap 5),
    [.emptyLoadWrite, .emptyLoadRead, .loadDone, .exit, .storeDone],
    pushOrder (.heap 5),
    [.assign, .allocate 5, .readOrder (.pooled .producer 0) (sampleOrder 0)],
    popOrder (.pooled .producer 0), [.loadDone],
    pushOrder (.pooled .producer 0), [.assign, .allocate 5]]

theorem exitsDrained_reads_alive_heap :
    ∃ handOff target, Run (Guarded (ExitsDrained twoSlots)
        (HandOffStep twoSlots 1 2 sampleOrder)) sampleStart heapOrderLeft
        handOff ∧
      HandOffStep twoSlots 1 2 sampleOrder handOff
        (.readOrder (.heap 5) (handOff.pools.object (.heap 5))) target ∧
      handOff.pools.ended .producer = true ∧
      handOff.pools.Alive (.heap 5) := by
  obtain ⟨handOff, run, passes⟩ := exists_handOffRun_of_replay
    (ExitsDrained twoSlots) twoSlots 1 2 sampleOrder sampleStart heapOrderLeft
    (fun handOff => handOff.consumer = .popped (.heap 5) ∧
      handOff.pools.ended .producer = true) (by decide +kernel)
  obtain ⟨holds, ended⟩ := of_decide_eq_true passes
  exact ⟨handOff, _, run, .readOrder holds, ended,
    exitsDrained_reads_alive run (.readOrder holds)⟩

/-- The size of the queue in `main.cpp`. -/
def orderQueueSize : RingSize := ⟨1024, by decide⟩

/-- The producer is done and gone before the consumer looks. -/
def producerGone : List HandOffEvent :=
  List.flatten [
    popOrder (.pooled .producer 0),
    [.emptyLoadWrite, .emptyLoadRead, .loadDone, .exit, .storeDone],
    pushOrder (.pooled .producer 0), [.assign, .allocate 0]]

/-- One order, pushed before the producer exits and popped afterwards: the
consumer reads it when the storage of its pool has ended. -/
theorem reads_ended_pool :
    ∃ handOff target,
      Run (HandOffStep orderQueueSize 1048576 1 sampleOrder) sampleStart
        producerGone handOff ∧
      HandOffStep orderQueueSize 1048576 1 sampleOrder handOff
        (.readOrder (.pooled .producer 0)
          (handOff.pools.object (.pooled .producer 0))) target ∧
      ¬ handOff.pools.Alive (.pooled .producer 0) := by
  obtain ⟨handOff, run, passes⟩ := exists_handOffRun_of_replay
    (fun _ _ => True) orderQueueSize 1048576 1 sampleOrder sampleStart
    producerGone (fun handOff =>
      handOff.consumer = .popped (.pooled .producer 0) ∧
        handOff.pools.ended .producer = true) (by decide +kernel)
  obtain ⟨holds, ended⟩ := of_decide_eq_true passes
  refine ⟨handOff, _, run.unguard, .readOrder holds, fun alive => ?_⟩
  have notEnded := alive .producer rfl
  rw [ended] at notEnded
  cases notEnded

end Lifetime

end TradingMatcher

import TradingMatcher.BoundedFifo
import TradingMatcher.MemoryPool

/-!
# Handing orders from one thread to another

The two threads of `demonstrateSPSCQueue`: the producer takes orders from its
pool and pushes them, raises a flag and exits; the consumer pops and reads
until it sees the flag and then an empty queue.
-/

namespace TradingMatcher

inductive HandOffThread
  | producer | consumer
  deriving DecidableEq

/-- The loop counter is the number of iterations that are over. -/
inductive ProducerPc
  | loop (i : Nat)
  | allocated (i : Nat) (order : OrderAddress HandOffThread)
  | pushing (i : Nat) (order : OrderAddress HandOffThread)
  | storedDone
  | exited
  deriving DecidableEq

/-- The two loads of `empty` are operands of one comparison, which may be
evaluated in either order. -/
inductive ConsumerPc
  | loop
  | sawDone
  | emptyLoadedRead (read : Nat)
  | emptyLoadedWrite (write : Nat)
  | popping
  | popped (order : OrderAddress HandOffThread)
  | left
  deriving DecidableEq

/-- The queue, the flag and the orders with the places of the two threads. -/
structure HandOff where
  orderQueue : Ring Unit Unit (OrderAddress HandOffThread)
  pools : OrderPools HandOffThread
  producerDone : Bool
  producer : ProducerPc
  consumer : ConsumerPc

/-- The steps of the two threads. -/
inductive HandOffEvent
  | allocate (block : Nat)
  | assign
  | push (event : RingEvent Unit Unit (OrderAddress HandOffThread))
  | storeDone
  | exit
  | loadDone
  | emptyLoadRead
  | emptyLoadWrite
  | pop (event : RingEvent Unit Unit (OrderAddress HandOffThread))
  | readOrder (order : OrderAddress HandOffThread) (fields : Order)
  deriving DecidableEq

section Calls

variable {Producer Consumer Item : Type*}

/-- The step is one of `push`, called with the item. -/
def RingEvent.IsPushOf (item : Item) : RingEvent Producer Consumer Item → Prop
  | .pushLoadWrite _ pushed => pushed = item
  | .pushFull _ | .pushRoom _ | .pushWriteSlot _ | .pushStoreWrite _ _ => True
  | .popLoadRead _ | .popEmpty _ | .popAvailable _ | .popReadSlot _
  | .popStoreRead _ _ => False

/-- The step is one of `pop`. -/
def RingEvent.IsPop : RingEvent Producer Consumer Item → Prop
  | .popLoadRead _ | .popEmpty _ | .popAvailable _ | .popReadSlot _
  | .popStoreRead _ _ => True
  | .pushLoadWrite _ _ | .pushFull _ | .pushRoom _ | .pushWriteSlot _
  | .pushStoreWrite _ _ => False

instance isPushOfDecidable [DecidableEq Item] (item : Item) :
    ∀ event : RingEvent Producer Consumer Item, Decidable (event.IsPushOf item)
  | .pushLoadWrite _ pushed => inferInstanceAs (Decidable (pushed = item))
  | .pushFull _ | .pushRoom _ | .pushWriteSlot _ | .pushStoreWrite _ _ =>
      .isTrue trivial
  | .popLoadRead _ | .popEmpty _ | .popAvailable _ | .popReadSlot _
  | .popStoreRead _ _ => .isFalse id

instance isPopDecidable :
    ∀ event : RingEvent Producer Consumer Item, Decidable event.IsPop
  | .popLoadRead _ | .popEmpty _ | .popAvailable _ | .popReadSlot _
  | .popStoreRead _ _ => .isTrue trivial
  | .pushLoadWrite _ _ | .pushFull _ | .pushRoom _ | .pushWriteSlot _
  | .pushStoreWrite _ _ => .isFalse id

end Calls

/-- The producer's place after a step of `push`: the iteration is over when the
call returns, with either result. -/
def ProducerPc.resume (i : Nat) (order : OrderAddress HandOffThread) :
    RingEvent Unit Unit (OrderAddress HandOffThread) → ProducerPc
  | .pushFull _ | .pushStoreWrite _ _ => .loop (i + 1)
  | _ => .pushing i order

/-- The consumer's place after a step of `pop`. -/
def ConsumerPc.resume :
    RingEvent Unit Unit (OrderAddress HandOffThread) → ConsumerPc
  | .popEmpty _ => .loop
  | .popStoreRead _ order => .popped order
  | _ => .popping

/-- The consumer's place once `empty` has compared the two positions. -/
def ConsumerPc.afterEmpty (read write : Nat) : ConsumerPc :=
  if read = write then .left else .popping

/-- Before the two threads start. -/
def HandOff.start (buffer : Nat → OrderAddress HandOffThread)
    (object : OrderAddress HandOffThread → Order) : HandOff where
  orderQueue := .new buffer
  pools := .new object
  producerDone := false
  producer := .loop 0
  consumer := .loop

/-- One step of one of the threads, where the producer makes `n` attempts and
gives its order the fields `fields i` in iteration `i`. -/
inductive HandOffStep (size : RingSize) (poolSize : UInt64) (n : Nat)
    (fields : Nat → Order) : HandOff → HandOffEvent → HandOff → Prop
  | allocate {handOff : HandOff} {i block : Nat}
      (pc : handOff.producer = .loop i) (more : i < n) :
      HandOffStep size poolSize n fields handOff (.allocate block)
        { handOff with
          pools := (handOff.pools.allocate poolSize .producer block).2
          producer := .allocated i
            (handOff.pools.allocate poolSize .producer block).1 }
  | assign {handOff : HandOff} {i : Nat} {order : OrderAddress HandOffThread}
      (pc : handOff.producer = .allocated i order) :
      HandOffStep size poolSize n fields handOff .assign
        { handOff with
          pools := handOff.pools.store order (fields i)
          producer := .pushing i order }
  | push {handOff : HandOff} {i : Nat} {order : OrderAddress HandOffThread}
      {event : RingEvent Unit Unit (OrderAddress HandOffThread)}
      {orderQueue : Ring Unit Unit (OrderAddress HandOffThread)}
      (pc : handOff.producer = .pushing i order) (pushes : event.IsPushOf order)
      (edge : RingStep size handOff.orderQueue event orderQueue) :
      HandOffStep size poolSize n fields handOff (.push event)
        { handOff with orderQueue, producer := .resume i order event }
  | storeDone {handOff : HandOff} {i : Nat} (pc : handOff.producer = .loop i)
      (finished : n ≤ i) :
      HandOffStep size poolSize n fields handOff .storeDone
        { handOff with producerDone := true, producer := .storedDone }
  | exit {handOff : HandOff} (pc : handOff.producer = .storedDone) :
      HandOffStep size poolSize n fields handOff .exit
        { handOff with
          pools := handOff.pools.exit .producer
          producer := .exited }
  | loadDone {handOff : HandOff} (pc : handOff.consumer = .loop) :
      HandOffStep size poolSize n fields handOff .loadDone
        { handOff with consumer :=
            if handOff.producerDone then .sawDone else .popping }
  | emptyReadFirst {handOff : HandOff} (pc : handOff.consumer = .sawDone) :
      HandOffStep size poolSize n fields handOff .emptyLoadRead
        { handOff with
          consumer := .emptyLoadedRead handOff.orderQueue.queue.readPos }
  | emptyWriteSecond {handOff : HandOff} {read : Nat}
      (pc : handOff.consumer = .emptyLoadedRead read) :
      HandOffStep size poolSize n fields handOff .emptyLoadWrite
        { handOff with
          consumer := .afterEmpty read handOff.orderQueue.queue.writePos }
  | emptyWriteFirst {handOff : HandOff} (pc : handOff.consumer = .sawDone) :
      HandOffStep size poolSize n fields handOff .emptyLoadWrite
        { handOff with
          consumer := .emptyLoadedWrite handOff.orderQueue.queue.writePos }
  | emptyReadSecond {handOff : HandOff} {write : Nat}
      (pc : handOff.consumer = .emptyLoadedWrite write) :
      HandOffStep size poolSize n fields handOff .emptyLoadRead
        { handOff with
          consumer := .afterEmpty handOff.orderQueue.queue.readPos write }
  | pop {handOff : HandOff}
      {event : RingEvent Unit Unit (OrderAddress HandOffThread)}
      {orderQueue : Ring Unit Unit (OrderAddress HandOffThread)}
      (pc : handOff.consumer = .popping) (pops : event.IsPop)
      (edge : RingStep size handOff.orderQueue event orderQueue) :
      HandOffStep size poolSize n fields handOff (.pop event)
        { handOff with orderQueue, consumer := .resume event }
  | readOrder {handOff : HandOff} {order : OrderAddress HandOffThread}
      (pc : handOff.consumer = .popped order) :
      HandOffStep size poolSize n fields handOff
        (.readOrder order (handOff.pools.object order))
        { handOff with consumer := .loop }

/-- The step that an event names, if it can be taken. -/
def HandOff.next? (size : RingSize) (poolSize : UInt64) (n : Nat)
    (fields : Nat → Order) (handOff : HandOff) : HandOffEvent → Option HandOff
  | .allocate block =>
      match handOff.producer with
      | .loop i =>
          if i < n then
            some { handOff with
              pools := (handOff.pools.allocate poolSize .producer block).2
              producer := .allocated i
                (handOff.pools.allocate poolSize .producer block).1 }
          else none
      | _ => none
  | .assign =>
      match handOff.producer with
      | .allocated i order =>
          some { handOff with
            pools := handOff.pools.store order (fields i)
            producer := .pushing i order }
      | _ => none
  | .push event =>
      match handOff.producer with
      | .pushing i order =>
          if event.IsPushOf order then
            (handOff.orderQueue.next? size event).map fun orderQueue =>
              { handOff with orderQueue, producer := .resume i order event }
          else none
      | _ => none
  | .storeDone =>
      match handOff.producer with
      | .loop i =>
          if n ≤ i then
            some { handOff with producerDone := true, producer := .storedDone }
          else none
      | _ => none
  | .exit =>
      match handOff.producer with
      | .storedDone =>
          some { handOff with
            pools := handOff.pools.exit .producer
            producer := .exited }
      | _ => none
  | .loadDone =>
      match handOff.consumer with
      | .loop =>
          some { handOff with consumer :=
            if handOff.producerDone then .sawDone else .popping }
      | _ => none
  | .emptyLoadRead =>
      match handOff.consumer with
      | .sawDone =>
          some { handOff with
            consumer := .emptyLoadedRead handOff.orderQueue.queue.readPos }
      | .emptyLoadedWrite write =>
          some { handOff with
            consumer := .afterEmpty handOff.orderQueue.queue.readPos write }
      | _ => none
  | .emptyLoadWrite =>
      match handOff.consumer with
      | .sawDone =>
          some { handOff with
            consumer := .emptyLoadedWrite handOff.orderQueue.queue.writePos }
      | .emptyLoadedRead read =>
          some { handOff with
            consumer := .afterEmpty read handOff.orderQueue.queue.writePos }
      | _ => none
  | .pop event =>
      if handOff.consumer = .popping ∧ event.IsPop then
        (handOff.orderQueue.next? size event).map fun orderQueue =>
          { handOff with orderQueue, consumer := .resume event }
      else none
  | .readOrder order fields =>
      if handOff.consumer = .popped order ∧
          handOff.pools.object order = fields then
        some { handOff with consumer := .loop }
      else none

section Steps

variable {size : RingSize} {poolSize : UInt64} {n : Nat} {fields : Nat → Order}
  {source target : HandOff} {event : HandOffEvent}

theorem HandOffStep.of_next?
    (taken : source.next? size poolSize n fields event = some target) :
    HandOffStep size poolSize n fields source event target := by
  cases event with
  | push event =>
      rw [HandOff.next?] at taken
      split at taken
      next i order pc =>
        split at taken
        next pushes =>
          obtain ⟨orderQueue, edge, rfl⟩ := Option.map_eq_some_iff.mp taken
          exact .push pc pushes (.of_next? edge)
        next => cases taken
      next => cases taken
  | pop event =>
      rw [HandOff.next?] at taken
      split at taken
      next holds =>
        obtain ⟨orderQueue, edge, rfl⟩ := Option.map_eq_some_iff.mp taken
        exact .pop holds.1 holds.2 (.of_next? edge)
      next => cases taken
  | readOrder order fields =>
      rw [HandOff.next?] at taken
      split at taken
      next holds =>
        obtain rfl := Option.some.inj taken
        rw [← holds.2]
        exact .readOrder holds.1
      next => cases taken
  | loadDone =>
      rw [HandOff.next?] at taken
      split at taken
      next pc =>
        obtain rfl := Option.some.inj taken
        exact .loadDone pc
      next => cases taken
  | _ =>
      rw [HandOff.next?] at taken
      split at taken <;> try split at taken
      all_goals cases taken
      all_goals constructor <;> assumption

/-- A history that replays is the history of a run. -/
theorem exists_handOffRun_of_replay (condition : HandOff → HandOffEvent → Prop)
    [∀ handOff event, Decidable (condition handOff event)]
    (size : RingSize) (poolSize : UInt64) (n : Nat) (fields : Nat → Order)
    (start : HandOff) (history : List HandOffEvent) (test : HandOff → Bool)
    (replays : (Run.replay (Run.guardNext condition fun handOff =>
      handOff.next? size poolSize n fields) start history).any test = true) :
    ∃ handOff, Run (Guarded condition (HandOffStep size poolSize n fields))
      start history handOff ∧ test handOff = true :=
  Run.exists_of_replay (Run.guardNext_sound HandOffStep.of_next?) _ history
    test replays

end Steps

end TradingMatcher

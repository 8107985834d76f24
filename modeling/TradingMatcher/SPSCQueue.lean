import TradingMatcher.CircularBuffer
import TradingMatcher.Runs
import Mathlib.Data.Nat.Bitwise
import Mathlib.Algebra.Order.Ring.Nat

/-!
# The single-producer single-consumer queue

`push` and `pop` split into their atomic steps: two loads, one access to a slot
and one store.  The threads that call them are kept apart only by their names,
so that the same steps also describe several producers or several consumers,
which the code does not exclude.  Loads and stores are taken in one global
order.  The primary template and the specialization for pointers run the same
steps, over different items.
-/

namespace TradingMatcher

/-- The template argument `Size`, with its static assertion. -/
structure RingSize where
  val : Nat
  powerOfTwo : 1 < val ∧ val &&& (val - 1) = 0

structure SPSCQueue (Item : Type*) where
  writePos : Nat
  readPos : Nat
  buffer : Nat → Item

namespace SPSCQueue

variable {Item : Type*}

/-- The queue as constructed; its slots are not initialized. -/
def new (buffer : Nat → Item) : SPSCQueue Item := ⟨0, 0, buffer⟩

/-- The position after a position, masked to the size. -/
def nextPos (size : RingSize) (pos : Nat) : Nat :=
  (pos + 1) &&& (size.val - 1)

/-- One slot is reserved to distinguish full from empty. -/
def capacity (size : RingSize) : Nat := size.val - 1

/-- The number of items between two loaded positions. -/
def loadedSize (size : RingSize) (write read : Nat) : Nat :=
  if read ≤ write then write - read else size.val - read + write

/-- What `size` returns while no other thread moves a position. -/
def size (size : RingSize) (queue : SPSCQueue Item) : Nat :=
  loadedSize size queue.writePos queue.readPos

/-- The items in the slots from the read position up to the write position. -/
def contents (size : RingSize) (queue : SPSCQueue Item) : List Item :=
  (List.range (queue.size size)).map fun offset =>
    queue.buffer ((queue.readPos + offset) % size.val)

end SPSCQueue

/-- Where a thread is in `push`, with the values it holds. -/
inductive PushPc (Item : Type*)
  | outside
  | loadedWrite (item : Item) (currentWrite : Nat)
  | hasRoom (item : Item) (currentWrite : Nat)
  | wroteSlot (item : Item) (currentWrite : Nat)
  deriving DecidableEq

/-- The item that a thread is pushing. -/
def PushPc.item? {Item : Type*} : PushPc Item → Option Item
  | .outside => none
  | .loadedWrite item _ | .hasRoom item _ | .wroteSlot item _ => some item

/-- Where a thread is in `pop`, with the values it holds. -/
inductive PopPc (Item : Type*)
  | outside
  | loadedRead (currentRead : Nat)
  | hasItem (currentRead : Nat)
  | readSlot (currentRead : Nat) (item : Item)
  deriving DecidableEq

/-- A queue with the threads that push to it and pop from it. -/
structure Ring (Producer Consumer Item : Type*) where
  queue : SPSCQueue Item
  push : Producer → PushPc Item
  pop : Consumer → PopPc Item

/-- The atomic steps.  `pushFull` and `popEmpty` are the loads after which the
call returns false; `pushStoreWrite` and `popStoreRead` are the stores with
which it returns true. -/
inductive RingEvent (Producer Consumer Item : Type*)
  | pushLoadWrite (producer : Producer) (item : Item)
  | pushFull (producer : Producer)
  | pushRoom (producer : Producer)
  | pushWriteSlot (producer : Producer)
  | pushStoreWrite (producer : Producer) (item : Item)
  | popLoadRead (consumer : Consumer)
  | popEmpty (consumer : Consumer)
  | popAvailable (consumer : Consumer)
  | popReadSlot (consumer : Consumer)
  | popStoreRead (consumer : Consumer) (item : Item)
  deriving DecidableEq

namespace Ring

variable {Producer Consumer Item : Type*}

/-- A constructed queue that no thread has called yet. -/
def new (buffer : Nat → Item) : Ring Producer Consumer Item where
  queue := SPSCQueue.new buffer
  push _ := .outside
  pop _ := .outside

def setPush [DecidableEq Producer] (ring : Ring Producer Consumer Item) (producer : Producer)
    (pc : PushPc Item) : Ring Producer Consumer Item :=
  { ring with push := Function.update ring.push producer pc }

def setPop [DecidableEq Consumer] (ring : Ring Producer Consumer Item) (consumer : Consumer)
    (pc : PopPc Item) : Ring Producer Consumer Item :=
  { ring with pop := Function.update ring.pop consumer pc }

def writeSlot (ring : Ring Producer Consumer Item) (pos : Nat) (item : Item) :
    Ring Producer Consumer Item :=
  { ring with queue := { ring.queue with
      buffer := Function.update ring.queue.buffer pos item } }

def storeWrite (ring : Ring Producer Consumer Item) (pos : Nat) :
    Ring Producer Consumer Item :=
  { ring with queue := { ring.queue with writePos := pos } }

def storeRead (ring : Ring Producer Consumer Item) (pos : Nat) :
    Ring Producer Consumer Item :=
  { ring with queue := { ring.queue with readPos := pos } }

section Fields

variable (ring : Ring Producer Consumer Item) (pos : Nat) (item : Item)

@[simp, grind =]
theorem writeSlot_push (producer : Producer) :
    (ring.writeSlot pos item).push producer = ring.push producer :=
  rfl

@[simp, grind =]
theorem writeSlot_pop (consumer : Consumer) :
    (ring.writeSlot pos item).pop consumer = ring.pop consumer :=
  rfl

@[simp, grind =]
theorem storeWrite_push (producer : Producer) :
    (ring.storeWrite pos).push producer = ring.push producer :=
  rfl

@[simp, grind =]
theorem storeWrite_pop (consumer : Consumer) :
    (ring.storeWrite pos).pop consumer = ring.pop consumer :=
  rfl

@[simp, grind =]
theorem storeRead_push (producer : Producer) :
    (ring.storeRead pos).push producer = ring.push producer :=
  rfl

@[simp, grind =]
theorem storeRead_pop (consumer : Consumer) :
    (ring.storeRead pos).pop consumer = ring.pop consumer :=
  rfl

@[simp, grind =]
theorem writeSlot_readPos :
    (ring.writeSlot pos item).queue.readPos = ring.queue.readPos :=
  rfl

@[simp, grind =]
theorem storeWrite_readPos :
    (ring.storeWrite pos).queue.readPos = ring.queue.readPos :=
  rfl

end Fields

section SetPush

variable [DecidableEq Producer] (ring : Ring Producer Consumer Item)
  (producer : Producer) (pc : PushPc Item)

@[simp, grind =]
theorem setPush_push (other : Producer) :
    (ring.setPush producer pc).push other =
      if other = producer then pc else ring.push other :=
  Function.update_apply ..

@[simp, grind =]
theorem setPush_pop (consumer : Consumer) :
    (ring.setPush producer pc).pop consumer = ring.pop consumer :=
  rfl

@[simp, grind =]
theorem setPush_queue : (ring.setPush producer pc).queue = ring.queue :=
  rfl

end SetPush

section SetPop

variable [DecidableEq Consumer] (ring : Ring Producer Consumer Item)
  (consumer : Consumer) (pc : PopPc Item)

@[simp, grind =]
theorem setPop_pop (other : Consumer) :
    (ring.setPop consumer pc).pop other =
      if other = consumer then pc else ring.pop other :=
  Function.update_apply ..

@[simp, grind =]
theorem setPop_push (producer : Producer) :
    (ring.setPop consumer pc).push producer = ring.push producer :=
  rfl

@[simp, grind =]
theorem setPop_queue : (ring.setPop consumer pc).queue = ring.queue :=
  rfl

end SetPop

end Ring

section Steps

variable {Producer Consumer Item : Type*}
  [DecidableEq Producer] [DecidableEq Consumer]

open SPSCQueue in
/-- One atomic step of one thread. -/
inductive RingStep (size : RingSize) : Ring Producer Consumer Item →
    RingEvent Producer Consumer Item → Ring Producer Consumer Item → Prop
  | pushLoadWrite {ring : Ring Producer Consumer Item} {producer : Producer}
      {item : Item} (pc : ring.push producer = .outside) :
      RingStep size ring (.pushLoadWrite producer item)
        (ring.setPush producer (.loadedWrite item ring.queue.writePos))
  | pushFull {ring : Ring Producer Consumer Item} {producer : Producer}
      {item : Item} {currentWrite : Nat}
      (pc : ring.push producer = .loadedWrite item currentWrite)
      (full : nextPos size currentWrite = ring.queue.readPos) :
      RingStep size ring (.pushFull producer) (ring.setPush producer .outside)
  | pushRoom {ring : Ring Producer Consumer Item} {producer : Producer}
      {item : Item} {currentWrite : Nat}
      (pc : ring.push producer = .loadedWrite item currentWrite)
      (room : nextPos size currentWrite ≠ ring.queue.readPos) :
      RingStep size ring (.pushRoom producer)
        (ring.setPush producer (.hasRoom item currentWrite))
  | pushWriteSlot {ring : Ring Producer Consumer Item} {producer : Producer}
      {item : Item} {currentWrite : Nat}
      (pc : ring.push producer = .hasRoom item currentWrite) :
      RingStep size ring (.pushWriteSlot producer)
        ((ring.writeSlot currentWrite item).setPush producer
          (.wroteSlot item currentWrite))
  | pushStoreWrite {ring : Ring Producer Consumer Item} {producer : Producer}
      {item : Item} {currentWrite : Nat}
      (pc : ring.push producer = .wroteSlot item currentWrite) :
      RingStep size ring (.pushStoreWrite producer item)
        ((ring.storeWrite (nextPos size currentWrite)).setPush producer
          .outside)
  | popLoadRead {ring : Ring Producer Consumer Item} {consumer : Consumer}
      (pc : ring.pop consumer = .outside) :
      RingStep size ring (.popLoadRead consumer)
        (ring.setPop consumer (.loadedRead ring.queue.readPos))
  | popEmpty {ring : Ring Producer Consumer Item} {consumer : Consumer}
      {currentRead : Nat} (pc : ring.pop consumer = .loadedRead currentRead)
      (empty : currentRead = ring.queue.writePos) :
      RingStep size ring (.popEmpty consumer) (ring.setPop consumer .outside)
  | popAvailable {ring : Ring Producer Consumer Item} {consumer : Consumer}
      {currentRead : Nat} (pc : ring.pop consumer = .loadedRead currentRead)
      (available : currentRead ≠ ring.queue.writePos) :
      RingStep size ring (.popAvailable consumer)
        (ring.setPop consumer (.hasItem currentRead))
  | popReadSlot {ring : Ring Producer Consumer Item} {consumer : Consumer}
      {currentRead : Nat} (pc : ring.pop consumer = .hasItem currentRead) :
      RingStep size ring (.popReadSlot consumer)
        (ring.setPop consumer
          (.readSlot currentRead (ring.queue.buffer currentRead)))
  | popStoreRead {ring : Ring Producer Consumer Item} {consumer : Consumer}
      {currentRead : Nat} {item : Item}
      (pc : ring.pop consumer = .readSlot currentRead item) :
      RingStep size ring (.popStoreRead consumer item)
        ((ring.storeRead (nextPos size currentRead)).setPop consumer .outside)

open SPSCQueue in
/-- The atomic step that an event names, if it can be taken. -/
def Ring.next? [DecidableEq Item] (size : RingSize)
    (ring : Ring Producer Consumer Item) :
    RingEvent Producer Consumer Item → Option (Ring Producer Consumer Item)
  | .pushLoadWrite producer item =>
      match ring.push producer with
      | .outside => some (ring.setPush producer
          (.loadedWrite item ring.queue.writePos))
      | _ => none
  | .pushFull producer =>
      match ring.push producer with
      | .loadedWrite _ currentWrite =>
          if nextPos size currentWrite = ring.queue.readPos then
            some (ring.setPush producer .outside)
          else none
      | _ => none
  | .pushRoom producer =>
      match ring.push producer with
      | .loadedWrite item currentWrite =>
          if nextPos size currentWrite = ring.queue.readPos then none
          else some (ring.setPush producer (.hasRoom item currentWrite))
      | _ => none
  | .pushWriteSlot producer =>
      match ring.push producer with
      | .hasRoom item currentWrite =>
          some ((ring.writeSlot currentWrite item).setPush producer
            (.wroteSlot item currentWrite))
      | _ => none
  | .pushStoreWrite producer item =>
      match ring.push producer with
      | .wroteSlot other currentWrite =>
          if other = item then
            some ((ring.storeWrite (nextPos size currentWrite)).setPush
              producer .outside)
          else none
      | _ => none
  | .popLoadRead consumer =>
      match ring.pop consumer with
      | .outside => some (ring.setPop consumer (.loadedRead ring.queue.readPos))
      | _ => none
  | .popEmpty consumer =>
      match ring.pop consumer with
      | .loadedRead currentRead =>
          if currentRead = ring.queue.writePos then
            some (ring.setPop consumer .outside)
          else none
      | _ => none
  | .popAvailable consumer =>
      match ring.pop consumer with
      | .loadedRead currentRead =>
          if currentRead = ring.queue.writePos then none
          else some (ring.setPop consumer (.hasItem currentRead))
      | _ => none
  | .popReadSlot consumer =>
      match ring.pop consumer with
      | .hasItem currentRead =>
          some (ring.setPop consumer
            (.readSlot currentRead (ring.queue.buffer currentRead)))
      | _ => none
  | .popStoreRead consumer item =>
      match ring.pop consumer with
      | .readSlot currentRead other =>
          if other = item then
            some ((ring.storeRead (nextPos size currentRead)).setPop consumer
              .outside)
          else none
      | _ => none

theorem RingStep.of_next? [DecidableEq Item] {size : RingSize}
    {source target : Ring Producer Consumer Item}
    {event : RingEvent Producer Consumer Item}
    (taken : source.next? size event = some target) :
    RingStep size source event target := by
  cases event <;> simp only [Ring.next?] at taken <;> split at taken <;>
    try split at taken
  all_goals cases taken
  all_goals subst_vars
  all_goals constructor <;> first | assumption | rfl

end Steps

section Histories

variable {Producer Consumer Item : Type*}

/-- The items whose `push` has returned true, in that order. -/
def accepted : List (RingEvent Producer Consumer Item) → List Item
  | [] => []
  | .pushStoreWrite _ item :: earlier => accepted earlier ++ [item]
  | _ :: earlier => accepted earlier

/-- The items that `pop` has returned, in that order. -/
def popped : List (RingEvent Producer Consumer Item) → List Item
  | [] => []
  | .popStoreRead _ item :: earlier => popped earlier ++ [item]
  | _ :: earlier => popped earlier

/-- The accepted items with the producers that pushed them. -/
def origins : List (RingEvent Producer Consumer Item) → List (Producer × Item)
  | [] => []
  | .pushStoreWrite producer item :: earlier =>
      origins earlier ++ [(producer, item)]
  | _ :: earlier => origins earlier

theorem map_origins (history : List (RingEvent Producer Consumer Item)) :
    (origins history).map Prod.snd = accepted history := by
  induction history with
  | nil => rfl
  | cons event earlier ih =>
      cases event with
      | pushStoreWrite =>
          rw [origins, accepted, List.map_append, ih, List.map_singleton]
      | _ => exact ih

end Histories

end TradingMatcher

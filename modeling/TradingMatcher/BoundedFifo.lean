import TradingMatcher.SPSCQueue

/-!
# The queue is a bounded FIFO

The invariant ties the two positions to the numbers of accepted and popped
items, the slots to the accepted items, and the values that a thread has checked
to the positions.  Every step keeps it as long as no thread goes past its check
with a position that has moved since it was loaded, and no position is stored
while another thread of the same kind is past its check.  With one producer and
one consumer there is no other thread, and both hold of every step.
-/

namespace TradingMatcher

open SPSCQueue CircularBuffer

theorem RingSize.exists_two_pow (size : RingSize) :
    ∃ exponent, size.val = 2 ^ exponent := by
  have positive : size.val ≠ 0 := by
    have := size.powerOfTwo.1
    omega
  exact (Nat.and_sub_one_eq_zero_iff_isPowerOfTwo positive).mp
    size.powerOfTwo.2

/-- Masking is the remainder modulo the size. -/
theorem SPSCQueue.nextPos_mod (size : RingSize) (count : Nat) :
    nextPos size (count % size.val) = (count + 1) % size.val := by
  obtain ⟨exponent, sizeEq⟩ := size.exists_two_pow
  rw [nextPos, sizeEq, Nat.and_two_pow_sub_one_eq_mod, Nat.mod_add_mod]

/-- Two positions tell the number of items between them while that is less than
the size. -/
theorem SPSCQueue.loadedSize_mod {size : RingSize} {sent taken : Nat}
    (released : taken ≤ sent) (bound : sent < taken + size.val) :
    loadedSize size (sent % size.val) (taken % size.val) = sent - taken := by
  have small : taken % size.val < size.val :=
    Nat.mod_lt _ (by have := size.powerOfTwo.1; omega)
  obtain ⟨waiting, rfl⟩ := Nat.exists_eq_add_of_le released
  have wraps : (taken + waiting) % size.val =
      (taken % size.val + waiting) % size.val := by
    rw [Nat.mod_add_mod]
  rw [loadedSize, wraps]
  generalize taken % size.val = read at small
  by_cases within : read + waiting < size.val
  · rw [Nat.mod_eq_of_lt within, if_pos (by omega)]
    omega
  · rw [Nat.mod_eq_sub_mod (by omega), Nat.mod_eq_of_lt (by omega),
      if_neg (by omega)]
    omega

/-- The thread has checked for room and has not returned. -/
def PushPc.PastCheck {Item : Type*} : PushPc Item → Prop
  | .hasRoom _ _ | .wroteSlot _ _ => True
  | .outside | .loadedWrite _ _ => False

/-- A position that the thread has yet to check is the current one. -/
def PushPc.UpToDate {Item : Type*} (writePos : Nat) : PushPc Item → Prop
  | .loadedWrite _ currentWrite => currentWrite = writePos
  | .outside | .hasRoom _ _ | .wroteSlot _ _ => True

instance pushPastCheckDecidable {Item : Type*} (pc : PushPc Item) :
    Decidable pc.PastCheck :=
  match pc with
  | .hasRoom _ _ | .wroteSlot _ _ => .isTrue trivial
  | .outside | .loadedWrite _ _ => .isFalse id

instance pushUpToDateDecidable {Item : Type*} (writePos : Nat)
    (pc : PushPc Item) : Decidable (pc.UpToDate writePos) :=
  match pc with
  | .loadedWrite _ currentWrite =>
      inferInstanceAs (Decidable (currentWrite = writePos))
  | .outside | .hasRoom _ _ | .wroteSlot _ _ => .isTrue trivial

/-- The thread has checked for an item and has not returned. -/
def PopPc.PastCheck {Item : Type*} : PopPc Item → Prop
  | .hasItem _ | .readSlot _ _ => True
  | .outside | .loadedRead _ => False

def PopPc.UpToDate {Item : Type*} (readPos : Nat) : PopPc Item → Prop
  | .loadedRead currentRead => currentRead = readPos
  | .outside | .hasItem _ | .readSlot _ _ => True

instance popPastCheckDecidable {Item : Type*} (pc : PopPc Item) :
    Decidable pc.PastCheck :=
  match pc with
  | .hasItem _ | .readSlot _ _ => .isTrue trivial
  | .outside | .loadedRead _ => .isFalse id

instance popUpToDateDecidable {Item : Type*} (readPos : Nat)
    (pc : PopPc Item) : Decidable (pc.UpToDate readPos) :=
  match pc with
  | .loadedRead currentRead =>
      inferInstanceAs (Decidable (currentRead = readPos))
  | .outside | .hasItem _ | .readSlot _ _ => .isTrue trivial

section Apart

variable {Producer Consumer Item : Type*}

/-- No push goes past its check with a position that another push has moved, and
none stores the position while another push is past its check. -/
def PushesApart (ring : Ring Producer Consumer Item) :
    RingEvent Producer Consumer Item → Prop
  | .pushRoom producer => (ring.push producer).UpToDate ring.queue.writePos
  | .pushStoreWrite producer _ =>
      ∀ other ≠ producer, ¬(ring.push other).PastCheck
  | _ => True

def PopsApart (ring : Ring Producer Consumer Item) :
    RingEvent Producer Consumer Item → Prop
  | .popAvailable consumer => (ring.pop consumer).UpToDate ring.queue.readPos
  | .popStoreRead consumer _ =>
      ∀ other ≠ consumer, ¬(ring.pop other).PastCheck
  | _ => True

instance pushesApartDecidable [Fintype Producer] [DecidableEq Producer]
    (ring : Ring Producer Consumer Item) :
    ∀ event : RingEvent Producer Consumer Item,
      Decidable (PushesApart ring event)
  | .pushRoom producer => inferInstanceAs
      (Decidable ((ring.push producer).UpToDate ring.queue.writePos))
  | .pushStoreWrite producer _ => inferInstanceAs
      (Decidable (∀ other ≠ producer, ¬(ring.push other).PastCheck))
  | .pushLoadWrite _ _ | .pushFull _ | .pushWriteSlot _ | .popLoadRead _
  | .popEmpty _ | .popAvailable _ | .popReadSlot _ | .popStoreRead _ _ =>
      .isTrue trivial

instance popsApartDecidable [Fintype Consumer] [DecidableEq Consumer]
    (ring : Ring Producer Consumer Item) :
    ∀ event : RingEvent Producer Consumer Item,
      Decidable (PopsApart ring event)
  | .popAvailable consumer => inferInstanceAs
      (Decidable ((ring.pop consumer).UpToDate ring.queue.readPos))
  | .popStoreRead consumer _ => inferInstanceAs
      (Decidable (∀ other ≠ consumer, ¬(ring.pop other).PastCheck))
  | .pushLoadWrite _ _ | .pushFull _ | .pushRoom _ | .pushWriteSlot _
  | .pushStoreWrite _ _ | .popLoadRead _ | .popEmpty _ | .popReadSlot _ =>
      .isTrue trivial

end Apart

section Threads

variable {Thread Item : Type*}

/-- What the producers past their check hold after `sent` accepted and `taken`
popped items.  A written slot holds the producer's item, unless another producer
wrote it too. -/
structure Pushing (size sent taken : Nat) (buffer : Nat → Item)
    (push : Thread → PushPc Item) : Prop where
  room : ∀ thread item pos, push thread = .hasRoom item pos →
    pos = sent % size ∧ sent + 1 < taken + size
  wrote : ∀ thread item pos, push thread = .wroteSlot item pos →
    pos = sent % size ∧ sent + 1 < taken + size ∧
      (buffer pos = item ∨
        ∃ other ≠ thread, (push other).PastCheck)

/-- What the consumers past their check hold. -/
structure Popping (size : Nat) (sent : List Item) (taken : Nat)
    (pop : Thread → PopPc Item) : Prop where
  available : ∀ thread pos, pop thread = .hasItem pos →
    pos = taken % size ∧ taken < sent.length
  read : ∀ thread pos item, pop thread = .readSlot pos item →
    pos = taken % size ∧ sent[taken]? = some item

theorem Pushing.release {size sent taken : Nat} {buffer : Nat → Item}
    {push : Thread → PushPc Item}
    (pushing : Pushing size sent taken buffer push) :
    Pushing size sent (taken + 1) buffer push := by
  obtain ⟨room, wrote⟩ := pushing
  constructor <;> grind

theorem Popping.send {size taken : Nat} {sent : List Item}
    {pop : Thread → PopPc Item} (popping : Popping size sent taken pop)
    (item : Item) : Popping size (sent ++ [item]) taken pop := by
  obtain ⟨available, read⟩ := popping
  constructor <;> grind

variable [DecidableEq Thread]

namespace Pushing

variable {size sent taken : Nat} {buffer : Nat → Item}
  {push : Thread → PushPc Item} {thread : Thread} {item : Item} {pos : Nat}

/-- A producer that is not past its check takes a step other than to write its
slot. -/
theorem move (pushing : Pushing size sent taken buffer push)
    (before : ¬(push thread).PastCheck) {pc : PushPc Item}
    (room : ∀ item pos, pc = .hasRoom item pos →
      pos = sent % size ∧ sent + 1 < taken + size)
    (unwritten : ∀ item pos, pc ≠ .wroteSlot item pos) :
    Pushing size sent taken buffer (Function.update push thread pc) where
  room other item pos holds := by
    by_cases same : other = thread
    · subst same
      rw [Function.update_self] at holds
      exact room item pos holds
    · rw [Function.update_of_ne same] at holds
      exact pushing.room other item pos holds
  wrote other item pos holds := by
    by_cases same : other = thread
    · subst same
      rw [Function.update_self] at holds
      exact (unwritten item pos holds).elim
    · rw [Function.update_of_ne same] at holds
      obtain ⟨current, free, slot⟩ := pushing.wrote other item pos holds
      refine ⟨current, free, slot.imp_right ?_⟩
      rintro ⟨third, differ, checked⟩
      have notThread : third ≠ thread := by
        rintro rfl
        exact before checked
      exact ⟨third, differ, by rwa [Function.update_of_ne notThread]⟩

theorem unchecked (pushing : Pushing size sent taken buffer push)
    (before : ¬(push thread).PastCheck) {pc : PushPc Item}
    (after : ¬pc.PastCheck) :
    Pushing size sent taken buffer (Function.update push thread pc) := by
  apply pushing.move before
  · rintro item pos rfl
    exact (after trivial).elim
  · rintro item pos rfl
    exact after trivial

theorem hasRoom (pushing : Pushing size sent taken buffer push)
    (before : ¬(push thread).PastCheck) (free : sent + 1 < taken + size)
    (item : Item) :
    Pushing size sent taken buffer
      (Function.update push thread (.hasRoom item (sent % size))) := by
  apply pushing.move before
  · rintro _ _ ⟨⟩
    exact ⟨rfl, free⟩
  · rintro _ _ ⟨⟩

theorem writeSlot (pushing : Pushing size sent taken buffer push)
    (pc : push thread = .hasRoom item pos) :
    Pushing size sent taken (Function.update buffer pos item)
      (Function.update push thread (.wroteSlot item pos)) where
  room other otherItem otherPos holds := by
    have differ : other ≠ thread := by grind [Function.update_apply]
    rw [Function.update_of_ne differ] at holds
    exact pushing.room other otherItem otherPos holds
  wrote other otherItem otherPos holds := by
    by_cases same : other = thread
    · subst same
      rw [Function.update_self] at holds
      cases holds
      obtain ⟨current, free⟩ := pushing.room other item pos pc
      exact ⟨current, free, .inl (Function.update_self _ _ _)⟩
    · rw [Function.update_of_ne same] at holds
      obtain ⟨current, free, -⟩ := pushing.wrote other otherItem otherPos holds
      refine ⟨current, free, .inr ⟨thread, Ne.symm same, ?_⟩⟩
      rw [Function.update_self]
      trivial

theorem storeWrite (alone : ∀ other ≠ thread, ¬(push other).PastCheck) :
    Pushing size (sent + 1) taken buffer
      (Function.update push thread .outside) := by
  constructor <;> grind [Function.update_apply, PushPc.PastCheck]

end Pushing

namespace Popping

variable {size taken : Nat} {sent : List Item} {pop : Thread → PopPc Item}
  {thread : Thread} {pos : Nat}

theorem unchecked (popping : Popping size sent taken pop) (thread : Thread)
    {pc : PopPc Item} (after : ¬pc.PastCheck) :
    Popping size sent taken (Function.update pop thread pc) := by
  obtain ⟨available, read⟩ := popping
  constructor <;> grind [Function.update_apply, PopPc.PastCheck]

theorem hasItem (popping : Popping size sent taken pop) (thread : Thread)
    (waiting : taken < sent.length) :
    Popping size sent taken
      (Function.update pop thread (.hasItem (taken % size))) := by
  obtain ⟨available, read⟩ := popping
  constructor <;> grind [Function.update_apply]

theorem readSlot (popping : Popping size sent taken pop)
    (pc : pop thread = .hasItem pos) {item : Item}
    (first : sent[taken]? = some item) :
    Popping size sent taken
      (Function.update pop thread (.readSlot pos item)) := by
  obtain ⟨available, read⟩ := popping
  constructor <;> grind [Function.update_apply]

theorem storeRead (alone : ∀ other ≠ thread, ¬(pop other).PastCheck) :
    Popping size sent (taken + 1) (Function.update pop thread .outside) := by
  constructor <;> grind [Function.update_apply, PopPc.PastCheck]

end Popping

end Threads

section Invariant

variable {Producer Consumer Item : Type*} {size : RingSize}

/-- The ring after the items of `sent` were accepted and those of `taken` were
popped. -/
structure Fifo (size : RingSize) (sent taken : List Item)
    (ring : Ring Producer Consumer Item) : Prop where
  writePos : ring.queue.writePos = sent.length % size.val
  readPos : ring.queue.readPos = taken.length % size.val
  isPrefix : taken <+: sent
  bounded : sent.length < taken.length + size.val
  holds : Holds size.val ring.queue.buffer sent taken.length
  pushing : Pushing size.val sent.length taken.length ring.queue.buffer
    ring.push
  popping : Popping size.val sent taken.length ring.pop

namespace Fifo

variable {sent taken : List Item} {ring : Ring Producer Consumer Item}

theorem new (size : RingSize) (buffer : Nat → Item) :
    Fifo size [] [] (Ring.new buffer : Ring Producer Consumer Item) where
  writePos := rfl
  readPos := rfl
  isPrefix := List.prefix_refl []
  bounded := by
    have := size.powerOfTwo.1
    simp only [List.length_nil]
    omega
  holds := Holds.empty size.val buffer
  pushing := ⟨fun _ _ _ => nofun, fun _ _ _ => nofun⟩
  popping := ⟨fun _ _ => nofun, fun _ _ _ => nofun⟩

/-- The check for room compares the numbers of items. -/
theorem nextPos_eq_readPos_iff (fifo : Fifo size sent taken ring) :
    nextPos size ring.queue.writePos = ring.queue.readPos ↔
      sent.length + 1 = taken.length + size.val := by
  have bound := fifo.bounded
  have released := fifo.isPrefix.length_le
  rw [fifo.writePos, fifo.readPos, nextPos_mod]
  constructor
  · intro sameSlot
    by_contra room
    have below : sent.length + 1 < taken.length + size.val := by omega
    have same := eq_of_slot_eq (Nat.le_succ_of_le released) below
      (Nat.le_refl _) (by omega) sameSlot
    omega
  · intro full
    rw [full, Nat.add_mod_right]

/-- The check for an item compares the numbers of items. -/
theorem readPos_eq_writePos_iff (fifo : Fifo size sent taken ring) :
    ring.queue.readPos = ring.queue.writePos ↔ taken = sent := by
  have bound := fifo.bounded
  have released := fifo.isPrefix.length_le
  rw [fifo.writePos, fifo.readPos]
  constructor
  · intro sameSlot
    have same := eq_of_slot_eq (Nat.le_refl _) (by omega) released bound
      sameSlot
    exact fifo.isPrefix.eq_of_length same
  · rintro rfl
    rfl

/-- The positions tell the number of items in the ring. -/
theorem size_eq (fifo : Fifo size sent taken ring) :
    ring.queue.size size = sent.length - taken.length := by
  rw [SPSCQueue.size, fifo.writePos, fifo.readPos]
  exact loadedSize_mod fifo.isPrefix.length_le fifo.bounded

/-- The ring holds what was accepted and not yet popped. -/
theorem contents_eq (fifo : Fifo size sent taken ring) :
    ring.queue.contents size = sent.drop taken.length := by
  apply List.ext_getElem?
  intro offset
  rw [contents, fifo.size_eq, List.getElem?_map, List.getElem?_drop]
  by_cases inside : offset < sent.length - taken.length
  · have atPosition :=
      List.getElem?_eq_getElem (l := sent) (i := taken.length + offset)
        (by omega)
    rw [List.getElem?_range inside, Option.map_some, fifo.readPos,
      Nat.mod_add_mod, atPosition]
    exact congrArg some (fifo.holds _ _ (Nat.le_add_right _ _) atPosition)
  · rw [List.getElem?_eq_none (by simpa using inside), Option.map_none,
      List.getElem?_eq_none (by omega)]

/-- The slots that are about to be accessed lie in the buffer. -/
theorem slots_in_range (fifo : Fifo size sent taken ring) :
    (∀ producer item pos, ring.push producer = .hasRoom item pos →
      pos < size.val) ∧
    (∀ consumer pos, ring.pop consumer = .hasItem pos → pos < size.val) := by
  have positive : 0 < size.val := by
    have := size.powerOfTwo.1
    omega
  constructor
  · intro producer item pos pc
    rw [(fifo.pushing.room producer item pos pc).1]
    exact Nat.mod_lt _ positive
  · intro consumer pos pc
    rw [(fifo.popping.available consumer pos pc).1]
    exact Nat.mod_lt _ positive

/-- No producer is about to write the slot that a consumer is about to read. -/
theorem slots_ne (fifo : Fifo size sent taken ring) {producer : Producer}
    {consumer : Consumer} {item : Item} {written read : Nat}
    (writes : ring.push producer = .hasRoom item written)
    (reads : ring.pop consumer = .hasItem read) : written ≠ read := by
  obtain ⟨atWrite, free⟩ := fifo.pushing.room producer item written writes
  obtain ⟨atRead, waiting⟩ := fifo.popping.available consumer read reads
  rw [atWrite, atRead]
  intro sameSlot
  have same := eq_of_slot_eq (Nat.le_of_lt waiting) (by omega) (Nat.le_refl _)
    (by omega) sameSlot
  omega

variable [DecidableEq Producer] [DecidableEq Consumer]

/-- Every step that keeps the pushes and the pops apart keeps the invariant; the
items are accepted and popped with the stores. -/
theorem step {history : List (RingEvent Producer Consumer Item)}
    {event : RingEvent Producer Consumer Item}
    {target : Ring Producer Consumer Item}
    (fifo : Fifo size (accepted history) (popped history) ring)
    (pushesApart : PushesApart ring event) (popsApart : PopsApart ring event)
    (edge : RingStep size ring event target) :
    Fifo size (accepted (event :: history)) (popped (event :: history))
      target := by
  have released := fifo.isPrefix.length_le
  cases edge with
  | @pushLoadWrite producer item pc =>
      have before : ¬(ring.push producer).PastCheck := by rw [pc]; exact id
      exact { fifo with pushing := fifo.pushing.unchecked before id }
  | @pushFull producer item currentWrite pc =>
      have before : ¬(ring.push producer).PastCheck := by rw [pc]; exact id
      exact { fifo with pushing := fifo.pushing.unchecked before id }
  | @pushRoom producer item currentWrite pc room =>
      have current : currentWrite = ring.queue.writePos := by
        rw [PushesApart, pc] at pushesApart
        exact pushesApart
      have before : ¬(ring.push producer).PastCheck := by rw [pc]; exact id
      have free : (accepted history).length + 1 <
          (popped history).length + size.val := by
        rw [current, ne_eq, fifo.nextPos_eq_readPos_iff] at room
        have := fifo.bounded
        omega
      have pushing := fifo.pushing.hasRoom before free item
      rw [← fifo.writePos, ← current] at pushing
      exact { fifo with pushing }
  | @pushWriteSlot producer item currentWrite pc =>
      have current := (fifo.pushing.room producer item currentWrite pc).1
      exact { fifo with
        holds := current ▸ fifo.holds.write fifo.bounded item
        pushing := fifo.pushing.writeSlot pc }
  | @pushStoreWrite producer item currentWrite pc =>
      obtain ⟨current, free, slot⟩ := fifo.pushing.wrote producer _ _ pc
      have inSlot : ring.queue.buffer currentWrite = item := by
        apply slot.resolve_right
        rintro ⟨other, differ, checked⟩
        exact pushesApart other differ checked
      have oneMore :
          (accepted history ++ [item]).length = (accepted history).length + 1 :=
        List.length_append
      exact {
        writePos := by
          rw [accepted, oneMore, ← nextPos_mod, ← current]
          rfl
        readPos := fifo.readPos
        isPrefix := fifo.isPrefix.trans (List.prefix_append _ _)
        bounded := by
          rw [accepted, oneMore]
          exact free
        holds := fifo.holds.send (current ▸ inSlot)
        pushing := by
          rw [accepted, oneMore]
          exact .storeWrite pushesApart
        popping := fifo.popping.send item }
  | popLoadRead pc =>
      exact { fifo with popping := fifo.popping.unchecked _ id }
  | popEmpty pc =>
      exact { fifo with popping := fifo.popping.unchecked _ id }
  | @popAvailable consumer currentRead pc available =>
      have current : currentRead = ring.queue.readPos := by
        rw [PopsApart, pc] at popsApart
        exact popsApart
      have waiting : (popped history).length < (accepted history).length := by
        rw [current, ne_eq, fifo.readPos_eq_writePos_iff] at available
        apply lt_of_le_of_ne released
        intro sameLength
        exact available (fifo.isPrefix.eq_of_length sameLength)
      have popping := fifo.popping.hasItem consumer waiting
      rw [← fifo.readPos, ← current] at popping
      exact { fifo with popping }
  | @popReadSlot consumer currentRead pc =>
      obtain ⟨current, waiting⟩ := fifo.popping.available _ _ pc
      have first := List.getElem?_eq_getElem waiting
      have inSlot := fifo.holds _ _ (Nat.le_refl _) first
      have popping := fifo.popping.readSlot pc first
      rw [← inSlot, ← current] at popping
      exact { fifo with popping }
  | @popStoreRead consumer currentRead item pc =>
      obtain ⟨current, first⟩ := fifo.popping.read _ _ _ pc
      have oneMore :
          (popped history ++ [item]).length = (popped history).length + 1 :=
        List.length_append
      exact {
        writePos := fifo.writePos
        readPos := by
          rw [popped, oneMore, ← nextPos_mod, ← current]
          rfl
        isPrefix := append_prefix_of_getElem? fifo.isPrefix first
        bounded := by
          rw [popped, oneMore]
          have := fifo.bounded
          change (accepted history).length < _
          omega
        holds := by
          rw [popped, oneMore]
          exact fifo.holds.release (Nat.le_succ _)
        pushing := by
          rw [popped, oneMore]
          exact fifo.pushing.release
        popping := by
          rw [popped, oneMore]
          exact .storeRead popsApart }

end Fifo

end Invariant

section Runs

variable {Producer Consumer Item : Type*} [DecidableEq Producer]
  [DecidableEq Consumer] {size : RingSize} {buffer : Nat → Item}
  {history : List (RingEvent Producer Consumer Item)}
  {ring : Ring Producer Consumer Item}

def Apart (ring : Ring Producer Consumer Item)
    (event : RingEvent Producer Consumer Item) : Prop :=
  PushesApart ring event ∧ PopsApart ring event

theorem Fifo.of_run
    (run : Run (Guarded Apart (RingStep size)) (.new buffer) history ring) :
    Fifo size (accepted history) (popped history) ring := by
  apply run.invariant fun history ring =>
    Fifo size (accepted history) (popped history) ring
  · exact .new size buffer
  · intro _ _ _ _ _ fifo edge
    exact fifo.step edge.1.1 edge.1.2 edge.2

/-- The write position is stored while no other thread is in `push`. -/
def PushesAlone (ring : Ring Producer Consumer Item) :
    RingEvent Producer Consumer Item → Prop
  | .pushStoreWrite producer _ =>
      ∀ other ≠ producer, ring.push other = .outside
  | _ => True

/-- The read position is stored while no other thread is in `pop`. -/
def PopsAlone (ring : Ring Producer Consumer Item) :
    RingEvent Producer Consumer Item → Prop
  | .popStoreRead consumer _ => ∀ other ≠ consumer, ring.pop other = .outside
  | _ => True

namespace PushesAlone

/-- Then a loaded write position stays the current one. -/
theorem upToDate
    (run : Run (Guarded PushesAlone (RingStep size)) (.new buffer) history
      ring) :
    ∀ producer, (ring.push producer).UpToDate ring.queue.writePos := by
  apply run.invariant fun _ ring =>
    ∀ producer, (ring.push producer).UpToDate ring.queue.writePos
  · exact fun _ => trivial
  · intro _ source _ _ _ upToDate edge
    obtain ⟨alone, edge⟩ := edge
    cases edge with
    | pushStoreWrite =>
        refine (Function.forall_update_iff _ _).mpr ⟨trivial, ?_⟩
        intro other differ
        change (source.push other).UpToDate _
        rw [alone other differ]
        trivial
    | pushLoadWrite =>
        exact (Function.forall_update_iff _ _).mpr
          ⟨rfl, fun other _ => upToDate other⟩
    | pushFull | pushRoom | pushWriteSlot =>
        exact (Function.forall_update_iff _ _).mpr
          ⟨trivial, fun other _ => upToDate other⟩
    | _ => exact upToDate

theorem apart
    (run : Run (Guarded PushesAlone (RingStep size)) (.new buffer) history
      ring)
    {event : RingEvent Producer Consumer Item}
    (alone : PushesAlone ring event) : PushesApart ring event := by
  cases event with
  | pushRoom producer => exact upToDate run producer
  | pushStoreWrite producer =>
      intro other differ
      rw [alone other differ]
      exact id
  | _ => trivial

end PushesAlone

namespace PopsAlone

theorem upToDate
    (run : Run (Guarded PopsAlone (RingStep size)) (.new buffer) history
      ring) :
    ∀ consumer, (ring.pop consumer).UpToDate ring.queue.readPos := by
  apply run.invariant fun _ ring =>
    ∀ consumer, (ring.pop consumer).UpToDate ring.queue.readPos
  · exact fun _ => trivial
  · intro _ source _ _ _ upToDate edge
    obtain ⟨alone, edge⟩ := edge
    cases edge with
    | popStoreRead =>
        refine (Function.forall_update_iff _ _).mpr ⟨trivial, ?_⟩
        intro other differ
        change (source.pop other).UpToDate _
        rw [alone other differ]
        trivial
    | popLoadRead =>
        exact (Function.forall_update_iff _ _).mpr
          ⟨rfl, fun other _ => upToDate other⟩
    | popEmpty | popAvailable | popReadSlot =>
        exact (Function.forall_update_iff _ _).mpr
          ⟨trivial, fun other _ => upToDate other⟩
    | _ => exact upToDate

theorem apart
    (run : Run (Guarded PopsAlone (RingStep size)) (.new buffer) history ring)
    {event : RingEvent Producer Consumer Item}
    (alone : PopsAlone ring event) : PopsApart ring event := by
  cases event with
  | popAvailable consumer => exact upToDate run consumer
  | popStoreRead consumer =>
      intro other differ
      rw [alone other differ]
      exact id
  | _ => trivial

end PopsAlone

end Runs

section OneOfEach

variable {Item : Type*} {size : RingSize} {buffer : Nat → Item}
  {history : List (RingEvent Unit Unit Item)} {ring : Ring Unit Unit Item}

theorem pushesAlone_of_one {Producer Consumer : Type*}
    [Subsingleton Producer] (ring : Ring Producer Consumer Item)
    (event : RingEvent Producer Consumer Item) : PushesAlone ring event := by
  cases event with
  | pushStoreWrite producer =>
      intro other differ
      exact (differ (Subsingleton.elim other producer)).elim
  | _ => trivial

theorem popsAlone_of_one {Producer Consumer : Type*} [Subsingleton Consumer]
    (ring : Ring Producer Consumer Item)
    (event : RingEvent Producer Consumer Item) : PopsAlone ring event := by
  cases event with
  | popStoreRead consumer =>
      intro other differ
      exact (differ (Subsingleton.elim other consumer)).elim
  | _ => trivial

/-- The steps of one producer and one consumer are apart in every order. -/
theorem apart_of_one_of_each
    (run : Run (RingStep size) (.new buffer) history ring)
    (event : RingEvent Unit Unit Item) : Apart ring event :=
  ⟨PushesAlone.apart
      (run.mono fun edge => ⟨pushesAlone_of_one _ _, edge⟩)
      (pushesAlone_of_one ring event),
    PopsAlone.apart
      (run.mono fun edge => ⟨popsAlone_of_one _ _, edge⟩)
      (popsAlone_of_one ring event)⟩

theorem Fifo.of_one_of_each
    (run : Run (RingStep size) (.new buffer) history ring) :
    Fifo size (accepted history) (popped history) ring :=
  .of_run (run.strengthen fun earlier edge =>
    ⟨apart_of_one_of_each earlier _, edge⟩)

/-- A push finds no room in a full queue only. -/
theorem full_of_pushFull {target : Ring Unit Unit Item}
    (run : Run (RingStep size) (.new buffer) history ring)
    (fails : RingStep size ring (.pushFull ()) target) :
    (accepted history).length = (popped history).length + capacity size := by
  have fifo := Fifo.of_one_of_each run
  have large := size.powerOfTwo.1
  cases fails with
  | @pushFull _ item currentWrite pc full =>
      have current : currentWrite = ring.queue.writePos := by
        have apart := (apart_of_one_of_each run (.pushRoom ())).1
        rwa [PushesApart, pc] at apart
      rw [current, fifo.nextPos_eq_readPos_iff] at full
      unfold capacity
      omega

/-- A pop finds no item in an empty queue only. -/
theorem empty_of_popEmpty {target : Ring Unit Unit Item}
    (run : Run (RingStep size) (.new buffer) history ring)
    (fails : RingStep size ring (.popEmpty ()) target) :
    popped history = accepted history := by
  have fifo := Fifo.of_one_of_each run
  cases fails with
  | @popEmpty _ currentRead pc empty =>
      have current : currentRead = ring.queue.readPos := by
        have apart := (apart_of_one_of_each run (.popAvailable ())).2
        rwa [PopsApart, pc] at apart
      rwa [current, fifo.readPos_eq_writePos_iff] at empty

/-- The queue is a bounded FIFO for one producer and one consumer, whatever the
order of their steps: nothing is lost, repeated or reordered, the two never meet
in a slot, and a call fails only on a full or an empty queue. -/
theorem one_of_each_bounded_fifo
    (run : Run (RingStep size) (.new buffer) history ring) :
    popped history <+: accepted history ∧
      (accepted history).length ≤ (popped history).length + capacity size ∧
      (∀ item written read, ring.push () = .hasRoom item written →
        ring.pop () = .hasItem read → written ≠ read) ∧
      (∀ target, RingStep size ring (.pushFull ()) target →
        (accepted history).length =
          (popped history).length + capacity size) ∧
      ∀ target, RingStep size ring (.popEmpty ()) target →
        popped history = accepted history := by
  have fifo := Fifo.of_one_of_each run
  have large := size.powerOfTwo.1
  refine ⟨fifo.isPrefix, ?_, fun _ _ _ => fifo.slots_ne,
    fun _ => full_of_pushFull run, fun _ => empty_of_popEmpty run⟩
  have := fifo.bounded
  unfold capacity
  omega

def twoSlots : RingSize := ⟨2, by decide⟩

/-- With two slots, the second push loads the read position before the pop of
the first item stores it. -/
def fullWhilePopping : List (RingEvent Unit Unit Nat) :=
  [.popStoreRead () 7, .pushFull (), .popReadSlot (), .popAvailable (),
    .popLoadRead (), .pushLoadWrite () 8, .pushStoreWrite () 7,
    .pushWriteSlot (), .pushRoom (), .pushLoadWrite () 7]

theorem one_of_each_bounded_fifo_two :
    ∃ ring, Run (RingStep twoSlots) (.new fun _ => 0) fullWhilePopping ring ∧
      popped fullWhilePopping <+: accepted fullWhilePopping := by
  have replays : (Run.replay (Ring.next? twoSlots) (.new fun _ => 0)
      fullWhilePopping).isSome := by decide
  obtain ⟨ring, replayed⟩ := Option.isSome_iff_exists.mp replays
  have run := Run.of_replay RingStep.of_next? replayed
  exact ⟨ring, run, (one_of_each_bounded_fifo run).1⟩

end OneOfEach

end TradingMatcher

import TradingMatcher.BoundedFifo

/-!
# Checks by the two threads of the queue

`empty` and `full` compare two positions that they load one after the other, and
the other thread goes on in between.  The producer and the consumer do not move
their own position meanwhile: to them the answer is what held at one of the two
loads, and an answer that promises room or an item stays true until they use it.
-/

namespace TradingMatcher

open SPSCQueue

namespace SPSCQueue

/-- What `empty` returns from the positions that it loaded, in whatever order. -/
def isEmpty (read write : Nat) : Bool := read = write

/-- What `full` returns from the positions that it loaded. -/
def isFull (size : RingSize) (write read : Nat) : Bool :=
  nextPos size write = read

end SPSCQueue

section Calls

variable {Producer Consumer Item : Type*}

/-- The store with which a push moves the write position. -/
def RingEvent.MovesWrite : RingEvent Producer Consumer Item → Prop
  | .pushStoreWrite _ _ => True
  | _ => False

/-- The store with which a pop moves the read position. -/
def RingEvent.MovesRead : RingEvent Producer Consumer Item → Prop
  | .popStoreRead _ _ => True
  | _ => False

variable {later earlier : List (RingEvent Producer Consumer Item)}

theorem accepted_isPrefix :
    accepted earlier <+: accepted (later ++ earlier) := by
  induction later with
  | nil => exact List.prefix_refl _
  | cons event later ih =>
      cases event with
      | pushStoreWrite => exact ih.trans (List.prefix_append _ _)
      | _ => exact ih

theorem popped_isPrefix : popped earlier <+: popped (later ++ earlier) := by
  induction later with
  | nil => exact List.prefix_refl _
  | cons event later ih =>
      cases event with
      | popStoreRead => exact ih.trans (List.prefix_append _ _)
      | _ => exact ih

theorem accepted_append_of_still (still : ∀ event ∈ later, ¬event.MovesWrite) :
    accepted (later ++ earlier) = accepted earlier := by
  induction later with
  | nil => rfl
  | cons event later ih =>
      obtain ⟨now, before⟩ := List.forall_mem_cons.mp still
      cases event with
      | pushStoreWrite => exact (now trivial).elim
      | _ => exact ih before

theorem popped_append_of_still (still : ∀ event ∈ later, ¬event.MovesRead) :
    popped (later ++ earlier) = popped earlier := by
  induction later with
  | nil => rfl
  | cons event later ih =>
      obtain ⟨now, before⟩ := List.forall_mem_cons.mp still
      cases event with
      | popStoreRead => exact (now trivial).elim
      | _ => exact ih before

end Calls

section OneOfEach

variable {Item : Type*} {size : RingSize} {buffer : Nat → Item}
  {earlier between later : List (RingEvent Unit Unit Item)}
  {first second third : Ring Unit Unit Item}

/-- The queue is empty after the steps. -/
def EmptyAfter (history : List (RingEvent Unit Unit Item)) : Prop :=
  popped history = accepted history

/-- The queue is full after the steps. -/
def FullAfter (size : RingSize) (history : List (RingEvent Unit Unit Item)) :
    Prop :=
  (accepted history).length = (popped history).length + capacity size

theorem isEmpty_iff (run : Run (RingStep size) (.new buffer) earlier first) :
    isEmpty first.queue.readPos first.queue.writePos = true ↔
      EmptyAfter earlier := by
  rw [isEmpty, decide_eq_true_iff]
  exact (Fifo.of_one_of_each run).readPos_eq_writePos_iff

theorem isFull_iff (run : Run (RingStep size) (.new buffer) earlier first) :
    isFull size first.queue.writePos first.queue.readPos = true ↔
      FullAfter size earlier := by
  have large := size.powerOfTwo.1
  rw [isFull, decide_eq_true_iff,
    (Fifo.of_one_of_each run).nextPos_eq_readPos_iff, FullAfter, capacity]
  omega

/-- The write position stands still as long as the producer stores nothing. -/
theorem writePos_eq_of_still
    (run : Run (RingStep size) (.new buffer) earlier first)
    (continued : Run (RingStep size) first between second)
    (still : ∀ event ∈ between, ¬event.MovesWrite) :
    second.queue.writePos = first.queue.writePos := by
  rw [(Fifo.of_one_of_each run).writePos,
    (Fifo.of_one_of_each (run.trans continued)).writePos,
    accepted_append_of_still still]

theorem readPos_eq_of_still
    (run : Run (RingStep size) (.new buffer) earlier first)
    (continued : Run (RingStep size) first between second)
    (still : ∀ event ∈ between, ¬event.MovesRead) :
    second.queue.readPos = first.queue.readPos := by
  rw [(Fifo.of_one_of_each run).readPos,
    (Fifo.of_one_of_each (run.trans continued)).readPos,
    popped_append_of_still still]

/-- An answer that is right at the first or at the second of two loads. -/
def RightAtLoad (earlier between : List (RingEvent Unit Unit Item))
    (answer : Bool) (holds : List (RingEvent Unit Unit Item) → Prop) : Prop :=
  (answer = true ↔ holds earlier) ∨ (answer = true ↔ holds (between ++ earlier))

/-- A check by the producer or the consumer: while one of the positions stands
still, `empty` and `full` return what is true at one of their two loads,
whichever operand `empty` loads first. -/
theorem checks_by_owner
    (run : Run (RingStep size) (.new buffer) earlier first)
    (continued : Run (RingStep size) first between second)
    (owner : (∀ event ∈ between, ¬event.MovesWrite) ∨
      ∀ event ∈ between, ¬event.MovesRead) :
    RightAtLoad earlier between
        (isEmpty first.queue.readPos second.queue.writePos) EmptyAfter ∧
      RightAtLoad earlier between
        (isEmpty second.queue.readPos first.queue.writePos) EmptyAfter ∧
      RightAtLoad earlier between
        (isFull size first.queue.writePos second.queue.readPos)
        (FullAfter size) := by
  have whole := run.trans continued
  rcases owner with still | still
  · have same := writePos_eq_of_still run continued still
    refine ⟨.inl ?_, .inr ?_, .inr ?_⟩
    · rw [same]
      exact isEmpty_iff run
    · rw [← same]
      exact isEmpty_iff whole
    · rw [← same]
      exact isFull_iff whole
  · have same := readPos_eq_of_still run continued still
    refine ⟨.inr ?_, .inl ?_, .inl ?_⟩
    · rw [← same]
      exact isEmpty_iff whole
    · rw [same]
      exact isEmpty_iff run
    · rw [same]
      exact isFull_iff run

/-- With two slots, one item is pushed. -/
def onePush : List (RingEvent Unit Unit Nat) :=
  [.pushStoreWrite () 7, .pushWriteSlot (), .pushRoom (), .pushLoadWrite () 7]

/-- The item is popped while the producer calls `full`. -/
def popBetween : List (RingEvent Unit Unit Nat) :=
  [.popStoreRead () 7, .popReadSlot (), .popAvailable (), .popLoadRead ()]

/-- The two runs, and what the producer gets from `full`. -/
theorem exists_popBetween :
    ∃ first second : Ring Unit Unit Nat,
      Run (RingStep twoSlots) (.new fun _ => 0) onePush first ∧
        Run (RingStep twoSlots) first popBetween second ∧
        isFull twoSlots first.queue.writePos second.queue.readPos = false ∧
        second.push () = .outside := by
  have replays : ((Run.replay (Ring.next? twoSlots) (.new fun _ => 0)
      onePush).any fun first =>
        (Run.replay (Ring.next? twoSlots) first popBetween).any fun second =>
          !isFull twoSlots first.queue.writePos second.queue.readPos &&
            decide (second.push () = .outside)) = true := by decide
  obtain ⟨first, reached, replays⟩ := (Option.any_eq_true _ _).mp replays
  obtain ⟨second, continued, checks⟩ := (Option.any_eq_true _ _).mp replays
  simp only [Bool.and_eq_true, Bool.not_eq_true', decide_eq_true_eq] at checks
  exact ⟨first, second, Run.of_replay RingStep.of_next? reached,
    Run.of_replay RingStep.of_next? continued, checks.1, checks.2⟩

theorem checks_by_owner_popBetween :
    ∃ first second : Ring Unit Unit Nat,
      Run (RingStep twoSlots) (.new fun _ => 0) onePush first ∧
        Run (RingStep twoSlots) first popBetween second ∧
        RightAtLoad onePush popBetween
          (isFull twoSlots first.queue.writePos second.queue.readPos)
          (FullAfter twoSlots) := by
  obtain ⟨first, second, run, continued, -⟩ := exists_popBetween
  exact ⟨first, second, run, continued,
    (checks_by_owner run continued
      (.inl (by simp [popBetween, RingEvent.MovesWrite]))).2.2⟩

/-- Room does not vanish as long as nothing is pushed. -/
theorem not_fullAfter_append
    (run : Run (RingStep size) (.new buffer) earlier first)
    (still : ∀ event ∈ later, ¬event.MovesWrite)
    (room : ¬FullAfter size earlier) : ¬FullAfter size (later ++ earlier) := by
  have bounded := (Fifo.of_one_of_each run).bounded
  have released : (popped earlier).length ≤ (popped (later ++ earlier)).length :=
    popped_isPrefix.length_le
  have large := size.powerOfTwo.1
  unfold FullAfter capacity at *
  rw [accepted_append_of_still still]
  omega

/-- Items do not vanish as long as nothing is popped. -/
theorem not_emptyAfter_append
    (run : Run (RingStep size) (.new buffer) earlier first)
    (still : ∀ event ∈ later, ¬event.MovesRead)
    (item : ¬EmptyAfter earlier) : ¬EmptyAfter (later ++ earlier) := by
  have fifo := Fifo.of_one_of_each run
  intro empty
  rw [EmptyAfter, popped_append_of_still still] at empty
  apply item
  apply fifo.isPrefix.eq_of_length_le
  rw [empty]
  exact accepted_isPrefix.length_le

/-- What a check tells its caller stays true until the caller acts on it: after
the producer has seen a queue that is not full, its next push finds room, and
after the consumer has seen a queue that is not empty, its next pop finds an
item, whatever the other thread does. -/
theorem checks_hold_until_used
    (run : Run (RingStep size) (.new buffer) earlier first)
    (continued : Run (RingStep size) first between second)
    (calls : Run (RingStep size) second later third) :
    ((∀ event ∈ later ++ between, ¬event.MovesWrite) →
      isFull size first.queue.writePos second.queue.readPos = false →
        ∀ target, ¬RingStep size third (.pushFull ()) target) ∧
      ((∀ event ∈ later ++ between, ¬event.MovesRead) →
        isEmpty first.queue.readPos second.queue.writePos = false ∨
          isEmpty second.queue.readPos first.queue.writePos = false →
        ∀ target, ¬RingStep size third (.popEmpty ()) target) := by
  have checked := run.trans continued
  have whole := checked.trans calls
  constructor
  · intro still room target fails
    obtain ⟨stillLater, stillBetween⟩ := List.forall_mem_append.mp still
    have notFull : ¬FullAfter size (between ++ earlier) := by
      rw [← isFull_iff checked,
        writePos_eq_of_still run continued stillBetween, room]
      exact Bool.false_ne_true
    exact not_fullAfter_append checked stillLater notFull
      (full_of_pushFull whole fails)
  · intro still item target fails
    obtain ⟨stillLater, stillBetween⟩ := List.forall_mem_append.mp still
    have same := readPos_eq_of_still run continued stillBetween
    have notEmpty : ¬EmptyAfter (between ++ earlier) := by
      rcases item with readFirst | writeFirst
      · rw [← isEmpty_iff checked, same, readFirst]
        exact Bool.false_ne_true
      · apply not_emptyAfter_append run stillBetween
        rw [← isEmpty_iff run, ← same, writeFirst]
        exact Bool.false_ne_true
    exact not_emptyAfter_append checked stillLater notEmpty
      (empty_of_popEmpty whole fails)

theorem checks_hold_until_used_popBetween :
    ∃ first second third : Ring Unit Unit Nat,
      Run (RingStep twoSlots) (.new fun _ => 0) onePush first ∧
        Run (RingStep twoSlots) first popBetween second ∧
        Run (RingStep twoSlots) second [.pushLoadWrite () 8] third ∧
        ∀ target, ¬RingStep twoSlots third (.pushFull ()) target := by
  obtain ⟨first, second, run, continued, room, outside⟩ := exists_popBetween
  have calls : Run (RingStep twoSlots) second [.pushLoadWrite () 8] _ :=
    Run.start.next (.pushLoadWrite outside)
  exact ⟨first, second, _, run, continued, calls,
    (checks_hold_until_used run continued calls).1
      (by simp [popBetween, RingEvent.MovesWrite]) room⟩

end OneOfEach

end TradingMatcher

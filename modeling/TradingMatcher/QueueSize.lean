import TradingMatcher.BoundedFifo

/-!
# The monitored queue size

`size` loads the write position and then the read position, and the producer and
the consumer may take any number of steps between the two loads.  Any number of
readers call it; a reader that is the producer or the consumer itself takes none
of its other steps meanwhile.
-/

namespace TradingMatcher

open SPSCQueue

/-- Where a thread is in `size`, with the write position it has loaded. -/
inductive SizePc
  | outside
  | loadedWrite (write : Nat)
  deriving DecidableEq

/-- A queue of one producer and one consumer with the threads that call
`size`. -/
structure MonitoredRing (Reader Item : Type*) where
  ring : Ring Unit Unit Item
  sizing : Reader → SizePc

/-- `sizeLoadRead` is the load after which the call returns the value. -/
inductive MonitorEvent (Reader Item : Type*)
  | ring (event : RingEvent Unit Unit Item)
  | sizeLoadWrite (reader : Reader)
  | sizeLoadRead (reader : Reader) (value : Nat)
  deriving DecidableEq

namespace MonitoredRing

variable {Reader Item : Type*}

def new (buffer : Nat → Item) : MonitoredRing Reader Item where
  ring := .new buffer
  sizing _ := .outside

variable [DecidableEq Reader]

def setSizing (monitored : MonitoredRing Reader Item) (reader : Reader)
    (pc : SizePc) : MonitoredRing Reader Item :=
  { monitored with sizing := Function.update monitored.sizing reader pc }

@[simp]
theorem setSizing_sizing (monitored : MonitoredRing Reader Item)
    (reader other : Reader) (pc : SizePc) :
    (monitored.setSizing reader pc).sizing other =
      if other = reader then pc else monitored.sizing other :=
  Function.update_apply ..

end MonitoredRing

section Steps

variable {Reader Item : Type*} [DecidableEq Reader]

/-- One atomic step of the producer, of the consumer or of a call of `size`. -/
inductive MonitorStep (size : RingSize) : MonitoredRing Reader Item →
    MonitorEvent Reader Item → MonitoredRing Reader Item → Prop
  | ring {monitored : MonitoredRing Reader Item} {target : Ring Unit Unit Item}
      {event : RingEvent Unit Unit Item}
      (edge : RingStep size monitored.ring event target) :
      MonitorStep size monitored (.ring event) { monitored with ring := target }
  | sizeLoadWrite {monitored : MonitoredRing Reader Item} {reader : Reader}
      (pc : monitored.sizing reader = .outside) :
      MonitorStep size monitored (.sizeLoadWrite reader)
        (monitored.setSizing reader
          (.loadedWrite monitored.ring.queue.writePos))
  | sizeLoadRead {monitored : MonitoredRing Reader Item} {reader : Reader}
      {write : Nat} (pc : monitored.sizing reader = .loadedWrite write) :
      MonitorStep size monitored
        (.sizeLoadRead reader
          (loadedSize size write monitored.ring.queue.readPos))
        (monitored.setSizing reader .outside)

/-- The atomic step that an event names, if it can be taken. -/
def MonitoredRing.next? [DecidableEq Item] (size : RingSize)
    (monitored : MonitoredRing Reader Item) :
    MonitorEvent Reader Item → Option (MonitoredRing Reader Item)
  | .ring event =>
      (monitored.ring.next? size event).map fun target =>
        { monitored with ring := target }
  | .sizeLoadWrite reader =>
      match monitored.sizing reader with
      | .outside => some (monitored.setSizing reader
          (.loadedWrite monitored.ring.queue.writePos))
      | .loadedWrite _ => none
  | .sizeLoadRead reader value =>
      match monitored.sizing reader with
      | .outside => none
      | .loadedWrite write =>
          if loadedSize size write monitored.ring.queue.readPos = value then
            some (monitored.setSizing reader .outside)
          else none

theorem MonitorStep.of_next? [DecidableEq Item] {size : RingSize}
    {source target : MonitoredRing Reader Item}
    {event : MonitorEvent Reader Item}
    (taken : source.next? size event = some target) :
    MonitorStep size source event target := by
  cases event with
  | ring event =>
      obtain ⟨moved, edge, rfl⟩ := Option.map_eq_some_iff.mp taken
      exact .ring (.of_next? edge)
  | sizeLoadWrite reader =>
      simp only [MonitoredRing.next?] at taken
      split at taken
      next pc =>
        obtain rfl := Option.some.inj taken
        exact .sizeLoadWrite pc
      next => cases taken
  | sizeLoadRead reader value =>
      simp only [MonitoredRing.next?] at taken
      split at taken
      next => cases taken
      next pc =>
        split at taken
        next returned =>
          obtain rfl := Option.some.inj taken
          exact returned ▸ .sizeLoadRead pc
        next => cases taken

end Steps

section Calls

variable {Reader Item : Type*}

namespace MonitorEvent

def ring? : MonitorEvent Reader Item → Option (RingEvent Unit Unit Item)
  | .ring event => some event
  | .sizeLoadWrite _ | .sizeLoadRead _ _ => none

/-- The store with which `push` returns true. -/
def pushes : MonitorEvent Reader Item → Bool
  | .ring (.pushStoreWrite _ _) => true
  | _ => false

/-- The store with which `pop` returns true. -/
def pops : MonitorEvent Reader Item → Bool
  | .ring (.popStoreRead _ _) => true
  | _ => false

/-- The first load of a call of `size` by the reader. -/
def starts [DecidableEq Reader] (reader : Reader) :
    MonitorEvent Reader Item → Bool
  | .sizeLoadWrite caller => caller = reader
  | .ring _ | .sizeLoadRead _ _ => false

end MonitorEvent

/-- The steps of the producer and of the consumer. -/
def ringHistory (history : List (MonitorEvent Reader Item)) :
    List (RingEvent Unit Unit Item) :=
  history.filterMap MonitorEvent.ring?

def sentCount (history : List (MonitorEvent Reader Item)) : Nat :=
  (accepted (ringHistory history)).length

def takenCount (history : List (MonitorEvent Reader Item)) : Nat :=
  (popped (ringHistory history)).length

/-- The number of items in the ring. -/
def itemsHeld (history : List (MonitorEvent Reader Item)) : Nat :=
  sentCount history - takenCount history

theorem sentCount_cons (event : MonitorEvent Reader Item)
    (earlier : List (MonitorEvent Reader Item)) :
    sentCount (event :: earlier) =
      sentCount earlier + event.pushes.toNat := by
  cases event with
  | ring event =>
      cases event with
      | pushStoreWrite => simp [sentCount, ringHistory, MonitorEvent.ring?,
          accepted, MonitorEvent.pushes]
      | _ => rfl
  | _ => rfl

theorem takenCount_cons (event : MonitorEvent Reader Item)
    (earlier : List (MonitorEvent Reader Item)) :
    takenCount (event :: earlier) =
      takenCount earlier + event.pops.toNat := by
  cases event with
  | ring event =>
      cases event with
      | popStoreRead => simp [takenCount, ringHistory, MonitorEvent.ring?,
          popped, MonitorEvent.pops]
      | _ => rfl
  | _ => rfl

theorem MonitorEvent.pushes_of_pops {event : MonitorEvent Reader Item}
    (pops : event.pops) : event.pushes = false := by
  cases event with
  | ring event =>
      cases event with
      | pushStoreWrite => cases pops
      | _ => rfl
  | _ => rfl

/-- No pop has been completed after a push. -/
def NoPopAfterPush (steps : List (MonitorEvent Reader Item)) : Prop :=
  steps.Pairwise fun later earlier => ¬(later.pops ∧ earlier.pushes)

instance noPopAfterPushDecidable (steps : List (MonitorEvent Reader Item)) :
    Decidable (NoPopAfterPush steps) :=
  inferInstanceAs (Decidable (steps.Pairwise _))

/-- Where a pop follows a push, the push is not the latest step. -/
theorem countP_pushes_pos {event : MonitorEvent Reader Item}
    {steps : List (MonitorEvent Reader Item)}
    (outOfOrder : ¬NoPopAfterPush (event :: steps)) :
    0 < steps.countP MonitorEvent.pushes := by
  by_contra unpushed
  have none : ∀ step ∈ steps, ¬step.pushes := fun step mem pushes =>
    unpushed (List.countP_pos_iff.mpr ⟨step, mem, pushes⟩)
  apply outOfOrder
  apply List.pairwise_cons.mpr
  constructor
  · intro step mem both
    exact none step mem both.2
  · apply List.pairwise_of_forall_mem_list
    intro _ _ step mem both
    exact none step mem both.2

/-- At no moment have more items been popped than accepted. -/
def Released (history : List (MonitorEvent Reader Item)) : Prop :=
  ∀ moment, moment <:+ history → takenCount moment ≤ sentCount moment

namespace Released

variable {event : MonitorEvent Reader Item}
  {earlier history : List (MonitorEvent Reader Item)}

theorem tail (released : Released (event :: earlier)) : Released earlier :=
  fun moment isSuffix => released moment (isSuffix.trans (List.suffix_cons _ _))

theorem now (released : Released history) :
    takenCount history ≤ sentCount history :=
  released history (List.suffix_refl _)

end Released

variable [DecidableEq Reader]

/-- The steps since the latest call of `size` by the reader started. -/
def callSteps (reader : Reader) :
    List (MonitorEvent Reader Item) → List (MonitorEvent Reader Item)
  | [] => []
  | event :: earlier =>
      if event.starts reader then [] else event :: callSteps reader earlier

/-- The numbers of items in the ring at the moments since then. -/
def heldDuring (reader : Reader) : List (MonitorEvent Reader Item) → List Nat
  | [] => [0]
  | event :: earlier =>
      itemsHeld (event :: earlier) ::
        if event.starts reader then [] else heldDuring reader earlier

/-- The number of items that had been accepted then. -/
def sentAtLoad (reader : Reader) : List (MonitorEvent Reader Item) → Nat
  | [] => 0
  | event :: earlier =>
      if event.starts reader then sentCount earlier
      else sentAtLoad reader earlier

theorem MonitorEvent.pushes_of_starts {reader : Reader}
    {event : MonitorEvent Reader Item} (starts : event.starts reader) :
    event.pushes = false := by
  cases event with
  | ring => cases starts
  | _ => rfl

/-- What has been accepted since a call started was accepted by its steps. -/
theorem sentCount_eq_of_callSteps (reader : Reader)
    (history : List (MonitorEvent Reader Item)) :
    sentCount history = sentAtLoad reader history +
      (callSteps reader history).countP MonitorEvent.pushes := by
  induction history with
  | nil => rfl
  | cons event earlier ih =>
      rw [sentCount_cons, sentAtLoad, callSteps]
      by_cases starts : event.starts reader
      · simp [starts, MonitorEvent.pushes_of_starts starts]
      · rw [if_neg starts, if_neg starts, List.countP_cons, ih]
        cases event.pushes <;> simp [Nat.add_assoc]

/-- The pops of a call cannot make less of what had been accepted when it
started than the ring held at some moment. -/
theorem Released.sentAtLoad_le {reader : Reader}
    {history : List (MonitorEvent Reader Item)} (released : Released history) :
    ∀ count ∈ heldDuring reader history,
      sentAtLoad reader history ≤ count + takenCount history := by
  induction history with
  | nil => simp [sentAtLoad]
  | cons event earlier ih =>
      intro count held
      have now := released.now
      rw [sentAtLoad]
      rw [heldDuring] at held
      split at held <;> rename_i starts
      · obtain rfl := List.mem_singleton.mp held
        rw [if_pos starts, itemsHeld]
        have := sentCount_cons event earlier
        omega
      · rw [if_neg starts]
        have before := sentCount_eq_of_callSteps reader earlier
        have sent := sentCount_cons event earlier
        have taken := takenCount_cons event earlier
        rcases List.mem_cons.mp held with rfl | held
        · rw [itemsHeld]
          omega
        · have := ih released.tail count held
          omega

/-- While no pop follows a push, the ring held what the call takes from its two
loads. -/
theorem Released.mem_heldDuring {reader : Reader}
    {history : List (MonitorEvent Reader Item)} (released : Released history)
    (inOrder : NoPopAfterPush (callSteps reader history)) :
    takenCount history ≤ sentAtLoad reader history ∧
      sentAtLoad reader history - takenCount history ∈
        heldDuring reader history := by
  induction history with
  | nil => simp [sentAtLoad, heldDuring, takenCount, ringHistory, popped]
  | cons event earlier ih =>
      have now := released.now
      have sent := sentCount_cons event earlier
      have taken := takenCount_cons event earlier
      rw [callSteps] at inOrder
      rw [sentAtLoad, heldDuring]
      by_cases starts : event.starts reader
      · rw [if_pos starts, if_pos starts, itemsHeld]
        rw [MonitorEvent.pushes_of_starts starts] at sent
        simp_all
      · rw [if_neg starts] at inOrder ⊢
        rw [if_neg starts]
        obtain ⟨first, rest⟩ := List.pairwise_cons.mp inOrder
        obtain ⟨within, held⟩ := ih released.tail rest
        by_cases pops : event.pops
        · have unpushed : (callSteps reader earlier).countP
              MonitorEvent.pushes = 0 := by
            rw [List.countP_eq_zero]
            intro step mem pushes
            exact first step mem ⟨pops, pushes⟩
          have before := sentCount_eq_of_callSteps reader earlier
          rw [MonitorEvent.pushes_of_pops pops, Bool.toNat_false] at sent
          rw [pops, Bool.toNat_true] at taken
          have same : sentAtLoad reader earlier = sentCount (event :: earlier) := by
            omega
          rw [same]
          exact ⟨now, List.mem_cons_self⟩
        · rw [Bool.eq_false_of_not_eq_true pops, Bool.toNat_false] at taken
          rw [taken]
          exact ⟨within, List.mem_cons_of_mem _ held⟩

/-- Once a pop follows a push, what the call takes from its two loads is less
than the ring held at any moment. -/
theorem Released.sentAtLoad_lt {reader : Reader}
    {history : List (MonitorEvent Reader Item)} (released : Released history)
    (outOfOrder : ¬NoPopAfterPush (callSteps reader history)) :
    ∀ count ∈ heldDuring reader history,
      sentAtLoad reader history < count + takenCount history := by
  induction history with
  | nil => exact (outOfOrder List.Pairwise.nil).elim
  | cons event earlier ih =>
      intro count held
      have now := released.now
      have sent := sentCount_cons event earlier
      have taken := takenCount_cons event earlier
      rw [callSteps] at outOfOrder
      rw [heldDuring] at held
      rw [sentAtLoad]
      by_cases starts : event.starts reader
      · rw [if_pos starts] at outOfOrder
        exact (outOfOrder List.Pairwise.nil).elim
      · rw [if_neg starts] at outOfOrder held ⊢
        have before := sentCount_eq_of_callSteps reader earlier
        have pushed := countP_pushes_pos outOfOrder
        rcases List.mem_cons.mp held with rfl | held
        · rw [itemsHeld]
          omega
        · by_cases rest : NoPopAfterPush (callSteps reader earlier)
          · have pops : event.pops := by
              by_contra unpopped
              apply outOfOrder
              exact List.pairwise_cons.mpr
                ⟨fun _ _ both => unpopped both.1, rest⟩
            rw [pops, Bool.toNat_true] at taken
            have := released.tail.sentAtLoad_le count held
            omega
          · have := ih released.tail rest count held
            omega

end Calls

section Runs

variable {Reader Item : Type*} [DecidableEq Reader] {size : RingSize}
  {buffer : Nat → Item} {history : List (MonitorEvent Reader Item)}
  {monitored : MonitoredRing Reader Item} {reader : Reader}

/-- A run of the monitored ring runs the ring. -/
theorem ringRun
    (run : Run (MonitorStep size) (.new buffer) history monitored) :
    Run (RingStep size) (.new buffer) (ringHistory history)
      monitored.ring := by
  apply run.project MonitoredRing.ring MonitorEvent.ring?
  · intro _ _ _ edge notRing
    cases edge with
    | ring => cases notRing
    | _ => rfl
  · intro _ _ _ _ edge observed
    cases edge with
    | ring edge =>
        obtain rfl := Option.some.inj observed
        exact edge
    | _ => cases observed

theorem Fifo.of_monitored
    (run : Run (MonitorStep size) (.new buffer) history monitored) :
    Fifo size (accepted (ringHistory history)) (popped (ringHistory history))
      monitored.ring :=
  .of_one_of_each (ringRun run)

theorem Released.of_run
    (run : Run (MonitorStep size) (.new buffer) history monitored) :
    Released history := by
  intro moment isSuffix
  obtain ⟨middle, earlier⟩ := run.of_suffix isSuffix
  exact (Fifo.of_monitored earlier).isPrefix.length_le

/-- A reader holds the position at which the accepted items ended when its call
started. -/
theorem loadedWrite_eq
    (run : Run (MonitorStep size) (.new buffer) history monitored) :
    ∀ reader write, monitored.sizing reader = .loadedWrite write →
      write = sentAtLoad reader history % size.val := by
  apply run.invariant fun history monitored =>
    ∀ reader write, monitored.sizing reader = .loadedWrite write →
      write = sentAtLoad reader history % size.val
  · rintro reader write ⟨⟩
  · intro earlier source event target run loaded edge reader write pc
    cases edge with
    | ring edge => exact loaded reader write pc
    | @sizeLoadWrite caller outside =>
        by_cases same : reader = caller
        · subst same
          obtain rfl : source.ring.queue.writePos = write := by
            simpa using pc
          rw [sentAtLoad, if_pos (by simp [MonitorEvent.starts])]
          exact (Fifo.of_monitored run).writePos
        · simpa [sentAtLoad, MonitorEvent.starts, Ne.symm same] using
            loaded reader write (by simpa [same] using pc)
    | @sizeLoadRead caller _ _ =>
        by_cases same : reader = caller
        · simp [same] at pc
        · exact loaded reader write (by simpa [same] using pc)

/-- As long as the pops have not gone past the write position that was loaded,
the call returns the number of items between. -/
theorem returned_eq
    (run : Run (MonitorStep size) (.new buffer) history monitored)
    {value : Nat} {target : MonitoredRing Reader Item}
    (returns : MonitorStep size monitored (.sizeLoadRead reader value) target)
    (behind : takenCount history ≤ sentAtLoad reader history) :
    value = sentAtLoad reader history - takenCount history := by
  cases returns with
  | sizeLoadRead pc =>
      have fifo := Fifo.of_monitored run
      have sent := sentCount_eq_of_callSteps reader history
      have bound : sentCount history < takenCount history + size.val :=
        fifo.bounded
      have read : monitored.ring.queue.readPos =
          takenCount history % size.val := fifo.readPos
      rw [loadedWrite_eq run reader _ pc, read]
      exact loadedSize_mod behind (by omega)

/-- A call during which no pop follows a push returns a number of items that the
ring held meanwhile. -/
theorem size_within_call
    (run : Run (MonitorStep size) (.new buffer) history monitored)
    {value : Nat} {target : MonitoredRing Reader Item}
    (returns : MonitorStep size monitored (.sizeLoadRead reader value) target)
    (inOrder : NoPopAfterPush (callSteps reader history)) :
    ∃ low ∈ heldDuring reader history, ∃ high ∈ heldDuring reader history,
      low ≤ value ∧ value ≤ high := by
  obtain ⟨behind, held⟩ := (Released.of_run run).mem_heldDuring inOrder
  obtain rfl := returned_eq run returns behind
  exact ⟨_, held, _, held, le_refl _, le_refl _⟩

/-- A call during which a pop follows a push returns less than the ring ever
held meanwhile, unless the pops have gone past the loaded write position. -/
theorem size_below_call
    (run : Run (MonitorStep size) (.new buffer) history monitored)
    {value : Nat} {target : MonitoredRing Reader Item}
    (returns : MonitorStep size monitored (.sizeLoadRead reader value) target)
    (outOfOrder : ¬NoPopAfterPush (callSteps reader history))
    (behind : takenCount history ≤ sentAtLoad reader history) :
    ∀ count ∈ heldDuring reader history, value < count := by
  intro count held
  have := (Released.of_run run).sentAtLoad_lt outOfOrder count held
  rw [returned_eq run returns behind]
  omega

end Runs

section Overtaken

def fourSlots : RingSize := ⟨4, by decide⟩

/-- On an empty queue, `size` loads the write position, and one push and one pop
complete. -/
def overtakenSize : List (MonitorEvent Unit Nat) :=
  .map .ring [.popStoreRead () 7, .popReadSlot (), .popAvailable (),
    .popLoadRead (), .pushStoreWrite () 7, .pushWriteSlot (), .pushRoom (),
    .pushLoadWrite () 7] ++ [.sizeLoadWrite ()]

/-- The read position has gone past the loaded write position and is taken for a
wrapped one: the call returns three, and the ring never held more than one. -/
theorem size_of_overtaken :
    ∃ monitored target,
      Run (MonitorStep fourSlots) (.new fun _ => 0) overtakenSize monitored ∧
        MonitorStep fourSlots monitored (.sizeLoadRead () 3) target ∧
        ∀ count ∈ heldDuring () overtakenSize, count ≤ 1 := by
  obtain ⟨monitored, target, run, returns⟩ := Run.exists_step_of_replay
    (MonitoredRing.next? fourSlots) MonitorStep.of_next? (.new fun _ => 0)
    overtakenSize (.sizeLoadRead () 3) (by decide)
  exact ⟨monitored, target, run, returns, by decide⟩

/-- After a push, `size` loads the write position; the item is popped and another
one pushed. -/
def popThenPush : List (MonitorEvent Unit Nat) :=
  .map .ring [.pushStoreWrite () 8, .pushWriteSlot (), .pushRoom (),
    .pushLoadWrite () 8, .popStoreRead () 7, .popReadSlot (), .popAvailable (),
    .popLoadRead ()] ++ .sizeLoadWrite () :: .map .ring [.pushStoreWrite () 7,
    .pushWriteSlot (), .pushRoom (), .pushLoadWrite () 7]

/-- The call returns zero, which the ring held between the pop and the push. -/
theorem size_within_call_popThenPush :
    ∃ monitored target,
      Run (MonitorStep fourSlots) (.new fun _ => 0) popThenPush monitored ∧
        MonitorStep fourSlots monitored (.sizeLoadRead () 0) target ∧
        ∃ low ∈ heldDuring () popThenPush, ∃ high ∈ heldDuring () popThenPush,
          low ≤ 0 ∧ 0 ≤ high := by
  obtain ⟨monitored, target, run, returns⟩ := Run.exists_step_of_replay
    (MonitoredRing.next? fourSlots) MonitorStep.of_next? (.new fun _ => 0)
    popThenPush (.sizeLoadRead () 0) (by decide)
  exact ⟨monitored, target, run, returns,
    size_within_call run returns (by decide)⟩

end Overtaken

end TradingMatcher

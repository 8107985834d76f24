import TradingMatcher.OrderPipeline

/-!
# Who holds an object of the pipeline

An object is handed out, assigned and pushed once, and is then the matcher's:
the objects that it adds come out of the queue in the order of the pushes.
-/

namespace TradingMatcher

namespace PipelineEvent

def queue? : PipelineEvent → Option (RingEvent Unit Unit OrderPtr)
  | .push event | .pop event => some event
  | _ => none

/-- The step of the single thread that adds the orders itself. -/
def book? : PipelineEvent → Option Event
  | .addOrder order fields result => some (.addOrder order fields result)
  | .matchOrders => some .matchOrders
  | .executeTrade fill => some (.executeTrade fill)
  | .matchReturn tradeCount => some (.matchReturn tradeCount)
  | _ => none

def assigned? : PipelineEvent → Option (OrderPtr × Order)
  | .assign order fields => some (order, fields)
  | _ => none

def added? : PipelineEvent → Option (OrderPtr × Order)
  | .addOrder order fields _ => some (order, fields)
  | _ => none

def fill? : PipelineEvent → Option Fill
  | .executeTrade fill => some fill
  | _ => none

end PipelineEvent

namespace OrderPipeline

def queueEvents (history : List PipelineEvent) :
    List (RingEvent Unit Unit OrderPtr) :=
  history.filterMap PipelineEvent.queue?

def bookHistory (history : List PipelineEvent) : List Event :=
  history.filterMap PipelineEvent.book?

/-- The orders with the fields that they were assigned, the latest first. -/
def assignedOrders (history : List PipelineEvent) : List (OrderPtr × Order) :=
  history.filterMap PipelineEvent.assigned?

/-- The orders that the matcher has added, in that order. -/
def addedOrders (history : List PipelineEvent) : List (OrderPtr × Order) :=
  (history.filterMap PipelineEvent.added?).reverse

/-- The trades, in the order of their execution. -/
def executedFills (history : List PipelineEvent) : List Fill :=
  (history.filterMap PipelineEvent.fill?).reverse

def addedObjects (history : List PipelineEvent) : List OrderPtr :=
  (addedOrders history).map Prod.fst

def assignedObjects (history : List PipelineEvent) : List OrderPtr :=
  (assignedOrders history).map Prod.fst

theorem addedObjects_addOrder (history : List PipelineEvent) (order : OrderPtr)
    (fields : Order) (result : Bool) :
    addedObjects (.addOrder order fields result :: history) =
      addedObjects history ++ [order] := by
  simp [addedObjects, addedOrders, PipelineEvent.added?]

theorem addedOrders_addOrder (history : List PipelineEvent) (order : OrderPtr)
    (fields : Order) (result : Bool) :
    addedOrders (.addOrder order fields result :: history) =
      addedOrders history ++ [(order, fields)] := by
  simp [addedOrders, PipelineEvent.added?]

theorem executedFills_executeTrade (history : List PipelineEvent)
    (fill : Fill) :
    executedFills (.executeTrade fill :: history) =
      executedFills history ++ [fill] := by
  simp [executedFills, PipelineEvent.fill?]

theorem mem_assignedObjects {history : List PipelineEvent} {order : OrderPtr} :
    order ∈ assignedObjects history ↔
      ∃ fields, (order, fields) ∈ assignedOrders history := by
  simp [assignedObjects]

end OrderPipeline

open OrderPipeline

/-- What the handler's place says of the object it has in hand: it has not been
pushed, and inside `push` it is the item. -/
def HandlerPc.Place (handedOut assigned pushed : List OrderPtr)
    (push : PushPc OrderPtr) : HandlerPc → Prop
  | .running => push = .outside
  | .allocated order =>
      push = .outside ∧ order ∈ handedOut ∧ order ∉ assigned
  | .pushing order =>
      order ∈ assigned ∧ order ∉ pushed ∧ ∀ item ∈ push.item?, item = order

/-- The object that the matcher has popped and not yet added. -/
def MatcherPc.inHand : MatcherPc → List OrderPtr
  | .popped order => [order]
  | .running | .added | .matching _ => []

/-- The place of the single thread. -/
def MatcherPc.phase : MatcherPc → Phase
  | .matching tradeCount => .matching tradeCount
  | .running | .popped _ | .added => .idle

namespace OrderPipeline

section Ownership

variable {size : RingSize} {source target : OrderPipeline}
  {history : List PipelineEvent} {event : PipelineEvent}

/-- Every object is handed out, assigned and pushed once, and added in the order
of the pops. -/
structure Owned (history : List PipelineEvent) (pipeline : OrderPipeline) :
    Prop where
  handler : pipeline.handler.Place pipeline.handedOut (assignedObjects history)
    (accepted (queueEvents history)) (pipeline.orderQueue.push ())
  matcher : popped (queueEvents history) =
    addedObjects history ++ pipeline.matcher.inHand
  pushed : ∀ order ∈ accepted (queueEvents history),
    order ∈ assignedObjects history
  pushedOnce : (accepted (queueEvents history)).Nodup
  assignedOnce : (assignedObjects history).Nodup
  handedOut : ∀ order ∈ assignedObjects history, order ∈ pipeline.handedOut

namespace Owned

theorem start (buffer : Nat → OrderPtr) (heap : Heap)
    (clock : Nat → Timestamp) : Owned [] (.start buffer heap clock) where
  handler := rfl
  matcher := rfl
  pushed := nofun
  pushedOnce := List.nodup_nil
  assignedOnce := List.nodup_nil
  handedOut := nofun

/-- A step of `push`. -/
theorem pushStep (owned : Owned history source) {order : OrderPtr}
    {event : RingEvent Unit Unit OrderPtr} {orderQueue : Ring Unit Unit OrderPtr}
    (pc : source.handler = .pushing order) (pushes : event.IsPushOf order)
    (edge : RingStep size source.orderQueue event orderQueue) :
    Owned (.push event :: history)
      { source with orderQueue, handler := .resume order event } := by
  obtain ⟨handler, matcher, pushed, pushedOnce, assignedOnce, handedOut⟩ := owned
  rw [pc] at handler
  obtain ⟨assigned, unpushed, inPush⟩ := handler
  cases edge with
  | pushLoadWrite =>
      refine ⟨⟨assigned, unpushed, ?_⟩, matcher, pushed, pushedOnce,
        assignedOnce, handedOut⟩
      obtain rfl := pushes
      simp [PushPc.item?]
  | pushFull =>
      exact ⟨by simp [HandlerPc.Place, HandlerPc.resume], matcher, pushed,
        pushedOnce, assignedOnce, handedOut⟩
  | pushRoom place | pushWriteSlot place =>
      refine ⟨⟨assigned, unpushed, ?_⟩, matcher, pushed, pushedOnce,
        assignedOnce, handedOut⟩
      rw [place] at inPush
      simpa [PushPc.item?] using inPush
  | @pushStoreWrite producer item currentWrite place =>
      rw [place] at inPush
      obtain rfl : item = order := inPush item rfl
      refine ⟨by simp [HandlerPc.Place, HandlerPc.resume], matcher, ?_, ?_,
        assignedOnce, handedOut⟩
      · intro other member
        rcases List.mem_append.mp member with before | last
        · exact pushed other before
        · obtain rfl := List.mem_singleton.mp last
          exact assigned
      · apply List.nodup_append.mpr
        refine ⟨pushedOnce, List.nodup_singleton _, ?_⟩
        rintro other before _ last rfl
        obtain rfl := List.mem_singleton.mp last
        exact unpushed before
  | _ => cases pushes

/-- A step of `pop`. -/
theorem popStep (owned : Owned history source)
    {event : RingEvent Unit Unit OrderPtr} {orderQueue : Ring Unit Unit OrderPtr}
    (pc : source.matcher = .running) (pops : event.IsPop)
    (edge : RingStep size source.orderQueue event orderQueue) :
    Owned (.pop event :: history)
      { source with orderQueue, matcher := .resume event } := by
  obtain ⟨handler, matcher, pushed, pushedOnce, assignedOnce, handedOut⟩ := owned
  rw [pc] at matcher
  cases edge with
  | popStoreRead =>
      refine ⟨handler, ?_, pushed, pushedOnce, assignedOnce, handedOut⟩
      change popped (queueEvents history) ++ [_] = _
      rw [matcher, MatcherPc.inHand, List.append_nil]
      rfl
  | popLoadRead | popEmpty | popAvailable | popReadSlot =>
      exact ⟨handler, matcher, pushed, pushedOnce, assignedOnce, handedOut⟩
  | _ => cases pops

theorem step (owned : Owned history source)
    (edge : PipelineStep size source event target) :
    Owned (event :: history) target := by
  cases edge with
  | push pc pushes edge => exact owned.pushStep pc pushes edge
  | pop pc pops edge => exact owned.popStep pc pops edge
  | @allocate order pc new =>
      obtain ⟨handler, matcher, pushed, pushedOnce, assignedOnce, handedOut⟩ :=
        owned
      rw [pc] at handler
      refine ⟨⟨handler, List.mem_cons_self, fun assigned =>
        new (handedOut order assigned)⟩, matcher, pushed, pushedOnce,
        assignedOnce, ?_⟩
      exact fun other assigned =>
        List.mem_cons_of_mem _ (handedOut other assigned)
  | @assign order fields pc =>
      obtain ⟨handler, matcher, pushed, pushedOnce, assignedOnce, handedOut⟩ :=
        owned
      rw [pc] at handler
      obtain ⟨outside, handed, unassigned⟩ := handler
      refine ⟨⟨List.mem_cons_self, fun pushedOrder =>
        unassigned (pushed order pushedOrder), ?_⟩, matcher, ?_, pushedOnce,
        List.nodup_cons.mpr ⟨unassigned, assignedOnce⟩, ?_⟩
      · rw [outside]
        exact nofun
      · exact fun other member => List.mem_cons_of_mem _ (pushed other member)
      · intro other member
        rcases List.mem_cons.mp member with rfl | member
        exacts [handed, handedOut other member]
  | addOrder pc =>
      refine { owned with matcher := ?_ }
      have matcher := owned.matcher
      rw [pc] at matcher
      rw [addedObjects_addOrder]
      change popped (queueEvents history) = _
      rw [matcher]
      exact (List.append_nil _).symm
  | matchOrders pc | executeTrade pc | matchReturn pc =>
      refine { owned with matcher := ?_ }
      have matcher := owned.matcher
      rwa [pc] at matcher

end Owned

end Ownership

section Runs

variable {size : RingSize} {buffer : Nat → OrderPtr} {heap : Heap}
  {clock : Nat → Timestamp} {history : List PipelineEvent}
  {pipeline : OrderPipeline}

theorem queueRun
    (run : Run (PipelineStep size) (.start buffer heap clock) history
      pipeline) :
    Run (RingStep size) (.new buffer) (queueEvents history)
      pipeline.orderQueue := by
  apply run.project OrderPipeline.orderQueue PipelineEvent.queue?
  · intro _ _ _ edge notQueue
    cases edge with
    | push | pop => cases notQueue
    | _ => rfl
  · intro _ _ _ _ edge observed
    cases edge with
    | push _ _ edge | pop _ _ edge =>
        obtain rfl := Option.some.inj observed
        exact edge
    | _ => cases observed

theorem owned_of_run
    (run : Run (PipelineStep size) (.start buffer heap clock) history
      pipeline) : Owned history pipeline := by
  apply run.invariant Owned
  · exact .start buffer heap clock
  · intro _ _ _ _ _ owned edge
    exact owned.step edge

/-- What is added, and then in hand, comes out of the queue in the order of the
pushes. -/
theorem addedObjects_isPrefix
    (run : Run (PipelineStep size) (.start buffer heap clock) history
      pipeline) :
    addedObjects history ++ pipeline.matcher.inHand <+:
      accepted (queueEvents history) := by
  rw [← (owned_of_run run).matcher]
  exact (Fifo.of_one_of_each (queueRun run)).isPrefix

theorem addedObjects_nodup
    (run : Run (PipelineStep size) (.start buffer heap clock) history
      pipeline) : (addedObjects history ++ pipeline.matcher.inHand).Nodup :=
  (addedObjects_isPrefix run).sublist.nodup (owned_of_run run).pushedOnce

theorem assigned_of_added
    (run : Run (PipelineStep size) (.start buffer heap clock) history
      pipeline) {order : OrderPtr}
    (added : order ∈ addedObjects history ++ pipeline.matcher.inHand) :
    order ∈ assignedObjects history :=
  (owned_of_run run).pushed order ((addedObjects_isPrefix run).subset added)

end Runs

end OrderPipeline

end TradingMatcher

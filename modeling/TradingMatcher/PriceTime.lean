import Mathlib.Tactic
import Mathlib.Data.List.Perm.Basic

/-!
# Price-time priority

The abstract purpose of an order book: two queues of entries, buys by
descending and sells by ascending price, equal prices in order of arrival.  An
entry is inserted behind everything of equal or better price, is deleted by its
identifier, and the two heads trade while their prices cross.  Prices are any
linear order and quantities are exact natural numbers.
-/

namespace TradingMatcher.PriceTime

inductive Side
  | buy
  | sell
  deriving DecidableEq, Repr

section Priority

variable {Price : Type*} [LinearOrder Price]

/-- `first` is a strictly better price than `second` for this side. -/
def Side.Better : Side → Price → Price → Prop
  | .buy, first, second => second < first
  | .sell, first, second => first < second

instance (side : Side) : DecidableRel (@Side.Better Price _ side) :=
  fun first second => by
    cases side <;> simp only [Side.Better] <;> infer_instance

theorem Side.Better.asymm {side : Side} {first second : Price}
    (better : side.Better first second) : ¬ side.Better second first := by
  cases side <;> exact lt_asymm better

theorem Side.Better.ne {side : Side} {first second : Price}
    (better : side.Better first second) : first ≠ second := by
  rintro rfl
  exact better.asymm better

/-- Being at least as good a price is transitive. -/
theorem Side.not_better_trans {side : Side} {first second third : Price}
    (firstSecond : ¬ side.Better second first)
    (secondThird : ¬ side.Better third second) :
    ¬ side.Better third first := by
  cases side <;> simp only [Side.Better, not_lt] at * <;> order

variable {Item : Type*}

/-- A queue in which no later item has a strictly better price. -/
def InPriority (side : Side) (price : Item → Price) (queue : List Item) :
    Prop :=
  queue.Pairwise fun earlier later => ¬ side.Better (price later) (price earlier)

/-- Insert an item behind all items of equal or better price. -/
def insertBehind (side : Side) (price : Item → Price) (item : Item) :
    List Item → List Item
  | [] => [item]
  | head :: rest =>
      if side.Better (price item) (price head) then item :: head :: rest
      else head :: insertBehind side price item rest

theorem insertBehind_perm (side : Side) (price : Item → Price) (item : Item)
    (queue : List Item) :
    (insertBehind side price item queue).Perm (item :: queue) := by
  induction queue with
  | nil => exact .refl _
  | cons head rest ih =>
      rw [insertBehind]
      split
      · exact .refl _
      · exact (ih.cons head).trans (.swap item head rest)

/-- The new item stands between the items that are not worse than it and those
that are. -/
theorem insertBehind_append {side : Side} {price : Item → Price} {item : Item}
    {ahead behind : List Item}
    (aheadOk : ∀ other ∈ ahead, ¬ side.Better (price item) (price other))
    (behindOk : ∀ other ∈ behind, side.Better (price item) (price other)) :
    insertBehind side price item (ahead ++ behind) =
      ahead ++ item :: behind := by
  induction ahead with
  | nil =>
      cases behind with
      | nil => rfl
      | cons head rest =>
          rw [List.nil_append, insertBehind, if_pos (behindOk head (by simp))]
          rfl
  | cons head rest ih =>
      rw [List.cons_append, insertBehind, if_neg (aheadOk head (by simp)),
        ih fun other member => aheadOk other (by simp [member])]
      rfl

/-- A relation between earlier and later items survives an insertion that keeps
it ahead of the new item and behind it. -/
theorem insertBehind_pairwise {side : Side} {price : Item → Price} {item : Item}
    {relation : Item → Item → Prop} {queue : List Item}
    (inPriority : InPriority side price queue)
    (related : queue.Pairwise relation)
    (ahead : ∀ other ∈ queue, ¬ side.Better (price item) (price other) →
      relation other item)
    (behind : ∀ other ∈ queue, side.Better (price item) (price other) →
      relation item other) :
    (insertBehind side price item queue).Pairwise relation := by
  induction queue with
  | nil => exact List.pairwise_singleton _ _
  | cons head rest ih =>
      obtain ⟨headFirst, restOk⟩ := List.pairwise_cons.mp inPriority
      obtain ⟨headRelated, restRelated⟩ := List.pairwise_cons.mp related
      rw [insertBehind]
      split
      next better =>
        refine List.pairwise_cons.mpr ⟨fun other member => ?_, related⟩
        apply behind other member
        rcases List.mem_cons.mp member with rfl | inRest
        · exact better
        · by_contra notBetter
          exact Side.not_better_trans (headFirst other inRest) notBetter better
      next notBetter =>
        refine List.pairwise_cons.mpr ⟨fun other member => ?_, ih restOk
          restRelated (fun other inRest => ahead other (.tail _ inRest))
          fun other inRest => behind other (.tail _ inRest)⟩
        rcases List.mem_cons.mp
          ((insertBehind_perm side price item rest).mem_iff.mp member) with
          rfl | inRest
        · exact ahead head List.mem_cons_self notBetter
        · exact headRelated other inRest

/-- An insertion looks at the prices of the queue and of the new item only. -/
theorem insertBehind_congr {side : Side} {price other : Item → Price}
    {item : Item} {queue : List Item} (same : other item = price item)
    (agree : ∀ entry ∈ queue, other entry = price entry) :
    insertBehind side other item queue = insertBehind side price item queue := by
  induction queue with
  | nil => rfl
  | cons head rest ih =>
      rw [insertBehind, insertBehind, same, agree head List.mem_cons_self,
        ih fun entry member => agree entry (List.mem_cons_of_mem _ member)]

/-- An insertion compares the new item with the queue, and does nothing else
with the prices. -/
theorem insertBehind_of_better_iff {Scale : Type*} [LinearOrder Scale]
    {side otherSide : Side} {price : Item → Price} {other : Item → Scale}
    {item : Item} {queue : List Item}
    (agree : ∀ entry ∈ queue, otherSide.Better (other item) (other entry) ↔
      side.Better (price item) (price entry)) :
    insertBehind otherSide other item queue =
      insertBehind side price item queue := by
  induction queue with
  | nil => rfl
  | cons head rest ih =>
      rw [insertBehind, insertBehind,
        ih fun entry member => agree entry (List.mem_cons_of_mem _ member)]
      exact if_congr (agree head List.mem_cons_self) rfl rfl

/-- An item that is kept is inserted where it is inserted among the items that
are kept. -/
theorem filter_insertBehind {side : Side} {price : Item → Price} {item : Item}
    {keep : Item → Bool} {queue : List Item}
    (inPriority : InPriority side price queue) (kept : keep item = true) :
    (insertBehind side price item queue).filter keep =
      insertBehind side price item (queue.filter keep) := by
  induction queue with
  | nil => simp [insertBehind, kept]
  | cons head rest ih =>
      obtain ⟨headFirst, restOk⟩ := List.pairwise_cons.mp inPriority
      rw [insertBehind]
      split
      next better =>
        -- The item is better than the head, and so than everything behind it.
        have ahead : ∀ other ∈ (head :: rest).filter keep,
            side.Better (price item) (price other) := by
          intro other member
          rcases List.mem_cons.mp (List.mem_of_mem_filter member) with
            rfl | inRest
          · exact better
          · by_contra notBetter
            exact Side.not_better_trans (headFirst other inRest) notBetter better
        rw [List.filter_cons_of_pos kept]
        exact (insertBehind_append (List.forall_mem_nil _) ahead).symm
      next notBetter =>
        by_cases keepsHead : keep head = true
        · rw [List.filter_cons_of_pos keepsHead,
            List.filter_cons_of_pos keepsHead, insertBehind, if_neg notBetter,
            ih restOk]
        · rw [List.filter_cons_of_neg keepsHead,
            List.filter_cons_of_neg keepsHead, ih restOk]

/-- An item that is not kept leaves no trace. -/
theorem filter_insertBehind_of_not {side : Side} {price : Item → Price}
    {item : Item} {keep : Item → Bool} (dropped : ¬keep item = true)
    (queue : List Item) :
    (insertBehind side price item queue).filter keep = queue.filter keep := by
  induction queue with
  | nil => simp [insertBehind, dropped]
  | cons head rest ih =>
      rw [insertBehind]
      split
      · exact List.filter_cons_of_neg dropped
      · rw [List.filter_cons, List.filter_cons, ih]

/-- A queue in priority is determined by its items and the order of the items of
each price. -/
theorem InPriority.eq_of_perm {side : Side} {price : Item → Price}
    {ahead : Item → Item → Prop} {first second : List Item}
    (asymm : ∀ item other, ahead item other → ¬ ahead other item)
    (firstPriority : InPriority side price first)
    (firstTies : first.Pairwise fun earlier later =>
      price earlier = price later → ahead earlier later)
    (secondPriority : InPriority side price second)
    (secondTies : second.Pairwise fun earlier later =>
      price earlier = price later → ahead earlier later)
    (perm : first.Perm second) : first = second := by
  have better_or_tie {earlier later : Item}
      (both : ¬ side.Better (price later) (price earlier) ∧
        (price earlier = price later → ahead earlier later)) :
      side.Better (price earlier) (price later) ∨
        price earlier = price later ∧ ahead earlier later := by
    obtain ⟨notBetter, tie⟩ := both
    rcases lt_trichotomy (price earlier) (price later) with less | same | more
    · cases side with
      | buy => exact (notBetter less).elim
      | sell => exact .inl less
    · exact .inr ⟨same, tie same⟩
    · cases side with
      | buy => exact .inl more
      | sell => exact (notBetter more).elim
  refine List.Perm.eq_of_pairwise (fun item other _ _ forth back => ?_)
    ((firstPriority.and firstTies).imp better_or_tie)
    ((secondPriority.and secondTies).imp better_or_tie) perm
  rcases forth with better | ⟨same, before⟩
  · rcases back with worse | ⟨same, -⟩
    · exact (better.asymm worse).elim
    · exact (better.ne same.symm).elim
  · rcases back with worse | ⟨-, behind⟩
    · exact (worse.ne same.symm).elim
    · exact (asymm _ _ before behind).elim

/-- Insertion commutes with a map that keeps the prices. -/
theorem map_insertBehind {Image : Type*} (side : Side) (price : Image → Price)
    (convert : Item → Image) (item : Item) (queue : List Item) :
    (insertBehind side (price ∘ convert) item queue).map convert =
      insertBehind side price (convert item) (queue.map convert) := by
  induction queue with
  | nil => rfl
  | cons head rest ih =>
      simp only [insertBehind, List.map_cons, Function.comp_apply]
      split
      · rfl
      · rw [List.map_cons, ih]

end Priority

/-- One resting order of the abstract book. -/
structure Entry (Object Id Price : Type*) where
  object : Object
  id : Id
  price : Price
  quantity : Nat

/-- The two queues of the abstract book. -/
@[ext]
structure Book (Object Id Price : Type*) where
  buys : List (Entry Object Id Price)
  sells : List (Entry Object Id Price)

/-- A trade of the abstract book: the two identifiers and the quantity. -/
structure Fill (Id : Type*) where
  buyId : Id
  sellId : Id
  quantity : Nat

namespace Book

section Queues

variable {Object Id Price : Type*}

/-- The book without orders. -/
def empty : Book Object Id Price := ⟨[], []⟩

def queue (book : Book Object Id Price) : Side → List (Entry Object Id Price)
  | .buy => book.buys
  | .sell => book.sells

def withQueue (book : Book Object Id Price) :
    Side → List (Entry Object Id Price) → Book Object Id Price
  | .buy, buys => { book with buys := buys }
  | .sell, sells => { book with sells := sells }

theorem ext_queue {first second : Book Object Id Price}
    (same : ∀ side, first.queue side = second.queue side) : first = second :=
  Book.ext (same .buy) (same .sell)

@[simp]
theorem queue_withQueue (book : Book Object Id Price) (side other : Side)
    (entries : List (Entry Object Id Price)) :
    (book.withQueue side entries).queue other =
      if other = side then entries else book.queue other := by
  cases side <;> cases other <;> rfl

end Queues

section Requests

variable {Object Id Price : Type*} [LinearOrder Price]

/-- Add an order behind all orders of equal or better price; an order without
quantity is refused. -/
def add (side : Side) (entry : Entry Object Id Price)
    (book : Book Object Id Price) : Bool × Book Object Id Price :=
  if entry.quantity = 0 then (false, book)
  else (true, book.withQueue side
    (insertBehind side Entry.price entry (book.queue side)))

theorem add_of_no_quantity {book : Book Object Id Price} {side : Side}
    {entry : Entry Object Id Price} (quantity : entry.quantity = 0) :
    book.add side entry = (false, book) :=
  if_pos quantity

theorem add_of_quantity {book : Book Object Id Price} {side : Side}
    {entry : Entry Object Id Price} (quantity : entry.quantity ≠ 0) :
    book.add side entry = (true, book.withQueue side
      (insertBehind side Entry.price entry (book.queue side))) :=
  if_neg quantity

variable [DecidableEq Id]

/-- The order resting under an identifier, with its side. -/
def find? (book : Book Object Id Price) (id : Id) :
    Option (Side × Entry Object Id Price) :=
  match book.buys.find? (·.id = id) with
  | some entry => some (.buy, entry)
  | none => (book.sells.find? (·.id = id)).map (Prod.mk .sell)

/-- Delete the order with an identifier. -/
def cancel (id : Id) (book : Book Object Id Price) :
    Bool × Book Object Id Price :=
  ((book.find? id).isSome,
    ⟨book.buys.filter (·.id ≠ id), book.sells.filter (·.id ≠ id)⟩)

/-- Delete an order and insert it again, with a new price and quantity, behind
all orders of equal or better price of its side. -/
def modify (id : Id) (price : Price) (quantity : Nat)
    (book : Book Object Id Price) : Bool × Book Object Id Price :=
  match book.find? id with
  | none => (false, book)
  | some (side, entry) =>
      (book.cancel id).2.add side
        { entry with price := price, quantity := quantity }

end Requests

section Trading

variable {Object Id Price : Type*}

/-- Take a quantity from the head of a queue, dropping a head that is used
up. -/
def fillHead (quantity : Nat) :
    List (Entry Object Id Price) → List (Entry Object Id Price)
  | [] => []
  | head :: rest =>
      if head.quantity - quantity = 0 then rest
      else { head with quantity := head.quantity - quantity } :: rest

/-- The number of resting orders. -/
def size (book : Book Object Id Price) : Nat :=
  book.buys.length + book.sells.length

variable [LinearOrder Price]

/-- The trade of the two heads, when their prices cross. -/
def trade? (book : Book Object Id Price) :
    Option (Fill Id × Book Object Id Price) :=
  match book.buys, book.sells with
  | buy :: _, sell :: _ =>
      if sell.price ≤ buy.price then
        let quantity := min buy.quantity sell.quantity
        some (⟨buy.id, sell.id, quantity⟩,
          ⟨fillHead quantity book.buys, fillHead quantity book.sells⟩)
      else none
  | _, _ => none

/-- Both queues are in priority. -/
def Sorted (book : Book Object Id Price) : Prop :=
  ∀ side, InPriority side Entry.price (book.queue side)

theorem fillHead_inPriority {side : Side} {quantity : Nat}
    {queue : List (Entry Object Id Price)}
    (inPriority : InPriority side Entry.price queue) :
    InPriority side Entry.price (fillHead quantity queue) := by
  cases queue with
  | nil => exact inPriority
  | cons head rest =>
      obtain ⟨headFirst, restOk⟩ := List.pairwise_cons.mp inPriority
      rw [fillHead]
      split
      · exact restOk
      · exact List.pairwise_cons.mpr ⟨headFirst, restOk⟩

/-- What a trade of the heads is. -/
theorem trade?_cases {book after : Book Object Id Price} {fill : Fill Id}
    (trade : book.trade? = some (fill, after)) :
    ∃ buy buys sell sells, book = ⟨buy :: buys, sell :: sells⟩ ∧
      sell.price ≤ buy.price ∧
      fill = ⟨buy.id, sell.id, min buy.quantity sell.quantity⟩ ∧
      after = ⟨fillHead fill.quantity (buy :: buys),
        fillHead fill.quantity (sell :: sells)⟩ := by
  obtain ⟨buys, sells⟩ := book
  cases buys with
  | nil => simp [trade?] at trade
  | cons buy buys =>
      cases sells with
      | nil => simp [trade?] at trade
      | cons sell sells =>
          simp only [trade?, Option.ite_none_right_eq_some] at trade
          obtain ⟨crosses, rest⟩ := trade
          obtain ⟨rfl, rfl⟩ := Prod.mk.inj (Option.some.inj rest)
          exact ⟨buy, buys, sell, sells, rfl, crosses, rfl, rfl⟩

theorem Sorted.trade? {book after : Book Object Id Price} {fill : Fill Id}
    (sorted : book.Sorted)
    (trade : book.trade? = some (fill, after)) : after.Sorted := by
  obtain ⟨buy, buys, sell, sells, rfl, -, -, rfl⟩ := trade?_cases trade
  intro side
  cases side with
  | buy => exact fillHead_inPriority (sorted .buy)
  | sell => exact fillHead_inPriority (sorted .sell)

/-- Every trade uses up at least one of the two heads. -/
theorem size_lt_of_trade? {book after : Book Object Id Price} {fill : Fill Id}
    (traded : book.trade? = some (fill, after)) : after.size < book.size := by
  obtain ⟨buy, buys, sell, sells, rfl, -, rfl, rfl⟩ := trade?_cases traded
  simp only [size, fillHead]
  split <;> split <;> simp only [List.length_cons] <;> omega

/-- Trade the heads until their prices no longer cross. -/
def matchAll (book : Book Object Id Price) :
    List (Fill Id) × Book Object Id Price :=
  match _traded : book.trade? with
  | none => ([], book)
  | some (fill, after) =>
      let rest := after.matchAll
      (fill :: rest.1, rest.2)
  termination_by book.size
  decreasing_by exact size_lt_of_trade? _traded

theorem matchAll_of_none {book : Book Object Id Price}
    (noTrade : book.trade? = none) : book.matchAll = ([], book) := by
  rw [matchAll]
  split
  · rfl
  next traded => simp [noTrade] at traded

theorem matchAll_of_some {book after : Book Object Id Price} {fill : Fill Id}
    (trade : book.trade? = some (fill, after)) :
    book.matchAll = (fill :: after.matchAll.1, after.matchAll.2) := by
  rw [matchAll]
  split
  next noTrade => simp [trade] at noTrade
  next traded =>
    obtain ⟨rfl, rfl⟩ := Prod.mk.inj (Option.some.inj (trade.symm.trans traded))
    rfl

end Trading

end Book

section Requests

variable {Object Id Price : Type*}

/-- What can be seen of one step of a price-time-priority engine: a request
with its answer, or one trade of a match in progress. -/
inductive Observation (Object Id Price : Type*)
  | add (side : Side) (entry : Entry Object Id Price) (result : Bool)
  | cancel (id : Id) (result : Bool)
  | modify (id : Id) (price : Price) (quantity : Nat) (result : Bool)
  | beginMatch
  | trade (fill : Fill Id)
  | endMatch (tradeCount : Nat)

/-- The abstract book, with the number of trades of a match in progress. -/
structure Machine (Object Id Price : Type*) where
  book : Book Object Id Price
  trades : Option Nat

/-- The engine answers requests between matches; a match trades the heads while
their prices cross and then returns the number of trades. -/
inductive Step [DecidableEq Id] [LinearOrder Price] :
    Machine Object Id Price → Observation Object Id Price →
      Machine Object Id Price → Prop
  | add {book after : Book Object Id Price} {side : Side}
      {entry : Entry Object Id Price} {result : Bool}
      (answer : book.add side entry = (result, after)) :
      Step ⟨book, none⟩ (.add side entry result) ⟨after, none⟩
  | cancel {book after : Book Object Id Price} {id : Id} {result : Bool}
      (answer : book.cancel id = (result, after)) :
      Step ⟨book, none⟩ (.cancel id result) ⟨after, none⟩
  | modify {book after : Book Object Id Price} {id : Id} {price : Price}
      {quantity : Nat} {result : Bool}
      (answer : book.modify id price quantity = (result, after)) :
      Step ⟨book, none⟩ (.modify id price quantity result) ⟨after, none⟩
  | beginMatch {book : Book Object Id Price} :
      Step ⟨book, none⟩ .beginMatch ⟨book, some 0⟩
  | trade {book after : Book Object Id Price} {fill : Fill Id}
      {tradeCount : Nat} (crosses : book.trade? = some (fill, after)) :
      Step ⟨book, some tradeCount⟩ (.trade fill) ⟨after, some (tradeCount + 1)⟩
  | endMatch {book : Book Object Id Price} {tradeCount : Nat}
      (noTrade : book.trade? = none) :
      Step ⟨book, some tradeCount⟩ (.endMatch tradeCount) ⟨book, none⟩

end Requests

end TradingMatcher.PriceTime

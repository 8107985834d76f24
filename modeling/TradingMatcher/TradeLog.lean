import TradingMatcher.BookRuns
import TradingMatcher.ConcurrentLogging
import TradingMatcher.LogFormat

/-!
# The log of the trades

`executeTrade` logs every trade it records.  The thread that matches is the one
that logs; the worker writes the lines.  What can be read out of the file are
trades that were executed, in their order, wherever the file ends.
-/

namespace TradingMatcher

open PrintFormat

/-- What the log says of a trade. -/
structure LoggedTrade where
  buyOrderId : OrderId
  sellOrderId : OrderId
  quantity : Quantity
  priceScaled : Price
  deriving DecidableEq

def Trade.logged (trade : Trade) : LoggedTrade where
  buyOrderId := trade.buyOrderId
  sellOrderId := trade.sellOrderId
  quantity := trade.quantity
  priceScaled := trade.priceScaled

def tradeFormat : String := "Trade: %u @ %ld (Bid:%u Ask:%u Qty:%u)"

/-- The integers of a trade's message; the quantity is there twice. -/
def Trade.integers (trade : Trade) : List Int :=
  [trade.quantity.toNat, trade.priceScaled.toInt, trade.buyOrderId.toNat,
    trade.sellOrderId.toNat, trade.quantity.toNat]

/-- The message of a trade, in its buffer. -/
def Trade.logMsg (trade : Trade) : List Char :=
  snprintf 256 tradeFormat trade.integers

/-- Its bytes. -/
def Trade.logBytes (trade : Trade) : List UInt8 :=
  trade.logMsg.map Char.toUInt8

/-- Read the message of a trade. -/
def readTrade (text : List Char) : Option LoggedTrade := do
  let (integers, rest) ← scan (pieces .literals tradeFormat.toList) text
  match integers, rest with
  | [quantity, price, bid, ask, _], [] =>
      return ⟨.ofNat bid.toNat, .ofNat ask.toNat, .ofNat quantity.toNat,
        .ofInt price⟩
  | _, _ => none

/-- Read a line of the log that may be that of a trade. -/
def readTradeLine (line : List Char) : Option LoggedTrade :=
  (readLine line).bind fun entry => readTrade entry.text

/-- The trades that can be read out of a log file. -/
def tradesIn (text : List Char) : List LoggedTrade :=
  (splitLines text).1.filterMap readTradeLine

section Messages

theorem tradePieces : pieces .literals tradeFormat.toList =
    [.literal 'T', .literal 'r', .literal 'a', .literal 'd', .literal 'e',
      .literal ':', .literal ' ', .integer 0, .literal ' ', .literal '@',
      .literal ' ', .integer 0, .literal ' ', .literal '(', .literal 'B',
      .literal 'i', .literal 'd', .literal ':', .integer 0, .literal ' ',
      .literal 'A', .literal 's', .literal 'k', .literal ':', .integer 0,
      .literal ' ', .literal 'Q', .literal 't', .literal 'y', .literal ':',
      .integer 0, .literal ')'] := by
  decide

/-- The message of a trade fits into its buffer. -/
theorem Trade.logMsg_eq (trade : Trade) :
    trade.logMsg = print (pieces .literals tradeFormat.toList) trade.integers ∧
      trade.logMsg.length ≤ 255 := by
  have unsignedLength (value : UInt32) :
      (decimal 0 value.toNat).length ≤ 10 :=
    length_decimal_natCast_le 10 (by decide)
      (value.toNat_lt.trans (by decide))
  have quantityLength := unsignedLength trade.quantity
  have bidLength := unsignedLength trade.buyOrderId
  have askLength := unsignedLength trade.sellOrderId
  have priceLength : (decimal 0 trade.priceScaled.toInt).length ≤ 20 := by
    have lower := trade.priceScaled.le_toInt
    have upper := trade.priceScaled.toInt_lt
    exact length_decimal_le 19 (by decide) (by omega)
  have short : (print (pieces .literals tradeFormat.toList)
      trade.integers).length ≤ 255 := by
    rw [tradePieces, Trade.integers]
    simp only [print, List.length_append, List.length_cons, List.length_nil]
    omega
  have whole : trade.logMsg =
      print (pieces .literals tradeFormat.toList) trade.integers := by
    rw [Trade.logMsg, snprintf]
    exact List.take_of_length_le short
  exact ⟨whole, whole ▸ short⟩

/-- The message of a trade reads back. -/
theorem readTrade_logMsg (trade : Trade) :
    readTrade trade.logMsg = some trade.logged := by
  have separated : Separated (pieces .literals tradeFormat.toList) := by decide
  have closed : Closed (pieces .literals tradeFormat.toList) [] := by
    rw [tradePieces]
    exact nofun
  have enough : trade.integers.length =
      arity (pieces .literals tradeFormat.toList) := by
    rw [tradePieces]
    rfl
  have scanned := scan_print separated enough closed
  rw [List.append_nil] at scanned
  rw [readTrade, trade.logMsg_eq.1, scanned]
  simp [Trade.integers, Trade.logged]

theorem toUInt8_ofUInt8 {char : Char} (small : char.toNat < 128) :
    Char.ofUInt8 char.toUInt8 = char := by
  apply Char.ext
  apply UInt32.toNat_inj.mp
  change char.val.toNat % 2 ^ 8 = char.val.toNat
  exact Nat.mod_eq_of_lt (small.trans (by decide))

/-- A record keeps the whole message of a trade. -/
theorem text_new_logBytes (trade : Trade) (level : LogLevel)
    (timestampNs : Timestamp) (threadId : UInt32) :
    (LogMessage.new level trade.logBytes timestampNs threadId).text =
      trade.logMsg := by
  have isAscii : IsAscii (pieces .literals tradeFormat.toList) := by decide
  have short : trade.logBytes.length ≤ 255 := by
    rw [Trade.logBytes, List.length_map]
    exact trade.logMsg_eq.2
  change (trade.logBytes.take 255).map Char.ofUInt8 = trade.logMsg
  rw [List.take_of_length_le short, Trade.logBytes, List.map_map]
  conv_rhs => rw [← List.map_id trade.logMsg]
  apply List.map_congr_left
  intro char member
  rw [trade.logMsg_eq.1] at member
  exact toUInt8_ofUInt8 (toNat_lt_of_mem_print isAscii member)

variable {localtime : Int → Tm}

theorem tradesIn_logText_cons (message : LogMessage)
    (messages : List LogMessage) :
    tradesIn (logText localtime (message :: messages)) =
      tradesIn (message.logLine localtime) ++
        tradesIn (logText localtime messages) := by
  rw [tradesIn, logText_cons, splitLines_append_newline,
    List.filterMap_append, ← message.logLine_eq_append]
  rfl

theorem tradesIn_logText (messages : List LogMessage) :
    tradesIn (logText localtime messages) =
      messages.flatMap fun message => tradesIn (message.logLine localtime) := by
  induction messages with
  | nil => rfl
  | cons message messages ih =>
      rw [tradesIn_logText_cons, ih, List.flatMap_cons]

/-- The line of a trade is read as that trade. -/
theorem tradesIn_trade (calendar : InCalendar localtime) (trade : Trade)
    (level : LogLevel) (timestampNs : Timestamp) (threadId : UInt32) :
    tradesIn ((LogMessage.new level trade.logBytes timestampNs
      threadId).logLine localtime) = [trade.logged] := by
  have text := text_new_logBytes trade level timestampNs threadId
  generalize LogMessage.new level trade.logBytes timestampNs threadId =
    message at *
  have unbroken : '\n' ∉ message.text := by
    rw [text, trade.logMsg_eq.1]
    intro member
    rcases mem_print member with literal | digit | minus
    · rw [tradePieces] at literal
      revert literal
      decide
    · cases digit
    · cases minus
  have line := (message.unbrokenLine_iff calendar).mpr unbroken
  have reads : readTradeLine (message.unbrokenLine localtime) =
      some trade.logged := by
    rw [readTradeLine, readLine_unbrokenLine calendar, Option.bind_some]
    change readTrade message.text = _
    rw [text, readTrade_logMsg]
  rw [tradesIn, message.logLine_eq_append, splitLines_append line,
    List.filterMap_cons_some reads]
  rfl

end Messages

end TradingMatcher

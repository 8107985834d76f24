import TradingMatcher.AsyncLogger
import TradingMatcher.Matcher
import TradingMatcher.PrintFormat

/-!
# The lines of the log

A message becomes a line with its level, its time and its thread; the matcher's
messages have a format of their own.  Reading the lines gives the messages back
as long as none of them has a line break in it.
-/

namespace TradingMatcher

open PrintFormat

/-- The broken-down time, as `localtime` gives it. -/
structure Tm where
  tmYear : Int
  tmMon : Int
  tmMday : Int
  tmHour : Int
  tmMin : Int
  tmSec : Int
  deriving DecidableEq

namespace Tm

/-- The integers of a printed time. -/
def printed (tm : Tm) : List Int :=
  [tm.tmYear + 1900, tm.tmMon + 1, tm.tmMday, tm.tmHour, tm.tmMin, tm.tmSec]

/-- The fields are in their ranges, in a year of at most four digits. -/
structure InRange (tm : Tm) : Prop where
  year : -1900 ≤ tm.tmYear ∧ tm.tmYear < 8100
  mon : 0 ≤ tm.tmMon ∧ tm.tmMon < 12
  mday : 1 ≤ tm.tmMday ∧ tm.tmMday ≤ 31
  hour : 0 ≤ tm.tmHour ∧ tm.tmHour < 24
  min : 0 ≤ tm.tmMin ∧ tm.tmMin < 60
  sec : 0 ≤ tm.tmSec ∧ tm.tmSec ≤ 60

end Tm

/-- `localtime` gives times in their ranges, for the seconds that a number of
nanoseconds can have. -/
def InCalendar (localtime : Int → Tm) : Prop :=
  ∀ seconds : Int, seconds.natAbs ≤ 9223372036 → (localtime seconds).InRange

namespace LogLevel

/-- Convert log level to string. -/
def levelToString : LogLevel → String
  | trace => "TRACE"
  | debug => "DEBUG"
  | info => "INFO "
  | warn => "WARN "
  | error => "ERROR"
  | fatal => "FATAL"

def levels : List LogLevel := [trace, debug, info, warn, error, fatal]

/-- The level that a text begins with, and what follows it. -/
def read (text : List Char) : Option (LogLevel × List Char) :=
  (levels.find? fun level =>
    level.levelToString.toList = text.take 5).map (·, text.drop 5)

theorem read_append (level : LogLevel) (rest : List Char) :
    read (level.levelToString.toList ++ rest) = some (level, rest) := by
  cases level <;> rfl

theorem read_suffix {text rest : List Char} {level : LogLevel}
    (reads : read text = some (level, rest)) : rest <:+ text := by
  obtain ⟨_, -, same⟩ := Option.map_eq_some_iff.mp reads
  obtain ⟨rfl, rfl⟩ := Prod.mk.inj same
  exact List.drop_suffix 5 text

end LogLevel

def timestampFormat : String := "%04d-%02d-%02d %02d:%02d:%02d.%09ld"

/-- Whole seconds and nanoseconds of a timestamp; both divisions truncate. -/
def seconds (ns : Timestamp) : Timestamp := ns / 1000000000

def nanos (ns : Timestamp) : Timestamp := ns % 1000000000

/-- Format a timestamp into a buffer of 64 bytes. -/
def formatTimestamp (localtime : Int → Tm) (ns : Timestamp) : List Char :=
  snprintf 64 timestampFormat
    ((localtime (seconds ns).toInt).printed ++ [(nanos ns).toInt])

namespace LogMessage

/-- The text as characters of one byte. -/
def text (message : LogMessage) : List Char :=
  message.message.map Char.ofUInt8

/-- The line that `writeLogMessage` writes. -/
def logLine (localtime : Int → Tm) (message : LogMessage) : List Char :=
  ['['] ++ message.level.levelToString.toList ++ [']', ' ', '['] ++
    formatTimestamp localtime message.timestampNs ++ [']', ' ', '[', 'T'] ++
    decimal 0 message.threadId.toNat ++ [']', ' '] ++ message.text ++ ['\n']

end LogMessage

/-- What a log file holds after the messages have been written to it. -/
def logText (localtime : Int → Tm) (messages : List LogMessage) : List Char :=
  messages.flatMap (LogMessage.logLine localtime)

/-- What a line says. -/
structure LogEntry where
  level : LogLevel
  time : Tm
  nanos : Int
  threadId : Int
  text : List Char
  deriving DecidableEq

/-- What the line of a message is to say. -/
def LogMessage.entry (localtime : Int → Tm) (message : LogMessage) :
    LogEntry where
  level := message.level
  time := localtime (seconds message.timestampNs).toInt
  nanos := (TradingMatcher.nanos message.timestampNs).toInt
  threadId := message.threadId.toNat
  text := message.text

/-- The format of a line between its level and its text. -/
def entryFormat : String := "] [" ++ timestampFormat ++ "] [T%u] "

/-- Read a line without its line break. -/
def readLine (line : List Char) : Option LogEntry := do
  let (_, line) ← scan [.literal '['] line
  let (level, line) ← LogLevel.read line
  let (integers, text) ← scan (pieces .literals entryFormat.toList) line
  match integers with
  | [year, mon, mday, hour, min, sec, nanos, threadId] =>
      return ⟨level, ⟨year - 1900, mon - 1, mday, hour, min, sec⟩, nanos,
        threadId, text⟩
  | _ => none

/-- The lines of a text, and what follows the last line break. -/
def splitLines : List Char → List (List Char) × List Char
  | [] => ([], [])
  | char :: text =>
      let later := splitLines text
      if char = '\n' then ([] :: later.1, later.2)
      else match later.1 with
        | [] => ([], char :: later.2)
        | line :: lines => ((char :: line) :: lines, later.2)

/-- Read the lines of a log file. -/
def readLog (text : List Char) : Option (List LogEntry) :=
  (splitLines text).1.mapM readLine

theorem exists_of_mem_mapM {First Second : Type*} {read : First → Option Second}
    {items : List First} {results : List Second}
    (reads : items.mapM read = some results) {result : Second}
    (member : result ∈ results) : ∃ item ∈ items, read item = some result := by
  induction items generalizing results with
  | nil =>
      obtain rfl := Option.some.inj reads
      cases member
  | cons item items ih =>
      simp only [List.mapM_cons, Option.bind_eq_bind, Option.bind_eq_some_iff]
        at reads
      obtain ⟨first, firstRead, later, laterRead, built⟩ := reads
      obtain rfl := Option.some.inj built
      rcases List.mem_cons.mp member with rfl | member
      · exact ⟨item, List.mem_cons_self, firstRead⟩
      · obtain ⟨other, present, otherRead⟩ := ih laterRead member
        exact ⟨other, List.mem_cons_of_mem _ present, otherRead⟩

section Lines

variable {line text : List Char}

theorem splitLines_append (unbroken : '\n' ∉ line) :
    (splitLines (line ++ '\n' :: text)).1 = line :: (splitLines text).1 := by
  induction line with
  | nil => rfl
  | cons char line ih =>
      rw [List.mem_cons, not_or] at unbroken
      rw [List.cons_append, splitLines, if_neg (Ne.symm unbroken.1),
        ih unbroken.2]

theorem splitLines_unbroken (unbroken : '\n' ∉ text) :
    (splitLines text).1 = [] := by
  induction text with
  | nil => rfl
  | cons char text ih =>
      rw [List.mem_cons, not_or] at unbroken
      rw [splitLines, if_neg (Ne.symm unbroken.1), ih unbroken.2]

theorem ended_ne_nil (text : List Char) :
    (splitLines (text ++ ['\n'])).1 ≠ [] := by
  induction text with
  | nil => exact List.cons_ne_nil _ _
  | cons char text ih =>
      rw [List.cons_append, splitLines]
      split
      next => exact List.cons_ne_nil _ _
      next =>
        cases later : (splitLines (text ++ ['\n'])).1 with
        | nil => exact (ih later).elim
        | cons line lines => exact List.cons_ne_nil _ _

theorem splitLines_append_newline (text later : List Char) :
    (splitLines (text ++ '\n' :: later)).1 =
      (splitLines (text ++ ['\n'])).1 ++ (splitLines later).1 := by
  induction text with
  | nil => rfl
  | cons char text ih =>
      rw [List.cons_append, List.cons_append, splitLines, splitLines]
      split
      next => rw [ih, List.cons_append]
      next =>
        rw [ih]
        cases ended : (splitLines (text ++ ['\n'])).1 with
        | nil => exact (ended_ne_nil text ended).elim
        | cons line lines => rfl

/-- Text that is cut off loses lines at its end. -/
theorem splitLines_isPrefix {torn : List Char} (cut : torn <+: text) :
    (splitLines torn).1 <+: (splitLines text).1 := by
  induction torn generalizing text with
  | nil => exact List.nil_prefix
  | cons char torn ih =>
      obtain ⟨rest, rfl⟩ := cut
      have later := ih (List.prefix_append torn rest)
      rw [List.cons_append, splitLines, splitLines]
      split
      next => exact List.cons_prefix_cons.mpr ⟨rfl, later⟩
      next =>
        cases tornLines : (splitLines torn).1 with
        | nil => exact List.nil_prefix
        | cons line lines =>
            obtain ⟨more, whole⟩ := later
            rw [← whole, tornLines]
            exact ⟨more, rfl⟩

theorem line_prefix_iff {torn : List Char} :
    line ++ '\n' :: torn <+: line ++ '\n' :: text ↔ torn <+: text := by
  rw [List.prefix_append_right_inj, List.cons_prefix_cons]
  exact and_iff_right rfl

/-- Text that is cut off ends within the first line or after it. -/
theorem unfinished_or_line {torn : List Char} (unbroken : '\n' ∉ line)
    (cut : torn <+: line ++ '\n' :: text) :
    '\n' ∉ torn ∨ ∃ later, torn = line ++ '\n' :: later ∧ later <+: text := by
  induction line generalizing torn with
  | nil =>
      cases torn with
      | nil => exact .inl List.not_mem_nil
      | cons char torn =>
          obtain ⟨rfl, cutLater⟩ := List.cons_prefix_cons.mp cut
          exact .inr ⟨torn, rfl, cutLater⟩
  | cons first line ih =>
      rw [List.mem_cons, not_or] at unbroken
      cases torn with
      | nil => exact .inl List.not_mem_nil
      | cons char torn =>
          obtain ⟨rfl, cutLater⟩ := List.cons_prefix_cons.mp cut
          rcases ih unbroken.2 cutLater with unfinished | ⟨later, rfl, inText⟩
          · exact .inl (by simp [unbroken.1, unfinished])
          · exact .inr ⟨later, rfl, inText⟩

theorem unbroken_of_mem_splitLines (member : line ∈ (splitLines text).1) :
    '\n' ∉ line := by
  induction text generalizing line with
  | nil => cases member
  | cons char text ih =>
      rw [splitLines] at member
      split at member
      next =>
        rcases List.mem_cons.mp member with rfl | member
        · exact List.not_mem_nil
        · exact ih member
      next other =>
        cases later : (splitLines text).1 with
        | nil =>
            rw [later] at member
            cases member
        | cons first lines =>
            rw [later] at member ih
            rcases List.mem_cons.mp member with rfl | member
            · rw [List.mem_cons, not_or]
              exact ⟨Ne.symm other, ih List.mem_cons_self⟩
            · exact ih (List.mem_cons_of_mem _ member)

theorem readLine_unbroken {entry : LogEntry} (unbroken : '\n' ∉ line)
    (reads : readLine line = some entry) : '\n' ∉ entry.text := by
  simp only [readLine, Option.bind_eq_bind, Option.bind_eq_some_iff] at reads
  obtain ⟨⟨_, opened⟩, bracket, ⟨level, afterLevel⟩, levelRead, ⟨integers, text⟩,
    scanned, built⟩ := reads
  split at built
  next =>
    obtain rfl := Option.some.inj built
    have isSuffix := ((scan_suffix scanned).trans
      (LogLevel.read_suffix levelRead)).trans (scan_suffix bracket)
    exact fun member => unbroken (isSuffix.subset member)
  next => cases built

end Lines

section RoundTrip

variable {localtime : Int → Tm}

/-- The nanoseconds have at most nine digits and the seconds are in the range
of the calendar. -/
theorem natAbs_seconds_le (ns : Timestamp) :
    (seconds ns).toInt.natAbs ≤ 9223372036 := by
  have divided : (seconds ns).toInt = ns.toInt.tdiv 1000000000 :=
    Int64.toInt_div_of_ne_right ns 1000000000 (by decide)
  have lower := ns.le_toInt
  have upper := ns.toInt_lt
  calc
    (seconds ns).toInt.natAbs = (ns.toInt.tdiv 1000000000).natAbs :=
      congrArg Int.natAbs divided
    _ = ns.toInt.natAbs / 1000000000 := Int.natAbs_tdiv ..
    _ ≤ 2 ^ 63 / 1000000000 := Nat.div_le_div_right (by omega)

theorem natAbs_nanos_lt (ns : Timestamp) :
    (nanos ns).toInt.natAbs < 10 ^ 9 := by
  have remainder : (nanos ns).toInt = ns.toInt.tmod 1000000000 :=
    Int64.toInt_mod ns 1000000000
  calc
    (nanos ns).toInt.natAbs = (ns.toInt.tmod 1000000000).natAbs :=
      congrArg Int.natAbs remainder
    _ = ns.toInt.natAbs % 1000000000 := Int.natAbs_tmod ..
    _ < 10 ^ 9 := Nat.mod_lt _ (by decide)

theorem timestampPieces : pieces .literals timestampFormat.toList =
    [.integer 4, .literal '-', .integer 2, .literal '-', .integer 2,
      .literal ' ', .integer 2, .literal ':', .integer 2, .literal ':',
      .integer 2, .literal '.', .integer 9] := by
  decide

/-- A printed time fits into its buffer. -/
theorem formatTimestamp_eq (calendar : InCalendar localtime) (ns : Timestamp) :
    formatTimestamp localtime ns =
      print (pieces .literals timestampFormat.toList)
        ((localtime (seconds ns).toInt).printed ++ [(nanos ns).toInt]) := by
  obtain ⟨year, mon, mday, hour, min, sec⟩ :=
    calendar _ (natAbs_seconds_le ns)
  rw [formatTimestamp, snprintf]
  apply List.take_of_length_le
  generalize localtime (seconds ns).toInt = tm at *
  have twoDigits (value : Int) (small : value.natAbs < 10 ^ 2) :
      (decimal 2 value).length ≤ 3 := length_decimal_le 2 (by decide) small
  have yearLength : (decimal 4 (tm.tmYear + 1900)).length ≤ 5 :=
    length_decimal_le 4 (by decide) (by omega)
  have monLength := twoDigits (tm.tmMon + 1) (by omega)
  have mdayLength := twoDigits (tm.tmMday) (by omega)
  have hourLength := twoDigits (tm.tmHour) (by omega)
  have minLength := twoDigits (tm.tmMin) (by omega)
  have secLength := twoDigits (tm.tmSec) (by omega)
  have nanosLength : (decimal 9 (nanos ns).toInt).length ≤ 10 :=
    length_decimal_le 9 (by decide) (natAbs_nanos_lt ns)
  rw [timestampPieces, Tm.printed]
  simp only [List.cons_append, List.nil_append, print, List.length_append,
    List.length_cons, List.length_nil]
  omega

theorem entryPieces : pieces .literals entryFormat.toList =
    [.literal ']', .literal ' ', .literal '[', .integer 4, .literal '-',
      .integer 2, .literal '-', .integer 2, .literal ' ', .integer 2,
      .literal ':', .integer 2, .literal ':', .integer 2, .literal '.',
      .integer 9, .literal ']', .literal ' ', .literal '[', .literal 'T',
      .integer 0, .literal ']', .literal ' '] := by
  decide

/-- The integers of a line. -/
def LogMessage.integers (localtime : Int → Tm) (message : LogMessage) :
    List Int :=
  (localtime (seconds message.timestampNs).toInt).printed ++
    [(nanos message.timestampNs).toInt, message.threadId.toNat]

/-- The line in the order in which it is read. -/
theorem LogMessage.logLine_eq (calendar : InCalendar localtime)
    (message : LogMessage) :
    message.logLine localtime =
      print [.literal '['] [] ++ (message.level.levelToString.toList ++
        (print (pieces .literals entryFormat.toList)
          (message.integers localtime) ++ message.text)) ++ ['\n'] := by
  rw [LogMessage.logLine, formatTimestamp_eq calendar, timestampPieces,
    entryPieces, LogMessage.integers, Tm.printed]
  simp [print]

/-- What a line says before its line break. -/
def LogMessage.unbrokenLine (localtime : Int → Tm) (message : LogMessage) :
    List Char :=
  (message.logLine localtime).dropLast

theorem LogMessage.logLine_eq_append (message : LogMessage) :
    message.logLine localtime = message.unbrokenLine localtime ++ ['\n'] := by
  rw [unbrokenLine, logLine]
  exact congrArg (· ++ ['\n']) List.dropLast_concat.symm

/-- A line is read as it was meant. -/
theorem readLine_unbrokenLine (calendar : InCalendar localtime)
    (message : LogMessage) :
    readLine (message.unbrokenLine localtime) =
      some (message.entry localtime) := by
  have bracket (rest : List Char) :
      scan [.literal '['] (print [.literal '['] [] ++ rest) = some ([], rest) :=
    rfl
  have separated : Separated (pieces .literals entryFormat.toList) := by decide
  have closed : Closed (pieces .literals entryFormat.toList) message.text := by
    rw [entryPieces]
    exact nofun
  have enough : (message.integers localtime).length =
      arity (pieces .literals entryFormat.toList) := by
    rw [entryPieces]
    rfl
  rw [LogMessage.unbrokenLine, message.logLine_eq calendar, List.dropLast_concat,
    readLine, bracket]
  simp only [Option.bind_eq_bind, Option.bind_some, LogLevel.read_append,
    scan_print separated enough closed]
  simp [LogMessage.integers, Tm.printed, LogMessage.entry]

/-- A line has no line break but one from its text. -/
theorem LogMessage.unbrokenLine_iff (calendar : InCalendar localtime)
    (message : LogMessage) :
    '\n' ∉ message.unbrokenLine localtime ↔ '\n' ∉ message.text := by
  have level : '\n' ∉ message.level.levelToString.toList := by
    cases message.level <;> decide
  have printed : '\n' ∉ print (pieces .literals entryFormat.toList)
      (message.integers localtime) := by
    intro member
    rcases mem_print member with literal | digit | minus
    · rw [entryPieces] at literal
      revert literal
      decide
    · cases digit
    · cases minus
  rw [unbrokenLine, message.logLine_eq calendar, List.dropLast_concat]
  simp only [print, List.cons_append, List.nil_append, List.mem_cons,
    List.mem_append, not_or]
  exact ⟨fun unbroken => unbroken.2.2.2,
    fun unbroken => ⟨by decide, level, printed, unbroken⟩⟩

theorem logText_cons (message : LogMessage) (messages : List LogMessage) :
    logText localtime (message :: messages) =
      message.unbrokenLine localtime ++ '\n' :: logText localtime messages := by
  rw [logText, List.flatMap_cons, message.logLine_eq_append, List.append_assoc]
  rfl

/-- The first line of a file, from a message without a line break. -/
theorem readLog_cons (calendar : InCalendar localtime) {message : LogMessage}
    (unbroken : '\n' ∉ message.text) (text : List Char) :
    readLog (message.unbrokenLine localtime ++ '\n' :: text) =
      (readLog text).map (message.entry localtime :: ·) := by
  have line := (message.unbrokenLine_iff calendar).mpr unbroken
  rw [readLog, splitLines_append line, List.mapM_cons,
    readLine_unbrokenLine calendar]
  cases read : (splitLines text).1.mapM readLine <;> simp [readLog, read]

/-- The log reads back as what was written to it if, and only if, no message
has a line break in it. -/
theorem readLog_eq_iff_unbroken (calendar : InCalendar localtime)
    (messages : List LogMessage) :
    readLog (logText localtime messages) =
        some (messages.map (LogMessage.entry localtime)) ↔
      ∀ message ∈ messages, '\n' ∉ message.text := by
  constructor
  · intro reads message member
    obtain ⟨line, present, lineRead⟩ := exists_of_mem_mapM reads
      (List.mem_map.mpr ⟨message, member, rfl⟩)
    exact readLine_unbroken (unbroken_of_mem_splitLines present) lineRead
  · intro unbroken
    induction messages with
    | nil => rfl
    | cons message messages ih =>
        rw [logText_cons, readLog_cons calendar
          (unbroken message List.mem_cons_self), ih fun later member =>
            unbroken later (List.mem_cons_of_mem _ member)]
        rfl

/-- Of a file that a crash has cut off anywhere, what reads back is what the
complete lines were written from, if no message has a line break. -/
theorem readLog_torn (calendar : InCalendar localtime)
    {messages : List LogMessage}
    (unbroken : ∀ message ∈ messages, '\n' ∉ message.text)
    {torn : List Char} (cut : torn <+: logText localtime messages) :
    ∃ count, readLog torn =
        some ((messages.take count).map (LogMessage.entry localtime)) ∧
      logText localtime (messages.take count) <+: torn ∧
      ∀ more, logText localtime (messages.take more) <+: torn →
        messages.take more <+: messages.take count := by
  induction messages generalizing torn with
  | nil =>
      obtain rfl := List.prefix_nil.mp cut
      exact ⟨0, rfl, List.prefix_rfl, fun more _ => by simp⟩
  | cons message messages ih =>
      have line := (message.unbrokenLine_iff calendar).mpr
        (unbroken message List.mem_cons_self)
      have unbrokenLater : ∀ later ∈ messages, '\n' ∉ later.text :=
        fun later member => unbroken later (List.mem_cons_of_mem _ member)
      rw [logText_cons] at cut
      rcases unfinished_or_line line cut with unfinished | ⟨later, rfl, cutLater⟩
      · refine ⟨0, ?_, List.nil_prefix, fun more inTorn => ?_⟩
        · rw [readLog, splitLines_unbroken unfinished]
          rfl
        · cases more with
          | zero => exact List.prefix_rfl
          | succ more =>
              rw [List.take_succ_cons, logText_cons] at inTorn
              exact (unfinished (inTorn.subset (by simp))).elim
      · obtain ⟨count, reads, whole, most⟩ := ih unbrokenLater cutLater
        refine ⟨count + 1, ?_, ?_, fun more inTorn => ?_⟩
        · rw [readLog_cons calendar (unbroken message List.mem_cons_self),
            reads]
          rfl
        · rw [List.take_succ_cons, logText_cons, line_prefix_iff]
          exact whole
        · cases more with
          | zero => exact List.nil_prefix
          | succ more =>
              rw [List.take_succ_cons, logText_cons, line_prefix_iff] at inTorn
              exact List.cons_prefix_cons.mpr ⟨rfl, most more inTorn⟩

end RoundTrip

section FirstDay

/-- The time of day, on the first day of the epoch. -/
def firstDay (seconds : Int) : Tm :=
  ⟨70, 0, 1, seconds / 3600 % 24, seconds / 60 % 60, seconds % 60⟩

theorem firstDay_inCalendar : InCalendar firstDay := by
  intro seconds _
  constructor <;> simp only [firstDay] <;> omega

def sampleRecord : LogMessage := .new .warn [72, 105] 3723000000004 7

example : logText firstDay [sampleRecord] =
    "[WARN ] [1970-01-01 01:02:03.000000004] [T7] Hi\n".toList := by
  decide

theorem readLog_eq_iff_unbroken_broken :
    readLog (logText firstDay [sampleRecord, .new .info [72, 10] 1 7]) =
        some ([sampleRecord, .new .info [72, 10] 1 7].map
          (LogMessage.entry firstDay)) ↔
      ∀ message ∈ [sampleRecord, .new .info [72, 10] 1 7],
        '\n' ∉ message.text :=
  readLog_eq_iff_unbroken firstDay_inCalendar _

theorem readLog_torn_second :
    ∃ count, readLog ((logText firstDay [sampleRecord, sampleRecord]).take 60) =
        some (([sampleRecord, sampleRecord].take count).map
          (LogMessage.entry firstDay)) ∧
      logText firstDay ([sampleRecord, sampleRecord].take count) <+:
        (logText firstDay [sampleRecord, sampleRecord]).take 60 ∧
      ∀ more, logText firstDay ([sampleRecord, sampleRecord].take more) <+:
          (logText firstDay [sampleRecord, sampleRecord]).take 60 →
        [sampleRecord, sampleRecord].take more <+:
          [sampleRecord, sampleRecord].take count :=
  readLog_torn firstDay_inCalendar (by decide) (List.take_prefix _ _)

end FirstDay

end TradingMatcher

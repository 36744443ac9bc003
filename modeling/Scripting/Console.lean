/-!
# Output and input

Printed text goes to a sink, which may have room for a limited number of bytes only: it takes what
fits and refuses the rest. Input is a sequence of bytes that is read line by line.
-/

namespace Scripting

/-- Where printed text goes. -/
structure Sink where
  /-- Everything taken so far. -/
  taken : ByteArray
  /-- The number of bytes that the sink takes in all, if there is a limit. -/
  limit : Option Nat

namespace Sink

/-- A sink that has taken nothing yet. -/
def ofLimit (limit : Option Nat) : Sink :=
  ⟨.empty, limit⟩

/-- A sink has room for some more bytes. -/
def hasRoom (sink : Sink) (count : Nat) : Bool :=
  match sink.limit with
  | none => true
  | some limit => sink.taken.size + count ≤ limit

/-- Write bytes: all of them, or as many as fit; and whether all of them did. -/
def write (sink : Sink) (bytes : ByteArray) : Bool × Sink :=
  if sink.hasRoom bytes.size then (true, { sink with taken := sink.taken ++ bytes })
  else
    let room := sink.limit.getD 0 - sink.taken.size
    (false, { sink with taken := sink.taken ++ bytes.extract 0 room })

/-- Write a line of text. -/
def writeLine (sink : Sink) (line : String) : Bool × Sink :=
  sink.write (line.push '\n').toUTF8

end Sink

/-- The text of bytes that were cut off after some byte, with a replacement character for a
character that the cut has split. -/
def textOfCut (bytes : ByteArray) : String :=
  let cuts := (List.range 4).map fun dropped => (dropped, bytes.extract 0 (bytes.size - dropped))
  let texts := cuts.filterMap fun (dropped, kept) =>
    (String.fromUTF8? kept).map fun text =>
      if dropped = 0 then text else text.push (Char.ofNat 0xfffd)
  texts.head?.getD ""

/-- The text that a sink has taken since it had taken the given number of bytes. -/
def Sink.textSince (sink : Sink) (count : Nat) : String :=
  textOfCut (sink.taken.extract count sink.taken.size)

/-- The byte that ends a line. -/
def lineFeed : UInt8 :=
  10

/-- The byte that may stand before the end of a line and belongs to it. -/
def carriageReturn : UInt8 :=
  13

/-- Bytes up to and with the next end of a line, and the bytes after it. -/
def splitLine (bytes : List UInt8) : List UInt8 × List UInt8 :=
  let line := bytes.takeWhile (· ≠ lineFeed)
  match bytes.dropWhile (· ≠ lineFeed) with
  | [] => (line, [])
  | stop :: after => (line ++ [stop], after)

/-- A line without its end. -/
def stripLineEnd (line : List UInt8) : List UInt8 :=
  match line.reverse with
  | [] => []
  | last :: before =>
    if last = lineFeed then
      match before with
      | [] => []
      | b :: earlier => if b = carriageReturn then earlier.reverse else before.reverse
    else line

/-- The text of a line without its end, if its bytes are text at all. -/
def lineText? (line : List UInt8) : Option String :=
  String.fromUTF8? (stripLineEnd line).toByteArray

/-- What reading a line gives. -/
inductive LineRead where
  | text (line : String)
  /-- There are no more bytes. -/
  | ended
  /-- The bytes of the line are no text. -/
  | undecodable

/-- Read a line; its bytes are gone in any case. -/
def readLine (input : List UInt8) : LineRead × List UInt8 :=
  match input with
  | [] => (.ended, [])
  | _ =>
    let (line, after) := splitLine input
    match lineText? line with
    | some text => (.text text, after)
    | none => (.undecodable, after)

end Scripting

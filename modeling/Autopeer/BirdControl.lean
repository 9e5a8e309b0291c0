import Autopeer.RequestParsing

/-! The control socket of BIRD: `reload_bird_inner` reads the banner, asks for a soft
reconfiguration and reads the reply, line by line. -/
namespace Autopeer.BirdControl
open PeerData
open RequestParsing (trim)

abbrev Line := List UInt8

def newline : UInt8 := 10

def space : UInt8 := 32

section Socket

/-- The lines of a stream, each with its newline; the last may have none. -/
def lines : List UInt8 → List Line
  | [] => []
  | b :: bs =>
    if b = newline then [b] :: lines bs
    else
      match lines bs with
      | [] => [[b]]
      | line :: rest => (b :: line) :: rest

/-- What follows the bytes of a stream. -/
inductive Ending
  | closed
  | failed (error : String)
  deriving DecidableEq

structure Socket where
  /-- The error of the connect, and that of the write. -/
  connect : Option String
  write : Option String
  input : List UInt8
  ending : Ending

/-- What `read_until` returns for the next line of the stream. -/
def readUntil (ending : Ending) (line : Line) : Except String Line :=
  if line.getLast? = some newline then .ok line
  else
    match ending with
    | .closed => .ok line
    | .failed error => .error error

end Socket

section Text

/-- A character of several bytes that is not complete. -/
structure Pending where
  missing : ℕ
  low : UInt8
  high : UInt8
  value : ℕ

def replacement : Char := '\ufffd'

/-- The first byte of a character. -/
def firstByte (b : UInt8) : List Char × Option Pending :=
  if b < 0x80 then ([Char.ofNat b.toNat], none)
  else if 0xc2 ≤ b ∧ b ≤ 0xdf then ([], some ⟨1, 0x80, 0xbf, b.toNat - 0xc0⟩)
  else if 0xe0 ≤ b ∧ b ≤ 0xef then
    ([], some ⟨2, if b = 0xe0 then 0xa0 else 0x80, if b = 0xed then 0x9f else 0xbf, b.toNat - 0xe0⟩)
  else if 0xf0 ≤ b ∧ b ≤ 0xf4 then
    ([], some ⟨3, if b = 0xf0 then 0x90 else 0x80, if b = 0xf4 then 0x8f else 0xbf, b.toNat - 0xf0⟩)
  else ([replacement], none)

def decodeByte (b : UInt8) : Option Pending → List Char × Option Pending
  | none => firstByte b
  | some p =>
    if p.low ≤ b ∧ b ≤ p.high then
      let value := p.value * 64 + (b.toNat - 0x80)
      if p.missing = 1 then ([Char.ofNat value], none)
      else ([], some ⟨p.missing - 1, 0x80, 0xbf, value⟩)
    else
      let next := firstByte b
      (replacement :: next.1, next.2)

def decodeFrom (pending : Option Pending) : List UInt8 → List Char
  | [] => if pending.isSome then [replacement] else []
  | b :: bs =>
    let next := decodeByte b pending
    next.1 ++ decodeFrom next.2 bs

/-- Each maximal part that is not UTF-8 becomes one replacement character. -/
def fromUtf8Lossy (bytes : List UInt8) : String := String.ofList (decodeFrom none bytes)

end Text

section Reload

/-- The test for the last line of a reply. -/
def isFinal (bytes : Line) : Bool := bytes.length ≥ 5 && bytes[4]? == some space

/-- The code of a line is one of BIRD's error codes. -/
def isError (line : Line) : Bool :=
  let code := line.take 4
  code.head? == some 0x38 || code.head? == some 0x39

def noBanner : PeerError := .birdReload "The BIRD socket closed before it sent the banner"

def readBanner (ending : Ending) : List Line → Except PeerError (List Line)
  | [] => .error noBanner
  | line :: rest =>
    match readUntil ending line with
    | .error _ => .error noBanner
    | .ok line => if isFinal line then .ok rest else readBanner ending rest

/-- The result, and the lines that are not read. -/
def readReply (ending : Ending) (output : String) : List Line → Except PeerError Unit × List Line
  | [] =>
    match ending with
    | .closed =>
      (.error (.birdReload ("The BIRD socket closed early. Output: " ++ trim output)), [])
    | .failed error =>
      (.error (.birdReload ("BIRD socket read failed: " ++ error ++ ". Output: " ++ output)), [])
  | line :: rest =>
    match readUntil ending line with
    | .error error =>
      (.error (.birdReload ("BIRD socket read failed: " ++ error ++ ". Output: " ++ output)), rest)
    | .ok line =>
      let output := output ++ fromUtf8Lossy line
      if isFinal line then
        (if isError line then .error (.birdReload (trim output)) else .ok (), rest)
      else readReply ending output rest

/-- The result, and the bytes that are left on the socket. -/
def reloadBirdInner (socketPath : String) (s : Socket) : Except PeerError Unit × List UInt8 :=
  match s.connect with
  | some source => (.error (.birdConfigIo source socketPath), s.input)
  | none =>
    match readBanner s.ending (lines s.input) with
    | .error error => (.error error, [])
    | .ok rest =>
      match s.write with
      | some source => (.error (.birdConfigIo source socketPath), rest.flatten)
      | none =>
        let reply := readReply s.ending "" rest
        (reply.1, reply.2.flatten)

end Reload

end Autopeer.BirdControl

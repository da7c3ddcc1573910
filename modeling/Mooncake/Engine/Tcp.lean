import Mooncake.Lib.Extent
import Mooncake.Lib.Run

/-! The sessions of the TCP transport. The initiator writes a header and then the body of a `WRITE`, or reads
the body of a `READ`; the target does the opposite. Nothing goes back for a `WRITE`.

Each session has its own connection, a stream of bytes in either direction. A write is over once its bytes
are in the stream, and its handler runs at some time after that; a read is over once it has taken its bytes out
and stored them. -/
namespace Mooncake.Engine.Tcp
open Function

def kDefaultBufferSize : Nat := 65536

/-- Also the request of the session, since the header says the same. -/
structure SessionHeader where
  size : Nat
  addr : Nat
  write : Bool
deriving DecidableEq

inductive Side where
  | initiator
  | target
deriving DecidableEq

def Side.other : Side → Side
  | .initiator => .target
  | .target => .initiator

/-- What a session waits for. A write that is under way has its bytes in the stream or not yet. -/
inductive Endpoint where
  | idle
  | writingHeader (sent : Bool)
  | readingHeader
  | writing (header : SessionHeader) (total : Nat) (sent : Bool)
  | reading (header : SessionHeader) (total : Nat)
  | finished (completed : Bool)
deriving DecidableEq

/-- A session and its connection: the header while it is in the stream, the bytes on their way to each side,
and the local buffer of the initiator. -/
structure Link where
  endpoint : Side → Endpoint
  header : Option SessionHeader
  stream : Side → List UInt8
  buffer : Nat → UInt8

variable (header : SessionHeader)

def chunk (total : Nat) : Nat := min kDefaultBufferSize (header.size - total)

def writeBody (total : Nat) : Endpoint :=
  if chunk header total = 0 then .finished true else .writing header total false

def readBody (total : Nat) : Endpoint :=
  if chunk header total = 0 then .finished true else .reading header total

inductive Action where
  | initiate
  | putHeader
  | wroteHeader
  | takeHeader
  | put (side : Side)
  | wrote (side : Side)
  | take (side : Side)
  | fail (side : Side)
deriving DecidableEq

namespace Link

def start (buffer : Nat → UInt8) : Link :=
  ⟨fun side => if side = .initiator then .idle else .readingHeader, none, fun _ => [], buffer⟩

variable (l : Link)

def enter (side : Side) (e : Endpoint) : Link := { l with endpoint := update l.endpoint side e }

variable (m : Nat → UInt8)

def memory : Side → Nat → UInt8
  | .initiator => l.buffer
  | .target => m

def base : Side → Nat
  | .initiator => 0
  | .target => header.addr

def push (side : Side) (bytes : List UInt8) : Link :=
  { l with stream := update l.stream side (l.stream side ++ bytes) }

def pull (side : Side) (n : Nat) : Link :=
  { l with stream := update l.stream side ((l.stream side).drop n) }

def store (side : Side) (address : Nat) (bytes : List UInt8) : Link × (Nat → UInt8) :=
  match side with
  | .initiator => ({ l with buffer := Extent.write l.buffer address bytes }, m)
  | .target => (l, Extent.write m address bytes)

def put (side : Side) : Option Link :=
  match l.endpoint side with
  | .writing header total false =>
    some ((l.push side.other (Extent.read (l.memory m side) (base header side + total) (chunk header total))).enter side
      (.writing header total true))
  | _ => none

/-- The side takes its chunk out of the stream, as soon as all of it is there, and stores it. -/
def take (m : Nat → UInt8) (side : Side) : Option (Link × (Nat → UInt8)) :=
  match l.endpoint side with
  | .reading header total =>
    if chunk header total ≤ (l.stream side).length then
      some (((l.pull side (chunk header total)).enter side (readBody header (total + chunk header total))).store m side
        (base header side + total) ((l.stream side).take (chunk header total)))
    else none
  | _ => none

def next (request : SessionHeader) (l : Link) (m : Nat → UInt8) : Action → Option (Link × (Nat → UInt8))
  | .initiate =>
    match l.endpoint .initiator with
    | .idle => some (l.enter .initiator (.writingHeader false), m)
    | _ => none
  | .putHeader =>
    match l.endpoint .initiator with
    | .writingHeader false => some ({ l.enter .initiator (.writingHeader true) with header := some request }, m)
    | _ => none
  | .wroteHeader =>
    match l.endpoint .initiator with
    | .writingHeader true =>
      some (l.enter .initiator (if request.write then writeBody request 0 else readBody request 0), m)
    | _ => none
  | .takeHeader =>
    match l.endpoint .target, l.header with
    | .readingHeader, some header =>
      some ({ l.enter .target (if header.write then readBody header 0 else writeBody header 0) with header := none }, m)
    | _, _ => none
  | .put side => (l.put m side).map (fun l' => (l', m))
  | .wrote side =>
    match l.endpoint side with
    | .writing header total true => some (l.enter side (writeBody header (total + chunk header total)), m)
    | _ => none
  | .take side => l.take m side
  | .fail side =>
    match l.endpoint side with
    | .idle | .finished _ => none
    | _ => some (l.enter side (.finished false), m)

end Link

/-- The sessions and what is asked of each, with the buffer it starts with. -/
structure Sessions (ι : Type) where
  request : ι → SessionHeader
  buffer : ι → Nat → UInt8

structure State (ι : Type) where
  memory : Nat → UInt8
  links : ι → Link
  seen : ι → ι → Bool

namespace State
variable {ι : Type} [DecidableEq ι]

def start (c : Sessions ι) (memory : Nat → UInt8) : State ι :=
  ⟨memory, fun i => .start (c.buffer i), fun _ _ => false⟩

def succeeded (s : State ι) (i : ι) : Bool := (s.links i).endpoint .initiator == .finished true

def step (c : Sessions ι) (s : State ι) (event : ι × Action) : Option (State ι) :=
  ((s.links event.1).next (c.request event.1) s.memory event.2).map (fun r =>
    { memory := r.2
      links := update s.links event.1 r.1
      seen := if event.2 = .initiate then update s.seen event.1 s.succeeded else s.seen })

end State

end Mooncake.Engine.Tcp

import Mathlib.Algebra.Group.Nat.Defs
import Mooncake.Lib.Run
import Mooncake.Lib.Strides

/-! `RegisteredMemory` of the P2P store: the list of buffers with their reference counts, and what it registers
with the transfer engine. -/
namespace Mooncake.P2PStore

inductive Err where
  | invalidArgument
  | addressOverlapped
  | payloadOpened
  | payloadNotOpened
  | payloadNotFound
  | tooManyRetries
  | transferEngine
deriving DecidableEq

inductive Reply where
  | ok
  | error (e : Err)
  | panicked
deriving DecidableEq

structure BufferHandle where
  addr : Nat
  length : Nat
  refCount : Nat
deriving DecidableEq

def uintptr (n : Nat) : Nat := n % 2 ^ 64

abbrev Engine : Type := Nat → Option Nat

structure Chunk where
  base : Nat
  size : Nat
deriving DecidableEq

def chunks (maxChunkSize addr length : Nat) : List Chunk :=
  (Strides.tiles length maxChunkSize 0).map (fun t => ⟨uintptr (addr + t.1), t.2⟩)

/-! ## The goroutines of `Add` -/

inductive Phase where
  | running
  | failed
  | sent
  | done
deriving DecidableEq

/-- The goroutines, each with a chunk, and the channel for the first error. -/
structure Registering where
  engine : Engine
  phase : Nat → Phase
  successfulTasks : List Nat
  sent : Bool
  closed : Bool
  panicked : Bool

namespace Registering

def start (engine : Engine) : Registering := ⟨engine, fun _ => .running, [], false, false, false⟩

def enter (g : Registering) (k : Nat) (phase : Phase) : Registering :=
  { g with phase := Function.update g.phase k phase }

def advance (chunks : List Chunk) (succeeds : Nat → Bool) (g : Registering) (k : Nat) : Option Registering :=
  if g.panicked then none
  else
    match chunks[k]? with
    | none => none
    | some chunk =>
      match g.phase k with
      | .running =>
        if succeeds k then
          some ({ g with
            engine := Function.update g.engine chunk.base (some chunk.size)
            successfulTasks := g.successfulTasks ++ [chunk.base] }.enter k .done)
        else some (g.enter k .failed)
      | .failed =>
        -- sending on a closed channel panics also with a default case
        if g.closed then some { g with panicked := true }
        else if g.sent then some (g.enter k .done)
        else some ({ g with sent := true }.enter k .sent)
      | .sent => if g.closed then some { g with panicked := true } else some ({ g with closed := true }.enter k .done)
      | .done => none

end Registering

/-- What the engine and the scheduler do in a call: whether it registers the chunk with this number, whether it
unregisters what starts at this address, and the order in which the goroutines go on. -/
structure Conduct where
  registers : Nat → Bool
  unregisters : Nat → Bool
  schedule : List Nat

def unregister (conduct : Conduct) (engine : Engine) (base : Nat) : Engine :=
  if conduct.unregisters base then Function.update engine base none else engine

/-- From the first goroutine to the last, then `close(errChan)`. There is no reply while a goroutine is not
done. -/
def registerChunks (conduct : Conduct) (engine : Engine) (chunks : List Chunk) : Option (Reply × Engine) :=
  match Run.run (Registering.advance chunks conduct.registers) (.start engine) conduct.schedule with
  | none => none
  | some g =>
    if g.panicked then some (.panicked, g.engine)
    else if (List.range chunks.length).all (fun k => g.phase k = .done) then
      if g.closed then some (.panicked, g.engine)
      else if g.sent then some (.error .transferEngine, g.successfulTasks.foldl (unregister conduct) g.engine)
      else some (.ok, g.engine)
    else none

/-! ## `Add` and `Remove` -/

def BufferHandle.isFor (entry : BufferHandle) (addr length : Nat) : Bool := entry.addr = addr ∧ entry.length = length

def BufferHandle.overlaps (entry : BufferHandle) (addr length : Nat) : Bool :=
  addr < uintptr (entry.addr + entry.length) ∧ entry.addr < uintptr (addr + length)

structure RegisteredMemory where
  engine : Engine
  bufferList : List BufferHandle

namespace RegisteredMemory

def checkShardSize (maxChunkSize maxShardSize : Nat) : Reply :=
  if maxChunkSize = 0 then .error .invalidArgument
  else if maxShardSize = 0 then .panicked
  else if maxChunkSize % maxShardSize ≠ 0 then .error .invalidArgument
  else .ok

def count (addr length : Nat) : List BufferHandle → Except Err (Option (List BufferHandle))
  | [] => .ok none
  | entry :: rest =>
    if entry.isFor addr length then .ok (some ({ entry with refCount := entry.refCount + 1 } :: rest))
    else if entry.overlaps addr length then .error .addressOverlapped
    else (count addr length rest).map (Option.map (entry :: ·))

def add (maxChunkSize addr length maxShardSize : Nat) (conduct : Conduct) (memory : RegisteredMemory) :
    Option (Reply × RegisteredMemory) :=
  match checkShardSize maxChunkSize maxShardSize with
  | .ok =>
    match count addr length memory.bufferList with
    | .error e => some (.error e, memory)
    | .ok (some bufferList) => some (.ok, { memory with bufferList := bufferList })
    | .ok none =>
      (registerChunks conduct memory.engine (chunks maxChunkSize addr length)).map fun (reply, engine) =>
        (reply, ⟨engine, memory.bufferList ++ [⟨addr, length, 1⟩]⟩)
  | reply => some (reply, memory)

/-- The loop of `Remove` and whether it found the buffer. The range loop counts down in its copy of the entry,
so the one in the list keeps its count. -/
def uncount (addr length : Nat) : List BufferHandle → Bool × List BufferHandle
  | [] => (false, [])
  | entry :: rest =>
    if entry.isFor addr length then
      if entry.refCount - 1 = 0 then (true, rest) else (true, entry :: (uncount addr length rest).2)
    else ((uncount addr length rest).1, entry :: (uncount addr length rest).2)

def remove (maxChunkSize addr length maxShardSize : Nat) (conduct : Conduct) (memory : RegisteredMemory) :
    Reply × RegisteredMemory :=
  match checkShardSize maxChunkSize maxShardSize with
  | .ok =>
    match uncount addr length memory.bufferList with
    | (false, bufferList) => (.error .invalidArgument, { memory with bufferList := bufferList })
    | (true, bufferList) =>
      let bases := (chunks maxChunkSize addr length).map Chunk.base
      (if bases.all conduct.unregisters then .ok else .error .transferEngine,
        ⟨bases.foldl (unregister conduct) memory.engine, bufferList⟩)
  | reply => (reply, memory)

end RegisteredMemory

end Mooncake.P2PStore

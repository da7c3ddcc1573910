import Mathlib.Algebra.Ring.Int.Defs
import Mooncake.Engine.Topology

/-! The worker pool of one RDMA device and the endpoints of that device. A slice goes from the queue of a shard
to the queue of a worker, and from there to a queue pair, where it waits for its completion; after a failure it
goes back to the queue of a worker, until it has no retry left.

What the hardware, the peers, the metadata service and the clock decide is part of the events. -/
namespace Mooncake.Engine.WorkerPool
open Function

def kShardCount : Nat := 8

def makeNicPath (serverName nicName : String) : String := serverName ++ "@" ++ nicName

structure Request where
  targetId : Nat
  destAddr : Nat
  length : Nat
  maxRetryCnt : Nat

/-- The limits, the hint for the selection of the remote device, and the requests of all slices. -/
structure Config where
  workersPerCtx : Nat
  numQpPerEp : Nat
  maxWr : Nat
  maxCqe : Nat
  maxEpPerCtx : Nat
  cqCount : Nat
  hint : String
  request : Nat → Request

inductive SliceStatus where
  | pending
  | posted
  | success
  | failed
deriving DecidableEq

/-- `qpDepth` points to the counter of a queue pair of an endpoint. The last two fields are history: whether the
slice has been handed over, and how often it has been marked. -/
structure Slice where
  status : SliceStatus
  retryCnt : Nat
  peerNicPath : String
  qpDepth : Option (Nat × Nat)
  handed : Bool
  marks : Nat

abbrev Queue : Type := Table String (List Nat)

structure Shard where
  queue : Queue
  count : Nat

structure Qp where
  posted : List Nat
  wrDepth : Int
deriving DecidableEq

structure EndPoint where
  peerNicPath : String
  connected : Bool
  active : Bool
  cq : Nat
  qps : List Qp

def EndPoint.hasOutstandingSlice (ep : EndPoint) : Bool := ep.active || ep.qps.any (·.wrDepth != 0)

/-- `SIEVEEndpointStore`. Every path in the map has the endpoint and whether it was visited; the hand stands at
a path of the list. -/
structure EndpointStore where
  endpointMap : Table String (Nat × Bool)
  fifoList : List String
  hand : Option String
  waitingList : List Nat

/-- The handshake daemon in `RdmaTransport::onSetupRdmaConnections`: after the deletion of the endpoint, and
with the endpoint it has got from the store. -/
inductive Daemon where
  | idle
  | deleted (path : String)
  | found (endpoint : Nat)

structure World where
  slices : Nat → Slice
  sliceQueue : Table Nat Shard
  collectiveSliceQueue : Table Nat Queue
  redispatchCounter : Nat
  tlRedispatchCounter : Nat → Nat
  submittedSliceCount : Nat
  processedSliceCount : Nat
  successNrPolls : Nat
  failedNrPolls : Nat
  contextActive : Bool
  endpoints : Table Nat EndPoint
  nextEndpoint : Nat
  nextCq : Nat
  store : EndpointStore
  cqOutstanding : Nat → Int
  daemon : Daemon

/-! ## The endpoint store -/

namespace EndpointStore

def prev (l : List String) (path : String) : Option String :=
  if l.idxOf path = 0 then none else l[l.idxOf path - 1]?

/-- The search for the victim. After one round no path is marked as visited, so that the fuel is enough. -/
def sieve : Nat → EndpointStore → String → EndpointStore × String
  | 0, s, path => (s, path)
  | fuel + 1, s, path =>
    match s.endpointMap.lookup path with
    | some (id, true) =>
      sieve fuel { s with endpointMap := s.endpointMap.insert path (id, false) }
        ((prev s.fifoList path).getD (s.fifoList.getLast?.getD path))
    | _ => (s, path)

def unlink (s : EndpointStore) (path : String) (hand : Option String) : EndpointStore :=
  { s with endpointMap := s.endpointMap.erase path, fifoList := s.fifoList.erase path, hand := hand }

end EndpointStore

namespace World

variable (w : World)

def modifyEndpoint (id : Nat) (f : EndPoint → EndPoint) : World :=
  match w.endpoints.lookup id with
  | some ep => { w with endpoints := w.endpoints.insert id (f ep) }
  | none => w

def setActive (id : Nat) (flag : Bool) : World := w.modifyEndpoint id (fun ep => { ep with active := flag })

def deleteEndpoint (path : String) : World :=
  match w.store.endpointMap.lookup path with
  | some (id, _) =>
    let hand := if w.store.hand = some path then EndpointStore.prev w.store.fifoList path else w.store.hand
    { w with store := { w.store.unlink path hand with waitingList := id :: w.store.waitingList } }
  | none => w

def evictEndpoint : World :=
  match w.store.fifoList.getLast? with
  | none => w
  | some last =>
    let (store, victim) := w.store.sieve (w.store.fifoList.length + 1) (w.store.hand.getD last)
    let unlinked := store.unlink victim (EndpointStore.prev store.fifoList victim)
    match store.endpointMap.lookup victim with
    | some (id, _) => { w.setActive id false with store := { unlinked with waitingList := id :: store.waitingList } }
    | none => { w with store := unlinked }

def reclaimOne (id : Nat) : World :=
  match w.endpoints.lookup id with
  | some ep =>
    if ep.hasOutstandingSlice then w
    else { w with endpoints := w.endpoints.erase id, store := { w.store with waitingList := w.store.waitingList.erase id } }
  | none => w

def reclaimEndpoint : World := w.store.waitingList.foldl reclaimOne w

def evictWhile (maxSize : Nat) : Nat → World → World
  | 0, w => w
  | fuel + 1, w => if maxSize ≤ w.store.endpointMap.keys.length then evictWhile maxSize fuel w.evictEndpoint else w

def getEndpoint (path : String) : World × Option Nat :=
  match w.store.endpointMap.lookup path with
  | some (id, _) => ({ w with store :=
    { w.store with endpointMap := w.store.endpointMap.insert path (id, true) } }, some id)
  | none => (w, none)

def construct (c : Config) (w : World) (path : String) : EndPoint :=
  ⟨path, false, true, w.nextCq % c.cqCount, List.replicate c.numQpPerEp ⟨[], 0⟩⟩

def emplaceEndpoint (path : String) (ep : EndPoint) : World :=
  { w with
    endpoints := w.endpoints.insert w.nextEndpoint ep
    nextEndpoint := w.nextEndpoint + 1
    nextCq := w.nextCq + 1
    store := { w.store with
      endpointMap := w.store.endpointMap.insert path (w.nextEndpoint, true)
      fifoList := path :: w.store.fifoList } }

def insertEndpoint (c : Config) (w : World) (path : String) (constructs : Bool) : World × Option Nat :=
  if constructs then
    let evicted := evictWhile c.maxEpPerCtx w.store.endpointMap.keys.length w
    (evicted.emplaceEndpoint path (w.construct c path), some evicted.nextEndpoint)
  else (w, none)

def endpoint (c : Config) (w : World) (path : String) (constructs : Bool) : World × Option Nat :=
  if !w.contextActive || path = "" then (w, none)
  else
    match w.getEndpoint path with
    | (w', some id) => (w', some id)
    | (_, none) =>
      let (w', found) := w.insertEndpoint c path constructs
      (w'.reclaimEndpoint, found)

/-! ## Connections -/

/-- The queue pairs go to `RESET`, which drops their work requests. -/
def disconnectUnlocked (id : Nat) : World :=
  match w.endpoints.lookup id with
  | some ep =>
    { w with
      endpoints := w.endpoints.insert id { ep with connected := false, qps := ep.qps.map (fun _ => ⟨[], 0⟩) }
      cqOutstanding := update w.cqOutstanding ep.cq (w.cqOutstanding ep.cq - (ep.qps.map Qp.wrDepth).sum) }
  | none => w

end World

/-- How an attempt to connect ends: before any queue pair is touched, at one of them, or with all of them ready.
-/
inductive Setup where
  | rejected
  | failedAt (qpIndex : Nat)
  | done
deriving DecidableEq

/-- Every queue pair that is reached goes to `RESET` first. -/
def EndPoint.doSetupConnection (ep : EndPoint) : Setup → EndPoint
  | .rejected => ep
  | .failedAt qpIndex => { ep with qps := ep.qps.mapIdx (fun i qp => if i ≤ qpIndex then { qp with posted := [] } else qp) }
  | .done => { ep with connected := true, qps := ep.qps.map (fun qp => { qp with posted := [] }) }

namespace World

variable (w : World)

def connected (id : Nat) : Bool := (w.endpoints.lookup id).any EndPoint.connected

/-- `consistent` says whether the paths of the request are those of the endpoint. -/
def setupConnectionsByPassive (id : Nat) (consistent : Bool) (setup : Setup) : World :=
  let fresh := if w.connected id then w.disconnectUnlocked id else w
  if consistent then fresh.modifyEndpoint id (·.doSetupConnection setup) else fresh

def enterDaemon (daemon : Daemon) : World := { w with daemon := daemon }

/-! ## Slices -/

def modifySlice (x : Nat) (f : Slice → Slice) : World :=
  { w with slices := update w.slices x (f (w.slices x)) }

def markSuccess (x : Nat) : World :=
  w.modifySlice x (fun slice => { slice with status := .success, marks := slice.marks + 1 })

def markFailed (x : Nat) : World :=
  w.modifySlice x (fun slice => { slice with status := .failed, marks := slice.marks + 1 })

def process : World := { w with processedSliceCount := w.processedSliceCount + 1 }

def localQueue (threadId : Nat) : Queue := (w.collectiveSliceQueue.lookup threadId).getD ∅

def setLocalQueue (threadId : Nat) (queue : Queue) : World :=
  { w with collectiveSliceQueue := w.collectiveSliceQueue.insert threadId queue }

def shard (shardId : Nat) : Shard := (w.sliceQueue.lookup shardId).getD ⟨∅, 0⟩

end World

/-- What the metadata service says during a call, the targets that failed a moment ago, and random numbers. -/
structure Metadata where
  segments : Nat → Option SegmentDesc
  reloaded : Nat → Option SegmentDesc
  failedTargetIds : List Nat
  random : Nat → Nat → Nat → Nat × Nat

def route (desc : Option SegmentDesc) (r : Request) (hint : String) (retryCount : Nat) (random : Nat → Nat × Nat) :
    Option (Nat × String) :=
  desc.bind (fun desc =>
    (desc.selectDevice r.destAddr r.length hint retryCount random).map (fun selected =>
      (selected.2, makeNicPath desc.name ((desc.devices[selected.2]?).elim "" DeviceDesc.name))))

/-! ## `WorkerPool::submitPostSend` -/

structure Targets where
  segmentDescMap : Nat → Option SegmentDesc
  failedTargetIds : List Nat

namespace World

variable (c : Config)

def enqueue (w : World) (x : Nat) (device : Nat × String) : World :=
  let shardId := ((c.request x).targetId * 10007 + device.1) % kShardCount
  let shard := w.shard shardId
  { w.modifySlice x (fun slice => { slice with handed := true, peerNicPath := device.2 }) with
    sliceQueue := w.sliceQueue.insert shardId ⟨shard.queue.pushBack device.2 x, shard.count + 1⟩
    submittedSliceCount := w.submittedSliceCount + 1 }

def refuse (w : World) (x : Nat) : World :=
  (w.modifySlice x (fun slice => { slice with handed := true })).markFailed x

variable (view : Metadata)

/-- One slice. The lists of the shards and the counter are filled as the loop goes. -/
def submitSlice (s : World × Targets) (x : Nat) : World × Targets :=
  let r := c.request x
  if r.targetId ∈ s.2.failedTargetIds then (s.1.refuse x, s.2)
  else
    match route (s.2.segmentDescMap r.targetId) r c.hint 0 (view.random x 0) with
    | some device => (s.1.enqueue c x device, s.2)
    | none =>
      let targets := { s.2 with segmentDescMap := update s.2.segmentDescMap r.targetId (view.reloaded r.targetId) }
      if (view.reloaded r.targetId).isNone then
        (s.1.refuse x, { targets with failedTargetIds := r.targetId :: targets.failedTargetIds })
      else
        match route (view.reloaded r.targetId) r c.hint 0 (view.random x 1) with
        | some device => (s.1.enqueue c x device, targets)
        | none => (s.1.refuse x, targets)

def submitPostSend (w : World) (sliceList : List Nat) (view : Metadata) : World :=
  (sliceList.foldl (submitSlice c view) (w, ⟨view.segments, view.failedTargetIds⟩)).1

/-! ## `WorkerPool::performPostSend` -/

variable (threadId : Nat) (w : World)

def drainShard (shardId : Nat) : World :=
  let shard := w.shard shardId
  if shard.count = 0 then w
  else
    { w.setLocalQueue threadId (shard.queue.entries.foldl (fun queue e => queue.pushAll e.1 e.2)
      (w.localQueue threadId)) with
      sliceQueue := w.sliceQueue.insert shardId ⟨shard.queue.mapValues (fun _ => []), 0⟩ }

def shardsOf : List Nat :=
  (List.range kShardCount).filter
    (fun shardId => decide (threadId ≤ shardId) && (shardId - threadId) % c.workersPerCtx == 0)

def redispatchSlice (x : Nat) : World :=
  let r := c.request x
  let retryCnt := (w.slices x).retryCnt
  if r.maxRetryCnt ≤ retryCnt then (w.markFailed x).process
  else
    match route (view.reloaded r.targetId) r "" retryCnt (view.random x 0) with
    | none => (w.markFailed x).process
    | some device =>
      (w.modifySlice x (fun slice => { slice with peerNicPath := device.2 })).setLocalQueue threadId
        ((w.localQueue threadId).pushBack device.2 x)

def redispatch (sliceList : List Nat) : World :=
  sliceList.foldl (redispatchSlice c view threadId) w

end World

/-- What is decided at one endpoint: whether a new one can be constructed, whether it has been inactive for
long, how an attempt to connect ends, the queue pair, and how many work requests `ibv_post_send` takes. -/
structure Choice where
  constructs : Bool
  inactiveLong : Bool
  setup : Setup
  qpIndex : Nat
  accepted : Nat

namespace World

variable (w : World)

def clearEntry (threadId : Nat) (path : String) : World :=
  w.setLocalQueue threadId ((w.localQueue threadId).insert path [])

def countFailure : World :=
  { w with
    failedNrPolls := w.failedNrPolls + 1
    contextActive := w.contextActive && !(decide (32 < w.failedNrPolls + 1) && w.successNrPolls == 0) }

variable (c : Config)

def postSlices (threadId id : Nat) (path : String) (choice : Choice) (failed : List Nat) : World × List Nat :=
  match w.endpoints.lookup id with
  | none => (w, failed)
  | some ep =>
    let qpIndex := choice.qpIndex % ep.qps.length
    match ep.qps[qpIndex]? with
    | none => (w, failed)
    | some qp =>
      let sliceList := (w.localQueue threadId).listAt path
      let wrCount := (min (c.maxCqe - w.cqOutstanding ep.cq) (min (c.maxWr - qp.wrDepth) sliceList.length)).toNat
      let taken := sliceList.take wrCount
      let accepted := taken.take choice.accepted
      ({ w.setLocalQueue threadId ((w.localQueue threadId).insert path (sliceList.drop wrCount)) with
          slices := fun x =>
            if x ∈ taken then { w.slices x with status := .posted, qpDepth := some (id, qpIndex) } else w.slices x
          endpoints := w.endpoints.insert id
            { ep with qps := ep.qps.set qpIndex ⟨qp.posted ++ accepted, qp.wrDepth + accepted.length⟩ }
          cqOutstanding := update w.cqOutstanding ep.cq (w.cqOutstanding ep.cq + accepted.length) },
        failed ++ taken.drop choice.accepted)

def postEntry (threadId : Nat) (choice : String → Choice) (s : World × List Nat) (path : String) :
    World × List Nat :=
  let sliceList := (s.1.localQueue threadId).listAt path
  if sliceList.isEmpty then s
  else
    match s.1.endpoint c path (choice path).constructs with
    | (w, none) => (w.clearEntry threadId path, s.2 ++ sliceList)
    | (w, some id) =>
      if !(w.endpoints.lookup id).any EndPoint.active then
        let w' := if (choice path).inactiveLong then w.deleteEndpoint path else w
        (w'.clearEntry threadId path, s.2 ++ sliceList)
      else if w.connected id then w.postSlices c threadId id path (choice path) s.2
      else
        let w' := w.modifyEndpoint id (·.doSetupConnection (choice path).setup)
        if (choice path).setup = .done then w'.postSlices c threadId id path (choice path) s.2
        else (((w'.setActive id false).countFailure).clearEntry threadId path, s.2 ++ sliceList)

def retry (x : Nat) : World := w.modifySlice x (fun slice => { slice with retryCnt := slice.retryCnt + 1 })

def postLocal (threadId : Nat) (view : Metadata) (choice : String → Choice) : World :=
  if w.tlRedispatchCounter threadId < w.redispatchCounter then
    let clone := (w.localQueue threadId).entries.flatMap (·.2)
    let w' := { w with tlRedispatchCounter := update w.tlRedispatchCounter threadId w.redispatchCounter }
    (w'.setLocalQueue threadId ∅).redispatch c view threadId clone
  else
    let (w', failed) := (w.localQueue threadId).keys.foldl (postEntry c threadId choice) (w, [])
    (failed.foldl retry w').redispatch c view threadId failed

def performPostSend (threadId : Nat) (view : Metadata) (choice : String → Choice) : World :=
  ((shardsOf c threadId).foldl (drainShard threadId) w).postLocal c threadId view choice

end World

/-! ## `WorkerPool::performPollCq` -/

structure Completion where
  slice : Nat
  endpoint : Nat
  qpIndex : Nat
  success : Bool

namespace World

variable (c : Config) (threadId : Nat) (w : World)

def complete (e : Completion) : Option World :=
  (w.endpoints.lookup e.endpoint).bind (fun ep =>
    (ep.qps[e.qpIndex]?).bind (fun qp =>
      if e.slice ∈ qp.posted ∧ threadId ≤ ep.cq ∧ (ep.cq - threadId) % c.workersPerCtx = 0 then
        some { w with
          endpoints := w.endpoints.insert e.endpoint
            { ep with qps := ep.qps.set e.qpIndex { qp with posted := qp.posted.erase e.slice } }
          cqOutstanding := update w.cqOutstanding ep.cq (w.cqOutstanding ep.cq - 1) }
      else none))

def releaseDepth (w : World) (x : Nat) : World :=
  match (w.slices x).qpDepth with
  | some (id, qpIndex) =>
    w.modifyEndpoint id (fun ep =>
      { ep with qps := ep.qps.modify qpIndex (fun qp => { qp with wrDepth := qp.wrDepth - 1 }) })
  | none => w

def handleCompletion (x : Nat) (success : Bool) : World :=
  if success then { (w.markSuccess x).process with successNrPolls := w.successNrPolls + 1 }
  else
    let path := (w.slices x).peerNicPath
    let w' := (w.countFailure.deleteEndpoint path).retry x
    if (c.request x).maxRetryCnt ≤ (w'.slices x).retryCnt then (w'.markFailed x).process
    else
      { w'.setLocalQueue threadId ((w'.localQueue threadId).pushBack path x) with
        redispatchCounter := w'.redispatchCounter + 1 }

def pollOne (e : Completion) : Option World :=
  (w.complete c threadId e).map (fun w' => (w'.releaseDepth e.slice).handleCompletion c threadId e.slice e.success)

def performPollCq (c : Config) (threadId : Nat) : World → List Completion → Option World
  | w, [] => some w
  | w, e :: rest => (w.pollOne c threadId e).bind (fun w' => performPollCq c threadId w' rest)

end World

/-! ## Runs -/

inductive Event where
  | submitPostSend (sliceList : List Nat) (view : Metadata)
  | performPostSend (threadId : Nat) (view : Metadata) (choice : String → Choice)
  | performPollCq (threadId : Nat) (completions : List Completion)
  | onSetupRdmaConnections (path : String)
  | findEndpoint (constructs : Bool)
  | setupConnectionsByPassive (consistent : Bool) (setup : Setup)
  | deleteEndpoint (path : String)
  | evictEndpoint
  | reclaimEndpoint
  | qpFatal (endpoint : Nat)
  | deviceFatal
  | contextActive

namespace World

def storedEndpoints (w : World) : List Nat := w.store.waitingList ++ w.store.endpointMap.entries.map (fun e => e.2.1)

/-- A slice is handed over once; the events of the device are those of `monitorWorker`. The build always defines
`CONFIG_ERDMA`, so a handshake request first deletes the endpoint of its path. -/
def step (c : Config) (w : World) : Event → Option World
  | .submitPostSend sliceList view =>
    if sliceList.Nodup ∧ ∀ x ∈ sliceList,
      (w.slices x).handed = false then some (w.submitPostSend c sliceList view) else none
  | .performPostSend threadId view choice =>
    if threadId < c.workersPerCtx then some (w.performPostSend c threadId view choice) else none
  | .performPollCq threadId completions =>
    if threadId < c.workersPerCtx then w.performPollCq c threadId completions else none
  | .onSetupRdmaConnections path =>
    match w.daemon with
    | .idle => some ((w.deleteEndpoint path).enterDaemon (.deleted path))
    | _ => none
  | .findEndpoint constructs =>
    match w.daemon with
    | .deleted path =>
      match w.endpoint c path constructs with
      | (w', none) => some (w'.enterDaemon .idle)
      | (w', some id) => some (w'.enterDaemon (.found id))
    | _ => none
  | .setupConnectionsByPassive consistent setup =>
    match w.daemon with
    | .found id => some ((w.setupConnectionsByPassive id consistent setup).enterDaemon .idle)
    | _ => none
  | .deleteEndpoint path => some (w.deleteEndpoint path)
  | .evictEndpoint => some w.evictEndpoint
  | .reclaimEndpoint => some w.reclaimEndpoint
  | .qpFatal endpoint => some (w.setActive endpoint false)
  | .deviceFatal => some (w.storedEndpoints.foldl disconnectUnlocked { w with contextActive := false })
  | .contextActive => some { w with contextActive := true }

def start (retryCnt : Nat → Nat) : World where
  slices := fun x => ⟨.pending, retryCnt x, "", none, false, 0⟩
  sliceQueue := ∅
  collectiveSliceQueue := ∅
  redispatchCounter := 0
  tlRedispatchCounter := fun _ => 0
  submittedSliceCount := 0
  processedSliceCount := 0
  successNrPolls := 0
  failedNrPolls := 0
  contextActive := true
  endpoints := ∅
  nextEndpoint := 0
  nextCq := 0
  store := ⟨∅, [], none, []⟩
  cqOutstanding := fun _ => 0
  daemon := .idle

end World

end Mooncake.Engine.WorkerPool

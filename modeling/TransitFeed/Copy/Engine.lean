import TransitFeed.Copy.IdMap
import TransitFeed.Copy.Options
import TransitFeed.Copy.Report
import TransitFeed.Feed.Check
import TransitFeed.Feed.Keys
import TransitFeed.Feed.TripSequence
import TransitFeed.Feed.Error
import TransitFeed.Stage.Pipeline

/-!
# Copying a feed

A copy takes the collections of a source in order, parents before the records that
refer to them. Every record goes through the stages, then its checks: a record with
problems is dropped (unless problems are allowed, when they count as warnings), and a
stop whose parent station was not copied yet waits until the end of its collection.
Its references are then remapped to the identifiers the destination gave to what
was copied, and it is written. An unresolved reference drops the record.

Stop times are read per batch of copied trips, sorted and checked trip by trip, and
written per batch; the stop times of trips that were not copied are then dropped, each
with a reference problem. With `failFast`, the first problem ends the copy instead.

Sources hand out streams: the items of a collection, a row that could not be read being
a problem instead of a record, and possibly an error met after the last item. The
reading runs ahead of the copy by at most the buffer size, so an error of the copy ends
it before the stream's own error only when that error lies further ahead.
-/

namespace TransitFeed

/-- The items of a collection as a source hands them out. -/
structure Stream where
  items : List (Except Issue Record)
  /-- An error met after the last item. -/
  failure : Option FeedError := none
  deriving Inhabited

/-- Where records come from. -/
structure Source where
  /-- The stream of a collection, `none` when the source does not have it. -/
  read : Kind → Except FeedError (Option Stream)
  /-- The stop times of the given trips, in source order. -/
  stopTimesOf : List String → Except FeedError (Option Stream)
  /-- The stop times of every other trip, in source order. -/
  stopTimesNotOf : List String → Except FeedError (Option Stream)

/-- Where records go: a destination of state `σ`. -/
structure Sink (σ : Type) where
  /-- Writes a record whose references are remapped and gives its new identifier. -/
  add : σ → Record → Except FeedError (σ × String)
  /-- Writes several records and gives their new identifiers. -/
  addAll : σ → List Record → Except FeedError (σ × List String)

/-- The state of a copy in progress. -/
structure Run (σ : Type) where
  store : σ
  map : IdMap
  pipeline : Pipeline
  options : CopyOptions
  reports : List CollectionReport := []

/-- A step of a copy, which may end it with an error. -/
abbrev Copying (σ : Type) := ExceptT FeedError (StateM (Run σ))

/-- What becomes of a record once checked. -/
inductive Prepared where
  | ready (r : Record)
  | deferred (r : Record)
  | rejected

namespace Copying

variable {σ : Type}

/-- Changes the report of a collection, creating it in collection order. -/
def updateReport (k : Kind) (f : CollectionReport → CollectionReport) :
    List CollectionReport → List CollectionReport
  | [] => [f { kind := k }]
  | c :: rest =>
    if c.kind = k then f c :: rest
    else if k.index < c.kind.index then f { kind := k } :: c :: rest
    else c :: updateReport k f rest

/-- Changes the report of a collection. -/
def report (k : Kind) (f : CollectionReport → CollectionReport) : Copying σ Unit :=
  modify fun r => { r with reports := updateReport k f r.reports }

/-- Counts a read item. -/
def countRead (k : Kind) : Copying σ Unit := report k fun c => { c with read := c.read + 1 }

/-- Records warnings of a collection. -/
def warn (k : Kind) (ws : List Issue) : Copying σ Unit := do
  let limit := (← get).options.errorLimit
  report k fun c => ws.foldl (fun c w => c.addWarning w limit) c

/-- Records the problems of records that are not copied, or ends the copy with the first
one under `failFast`. -/
def reject (k : Kind) (errors : List Issue) (dropped : Nat) : Copying σ Unit := do
  let run ← get
  if run.options.failFast then
    match errors with
    | e :: _ => throw (.entity k.fileName e)
    | [] => return
  else
    let limit := run.options.errorLimit
    report k fun c =>
      errors.foldl (fun c e => c.addError e limit) { c with dropped := c.dropped + dropped }

/-- Whether a stop waits for its parent station. -/
def waitsForParent (m : IdMap) (r : Record) : Bool :=
  r.kind = .stop &&
    match r.cell "parent_station" with
    | some (.text p) => !p.isEmpty && !m.contains Kind.stop.fileName p
    | _ => false

/-- Checks a record, and remaps its references unless it waits for its parent. -/
def prepare (r : Record) (canDefer : Bool) : Copying σ Prepared := do
  let run ← get
  let errors := r.errors
  let warnings := r.warnings
  if !errors.isEmpty && !run.options.allowEntityErrors then
    reject r.kind errors 1
    return .rejected
  let warnings := warnings ++ errors
  if canDefer && waitsForParent run.map r then return .deferred r
  match r.updateKeys (fun k old => run.map.get? k.fileName old) with
  | .error i =>
    reject r.kind [i.atLine r.line] 1
    return .rejected
  | .ok r' =>
    warn r.kind warnings
    return .ready r'

/-- The position of a stop, if both coordinates are given. -/
def stopPoint (r : Record) : Option Point :=
  match r.real? "stop_lon", r.real? "stop_lat" with
  | some lon, some lat => some (lon, lat)
  | _, _ => none

/-- Notes a written record in the identifier map, with its geometry. -/
def note (r : Record) (oldId newId : String) : Copying σ Unit := do
  let k := r.kind
  let collection := k.fileName
  let continueWithId ← do
    match k with
    | .stop =>
      match stopPoint r with
      | some p => modify fun run => { run with map := run.map.addStopPoint oldId p }
      | none => pure ()
      pure true
    | .shape =>
      let sequence := ((r.int? "shape_pt_sequence").getD 0).toNat
      let p : Point := ((r.real? "shape_pt_lon").getD 0, (r.real? "shape_pt_lat").getD 0)
      let (m, unique) := (← get).map.addShapePoint oldId sequence p
      modify fun run => { run with map := m }
      if !unique then
        warn k [(Issue.warning (some "shape_pt_sequence")
          s!"duplicate shape_pt_sequence {sequence} in shape '{oldId}'").atLine r.line]
      pure (!m.contains collection oldId)
    | _ => pure true
  if !continueWithId then return
  if oldId.isEmpty && k != .agency then return
  match k.idColumn? with
  | none => return
  | some column =>
    if (← get).map.contains collection oldId then
      warn k [(Issue.warning (some column) s!"duplicate identifier '{oldId}'").atLine r.line]
    modify fun run => { run with map := run.map.set collection oldId newId }

/-- Writes a record and notes it. -/
def write (sink : Sink σ) (r : Record) (oldId : String) : Copying σ Unit := do
  let run ← get
  match sink.add run.store r with
  | .error e => throw e
  | .ok (store, newId) =>
    set { run with store := store }
    note r oldId newId
    report r.kind fun c => { c with written := c.written + 1 }

/-- Runs every stage filter on a record. -/
def filterStages (r : Record) : Copying σ Record := do
  let run ← get
  let (p, r) := run.pipeline.filter run.map r
  set { run with pipeline := p }
  return r

/-- Runs every stage expansion on a record. -/
def expandStages (r : Record) : Copying σ (List Record) := do
  let run ← get
  let (p, rs) := run.pipeline.expand run.map r
  set { run with pipeline := p }
  return rs

/-- Prepares and writes the records a source record became; stops waiting for their parent
are given back with their source identifier. -/
def settle (sink : Sink σ) (kind : Kind) (oldId filteredId : String) :
    List Record → Copying σ (List (Record × String))
  | [] => return []
  | out :: rest => do
    let sourceId := if out.kind = kind && out.entityId == filteredId then oldId else out.entityId
    let waiting ← do
      match ← prepare out true with
      | .ready e => write sink e sourceId; pure []
      | .deferred e => pure [(e, sourceId)]
      | .rejected => pure []
    return waiting ++ (← settle sink kind oldId filteredId rest)

/-- Copies one record of a collection other than stop times. -/
def process (sink : Sink σ) (r : Record) : Copying σ (List (Record × String)) := do
  let oldId := r.entityId
  let r ← filterStages r
  let outputs ← expandStages r
  settle sink r.kind oldId r.entityId outputs

/-- Prepares the waiting stops again and writes those that are ready. -/
def retryOnce (sink : Sink σ) : List (Record × String) → Copying σ (List (Record × String))
  | [] => return []
  | (e, oldId) :: rest => do
    let waiting ← do
      match ← prepare e true with
      | .ready e => write sink e oldId; pure []
      | .deferred e => pure [(e, oldId)]
      | .rejected => pure []
    return waiting ++ (← retryOnce sink rest)

/-- Retries the waiting stops until none moves, then copies the rest without waiting, so
that they fail on their unresolved parent. -/
def retryDeferred (sink : Sink σ) (deferred : List (Record × String)) : Copying σ Unit := do
  let left ← loop deferred (deferred.length + 1)
  for (e, oldId) in left do
    match ← prepare e false with
    | .ready e => write sink e oldId
    | _ => pure ()
where
  loop (deferred : List (Record × String)) : Nat → Copying σ (List (Record × String))
    | 0 => return deferred
    | fuel + 1 => do
      if deferred.isEmpty then return deferred
      let pending ← retryOnce sink deferred
      if pending.isEmpty || pending.length == deferred.length then return pending
      loop pending fuel

/-- Runs a step for an item of a stream; an error of the step gives way to the stream's
own error when the reading had already reached it. -/
def guarded (s : Stream) (position : Nat) (step : Copying σ α) : Copying σ α :=
  tryCatch step fun e => do
    match s.failure with
    | some f =>
      if s.items.length ≤ position + Nat.max 1 (← get).options.bufferSize then throw f
      else throw e
    | none => throw e

/-- Ends with the stream's own error, if it has one. -/
def finish (s : Stream) : Copying σ Unit :=
  match s.failure with
  | some f => throw f
  | none => return

/-- Copies the items of a collection's stream, returning the stops that wait. -/
def copyItems (sink : Sink σ) (k : Kind) (s : Stream) :
    Nat → List (Except Issue Record) → Copying σ (List (Record × String))
  | _, [] => return []
  | i, item :: rest => do
    countRead k
    let waiting ← guarded s (i + 1) do
      match item with
      | .ok r => process sink r
      | .error issue => reject k [issue] 1; pure []
    return waiting ++ (← copyItems sink k s (i + 1) rest)

/-- Copies a collection other than stop times. -/
def copyCollection (source : Source) (sink : Sink σ) (k : Kind) : Copying σ Unit := do
  match source.read k with
  | .error e => throw e
  | .ok none => return
  | .ok (some s) =>
    let waiting ← copyItems sink k s 0 s.items
    finish s
    retryDeferred sink waiting

/-- The problem of a record of another kind among stop times. -/
def strayIssue (r : Record) : Issue := Issue.row s!"{r.kind.fileName} found among stop times"

/-- Copies one stop time, or what the stages made of it; stop times join the batch. -/
def processStopTime (sink : Sink σ) (r : Record) : Copying σ (List Record) := do
  let r ← filterStages r
  let outputs ← expandStages r
  let mut batch := []
  for out in outputs do
    match ← prepare out false with
    | .ready e =>
      if e.kind = .stopTime then batch := batch ++ [e]
      else write sink e out.entityId
    | _ => pure ()
  return batch

/-- Writes a batch of stop times. -/
def flush (sink : Sink σ) (batch : List Record) : Copying σ Unit := do
  if batch.isEmpty then return
  let run ← get
  match sink.addAll run.store batch with
  | .error e => throw e
  | .ok (store, ids) =>
    set { run with store := store }
    report .stopTime fun c => { c with written := c.written + ids.length }

/-- Copies the stop times of one trip, sorted, adding them to the batch. -/
def copyTrip (sink : Sink σ) (batchSize : Nat) (sts : List Record) (batch : List Record) :
    Copying σ (List Record) := do
  let (sorted, errors) := validateStopTimes sts
  if !errors.isEmpty then
    if !(← get).options.allowEntityErrors then
      reject .stopTime errors sorted.length
      return batch
    warn .stopTime errors
  let mut batch := batch
  for st in sorted do
    batch := batch ++ (← processStopTime sink st)
    if batch.length ≥ batchSize then
      flush sink batch
      batch := []
  return batch

/-- Groups stop times by trip, in source order, and lists the other items as problems. -/
def groupByTrip : List (Except Issue Record) → List (String × List Record) × List Issue
  | [] => ([], [])
  | item :: rest =>
    let (groups, problems) := groupByTrip rest
    match item with
    | .ok r =>
      if r.kind = .stopTime then
        let trip := r.str "trip_id"
        match groups.lookup trip with
        | some sts => (groups.map fun (t, g) => if t == trip then (t, r :: sts) else (t, g), problems)
        | none => ((trip, [r]) :: groups, problems)
      else (groups, strayIssue r :: problems)
    | .error i => (groups, i :: problems)

/-- Splits a list into chunks of a size. -/
def chunks (size : Nat) (xs : List String) : List (List String) :=
  go xs (xs.length + 1)
where
  go (xs : List String) : Nat → List (List String)
    | 0 => []
    | fuel + 1 => if xs.isEmpty then [] else xs.take size :: go (xs.drop size) fuel

/-- Drops the stop times of trips that were not copied, one reference problem each. -/
def rejectOrphans (source : Source) (tripIds : List String) : Copying σ Unit := do
  match source.stopTimesNotOf tripIds with
  | .error e => throw e
  | .ok none => return
  | .ok (some s) =>
    for (item, i) in s.items.zipIdx do
      countRead .stopTime
      let issue := match item with
        | .ok r =>
          if r.kind = .stopTime then
            (Issue.reference "trip_id" (r.str "trip_id") Kind.trip.fileName).atLine r.line
          else strayIssue r
        | .error i => i
      guarded s (i + 1) (reject .stopTime [issue] 1)
    finish s

/-- Copies the stop times of one batch of trips; `false` when the source has none. -/
def copyChunk (source : Source) (sink : Sink σ) (batchSize : Nat) (chunk : List String) :
    Copying σ Bool := do
  match source.stopTimesOf chunk with
  | .error e => throw e
  | .ok none => return false
  | .ok (some s) =>
    for _ in s.items do countRead .stopTime
    finish s
    let (groups, problems) := groupByTrip s.items
    for p in problems do reject .stopTime [p] 1
    let mut batch := []
    for trip in chunk do
      match groups.lookup trip with
      | some sts => batch ← copyTrip sink batchSize sts batch
      | none => pure ()
    flush sink batch
    return true

/-- Copies the stop times of the copied trips, then drops the others. -/
def copyStopTimes (source : Source) (sink : Sink σ) : Copying σ Unit := do
  let run ← get
  let tripIds := run.map.keysFor Kind.trip.fileName
  let batchSize := Nat.max 1 run.options.batchSize
  for chunk in chunks batchSize tripIds do
    if !(← copyChunk source sink batchSize chunk) then return
  rejectOrphans source tripIds

/-- Copies every collection in order. -/
def copyAll (source : Source) (sink : Sink σ) : Copying σ Unit := do
  for k in Kind.all do
    if k = .stopTime then copyStopTimes source sink
    else copyCollection source sink k

end Copying

/-- Copies a source into a destination of state `store`, starting from an identifier map,
with stages and options; `cancelled` stops the copy before it starts. Gives the outcome
or the error that ended the copy, with the final state either way. -/
def copyFeed (source : Source) (sink : Sink σ) (store : σ) (map : IdMap) (pipeline : Pipeline)
    (options : CopyOptions) (cancelled : Bool := false) : Except FeedError CopyResult × Run σ :=
  let start : Run σ := { store, map, pipeline, options }
  if cancelled then (.ok { status := .cancelled, collections := [] }, start)
  else
    let (outcome, run) := (ExceptT.run (Copying.copyAll source sink)).run start
    (outcome.map fun () => { status := .completed, collections := run.reports }, run)

end TransitFeed

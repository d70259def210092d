import TransitFeed.Stage.Redate
import TransitFeed.Stage.Rename
import TransitFeed.Stage.Agency
import TransitFeed.Stage.Create
import TransitFeed.Stage.Distance

/-!
# Stage pipelines

Stages run on every record before its references are remapped, so they see the
identifiers of the source feed. A stage may change a record in place (its filter) and
replace it with other records (its expansion), and keeps state from one record to the
next. A pipeline runs every filter in order, then every expansion in order: the records a
stage's expansion gives go through the expansions of the stages after it, and a stage
that has nothing to say about a record keeps it as it is.
-/

namespace TransitFeed

/-- A transform stage with its state. -/
inductive Stage where
  | rename (p : Prefixes)
  | redate (r : Redate)
  | defaultAgency (s : AgencyDefault)
  | agencyTimezone (s : AgencyZone)
  | network (s : Created)
  | implicitService (s : Created)
  | shapeDist (w : Walk)
  deriving Inhabited

namespace Stage

/-- The name of a stage, as configurations write it. -/
def name : Stage → String
  | .rename _ => "prefix"
  | .redate _ => "redate"
  | .defaultAgency _ => "default_agency"
  | .agencyTimezone _ => "agency_timezone"
  | .network _ => "network"
  | .implicitService _ => "implicit_service"
  | .shapeDist _ => "shape_dist"

/-- Changes a record in place. -/
def filter (st : Stage) (m : IdMap) (r : Record) : Stage × Record :=
  match st with
  | .rename p => (st, p.apply r)
  | .redate d => (st, d.filter r)
  | .defaultAgency s => let (s, r) := s.apply r; (.defaultAgency s, r)
  | .agencyTimezone s => let (s, r) := s.apply r; (.agencyTimezone s, r)
  | .shapeDist w => let (w, r) := w.apply m r; (.shapeDist w, r)
  | .network _ | .implicitService _ => (st, r)

/-- Replaces a record with other records; `none` keeps it. -/
def expand (st : Stage) (m : IdMap) (r : Record) : Stage × Option (List Record) :=
  match st with
  | .redate d => (st, d.expand r)
  | .network s => let (s, out) := s.networks m r; (.network s, out)
  | .implicitService s => let (s, out) := s.services m r; (.implicitService s, out)
  | _ => (st, none)

/-- Runs a stage's expansion over records in order. -/
def expandAll (st : Stage) (m : IdMap) : List Record → Stage × List Record
  | [] => (st, [])
  | r :: rest =>
    let (st, out) := st.expand m r
    let (st, more) := expandAll st m rest
    (st, out.getD [r] ++ more)

/-- The abort of a stage's filter on a record, if any: only the day arithmetic of redating can
abort. -/
def filterPanic? : Stage → Record → Option String
  | .redate d, r => d.filterPanic? r
  | _, _ => none

/-- The abort of a stage's expansion on a record, if any. -/
def expandPanic? : Stage → Record → Option String
  | .redate d, r => d.expandPanic? r
  | _, _ => none

/-- The first abort of a stage's expansion over records in order. -/
def expandAllPanic? (st : Stage) (m : IdMap) : List Record → Option String
  | [] => none
  | r :: rest => (st.expandPanic? r).or (expandAllPanic? (st.expand m r).1 m rest)

end Stage

/-- Stages in the order they were added. -/
structure Pipeline where
  stages : List Stage := []
  deriving Inhabited

namespace Pipeline

/-- The names of the stages, in order. -/
def names (p : Pipeline) : List String := p.stages.map Stage.name

/-- Runs every filter in order. -/
def filterWith (m : IdMap) : List Stage → Record → List Stage × Record
  | [], r => ([], r)
  | st :: rest, r =>
    let (st, r) := st.filter m r
    let (rest, r) := filterWith m rest r
    (st :: rest, r)

/-- Runs every expansion in order, each over the records of the ones before. -/
def expandWith (m : IdMap) : List Stage → List Record → List Stage × List Record
  | [], rs => ([], rs)
  | st :: rest, rs =>
    let (st, rs) := st.expandAll m rs
    let (rest, rs) := expandWith m rest rs
    (st :: rest, rs)

/-- Runs every filter on a record. -/
def filter (p : Pipeline) (m : IdMap) (r : Record) : Pipeline × Record :=
  let (stages, r) := filterWith m p.stages r
  (⟨stages⟩, r)

/-- Runs every expansion on a record. -/
def expand (p : Pipeline) (m : IdMap) (r : Record) : Pipeline × List Record :=
  let (stages, rs) := expandWith m p.stages [r]
  (⟨stages⟩, rs)

/-- Every filter, then every expansion. -/
def apply (p : Pipeline) (m : IdMap) (r : Record) : Pipeline × List Record :=
  let (p, r) := p.filter m r
  p.expand m r

/-- The first abort of the filters, in order. -/
def filterPanic? (m : IdMap) : List Stage → Record → Option String
  | [], _ => none
  | st :: rest, r => (st.filterPanic? r).or (filterPanic? m rest (st.filter m r).2)

/-- The first abort of the expansions, in order. -/
def expandPanic? (m : IdMap) : List Stage → List Record → Option String
  | [], _ => none
  | st :: rest, rs => (st.expandAllPanic? m rs).or (expandPanic? m rest (st.expandAll m rs).2)

/-- The abort of running every filter, then every expansion, on a record, if any; `apply`
gives the outcome when there is none. -/
def applyPanic? (p : Pipeline) (m : IdMap) (r : Record) : Option String :=
  (filterPanic? m p.stages r).or (expandPanic? m (p.filter m r).1.stages [(p.filter m r).2])

end Pipeline

end TransitFeed

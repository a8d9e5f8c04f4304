import NearestMux.Search.Run

/-!
# Queries — from a name to the multiplexer it selects

A query names a wire. The wire has to be found first: it may be in any module of the hierarchy whose
name contains the filter, and it must be in one only. Modules are looked at in the order of the
hierarchy, so of more than two modules with the wire the first two are named in the fault. When no
module passes the filter that is reported before the wire is missed.

From the wire the search goes on to the nearest multiplexer that has it, or what becomes of it, as a
genuine select.
-/

namespace NearestMux

/-- What is asked. -/
structure Query where
  /-- The name of the wire, with or without its mark. -/
  wire : String
  /-- What the names of the modules looked at contain; the empty filter is none. -/
  filter : String

namespace Query

/-- The modules of a hierarchy that pass the filter. -/
def candidates (q : Query) (d : Design) (index : HierarchyIndex) : List Module :=
  (index.order.filterMap d.module?).filter fun m => Text.occursIn q.filter m.name

/-- The candidates that have the wire. -/
def places (q : Query) (d : Design) (index : HierarchyIndex) : List (Module × Declaration) :=
  (q.candidates d index).filterMap fun m =>
    (m.wire? (Identifier.escape q.wire)).map fun wire => (m, wire)

/-- The one place of the wire. -/
def locate (q : Query) (d : Design) (index : HierarchyIndex) :
    Except QueryFault (Module × Declaration) :=
  match q.places d index with
  | [place] => .ok place
  | (m, _) :: (n, _) :: _ => .error (.ambiguousWire q.wire [m.name, n.name])
  | [] =>
    if q.filter ≠ "" ∧ (q.candidates d index).isEmpty then .error (.unknownModule q.filter)
    else .error (.unknownWire q.wire)

/-- Why a query has no answer: by a fault of its own, or by one of the search. -/
inductive Failure where
  /-- The query has a fault. -/
  | query (fault : QueryFault)
  /-- The search goes astray. -/
  | astray (fault : SearchFault)

/-- A fault of a search as one of the query. -/
def Failure.ofSearch : SearchFault → Failure
  | .unresolvedProcess module => .query (.unresolvedProcess module)
  | fault => .astray fault

/-- What comes of a query: its journal, and the answer or why there is none. -/
structure Reply where
  /-- What was noted. -/
  journal : List Entry
  /-- The answer. -/
  outcome : Except Failure SearchAnswer

/-- The start of the search in the one place of the wire. -/
def startAt (place : Module × Declaration) : Item := ⟨place.1.name, .ofWire place.2.toWire⟩

/-- What is noted when a search has an answer. -/
def closing (stats : SearchStats) (answer : SearchAnswer) : List Entry := [
  .debug ("Search stats: " ++ stats.summary),
  .info ("Mux select: " ++ answer.select),
  .info ("Module: " ++ answer.module)]

/-- Answers a query about a design. -/
def answer (q : Query) (d : Design) (rule : MuxRule) : Reply :=
  match d.index with
  | .error fault => ⟨[], .error (.query fault)⟩
  | .ok index =>
    let journal := index.journal ++ [.info index.summary]
    match q.locate d index with
    | .error fault => ⟨journal, .error (.query fault)⟩
    | .ok (m, wire) =>
      let journal := journal ++
        [.info ("Start wire: " ++ wire.name ++ " (module: " ++ m.name ++ ")")]
      let setting : SearchSetting := ⟨d, index, rule⟩
      let report := setting.search (startAt (m, wire))
      let journal := journal ++ report.events.map Event.entry
      match report.outcome with
      | .error fault => ⟨journal, .error (.ofSearch fault)⟩
      | .ok answer => ⟨journal ++ closing report.stats answer, .ok answer⟩

/-- Whether the search of a query meets a multiplexer whose select is the wire and a reset. -/
def meetsReset (q : Query) (d : Design) (rule : MuxRule) : Bool :=
  match d.index with
  | .error _ => false
  | .ok index =>
    match q.locate d index with
    | .error _ => false
    | .ok place => ((SearchSetting.mk d index rule).search (startAt place)).events.any Event.isReset

end Query

end NearestMux

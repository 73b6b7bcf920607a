import StudyArchive.Evaluation.Parameters
import StudyArchive.Results.Report
import StudyArchive.Results.Shelf
/-
# Studies

A study keeps the results of methods in one or more places, its archive and its ledger, and the
evaluations of its producers in the archive.  A request goes to every place that serves it, in
order; the first refusal ends it.
-/

namespace StudyArchive

/-- A place that results are kept in. -/
inductive ResultPlace where
  /-- The archive, with the methods whose groups were made. -/
  | archive (known : List String)
  | ledger
  deriving DecidableEq

/-- Whether a request is for a kind of place: an archive keeps no arrays of slots, and a ledger
keeps no room for vectors and matrices. -/
def ResultPlace.serves : ResultPlace → ResultRequest → Bool
  | archive _, .reserveArray .. | archive _, .fillArray .. => false
  | ledger, .reserve .. | ledger, .fill .. => false
  | _, _ => true

/-- What the places of a study lead to. -/
structure Holdings where
  archive : Option Archive := none
  ledger : Option Ledger := none

/-- What a request leaves behind: the places, what they lead to, and the refusal if there was
one. -/
structure Served where
  places : List ResultPlace
  holdings : Holdings
  refusal : Option StudyError := none

namespace ResultPlace

/-- Serve a request at one place; where the place leads to nothing, nothing is kept. -/
def serve (request : ResultRequest) (holdings : Holdings) :
    ResultPlace → ResultPlace × Holdings × Option StudyError
  | archive known =>
    match holdings.archive with
    | none => (archive known, holdings, none)
    | some a =>
      match Shelf.serve request ⟨a, known⟩ with
      | .ok () s => (archive s.known, { holdings with archive := some s.archive }, none)
      | .error e s =>
        (archive s.known, { holdings with archive := some s.archive }, some (.storage e))
  | ledger =>
    match holdings.ledger with
    | none => (ledger, holdings, none)
    | some l =>
      match l.serve request with
      | .ok l => (ledger, { holdings with ledger := some l }, none)
      | .error e => (ledger, holdings, some e)

/-- Serve a request at every place, up to the first refusal. -/
def serveAll (request : ResultRequest) (holdings : Holdings) : List ResultPlace → Served
  | [] => ⟨[], holdings, none⟩
  | place :: rest =>
    match place.serve request holdings with
    | (place, holdings, some e) => ⟨place :: rest, holdings, some e⟩
    | (place, holdings, none) =>
      let after := serveAll request holdings rest
      { after with places := place :: after.places }

end ResultPlace

/-- A study that is open. -/
structure Study where
  places : List ResultPlace
  holdings : Holdings
  /-- The store of evaluations; a study without an archive has none. -/
  evaluations : Option EvaluationStore := none

namespace Study

/-- A study, or why there is none, and the disk after the attempt. -/
structure Opened where
  result : Except StorageError Study
  disk : Disk
  /-- Whether a torn tail was left out on the way. -/
  notice : Option TornNotice := none

/-- Open a study as configured. -/
def openFile (disk : Disk) (config : StudyConfig) (stamp : Stamp) : Opened :=
  let ledger : Option Ledger := if config.remembered then some {} else none
  let ledgers : List ResultPlace := if config.remembered then [.ledger] else []
  match config.validate with
  | .error e => ⟨.error e, disk, none⟩
  | .ok () =>
    if config.archived then
      let opened := Archive.openFile disk config.storage stamp
      { opened with
        result := opened.result.map fun a =>
          { places := .archive [] :: ledgers
            holdings := ⟨some a, ledger⟩
            evaluations := some { models := config.models, interfaces := config.interfaces } } }
    else ⟨.ok ⟨ledgers, ⟨none, ledger⟩, none⟩, disk, none⟩

/-- Serve a request at every place of a study. -/
def serve (s : Study) (request : ResultRequest) : Study × Option StudyError :=
  let served := ResultPlace.serveAll request s.holdings s.places
  ({ s with places := served.places, holdings := served.holdings }, served.refusal)

/-- Close a study: everything is flushed, and then the archive is closed. -/
def close (s : Study) : Study × Option StudyError :=
  match s.serve .flush with
  | (s, some e) => (s, some e)
  | (s, none) =>
    let holdings := { s.holdings with archive := s.holdings.archive.map Archive.close }
    ({ s with places := [], holdings, evaluations := none }, none)

end Study
end StudyArchive

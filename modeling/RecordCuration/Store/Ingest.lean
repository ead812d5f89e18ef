import RecordCuration.Repair.Run
import RecordCuration.Store.Basic

/-!
Ingest: a record is repaired, annotated and stored, and only when nothing is wrong with it.
-/

namespace RecordCuration

inductive IngestFault where
  | repair (fault : RepairFault)
  /-- Issues were left when repair ended. -/
  | rejected (remaining : List Issue)
  | store (fault : StoreFault)

def IngestFault.message : IngestFault → String
  | .repair fault => "Repair error: " ++ fault.message
  | .rejected remaining =>
    "Record could not be repaired: " ++ toString remaining.length ++ " issue(s) remain"
  | .store fault => "Store error: " ++ fault.message

/-- What became of a record that was taken in. -/
structure Receipt where
  id : String
  passes : Nat
  ruleCounts : RuleCounts

/-- Takes a record into a store as one of a class. -/
def Repairer.ingest {σ : Type} [DocumentStore σ] (r : Repairer) (s : σ) (doc : Json)
    (name : String) : σ × Except IngestFault Receipt :=
  match r.run doc with
  | .error fault => (s, .error (.repair fault))
  | .ok run =>
    match run.outcome with
    | .valid =>
      let (s, result) := DocumentStore.insert s (run.document.annotate name) name
      (s, match result with
        | .ok id => .ok ⟨id, run.passes, run.ruleCounts⟩
        | .error fault => .error (.store fault))
    | outcome => (s, .error (.rejected outcome.remaining))

end RecordCuration

import RecordCuration.Proofs.Repair.Ending
import RecordCuration.Proofs.Store.Insert
import RecordCuration.Store.Ingest

/-!
What ingest leaves in a store.

A record that is taken in leaves one document, the one that its repair ended with, annotated; that
document had no issues before it was annotated. A record that is refused leaves the documents as
they were, whether its repair failed, issues were left or the store did not take it.
-/

namespace RecordCuration

namespace Repairer

variable {r : Repairer} {s s' : Store} {offer : Offer} {result : Except IngestFault Receipt}

/-- The record was repaired until nothing was wrong, and what it was then is stored, annotated,
under the id of the receipt and the type that the record was offered as. -/
def Stores (r : Repairer) (offer : Offer) (receipt : Receipt) (d : StoredDocument) : Prop :=
  ∃ run, r.run offer.document = .ok run ∧ r.validator.validate run.document = [] ∧
    receipt = ⟨d.id, run.passes, run.ruleCounts⟩ ∧
    d.type = offer.type ∧ d.document = run.document.annotate offer.type

/-- What becomes of a store that a record is offered to, and the answer. -/
inductive Ingests (r : Repairer) (s : Store) (offer : Offer) :
    Store → Except IngestFault Receipt → Prop where
  | accepted {s' : Store} {receipt : Receipt} {d : StoredDocument}
    (hstores : r.Stores offer receipt d) (hdocs : s'.documents = s.documents ++ [d]) :
    Ingests r s offer s' (.ok receipt)
  | refused {s' : Store} {fault : IngestFault} (hdocs : s'.documents = s.documents) :
    Ingests r s offer s' (.error fault)

/-- **Every ingest stores one document or none.** -/
lemma ingests_of_ingest (h : r.ingest s offer.document offer.type = (s', result)) :
    r.Ingests s offer s' result := by
  unfold ingest at h
  rcases hrun : r.run offer.document with fault | run
  · rw [hrun] at h
    cases h
    exact .refused rfl
  · simp only [hrun] at h
    have hissues := (runWith_eq_ok_iff.mp hrun).validate_document
    cases hout : run.outcome with
    | valid =>
      rw [hout] at h hissues
      rcases hi : s.insert (run.document.annotate offer.type) offer.type with ⟨t, answer⟩
      have hinsert : DocumentStore.insert s (run.document.annotate offer.type) offer.type =
          (t, answer) := hi
      rw [hinsert] at h
      cases h
      cases Store.inserts_of_insert hi with
      | mismatched => exact .refused rfl
      | duplicate => exact .refused Store.documents_counted
      | stored => exact .accepted ⟨run, hrun, hissues, rfl, rfl, rfl⟩ rfl
    | unrepairable _ =>
      rw [hout] at h
      cases h
      exact .refused rfl
    | passLimit _ =>
      rw [hout] at h
      cases h
      exact .refused rfl

/-! ### Records in turn -/

/-- Takes records in, one after the other; gives the store at the end and every answer. -/
def ingestAll (r : Repairer) (s : Store) : List Offer → Store × List (Except IngestFault Receipt)
  | [] => (s, [])
  | offer :: offers =>
    let (next, result) := r.ingest s offer.document offer.type
    let (last, results) := r.ingestAll next offers
    (last, result :: results)

/-- The records that were taken in, each with its receipt. -/
def accepted (offers : List Offer) (results : List (Except IngestFault Receipt)) :
    List (Offer × Receipt) :=
  (offers.zip results).filterMap fun (offer, result) => result.toOption.map (offer, ·)

/-- The documents that are added are those of the accepted records. -/
lemma exists_added {offers : List Offer} {results : List (Except IngestFault Receipt)}
    (h : r.ingestAll s offers = (s', results)) : results.length = offers.length ∧
      ∃ added, s'.documents = s.documents ++ added ∧
        List.Forall₂ (fun a d => r.Stores a.1 a.2 d) (accepted offers results) added := by
  induction offers generalizing s results with
  | nil =>
    cases h
    exact ⟨rfl, [], (List.append_nil _).symm, .nil⟩
  | cons offer offers ih =>
    rcases hi : r.ingest s offer.document offer.type with ⟨next, result⟩
    rcases hrest : r.ingestAll next offers with ⟨last, rest⟩
    simp only [ingestAll, hi, hrest] at h
    cases h
    obtain ⟨hlength, added, hdocs, hadded⟩ := ih hrest
    refine ⟨congrArg Nat.succ hlength, ?_⟩
    cases ingests_of_ingest hi with
    | accepted hstores hnext =>
      refine ⟨_ :: added, ?_, .cons hstores hadded⟩
      rw [hdocs, hnext, List.append_assoc, List.singleton_append]
    | refused hnext => exact ⟨added, by rw [hdocs, hnext], hadded⟩

/-- **Nothing that has issues is stored.** When records are taken into an empty store one after the
other, the documents at the end are those of the accepted records in their order, one each: what
the repair of the record ended with, which had no issues, annotated, under the id of the receipt
and the type that the record was offered as. A record that is refused leaves the documents of any
store as they were. -/
theorem ingestAll_stores {offers : List Offer} {results : List (Except IngestFault Receipt)}
    (h : r.ingestAll .empty offers = (s, results)) :
    results.length = offers.length ∧
      List.Forall₂ (fun a d => r.Stores a.1 a.2 d) (accepted offers results) s.documents ∧
      ∀ (t t' : Store) (offer : Offer) (fault : IngestFault),
        r.ingest t offer.document offer.type = (t', .error fault) → t'.documents = t.documents := by
  obtain ⟨hlength, added, hdocs, hadded⟩ := exists_added h
  refine ⟨hlength, ?_, fun t t' offer fault hrefused => ?_⟩
  · rw [hdocs]
    exact hadded
  · cases ingests_of_ingest hrefused with
    | refused hdocs => exact hdocs

/-- A probe with a lone alias. -/
def aliasedProbe : Json := .obj [("Name", .str "Voyager 2"), ("Alias", .str "Voyager")]

def listedProbe : Json := .obj [("Name", .str "Voyager 2"), ("Alias", .arr [.str "Voyager"])]

/-- That probe as it is stored. -/
def storedProbe : Json :=
  .obj [("Name", .str "Voyager 2"), ("Alias", .arr [.str "Voyager"]), ("@type", .str "Probe")]

/-- The alias is listed, and nothing is wrong then. -/
lemma run_aliasedProbe : (standard (namesEngine 0)).run aliasedProbe =
    .ok ⟨.valid, listedProbe, 1, [("wrap-in-array", 1)], [aliasFix]⟩ := by
  obtain ⟨m, hv⟩ : ∃ m, (namesEngine 0).validate aliasedProbe = [aliasIssue m] := ⟨_, rfl⟩
  have hp : Catalogue.standard.pass ((namesEngine 0).validate aliasedProbe) aliasedProbe =
      (listedProbe, .ok ⟨true, [aliasFix], []⟩) := by
    rw [hv]
    rfl
  have hvalid : (namesEngine 0).validate listedProbe = [] := rfl
  have hruns : Runs (namesEngine 0) .standard (31 + 1) aliasedProbe _ :=
    .applied hp (by simp) (.valid hvalid)
  exact hruns.runWith

/-- The probe, a record whose name stays a number, and the probe again. -/
def probeOffers : List Offer :=
  [⟨aliasedProbe, "Probe"⟩, ⟨numberedNames, "Probe"⟩, ⟨aliasedProbe, "Probe"⟩]

/-- The probe is stored twice, mended and annotated, and the other record is not. -/
theorem probes_ingestAll_stores : ∃ s results,
    (standard (namesEngine 0)).ingestAll .empty probeOffers = (s, results) ∧
      s.documents = [⟨"Probe/1", "Probe", storedProbe⟩, ⟨"Probe/2", "Probe", storedProbe⟩] ∧
      List.Forall₂ (fun a d => (standard (namesEngine 0)).Stores a.1 a.2 d)
        (accepted probeOffers results) s.documents := by
  have hnumbered : (standard (namesEngine 0)).run numberedNames = .ok _ :=
    (runs_numberedNames 30).runWith
  have h : (standard (namesEngine 0)).ingestAll .empty probeOffers =
      (⟨[⟨"Probe/1", "Probe", storedProbe⟩, ⟨"Probe/2", "Probe", storedProbe⟩],
        ["Probe/2", "Probe/1"], [("Probe", 2)]⟩,
      [.ok ⟨"Probe/1", 1, [("wrap-in-array", 1)]⟩,
        .error (.rejected ((namesEngine 0).validate numberedNamesListed)),
        .ok ⟨"Probe/2", 1, [("wrap-in-array", 1)]⟩]) := by
    simp only [ingestAll, probeOffers, ingest, run_aliasedProbe, hnumbered]
    rfl
  exact ⟨_, _, h, rfl, (ingestAll_stores h).2.1⟩

end Repairer

end RecordCuration

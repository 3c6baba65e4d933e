import Cadence.Proofs.Http.Envelope
import Cadence.Proofs.Json.Decode
import Cadence.Service.DatabaseFault

/-!
# What errors keep to themselves

An error tells the client what it is about. The chain of causes beneath it, and the value that a
duplicate collides with, are left out, and so is the text of a bare response whose fault is the
server's.
-/

namespace Cadence

/-- The errors differ at most in what lies beneath them, or in the value that is already taken. -/
inductive ServiceError.Alike : ServiceError → ServiceError → Prop
  | refl (e : ServiceError) : Alike e e
  | duplicate (entity field value value' : String) :
      Alike (.duplicate entity field value) (.duplicate entity field value')
  | database (operation : String) (causes causes' : List String) :
      Alike (.database operation causes) (.database operation causes')
  | configuration (key : String) (causes causes' : List String) :
      Alike (.configuration key causes) (.configuration key causes')
  | connectionPool (causes causes' : List String) :
      Alike (.connectionPool causes) (.connectionPool causes')
  | internal (causes causes' : List String) : Alike (.internal causes) (.internal causes')

/-- Of what the database reports with a broken rule, only the place of it gets into the error. -/
theorem DatabaseFault.alike_toError (operation : String) (rule : DatabaseRule) {r r' : RuleReport}
    (htable : r.table = r'.table) (hcolumn : r.column = r'.column)
    (hconstraint : r.constraint = r'.constraint) :
    ((broken rule r).toError operation).Alike ((broken rule r').toError operation) := by
  cases rule
  case unique =>
    simp only [toError, htable, hcolumn, hconstraint]
    exact .duplicate _ _ _ _
  all_goals exact .database operation _ _

namespace ErrorBody

theorem texts_fieldError_injective : Function.Injective fun e : FieldError =>
    texts [("field", e.field), ("message", e.message)] := by
  rintro ⟨field, message⟩ ⟨field', message'⟩ h
  simpa [texts] using h

theorem alike_of_ofError_eq {e e' : ServiceError} (h : ofError e = ofError e') : e.Alike e' := by
  -- The code tells the errors apart, but for those of a failed validation, which differ in details.
  cases e <;> cases e' <;> simp [ofError, ServiceError.code] at h
  case notFound.notFound =>
    have hdetails := h.2
    simp [texts] at hdetails
    obtain ⟨rfl, rfl, rfl⟩ := hdetails
    exact .refl _
  case duplicate.duplicate =>
    have hdetails := h.2
    simp [texts] at hdetails
    obtain ⟨rfl, rfl⟩ := hdetails
    exact .duplicate _ _ _ _
  case validation.validation =>
    obtain ⟨rfl, hdetails⟩ := h
    simp [texts] at hdetails
    rw [hdetails]
    exact .refl _
  case validation.validationErrors | validationErrors.validation => simp [texts] at h
  case validationErrors.validationErrors =>
    rw [List.map_injective_iff.mpr texts_fieldError_injective h]
    exact .refl _
  case badRequest.badRequest | unauthorized.unauthorized | forbidden.forbidden =>
    rw [h]
    exact .refl _
  case database.database =>
    rw [h.1]
    exact .database _ _ _
  case configuration.configuration =>
    rw [h.1]
    exact .configuration _ _ _
  case connectionPool.connectionPool => exact .connectionPool _ _
  case internal.internal => exact .internal _ _

theorem toJson_injective : Function.Injective toJson := by
  intro b b' h
  have hnames (b : ErrorBody) : (([("code", some (.str b.code)), ("message", some (.str b.message)),
      ("details", b.details), ("request_id", b.requestId.map .str)] :
        List (String × Option Json)).map (·.1)).Nodup := by simp
  have hlookup (name : String) := congrArg (List.lookup name) (Json.obj.inj h)
  simp only [Json.lookup_present (hnames b), Json.lookup_present (hnames b')] at hlookup
  have hcode := hlookup "code"
  have hdetails := hlookup "details"
  have hmessage := hlookup "message"
  have hid := hlookup "request_id"
  simp [List.lookup_cons] at hcode hdetails hmessage hid
  obtain ⟨code, message, details, requestId⟩ := b
  obtain ⟨code', message', details', requestId'⟩ := b'
  have hrequestId : requestId = requestId' :=
    Option.map_injective (fun _ _ => Json.str.inj) hid
  simp_all

end ErrorBody

namespace Http

open Envelope

theorem fits_ofError (id : Option String) (e : ServiceError) :
    (stamped id (.ofError e)).toJson.Fits Json.maxDepth := by
  have hdetails : ∀ v, (stamped id (.ofError e)).details = some v → v.Fits 126 := by
    intro v hv
    apply fits_details e _ 123
    cases id <;> exact hv
  exact fits_errorBody hdetails

theorem unstamped_ofError (id : Option String) (e : ServiceError) :
    { stamped id (.ofError e) with requestId := none } = ErrorBody.ofError e := by
  cases id <;> cases e <;> rfl

theorem ofError_inj {id : Option String} {e e' : ServiceError}
    (h : Envelope.ofError id e = Envelope.ofError id e') :
    ErrorBody.ofError e = ErrorBody.ofError e' := by
  have htext := congrArg (fun r => Json.read? r.body) h
  unfold Envelope.ofError Response.json at htext
  simp only [Json.read?_text (fits_ofError id _)] at htext
  have hstamped := ErrorBody.toJson_injective (Option.some.inj htext)
  rw [← unstamped_ofError id e, hstamped, unstamped_ofError]

theorem bareBody_of_fault {own : Response} (h : 500 ≤ own.status) :
    bareBody own = .plain (defaults own.status).1 (defaults own.status).2 := by
  unfold bareBody
  simp [h]

theorem enclose_of_fault {own : Response} (hlow : 500 ≤ own.status) (hhigh : own.status ≤ 599)
    (hjson : saysJson own = false) (id : Option String) :
    enclose id (.ok own) =
      .json own.status
        (stamped id (.plain (defaults own.status).1 (defaults own.status).2)).toJson := by
  have herror : own.isError = true := by
    unfold Response.isError
    simp
    omega
  unfold enclose
  simp [herror, hjson, bareBody_of_fault hlow]

/-- Under one id, the responses to two errors are the same exactly if the errors differ in their
causes at most, or in the value that is already taken. Two bare responses of one status whose fault
is the server's are replaced by the same response, whatever their texts and headers. -/
theorem errors_keep_causes (id : Option String) :
    (∀ e e' : ServiceError, enclose id (.error e) = enclose id (.error e') ↔ e.Alike e') ∧
      ∀ own own' : Response, 500 ≤ own.status → own.status ≤ 599 → own'.status = own.status →
        saysJson own = false → saysJson own' = false →
          enclose id (.ok own) = enclose id (.ok own') := by
  refine ⟨fun e e' => ⟨fun h => ?_, fun h => ?_⟩, ?_⟩
  · exact ErrorBody.alike_of_ofError_eq (ofError_inj h)
  · cases h <;> rfl
  · intro own own' hlow hhigh hstatus hjson hjson'
    rw [enclose_of_fault hlow hhigh hjson, enclose_of_fault (by omega) (by omega) hjson', hstatus]

theorem errors_keep_causes_of_lost_connection :
    let id := some "req-123"
    let plain (text : String) : Response := ⟨502, [("content-type", "text/plain")], text⟩
    let told (causes : List String) := enclose id (.error (.connectionPool causes))
    ServiceError.Alike (.connectionPool ["postgres://admin:secret@db/crm", "refused"])
        (.connectionPool []) ∧
      told ["postgres://admin:secret@db/crm", "refused"] = told [] ∧
      saysJson (plain "upstream 10.0.0.7 failed") = false ∧ saysJson (plain "") = false ∧
      enclose id (.ok (plain "upstream 10.0.0.7 failed")) = enclose id (.ok (plain "")) := by
  intro id plain told
  obtain ⟨herrors, hbare⟩ := errors_keep_causes id
  have halike : ServiceError.Alike (.connectionPool ["postgres://admin:secret@db/crm", "refused"])
      (.connectionPool []) := .connectionPool _ _
  have hjson (text : String) : saysJson (plain text) = false := rfl
  exact ⟨halike, (herrors _ _).mpr halike, hjson _, hjson _,
    hbare _ _ (by decide) (by decide) rfl (hjson _) (hjson _)⟩

end Http

end Cadence

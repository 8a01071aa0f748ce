import DSearch.Api.Request
import DSearch.Api.Response
import DSearch.Node.State

/-! # Content on request

The arms for `/health`, `/search`, `/records` and `/record/…`, which `route` of `api/handlers.rs` and
`gateway_route` of `api/gateway.rs` have word for word. -/

namespace DSearch
set_option autoImplicit false
open JsonText Transaction

namespace Content

/-- `HttpResponse::json(&body.to_string()).with_node_headers(node_id)`. -/
def jsonReply (nodeId : String) (fields : List (String × Bytes)) : HttpResponse :=
  (HttpResponse.json (ofFields fields)).withNodeHeaders nodeId

def queryLimit (req : HttpRequest) (fallback : ℕ) : ℕ :=
  (req.query["limit"]?.bind fun v => RustText.parseUnsigned (2 ^ 64) v.toList).getD fallback

/-- The id in a path, if the path begins with `pre`. -/
def idAfter (pre path : String) : Option String :=
  (RustText.stripPrefix pre.toList path.toList).map String.ofList

def effectiveQuery (req : HttpRequest) (query : String) : String :=
  match req.query["schema"]? with
  | some s => if s = "" then query else "schema:" ++ s ++ " " ++ query
  | none => query

variable (env : NodeEnv) (nodeId : String)

def health : HttpResponse :=
  jsonReply nodeId [("node_id", ofString nodeId), ("status", ofString "ok")]

def search (req : HttpRequest) : Client NodeState HttpResponse :=
  let query := req.query["q"]?.getD ""
  (NodeState.searchRecords env (effectiveQuery req query) (queryLimit req 20)).bind fun results =>
    .done ((jsonReply nodeId [
      ("count", ofNat results.length),
      ("query", ofString query),
      ("results", ofArray (results.map ContentRecord.valueJson))]).withRecordCount results.length)

def list (req : HttpRequest) : Client NodeState HttpResponse :=
  .read fun s =>
    let records := Records.listRecords s.db req.query["schema"]? (queryLimit req 50)
    .done ((jsonReply nodeId [
      ("count", ofNat records.length),
      ("records", ofArray (records.map ContentRecord.valueJson))]).withRecordCount records.length)

def getRecord (id : String) : Client NodeState HttpResponse :=
  .read fun s =>
    match Records.getRecord s.db id with
    | some record => .done ((HttpResponse.json record.valueJson).withNodeHeaders nodeId)
    | none => .done (.notFound ("record not found: " ++ id))

/-! ## No arm writes a table -/

open NodeState

theorem search_readsDb (req : HttpRequest) : ReadsDb (search env nodeId req) :=
  (searchRecords_readsDb env _ _).bind fun _ => ReadsDb.done _

theorem list_readsDb (req : HttpRequest) : ReadsDb (list nodeId req) :=
  ReadsDb.read fun _ => ReadsDb.done _

theorem getRecord_readsDb (id : String) : ReadsDb (getRecord nodeId id) := by
  refine ReadsDb.read fun s => ?_
  cases Records.getRecord s.db id with
  | some record => exact ReadsDb.done _
  | none => exact ReadsDb.done _

end Content

end DSearch

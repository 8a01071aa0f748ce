import DSearch.Search.Cache
import DSearch.Trust.Sign

/-! # Responses: `api/response.rs`

The headers of a response are a hash map, which is written in an order of its own. A body that the
source builds with `json!` has its fields in the order of their names. -/

namespace DSearch
set_option autoImplicit false
open JsonText

structure HttpResponse where
  status : ℕ
  statusText : String
  headers : Table String
  body : Bytes

namespace HttpResponse

def new (status : ℕ) (statusText : String) (body : Bytes) : HttpResponse where
  status := status
  statusText := statusText
  headers := ((∅ : Table String).insert "connection" "close").insert "server" "dsearch"
  body := body

def withHeader (resp : HttpResponse) (name value : String) : HttpResponse :=
  { resp with headers := resp.headers.insert name value }

def ok (body : Bytes) : HttpResponse := new 200 "OK" body

def json (body : Bytes) : HttpResponse :=
  (ok body).withHeader "content-type" "application/json; charset=utf-8"

/-- The four error responses, which differ in their status only. -/
def errorResponse (status : ℕ) (statusText error : String) : HttpResponse :=
  (new status statusText (ofFields [("code", ofNat status), ("error", ofString error)])).withHeader
    "content-type" "application/json; charset=utf-8"

def notFound (error : String) : HttpResponse := errorResponse 404 "Not Found" error

def badRequest (error : String) : HttpResponse := errorResponse 400 "Bad Request" error

def internalError (error : String) : HttpResponse := errorResponse 500 "Internal Server Error" error

def methodNotAllowed (error : String) : HttpResponse := errorResponse 405 "Method Not Allowed" error

def withNodeHeaders (resp : HttpResponse) (nodeId : String) : HttpResponse :=
  (resp.withHeader "x-node-id" nodeId).withHeader "x-protocol-version" "1"

def withRecordCount (resp : HttpResponse) (count : ℕ) : HttpResponse :=
  resp.withHeader "x-record-count" (toString count)

/-- The bytes that are written, with the headers in the order of the hash map. -/
def toBytes (toLowercase : String → String) (order : HashOrder) (resp : HttpResponse) : Bytes :=
  let statusLine := "HTTP/1.1 " ++ toString resp.status ++ " " ++ resp.statusText ++ "\r\n"
  let contentLength := "content-length: " ++ toString resp.body.length ++ "\r\n"
  let headers := (order.rows resp.headers).filter fun row => toLowercase row.1 ≠ "content-length"
  let headerLines := headers.map fun row => row.1 ++ ": " ++ row.2 ++ "\r\n"
  asBytes (statusLine ++ contentLength ++ String.join headerLines ++ "\r\n") ++ resp.body

theorem utf8ByteSize_join (texts : List String) :
    (String.join texts).utf8ByteSize = (texts.map String.utf8ByteSize).sum := by
  induction texts with
  | nil => rfl
  | cons text texts ih =>
    rw [String.join_cons, String.utf8ByteSize_append, ih, List.map_cons, List.sum_cons]

/-- Names and values of the headers, each line with what is between and behind them. -/
def headerBytes (headers : Table String) : ℕ :=
  (headers.toList.map fun row => row.1.utf8ByteSize + row.2.utf8ByteSize + 16).sum

theorem length_toBytes_le (toLowercase : String → String) (order : HashOrder) (resp : HttpResponse) :
    (resp.toBytes toLowercase order).length ≤ 200 + (toString resp.status).utf8ByteSize +
      resp.statusText.utf8ByteSize + (toString resp.body.length).utf8ByteSize +
      headerBytes resp.headers + resp.body.length := by
  have hhttp : "HTTP/1.1 ".utf8ByteSize ≤ 36 := utf8ByteSize_literal_le (by decide)
  have hspace : " ".utf8ByteSize ≤ 4 := utf8ByteSize_literal_le (by decide)
  have hend : "\r\n".utf8ByteSize ≤ 8 := utf8ByteSize_literal_le (by decide)
  have hname : "content-length: ".utf8ByteSize ≤ 64 := utf8ByteSize_literal_le (by decide)
  have hcolon : ": ".utf8ByteSize ≤ 8 := utf8ByteSize_literal_le (by decide)
  have hline : ∀ row : String × String, (row.1 ++ ": " ++ row.2 ++ "\r\n").utf8ByteSize ≤
      row.1.utf8ByteSize + row.2.utf8ByteSize + 16 := by
    intro row
    simp only [String.utf8ByteSize_append]
    omega
  have hlines : ((((order.rows resp.headers).filter fun row => toLowercase row.1 ≠
      "content-length").map fun row => row.1 ++ ": " ++ row.2 ++ "\r\n").map
        String.utf8ByteSize).sum ≤ headerBytes resp.headers := by
    rw [List.map_map]
    refine (List.sum_le_sum fun row _ => hline row).trans ?_
    refine (List.Sublist.sum_le_sum (List.filter_sublist.map _) fun _ _ => Nat.zero_le _).trans ?_
    exact ((order.perm resp.headers).map _).sum_eq.le
  unfold toBytes
  simp only [List.length_append, length_asBytes, String.utf8ByteSize_append, utf8ByteSize_join]
  omega

end HttpResponse

/-- `json!` of a record. -/
def ContentRecord.valueJson (record : ContentRecord) : Bytes :=
  ofFields [
    ("body", ofString record.body),
    ("created_at", ofNat record.createdAt),
    ("expires_at", ofNat record.expiresAt),
    ("id", ofString record.id),
    ("refresh_policy", ofString record.refreshPolicy.asStr),
    ("schema", ofString record.schema),
    ("scrape_source", ofString record.scrapeSource.asStr),
    ("sig", ofString record.sig),
    ("source_hash", ofString record.sourceHash),
    ("source_url", ofString record.sourceUrl),
    ("tags", ofArray (record.tags.map ofString))]

/-- It has the fields of the text that is stored. -/
theorem ContentRecord.length_valueJson (record : ContentRecord) :
    record.valueJson.length = record.jsonLen := by
  simp only [valueJson, jsonLen, toJson, ofFields, commaSeparated, List.map_cons, List.map_nil,
    List.length_cons, List.length_append]
  omega

end DSearch

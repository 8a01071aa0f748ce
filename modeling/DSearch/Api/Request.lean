import DSearch.Foundations.RustText
import DSearch.Storage.Records
import DSearch.Trust.SourceUrl

/-! # Requests: `api/request.rs`

The parser that the local API and the gateway share. Hash maps are only looked up here, so a table
stands for them; `str::to_lowercase` is a parameter. -/

namespace DSearch
set_option autoImplicit false
open RustText Sign

structure HttpRequest where
  method : String
  path : String
  query : Table String
  headers : Table String
  body : String

namespace Request

def MAX_HEADERS : ℕ := 64

def MAX_HEADER_VALUE_LEN : ℕ := 8192

def MAX_BODY_SIZE : ℕ := 1_048_576

def validatePath (path : List Char) : Except String Unit :=
  if '\x00' ∈ path then .error "path contains null byte"
  else if "..".toList ∈ path.splitOn '/' then
    .error "path traversal detected: '..' segment not allowed"
  else .ok ()

/-- Up to two characters after a `%`: the character with that number, or all of them as they are. -/
def decodeHex (hex : List Char) : List Char :=
  match fromStrRadix16 (asBytes (String.ofList hex)) with
  | some byte => [Char.ofNat byte.toNat]
  | none => '%' :: hex

def percentDecode : List Char → List Char
  | '%' :: a :: b :: cs => decodeHex [a, b] ++ percentDecode cs
  | ['%', a] => decodeHex [a]
  | ['%'] => decodeHex []
  | '+' :: cs => ' ' :: percentDecode cs
  | c :: cs => c :: percentDecode cs
  | [] => []

example : percentDecode "a%2Fb+%zz%4".toList = "a/b %zz\x04".toList := by decide +kernel

theorem percentDecode_percent (a b : Char) (cs : List Char) :
    percentDecode ('%' :: a :: b :: cs) = decodeHex [a, b] ++ percentDecode cs := rfl

theorem percentDecode_plus (cs : List Char) :
    percentDecode ('+' :: cs) = ' ' :: percentDecode cs := rfl

set_option linter.auxLemma false in
theorem percentDecode_cons {c : Char} (hpercent : c ≠ '%') (hplus : c ≠ '+') (cs : List Char) :
    percentDecode (c :: cs) = c :: percentDecode cs := by
  -- the patterns have no equations of their own, so the match is unfolded to its tests
  delta percentDecode percentDecode._f percentDecode.match_1
  dsimp only
  rw [dif_neg hpercent, dif_neg hplus]

/-- A `%` stands before two characters, or before what is left. -/
theorem decode_induction {P : List Char → Prop} (nil : P [])
    (percent : ∀ a b cs, P cs → P ('%' :: a :: b :: cs)) (percentOne : ∀ a, P ['%', a])
    (percentNone : P ['%']) (other : ∀ c cs, c ≠ '%' → P cs → P (c :: cs)) (cs : List Char) : P cs := by
  induction hlength : cs.length using Nat.strong_induction_on generalizing cs with
  | h n ih =>
    match cs, hlength with
    | [], _ => exact nil
    | c :: cs, hlength =>
      rw [List.length_cons] at hlength
      by_cases hpercent : c = '%'
      · subst hpercent
        match cs, hlength with
        | [], _ => exact percentNone
        | [a], _ => exact percentOne a
        | a :: b :: cs, hlength =>
          simp only [List.length_cons] at hlength
          exact percent a b cs (ih cs.length (by omega) cs rfl)
      · exact other c cs hpercent (ih cs.length (by omega) cs rfl)

def parseQueryString (qs : List Char) : Table String :=
  (qs.splitOn '&').foldl (fun map pair =>
    if pair = [] then map
    else
      let (key, value) := splitFirst '=' pair
      map.insert (String.ofList (percentDecode key))
        (String.ofList (percentDecode (value.getD [])))) ∅

/-- The header lines up to the first empty one. -/
def parseHeaders (toLowercase : String → String) :
    List (List Char) → Table String → Except String (Table String)
  | [], headers => .ok headers
  | line :: lines, headers =>
    if line = [] then .ok headers
    else if headers.size ≥ MAX_HEADERS then .error "too many headers (max 64)"
    else
      match splitFirst ':' line with
      | (_, none) => parseHeaders toLowercase lines headers
      | (name, some rest) =>
        let key := toLowercase (String.ofList (trim name))
        let value := String.ofList (trim rest)
        if value.utf8ByteSize > MAX_HEADER_VALUE_LEN then
          .error ("header value too long (max 8192 bytes): " ++ key)
        else parseHeaders toLowercase lines (headers.insert key value)

/-- `raw.split("\r\n\r\n").nth(1)`: the text between the first two blank lines. -/
def bodyOf (raw : List Char) : List Char :=
  match breakOn "\r\n\r\n".toList raw with
  | none => []
  | some (_, rest) =>
    match breakOn "\r\n\r\n".toList rest with
    | none => rest
    | some (body, _) => body

def checkContentLength (headers : Table String) : Except String Unit :=
  match headers["content-length"]? with
  | none => .ok ()
  | some text =>
    match parseUnsigned (2 ^ 64) text.toList with
    | none => .error "invalid Content-Length"
    | some declared =>
      if declared > MAX_BODY_SIZE then
        .error ("Content-Length " ++ toString declared ++ " exceeds max body size 1048576")
      else .ok ()

/-- The path that is checked is decoded, the path of the request is not. -/
def parseHttpRequest (toLowercase : String → String) (raw : List Char) :
    Except String HttpRequest :=
  match lines raw with
  | [] => .error "empty request"
  | requestLine :: headerLines =>
    match splitN 3 ' ' requestLine with
    | method :: fullUri :: _ =>
      let (path, queryString) := splitFirst '?' fullUri
      do
        validatePath (percentDecode path)
        let headers ← parseHeaders toLowercase headerLines ∅
        let body := String.ofList (bodyOf raw)
        if body.utf8ByteSize > MAX_BODY_SIZE then
          throw ("body too large (max 1048576 bytes, got " ++ toString body.utf8ByteSize ++ ")")
        checkContentLength headers
        return {
          method := String.ofList method
          path := String.ofList path
          query := parseQueryString (queryString.getD [])
          headers := headers
          body := body }
    | _ => .error "malformed request line"

/-! ## The head and the body -/

def blankLine : List Char := "\r\n\r\n".toList

/-- What the lines of a text say: a method, a path, a query and headers. -/
def headOf (toLowercase : String → String) (text : List Char) :
    Option (String × String × Table String × Except String (Table String)) :=
  match lines text with
  | [] => none
  | requestLine :: headerLines =>
    match splitN 3 ' ' requestLine with
    | method :: fullUri :: _ =>
      let (path, queryString) := splitFirst '?' fullUri
      some (String.ofList method, String.ofList path, parseQueryString (queryString.getD []),
        parseHeaders toLowercase headerLines ∅)
    | _ => none

variable {toLowercase : String → String}

theorem bind_eq_ok {α β : Type} {x : Except String α} {next : α → Except String β} {b : β} :
    x >>= next = .ok b ↔ ∃ a, x = .ok a ∧ next a = .ok b := by
  cases x <;> simp [bind, Except.bind]

theorem parseHttpRequest_eq_ok_iff {text : List Char} {req : HttpRequest} :
    parseHttpRequest toLowercase text = .ok req ↔
      headOf toLowercase text = some (req.method, req.path, req.query, .ok req.headers) ∧
      validatePath (percentDecode req.path.toList) = .ok () ∧
      req.body = String.ofList (bodyOf text) ∧ req.body.utf8ByteSize ≤ MAX_BODY_SIZE ∧
      checkContentLength req.headers = .ok () := by
  rcases req with ⟨method', path', query', headers', body'⟩
  unfold parseHttpRequest headOf
  rcases lines text with _ | ⟨requestLine, headerLines⟩
  · simp
  rcases hparts : splitN 3 ' ' requestLine with _ | ⟨method, _ | ⟨fullUri, version⟩⟩
  · simp [hparts]
  · simp [hparts]
  rcases hpath : splitFirst '?' fullUri with ⟨path, queryString⟩
  simp only [hparts, hpath, Option.some.injEq, Prod.mk.injEq]
  constructor
  · intro h
    obtain ⟨⟨⟩, hvalid, h⟩ := bind_eq_ok.mp h
    obtain ⟨headers, hheaders, h⟩ := bind_eq_ok.mp h
    split at h
    · cases h
    case isFalse hsize =>
      obtain ⟨⟨⟩, hlength, h⟩ := bind_eq_ok.mp h
      cases h
      rw [String.toList_ofList]
      exact ⟨⟨rfl, rfl, rfl, hheaders⟩, hvalid, rfl, Nat.not_lt.mp hsize, hlength⟩
  · rintro ⟨⟨rfl, rfl, rfl, hheaders⟩, hvalid, rfl, hsize, hlength⟩
    rw [String.toList_ofList] at hvalid
    refine bind_eq_ok.mpr ⟨(), hvalid, bind_eq_ok.mpr ⟨headers', hheaders, ?_⟩⟩
    rw [if_neg (Nat.not_lt.mpr hsize)]
    exact bind_eq_ok.mpr ⟨(), hlength, rfl⟩

theorem parseHeaders_stops (before after : List (List Char)) (headers : Table String) :
    parseHeaders toLowercase (before ++ [] :: after) headers =
      parseHeaders toLowercase before headers := by
  induction before generalizing headers with
  | nil => rfl
  | cons line before ih =>
    rw [List.cons_append, parseHeaders, parseHeaders]
    simp only [ih]

/-- A blank line is an empty line among the lines. -/
theorem lines_blankLine (head rest : List Char) : lines (head ++ blankLine ++ rest) =
    ((head ++ ['\r']).splitOn '\n').map stripCarriageReturn ++ [] :: lines rest := by
  have hsplit : head ++ blankLine ++ rest =
      (head ++ ['\r']) ++ '\n' :: (['\r'] ++ '\n' :: rest) := by
    simp only [blankLine, List.append_assoc]
    rfl
  rw [hsplit, lines_append, lines_append]
  rfl

theorem headOf_blankLine (head rest : List Char) :
    headOf toLowercase (head ++ blankLine ++ rest) = headOf toLowercase (head ++ blankLine) := by
  have hempty := lines_blankLine head []
  rw [List.append_nil] at hempty
  obtain ⟨first, more, hpieces⟩ :=
    List.exists_cons_of_ne_nil (List.splitOn_ne_nil '\n' (head ++ ['\r']))
  rw [headOf, headOf, lines_blankLine, hempty, hpieces, List.map_cons, List.cons_append,
    List.cons_append]
  simp only [parseHeaders_stops]

/-- A head is followed by its first blank line. -/
def IsHead (head : List Char) : Prop :=
  breakOn blankLine (head ++ blankLine) = some (head, [])

theorem IsHead.breakOn_append {head : List Char} (h : IsHead head) (body : List Char) :
    breakOn blankLine (head ++ blankLine ++ body) = some (head, body) :=
  Sign.breakOn_append h body

theorem bodyOf_eq_nil {text : List Char} (h : ¬ blankLine <:+: text) : bodyOf text = [] := by
  have hnone : breakOn "\r\n\r\n".toList text = none := breakOn_eq_none_iff.mpr h
  rw [bodyOf, hnone]

theorem IsHead.bodyOf_append {head : List Char} (h : IsHead head) (rest : List Char) :
    bodyOf (head ++ blankLine ++ rest) =
      match breakOn blankLine rest with
      | none => rest
      | some (body, _) => body := by
  have hsome : breakOn "\r\n\r\n".toList (head ++ blankLine ++ rest) = some (head, rest) :=
    h.breakOn_append rest
  rw [bodyOf, hsome]
  rfl

end Request

end DSearch

import DSearch.Foundations.RustText
import DSearch.Storage.Records
import DSearch.Trust.SourceUrl

/-! # The query language: `search/query.rs`

`toLowercase` is `str::to_lowercase`, a parameter as it is for URLs. Scores are 64-bit floats, here
Lean's own. -/

namespace DSearch.Query
set_option autoImplicit false
open RustText Sign

structure ParsedQuery where
  terms : List String
  phrases : List String
  excludes : List String
  fields : Table String
  limit : Option ℕ
  since : Option ℕ
  before : Option ℕ

def ParsedQuery.default : ParsedQuery := ⟨[], [], [], ∅, none, none, none⟩

/-! ## Parsing -/

structure Tokenizer where
  tokens : List String
  current : List Char
  inQuotes : Bool

def Tokenizer.flush (t : Tokenizer) : List String :=
  if t.current = [] then t.tokens else t.tokens ++ [String.ofList t.current]

def Tokenizer.step (t : Tokenizer) (ch : Char) : Tokenizer :=
  if ch = '"' then
    if t.inQuotes then { t with current := t.current ++ [ch], inQuotes := false }
    else ⟨t.flush, [ch], true⟩
  else if isWhiteSpace ch ∧ t.inQuotes = false then ⟨t.flush, [], t.inQuotes⟩
  else { t with current := t.current ++ [ch] }

def tokenize (input : String) : List String :=
  (input.toList.foldl Tokenizer.step ⟨[], [], false⟩).flush

def FILTER_FIELDS : List String :=
  ["title", "tag", "schema", "source", "scraped", "refresh", "limit", "since", "before"]

def parseFieldFilter (token : String) : Option (String × String) :=
  match splitFirst ':' token.toList with
  | (_, none) => none
  | (field, some value) =>
    if String.ofList field ∈ FILTER_FIELDS then some (String.ofList field, String.ofList value)
    else none

/-- The day of a civil date, counted from 1970-01-01. -/
def daysFromCivil (y m d : ℤ) : ℤ :=
  let y := if m ≤ 2 then y - 1 else y
  let era := if y ≥ 0 then y / 400 else (y - 399).tdiv 400
  let yoe := y - era * 400
  let doy := (153 * (m + if m > 2 then -3 else 9) + 2) / 5 + d - 1
  let doe := yoe * 365 + yoe / 4 - yoe / 100 + doy
  era * 146097 + doe - 719468

/-- A unix timestamp or `YYYY-MM-DD`. -/
def parseDateValue (value : String) : Option ℕ :=
  match parseUnsigned (2 ^ 64) value.toList with
  | some ts => some ts
  | none =>
    match value.toList.splitOn '-' with
    | [year, month, day] =>
      match parseI32 year, parseUnsigned (2 ^ 32) month, parseUnsigned (2 ^ 32) day with
      | some y, some m, some d =>
        if ¬ (1 ≤ m ∧ m ≤ 12) then none
        else if ¬ (1 ≤ d ∧ d ≤ 31) then none
        else
          let diffDays := daysFromCivil y m d - daysFromCivil 1970 1 1
          if diffDays < 0 then none else some (diffDays.toNat * 86400)
      | _, _, _ => none
    | _ => none

example : parseDateValue "2024-03-01" = some 1709251200 ∧ parseDateValue "12" = some 12 ∧
    parseDateValue "1969-12-31" = none := by decide

section
variable (toLowercase : String → String)

def insertFilter (query : ParsedQuery) (field value : String) : ParsedQuery :=
  if field = "limit" then
    match parseUnsigned (2 ^ 64) value.toList with
    | some n => { query with limit := some n }
    | none => query
  else if field = "since" then { query with since := parseDateValue value }
  else if field = "before" then { query with before := parseDateValue value }
  else { query with fields := query.fields.insert field (toLowercase value) }

def insertToken (query : ParsedQuery) (token : String) : ParsedQuery :=
  let cs := token.toList
  if cs.head? = some '-' ∧ cs.length > 1 then
    { query with excludes := query.excludes ++ [toLowercase (String.ofList cs.tail)] }
  else if cs.head? = some '"' ∧ cs.getLast? = some '"' ∧ cs.length > 1 then
    { query with phrases := query.phrases ++ [toLowercase (String.ofList cs.tail.dropLast)] }
  else
    match parseFieldFilter token with
    | some (field, value) => insertFilter toLowercase query field value
    | none => { query with terms := query.terms ++ [toLowercase token] }

/-- The last term becomes one of an OR group. -/
def markLast (terms : List String) : List String :=
  match terms.getLast? with
  | some last => terms.dropLast ++ ["OR:" ++ last]
  | none => terms

/-- The loop over the tokens. After `OR` the next token is a term as it stands. -/
def parseTokens : List String → ParsedQuery → ParsedQuery
  | [], query => query
  | token :: tokens, query =>
    if token = "OR" ∧ query.terms ≠ [] then
      match tokens with
      | [] => { query with terms := markLast query.terms }
      | next :: tokens =>
        parseTokens tokens { query with terms := markLast query.terms ++ ["OR:" ++ next] }
    else parseTokens tokens (insertToken toLowercase query token)

def parseQuery (input : String) : ParsedQuery :=
  parseTokens toLowercase (tokenize input) .default

/-! ## Matching -/

/-- `build_searchable_text`. -/
def buildSearchableText (record : ContentRecord) : String :=
  toLowercase (record.id ++ " " ++ record.sourceUrl ++ " " ++ record.schema ++ " " ++
    String.join (record.tags.map (· ++ " ")) ++ record.body)

def extractHost (url : String) : Option String :=
  ((stripPrefix "https://".toList url.toList).or (stripPrefix "http://".toList url.toList)).map
    fun rest => String.ofList (rest.takeWhile fun c => c ≠ '/' ∧ c ≠ ':')

def firstLine (body : String) : String := String.ofList ((lines body.toList).headD [])

def matchesField (record : ContentRecord) (field value : String) : Bool :=
  if field = "schema" then contains (toLowercase record.schema) value
  else if field = "source" then
    match extractHost record.sourceUrl with
    | some host => contains (toLowercase host) value
    | none => false
  else if field = "scraped" then record.scrapeSource.asStr = value
  else if field = "refresh" then record.refreshPolicy.asStr = value
  else if field = "tag" then record.tags.any fun t => toLowercase t = value
  else if field = "title" then
    contains (toLowercase (record.id ++ " " ++ record.sourceUrl ++ " " ++ firstLine record.body))
      value
  else true

/-- The term without its OR mark, if it has one. -/
def strippedTerm (term : String) : Option String :=
  (stripPrefix "OR:".toList term.toList).map String.ofList

/-- The groups of terms: consecutive OR terms join the group that is open, any other term opens a new
one. -/
def orGroups (terms : List String) : List (List String) :=
  let groups := terms.foldl (fun (groups : List (List String) × List String) term =>
    match strippedTerm term with
    | some stripped => (groups.1, groups.2 ++ [stripped])
    | none => (if groups.2 = [] then groups.1 else groups.1 ++ [groups.2], [term])) ([], [])
  if groups.2 = [] then groups.1 else groups.1 ++ [groups.2]

def matchesQuery (record : ContentRecord) (query : ParsedQuery) : Bool :=
  let searchable := buildSearchableText toLowercase record
  query.fields.toList.all (fun row => matchesField toLowercase record row.1 row.2) &&
    query.since.all (fun since => ! decide (record.createdAt < since)) &&
    query.before.all (fun before => ! decide (record.createdAt ≥ before)) &&
    query.excludes.all (fun exc => ! contains searchable exc) &&
    query.phrases.all (contains searchable) &&
    (orGroups query.terms).all fun group => group.any (contains searchable)

/-! ## Ranking -/

/-- `now` is the clock in seconds. -/
def scoreRecord (record : ContentRecord) (query : ParsedQuery) (holderCount now : ℕ) : Float :=
  let idText := toLowercase record.id
  let tagText := toLowercase (String.intercalate " " record.tags)
  let bodyText := toLowercase record.body
  let schemaText := toLowercase record.schema
  let score := query.terms.foldl (fun score term =>
    let t := (strippedTerm term).getD term
    let score := if contains idText t then score + 3.0 else score
    let score := if contains tagText t then score + 2.0 else score
    let score := if contains bodyText t then score + 1.0 else score
    if contains schemaText t then score + 1.5 else score) 0.0
  let score := query.phrases.foldl (fun score phrase =>
    let score := if contains bodyText phrase then score + 5.0 else score
    if contains idText phrase then score + 7.0 else score) score
  let ageDays := Float.ofNat (now - record.createdAt) / 86400.0
  let score := score + 1.0 / (1.0 + ageDays / 30.0) * 2.0
  score + max (Float.ofNat holderCount).log 0.0 * 0.5

end

/-- `to_lowercase` on ASCII texts. -/
def asciiLowercase (s : String) : String := String.ofList (s.toList.map Char.toLower)

end DSearch.Query

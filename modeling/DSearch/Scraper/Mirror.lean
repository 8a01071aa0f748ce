import DSearch.Api.RecordLookup
import DSearch.Api.RequestBody
import DSearch.Scraper.ContentAddress
import DSearch.Scraper.Fetch

/-! # A url job whose page is another node

The client of `scraper/job.rs` and the server of `api/local.rs` over one connection: the URL is taken
apart, the request is parsed and routed, and the page is the body of the response, whatever its status.
So a node that scrapes the record of another one stores the record's JSON. -/

namespace DSearch.Fetch
set_option autoImplicit false
open RustText Sign Utf8Text SeparatedText JsonText Transaction Request ApiClient RecordLookup

/-! ## A URL as it is written -/

def schemeText (isHttps : Bool) : List Char :=
  if isHttps then "https://".toList else "http://".toList

theorem stripScheme_written (isHttps : Bool) (rest : List Char) :
    stripScheme (schemeText isHttps ++ rest) = some (isHttps, rest) := by
  have hstrip : ∀ a b : List Char, stripPrefix a (a ++ b) = some b := by
    intro a b
    rw [stripPrefix, if_pos (List.isPrefixOf_iff_prefix.mpr (List.prefix_append a b)),
      List.drop_left]
  cases isHttps with
  | true =>
    unfold stripScheme schemeText
    rw [if_pos rfl, hstrip]
  | false =>
    have hother : stripPrefix "https://".toList ("http://".toList ++ rest) = none := by
      refine if_neg fun h => ?_
      have hhead := (List.prefix_append_right_inj "http".toList).mp
        (show "http".toList ++ "s://".toList <+: "http".toList ++ ("://".toList ++ rest) from
          List.isPrefixOf_iff_prefix.mp h)
      exact absurd (List.cons_prefix_cons.mp hhead).1 (by decide)
    unfold stripScheme schemeText
    rw [if_neg Bool.false_ne_true, hother]
    dsimp only
    rw [hstrip]
    rfl

theorem colon_not_mem_digits (n : ℕ) : ':' ∉ (toString n).toList.reverse := by
  intro h
  exact absurd (digit_of_mem_toString (List.mem_reverse.mp h)).2 (by decide)

theorem parseHostPort_port (host : List Char) {port : ℕ} (hport : port < 2 ^ 16) (isHttps : Bool) :
    parseHostPort (host ++ ':' :: (toString port).toList) isHttps = .ok (host, port) := by
  have hreverse : (host ++ ':' :: (toString port).toList).reverse =
      (toString port).toList.reverse ++ ':' :: host.reverse := by simp
  unfold parseHostPort
  rw [hreverse, splitFirst_append (colon_not_mem_digits port)]
  dsimp only
  rw [List.reverse_reverse, parseUnsigned_toString hport, List.reverse_reverse]

theorem parseHostPort_default {host : List Char} (hhost : ':' ∉ host) (isHttps : Bool) :
    parseHostPort host isHttps = .ok (host, if isHttps then 443 else 80) := by
  unfold parseHostPort
  rw [splitFirst_of_not_mem (by simpa using hhost)]

/-- A URL of its parts; without a port the host must have no colon in it. -/
structure Written (url : String) (target : Target) : Prop where
  noSlash : '/' ∉ target.host
  path : ∃ rest, target.path = '/' :: rest
  port : target.port < 2 ^ 16
  text : url.toList = schemeText target.isHttps ++
      (target.host ++ ':' :: (toString target.port).toList ++ target.path) ∨
    ':' ∉ target.host ∧ target.port = (if target.isHttps then 443 else 80) ∧
      url.toList = schemeText target.isHttps ++ (target.host ++ target.path)

theorem parseUrl_written {url : String} {target : Target} (h : Written url target) :
    parseUrl url = .ok target := by
  obtain ⟨rest, hpath⟩ := h.path
  rcases h.text with htext | ⟨hcolon, hport, htext⟩
  · have hslash : '/' ∉ target.host ++ ':' :: (toString target.port).toList := by
      rw [List.mem_append, List.mem_cons]
      rintro (hmem | hmem | hmem)
      · exact h.noSlash hmem
      · exact absurd hmem (by decide)
      · exact absurd (digit_of_mem_toString hmem).1 (by decide)
    unfold parseUrl
    rw [htext, stripScheme_written, hpath]
    dsimp only
    rw [splitFirst_append hslash]
    dsimp only
    rw [parseHostPort_port _ h.port, ← hpath]
    rfl
  · unfold parseUrl
    rw [htext, stripScheme_written, hpath]
    dsimp only
    rw [splitFirst_append h.noSlash]
    dsimp only
    rw [parseHostPort_default hcolon, ← hport, ← hpath]
    rfl

/-! ## The request is read -/

/-- The headers that both clients write. -/
def fetchHeaders (host : List Char) : List (List Char × List Char) :=
  [("Host".toList, ' ' :: host), ("User-Agent".toList, " dsearch/0.1".toList),
    ("Accept".toList, " */*".toList), ("Connection".toList, " close".toList)]

theorem requestText_eq (host path : List Char) : requestText host path =
    ("GET ".toList ++ path ++ " HTTP/1.1".toList) ++ '\r' :: '\n' ::
    (("Host: ".toList ++ host) ++ '\r' :: '\n' ::
    ("User-Agent: dsearch/0.1".toList ++ '\r' :: '\n' ::
    ("Accept: */*".toList ++ '\r' :: '\n' ::
    ("Connection: close".toList ++ '\r' :: '\n' :: ([] ++ '\r' :: '\n' :: []))))) := by
  have hparts : ∀ {whole version host : List Char}, whole = version ++ '\r' :: '\n' :: host →
      (String.ofList whole).toList =
        (String.ofList version).toList ++ '\r' :: '\n' :: (String.ofList host).toList := by
    intro whole version host hwhole
    rw [String.toList_ofList, String.toList_ofList, String.toList_ofList, hwhole]
  have hone : " HTTP/1.1\r\nHost: ".toList =
      " HTTP/1.1".toList ++ '\r' :: '\n' :: "Host: ".toList := hparts rfl
  have hlines : ∀ {whole agent accept connection : List Char},
      whole = '\r' :: '\n' :: (agent ++ '\r' :: '\n' :: (accept ++ '\r' :: '\n' ::
        (connection ++ '\r' :: '\n' :: ([] ++ '\r' :: '\n' :: [])))) →
      (String.ofList whole).toList =
        '\r' :: '\n' :: ((String.ofList agent).toList ++ '\r' :: '\n' ::
        ((String.ofList accept).toList ++ '\r' :: '\n' ::
        ((String.ofList connection).toList ++ '\r' :: '\n' :: ([] ++ '\r' :: '\n' :: [])))) := by
    intro whole agent accept connection hwhole
    rw [String.toList_ofList, String.toList_ofList, String.toList_ofList, String.toList_ofList, hwhole]
  have htwo : "\r\nUser-Agent: dsearch/0.1\r\nAccept: */*\r\nConnection: close\r\n\r\n".toList =
      '\r' :: '\n' :: ("User-Agent: dsearch/0.1".toList ++ '\r' :: '\n' ::
        ("Accept: */*".toList ++ '\r' :: '\n' ::
        ("Connection: close".toList ++ '\r' :: '\n' :: ([] ++ '\r' :: '\n' :: [])))) := hlines rfl
  unfold requestText requestRest
  rw [hone, htwo]
  simp only [List.append_assoc, List.cons_append, List.nil_append]

theorem length_requestText (host path : List Char) :
    (requestText host path).length = host.length + path.length + 82 := by
  have hget : "GET ".toList.length = 4 := of_chars (motive := fun cs => cs.length = 4) rfl
  have hbefore : " HTTP/1.1\r\nHost: ".toList.length = 17 :=
    of_chars (motive := fun cs => cs.length = 17) rfl
  have hafter : "\r\nUser-Agent: dsearch/0.1\r\nAccept: */*\r\nConnection: close\r\n\r\n".toList.length =
      61 := of_chars (motive := fun cs => cs.length = 61) rfl
  unfold requestText requestRest
  simp only [List.length_append, hget, hbefore, hafter]
  omega

theorem lines_requestText {host path : List Char} (hhost : '\n' ∉ host) (hpath : '\n' ∉ path) :
    lines (requestText host path) = ("GET ".toList ++ path ++ " HTTP/1.1".toList) ::
      ((fetchHeaders host).map (fun header => header.1 ++ ':' :: header.2) ++ [] :: lines []) := by
  have hliteral : ∀ {cs : List Char}, '\n' ∉ cs → '\n' ∉ (String.ofList cs).toList :=
    fun h => of_chars (motive := fun cs => '\n' ∉ cs) h
  have hfirst : '\n' ∉ "GET ".toList ++ path ++ " HTTP/1.1".toList := by simp [hpath]
  have hsecond : '\n' ∉ "Host: ".toList ++ host := by simp [hhost]
  have hagent : '\n' ∉ "User-Agent: dsearch/0.1".toList := hliteral (by decide)
  have haccept : '\n' ∉ "Accept: */*".toList := hliteral (by decide)
  have hconnection : '\n' ∉ "Connection: close".toList := hliteral (by decide)
  rw [requestText_eq, lines_crlf hfirst, lines_crlf hsecond, lines_crlf hagent, lines_crlf haccept,
    lines_crlf hconnection, lines_crlf List.not_mem_nil]
  rfl

section
variable {toLowercase : String → String}

theorem headers_fetch (hlower : LowersAscii toLowercase) {host : List Char}
    (hhost : host.length ≤ 2047) (more : List (List Char)) :
    ∃ headers, parseHeaders toLowercase ((fetchHeaders host).map
        (fun header => header.1 ++ ':' :: header.2) ++ [] :: more) ∅ = .ok headers ∧
      checkContentLength headers = .ok () := by
  have hnames : ∀ header ∈ fetchHeaders host, ':' ∉ header.1 := by simp [fetchHeaders]
  have hvalues : ∀ header ∈ fetchHeaders host,
      (String.ofList (trim header.2)).utf8ByteSize ≤ MAX_HEADER_VALUE_LEN := by
    refine fun header hheader => value_short ?_
    simp only [fetchHeaders, List.mem_cons, List.not_mem_nil, or_false] at hheader
    rcases hheader with rfl | rfl | rfl | rfl
    · rw [List.length_cons]
      omega
    · decide
    · decide
    · decide
  have hlow : ∀ {name : List Char} {lower : List Char}, name.all (fun c => decide (c.toNat < 128)) = true →
      trim name = name → name.map Char.toLower = lower →
      toLowercase (String.ofList (trim (String.ofList name).toList)) = String.ofList lower := by
    intro name lower hascii htrim hmap
    have hchars : ∀ c ∈ (String.ofList name).toList, c.toNat < 128 := by
      rw [String.toList_ofList]
      exact fun c hc => of_decide_eq_true (List.all_eq_true.mp hascii c hc)
    rw [String.toList_ofList, htrim, hlower _ hchars, String.toList_ofList, hmap]
  have hhostName : toLowercase (String.ofList (trim "Host".toList)) = "host" := hlow rfl rfl rfl
  have hagent : toLowercase (String.ofList (trim "User-Agent".toList)) = "user-agent" :=
    hlow rfl rfl rfl
  have haccept : toLowercase (String.ofList (trim "Accept".toList)) = "accept" := hlow rfl rfl rfl
  have hconnection : toLowercase (String.ofList (trim "Connection".toList)) = "connection" :=
    hlow rfl rfl rfl
  refine ⟨_, parseHeaders_written (by simp [fetchHeaders, MAX_HEADERS]) hnames hvalues more, ?_⟩
  unfold fetchHeaders
  simp only [List.foldl_cons, List.foldl_nil]
  rw [hhostName, hagent, haccept, hconnection, checkContentLength, OrderedTable.get_insert, if_neg (by decide), OrderedTable.get_insert,
    if_neg (by decide), OrderedTable.get_insert, if_neg (by decide), OrderedTable.get_insert,
    if_neg (by decide)]
  rfl

/-- The request is a GET request for the path of the URL. -/
theorem parse_requestText (hlower : LowersAscii toLowercase) {host path : List Char}
    (hfeed : '\n' ∉ host) (hshort : host.length ≤ 2047) (hpath : Sendable path) :
    ∃ headers body, parseHttpRequest toLowercase (requestText host path) = .ok
      { method := "GET"
        path := String.ofList (splitFirst '?' path).1
        query := parseQueryString ((splitFirst '?' path).2.getD [])
        headers := headers
        body := body } := by
  obtain ⟨headers, hheaders, hlength⟩ := headers_fetch hlower hshort (lines [])
  have hparts : splitN 3 ' ' ("GET ".toList ++ path ++ " HTTP/1.1".toList) =
      ["GET".toList, path, "HTTP/1.1".toList] := by
    have hget : splitFirst ' ' ("GET ".toList ++ (path ++ " HTTP/1.1".toList)) =
        ("GET".toList, some (path ++ " HTTP/1.1".toList)) :=
      splitFirst_append (a := "GET".toList) (by decide) _
    have hrest : splitFirst ' ' (path ++ " HTTP/1.1".toList) = (path, some "HTTP/1.1".toList) :=
      splitFirst_append hpath.noSpace _
    rw [List.append_assoc, splitN, hget]
    dsimp only
    rw [splitN, hrest]
    rfl
  refine ⟨headers, String.ofList (bodyOf (requestText host path)),
    parseHttpRequest_eq_ok_iff.mpr ⟨?_, ?_, rfl, ?_, hlength⟩⟩
  · rw [headOf, lines_requestText hfeed hpath.noLineFeed]
    dsimp only
    rw [hparts, hheaders]
    rfl
  · rw [String.toList_ofList]
    exact hpath.valid
  · have hget : '\n' ∉ "GET ".toList ++ path := by
      simp [hpath.noLineFeed]
    have hbody := (bodyOf_isInfix hget (requestRest host)).length_le
    have hbytes := length_encode_le (bodyOf (requestText host path))
    have hrest := length_requestText host path
    have hget : "GET ".toList.length = 4 := of_chars (motive := fun cs => cs.length = 4) rfl
    rw [← requestText] at hbody
    unfold requestText at hrest
    simp only [List.length_append, hget] at hrest
    dsimp only
    rw [utf8ByteSize_ofList, MAX_BODY_SIZE]
    omega

end

/-! ## The page of a node -/

section
variable {ed : Ed25519} (api : LocalApi ed) (s : NodeState) (web : Web)

/-- The address is that of a node in state `s`: a request comes in one read, and the response is written
and the connection closed. -/
structure Serves (addr : String) : Prop where
  connects : web.connect addr = .ok ()
  answers : ∀ request resp, request.length ≤ 65536 →
    ((api.handleConnection [request]).run s).2 = .ok (some (.ok resp)) →
    ∃ reads, web.exchange addr request = .ok reads ∧
      Delivers (resp.toBytes api.env.toLowercase api.env.order) (.ok []) reads

/-- The page of a response is its body. -/
theorem textOf_toBytes {toLowercase : String → String} {order : HashOrder} {resp : HttpResponse}
    {body : List Char} (hbody : resp.body = encode body)
    (hclean : ∀ row ∈ resp.headers.toList, '\r' ∉ row.1.toList ∧ '\r' ∉ row.2.toList)
    (hline : ¬ blankLine <:+: resp.statusText.toList ++ ['\r', '\n']) :
    textOf web (resp.toBytes toLowercase order) = .ok (String.ofList body) := by
  have hbytes : resp.toBytes toLowercase order =
      encode (writtenHead toLowercase order resp ++ body) := by
    rw [toBytes_eq, hbody, encode_append]
  obtain ⟨head, hcut⟩ := breakOn_writtenHead hclean (mt infix_writtenStatusLine_iff.mp hline) body
  unfold textOf
  rw [fromUtf8_eq_some_iff.mpr hbytes]
  dsimp only
  unfold pageOf
  rw [hcut]

variable {api s web}

/-- What is fetched from a node is the body of what `route` answers to the path. -/
theorem fetch_of_route (hlower : LowersAscii api.env.toLowercase) {url : String} {target : Target}
    (hurl : Written url target) (hplain : target.isHttps = false)
    (hserves : Serves api s web (address target.host target.port)) (hfeed : '\n' ∉ target.host)
    (hshort : target.host.length ≤ 2047) (hpath : Sendable target.path)
    (hfits : (encode (requestText target.host target.path)).length ≤ 65536) :
    ∃ req : HttpRequest, req.method = "GET" ∧
      req.path = String.ofList (splitFirst '?' target.path).1 ∧
      req.query = parseQueryString ((splitFirst '?' target.path).2.getD []) ∧
      ∀ resp body, ((api.route req).run s).2 = .ok resp → resp.body = encode body →
        (∀ row ∈ resp.headers.toList, '\r' ∉ row.1.toList ∧ '\r' ∉ row.2.toList) →
        ¬ blankLine <:+: resp.statusText.toList ++ ['\r', '\n'] →
        (resp.toBytes api.env.toLowercase api.env.order).length ≤ MAX_RESPONSE →
        fetchUrlBlocking web url = some (.ok (String.ofList body)) := by
  obtain ⟨headers, text, hparse⟩ := parse_requestText hlower hfeed hshort hpath
  refine ⟨⟨"GET", String.ofList (splitFirst '?' target.path).1,
    parseQueryString ((splitFirst '?' target.path).2.getD []), headers, text⟩, rfl, rfl, rfl,
    fun resp body hroute hbody hclean hline hsize => ?_⟩
  have hne : encode (requestText target.host target.path) ≠ [] := by
    intro hnil
    have hget : "GET ".toList = [] :=
      (List.append_eq_nil_iff.mp (List.append_eq_nil_iff.mp (encode_eq_nil.mp hnil)).1).1
    exact absurd hget (by decide)
  have hanswer : ((api.handleConnection [encode (requestText target.host target.path)]).run s).2 =
      .ok (some (.ok resp)) := by
    unfold LocalApi.handleConnection Local.handleConnection
    dsimp only
    rw [List.headD_cons, if_neg hne, fromUtf8Lossy_encode, hparse]
    dsimp only
    rw [Client.run_bind, hroute]
    rfl
  obtain ⟨reads, hexchange, hdelivers⟩ := hserves.answers _ resp hfits hanswer
  unfold fetchUrlBlocking fetchHttpBlocking
  rw [parseUrl_written hurl]
  dsimp only
  rw [hplain, if_neg Bool.false_ne_true, hserves.connects]
  dsimp only
  rw [hexchange]
  dsimp only
  have hreceived : received plainError (resp.toBytes api.env.toLowercase api.env.order) (.ok []) =
      .ok (resp.toBytes api.env.toLowercase api.env.order) := if_neg (Nat.not_lt.mpr hsize)
  have htext : textOf web (resp.toBytes api.env.toLowercase api.env.order) =
      .ok (String.ofList body) := textOf_toBytes web hbody hclean hline
  rw [hdelivers.readResponse, hreceived, Option.map_some, Except.bind, htext]

/-! ## A record of a node -/

/-- The jobs fetch over this network. -/
def Fetches (web : Web) (env : ScrapeEnv) : Prop :=
  ∀ url fetched, fetchUrlBlocking web url = some fetched → env.fetchUrl url = fetched

theorem isText_valueJson (record : ContentRecord) : IsText record.valueJson := by
  refine isText_ofFields fun field hfield => ?_
  simp only [List.mem_cons, List.not_mem_nil, or_false] at hfield
  rcases hfield with rfl | rfl | rfl | rfl | rfl | rfl | rfl | rfl | rfl | rfl | rfl
  case inr.inl => exact isText_ofNat _
  case inr.inr.inl => exact isText_ofNat _
  case inr.inr.inr.inr.inr.inr.inr.inr.inr.inr =>
    refine isText_ofArray fun item hitem => ?_
    obtain ⟨tag, -, rfl⟩ := List.mem_map.mp hitem
    exact isText_ofString tag
  all_goals exact isText_ofString _

theorem rows_insert {headers : Table String} {P : String × String → Prop}
    (h : ∀ row ∈ headers.toList, P row) {name value : String} (hnew : P (name, value)) :
    ∀ row ∈ (headers.insert name value).toList, P row := by
  rintro ⟨key, text⟩ hrow
  rw [Std.ExtTreeMap.mem_toList_iff_getElem?_eq_some] at hrow
  rcases OrderedTable.get_insert_eq_some.mp hrow with ⟨rfl, rfl⟩ | ⟨-, hold⟩
  · exact hnew
  · exact h _ (Std.ExtTreeMap.mem_toList_iff_getElem?_eq_some.mpr hold)

theorem recordFound_clean {nodeId : String} (h : '\r' ∉ nodeId.toList) (record : ContentRecord) :
    ∀ row ∈ (recordFound nodeId record).headers.toList, '\r' ∉ row.1.toList ∧ '\r' ∉ row.2.toList := by
  unfold recordFound HttpResponse.withNodeHeaders HttpResponse.json HttpResponse.withHeader
    HttpResponse.ok HttpResponse.new
  have hnone : ∀ row ∈ (∅ : Table String).toList, '\r' ∉ row.1.toList ∧ '\r' ∉ row.2.toList := by
    intro row hrow
    rw [Std.ExtTreeMap.mem_toList_iff_getElem?_eq_some, Std.ExtTreeMap.getElem?_empty] at hrow
    cases hrow
  exact rows_insert (rows_insert (rows_insert (rows_insert (rows_insert hnone (by decide)) (by decide))
    (by decide)) ⟨by simp, h⟩) (by decide)

/-- What a url job has stored that reports a record as inserted or replaced. -/
theorem runUrlJob_stores {ed' : Ed25519} (store : Store ed') {env : ScrapeEnv}
    {name url lifecycle body : String} {ttlSecs now : ℕ} {db : Db} {result : ScrapeResult}
    (hfetch : env.fetchUrl url = .ok body)
    (hresult : ((Scraper.runUrlJob store env name url lifecycle ttlSecs now).run db).2 = .ok result)
    (hnew : result.inserted = true ∨ result.replaced = true) :
    ∃ clean, Sanitize.sanitizeRecord (Scraper.urlRecord env name url lifecycle ttlSecs body now) =
        .ok clean ∧
      ((Scraper.runUrlJob store env name url lifecycle ttlSecs now).run db).1.records[
        result.recordId]? = some (store.signed clean) := by
  rw [Scraper.runUrlJob, hfetch] at hresult ⊢
  dsimp only at hresult ⊢
  cases hclean : Sanitize.sanitizeRecord
      (Scraper.urlRecord env name url lifecycle ttlSecs body now) with
  | error e =>
    rw [hclean] at hresult
    cases hresult
  | ok clean =>
    rw [hclean] at hresult
    dsimp only at hresult ⊢
    rw [Client.run_andThen_done] at hresult ⊢
    refine ⟨clean, rfl, ?_⟩
    obtain ⟨-, e, hrun⟩ | ⟨-, -, hrun⟩ | ⟨-, -, hcontent, -⟩ := store.insertRecord_ends clean db
    · rw [hrun] at hresult
      cases hresult
    · rw [hrun] at hresult
      obtain rfl := Outcome.ok.inj hresult
      -- a skipped record is neither inserted nor replaced
      rcases hnew with hnew | hnew <;> cases hnew
    · cases hout : ((store.insertRecord clean).run db).2 with
      | ok stored =>
        rw [hout] at hresult
        obtain rfl := Outcome.ok.inj hresult
        dsimp only
        rw [hcontent.records, OrderedTable.get_insert, if_pos rfl]
      | err e =>
        rw [hout] at hresult
        cases hresult
      | panic =>
        rw [hout] at hresult
        cases hresult

/-- The page of a record of another node is the JSON of that record. -/
theorem fetchUrl_record {api : LocalApi ed} {s : NodeState} {web : Web} {env : ScrapeEnv}
    (hlower : LowersAscii api.env.toLowercase) (hnode : '\r' ∉ api.nodeId.toList) {id : String}
    {record : ContentRecord} (hstored : s.db.records[id]? = some record)
    (hword : ∀ c ∈ [' ', '\n', '?'], c ∉ id.toList) (hnull : '\x00' ∉ percentDecode id.toList)
    (hparent : "..".toList ∉ (percentDecode id.toList).splitOn '/') {host : List Char} {port : ℕ}
    {url : String} (hurl : Written url ⟨host, cmdRecordPath id, port, false⟩)
    (hserves : Serves api s web (address host port)) (hfeed : '\n' ∉ host)
    (hshort : host.length ≤ 2047)
    (hfits : (encode (requestText host (cmdRecordPath id))).length ≤ 65536)
    (hsize : ((recordFound api.nodeId record).toBytes api.env.toLowercase api.env.order).length ≤
      MAX_RESPONSE)
    (hfetches : Fetches web env) :
    ∃ text, record.valueJson = encode text ∧ env.fetchUrl url = .ok (String.ofList text) := by
  have hmem : ∀ c ∈ [' ', '\n', '?'], c ∉ cmdRecordPath id := by
    have hroute : ∀ c ∈ [' ', '\n', '?'], c ∉ "/record/".toList := by simp
    intro c hc h
    rcases List.mem_append.mp h with h | h
    · exact hroute c hc h
    · exact hword c hc h
  have hquery := splitFirst_of_not_mem (hmem '?' (by decide))
  have hvalid := (validatePath_cmdRecordPath_iff id).mpr ⟨hnull, hparent⟩
  have hsendable : Sendable (cmdRecordPath id) :=
    ⟨hmem ' ' (by decide), hmem '\n' (by decide), by rwa [hquery]⟩
  obtain ⟨req, hmethod, hpath, -, hpage⟩ :=
    fetch_of_route hlower hurl rfl hserves hfeed hshort hsendable hfits
  rw [hquery] at hpath
  obtain ⟨text, htext⟩ := isText_valueJson record
  have hroute : ((api.route req).run s).2 = .ok (recordFound api.nodeId record) := by
    have hcases := getRoute_cases api req (by
      intro start hstart _
      rw [hpath, String.toList_ofList] at hstart
      exact List.prefix_or_prefix_of_prefix hstart (List.prefix_append _ id.toList))
    rw [hpath, String.toList_ofList] at hcases
    simp only [LocalApi.route, hmethod]
    rcases hcases with ⟨id', hid, hget⟩ | ⟨hnone, -⟩
    · obtain rfl := String.toList_inj.mp (List.append_cancel_left hid)
      rw [hget, answering_getRecord_run, Records.getRecord, hstored]
    · exact absurd (List.prefix_append _ _) hnone
  exact ⟨text, htext, hfetches _ _ (hpage _ text hroute htext (recordFound_clean hnode record)
    (show ¬ blankLine <:+: "OK".toList ++ ['\r', '\n'] by decide) hsize)⟩

/-- A url job whose page is a record of another node stores the JSON of that record. -/
theorem record_mirrored {ed' : Ed25519} (api : LocalApi ed) (s : NodeState) (web : Web)
    (env : ScrapeEnv) (store : Store ed') (hlower : LowersAscii api.env.toLowercase)
    (hnode : '\r' ∉ api.nodeId.toList) (id : String) (record : ContentRecord)
    (hstored : s.db.records[id]? = some record) (hword : ∀ c ∈ [' ', '\n', '?'], c ∉ id.toList)
    (hnull : '\x00' ∉ percentDecode id.toList)
    (hparent : "..".toList ∉ (percentDecode id.toList).splitOn '/')
    (host : List Char) (port : ℕ) (url : String)
    (hurl : Written url ⟨host, cmdRecordPath id, port, false⟩)
    (hserves : Serves api s web (address host port)) (hfeed : '\n' ∉ host)
    (hshort : host.length ≤ 2047)
    (hfits : (encode (requestText host (cmdRecordPath id))).length ≤ 65536)
    (hsize : ((recordFound api.nodeId record).toBytes api.env.toLowercase api.env.order).length ≤
      MAX_RESPONSE)
    (hfetches : Fetches web env) (name lifecycle : String) (ttlSecs now : ℕ) (db : Db)
    (result : ScrapeResult)
    (hresult : ((Scraper.runUrlJob store env name url lifecycle ttlSecs now).run db).2 = .ok result)
    (hnew : result.inserted = true ∨ result.replaced = true) :
    ∃ page mirrored, asBytes page = record.valueJson ∧
      ((Scraper.runUrlJob store env name url lifecycle ttlSecs now).run db).1.records[
        result.recordId]? = some mirrored ∧
      mirrored.body = Sanitize.sanitizeString page ∧
      mirrored.sourceUrl = Sanitize.sanitizeString url := by
  obtain ⟨text, htext, hpage⟩ := fetchUrl_record hlower hnode hstored hword hnull hparent hurl hserves
    hfeed hshort hfits hsize hfetches
  obtain ⟨clean, hclean, hmirrored⟩ := runUrlJob_stores store hpage hresult hnew
  obtain ⟨-, tags, -, hcleaned⟩ := Sanitize.sanitizeRecord_eq_ok.mp hclean
  obtain ⟨sig, hsig⟩ := store.signed_eq clean
  refine ⟨String.ofList text, _, ?_, hmirrored, ?_, ?_⟩
  · rw [htext, ← encode_toList, String.toList_ofList]
  · exact (congrArg ContentRecord.body hsig).trans (congrArg ContentRecord.body hcleaned)
  · exact (congrArg ContentRecord.sourceUrl hsig).trans (congrArg ContentRecord.sourceUrl hcleaned)

end

/-! ## A page in ASCII -/

theorem toNat_of_single {c : Char} {byte : UInt8} (h : String.utf8EncodeChar c = [byte]) :
    c.toNat = byte.toNat := by
  have hsize : c.utf8Size = 1 := by
    rw [← String.length_utf8EncodeChar, h]
    rfl
  have hlow : c.toNat ≤ 127 := UInt32.le_iff_toNat_le.mp (Char.utf8Size_eq_one_iff.mp hsize)
  rw [String.utf8EncodeChar_eq_singleton hsize] at h
  rw [← (List.cons.inj h).1, UInt32.toNat_toUInt8]
  exact (Nat.mod_eq_of_lt (by omega)).symm

/-- Nothing is taken out of printable ASCII. -/
theorem sanitizeString_of_bytes {cs : List Char}
    (h : ((encode cs).all fun b => 0x20 ≤ b.toNat && b.toNat < 0x7f) = true) :
    Sanitize.sanitizeString (String.ofList cs) = String.ofList cs := by
  rw [Sanitize.sanitizeString_eq_self_iff, String.toList_ofList]
  intro c hc
  have hbytes : ∀ byte ∈ String.utf8EncodeChar c, 0x20 ≤ byte.toNat ∧ byte.toNat < 0x7f := by
    intro byte hbyte
    have hall := List.all_eq_true.mp h byte (List.mem_flatMap.mpr ⟨c, hc, hbyte⟩)
    simpa only [Bool.and_eq_true, decide_eq_true_eq] using hall
  rcases utf8EncodeChar_bytes c with ⟨byte, -, hsingle⟩ | hhigh
  · obtain ⟨hlow, hlt⟩ := hbytes byte (by rw [hsingle]; exact List.mem_singleton_self byte)
    rw [← toNat_of_single hsingle] at hlow hlt
    exact Sanitize.isKept_ascii hlow hlt
  · obtain ⟨byte, hbyte⟩ := List.exists_mem_of_ne_nil _ (String.utf8EncodeChar_ne_nil (c := c))
    have hlt := (hbytes byte hbyte).2
    have hge := hhigh byte hbyte
    omega

/-- A url job reports a page as new whose record an empty store without a quota can take. -/
theorem runUrlJob_inserts {ed' : Ed25519} (store : Store ed') {env : ScrapeEnv}
    {name url lifecycle page : String} {ttlSecs now : ℕ} {record : ContentRecord}
    (hfetch : env.fetchUrl url = .ok page)
    (hclean : Sanitize.sanitizeRecord (Scraper.urlRecord env name url lifecycle ttlSecs page now) =
      .ok record)
    (hquota : store.config.quotaMb = 0) (hsize : (store.signed record).validateSize = .ok ())
    (hfresh : ¬ Index.Relisted Db.empty record.id record.schema record.tags) :
    ((Scraper.runUrlJob store env name url lifecycle ttlSecs now).run Db.empty).2 =
      .ok ⟨name, record.id, true, false⟩ := by
  rw [Scraper.runUrlJob, hfetch]
  dsimp only
  rw [hclean]
  dsimp only
  rw [Client.run_andThen_done, store.insertRecord_inserts hquota hsize hfresh]
  rfl

/-! ## A network of one node -/

/-- Every address is that of a node in state `s`. -/
def nodeWeb {ed : Ed25519} (api : LocalApi ed) (s : NodeState) : Web where
  connect _ := .ok ()
  exchange _ request := match ((api.handleConnection [request]).run s).2 with
    | .ok (some (.ok resp)) => .ok [.ok (resp.toBytes api.env.toLowercase api.env.order), .ok []]
    | _ => .ok [.ok []]
  serverName _ := .error "no name"
  tlsClient _ := .error "no TLS"
  tlsExchange _ _ := .error "no TLS"
  utf8Error _ := "invalid utf-8 sequence"

theorem toBytes_ne_nil (toLowercase : String → String) (order : HashOrder) (resp : HttpResponse) :
    resp.toBytes toLowercase order ≠ [] := by
  rw [toBytes_eq]
  intro hnil
  have hhead := encode_eq_nil.mp (List.append_eq_nil_iff.mp hnil).1
  unfold writtenHead at hhead
  simp at hhead

theorem serves_nodeWeb {ed : Ed25519} (api : LocalApi ed) (s : NodeState) (addr : String) :
    Serves api s (nodeWeb api s) addr where
  connects := rfl
  answers request resp _ hanswer := by
    refine ⟨[.ok (resp.toBytes api.env.toLowercase api.env.order), .ok []], ?_, ⟨[_], [], rfl, ?_, ?_⟩,
      .inl rfl⟩
    · unfold nodeWeb
      dsimp only
      rw [hanswer]
    · exact List.flatten_singleton
    · intro chunk hchunk
      rw [List.mem_singleton.mp hchunk]
      exact toBytes_ne_nil _ _ resp

/-- A runner whose pages come over this network. -/
def nodeEnv {ed : Ed25519} (api : LocalApi ed) (s : NodeState) : ScrapeEnv :=
  { stillEnv with fetchUrl := fun url => (fetchUrlBlocking (nodeWeb api s) url).getD (.error "") }

def scrapedUrl : String := "http://127.0.0.1:7743/record/r1"

def scrapedState : NodeState := .new (Records.insertRecordTx (makeRecord "r1" "src" 1 0) none .empty).1

theorem fetches_nodeEnv {ed : Ed25519} (api : LocalApi ed) (s : NodeState) :
    Fetches (nodeWeb api s) (nodeEnv api s) := by
  intro url fetched hfetched
  change (fetchUrlBlocking (nodeWeb api s) url).getD (.error "") = fetched
  rw [hfetched]
  rfl

theorem written_scrapedUrl : Written scrapedUrl ⟨"127.0.0.1".toList, cmdRecordPath "r1", 7743, false⟩ :=
  ⟨by decide, ⟨_, rfl⟩, by decide, .inl (by decide +kernel)⟩

/-- What the job makes of the page. -/
def mirroredRecord (page : String) : ContentRecord where
  id := "fc"
  sourceUrl := scrapedUrl
  sourceHash := "9c"
  schema := "generic/kv"
  tags := ["scraper:n"]
  body := page
  createdAt := 5
  expiresAt := 0
  scrapeSource := .url
  refreshPolicy := .once
  sig := ""

theorem urlRecord_mirrored {text : List Char}
    (htext : (makeRecord "r1" "src" 1 0).valueJson = encode text) :
    Scraper.urlRecord (nodeEnv lookupApi scrapedState) "n" scrapedUrl "pinned" 0 (String.ofList text) 5 =
      mirroredRecord (String.ofList text) := by
  have hhash : computeSourceHash stillEnv.blake3 stillEnv.toLowercase scrapedUrl = "9c" := by
    decide +kernel
  have hid : computeRecordId stillEnv.blake3 (asBytes scrapedUrl) (asBytes "9c") (asBytes "generic/kv")
      [] (makeRecord "r1" "src" 1 0).valueJson (asBytes (toString 5)) = "fc" := by decide +kernel
  have hbytes : asBytes (String.ofList text) = (makeRecord "r1" "src" 1 0).valueJson := by
    rw [htext, ← encode_toList, String.toList_ofList]
  rw [← hbytes] at hid
  unfold Scraper.urlRecord nodeEnv mirroredRecord
  dsimp only
  rw [hhash, hid]
  rfl

theorem mirroredRecord_unchanged {text : List Char}
    (htext : (makeRecord "r1" "src" 1 0).valueJson = encode text) :
    Sanitize.Unchanged (mirroredRecord (String.ofList text)) where
  id := Sanitize.sanitizeString_ascii (by decide)
  sourceUrl := Sanitize.sanitizeString_ascii (by decide)
  sourceHash := Sanitize.sanitizeString_ascii (by decide)
  schema := Sanitize.sanitizeString_ascii (by decide)
  tags := show ["scraper:n"].mapM Sanitize.sanitizeTag = .ok ["scraper:n"] by decide +kernel
  body := sanitizeString_of_bytes (by rw [← htext]; decide +kernel)
  bodySize := by
    have hbody : (mirroredRecord (String.ofList text)).body = String.ofList text := rfl
    rw [hbody, utf8ByteSize_ofList, ← htext]
    decide +kernel

theorem mirroredRecord_short : (mirroredRecord "").Short where
  id := JsonText.utf8ByteSize_literal_le (by decide)
  sourceUrl := JsonText.utf8ByteSize_literal_le (by decide)
  sourceHash := JsonText.utf8ByteSize_literal_le (by decide)
  schema := JsonText.utf8ByteSize_literal_le (by decide)
  tags := (JsonText.length_ofArray_singleton_le (JsonText.utf8ByteSize_literal_le le_rfl)).trans
    (by decide)
  body := by decide
  createdAt := by decide
  expiresAt := by decide
  sig := by decide

theorem validateSize_mirrored {text : List Char}
    (htext : (makeRecord "r1" "src" 1 0).valueJson = encode text) :
    (mirroredRecord (String.ofList text)).validateSize = .ok () := by
  have hempty := mirroredRecord_short.jsonLen_le
  have hescaped : escapedLength (String.ofList text) ≤ 1000 := by
    rw [escapedLength, ← encode_toList, String.toList_ofList, ← htext]
    decide +kernel
  have hlength := (mirroredRecord (String.ofList text)).jsonLen_body
  have hsame : { mirroredRecord (String.ofList text) with body := "" } = mirroredRecord "" := rfl
  have hbody : (mirroredRecord (String.ofList text)).body = String.ofList text := rfl
  rw [hsame, hbody] at hlength
  have hmax : MAX_RECORD_SIZE = 1_048_576 := rfl
  exact if_neg (by omega)

/-- The answer with a short record is not too long for the scraper. -/
theorem recordFound_fits {record : ContentRecord} (h : record.Short) (toLowercase : String → String)
    (order : HashOrder) :
    ((recordFound lookupApi.nodeId record).toBytes toLowercase order).length ≤ MAX_RESPONSE := by
  have hheaders : (recordFound lookupApi.nodeId record).headers.toList =
      [("connection", "close"), ("content-type", "application/json; charset=utf-8"),
        ("server", "dsearch"), ("x-node-id", "n"), ("x-protocol-version", "1")] := rfl
  have hliteral : ∀ {cs : List Char}, cs.length ≤ 40 → (String.ofList cs).utf8ByteSize ≤ 160 :=
    fun hcs => JsonText.utf8ByteSize_literal_le (by omega)
  have hrow : ∀ row ∈ (recordFound lookupApi.nodeId record).headers.toList,
      row.1.utf8ByteSize + row.2.utf8ByteSize + 16 ≤ 400 := by
    have htexts : ∀ {name value : List Char}, name.length ≤ 40 ∧ value.length ≤ 40 →
        (String.ofList name).utf8ByteSize + (String.ofList value).utf8ByteSize + 16 ≤ 400 := by
      intro name value h
      have hname := hliteral h.1
      have hvalue := hliteral h.2
      omega
    rw [hheaders]
    simp only [List.forall_mem_cons]
    exact ⟨htexts (by decide), htexts (by decide), htexts (by decide), htexts (by decide),
      htexts (by decide), fun _ h => absurd h List.not_mem_nil⟩
  have hrows : HttpResponse.headerBytes (recordFound lookupApi.nodeId record).headers ≤ 5 * 400 := by
    have hsum := List.sum_le_card_nsmul _ 400 (List.forall_mem_map.mpr hrow)
    rw [hheaders] at hsum
    rw [HttpResponse.headerBytes, hheaders]
    exact hsum
  have hbytes := HttpResponse.length_toBytes_le toLowercase order (recordFound lookupApi.nodeId record)
  have hbody : (recordFound lookupApi.nodeId record).body.length = record.jsonLen :=
    record.length_valueJson
  have hprinted : ∀ {n : ℕ}, n < 10 ^ 20 → (toString n).utf8ByteSize ≤ 80 := by
    intro n hn
    have hdigits := JsonText.length_ofNat_le (by decide) hn
    rwa [JsonText.ofNat, length_asBytes] at hdigits
  have hlength := h.jsonLen_le
  have hcount := hprinted (show record.jsonLen < 10 ^ 20 by omega)
  have hstatus : (toString (recordFound lookupApi.nodeId record).status).utf8ByteSize ≤ 80 :=
    hprinted (show 200 < 10 ^ 20 by decide)
  have htext : (recordFound lookupApi.nodeId record).statusText.utf8ByteSize ≤ 160 :=
    hliteral (show ['O', 'K'].length ≤ 40 by decide)
  rw [hbody] at hbytes
  unfold MAX_RESPONSE
  omega

theorem record_mirrored_node : ∃ page mirrored,
    asBytes page = (makeRecord "r1" "src" 1 0).valueJson ∧
    ((Scraper.runUrlJob plainStore (nodeEnv lookupApi scrapedState) "n" scrapedUrl "pinned" 0 5).run
      Db.empty).1.records["fc"]? = some mirrored ∧
    mirrored.body = Sanitize.sanitizeString page ∧
    mirrored.sourceUrl = Sanitize.sanitizeString scrapedUrl := by
  have hnode : '\r' ∉ lookupApi.nodeId.toList := by decide
  have hstored : scrapedState.db.records["r1"]? = some (makeRecord "r1" "src" 1 0) := by
    decide +kernel
  have hword : ∀ c ∈ [' ', '\n', '?'], c ∉ "r1".toList := by simp
  have hnull : '\x00' ∉ percentDecode "r1".toList := by decide
  have hparent : "..".toList ∉ (percentDecode "r1".toList).splitOn '/' := by decide
  have hserves := serves_nodeWeb lookupApi scrapedState (address "127.0.0.1".toList 7743)
  have hfeed : '\n' ∉ "127.0.0.1".toList := by decide
  have hshort : "127.0.0.1".toList.length ≤ 2047 := by decide
  have hfits : (encode (requestText "127.0.0.1".toList (cmdRecordPath "r1"))).length ≤ 65536 := by
    have hpath : (cmdRecordPath "r1").length = 10 := by decide
    have hencoded := length_encode_le (requestText "127.0.0.1".toList (cmdRecordPath "r1"))
    rw [length_requestText, hpath] at hencoded
    omega
  have hsize : ((recordFound lookupApi.nodeId (makeRecord "r1" "src" 1 0)).toBytes
      lookupApi.env.toLowercase lookupApi.env.order).length ≤ MAX_RESPONSE :=
    recordFound_fits (makeRecord_short "" (by decide) (by decide) (by decide) (by decide) (by decide)) _ _
  have hfetches := fetches_nodeEnv lookupApi scrapedState
  obtain ⟨text, htext, hpage⟩ := fetchUrl_record lowersAscii_asciiLowercase hnode hstored hword hnull
    hparent written_scrapedUrl hserves hfeed hshort hfits hsize hfetches
  have hclean : Sanitize.sanitizeRecord (Scraper.urlRecord (nodeEnv lookupApi scrapedState) "n"
      scrapedUrl "pinned" 0 (String.ofList text) 5) = .ok (mirroredRecord (String.ofList text)) := by
    rw [urlRecord_mirrored htext]
    exact (mirroredRecord_unchanged htext).sanitizeRecord
  have hfresh : ¬ Index.Relisted Db.empty "fc" "generic/kv" ["scraper:n"] := fun h =>
    h.2 ⟨List.nodup_singleton _, fun tag _ => List.not_mem_nil⟩
  have hresult := runUrlJob_inserts plainStore hpage hclean rfl (validateSize_mirrored htext) hfresh
  exact record_mirrored lookupApi scrapedState (nodeWeb lookupApi scrapedState)
    (nodeEnv lookupApi scrapedState) plainStore lowersAscii_asciiLowercase hnode "r1"
    (makeRecord "r1" "src" 1 0) hstored hword hnull hparent "127.0.0.1".toList 7743 scrapedUrl
    written_scrapedUrl hserves hfeed hshort hfits hsize hfetches "n" "pinned" 0 5 Db.empty
    ⟨"n", "fc", true, false⟩ hresult (.inl rfl)

end DSearch.Fetch

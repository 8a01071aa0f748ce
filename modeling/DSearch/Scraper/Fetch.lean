import DSearch.Api.ClientAnswers
import DSearch.Foundations.ValidText

/-! # Fetching a page: `fetch_url` of `scraper/job.rs`

The client of the url jobs: it takes a URL apart, writes one request, reads to the end of the stream and
keeps what comes after the first empty line. What the two ends of the network answer is `Web`; TLS, which
is the work of `rustls`, is a part of it. -/

namespace DSearch.Fetch
set_option autoImplicit false
open RustText Sign Utf8Text Request

inductive ReadError where
  | unexpectedEof (e : String)
  | other (e : String)
  deriving DecidableEq, Repr

abbrev ReadResult := Except ReadError Bytes

/-- What the network answers: to a connection, and to a request the reads of the response, or the
error of writing the request. -/
structure Web where
  connect : String → Except String Unit
  exchange : String → Bytes → Except String (List ReadResult)
  serverName : String → Except String Unit
  tlsClient : String → Except String Unit
  tlsExchange : String → Bytes → Except String (List ReadResult)
  /-- The text of a `Utf8Error`. -/
  utf8Error : Bytes → String

/-! ## URLs and requests -/

structure Target where
  host : List Char
  path : List Char
  port : ℕ
  isHttps : Bool
  deriving DecidableEq, Repr

def stripScheme (url : List Char) : Option (Bool × List Char) :=
  match stripPrefix "https://".toList url with
  | some rest => some (true, rest)
  | none => (stripPrefix "http://".toList url).map fun rest => (false, rest)

/-- The host and the port: what stands after the last colon, if there is one. -/
def parseHostPort (hostPort : List Char) (isHttps : Bool) : Except String (List Char × ℕ) :=
  match splitFirst ':' hostPort.reverse with
  | (_, none) => .ok (hostPort, if isHttps then 443 else 80)
  | (port, some host) =>
    match parseUnsigned (2 ^ 16) port.reverse with
    | none => .error "invalid port"
    | some port => .ok (host.reverse, port)

def parseUrl (url : String) : Except String Target :=
  match stripScheme url.toList with
  | none => .error ("unsupported URL scheme: " ++ url)
  | some (isHttps, rest) =>
    let (hostPort, path) := match splitFirst '/' rest with
      | (_, none) => (rest, ['/'])
      | (hostPort, some path) => (hostPort, '/' :: path)
    (parseHostPort hostPort isHttps).map fun (host, port) => ⟨host, path, port, isHttps⟩

example : parseUrl "http://[::1]/a" = .error "invalid port" := by decide +kernel

/-- What comes after the path in the request that both clients write. -/
def requestRest (host : List Char) : List Char :=
  " HTTP/1.1\r\nHost: ".toList ++ host ++
    "\r\nUser-Agent: dsearch/0.1\r\nAccept: */*\r\nConnection: close\r\n\r\n".toList

def requestText (host path : List Char) : List Char := "GET ".toList ++ path ++ requestRest host

def address (host : List Char) (port : ℕ) : String :=
  String.ofList host ++ ":" ++ toString port

/-! ## Responses -/

def MAX_RESPONSE : ℕ := 2 * 1024 * 1024

/-- The loop over the answers of `read`; `none` while it goes on. -/
def readResponse (onError : ReadError → Except String Unit) :
    List ReadResult → Bytes → Option (Except String Bytes)
  | [], _ => none
  | .error e :: _, response => some ((onError e).map fun _ => response)
  | .ok [] :: _, response => some (.ok response)
  | .ok chunk :: reads, response =>
    if (response ++ chunk).length > MAX_RESPONSE then some (.error "response too large (>2 MB)")
    else readResponse onError reads (response ++ chunk)

def plainError : ReadError → Except String Unit
  | .unexpectedEof e => .error ("read response: " ++ e)
  | .other e => .error ("read response: " ++ e)

/-- A peer that ends without closing TLS is taken as the end of the stream. -/
def tlsError : ReadError → Except String Unit
  | .unexpectedEof _ => .ok ()
  | .other e => .error ("TLS read: " ++ e)

variable (web : Web)

def fetchHttpBlocking (target : Target) : Option (Except String Bytes) :=
  let addr := address target.host target.port
  match web.connect addr with
  | .error e => some (.error ("connect to " ++ addr ++ ": " ++ e))
  | .ok () =>
    match web.exchange addr (encode (requestText target.host target.path)) with
    | .error e => some (.error ("write request: " ++ e))
    | .ok reads => readResponse plainError reads []

def fetchHttpsBlocking (target : Target) : Option (Except String Bytes) :=
  let host := String.ofList target.host
  let addr := address target.host target.port
  match web.serverName host with
  | .error e => some (.error ("invalid DNS name " ++ host ++ ": " ++ e))
  | .ok () =>
    match web.connect addr with
    | .error e => some (.error ("connect to " ++ addr ++ ": " ++ e))
    | .ok () =>
      match web.tlsClient host with
      | .error e => some (.error ("TLS init for " ++ host ++ ": " ++ e))
      | .ok () =>
        match web.tlsExchange addr (encode (requestText target.host target.path)) with
        | .error e => some (.error ("TLS write: " ++ e))
        | .ok reads => readResponse tlsError reads []

/-- What comes after the first empty line, or all of a response without one. -/
def pageOf (response : List Char) : List Char :=
  match breakOn blankLine response with
  | some (_, page) => page
  | none =>
    match breakOn ['\n', '\n'] response with
    | some (_, page) => page
    | none => response

def textOf (bytes : Bytes) : Except String String :=
  match fromUtf8 bytes with
  | none => .error ("response not valid UTF-8: " ++ web.utf8Error bytes)
  | some response => .ok (String.ofList (pageOf response))

def fetchUrlBlocking (url : String) : Option (Except String String) :=
  match parseUrl url with
  | .error e => some (.error e)
  | .ok target =>
    (if target.isHttps then fetchHttpsBlocking web target else fetchHttpBlocking web target).map
      fun fetched => fetched.bind (textOf web)

/-! ## How the response is cut into reads -/

/-- The answers of `read` that give these bytes and then end so. -/
structure Delivers (bytes : Bytes) (ending : ReadResult) (reads : List ReadResult) : Prop where
  chunks : ∃ (chunks : List Bytes) (later : List ReadResult), reads = chunks.map .ok ++ ending :: later ∧ chunks.flatten = bytes ∧
    ∀ chunk ∈ chunks, chunk ≠ []
  ends : ending = .ok [] ∨ ∃ e, ending = .error e

/-- What a whole response comes to. -/
def received (onError : ReadError → Except String Unit) (bytes : Bytes) (ending : ReadResult) :
    Except String Bytes :=
  if bytes.length > MAX_RESPONSE then .error "response too large (>2 MB)"
  else match ending with
    | .ok _ => .ok bytes
    | .error e => (onError e).map fun _ => bytes

theorem readResponse_chunks (onError : ReadError → Except String Unit) {ending : ReadResult}
    (hends : ending = .ok [] ∨ ∃ e, ending = .error e) (later : List ReadResult)
    {chunks : List Bytes} (hne : ∀ chunk ∈ chunks, chunk ≠ []) {before : Bytes}
    (hbefore : before.length ≤ MAX_RESPONSE) :
    readResponse onError (chunks.map .ok ++ ending :: later) before =
      some (received onError (before ++ chunks.flatten) ending) := by
  induction chunks generalizing before with
  | nil =>
    unfold received
    rw [List.flatten_nil, List.append_nil, if_neg (Nat.not_lt.mpr hbefore)]
    obtain rfl | ⟨e, rfl⟩ := hends
    · rfl
    · rfl
  | cons chunk chunks ih =>
    obtain ⟨byte, bytes, rfl⟩ := List.exists_cons_of_ne_nil (hne chunk List.mem_cons_self)
    rw [List.map_cons, List.cons_append, readResponse, List.flatten_cons, ← List.append_assoc]
    · split
      · next hlarge =>
        -- what comes later only makes it larger
        have hwhole : (before ++ byte :: bytes ++ chunks.flatten).length > MAX_RESPONSE := by
          rw [List.length_append]
          exact Nat.lt_add_right _ hlarge
        unfold received
        rw [if_pos hwhole]
      · next hfits =>
        exact ih (fun c hc => hne c (List.mem_cons_of_mem _ hc)) (Nat.not_lt.mp hfits)
    · exact List.cons_ne_nil byte bytes

theorem Delivers.readResponse {bytes : Bytes} {ending : ReadResult} {reads : List ReadResult}
    (h : Delivers bytes ending reads) (onError : ReadError → Except String Unit) :
    readResponse onError reads [] = some (received onError bytes ending) := by
  obtain ⟨chunks, later, rfl, rfl, hne⟩ := h.chunks
  exact readResponse_chunks onError h.ends later hne (Nat.zero_le _)

/-- Two networks that answer alike, but for the reads in which the bytes of a response come. -/
structure SameAnswers (web web' : Web) : Prop where
  connect : web'.connect = web.connect
  serverName : web'.serverName = web.serverName
  tlsClient : web'.tlsClient = web.tlsClient
  utf8Error : web'.utf8Error = web.utf8Error
  plain : ∀ addr request, (∃ e, web.exchange addr request = .error e ∧
      web'.exchange addr request = .error e) ∨
    ∃ bytes ending reads reads', web.exchange addr request = .ok reads ∧
      web'.exchange addr request = .ok reads' ∧
      Delivers bytes ending reads ∧ Delivers bytes ending reads'
  tls : ∀ addr request, (∃ e, web.tlsExchange addr request = .error e ∧
      web'.tlsExchange addr request = .error e) ∨
    ∃ bytes ending reads reads', web.tlsExchange addr request = .ok reads ∧
      web'.tlsExchange addr request = .ok reads' ∧
      Delivers bytes ending reads ∧ Delivers bytes ending reads'

theorem SameAnswers.fetchHttp {web web' : Web} (h : SameAnswers web web') (target : Target) :
    fetchHttpBlocking web' target = fetchHttpBlocking web target := by
  unfold fetchHttpBlocking
  rw [h.connect]
  dsimp only
  obtain ⟨e, he, he'⟩ | ⟨bytes, ending, reads, reads', hr, hr', hd, hd'⟩ :=
    h.plain (address target.host target.port) (encode (requestText target.host target.path))
  · rw [he, he']
  · rw [hr, hr']
    dsimp only
    rw [hd.readResponse, hd'.readResponse]

theorem SameAnswers.fetchHttps {web web' : Web} (h : SameAnswers web web') (target : Target) :
    fetchHttpsBlocking web' target = fetchHttpsBlocking web target := by
  unfold fetchHttpsBlocking
  rw [h.connect, h.serverName, h.tlsClient]
  dsimp only
  obtain ⟨e, he, he'⟩ | ⟨bytes, ending, reads, reads', hr, hr', hd, hd'⟩ :=
    h.tls (address target.host target.port) (encode (requestText target.host target.path))
  · rw [he, he']
  · rw [hr, hr']
    dsimp only
    rw [hd.readResponse, hd'.readResponse]

/-- The page that is fetched does not depend on the reads in which it comes. -/
theorem fetchUrl_of_any_reads (web web' : Web) (h : SameAnswers web web') (url : String) :
    fetchUrlBlocking web' url = fetchUrlBlocking web url := by
  have htext : textOf web' = textOf web := by
    funext bytes
    unfold textOf
    rw [h.utf8Error]
  unfold fetchUrlBlocking
  cases parseUrl url with
  | error e => rfl
  | ok target =>
    dsimp only
    rw [h.fetchHttp, h.fetchHttps, htext]

/-- One response, in these reads. -/
def oneResponse (reads : List ReadResult) : Web where
  connect _ := .ok ()
  exchange _ _ := .ok reads
  serverName _ := .ok ()
  tlsClient _ := .ok ()
  tlsExchange _ _ := .ok reads
  utf8Error _ := "invalid utf-8 sequence"

def inOneRead : List ReadResult := [.ok (asBytes "HTTP/1.1 200 OK\r\n\r\nhi"), .ok []]

def inTwoReads : List ReadResult :=
  [.ok (asBytes "HTTP/1.1 200 OK\r\n"), .ok (asBytes "\r\nhi"), .ok []]

theorem fetchUrl_of_any_reads_two :
    fetchUrlBlocking (oneResponse inTwoReads) "http://h/" =
      fetchUrlBlocking (oneResponse inOneRead) "http://h/" := by
  have hone : Delivers (asBytes "HTTP/1.1 200 OK\r\n\r\nhi") (.ok []) inOneRead :=
    ⟨⟨[asBytes "HTTP/1.1 200 OK\r\n\r\nhi"], [], rfl, by decide, by decide⟩, .inl rfl⟩
  have htwo : Delivers (asBytes "HTTP/1.1 200 OK\r\n\r\nhi") (.ok []) inTwoReads :=
    ⟨⟨[asBytes "HTTP/1.1 200 OK\r\n", asBytes "\r\nhi"], [], rfl, by decide, by decide⟩, .inl rfl⟩
  have hsame : SameAnswers (oneResponse inOneRead) (oneResponse inTwoReads) :=
    ⟨rfl, rfl, rfl, rfl, fun _ _ => .inr ⟨_, _, _, _, rfl, rfl, hone, htwo⟩,
      fun _ _ => .inr ⟨_, _, _, _, rfl, rfl, hone, htwo⟩⟩
  exact fetchUrl_of_any_reads _ _ hsame "http://h/"

end DSearch.Fetch

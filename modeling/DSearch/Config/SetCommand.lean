import DSearch.Api.ClientAnswers
import DSearch.Config.SetRequests

/-! # `dsearch config set`: `ConfigAction::Set` of `main.rs`

The command posts the key and the value to the node if its API can be reached, and where the answer is
no success it sets the value in the file itself. What the node reads of the request, whether it can
save, how much of its response comes back and how its steps fall among those of the command are left
open. -/

namespace DSearch
set_option autoImplicit false
open RustText Sign Utf8Text SeparatedText Files JsonText Transaction Request

/-! ## A part of a request -/

namespace ApiClient
variable {toLowercase : String → String} {port : UInt16} {path : List Char} {received : Bytes}

/-- What is read of the first bytes of a request with an ASCII head: a part of the head, or all of it
and a part of the body. -/
theorem seen_cases {head body : List Char} (hascii : ∀ c ∈ head, c.toNat < 128)
    (hstart : received <+: encode (head ++ body)) :
    fromUtf8Lossy received <+: head ∨
      ∃ part after tail, body = part ++ after ∧ (tail = [] ∨ after ≠ [] ∧ tail = [replacement]) ∧
        fromUtf8Lossy received = head ++ (part ++ tail) := by
  rcases prefix_encode_cases hstart with ⟨before, after, hwhole, rfl⟩ |
    ⟨before, c, after, piece, hwhole, rfl, hpiece, hne, hcut⟩
  · rw [fromUtf8Lossy_encode]
    rcases List.append_eq_append_iff.mp hwhole with ⟨part, rfl, hpart⟩ | ⟨more, rfl, -⟩
    · exact .inr ⟨part, after, [], hpart, .inl rfl, by rw [List.append_nil]⟩
    · exact .inl (List.prefix_append before more)
  · rw [fromUtf8Lossy_cut before hpiece hne hcut]
    rcases List.append_eq_append_iff.mp hwhole with ⟨part, rfl, hpart⟩ | ⟨more, rfl, hmore⟩
    · exact .inr ⟨part, c :: after, [replacement], hpart, .inr ⟨List.cons_ne_nil c after, rfl⟩,
        List.append_assoc head part [replacement]⟩
    · cases more with
      | nil =>
        rw [List.append_nil]
        exact .inr ⟨[], c :: after, [replacement], hmore.symm, .inr ⟨List.cons_ne_nil c after, rfl⟩,
          rfl⟩
      | cons d more =>
        -- a character of the head is one byte, which cannot be cut
        obtain ⟨rfl, -⟩ := List.cons.inj hmore
        have hsize : c.utf8Size = 1 := Char.utf8Size_eq_one_iff.mpr (by
          rw [UInt32.le_iff_toNat_le]
          exact Nat.le_of_lt_succ (hascii c (by simp)))
        rw [String.utf8EncodeChar_eq_singleton hsize] at hpiece hcut
        rcases List.prefix_cons_iff.mp hpiece with hnil | ⟨bytes, hbytes, hnone⟩
        · exact absurd hnil hne
        · exact absurd (hbytes.trans (congrArg _ (List.prefix_nil.mp hnone))) hcut

/-- The parts of a request line say that a part of the path is posted to. -/
def PostsWithin (path : List Char) : List (List Char) → Prop
  | method :: uri :: _ => method = "POST".toList ∧ (splitFirst '?' uri).1 <+: path
  | _ => True

instance (path : List Char) : ∀ parts, Decidable (PostsWithin path parts)
  | method :: uri :: _ =>
    inferInstanceAs (Decidable (method = "POST".toList ∧ (splitFirst '?' uri).1 <+: path))
  | [] => inferInstanceAs (Decidable True)
  | [_] => inferInstanceAs (Decidable True)

/-- The request line of a post, with the carriage return at its end. -/
def requestLine (path : List Char) : List Char :=
  "POST ".toList ++ path ++ " HTTP/1.1".toList ++ ['\r']

theorem postsWithin_configSet : ∀ line ∈ (requestLine "/config/set".toList).inits,
    PostsWithin "/config/set".toList (splitN 3 ' ' line) := by decide +kernel

theorem headOf_line {line text : List Char} {rest : List (List Char)} {method uri : String}
    {query : Table String} {headers : Except String (Table String)} (hlines : lines text = line :: rest)
    (hhead : headOf toLowercase text = some (method, uri, query, headers)) :
    ∃ name target more, splitN 3 ' ' line = name :: target :: more ∧ method = String.ofList name ∧
      uri = String.ofList (splitFirst '?' target).1 := by
  rw [headOf, hlines] at hhead
  dsimp only at hhead
  split at hhead
  · next name target more hparts =>
    obtain ⟨hmethod, hrest⟩ := Prod.mk.inj (Option.some.inj hhead)
    obtain ⟨huri, -⟩ := Prod.mk.inj hrest
    exact ⟨name, target, more, hparts, hmethod.symm, huri.symm⟩
  · cases hhead

/-- The first line of what has come of a text is a part of the first line of the text. -/
theorem lines_part {first more text : List Char} (hne : text ≠ [])
    (htext : text <+: first ++ '\n' :: more) :
    ∃ line rest, lines text = line :: rest ∧ line <+: first := by
  by_cases hfeed : '\n' ∈ text
  · obtain ⟨a, b, rfl, ha⟩ := List.eq_append_cons_of_mem hfeed
    have hpart : a <+: first :=
      prefix_of_prefix_append ha ((List.prefix_append a ('\n' :: b)).trans htext)
    refine ⟨stripCarriageReturn a, lines b, lines_cons ha b, List.IsPrefix.trans ?_ hpart⟩
    rcases stripCarriageReturn_cases a with hsame | hstrip
    · rw [hsame]
    · exact ⟨['\r'], hstrip.symm⟩
  · exact ⟨text, [], lines_of_not_mem hfeed hne, prefix_of_prefix_append hfeed htext⟩

theorem apiPostHead_ascii (port : UInt16) (length : ℕ) (hpath : ∀ c ∈ path, c.toNat < 128) :
    ∀ c ∈ apiPostHead port path length ++ blankLine, c.toNat < 128 := by
  have hdigits : ∀ n : ℕ, ∀ c ∈ (toString n).toList, c.toNat < 128 := fun n c hc =>
    (digit_of_mem_toString hc).2.trans_lt (by decide)
  have hliteral : ∀ {cs : List Char}, cs.all (fun c => decide (c.toNat < 128)) = true →
      ∀ c ∈ (String.ofList cs).toList, c.toNat < 128 := by
    intro cs hascii
    rw [String.toList_ofList]
    exact fun c hc => of_decide_eq_true (List.all_eq_true.mp hascii c hc)
  have hpost : ∀ c ∈ "POST ".toList, c.toNat < 128 := hliteral rfl
  have hhost : ∀ c ∈ " HTTP/1.1\r\nHost: 127.0.0.1:".toList, c.toNat < 128 := hliteral rfl
  have hlength : ∀ c ∈ "\r\nContent-Type: application/json\r\nContent-Length: ".toList,
      c.toNat < 128 := hliteral rfl
  have haccept : ∀ c ∈ "\r\nAccept: application/json\r\nConnection: close".toList,
      c.toNat < 128 := hliteral rfl
  have hblank : ∀ c ∈ "\r\n\r\n".toList, c.toNat < 128 := hliteral rfl
  intro c hc
  unfold apiPostHead blankLine at hc
  simp only [List.mem_append] at hc
  rcases hc with ((((((hc | hc) | hc) | hc) | hc) | hc) | hc) | hc
  · exact hpost c hc
  · exact hpath c hc
  · exact hhost c hc
  · exact hdigits _ c hc
  · exact hlength c hc
  · exact hdigits _ c hc
  · exact haccept c hc
  · exact hblank c hc

theorem apiPost_line (port : UInt16) (path : List Char) (length : ℕ) (rest : List Char) :
    ∃ more, apiPostHead port path length ++ blankLine ++ rest = requestLine path ++ '\n' :: more :=
  ⟨_, (apiPost_eq port path length rest).trans (List.append_cons _ _ _)⟩

/-- What the node makes of the first bytes of a post: of a part of the head a request without a body for
a part of the path, and of more a request with a part of the body. -/
theorem parse_part {body : String} (hbody : '\r' ∉ body.toList) (hne : body ≠ "")
    (hstart : received <+: encode (apiPostText port "/config/set".toList body))
    (hsome : received ≠ []) {req : HttpRequest}
    (hreq : parseHttpRequest toLowercase (fromUtf8Lossy received) = .ok req) :
    req.method = "POST" ∧ req.path.toList <+: "/config/set".toList ∧
      ∃ part after tail, body.toList = part ++ after ∧
        (tail = [] ∨ after ≠ [] ∧ tail = [replacement]) ∧
        req.body = String.ofList (part ++ tail) ∧ (after = [] → req.path = "/config/set") := by
  obtain ⟨hhead, -, hreqBody, -, -⟩ := parseHttpRequest_eq_ok_iff.mp hreq
  have hfeed : '\n' ∉ "/config/set".toList := by decide
  have hisHead := (headEnd_apiPost hfeed port body).isHead
  have hpart : ∀ line ∈ (requestLine "/config/set".toList).inits,
      ∀ rest, lines (fromUtf8Lossy received) = line :: rest →
        req.method = "POST" ∧ req.path.toList <+: "/config/set".toList := by
    intro line hline rest hlines
    obtain ⟨name, target, more, hparts, hmethod, huri⟩ := headOf_line hlines hhead
    have hwithin := postsWithin_configSet line hline
    rw [hparts] at hwithin
    obtain ⟨hname, htarget⟩ := hwithin
    rw [hmethod, huri, hname, String.ofList_toList, String.toList_ofList]
    exact ⟨rfl, htarget⟩
  rcases seen_cases (apiPostHead_ascii port body.utf8ByteSize (by simp)) hstart with
    hseen | ⟨part, after, tail, hsplit, htail, hseen⟩
  · obtain ⟨more, hmore⟩ := apiPost_line port "/config/set".toList body.utf8ByteSize []
    rw [List.append_nil] at hmore
    obtain ⟨line, rest, hlines, hline⟩ :=
      lines_part (fromUtf8Lossy_ne_nil hsome) (hmore ▸ hseen)
    obtain ⟨hmethod, hpath⟩ := hpart line ((List.mem_inits _ _).mpr hline) rest hlines
    refine ⟨hmethod, hpath, [], body.toList, [], rfl, .inl rfl, ?_, fun hnil => ?_⟩
    · obtain ⟨after, hafter⟩ := hseen
      have hnone := hisHead.bodyOf_part_nil hafter.symm (.inl rfl)
      rw [List.append_nil] at hnone
      rw [hreqBody, hnone]
      rfl
    · exact absurd (String.toList_eq_nil_iff.mp hnil) hne
  · have hreturn : ¬ blankLine <:+: part ++ tail := by
      intro hblank
      have hmem := hblank.subset (show '\r' ∈ blankLine by decide)
      rcases List.mem_append.mp hmem with hmem | hmem
      · exact hbody (hsplit ▸ List.mem_append_left after hmem)
      · rcases htail with rfl | ⟨-, rfl⟩
        · cases hmem
        · exact absurd hmem (by decide)
    have hseenBody : bodyOf (fromUtf8Lossy received) = part ++ tail := by
      rw [hseen, hisHead.bodyOf_append, breakOn_eq_none_iff.mpr hreturn]
    obtain ⟨more, hmore⟩ :=
      apiPost_line port "/config/set".toList body.utf8ByteSize (part ++ tail)
    have hlines : lines (fromUtf8Lossy received) =
        stripCarriageReturn (requestLine "/config/set".toList) :: lines more := by
      rw [hseen, hmore, lines_cons (by decide)]
    have hstrip : stripCarriageReturn (requestLine "/config/set".toList) ∈
        (requestLine "/config/set".toList).inits := by decide +kernel
    obtain ⟨hmethod, hpath⟩ := hpart _ hstrip _ hlines
    refine ⟨hmethod, hpath, part, after, tail, hsplit, htail, by rw [hreqBody, hseenBody], fun _ => ?_⟩
    obtain ⟨name, target, rest, hparts, -, huri⟩ := headOf_line hlines hhead
    have hwhole : splitN 3 ' ' (stripCarriageReturn (requestLine "/config/set".toList)) =
        ["POST".toList, "/config/set".toList, "HTTP/1.1".toList] := by decide +kernel
    obtain ⟨-, hrest⟩ := List.cons.inj (hparts.symm.trans hwhole)
    obtain ⟨rfl, -⟩ := List.cons.inj hrest
    exact huri

/-! ## A part of a response -/

/-- The status of a response that is read as a success. -/
def Taken (resp : HttpResponse) : Prop := Says resp "200".toList ∨ Says resp "201".toList

instance (resp : HttpResponse) : Decidable (Taken resp) := inferInstanceAs (Decidable (_ ∨ _))

/-- A first blank line that is read before the end of what has come is one of the whole. -/
theorem breakOn_start {before after tail head body : List Char}
    (htail : tail = [] ∨ after ≠ [] ∧ tail = [replacement])
    (h : breakOn blankLine (before ++ tail) = some (head, body)) :
    ∃ rest, breakOn blankLine (before ++ after) = some (head, rest) := by
  cases hbefore : breakOn blankLine before with
  | some parts =>
    obtain ⟨a, b⟩ := parts
    rw [Sign.breakOn_append hbefore tail] at h
    obtain ⟨rfl, -⟩ := Prod.mk.inj (Option.some.inj h)
    exact ⟨b ++ after, Sign.breakOn_append hbefore after⟩
  | none =>
    have hnone := breakOn_eq_none_iff.mp hbefore
    have hinside : blankLine <:+: before ++ tail := by
      rw [eq_of_breakOn h]
      exact ⟨head, body, rfl⟩
    rcases htail with rfl | ⟨-, rfl⟩
    · rw [List.append_nil] at hinside
      exact absurd hinside hnone
    · rcases (infix_append_sep_iff (by decide)).mp hinside with hin | hin
      · exact absurd hin hnone
      · exact absurd (List.infix_nil.mp hin) (by decide)

/-- However much of a response has come, it is a success only if its status says so. -/
theorem taken_of_postAnswer {order : HashOrder} {resp : HttpResponse} {response : Bytes} {text : String}
    (hstart : response <+: resp.toBytes toLowercase order) (h : postAnswer response = .ok text) :
    Taken resp := by
  obtain ⟨before, after, tail, hwhole, hread, htail⟩ := fromUtf8Lossy_of_start hstart
  rw [toBytes_eq, fromUtf8Lossy_encode_append] at hwhole
  unfold postAnswer at h
  split at h
  · next head body hcut =>
    rw [hread] at hcut
    obtain ⟨rest, hfirst⟩ := breakOn_start htail hcut
    rw [← hwhole] at hfirst
    dsimp only at h
    split at h
    · next hcode =>
      rw [Bool.or_eq_true, contains_statusLine_iff hfirst "200" (by decide) (by decide) (by decide),
        contains_statusLine_iff hfirst "201" (by decide) (by decide) (by decide)] at hcode
      exact hcode
    · cases h
  · cases h

theorem not_taken_of_nil {text : String} : postAnswer [] ≠ .ok text := by
  intro h
  cases h

end ApiClient

/-! ## The steps of a set -/

/-- Where a set fails: as the file is loaded, at its value, or as the file is saved. -/
inductive SetFailure where
  | load (e : String)
  | value (e : String)
  | save (e : String)
  deriving DecidableEq, Repr

namespace SetCommand
open ConfigVersion ApiClient
variable {ed : Ed25519} (api : LocalApi ed) (codec : ConfigCodec)

/-- The write at the end of `save_config`; one that fails leaves the file as it is. -/
def writing (refusal : Option String) (text : String) :
    Client ConfigFile (Except SetFailure Unit) :=
  match refusal with
  | none => .write (fun _ => .text text) (.done (.ok ()))
  | some reason => .read fun _ => .done (.error (.save ("Failed to write config.toml: " ++ reason)))

/-- `save_config`, which reads the version of the file before it writes. -/
def saving (refusal : Option String) (config : DsearchConfig) :
    Client ConfigFile (Except SetFailure Unit) :=
  .read fun file =>
    match existingVersion file with
    | .error e => .done (.error (.save e))
    | .ok existing =>
      match codec.toStringPretty config with
      | .error e => .done (.error (.save ("Failed to serialize config: " ++ e)))
      | .ok text => writing refusal (versionedText text (existing.getD CURRENT_CONFIG_VERSION))

/-- `load_config`, `set_config_value` and `save_config`, in the command and in the node. -/
def setting (refusal : Option String) (key value : String) :
    Client ConfigFile (Except SetFailure Unit) :=
  .read fun file =>
    match loadConfig codec.reader .default file with
    | .error e => .done (.error (.load e))
    | .ok config =>
      match setConfigValue config key value with
      | .error e => .done (.error (.value e))
      | .ok config => saving codec refusal config

/-- How a set is answered. -/
def setReply (key value : String) : Except SetFailure Unit → HttpResponse
  | .ok _ => api.reply [("key", ofString key), ("ok", ofBool true), ("value", ofString value)]
  | .error (.load e) => .internalError e
  | .error (.value e) => .badRequest e
  | .error (.save e) => .internalError e

def fileWrite (refusal : Option String) (file : ConfigFile) : FileWrite ConfigFile :=
  match refusal with
  | none => .written
  | some reason => .failed reason file

/-- Taken one after the other, the steps are `handle_set_config`. -/
theorem run_setting (refusal : Option String) {req : HttpRequest} {key value : String}
    (hreq : api.setRequest req = .ok (key, value)) (file : ConfigFile) :
    api.handleSetConfig codec (fileWrite refusal file) req file =
      (((setting codec refusal key value).run file).1,
        setReply api key value ((setting codec refusal key value).run file).2) := by
  unfold LocalApi.handleSetConfig setting
  rw [hreq, Client.run_read]
  dsimp only
  cases loadConfig codec.reader .default file with
  | error e => rfl
  | ok config =>
    dsimp only
    cases setConfigValue config key value with
    | error e => rfl
    | ok config' =>
      unfold saving saveConfig
      rw [Client.run_read]
      dsimp only
      cases existingVersion file with
      | error e => rfl
      | ok existing =>
        dsimp only
        cases codec.toStringPretty config' with
        | error e => rfl
        | ok text =>
          cases refusal with
          | none => rfl
          | some reason => rfl

/-! ## The file and the two ends -/

/-- What the node makes of what it has read. -/
inductive Heard where
  | nothing
  | other (resp : HttpResponse)
  | set (key value : String)

/-- A connection of the local API up to its route; `s` is the rest of the node. -/
def heard (received : Bytes) (s : NodeState) : Heard :=
  if received = [] then .nothing
  else
    match parseHttpRequest api.env.toLowercase (fromUtf8Lossy received) with
    | .error _ => .nothing
    | .ok req =>
      if req.method = "POST" ∧ req.path = "/config/set" then
        match api.setRequest req with
        | .error resp => .other resp
        | .ok (key, value) => .set key value
      else
        match ((api.route req).run s).2 with
        | .ok resp => .other resp
        | _ => .nothing

/-- The steps of the node, up to the response that it writes. -/
def nodeSide (refusal : Option String) : Heard → Client ConfigFile (Option HttpResponse)
  | .nothing => .done none
  | .other resp => .done (some resp)
  | .set key value => (setting codec refusal key value).bind fun result =>
      .done (some (setReply api key value result))

/-- The command goes on with the file if the post was no success. -/
def afterPost (key value : String) : Except String String → Client ConfigFile (Except SetFailure Unit)
  | .ok _ => .done (.ok ())
  | .error _ => setting codec none key value

structure Scene where
  file : ConfigFile
  node : Client ConfigFile (Option HttpResponse)
  /-- What the command does with the file; `none` while it waits for the answer of its post. -/
  command : Option (Client ConfigFile (Except SetFailure Unit))

/-- The bytes that the node has written by now. -/
def written (node : Client ConfigFile (Option HttpResponse)) : Bytes :=
  match node.result? with
  | some (some resp) => resp.toBytes api.env.toLowercase api.env.order
  | _ => []

/-- What `api_post` may return: an error from before the response, or what it makes of the bytes that
came. -/
inductive Returns (node : Client ConfigFile (Option HttpResponse)) : Except String String → Prop
  | failed (e : String) : Returns node (.error e)
  | read {response : Bytes} (h : response <+: written api node) : Returns node (postAnswer response)

inductive Step (key value : String) : Scene → Scene → Prop
  | node (scene : Scene) : Step key value scene
      { scene with
        file := (scene.node.turn scene.file).1
        node := (scene.node.turn scene.file).2 }
  | posted {scene : Scene} {answer : Except String String} (hwaits : scene.command = none)
      (hanswer : Returns api scene.node answer) : Step key value scene
      { scene with command := some (afterPost codec key value answer) }
  | command {scene : Scene} {c : Client ConfigFile (Except SetFailure Unit)}
      (hgoes : scene.command = some c) : Step key value scene
      { scene with
        file := (c.turn scene.file).1
        command := some (c.turn scene.file).2 }

def start (received : Bytes) (s : NodeState) (refusal : Option String) (file : ConfigFile) : Scene where
  file := file
  node := nodeSide api codec refusal (heard api received s)
  command := none

/-! ## What the node hears -/

/-- What `serde_json` prints for a key and a value, and what it makes of that and of its parts. -/
structure Printed (key value body : String) : Prop where
  json : asBytes body = ofFields [("key", ofString key), ("value", ofString value)]
  key : api.bodyField body "key" = .ok (some key)
  value : api.bodyField body "value" = .ok (some value)
  part : ∀ part after tail, body.toList = part ++ after → after ≠ [] →
    (tail = [] ∨ tail = [replacement]) →
      ∃ e, api.bodyField (String.ofList (part ++ tail)) "key" = .error e

variable {api codec} {key value body : String}

theorem Printed.return_not_mem (h : Printed api key value body) : '\r' ∉ body.toList := by
  have hprintable : Printable (asBytes body) := by
    rw [h.json]
    refine printable_ofFields fun field hfield => ?_
    rcases List.mem_cons.mp hfield with rfl | hfield
    · exact printable_ofString key
    · rw [List.mem_singleton.mp hfield]
      exact printable_ofString value
  intro hmem
  have hbyte : (13 : UInt8) ∈ asBytes body := by
    rw [← encode_toList]
    exact List.mem_flatMap.mpr ⟨'\r', hmem, by decide⟩
  exact absurd (hprintable 13 hbyte) (by decide)

theorem Printed.ne_empty (h : Printed api key value body) : body ≠ "" := by
  rintro rfl
  have hnil := h.json.symm
  rw [ofFields] at hnil
  exact absurd hnil (List.cons_ne_nil _ _)

def postRoutes : List String :=
  ["/record/insert", "/record/pin", "/record/unpin", "/record/delete", "/record/announce",
    "/record/sweep", "/storage/vacuum", "/storage/import", "/peers/add", "/peers/ban", "/peers/unban",
    "/scraper/run", "/storage/export", "/config/set"]

theorem route_unknown {req : HttpRequest} (hmethod : req.method = "POST")
    (hpath : req.path ∉ postRoutes) : api.route req = LocalApi.respond (.notFound "unknown route") := by
  have hpost : api.route req = api.postRoute req := by simp only [LocalApi.route, hmethod]
  rw [hpost, LocalApi.postRoute]
  split
  all_goals first
    | rfl
    | next h => exact absurd (by rw [h]; decide) hpath

/-- No other route is a part of `/config/set`. -/
theorem part_not_routed : ∀ cs ∈ "/config/set".toList.inits,
    String.ofList cs = "/config/set" ∨ String.ofList cs ∉ postRoutes := by decide +kernel

/-- The node hears the set, or nothing, or a request that it refuses. -/
theorem heard_cases (hprinted : Printed api key value body) {port : UInt16} {received : Bytes}
    (hstart : received <+: encode (apiPostText port "/config/set".toList body)) (s : NodeState) :
    heard api received s = .nothing ∨
      (∃ resp, heard api received s = .other resp ∧ ¬ Taken resp) ∨
      heard api received s = .set key value := by
  unfold heard
  split
  · exact .inl rfl
  next hsome =>
    split
    · exact .inl rfl
    next req hreq =>
      obtain ⟨hmethod, hpath, part, after, tail, hsplit, htail, hbody, hwhole⟩ :=
        parse_part hprinted.return_not_mem hprinted.ne_empty hstart hsome hreq
      by_cases hset : req.path = "/config/set"
      · rw [if_pos ⟨hmethod, hset⟩]
        by_cases hafter : after = []
        · obtain rfl : tail = [] := htail.elim id fun h => absurd hafter h.1
          have hsame : req.body = body := by
            rw [hbody, List.append_nil, ← String.ofList_toList (s := body), hsplit, hafter,
              List.append_nil]
          have hrequest : api.setRequest req = .ok (key, value) := by
            rw [LocalApi.setRequest, hsame, hprinted.key, hprinted.value]
          rw [hrequest]
          exact .inr (.inr rfl)
        · obtain ⟨e, he⟩ := hprinted.part part after tail hsplit hafter (htail.imp_right And.right)
          have hrequest : api.setRequest req = .error (.badRequest ("invalid JSON: " ++ e)) := by
            rw [LocalApi.setRequest, hbody, he]
          rw [hrequest]
          refine .inr (.inl ⟨_, rfl, ?_⟩)
          change ¬ Taken (.badRequest "")
          decide
      · rw [if_neg fun h => hset h.2]
        have hunknown : req.path ∉ postRoutes := by
          have hpart := part_not_routed req.path.toList ((List.mem_inits _ _).mpr hpath)
          rw [String.ofList_toList] at hpart
          exact hpart.resolve_left hset
        rw [route_unknown hmethod hunknown]
        refine .inr (.inl ⟨.notFound "unknown route", rfl, by decide⟩)

/-! ## Setting once -/

/-- A file that loads, a configuration that is written without a line feed in a text, and a value
without one. -/
structure Settable (codec : ConfigCodec) (value : String) (file : ConfigFile) (config : DsearchConfig)
    (existing : Option ℕ) : Prop where
  lawful : ConfigCodec.Lawful codec
  loads : Loads codec file config
  single : config.SingleLine
  line : '\n' ∉ value.toList
  version : existingVersion file = .ok existing

variable {file : ConfigFile} {config : DsearchConfig} {existing : Option ℕ} {refusal : Option String}

def versionSet (existing : Option ℕ) : ℕ := existing.getD CURRENT_CONFIG_VERSION

/-- The file and the result of a set that nothing comes between. -/
def once (codec : ConfigCodec) (key value : String) (file : ConfigFile) :
    ConfigFile × Except SetFailure Unit :=
  (setting codec none key value).run file

theorem put_put : ∀ entry ∈ settings, ∀ (v : entry.2.kind.Value) (config : DsearchConfig),
    entry.2.field.put v (entry.2.field.put v config) = entry.2.field.put v config := by
  unfold settings
  simp only [List.forall_mem_cons, List.not_mem_nil, IsEmpty.forall_iff, implies_true, and_true]
  repeat' apply And.intro
  all_goals intro v config; rfl

/-- A value that has been set is set again to the same configuration. -/
theorem setConfigValue_again {config' : DsearchConfig} (h : setConfigValue config key value = .ok config') :
    setConfigValue config' key value = .ok config' := by
  obtain ⟨setting, v, hsetting, hparse, rfl⟩ := setConfigValue_eq_ok h
  rw [setConfigValue, hsetting]
  dsimp only
  rw [hparse]
  exact congrArg Except.ok (put_put _ (mem_of_lookup hsetting) v config)

namespace Settable

theorem run_value (h : Settable codec value file config existing) {e : String}
    (hset : setConfigValue config key value = .error e) :
    once codec key value file = (file, .error (.value e)) := by
  have hloads : loadConfig codec.reader .default file = .ok config := h.loads
  rw [once, setting, Client.run_read, hloads]
  dsimp only
  rw [hset]
  rfl

theorem run_serialize (h : Settable codec value file config existing) {config' : DsearchConfig}
    {e : String} (hset : setConfigValue config key value = .ok config')
    (htext : codec.toStringPretty config' = .error e) :
    once codec key value file = (file, .error (.save ("Failed to serialize config: " ++ e))) := by
  have hloads : loadConfig codec.reader .default file = .ok config := h.loads
  rw [once, setting, Client.run_read, hloads]
  dsimp only
  rw [hset]
  dsimp only
  rw [saving, Client.run_read, h.version]
  dsimp only
  rw [htext]
  rfl

theorem run_text (h : Settable codec value file config existing) {config' : DsearchConfig}
    {text : String} (hset : setConfigValue config key value = .ok config')
    (htext : codec.toStringPretty config' = .ok text) :
    once codec key value file = (.text (versionedText text (versionSet existing)), .ok ()) := by
  have hloads : loadConfig codec.reader .default file = .ok config := h.loads
  rw [once, setting, Client.run_read, hloads]
  dsimp only
  rw [hset]
  dsimp only
  rw [saving, Client.run_read, h.version]
  dsimp only
  rw [htext]
  rfl

/-- Once the file is set, it is as good to set again. -/
theorem after (h : Settable codec value file config existing) {config' : DsearchConfig} {text : String}
    (hset : setConfigValue config key value = .ok config')
    (htext : codec.toStringPretty config' = .ok text) :
    Settable codec value (.text (versionedText text (versionSet existing))) config'
      (some (versionSet existing)) := by
  obtain ⟨existing', hexisting, hversion⟩ := h.loads.version
  obtain rfl := Except.ok.inj (hexisting.symm.trans h.version)
  have hsingle := singleLine_set hset h.line h.single
  obtain ⟨hloads, hkept⟩ := loads_versionedText h.lawful hsingle htext hversion
  exact ⟨h.lawful, hloads, hsingle, h.line, hkept⟩

end Settable

/-- Where a set is: it has not loaded, or not yet read the version, or not yet written. -/
inductive OnWay (codec : ConfigCodec) (key value : String) (config : DsearchConfig)
    (existing : Option ℕ) (refusal : Option String) : Client ConfigFile (Except SetFailure Unit) → Prop
  | load : OnWay codec key value config existing refusal (setting codec refusal key value)
  | version {config' : DsearchConfig} (hset : setConfigValue config key value = .ok config') :
      OnWay codec key value config existing refusal (saving codec refusal config')
  | write {config' : DsearchConfig} {text : String}
      (hset : setConfigValue config key value = .ok config')
      (htext : codec.toStringPretty config' = .ok text) :
      OnWay codec key value config existing refusal
        (writing refusal (versionedText text (versionSet existing)))

/-- How a set ends: one that may write has done what is done once, and none succeeds that has not. -/
def Ended (codec : ConfigCodec) (key value : String) (file : ConfigFile) (refusal : Option String)
    (left : ConfigFile) (result : Except SetFailure Unit) : Prop :=
  (refusal = none → once codec key value file = (left, result)) ∧
    (result = .ok () → once codec key value file = (left, .ok ()))

section
variable {current : ConfigFile} {config' : DsearchConfig}

theorem turn_load (hloads : Loads codec current config) :
    (setting codec refusal key value).turn current = (current,
      match setConfigValue config key value with
      | .error e => .done (.error (.value e))
      | .ok config => saving codec refusal config) := by
  have hloaded : loadConfig codec.reader .default current = .ok config := hloads
  rw [setting, Client.read, Client.turn, hloaded]
  rfl

theorem turn_version (hversion : existingVersion current = .ok existing) :
    (saving codec refusal config').turn current = (current,
      match codec.toStringPretty config' with
      | .error e => .done (.error (.save ("Failed to serialize config: " ++ e)))
      | .ok text => writing refusal (versionedText text (versionSet existing))) := by
  rw [saving, Client.read, Client.turn, hversion]
  rfl

end

/-- One step of a set, in a file that is as it was or as it is once set. -/
theorem turn_onWay (h : Settable codec value file config existing)
    {c : Client ConfigFile (Except SetFailure Unit)}
    (hway : OnWay codec key value config existing refusal c) {current : ConfigFile}
    (hcurrent : current = file ∨ current = (once codec key value file).1) :
    ((c.turn current).1 = current ∨ (c.turn current).1 = (once codec key value file).1) ∧
    (OnWay codec key value config existing refusal (c.turn current).2 ∨
      ∃ result, (c.turn current).2 = .done result ∧
        Ended codec key value file refusal (c.turn current).1 result) := by
  cases hset : setConfigValue config key value with
  | error e =>
    have honce := h.run_value hset
    rw [honce, or_self] at hcurrent
    subst hcurrent
    cases hway with
    | load =>
      rw [turn_load h.loads, hset]
      exact ⟨.inl rfl, .inr ⟨_, rfl, fun _ => honce, fun hok => by cases hok⟩⟩
    | version hset' => rw [hset] at hset'; cases hset'
    | write hset' => rw [hset] at hset'; cases hset'
  | ok config' =>
    cases htext : codec.toStringPretty config' with
    | error e =>
      have honce := h.run_serialize hset htext
      rw [honce, or_self] at hcurrent
      subst hcurrent
      cases hway with
      | load =>
        rw [turn_load h.loads, hset]
        exact ⟨.inl rfl, .inl (.version hset)⟩
      | version hset' =>
        obtain rfl := Except.ok.inj (hset.symm.trans hset')
        rw [turn_version h.version, htext]
        exact ⟨.inl rfl, .inr ⟨_, rfl, fun _ => honce, fun hok => by cases hok⟩⟩
      | write hset' htext' =>
        obtain rfl := Except.ok.inj (hset.symm.trans hset')
        rw [htext] at htext'
        cases htext'
    | ok text =>
      have honce := h.run_text hset htext
      have hafter := h.after hset htext
      rw [honce] at hcurrent ⊢
      cases hway with
      | load =>
        refine ⟨.inl ?_, .inl ?_⟩
        · rfl
        · rcases hcurrent with rfl | rfl
          · rw [turn_load h.loads, hset]
            exact .version hset
          · rw [turn_load hafter.loads, setConfigValue_again hset]
            exact .version hset
      | version hset' =>
        obtain rfl := Except.ok.inj (hset.symm.trans hset')
        refine ⟨.inl ?_, .inl ?_⟩
        · rfl
        · rcases hcurrent with rfl | rfl
          · rw [turn_version h.version, htext]
            exact .write hset htext
          · rw [turn_version hafter.version, htext]
            exact .write hset htext
      | write hset' htext' =>
        obtain rfl := Except.ok.inj (hset.symm.trans hset')
        obtain rfl := Except.ok.inj (htext.symm.trans htext')
        cases refusal with
        | none => exact ⟨.inr rfl, .inr ⟨_, rfl, fun _ => honce, fun _ => honce⟩⟩
        | some reason =>
          exact ⟨.inl rfl, .inr ⟨_, rfl, nofun, nofun⟩⟩

/-! ## Every run -/

/-- What holds in every scene of a run. -/
structure Sound (api : LocalApi ed) (codec : ConfigCodec) (key value : String) (file : ConfigFile)
    (config : DsearchConfig) (existing : Option ℕ) (refusal : Option String) (scene : Scene) : Prop where
  held : scene.file = file ∨ scene.file = (once codec key value file).1
  nodeEnd : (∃ c, OnWay codec key value config existing refusal c ∧ scene.node = c.bind fun result =>
      .done (some (setReply api key value result))) ∨
    ∃ answer, scene.node = .done answer ∧ ∀ resp, answer = some resp → Taken resp →
      once codec key value file = (scene.file, .ok ())
  commandEnd : ∀ c, scene.command = some c → OnWay codec key value config existing none c ∨
    ∃ result, c = .done result ∧ once codec key value file = (scene.file, result)

theorem sound_start
    (hprinted : Printed api key value body) {port : UInt16} {received : Bytes}
    (hstart : received <+: encode (apiPostText port "/config/set".toList body)) (s : NodeState) :
    Sound api codec key value file config existing refusal (start api codec received s refusal file) := by
  refine ⟨.inl rfl, ?_, fun c hc => by cases hc⟩
  rcases heard_cases hprinted hstart s with hheard | ⟨resp, hheard, htaken⟩ | hheard
  · refine .inr ⟨none, ?_, fun resp hresp => by cases hresp⟩
    rw [start, hheard]
    rfl
  · refine .inr ⟨some resp, ?_, fun resp' hresp' htaken' => ?_⟩
    · rw [start, hheard]
      rfl
    · obtain rfl := Option.some.inj hresp'
      exact absurd htaken' htaken
  · refine .inl ⟨_, .load, ?_⟩
    rw [start, hheard]
    rfl

theorem taken_setReply {result : Except SetFailure Unit} (h : Taken (setReply api key value result)) :
    result = .ok () := by
  cases result with
  | ok done => rfl
  | error failure =>
    have hbad : ¬ Taken (.badRequest "") := by decide
    have hinternal : ¬ Taken (.internalError "") := by decide
    cases failure with
    | load e => exact absurd h hinternal
    | value e => exact absurd h hbad
    | save e => exact absurd h hinternal

theorem turn_bind {σ α β : Type} (c : Client σ α) (k : α → Client σ β) (s : σ)
    (h : ∀ a, c ≠ .done a) : (c.bind k).turn s = ((c.turn s).1, (c.turn s).2.bind k) := by
  cases c with
  | done a => exact absurd rfl (h a)
  | transact commit resume => rfl

theorem OnWay.ne_done {c : Client ConfigFile (Except SetFailure Unit)}
    (h : OnWay codec key value config existing refusal c) (result : Except SetFailure Unit) :
    c ≠ .done result := by
  cases h with
  | load => exact fun hdone => by cases hdone
  | version hset => exact fun hdone => by cases hdone
  | write hset htext => cases refusal <;> exact fun hdone => by cases hdone

/-- A post that succeeds has been answered, and the value is set. -/
theorem once_of_ok {scene : Scene}
    (hsound : Sound api codec key value file config existing refusal scene) {text : String}
    (hreturns : Returns api scene.node (.ok text)) :
    once codec key value file = (scene.file, .ok ()) := by
  generalize hposted : Except.ok text = answer at hreturns
  cases hreturns with
  | failed e => cases hposted
  | @read response hresponse =>
    have hnone : postAnswer [] ≠ .ok text := fun h => by cases h
    have hunwritten : written api scene.node ≠ [] := by
      intro hnil
      rw [hnil, List.prefix_nil] at hresponse
      rw [hresponse] at hposted
      exact hnone hposted.symm
    rcases hsound.nodeEnd with ⟨c, hway, hnode⟩ | ⟨answer, hnode, hanswer⟩
    · -- a set that is on its way has not been answered
      refine absurd ?_ hunwritten
      rw [hnode, written]
      cases c with
      | done result => exact absurd rfl (hway.ne_done result)
      | transact commit resume => rfl
    · cases answer with
      | none =>
        refine absurd ?_ hunwritten
        rw [hnode]
        rfl
      | some resp =>
        rw [hnode] at hresponse
        exact hanswer resp rfl (taken_of_postAnswer hresponse hposted.symm)

/-- A step of either end. -/
theorem sound_step (h : Settable codec value file config existing) {scene scene' : Scene}
    (hstep : Step api codec key value scene scene')
    (hsound : Sound api codec key value file config existing refusal scene) :
    Sound api codec key value file config existing refusal scene' := by
  -- what has been set stays set
  have hstays : ∀ {left result}, left = scene.file ∨ left = (once codec key value file).1 →
      once codec key value file = (scene.file, result) →
        once codec key value file = (left, result) := by
    intro left result hleft honce
    rcases hleft with rfl | rfl
    · exact honce
    · rw [honce]
  have hfile : ∀ {left}, left = scene.file ∨ left = (once codec key value file).1 →
      left = file ∨ left = (once codec key value file).1 := by
    intro left hleft
    rcases hleft with rfl | hset
    · exact hsound.held
    · exact .inr hset
  cases hstep with
  | node =>
    rcases hsound.nodeEnd with ⟨c, hway, hnode⟩ | ⟨answer, hnode, hanswer⟩
    · obtain ⟨hleft, hnext⟩ := turn_onWay h hway hsound.held
      have hturn := turn_bind c (fun result => .done (some (setReply api key value result)))
        scene.file hway.ne_done
      rw [← hnode] at hturn
      rw [hturn]
      refine ⟨hfile hleft, ?_, fun c' hc' => ?_⟩
      · rcases hnext with hway' | ⟨result, hdone, hended⟩
        · exact .inl ⟨_, hway', rfl⟩
        · refine .inr ⟨some (setReply api key value result), ?_, fun resp hresp htaken => ?_⟩
          · dsimp only
            rw [hdone]
            rfl
          · obtain rfl := Option.some.inj hresp
            exact hended.2 (taken_setReply htaken)
      · exact (hsound.commandEnd c' hc').imp_right fun ⟨result, hdone, honce⟩ =>
          ⟨result, hdone, hstays hleft honce⟩
    · rw [hnode]
      exact ⟨hsound.held, .inr ⟨answer, rfl, hanswer⟩, hsound.commandEnd⟩
  | @posted answer hwaits hreturns =>
    refine ⟨hsound.held, hsound.nodeEnd, fun c hc => ?_⟩
    obtain rfl := Option.some.inj hc
    cases answer with
    | error e => exact .inl .load
    | ok text =>
      have honce := once_of_ok hsound hreturns
      exact .inr ⟨_, rfl, honce⟩
  | @command c hgoes =>
    rcases hsound.commandEnd c hgoes with hway | ⟨result, rfl, honce⟩
    · obtain ⟨hleft, hnext⟩ := turn_onWay h hway hsound.held
      refine ⟨hfile hleft, hsound.nodeEnd.imp_right fun ⟨answer, hnode, hanswer⟩ =>
        ⟨answer, hnode, fun resp hresp htaken => hstays hleft (hanswer resp hresp htaken)⟩,
        fun c' hc' => ?_⟩
      obtain rfl := Option.some.inj hc'
      exact hnext.imp_right fun ⟨result, hdone, hended⟩ => ⟨result, hdone, hended.1 rfl⟩
    · refine ⟨hsound.held, hsound.nodeEnd, fun c' hc' => ?_⟩
      obtain rfl := Option.some.inj hc'
      exact .inr ⟨result, rfl, honce⟩

theorem sound_run (h : Settable codec value file config existing) {first scene : Scene}
    (hrun : Relation.ReflTransGen (Step api codec key value) first scene)
    (hsound : Sound api codec key value file config existing refusal first) :
    Sound api codec key value file config existing refusal scene := by
  induction hrun with
  | refl => exact hsound
  | tail _ hstep ih => exact sound_step h hstep ih

/-- However the post goes and however the steps of the two fall, a command that ends has done to the file
what it does alone, and says so. -/
theorem config_set_once (h : Settable codec value file config existing)
    (hprinted : Printed api key value body) {port : UInt16} {received : Bytes}
    (hstart : received <+: encode (apiPostText port "/config/set".toList body)) (s : NodeState)
    {scene : Scene}
    (hrun : Relation.ReflTransGen (Step api codec key value) (start api codec received s refusal file)
      scene) {result : Except SetFailure Unit} (hends : scene.command = some (.done result)) :
    (setting codec none key value).run file = (scene.file, result) := by
  have hbegin : Sound api codec key value file config existing refusal
      (start api codec received s refusal file) := sound_start hprinted hstart s
  have hsound := sound_run h hrun hbegin
  rcases hsound.commandEnd _ hends with hway | ⟨result', hdone, honce⟩
  · exact absurd rfl (hway.ne_done result)
  · obtain rfl := Client.done.inj hdone
    exact honce

/-- A request that is read whole is heard. -/
theorem heard_whole (hlower : LowersAscii api.env.toLowercase) (hprinted : Printed api key value body)
    (hsize : body.utf8ByteSize ≤ MAX_BODY_SIZE) (port : UInt16) (s : NodeState) :
    heard api (encode (apiPostText port "/config/set".toList body)) s = .set key value := by
  have hbytes : encode (apiPostText port "/config/set".toList body) ≠ [] := by
    rw [Ne, encode_eq_nil, apiPostText]
    intro hnil
    exact hprinted.ne_empty (String.toList_eq_nil_iff.mp (List.append_eq_nil_iff.mp hnil).2)
  obtain ⟨req, hreq, hbody⟩ :=
    parse_apiPost hlower port (sendable_postPaths "/config/set" (by decide)) hsize
  rw [← fromUtf8Lossy_encode (apiPostText port "/config/set".toList body)] at hreq
  obtain ⟨hmethod, -, part, after, tail, hsplit, htail, hpart, hpath⟩ :=
    parse_part hprinted.return_not_mem hprinted.ne_empty (List.prefix_refl _) hbytes hreq
  have hsame : req.body = body := by
    refine hbody.mpr fun hblank => hprinted.return_not_mem ?_
    exact hblank.subset (by decide)
  have hafter : after = [] := by
    by_contra hafter
    obtain ⟨e, he⟩ := hprinted.part part after tail hsplit hafter (htail.imp_right And.right)
    rw [← hpart, hsame, hprinted.key] at he
    cases he
  rw [heard, if_neg hbytes, hreq]
  dsimp only
  rw [if_pos ⟨hmethod, hpath hafter⟩, LocalApi.setRequest, hsame, hprinted.key, hprinted.value]

/-! A port is set: the node has loaded the file when the post fails, and the command sets it alone. -/

def portBody : String := "\x7b\"key\":\"api.port\",\"value\":\"8888\"\x7d"

def portNode : LocalApi .checksum :=
  { LocalApi.portApi with env := ⟨0, 0, .sorted, Query.asciiLowercase⟩ }

def portCodec : ConfigCodec := LocalApi.codecOf LocalApi.portConfig LocalApi.portToml

theorem portBody_printed : Printed portNode "api.port" "8888" portBody := by
  refine ⟨by decide +kernel, rfl, rfl, fun part after tail hsplit hafter htail => ⟨"expected value", ?_⟩⟩
  refine if_neg fun hsame => ?_
  have hwhole : part ++ tail = part ++ after := by
    rw [← hsplit, ← String.toList_ofList (l := part ++ tail)]
    exact congrArg String.toList hsame
  rcases htail with rfl | rfl
  · exact hafter (List.append_cancel_left hwhole).symm
  · have hmem : replacement ∈ portBody.toList := by
      rw [hsplit, ← hwhole]
      simp
    exact absurd hmem (by decide +kernel)

theorem port_settable : Settable portCodec "8888" .missing .default none :=
  ⟨LocalApi.codecOf_lawful LocalApi.portToml_headers, rfl, by decide, by decide, rfl⟩

def portWhole : Bytes := encode (apiPostText 7743 "/config/set".toList portBody)

def portSetting : Client ConfigFile (Except SetFailure Unit) :=
  setting portCodec none "api.port" "8888"

def portScene (node : Client ConfigFile (Except SetFailure Unit)) (file : ConfigFile)
    (command : Option (Client ConfigFile (Except SetFailure Unit))) : Scene where
  file := file
  node := node.bind fun result => .done (some (setReply portNode "api.port" "8888" result))
  command := command

theorem start_port : start portNode portCodec portWhole (.new .empty) none .missing =
    portScene portSetting .missing none := by
  rw [start, portWhole, heard_whole lowersAscii_asciiLowercase portBody_printed (by decide)]
  rfl

theorem port_turns :
    portSetting.turn .missing = (.missing, saving portCodec none LocalApi.portConfig) ∧
    (saving portCodec none LocalApi.portConfig).turn .missing =
      (.missing, writing none (versionedText LocalApi.portToml (versionSet none))) ∧
    (writing none (versionedText LocalApi.portToml (versionSet none))).turn .missing =
      (.text (versionedText LocalApi.portToml (versionSet none)), .done (.ok ())) := by
  have hset : setConfigValue .default "api.port" "8888" = .ok LocalApi.portConfig := by decide +kernel
  refine ⟨?_, ?_, rfl⟩
  · rw [portSetting, turn_load port_settable.loads, hset]
  · rw [turn_version port_settable.version]
    rfl

theorem port_command {node : Client ConfigFile (Except SetFailure Unit)} {file file' : ConfigFile}
    {c c' : Client ConfigFile (Except SetFailure Unit)} (hturn : c.turn file = (file', c')) :
    Step portNode portCodec "api.port" "8888" (portScene node file (some c))
      (portScene node file' (some c')) := by
  have hstep : Step portNode portCodec "api.port" "8888" (portScene node file (some c))
      (portScene node (c.turn file).1 (some (c.turn file).2)) := .command rfl
  rw [hturn] at hstep
  exact hstep

theorem port_run : Relation.ReflTransGen (Step portNode portCodec "api.port" "8888")
    (start portNode portCodec portWhole (.new .empty) none .missing)
    (portScene (saving portCodec none LocalApi.portConfig)
      (.text (versionedText LocalApi.portToml (versionSet none))) (some (.done (.ok ())))) := by
  obtain ⟨hload, hversion, hwrite⟩ := port_turns
  have hnode : Step portNode portCodec "api.port" "8888" (portScene portSetting .missing none)
      (portScene (saving portCodec none LocalApi.portConfig) .missing none) := by
    have hstep : Step portNode portCodec "api.port" "8888" (portScene portSetting .missing none)
        (portScene (portSetting.turn .missing).2 (portSetting.turn .missing).1 none) := .node _
    rw [hload] at hstep
    exact hstep
  have hposted : Step portNode portCodec "api.port" "8888"
      (portScene (saving portCodec none LocalApi.portConfig) .missing none)
      (portScene (saving portCodec none LocalApi.portConfig) .missing (some portSetting)) :=
    .posted rfl (.failed "connect to API: timed out")
  rw [start_port]
  exact ((((Relation.ReflTransGen.single hnode).tail hposted).tail (port_command hload)).tail
    (port_command hversion)).tail (port_command hwrite)

theorem config_set_once_port :
    portSetting.run .missing =
      (.text (versionedText LocalApi.portToml (versionSet none)), .ok ()) :=
  config_set_once port_settable portBody_printed (List.prefix_refl _) (.new .empty) port_run rfl

end SetCommand

end DSearch

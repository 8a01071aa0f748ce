import DSearch.Api.ApiClient
import DSearch.Api.Ingest
import DSearch.Api.SafeGet
import DSearch.Storage.IndexRuns
import DSearch.Trust.SignedFields

/-! # A record by its id, over HTTP

`cmd_record` of `main.rs` puts the id into the path as it is; the API splits the request line, checks the
decoded path and looks up what stands after `/record/` in the path that is not decoded. -/

namespace DSearch
set_option autoImplicit false
open RustText Utf8Text SeparatedText JsonText Transaction Request ApiClient

/-! ## Records are stored under their ids -/

namespace KeyedById

theorem insertRecordTx {db : Db} (h : KeyedById db) (record : ContentRecord)
    (config : Option StorageConfig) : KeyedById (Records.insertRecordTx record config db).1 := by
  have hinsert : ∀ {records : Table ContentRecord}, (∀ (key : String) (r : ContentRecord),
      records[key]? = some r → r.id = key) → ∀ (key : String) (r : ContentRecord),
      (records.insert record.id record)[key]? = some r → r.id = key := by
    intro records hrecords key r hr
    rcases OrderedTable.get_insert_eq_some.mp hr with ⟨hkey, hr⟩ | ⟨-, hold⟩
    · rw [← hkey, hr]
    · exact hrecords key r hold
  obtain ⟨_, -, heq⟩ | ⟨-, -, heq⟩ | ⟨id, -, -, heq⟩ | ⟨-, -, heq⟩ :=
    Records.insertRecordTx_cases record config db
  · rw [heq]
    exact h
  · rw [heq]
    exact h
  · rw [heq]
    refine hinsert fun key r hr => ?_
    exact h key r (OrderedTable.get_erase_eq_some.mp hr).2
  · rw [heq]
    exact hinsert h

variable {ed : Ed25519} (store : Store ed)

theorem insertRecord (record : ContentRecord) : (store.insertRecord record).Keeps KeyedById :=
  store.insertRecord_within
    (fun _ _ h hindex => h.of_subset fun _ _ hr => by rwa [hindex.records] at hr)
    fun _ _ h => h.insertRecordTx _ _

theorem checkQuota (additionalBytes : ℕ) : (store.checkQuota additionalBytes).Keeps KeyedById :=
  Quota.checkQuota_within (fun _ h => h) (fun rows _ h => h.removeRows rows) _ _

theorem empty : KeyedById Db.empty := by
  intro key record hrecord
  simp [Db.empty] at hrecord

theorem ingested {ι : Type} [DecidableEq ι] (ingests : ι → Ingest ed) (schedule : List ι) :
    KeyedById (DSearch.ingested store ingests schedule).db :=
  ingested_of_keeps (fun _ => Ingest.client_keeps (checkQuota store) (fun _ _ _ => insertRecord store _)
    fun _ _ _ _ _ => insertRecord store _) empty schedule

end KeyedById

/-- The text of a record in a response tells its id. -/
theorem id_eq_of_valueJson {record record' : ContentRecord}
    (h : record.valueJson = record'.valueJson) : record.id = record'.id := by
  unfold ContentRecord.valueJson ofFields at h
  simp only [List.map_cons, commaSeparated, List.cons_append, List.append_assoc, List.cons.injEq,
    true_and, List.append_cancel_left_eq] at h
  -- the fields come in the order body, created_at, expires_at, id
  have hcreated := (ofString_append_inj h).2
  simp only [List.cons.injEq, true_and, List.append_cancel_left_eq] at hcreated
  have hexpires := ofNat_append_comma_inj hcreated
  rw [List.append_cancel_left_eq, List.cons.injEq] at hexpires
  have hid := ofNat_append_comma_inj hexpires.2
  rw [List.append_cancel_left_eq, List.cons.injEq] at hid
  exact asBytes_inj.mp (ofString_append_inj hid.2).1

namespace RecordLookup

/-- The path that `cmd_record` requests. -/
def cmdRecordPath (id : String) : List Char := "/record/".toList ++ id.toList

/-- The answer with a record in it. -/
def recordFound (nodeId : String) (record : ContentRecord) : HttpResponse :=
  (HttpResponse.json record.valueJson).withNodeHeaders nodeId

/-- The id comes with the first read, the request line does not end in it, nothing after it is a query,
and no part of the decoded id is refused. -/
structure Asked (id : String) (received : Bytes) : Prop where
  comes : "GET ".toList ++ cmdRecordPath id <+: fromUtf8Lossy received
  oneWord : ∀ c ∈ [' ', '\n', '?'], c ∉ id.toList
  noNull : '\x00' ∉ percentDecode id.toList
  noParent : "..".toList ∉ (percentDecode id.toList).splitOn '/'

theorem percentDecode_cmdRecordPath (id : String) :
    percentDecode (cmdRecordPath id) = "/record/".toList ++ percentDecode id.toList := rfl

theorem validatePath_cmdRecordPath_iff (id : String) :
    validatePath (percentDecode (cmdRecordPath id)) = .ok () ↔
      '\x00' ∉ percentDecode id.toList ∧ "..".toList ∉ (percentDecode id.toList).splitOn '/' := by
  have hsplit : (percentDecode (cmdRecordPath id)).splitOn '/' =
      [] :: "record".toList :: (percentDecode id.toList).splitOn '/' := by
    have hpath : percentDecode (cmdRecordPath id) =
        [] ++ '/' :: ("record".toList ++ '/' :: percentDecode id.toList) := rfl
    rw [hpath, List.splitOn_append_cons_self_of_not_mem List.not_mem_nil,
      List.splitOn_append_cons_self_of_not_mem (show '/' ∉ "record".toList by decide)]
  have hnull : '\x00' ∈ percentDecode (cmdRecordPath id) ↔ '\x00' ∈ percentDecode id.toList := by
    rw [percentDecode_cmdRecordPath, List.mem_append]
    exact or_iff_right (by decide)
  have hparent : "..".toList ∈ [] :: "record".toList :: (percentDecode id.toList).splitOn '/' ↔
      "..".toList ∈ (percentDecode id.toList).splitOn '/' := by
    simp
  unfold validatePath
  rw [hsplit, ← hnull, ← hparent]
  split
  next h => exact iff_of_false (by simp) fun hboth => hboth.1 h
  next h =>
    split
    next h' => exact iff_of_false (by simp) fun hboth => hboth.2 h'
    next h' => exact iff_of_true rfl ⟨h, h'⟩

/-! ## What has been read -/

section
variable {port : UInt16} {path text : List Char} {received : Bytes}

/-- If the target has come, some of the headers have come with it, and nothing else. -/
theorem seen_of_comes (hstart : received <+: encode (requestText port path))
    (hcomes : "GET ".toList ++ path <+: fromUtf8Lossy received) :
    ∃ rest, fromUtf8Lossy received = "GET ".toList ++ (path ++ rest) ∧ rest <+: requestTail port := by
  have hwhole : requestText port path = ("GET ".toList ++ path) ++ requestTail port := by
    rw [requestText, List.append_assoc]
  rcases prefix_encode_cases hstart with ⟨before, after, hbefore, rfl⟩ |
    ⟨before, c, after, part, hbefore, rfl, hpart, hne, hcut⟩
  · rw [fromUtf8Lossy_encode] at hcomes ⊢
    obtain ⟨rest, rfl⟩ := hcomes
    refine ⟨rest, List.append_assoc _ _ _, after, ?_⟩
    rw [hwhole, List.append_assoc _ rest, List.append_cancel_left_eq] at hbefore
    exact hbefore.symm
  · rw [fromUtf8Lossy_cut before hpart hne hcut] at hcomes ⊢
    rcases List.prefix_concat_iff.mp hcomes with hall | hcomes
    · exact ⟨[], by rw [List.append_nil, hall], List.nil_prefix⟩
    · -- the character that is cut would stand in the headers, and those are ASCII
      obtain ⟨rest, rfl⟩ := hcomes
      rw [hwhole, List.append_assoc _ rest, List.append_cancel_left_eq] at hbefore
      have hmem : c ∈ requestTail port := by simp [hbefore]
      have hascii := (mem_requestTail hmem).1
      have hsize : c.utf8Size = 1 := Char.utf8Size_eq_one_iff.mpr (by
        rw [UInt32.le_iff_toNat_le]
        exact Nat.le_of_lt_succ hascii)
      rw [String.utf8EncodeChar_eq_singleton hsize] at hpart hcut
      rcases List.prefix_cons_iff.mp hpart with hnil | ⟨more, hmore, hnone⟩
      · exact absurd hnil hne
      · exact absurd (hmore.trans (congrArg _ (List.prefix_nil.mp hnone))) hcut

/-- What is read as text begins as the request does, but for a replacement at its end. -/
theorem seen_start (hstart : received <+: encode (requestText port path)) {start : List Char}
    (hseen : start <+: fromUtf8Lossy received) (hplain : replacement ∉ start) :
    start <+: requestText port path := by
  obtain ⟨before, after, tail, hwhole, hread, htail⟩ := fromUtf8Lossy_of_start hstart
  rw [fromUtf8Lossy_encode] at hwhole
  rw [hread] at hseen
  have hbefore : start <+: before := by
    rcases htail with rfl | ⟨-, rfl⟩
    · rwa [List.append_nil] at hseen
    · exact prefix_of_prefix_append hplain hseen
  rw [hwhole]
  exact hbefore.trans (List.prefix_append before after)

end

/-- A request line that is parsed has its first space, and the text begins with `GET`. -/
theorem exists_get_of_headOf {toLowercase : String → String} {port : UInt16} {path : List Char}
    {received : Bytes} (hstart : received <+: encode (requestText port path))
    (hhead : (headOf toLowercase (fromUtf8Lossy received)).isSome) :
    ∃ text, fromUtf8Lossy received = "GET ".toList ++ text := by
  obtain ⟨before, after, tail, hwhole, hread, htail⟩ := fromUtf8Lossy_of_start hstart
  rw [fromUtf8Lossy_encode] at hwhole
  have hspace : ' ' ∈ before := by
    by_contra hnone
    have hnone' : ' ' ∉ fromUtf8Lossy received := by
      rw [hread, List.mem_append]
      rintro (h | h)
      · exact hnone h
      · rcases htail with rfl | ⟨-, rfl⟩
        · cases h
        · exact absurd h (by decide)
    unfold headOf at hhead
    cases hlines : lines (fromUtf8Lossy received) with
    | nil =>
      rw [hlines] at hhead
      cases hhead
    | cons line headerLines =>
      have hline : ' ' ∉ line := fun h =>
        hnone' ((infix_of_mem_lines (hlines ▸ List.mem_cons_self)).subset h)
      rw [hlines] at hhead
      dsimp only at hhead
      rw [splitN, splitFirst_of_not_mem hline] at hhead
      cases hhead
  have hget : "GET".toList ++ [' '] <+: requestText port path := List.prefix_append _ _
  have hbefore : before <+: requestText port path := hwhole ▸ List.prefix_append before after
  rcases List.prefix_or_prefix_of_prefix hget hbefore with ⟨text, htext⟩ | hshort
  · exact ⟨text ++ tail, by rw [hread, ← htext, List.append_assoc]; rfl⟩
  · rcases List.prefix_concat_iff.mp hshort with rfl | hshort
    · exact ⟨tail, hread⟩
    · exact absurd (hshort.subset hspace) (by decide)

/-! ## What is looked up -/

theorem toList_of_idAfter {start path id : String} (h : Content.idAfter start path = some id) :
    path.toList = start.toList ++ id.toList := by
  unfold Content.idAfter stripPrefix at h
  split at h
  next hstart =>
    obtain ⟨rest, hrest⟩ := List.isPrefixOf_iff_prefix.mp hstart
    rw [← hrest, List.drop_left] at h
    rw [← Option.some.inj h, String.toList_ofList, hrest]
  next => cases h

theorem not_prefix_of_idAfter {start path : String} (h : Content.idAfter start path = none) :
    ¬ start.toList <+: path.toList := by
  unfold Content.idAfter stripPrefix at h
  split at h
  next => cases h
  next hstart => exact fun hbegins => hstart (List.isPrefixOf_iff_prefix.mpr hbegins)

section
variable {ed : Ed25519} (api : LocalApi ed)

/-- A path that begins as `/record/` does, as far as it goes, has an id or an unknown route. -/
theorem getRoute_cases (req : HttpRequest)
    (hstart : ∀ start, start <+: req.path.toList → replacement ∉ start →
      start <+: "/record/".toList ∨ "/record/".toList <+: start) :
    (∃ id, req.path.toList = cmdRecordPath id ∧
      api.getRoute req = LocalApi.answering (Content.getRecord api.nodeId id)) ∨
    ¬ "/record/".toList <+: req.path.toList ∧
      api.getRoute req = LocalApi.respond (.notFound "unknown route") := by
  have hroute : ∀ route : String, req.path = route → replacement ∉ route.toList →
      route.toList <+: "/record/".toList ∨ "/record/".toList <+: route.toList := by
    intro route hpath hplain
    subst hpath
    exact hstart _ (List.prefix_refl _) hplain
  unfold LocalApi.getRoute
  split
  case h_16 =>
    split
    next id hid => exact .inl ⟨id, toList_of_idAfter hid, rfl⟩
    next id _ hschema =>
      have hbegins : "/schema/".toList <+: req.path.toList :=
        toList_of_idAfter hschema ▸ List.prefix_append _ _
      exact absurd (hstart _ hbegins (by decide)) (by decide)
    next hid _ => exact .inr ⟨not_prefix_of_idAfter hid, rfl⟩
  all_goals
    next hpath => exact absurd (hroute _ hpath (by decide)) (by decide)

theorem answering_getRecord_run (nodeId id : String) (s : NodeState) :
    (LocalApi.answering (Content.getRecord nodeId id)).run s =
      (s, .ok (match Records.getRecord s.db id with
        | some record => recordFound nodeId record
        | none => .notFound ("record not found: " ++ id))) := by
  unfold LocalApi.answering Content.getRecord
  rw [Client.run_bind, Client.run_read]
  cases Records.getRecord s.db id <;> rfl

theorem notFound_ne_recordFound (error nodeId : String) (record : ContentRecord) :
    HttpResponse.notFound error ≠ recordFound nodeId record := by
  intro h
  have hstatus : 404 = 200 := congrArg HttpResponse.status h
  exact absurd hstatus (by decide)

variable {s : NodeState} {port : UInt16} {id : String} {record : ContentRecord} {reads : List Bytes}

theorem requestText_ne_nil (port : UInt16) (path : List Char) : encode (requestText port path) ≠ [] := by
  intro h
  have hget : "GET ".toList = [] := (List.append_eq_nil_iff.mp (encode_eq_nil.mp h)).1
  exact absurd hget (by decide)

/-- A path in what has been read begins as the path of the request does. -/
theorem starts_as_record {path : List Char} {received : Bytes}
    (hstart : received <+: encode (requestText port (cmdRecordPath id)))
    (hpath : "GET ".toList ++ path <+: fromUtf8Lossy received) (start : List Char)
    (hbegins : start <+: path) (hplain : replacement ∉ start) :
    start <+: "/record/".toList ∨ "/record/".toList <+: start := by
  have hget : "GET ".toList ++ start <+: requestText port (cmdRecordPath id) := by
    refine seen_start hstart (((List.prefix_append_right_inj _).mpr hbegins).trans hpath) ?_
    rw [List.mem_append]
    exact fun h => h.elim (by decide) hplain
  rw [requestText, List.prefix_append_right_inj] at hget
  have hroute : "/record/".toList <+: cmdRecordPath id := List.prefix_append _ id.toList
  exact List.prefix_or_prefix_of_prefix hget (hroute.trans (List.prefix_append _ _))

theorem asked_of_found (hkeyed : KeyedById s.db) (hstored : Records.getRecord s.db id = some record)
    (hreads : Local.Reads (encode (requestText port (cmdRecordPath id))) reads)
    (hfound : ((api.handleConnection reads).run s).2 =
      .ok (some (.ok (recordFound api.nodeId record)))) : Asked id (reads.headD []) := by
  obtain ⟨hne, hstart, -⟩ := hreads.first (requestText_ne_nil port _)
  unfold LocalApi.handleConnection Local.handleConnection at hfound
  dsimp only at hfound
  rw [if_neg hne] at hfound
  split at hfound
  next => cases hfound
  next req hparse =>
  obtain ⟨hhead, hvalid, -⟩ := parseHttpRequest_eq_ok_iff.mp hparse
  obtain ⟨text, htext⟩ := exists_get_of_headOf hstart (Option.isSome_of_eq_some hhead)
  rw [htext] at hhead
  obtain ⟨target, rest, headerLines, rfl, hspace, hfeed, -, hget, -, -⟩ :=
    headOf_get api.env.toLowercase text
  have hsame := Option.some.inj (hhead.symm.trans hget)
  simp only [Prod.mk.injEq] at hsame
  obtain ⟨hmethod, hpath, -, -⟩ := hsame
  have htarget : req.path.toList <+: target := by
    rw [hpath, String.toList_ofList]
    exact splitFirst_isPrefix _ _
  have hseen : "GET ".toList ++ req.path.toList <+: fromUtf8Lossy (reads.headD []) := by
    rw [htext, List.prefix_append_right_inj]
    exact htarget.trans (List.prefix_append target rest)
  simp only [LocalApi.route, hmethod] at hfound
  rcases getRoute_cases api req (starts_as_record hstart hseen) with ⟨id', hid, hroute⟩ | ⟨-, hroute⟩
  · rw [hroute, Client.run_bind, answering_getRecord_run] at hfound
    have hanswer := Outcome.ok.inj (Option.some.inj (Except.ok.inj hfound))
    cases hfind : Records.getRecord s.db id' with
    | none =>
      rw [hfind] at hanswer
      exact absurd hanswer (notFound_ne_recordFound _ _ _)
    | some record' =>
      rw [hfind] at hanswer
      have hjson : record'.valueJson = record.valueJson := congrArg HttpResponse.body hanswer
      obtain rfl : id' = id :=
        (hkeyed id' record' hfind).symm.trans
          ((id_eq_of_valueJson hjson).trans (hkeyed id record hstored))
      have hmem : ∀ c ∈ id'.toList, c ∈ req.path.toList := fun c hc =>
        hid ▸ List.mem_append_right _ hc
      rw [hid] at hseen hvalid
      obtain ⟨hnull, hparent⟩ := (validatePath_cmdRecordPath_iff id').mp hvalid
      refine ⟨hseen, ?_, hnull, hparent⟩
      intro c hc hcid
      simp only [List.mem_cons, List.not_mem_nil, or_false] at hc
      rcases hc with rfl | rfl | rfl
      · exact hspace (htarget.subset (hmem _ hcid))
      · exact hfeed (htarget.subset (hmem _ hcid))
      · have hquery := hmem _ hcid
        rw [hpath, String.toList_ofList] at hquery
        exact not_mem_splitFirst _ _ hquery
  · rw [hroute] at hfound
    have hanswer := Outcome.ok.inj (Option.some.inj (Except.ok.inj hfound))
    exact absurd hanswer (notFound_ne_recordFound _ _ _)

theorem found_of_asked (hlower : LowersAscii api.env.toLowercase)
    (hstored : Records.getRecord s.db id = some record)
    (hreads : Local.Reads (encode (requestText port (cmdRecordPath id))) reads)
    (hasked : Asked id (reads.headD [])) :
    (api.handleConnection reads).run s = (s, .ok (some (.ok (recordFound api.nodeId record)))) := by
  obtain ⟨hne, hstart, -⟩ := hreads.first (requestText_ne_nil port _)
  obtain ⟨rest, htext, hrest⟩ := seen_of_comes hstart hasked.comes
  have hmem : ∀ c ∈ [' ', '\n', '?'], c ∉ cmdRecordPath id := by
    have hroute : ∀ c ∈ [' ', '\n', '?'], c ∉ "/record/".toList := by simp
    intro c hc h
    rcases List.mem_append.mp h with h | h
    · exact hroute c hc h
    · exact hasked.oneWord c hc h
  have hquery := splitFirst_of_not_mem (hmem '?' (by decide))
  have hvalid := (validatePath_cmdRecordPath_iff id).mpr ⟨hasked.noNull, hasked.noParent⟩
  obtain ⟨headers, body, hparse⟩ := parse_get hlower port (hmem ' ' (by decide))
    (hmem '\n' (by decide)) hrest (by rwa [hquery])
  rw [← htext, hquery] at hparse
  unfold LocalApi.handleConnection Local.handleConnection
  have hpath : (String.ofList (cmdRecordPath id)).toList = cmdRecordPath id := String.toList_ofList
  have hroute := getRoute_cases api ⟨"GET", String.ofList (cmdRecordPath id), parseQueryString [],
    headers, body⟩ (by rw [hpath]; exact starts_as_record hstart hasked.comes)
  dsimp only
  rw [if_neg hne, hparse]
  dsimp only
  rw [hpath] at hroute
  rcases hroute with ⟨id', hid, hroute⟩ | ⟨hnone, -⟩
  · obtain rfl := String.toList_inj.mp (List.append_cancel_left hid)
    simp only [LocalApi.route, Option.getD_none]
    rw [hroute, Client.run_bind, answering_getRecord_run, hstored]
    rfl
  · exact absurd (List.prefix_append _ _) hnone

end

/-- The lookup of an ingested record over HTTP finds it exactly if its request comes with the id in one
read, the id is one word without a query, and no part of the decoded id is refused. -/
theorem record_found_iff {ed : Ed25519} (store : Store ed) {ι : Type} [DecidableEq ι]
    (ingests : ι → Ingest ed) (schedule : List ι) (id : String) (record : ContentRecord)
    (hstored : Records.getRecord (ingested store ingests schedule).db id = some record)
    (api : LocalApi ed) (hlower : LowersAscii api.env.toLowercase) (port : UInt16)
    (reads : List Bytes)
    (hreads : Local.Reads (encode (requestText port (cmdRecordPath id))) reads) :
    (api.handleConnection reads).run (ingested store ingests schedule) =
        (ingested store ingests schedule, .ok (some (.ok (recordFound api.nodeId record)))) ↔
      Asked id (reads.headD []) := by
  constructor
  · intro h
    exact asked_of_found api (KeyedById.ingested store ingests schedule) hstored hreads
      (congrArg Prod.snd h)
  · exact found_of_asked api hlower hstored hreads

/-! ## A record with a space in its id -/

def readsRecord (id : String) (text : Bytes) : Except String ContentRecord :=
  if text = (makeRecord id "src" 1 0).toJson then .ok (makeRecord id "src" 1 0)
  else .error "expected value"

/-- The store after a push of a record with this id. -/
def pushedState (id : String) : NodeState :=
  ingested plainStore
    (fun _ : Unit => .replicatePush (readsRecord id) (pushRecord (makeRecord id "src" 1 0))) [(), (), ()]

def lookupApi : LocalApi .checksum :=
  { bareApi ⟨1, "evict_oldest"⟩ "" (makeRecord "r1" "src" 1 0) with
    env := ⟨0, 0, .sorted, Query.asciiLowercase⟩ }

def lookupBytes (id : String) : Bytes := encode (requestText 7743 (cmdRecordPath id))

theorem reads_atOnce {id : String} (h : (lookupBytes id).length ≤ 65536) :
    Local.Reads (encode (requestText 7743 (cmdRecordPath id))) [lookupBytes id] where
  flatten_eq := List.flatten_singleton
  ne_nil received hreceived := by
    rw [List.mem_singleton.mp hreceived]
    exact requestText_ne_nil 7743 _
  fits received hreceived := by rwa [List.mem_singleton.mp hreceived]

theorem record_found_iff_oneRead :
    (lookupApi.handleConnection [lookupBytes "r1"]).run (pushedState "r1") =
      (pushedState "r1", .ok (some (.ok (recordFound "n" (makeRecord "r1" "src" 1 0))))) := by
  refine (record_found_iff plainStore _ _ "r1" (makeRecord "r1" "src" 1 0) (by decide +kernel) lookupApi
    lowersAscii_asciiLowercase 7743 [lookupBytes "r1"] (reads_atOnce (by decide +kernel))).mpr
    ⟨?_, by simp, by decide, by decide⟩
  rw [List.headD_cons, lookupBytes, fromUtf8Lossy_encode]
  exact ⟨requestTail 7743, List.append_assoc _ _ _⟩

/-- The request line ends at the space. -/
theorem spaced_id_not_found :
    ¬ ∀ (ed : Ed25519) (store : Store ed) (ι : Type) (_ : DecidableEq ι) (ingests : ι → Ingest ed)
      (schedule : List ι) (id : String) (record : ContentRecord),
      Records.getRecord (ingested store ingests schedule).db id = some record →
      ∀ (api : LocalApi ed), LowersAscii api.env.toLowercase → ∀ (port : UInt16) (reads : List Bytes),
      Local.Reads (encode (requestText port (cmdRecordPath id))) reads →
      ((api.handleConnection reads).run (ingested store ingests schedule)).2 =
        .ok (some (.ok (recordFound api.nodeId record))) := by
  intro h
  have hstored : Records.getRecord (pushedState "a b").db "a b" =
      some (makeRecord "a b" "src" 1 0) := by decide +kernel
  have hreads := reads_atOnce (show (lookupBytes "a b").length ≤ 65536 by decide +kernel)
  have hfound := h .checksum plainStore Unit _ _ _ "a b" _ hstored lookupApi
    lowersAscii_asciiLowercase 7743 _ hreads
  have hkeyed := KeyedById.ingested plainStore (fun _ : Unit => Ingest.replicatePush
    (readsRecord "a b") (pushRecord (makeRecord "a b" "src" 1 0))) [(), (), ()]
  have hasked := asked_of_found lookupApi hkeyed hstored hreads hfound
  exact hasked.oneWord ' ' (by decide) (by decide)

end RecordLookup

end DSearch

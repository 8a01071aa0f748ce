import DSearch.Api.ApiClient

/-! # Where the body of a request begins

The headers end at the first empty line, however the lines end; the body is what stands between the
first two blank lines in CRLF. The two agree exactly if nothing follows the empty line, or if that line
and the one before it end in CRLF and no blank line in CRLF is in the rest. -/

namespace DSearch
set_option autoImplicit false
open RustText Sign Utf8Text SeparatedText

namespace Request
variable {toLowercase : String → String} {raw before rest : List Char}

/-! ## The first empty line -/

/-- A text is divided after its first empty line. -/
structure HeadEnd (raw before rest : List Char) : Prop where
  whole : raw = before ++ rest
  first : ∃ full, lines before = full ++ [[]] ∧ [] ∉ full

theorem lines_nil : lines [] = [] := rfl

theorem lines_ne_nil {cs : List Char} (h : cs ≠ []) : lines cs ≠ [] := by
  by_cases hfeed : '\n' ∈ cs
  · obtain ⟨a, b, rfl, ha⟩ := List.eq_append_cons_of_mem hfeed
    rw [lines_cons ha]
    exact List.cons_ne_nil _ _
  · rw [lines_of_not_mem hfeed h]
    exact List.cons_ne_nil _ _

/-- What follows the last line feed is a line of its own, and not empty. -/
theorem getLast?_lines {c : Char} (hc : c ≠ '\n') (cs : List Char) :
    ∃ line, (lines (cs ++ [c])).getLast? = some line ∧ line ≠ [] := by
  induction cs using piece_induction '\n' with
  | one a ha =>
    have hfeed : '\n' ∉ a ++ [c] := by simp [ha, Ne.symm hc]
    refine ⟨a ++ [c], ?_, by simp⟩
    rw [lines_of_not_mem hfeed (by simp)]
    rfl
  | more a b ha ih =>
    obtain ⟨line, hline, hne⟩ := ih
    refine ⟨line, ?_, hne⟩
    rw [List.append_assoc, List.cons_append, lines_cons ha, List.getLast?_cons, hline]
    rfl

theorem HeadEnd.line_feed (h : HeadEnd raw before rest) : ∃ front, before = front ++ ['\n'] := by
  obtain ⟨full, hlines, -⟩ := h.first
  rcases List.eq_nil_or_concat before with rfl | ⟨front, c, rfl⟩
  · rw [lines_nil] at hlines
    simp at hlines
  · rw [List.concat_eq_append] at hlines ⊢
    refine ⟨front, ?_⟩
    by_contra hne
    have hc : c ≠ '\n' := fun heq => hne (by rw [heq])
    obtain ⟨line, hline, hfull⟩ := getLast?_lines hc front
    rw [hlines, List.getLast?_concat] at hline
    exact hfull (Option.some.inj hline).symm

/-- The lines of a text are those up to the empty one and those after it. -/
theorem HeadEnd.lines_eq (h : HeadEnd raw before rest) : lines raw = lines before ++ lines rest := by
  obtain ⟨front, hfront⟩ := h.line_feed
  have hwhole := h.whole
  rw [hfront, List.append_assoc, List.singleton_append] at hwhole
  rw [hwhole, hfront, lines_append, lines_append, lines_nil, List.append_nil]

theorem exists_headEnd (h : [] ∈ lines raw) : ∃ before rest, HeadEnd raw before rest := by
  induction raw using piece_induction '\n' with
  | one a ha =>
    by_cases hne : a = []
    · rw [hne, lines_nil] at h
      simp at h
    · rw [lines_of_not_mem ha hne, List.mem_singleton] at h
      exact absurd h.symm hne
  | more a b ha ih =>
    have hone : lines (a ++ ['\n']) = [stripCarriageReturn a] := by rw [lines_cons ha, lines_nil]
    rw [lines_cons ha] at h
    by_cases hempty : stripCarriageReturn a = []
    · refine ⟨a ++ ['\n'], b, by simp, [], ?_, by simp⟩
      rw [hone, hempty]
      rfl
    · have hrest : [] ∈ lines b := (List.mem_cons.mp h).resolve_left fun heq => hempty heq.symm
      obtain ⟨before, rest, hwhole, full, hlines, hfull⟩ := ih hrest
      refine ⟨a ++ '\n' :: before, rest, by simp [hwhole], stripCarriageReturn a :: full, ?_, ?_⟩
      · rw [lines_cons ha, hlines]
        rfl
      · simp [Ne.symm hempty, hfull]

/-- The head is read from the lines up to the empty one. -/
theorem HeadEnd.headOf_eq (h : HeadEnd raw before rest) :
    headOf toLowercase raw = headOf toLowercase before := by
  obtain ⟨full, hlines, -⟩ := h.first
  have hraw := h.lines_eq
  rw [hlines, List.append_assoc, List.singleton_append] at hraw
  rw [headOf, headOf, hraw, hlines]
  cases full with
  | nil => rfl
  | cons requestLine full =>
    rw [List.cons_append, List.cons_append]
    simp only [parseHeaders_stops]

/-- No blank line in CRLF ends before the first empty line. -/
theorem HeadEnd.isPrefix (h : HeadEnd raw before rest) {head after : List Char}
    (hraw : raw = head ++ blankLine ++ after) : before <+: head ++ blankLine := by
  have hpre : before <+: raw := h.whole ▸ List.prefix_append before rest
  have hpre' : head ++ blankLine <+: raw := hraw ▸ List.prefix_append _ after
  rcases List.prefix_or_prefix_of_prefix hpre hpre' with hle | ⟨more, hmore⟩
  · exact hle
  · obtain ⟨full, hlines, hfull⟩ := h.first
    rw [← hmore, lines_blankLine] at hlines
    rcases List.eq_nil_or_concat (lines more) with hnil | ⟨last, line, hlast⟩
    · obtain rfl : more = [] := by
        by_contra hne
        exact lines_ne_nil hne hnil
      rw [← hmore, List.append_nil]
    · -- then an empty line comes before the last one
      rw [hlast, List.concat_eq_append, ← List.cons_append, ← List.append_assoc] at hlines
      obtain ⟨hinit, -⟩ := List.append_inj' hlines rfl
      exact absurd (by rw [← hinit]; simp) hfull

theorem HeadEnd.isHead {head : List Char} (h : HeadEnd raw (head ++ blankLine) rest) :
    IsHead head := by
  have hself : HeadEnd (head ++ blankLine) (head ++ blankLine) [] := ⟨by simp, h.first⟩
  have hinside : blankLine <:+: head ++ blankLine := ⟨head, [], by simp⟩
  obtain ⟨⟨head', after⟩, hbreak⟩ := Option.ne_none_iff_exists'.mp (breakOn_ne_none hinside)
  have hparts := eq_of_breakOn hbreak
  have hpre := hself.isPrefix hparts
  have hlen := hpre.length_le
  have hwhole := congrArg List.length hparts
  simp only [List.length_append] at hlen hwhole
  obtain rfl : after = [] := List.length_eq_zero_iff.mp (by omega)
  rw [List.append_nil] at hparts
  obtain rfl := List.append_cancel_right hparts
  exact hbreak

/-! ## The body -/

theorem breakOn_length {pattern cs a b : List Char} (h : breakOn pattern cs = some (a, b)) :
    a.length + pattern.length + b.length = cs.length := by
  rw [eq_of_breakOn h]
  simp only [List.length_append]

theorem length_bodyOf_le {head after : List Char} (h : breakOn blankLine raw = some (head, after)) :
    (bodyOf raw).length ≤ after.length := by
  have hsome : breakOn "\r\n\r\n".toList raw = some (head, after) := h
  rw [bodyOf, hsome]
  dsimp only
  split
  · exact le_refl _
  · next body more hbody =>
    have hlen := breakOn_length hbody
    omega

/-- After a blank line in CRLF the body goes on to the next one. -/
theorem HeadEnd.bodyOf_crlf_iff {head : List Char} (h : HeadEnd raw (head ++ blankLine) rest) :
    bodyOf raw = rest ↔ ¬ blankLine <:+: rest := by
  rw [h.whole, h.isHead.bodyOf_append]
  cases hbreak : breakOn blankLine rest with
  | none => exact ⟨fun _ => breakOn_eq_none_iff.mp hbreak, fun _ => rfl⟩
  | some parts =>
    obtain ⟨body, more⟩ := parts
    have hlen := breakOn_length hbreak
    have hfour : blankLine.length = 4 := rfl
    constructor
    · intro hbody
      have hbody : body = rest := hbody
      rw [hbody] at hlen
      omega
    · exact fun hnone => absurd ⟨body, more, (eq_of_breakOn hbreak).symm⟩ hnone

/-- After another empty line the body is empty or begins later. -/
theorem HeadEnd.bodyOf_other_iff (h : HeadEnd raw before rest) (hends : ¬ blankLine <:+ before) :
    bodyOf raw = rest ↔ rest = [] := by
  cases hbreak : breakOn blankLine raw with
  | none => rw [bodyOf_eq_nil (breakOn_eq_none_iff.mp hbreak), eq_comm]
  | some parts =>
    obtain ⟨head, after⟩ := parts
    have hparts := eq_of_breakOn hbreak
    obtain ⟨more, hmore⟩ := h.isPrefix hparts
    -- the first blank line in CRLF ends after the first empty line
    have hne : more ≠ [] := by
      rintro rfl
      exact hends ⟨head, by rw [← hmore, List.append_nil]⟩
    have hrest : rest = more ++ after := by
      rw [h.whole, ← hmore, List.append_assoc] at hparts
      exact List.append_cancel_left hparts
    have hshort := length_bodyOf_le hbreak
    have hpos := List.length_pos_of_ne_nil hne
    constructor
    · intro hbody
      rw [hbody, hrest, List.length_append] at hshort
      omega
    · intro hnil
      rw [hrest] at hnil
      exact absurd (List.append_eq_nil_iff.mp hnil).1 hne

/-- The body is what follows the first empty line exactly if nothing does, or if the head ends in CRLF
and no blank line in CRLF is in the rest. -/
theorem HeadEnd.bodyOf_iff (h : HeadEnd raw before rest) :
    bodyOf raw = rest ↔ rest = [] ∨ (blankLine <:+ before ∧ ¬ blankLine <:+: rest) := by
  by_cases hends : blankLine <:+ before
  · obtain ⟨head, rfl⟩ := hends
    rw [h.bodyOf_crlf_iff]
    constructor
    · exact fun hnone => .inr ⟨⟨head, rfl⟩, hnone⟩
    · rintro (rfl | ⟨-, hnone⟩)
      · decide
      · exact hnone
  · rw [h.bodyOf_other_iff hends]
    exact ⟨.inl, fun hcases => hcases.resolve_right fun hboth => hends hboth.1⟩

theorem bodyOf_of_no_empty_line (h : [] ∉ lines raw) : bodyOf raw = [] := by
  refine bodyOf_eq_nil fun hin => h ?_
  obtain ⟨head, after, hraw⟩ := hin
  rw [← hraw, lines_blankLine]
  simp

theorem HeadEnd.utf8ByteSize_bodyOf_le {head : List Char}
    (h : HeadEnd raw (head ++ blankLine) rest) :
    (String.ofList (bodyOf raw)).utf8ByteSize ≤ (String.ofList rest).utf8ByteSize := by
  rw [h.whole, h.isHead.bodyOf_append, utf8ByteSize_ofList, utf8ByteSize_ofList]
  cases hbreak : breakOn blankLine rest with
  | none => exact le_refl _
  | some parts =>
    obtain ⟨body, more⟩ := parts
    rw [eq_of_breakOn hbreak, encode_append, encode_append, List.length_append, List.length_append]
    dsimp only
    omega

/-! ## Headers that are written -/

theorem lines_crlf {line : List Char} (h : '\n' ∉ line) (rest : List Char) :
    lines (line ++ '\r' :: '\n' :: rest) = line :: lines rest := by
  have hfeed : '\n' ∉ line ++ ['\r'] := by simp [h]
  have hlines := lines_cons hfeed rest
  rw [List.append_assoc, List.singleton_append] at hlines
  rw [hlines, stripCarriageReturn, List.getLast?_concat, if_pos rfl, List.dropLast_concat]

/-- Headers as they are written: names without a colon, and values that are not too long. -/
theorem parseHeaders_written {written : List (List Char × List Char)} {headers : Table String}
    (hcount : headers.size + written.length ≤ MAX_HEADERS)
    (hnames : ∀ header ∈ written, ':' ∉ header.1)
    (hvalues : ∀ header ∈ written,
      (String.ofList (trim header.2)).utf8ByteSize ≤ MAX_HEADER_VALUE_LEN) (more : List (List Char)) :
    parseHeaders toLowercase (written.map (fun header => header.1 ++ ':' :: header.2) ++ [] :: more)
        headers =
      .ok (written.foldl (fun table header =>
        table.insert (toLowercase (String.ofList (trim header.1))) (String.ofList (trim header.2)))
        headers) := by
  induction written generalizing headers with
  | nil => rfl
  | cons header written ih =>
    rw [List.length_cons] at hcount
    have hvalue := hvalues header List.mem_cons_self
    have hsize := Std.ExtTreeMap.size_insert_le (t := headers)
      (k := toLowercase (String.ofList (trim header.1))) (v := String.ofList (trim header.2))
    rw [List.map_cons, List.cons_append, parseHeaders, if_neg (by simp), if_neg (by omega),
      splitFirst_append (hnames header List.mem_cons_self)]
    dsimp only
    rw [if_neg (by omega), List.foldl_cons]
    exact ih (by omega) (fun other hother => hnames other (List.mem_cons_of_mem _ hother))
      (fun other hother => hvalues other (List.mem_cons_of_mem _ hother))

theorem trim_space {cs : List Char} (h : ∀ c ∈ cs, isWhiteSpace c = false) :
    trim (' ' :: cs) = cs := by
  have hnone : ∀ l : List Char, (∀ c ∈ l, isWhiteSpace c = false) → l.dropWhile isWhiteSpace = l := by
    intro l hl
    cases l with
    | nil => rfl
    | cons c l => exact List.dropWhile_cons_of_neg (by simp [hl c List.mem_cons_self])
  rw [trim, List.dropWhile_cons_of_pos (by decide), hnone cs h,
    hnone cs.reverse fun c hc => h c (List.mem_reverse.mp hc), List.reverse_reverse]

end Request

namespace ApiClient
open Request

/-- What `api_post` writes before the blank line. -/
def apiPostHead (port : UInt16) (path : List Char) (length : ℕ) : List Char :=
  "POST ".toList ++ path ++ " HTTP/1.1\r\nHost: 127.0.0.1:".toList ++ (toString port.toNat).toList ++
    "\r\nContent-Type: application/json\r\nContent-Length: ".toList ++ (toString length).toList ++
    "\r\nAccept: application/json\r\nConnection: close".toList

/-- The request that `api_post` writes. -/
def apiPostText (port : UInt16) (path : List Char) (body : String) : List Char :=
  apiPostHead port path body.utf8ByteSize ++ blankLine ++ body.toList

/-- The headers that `api_post` writes. -/
def writtenHeaders (port : UInt16) (length : ℕ) : List (List Char × List Char) :=
  [("Host".toList, " 127.0.0.1:".toList ++ (toString port.toNat).toList),
    ("Content-Type".toList, " application/json".toList),
    ("Content-Length".toList, ' ' :: (toString length).toList),
    ("Accept".toList, " application/json".toList),
    ("Connection".toList, " close".toList)]

/-- A path that can be sent: it goes on to the space before the version, and it is valid. -/
structure Sendable (path : List Char) : Prop where
  noSpace : ' ' ∉ path
  noLineFeed : '\n' ∉ path
  valid : validatePath (percentDecode (splitFirst '?' path).1) = .ok ()

/-- The paths that the commands post to. -/
def postPaths : List String :=
  ["/peers/add", "/peers/ban", "/peers/unban", "/config/set", "/record/insert", "/record/pin",
    "/record/unpin", "/record/delete", "/record/announce", "/record/sweep", "/scraper/run"]

theorem sendable_postPaths : ∀ path ∈ postPaths, Sendable path.toList := by
  have hall : ∀ path ∈ postPaths, ' ' ∉ path.toList ∧ '\n' ∉ path.toList ∧
      (validatePath (percentDecode (splitFirst '?' path.toList).1)).isOk = true := by decide +kernel
  intro path hpath
  obtain ⟨hspace, hfeed, hvalid⟩ := hall path hpath
  refine ⟨hspace, hfeed, ?_⟩
  cases h : validatePath (percentDecode (splitFirst '?' path.toList).1) with
  | ok => rfl
  | error e =>
    rw [h] at hvalid
    cases hvalid

theorem line_feed_not_mem_toString (n : ℕ) : '\n' ∉ (toString n).toList := by
  intro h
  exact absurd (JsonText.digit_of_mem_toString h).1 (by decide)

/-- The request line, the headers and the empty line, each with its CRLF. -/
theorem apiPost_eq (port : UInt16) (path : List Char) (length : ℕ) (rest : List Char) :
    apiPostHead port path length ++ blankLine ++ rest =
      ("POST ".toList ++ path ++ " HTTP/1.1".toList) ++ '\r' :: '\n' ::
      (("Host: 127.0.0.1:".toList ++ (toString port.toNat).toList) ++ '\r' :: '\n' ::
      ("Content-Type: application/json".toList ++ '\r' :: '\n' ::
      (("Content-Length: ".toList ++ (toString length).toList) ++ '\r' :: '\n' ::
      ("Accept: application/json".toList ++ '\r' :: '\n' ::
      ("Connection: close".toList ++ '\r' :: '\n' ::
      ([] ++ '\r' :: '\n' :: rest)))))) := by
  have hsplit : ∀ {whole first second : List Char}, whole = first ++ '\r' :: '\n' :: second →
      (String.ofList whole).toList =
        (String.ofList first).toList ++ '\r' :: '\n' :: (String.ofList second).toList := by
    intro whole first second hwhole
    rw [String.toList_ofList, String.toList_ofList, String.toList_ofList, hwhole]
  have hlines : ∀ {whole first second : List Char},
      whole = '\r' :: '\n' :: (first ++ '\r' :: '\n' :: second) →
      (String.ofList whole).toList = '\r' :: '\n' ::
        ((String.ofList first).toList ++ '\r' :: '\n' :: (String.ofList second).toList) := by
    intro whole first second hwhole
    rw [String.toList_ofList, String.toList_ofList, String.toList_ofList, hwhole]
  have hone : " HTTP/1.1\r\nHost: 127.0.0.1:".toList =
      " HTTP/1.1".toList ++ '\r' :: '\n' :: "Host: 127.0.0.1:".toList := hsplit rfl
  have htwo : "\r\nContent-Type: application/json\r\nContent-Length: ".toList =
      '\r' :: '\n' :: ("Content-Type: application/json".toList ++
        '\r' :: '\n' :: "Content-Length: ".toList) := hlines rfl
  have hthree : "\r\nAccept: application/json\r\nConnection: close".toList =
      '\r' :: '\n' :: ("Accept: application/json".toList ++
        '\r' :: '\n' :: "Connection: close".toList) := hlines rfl
  have hblank : blankLine = ['\r', '\n', '\r', '\n'] := rfl
  unfold apiPostHead
  rw [hone, htwo, hthree, hblank]
  simp only [List.append_assoc, List.cons_append, List.nil_append]

theorem lines_apiPost {path : List Char} (h : '\n' ∉ path) (port : UInt16) (length : ℕ)
    (rest : List Char) : lines (apiPostHead port path length ++ blankLine ++ rest) =
      ("POST ".toList ++ path ++ " HTTP/1.1".toList) ::
        ((writtenHeaders port length).map (fun header => header.1 ++ ':' :: header.2) ++
          [] :: lines rest) := by
  have hfirst : '\n' ∉ "POST ".toList ++ path ++ " HTTP/1.1".toList := by simp [h]
  have hhost : '\n' ∉ "Host: 127.0.0.1:".toList ++ (toString port.toNat).toList := by
    rw [List.mem_append, not_or]
    exact ⟨by decide, line_feed_not_mem_toString _⟩
  have hlength : '\n' ∉ "Content-Length: ".toList ++ (toString length).toList := by
    rw [List.mem_append, not_or]
    exact ⟨by decide, line_feed_not_mem_toString _⟩
  rw [apiPost_eq, lines_crlf hfirst, lines_crlf hhost, lines_crlf (by decide), lines_crlf hlength,
    lines_crlf (by decide), lines_crlf (by decide), lines_crlf (by simp)]
  rfl

section
variable {toLowercase : String → String}

theorem value_short {value : List Char} (h : value.length ≤ 2048) :
    (String.ofList (trim value)).utf8ByteSize ≤ MAX_HEADER_VALUE_LEN := by
  have htrim := (trim_sublist value).length_le
  have hbytes := length_encode_le (trim value)
  rw [utf8ByteSize_ofList, MAX_HEADER_VALUE_LEN]
  omega

theorem length_toString_le {n : ℕ} (h : n ≤ MAX_BODY_SIZE) : (toString n).toList.length ≤ 7 := by
  rw [Nat.toString_eq_repr, String.length_toList]
  exact (Nat.length_repr_le_iff (by decide)).mpr (h.trans_lt (by decide))

/-- The headers are read, and the length they declare is accepted. -/
theorem headers_apiPost (hlower : LowersAscii toLowercase) (port : UInt16) {length : ℕ}
    (hlength : length ≤ MAX_BODY_SIZE) (more : List (List Char)) :
    ∃ headers, parseHeaders toLowercase ((writtenHeaders port length).map
        (fun header => header.1 ++ ':' :: header.2) ++ [] :: more) ∅ = .ok headers ∧
      checkContentLength headers = .ok () := by
  have hport := length_portText port
  have hdigits := length_toString_le hlength
  have hnames : ∀ header ∈ writtenHeaders port length, ':' ∉ header.1 := by
    simp [writtenHeaders]
  have hvalues : ∀ header ∈ writtenHeaders port length,
      (String.ofList (trim header.2)).utf8ByteSize ≤ MAX_HEADER_VALUE_LEN := by
    refine fun header hheader => value_short ?_
    simp only [writtenHeaders, List.mem_cons, List.not_mem_nil, or_false] at hheader
    rcases hheader with rfl | rfl | rfl | rfl | rfl
    · rw [List.length_append]
      exact (Nat.add_le_add_left hport _).trans (by decide)
    · decide
    · rw [List.length_cons]
      omega
    · decide
    · decide
  refine ⟨_, parseHeaders_written (by simp [writtenHeaders, MAX_HEADERS]) hnames hvalues more, ?_⟩
  have hlow : ∀ name lower : String, name.toList.all (fun c => decide (c.toNat < 128)) = true →
      trim name.toList = name.toList → String.ofList (name.toList.map Char.toLower) = lower →
      toLowercase (String.ofList (trim name.toList)) = lower := by
    intro name lower hascii htrim hname
    rw [htrim, String.ofList_toList, hlower name fun c hc =>
      of_decide_eq_true (List.all_eq_true.mp hascii c hc), hname]
  have hvalue : trim (' ' :: (toString length).toList) = (toString length).toList := by
    refine trim_space fun c hc => ?_
    obtain ⟨hlow, hhigh⟩ := JsonText.digit_of_mem_toString hc
    simp only [isWhiteSpace, Bool.or_eq_false_iff, Bool.and_eq_false_iff, decide_eq_false_iff_not]
    omega
  have hparsed : parseUnsigned (2 ^ 64) (toString length).toList = some length :=
    parseUnsigned_toString (hlength.trans_lt (by decide))
  unfold writtenHeaders
  simp only [List.foldl_cons, List.foldl_nil]
  rw [hlow "Content-Length" "content-length" (by decide) (by decide) (by decide),
    hlow "Accept" "accept" (by decide) (by decide) (by decide),
    hlow "Connection" "connection" (by decide) (by decide) (by decide), checkContentLength,
    OrderedTable.get_insert, if_neg (by decide), OrderedTable.get_insert, if_neg (by decide),
    OrderedTable.get_insert, if_pos rfl, hvalue]
  dsimp only
  rw [String.toList_ofList, hparsed]
  exact if_neg (Nat.not_lt.mpr hlength)

/-- The head of the request is what `api_post` writes before the body. -/
theorem headEnd_apiPost {path : List Char} (h : '\n' ∉ path) (port : UInt16) (body : String) :
    HeadEnd (apiPostText port path body) (apiPostHead port path body.utf8ByteSize ++ blankLine)
      body.toList := by
  have hlines := lines_apiPost h port body.utf8ByteSize []
  rw [List.append_nil, lines_nil, ← List.cons_append] at hlines
  refine ⟨rfl, _, hlines, ?_⟩
  rw [List.mem_cons, not_or, List.mem_map]
  refine ⟨by simp, ?_⟩
  rintro ⟨header, -, hnil⟩
  simp at hnil

/-- A request of `api_post` is accepted, and its body is the one that was sent exactly if that has no
blank line in CRLF. -/
theorem parse_apiPost (hlower : LowersAscii toLowercase) (port : UInt16) {path : List Char}
    (h : Sendable path) {body : String} (hsize : body.utf8ByteSize ≤ MAX_BODY_SIZE) :
    ∃ req, parseHttpRequest toLowercase (apiPostText port path body) = .ok req ∧
      (req.body = body ↔ ¬ blankLine <:+: body.toList) := by
  have hend := headEnd_apiPost h.noLineFeed port body
  obtain ⟨headers, hheaders, hlength⟩ :=
    headers_apiPost hlower port hsize (lines body.toList)
  have hparts : splitN 3 ' ' ("POST ".toList ++ path ++ " HTTP/1.1".toList) =
      ["POST".toList, path, "HTTP/1.1".toList] := by
    have hpost : splitFirst ' ' ("POST ".toList ++ (path ++ " HTTP/1.1".toList)) =
        ("POST".toList, some (path ++ " HTTP/1.1".toList)) :=
      splitFirst_append (a := "POST".toList) (by decide) _
    have hpath : splitFirst ' ' (path ++ " HTTP/1.1".toList) = (path, some "HTTP/1.1".toList) :=
      splitFirst_append h.noSpace _
    rw [List.append_assoc, splitN, hpost]
    dsimp only
    rw [splitN, hpath]
    rfl
  have hbody := hend.bodyOf_crlf_iff
  refine ⟨{ method := "POST"
            path := String.ofList (splitFirst '?' path).1
            query := parseQueryString ((splitFirst '?' path).2.getD [])
            headers := headers
            body := String.ofList (bodyOf (apiPostText port path body)) },
    parseHttpRequest_eq_ok_iff.mpr ⟨?_, ?_, rfl, ?_, hlength⟩, ?_⟩
  · have hlines := lines_apiPost h.noLineFeed port body.utf8ByteSize body.toList
    rw [headOf, apiPostText, hlines]
    dsimp only
    rw [hparts, hheaders]
    rfl
  · rw [String.toList_ofList]
    exact h.valid
  · have hle := hend.utf8ByteSize_bodyOf_le
    rw [String.ofList_toList] at hle
    exact hle.trans hsize
  · rw [← hbody, ← String.toList_inj, String.toList_ofList]

/-- The body of an accepted request is the text after the empty line that ends the headers exactly if
nothing is there, or if the head ends in two CRLF and no two CRLF come together in the rest. -/
theorem body_after_head_iff (hlower : LowersAscii toLowercase) :
    (∀ raw req, parseHttpRequest toLowercase raw = .ok req →
      (∀ before rest, HeadEnd raw before rest → headOf toLowercase raw = headOf toLowercase before ∧
        (req.body = String.ofList rest ↔
          rest = [] ∨ (blankLine <:+ before ∧ ¬ blankLine <:+: rest))) ∧
      ((∃ before rest, HeadEnd raw before rest) ∨ ([] ∉ lines raw ∧ req.body = ""))) ∧
    ∀ port path body, Sendable path → body.utf8ByteSize ≤ MAX_BODY_SIZE →
      ∃ req, parseHttpRequest toLowercase (apiPostText port path body) = .ok req ∧
        (req.body = body ↔ ¬ blankLine <:+: body.toList) := by
  refine ⟨fun raw req hreq => ?_, fun port path body h hsize => parse_apiPost hlower port h hsize⟩
  obtain ⟨-, -, hbody, -⟩ := parseHttpRequest_eq_ok_iff.mp hreq
  refine ⟨fun before rest h => ⟨h.headOf_eq, ?_⟩, ?_⟩
  · rw [hbody, String.ofList_inj]
    exact h.bodyOf_iff
  · by_cases hempty : [] ∈ lines raw
    · exact .inl (exists_headEnd hempty)
    · exact .inr ⟨hempty, by rw [hbody, bodyOf_of_no_empty_line hempty]⟩

end

theorem body_after_head_iff_sweep :
    ∃ req, parseHttpRequest Query.asciiLowercase
        (apiPostText 7743 "/record/sweep".toList "\x7b\x7d") = .ok req ∧ req.body = "\x7b\x7d" := by
  obtain ⟨haccepted, hpost⟩ := body_after_head_iff lowersAscii_asciiLowercase
  have hpath := sendable_postPaths "/record/sweep" (by decide)
  obtain ⟨req, hreq, -⟩ := hpost 7743 _ "\x7b\x7d" hpath (by decide)
  have hend := headEnd_apiPost hpath.noLineFeed 7743 "\x7b\x7d"
  have hbody := ((haccepted _ req hreq).1 _ _ hend).2.mpr (.inr ⟨List.suffix_append _ _, by decide⟩)
  rw [String.ofList_toList] at hbody
  exact ⟨req, hreq, hbody⟩

/-- A record whose text has an empty line in it is cut there. -/
theorem body_with_empty_line_cut : ¬ ∀ toLowercase : String → String, LowersAscii toLowercase →
    (∀ raw req, parseHttpRequest toLowercase raw = .ok req → ∀ before rest, HeadEnd raw before rest →
      req.body = String.ofList rest) ∧
    ∀ port path body, Sendable path → body.utf8ByteSize ≤ MAX_BODY_SIZE →
      ∃ req, parseHttpRequest toLowercase (apiPostText port path body) = .ok req ∧
        req.body = body := by
  intro hclaim
  obtain ⟨-, hpost⟩ := hclaim _ lowersAscii_asciiLowercase
  have hpath := sendable_postPaths "/record/insert" (by decide)
  obtain ⟨req, hreq, hbody⟩ := hpost 7743 _ "\x7b\r\n\r\n\x7d" hpath (by decide)
  obtain ⟨req', hreq', hiff⟩ := parse_apiPost lowersAscii_asciiLowercase 7743 hpath
    (show ("\x7b\r\n\r\n\x7d" : String).utf8ByteSize ≤ MAX_BODY_SIZE by decide)
  obtain rfl := Except.ok.inj (hreq.symm.trans hreq')
  exact hiff.mp hbody (by decide)

end ApiClient

end DSearch

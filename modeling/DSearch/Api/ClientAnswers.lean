import DSearch.Api.Response
import DSearch.Api.Local

/-! # Answers: how `cli/api_client.rs` reads a response

The client reads to the end of the stream, cuts at the first blank line and looks for `200` in the first
line. The headers come after that line, whatever their order is, so only the status and its text decide
what the client makes of a response. -/

namespace DSearch.ApiClient
set_option autoImplicit false
open RustText Sign Utf8Text SeparatedText Request Local

/-! ## The reads -/

/-- The loop over the answers of `read`; `none` while it goes on. -/
def collect : List (Except Unit Bytes) → Option Bytes
  | [] => none
  | .ok [] :: _ => some []
  | .ok chunk :: reads => (collect reads).map (chunk ++ ·)
  | .error () :: _ => some []

/-- `headers.lines().next().unwrap_or("")`. -/
def statusLineOf (headers : List Char) : List Char := (lines headers).headD []

/-- What `api_get` makes of the bytes that have come. -/
def getAnswer (response : Bytes) : Except String String :=
  match breakOn blankLine (fromUtf8Lossy response) with
  | some (headers, body) =>
    let statusLine := String.ofList (statusLineOf headers)
    if contains statusLine "200" then .ok (String.ofList body)
    else if contains statusLine "404" then .error ("not found: " ++ String.ofList body)
    else if contains statusLine "400" then .error ("bad request: " ++ String.ofList body)
    else .error ("API error: " ++ statusLine)
  | none => .error "malformed HTTP response"

/-- What `api_post` makes of them. -/
def postAnswer (response : Bytes) : Except String String :=
  match breakOn blankLine (fromUtf8Lossy response) with
  | some (headers, body) =>
    let statusLine := String.ofList (statusLineOf headers)
    if contains statusLine "200" || contains statusLine "201" then .ok (String.ofList body)
    else .error ("API error: " ++ statusLine ++ " — " ++ String.ofList body)
  | none => .error "malformed HTTP response"

def apiGet (reads : List (Except Unit Bytes)) : Option (Except String String) :=
  (collect reads).map getAnswer

def apiPost (reads : List (Except Unit Bytes)) : Option (Except String String) :=
  (collect reads).map postAnswer

theorem collect_append {chunks : List Bytes} (hne : ∀ chunk ∈ chunks, chunk ≠ [])
    (reads : List (Except Unit Bytes)) :
    collect (chunks.map .ok ++ reads) = (collect reads).map (chunks.flatten ++ ·) := by
  induction chunks with
  | nil => simp
  | cons chunk chunks ih =>
    obtain ⟨byte, bytes, rfl⟩ := List.exists_cons_of_ne_nil (hne chunk List.mem_cons_self)
    have hrest := ih fun c hc => hne c (List.mem_cons_of_mem _ hc)
    rw [List.map_cons, List.cons_append, collect, hrest, Option.map_map]
    · congr 1
      funext rest
      simp
    · exact List.cons_ne_nil byte bytes

/-! ## The first line -/

/-- A text up to its first line feed. -/
def firstLine (cs : List Char) : List Char := (splitFirst '\n' cs).1

theorem infix_append_one_iff {u cs : List Char} {c : Char} (hc : c ∉ u) :
    u <:+: cs ++ [c] ↔ u <:+: cs := by
  rw [infix_append_sep_iff hc]
  constructor
  · rintro (h | h)
    · exact h
    · rw [List.infix_nil.mp h]
      exact List.nil_infix
  · exact Or.inl

/-- What comes after the end of a line does not matter to its first line. -/
theorem infix_firstLine_append_iff {u : List Char} (hreturn : '\r' ∉ u) (cs rest : List Char) :
    u <:+: firstLine (cs ++ '\r' :: '\n' :: rest) ↔ u <:+: firstLine cs := by
  unfold firstLine
  by_cases hfeed : '\n' ∈ cs
  · obtain ⟨a, b, rfl, ha⟩ := List.eq_append_cons_of_mem hfeed
    rw [List.append_assoc, List.cons_append, splitFirst_append ha, splitFirst_append ha]
  · have hreturned : '\n' ∉ cs ++ ['\r'] := by simpa using hfeed
    have hsplit : cs ++ '\r' :: '\n' :: rest = (cs ++ ['\r']) ++ '\n' :: rest := by simp
    rw [hsplit, splitFirst_append hreturned, splitFirst_of_not_mem hfeed]
    exact infix_append_one_iff hreturn

theorem infix_statusLineOf_iff {u : List Char} (hreturn : '\r' ∉ u) (cs : List Char) :
    u <:+: statusLineOf cs ↔ u <:+: firstLine cs := by
  unfold statusLineOf firstLine
  by_cases hfeed : '\n' ∈ cs
  · obtain ⟨a, b, rfl, ha⟩ := List.eq_append_cons_of_mem hfeed
    rw [lines_cons ha, splitFirst_append ha, List.headD_cons]
    rcases stripCarriageReturn_cases a with hsame | hstrip
    · rw [hsame]
    · rw [hstrip, infix_append_one_iff hreturn]
      rw [← hstrip]
  · rw [splitFirst_of_not_mem hfeed]
    by_cases hne : cs = []
    · subst hne
      rfl
    · rw [lines_of_not_mem hfeed hne, List.headD_cons]

/-! ## The first blank line -/

/-- Where the pattern begins nowhere, it is looked for in the rest. -/
theorem breakOn_append_of_start {pattern a rest : List Char}
    (h : ∀ x y, a = x ++ y → y ≠ [] → ¬ pattern <+: y ++ rest) :
    breakOn pattern (a ++ rest) =
      (breakOn pattern rest).map fun parts => (a ++ parts.1, parts.2) := by
  induction a with
  | nil =>
    simp
  | cons c a ih =>
    have hstart := h [] (c :: a) rfl (List.cons_ne_nil c a)
    have hrest := ih fun x y hxy => h (c :: x) y (congrArg (List.cons c) hxy)
    rw [List.cons_append, breakOn, if_neg, hrest, Option.map_map]
    · rfl
    · rwa [List.isPrefixOf_iff_prefix]

theorem not_prefix_of_not_mem {line y rest x : List Char} (hreturn : '\r' ∉ line)
    (h : line = x ++ y) (hne : y ≠ []) : ¬ blankLine <+: y ++ rest := by
  obtain ⟨c, y, rfl⟩ := List.exists_cons_of_ne_nil hne
  intro hstart
  obtain ⟨rfl, -⟩ := List.cons_prefix_cons.mp hstart
  exact hreturn (h ▸ List.mem_append_right x List.mem_cons_self)

/-- A line without a blank line is passed over with its end. -/
theorem breakOn_line {line rest : List Char} (h : ¬ blankLine <:+: line ++ ['\r', '\n'])
    (hrest : rest.head? ≠ some '\r') :
    breakOn blankLine (line ++ ['\r', '\n'] ++ rest) =
      (breakOn blankLine rest).map fun parts => (line ++ ['\r', '\n'] ++ parts.1, parts.2) := by
  refine breakOn_append_of_start fun x y hxy hne hstart => ?_
  rcases List.prefix_or_prefix_of_prefix hstart (List.prefix_append y rest) with hin | ⟨t, ht⟩
  · exact h (hxy ▸ hin.isInfix.trans (List.suffix_append x y).isInfix)
  · -- the blank line begins in the line and ends after it, so its second return comes next
    have hlast : y.getLast? = some '\n' := by
      have hends := congrArg List.getLast? hxy
      rwa [List.getLast?_append_of_ne_nil x hne, List.getLast?_append_of_ne_nil line (by simp),
        eq_comm] at hends
    rw [← ht, List.prefix_append_right_inj] at hstart
    have hchars : y ++ t = ['\r', '\n', '\r', '\n'] := ht
    obtain ⟨a, y, rfl⟩ := List.exists_cons_of_ne_nil hne
    cases t with
    | nil =>
      rw [List.append_nil] at ht
      exact h (hxy ▸ ht ▸ (List.suffix_append x (a :: y)).isInfix)
    | cons d t =>
      rcases y with _ | ⟨b, _ | ⟨e, _ | ⟨f, y⟩⟩⟩
      · obtain ⟨rfl, -⟩ := List.cons.inj hchars
        exact absurd hlast (by decide)
      · obtain ⟨-, hchars⟩ := List.cons.inj hchars
        obtain ⟨-, hchars⟩ := List.cons.inj hchars
        obtain ⟨rfl, -⟩ := List.cons.inj hchars
        obtain ⟨more, rfl⟩ := hstart
        exact hrest rfl
      · obtain ⟨-, hchars⟩ := List.cons.inj hchars
        obtain ⟨-, hchars⟩ := List.cons.inj hchars
        obtain ⟨rfl, -⟩ := List.cons.inj hchars
        have hfeed : some '\r' = some '\n' := hlast
        exact absurd hfeed (by decide)
      · have hlength := congrArg List.length hchars
        simp at hlength

/-! ## What is written -/

variable (toLowercase : String → String) (order : HashOrder) (resp : HttpResponse)

/-- The first line that is written, without its end. -/
def writtenStatusLine : List Char :=
  ("HTTP/1.1 " ++ toString resp.status ++ " " ++ resp.statusText).toList

/-- The header lines, without their ends. -/
def responseHeaders : List (List Char) :=
  ("content-length: " ++ toString resp.body.length).toList ::
    ((order.rows resp.headers).filter fun row => toLowercase row.1 ≠ "content-length").map
      fun row => (row.1 ++ ": " ++ row.2).toList

/-- All up to the body. -/
def writtenHead : List Char :=
  writtenStatusLine resp ++ ['\r', '\n'] ++
    ((responseHeaders toLowercase order resp).flatMap (· ++ ['\r', '\n']) ++ ['\r', '\n'])

theorem toBytes_eq : resp.toBytes toLowercase order =
    encode (writtenHead toLowercase order resp) ++ resp.body := by
  unfold HttpResponse.toBytes writtenHead writtenStatusLine responseHeaders
  dsimp only
  rw [← encode_toList]
  refine congrArg (encode · ++ resp.body) ?_
  simp only [String.toList_append, String.toList_join, List.flatMap_map, List.flatMap_cons,
    List.append_assoc]
  rfl

variable {toLowercase order resp}

theorem blankLine_eq : blankLine = ['\r', '\n', '\r', '\n'] := rfl

theorem head_headers {headers : List (List Char)} (hne : headers ≠ [])
    (hlines : ∀ line ∈ headers, line ≠ [] ∧ '\r' ∉ line) (rest : List Char) :
    (headers.flatMap (· ++ ['\r', '\n']) ++ ['\r', '\n'] ++ rest).head? ≠ some '\r' := by
  obtain ⟨line, headers, rfl⟩ := List.exists_cons_of_ne_nil hne
  obtain ⟨hline, hreturn⟩ := hlines line List.mem_cons_self
  obtain ⟨c, cs, rfl⟩ := List.exists_cons_of_ne_nil hline
  intro hhead
  have hc : some c = some '\r' := hhead
  exact hreturn (Option.some.inj hc ▸ List.mem_cons_self)

/-- The blank line after some lines is the first one, as no line is empty. -/
theorem breakOn_headers {headers : List (List Char)} (hne : headers ≠ [])
    (hlines : ∀ line ∈ headers, line ≠ [] ∧ '\r' ∉ line) (rest : List Char) :
    ∃ head, breakOn blankLine (headers.flatMap (· ++ ['\r', '\n']) ++ ['\r', '\n'] ++ rest) =
      some (head, rest) := by
  induction headers with
  | nil => exact absurd rfl hne
  | cons line headers ih =>
    obtain ⟨-, hreturn⟩ := hlines line List.mem_cons_self
    cases headers with
    | nil =>
      have hshape : [line].flatMap (· ++ ['\r', '\n']) ++ ['\r', '\n'] ++ rest =
          line ++ (blankLine ++ rest) := by simp [blankLine_eq]
      have hfound : breakOn blankLine (blankLine ++ rest) = some ([], rest) :=
        breakOn_cons.mpr (.inl ⟨rfl, rfl⟩)
      refine ⟨line ++ [], ?_⟩
      rw [hshape, breakOn_append_of_start fun x y hxy hy => not_prefix_of_not_mem hreturn hxy hy,
        hfound, Option.map_some]
    | cons next headers =>
      have hlines' := fun l hl => hlines l (List.mem_cons_of_mem line hl)
      obtain ⟨head, hhead⟩ := ih (List.cons_ne_nil _ _) hlines'
      have hblank : ¬ blankLine <:+: line ++ ['\r', '\n'] := by
        intro hin
        have hcount := hin.sublist.count_le '\r'
        rw [List.count_append, List.count_eq_zero_of_not_mem hreturn] at hcount
        exact absurd hcount (by decide)
      have hshape : (line :: next :: headers).flatMap (· ++ ['\r', '\n']) ++ ['\r', '\n'] ++ rest =
          line ++ ['\r', '\n'] ++ ((next :: headers).flatMap (· ++ ['\r', '\n']) ++
            ['\r', '\n'] ++ rest) := by simp only [List.flatMap_cons, List.append_assoc]
      refine ⟨line ++ ['\r', '\n'] ++ head, ?_⟩
      rw [hshape, breakOn_line hblank (head_headers (List.cons_ne_nil _ _) hlines' rest), hhead,
        Option.map_some]

theorem blankLine_suffix_headers {headers : List (List Char)} (hne : headers ≠ []) :
    blankLine <:+ headers.flatMap (· ++ ['\r', '\n']) ++ ['\r', '\n'] := by
  rcases List.eq_nil_or_concat headers with rfl | ⟨headers, last, rfl⟩
  · exact absurd rfl hne
  · exact ⟨headers.flatMap (· ++ ['\r', '\n']) ++ last, by simp [blankLine_eq]⟩

theorem responseHeaders_lines (toLowercase : String → String) (order : HashOrder)
    (hclean : ∀ row ∈ resp.headers.toList, '\r' ∉ row.1.toList ∧ '\r' ∉ row.2.toList) :
    ∀ line ∈ responseHeaders toLowercase order resp, line ≠ [] ∧ '\r' ∉ line := by
  intro line hline
  rcases List.mem_cons.mp hline with rfl | hline
  · have hdigits : '\r' ∉ (toString resp.body.length).toList :=
      fun hmem => absurd (isDigit_of_mem_toDigits (by simpa using hmem)) (by decide)
    refine ⟨by simp, ?_⟩
    rw [String.toList_append, List.mem_append]
    exact fun hmem => hmem.elim (by decide) hdigits
  · obtain ⟨row, hrow, rfl⟩ := List.mem_map.mp hline
    obtain ⟨hname, hvalue⟩ := hclean row ((order.perm _).mem_iff.mp (List.mem_of_mem_filter hrow))
    refine ⟨by simp, ?_⟩
    simp [hname, hvalue]

/-- The blank line that ends the head is met, or one before it. -/
theorem breakOn_writtenHead_ne_none (toLowercase : String → String) (order : HashOrder)
    (resp : HttpResponse) (rest : List Char) :
    breakOn blankLine (writtenHead toLowercase order resp ++ rest) ≠ none := by
  refine breakOn_ne_none (List.IsInfix.trans ?_ (List.infix_append' [] _ rest))
  exact (blankLine_suffix_headers (List.cons_ne_nil _ _)).isInfix.trans
    (List.suffix_append _ _).isInfix

/-- A status line with no blank line in it goes before the first one. -/
theorem breakOn_writtenHead
    (hclean : ∀ row ∈ resp.headers.toList, '\r' ∉ row.1.toList ∧ '\r' ∉ row.2.toList)
    (hline : ¬ blankLine <:+: writtenStatusLine resp ++ ['\r', '\n']) (rest : List Char) :
    ∃ head, breakOn blankLine (writtenHead toLowercase order resp ++ rest) = some (head, rest) := by
  have hne : responseHeaders toLowercase order resp ≠ [] := List.cons_ne_nil _ _
  have hlines := responseHeaders_lines toLowercase order hclean
  obtain ⟨head, hhead⟩ := breakOn_headers hne hlines rest
  refine ⟨writtenStatusLine resp ++ ['\r', '\n'] ++ head, ?_⟩
  rw [writtenHead, List.append_assoc _ _ rest, breakOn_line hline (head_headers hne hlines rest),
    hhead, Option.map_some]

/-- What of the status line is read does not depend on where the head is cut. -/
theorem infix_statusLineOf_writtenHead_iff {u rest head body : List Char} (hreturn : '\r' ∉ u)
    (h : breakOn blankLine (writtenHead toLowercase order resp ++ rest) = some (head, body)) :
    u <:+: statusLineOf head ↔ u <:+: firstLine (writtenStatusLine resp) := by
  have hwhole := eq_of_breakOn h
  have hhead : head ++ blankLine ++ body = head ++ '\r' :: '\n' :: (['\r', '\n'] ++ body) := by
    simp [blankLine_eq]
  have hline : writtenHead toLowercase order resp ++ rest = writtenStatusLine resp ++
      '\r' :: '\n' :: ((responseHeaders toLowercase order resp).flatMap (· ++ ['\r', '\n']) ++
        ['\r', '\n'] ++ rest) := by simp [writtenHead]
  rw [infix_statusLineOf_iff hreturn,
    ← infix_firstLine_append_iff hreturn head (['\r', '\n'] ++ body), ← hhead, ← hwhole, hline,
    infix_firstLine_append_iff hreturn]

/-! ## The status that is read -/

/-- The text stands in the digits of the status or in the first line of its text. -/
def Says (resp : HttpResponse) (u : List Char) : Prop :=
  u <:+: (toString resp.status).toList ∨ u <:+: firstLine resp.statusText.toList

instance (u : List Char) : Decidable (Says resp u) := inferInstanceAs (Decidable (_ ∨ _))

theorem firstLine_append {a : List Char} (h : '\n' ∉ a) (b : List Char) :
    firstLine (a ++ b) = a ++ firstLine b := by
  unfold firstLine
  by_cases hfeed : '\n' ∈ b
  · obtain ⟨c, d, rfl, hc⟩ := List.eq_append_cons_of_mem hfeed
    have hac : '\n' ∉ a ++ c := fun hmem => (List.mem_append.mp hmem).elim h hc
    rw [← List.append_assoc, splitFirst_append hac, splitFirst_append hc]
  · have hab : '\n' ∉ a ++ b := fun hmem => (List.mem_append.mp hmem).elim h hfeed
    rw [splitFirst_of_not_mem hab, splitFirst_of_not_mem hfeed]

/-- The `HTTP/1.1` has no code in it, and no code has a space in it. -/
theorem infix_firstLine_writtenStatusLine_iff {u : List Char} (hspace : ' ' ∉ u)
    (hversion : ¬ u <:+: "HTTP/1.1".toList) :
    u <:+: firstLine (writtenStatusLine resp) ↔ Says resp u := by
  have hshape : writtenStatusLine resp = ("HTTP/1.1".toList ++ ' ' :: (toString resp.status).toList) ++
      ([' '] ++ resp.statusText.toList) := by simp [writtenStatusLine]
  have hdigits : '\n' ∉ (toString resp.status).toList :=
    fun hmem => absurd (isDigit_of_mem_toDigits (by simpa using hmem)) (by decide)
  have hfront : '\n' ∉ "HTTP/1.1".toList ++ ' ' :: (toString resp.status).toList := by
    rw [List.mem_append, List.mem_cons]
    rintro (hmem | hmem | hmem)
    · exact absurd hmem (by decide)
    · exact absurd hmem (by decide)
    · exact hdigits hmem
  rw [hshape, firstLine_append hfront, firstLine_append (by decide), List.append_assoc,
    List.cons_append, infix_append_sep_iff hspace, List.singleton_append,
    infix_append_sep_iff hspace, or_iff_right hversion, Says]

theorem infix_writtenStatusLine_iff :
    blankLine <:+: writtenStatusLine resp ++ ['\r', '\n'] ↔
      blankLine <:+: resp.statusText.toList ++ ['\r', '\n'] := by
  have hshape : writtenStatusLine resp ++ ['\r', '\n'] =
      ("HTTP/1.1 ".toList ++ (toString resp.status).toList) ++
        ' ' :: (resp.statusText.toList ++ ['\r', '\n']) := by simp [writtenStatusLine]
  rw [hshape, infix_append_sep_iff (by decide)]
  refine or_iff_right fun hin => ?_
  rcases List.mem_append.mp (hin.subset (List.mem_cons_self (a := '\r'))) with hmem | hmem
  · exact absurd hmem (by decide)
  · exact absurd (isDigit_of_mem_toDigits (by simpa using hmem)) (by decide)

/-! ## What is answered -/

theorem contains_statusLine_iff {rest head body : List Char}
    (h : breakOn blankLine (writtenHead toLowercase order resp ++ rest) = some (head, body))
    (code : String) (hreturn : '\r' ∉ code.toList) (hspace : ' ' ∉ code.toList)
    (hversion : ¬ code.toList <:+: "HTTP/1.1".toList) :
    contains (String.ofList (statusLineOf head)) code = true ↔ Says resp code.toList := by
  rw [contains, decide_eq_true_iff, String.toList_ofList,
    infix_statusLineOf_writtenHead_iff hreturn h,
    infix_firstLine_writtenStatusLine_iff hspace hversion]

variable {response : Bytes} {rest : List Char}

/-- A text comes back as the answer if the status says `200`. -/
theorem getAnswer_cases
    (hresponse : fromUtf8Lossy response = writtenHead toLowercase order resp ++ rest) :
    ∃ head body, breakOn blankLine (writtenHead toLowercase order resp ++ rest) = some (head, body) ∧
      (Says resp "200".toList → getAnswer response = .ok (String.ofList body)) ∧
      (¬ Says resp "200".toList → ∃ text, getAnswer response = .error text) := by
  obtain ⟨⟨head, body⟩, hcut⟩ :=
    Option.ne_none_iff_exists'.mp (breakOn_writtenHead_ne_none toLowercase order resp rest)
  have hsaid := contains_statusLine_iff hcut "200" (by decide) (by decide) (by decide)
  refine ⟨head, body, hcut, fun h => ?_, fun h => ?_⟩
  · rw [getAnswer, hresponse, hcut]
    exact if_pos (hsaid.mpr h)
  · rw [getAnswer, hresponse, hcut]
    dsimp only
    rw [if_neg (mt hsaid.mp h)]
    split
    · exact ⟨_, rfl⟩
    · split
      · exact ⟨_, rfl⟩
      · exact ⟨_, rfl⟩

/-- So does it to `api_post`, which takes a `201` too. -/
theorem postAnswer_cases
    (hresponse : fromUtf8Lossy response = writtenHead toLowercase order resp ++ rest) :
    (Says resp "200".toList ∨ Says resp "201".toList → ∃ text, postAnswer response = .ok text) ∧
      (¬ (Says resp "200".toList ∨ Says resp "201".toList) →
        ∃ text, postAnswer response = .error text) := by
  obtain ⟨⟨head, body⟩, hcut⟩ :=
    Option.ne_none_iff_exists'.mp (breakOn_writtenHead_ne_none toLowercase order resp rest)
  have hsaid := contains_statusLine_iff hcut "200" (by decide) (by decide) (by decide)
  have hcreated := contains_statusLine_iff hcut "201" (by decide) (by decide) (by decide)
  have heither := or_congr hsaid hcreated
  rw [← Bool.or_eq_true] at heither
  rw [postAnswer, hresponse, hcut]
  refine ⟨fun h => ⟨String.ofList body, if_pos (heither.mpr h)⟩, fun h => ?_⟩
  dsimp only
  rw [if_neg (mt heither.mp h)]
  exact ⟨_, rfl⟩

/-! ## A whole response -/

/-- The answer is the body if the status is 200, and an error otherwise. -/
def Delivers (resp : HttpResponse) (body : List Char) (answer : Except String String) : Prop :=
  if resp.status = 200 then answer = .ok (String.ofList body) else ∃ text, answer = .error text

/-- A status of 200 has no blank line in its text or at its end; another status has no `200` in its
digits or in the first line of its text. -/
def TellsStatus (resp : HttpResponse) : Prop :=
  if resp.status = 200 then ¬ blankLine <:+: resp.statusText.toList ++ ['\r', '\n']
  else ¬ Says resp "200".toList

theorem says_of_status (h : resp.status = 200) : Says resp "200".toList := by
  refine .inl ?_
  rw [h]
  decide

theorem delivers_iff {body : List Char} (hbody : resp.body = encode body)
    (hclean : ∀ row ∈ resp.headers.toList, '\r' ∉ row.1.toList ∧ '\r' ∉ row.2.toList) :
    Delivers resp body (getAnswer (resp.toBytes toLowercase order)) ↔ TellsStatus resp := by
  have hresponse : fromUtf8Lossy (resp.toBytes toLowercase order) =
      writtenHead toLowercase order resp ++ body := by
    rw [toBytes_eq, hbody, fromUtf8Lossy_encode_append, fromUtf8Lossy_encode]
  obtain ⟨head, text, hcut, hok, herror⟩ := getAnswer_cases hresponse
  unfold Delivers TellsStatus
  by_cases hstatus : resp.status = 200
  · rw [if_pos hstatus, if_pos hstatus, hok (says_of_status hstatus), ← infix_writtenStatusLine_iff]
    constructor
    · intro hanswer hin
      -- the status line is cut, and its rest comes before the body
      obtain ⟨⟨first, more⟩, hfirst⟩ := Option.ne_none_iff_exists'.mp (breakOn_ne_none hin)
      rw [writtenHead, List.append_assoc, breakOn_append hfirst] at hcut
      obtain ⟨-, rfl⟩ := Prod.mk.inj (Option.some.inj hcut)
      have hlength := congrArg List.length (String.ofList_inj.mp (Except.ok.inj hanswer))
      simp only [List.length_append, List.length_cons, List.length_nil] at hlength
      omega
    · intro hline
      obtain ⟨head', hhead'⟩ := breakOn_writtenHead hclean hline body
      rw [hhead'] at hcut
      obtain ⟨-, rfl⟩ := Prod.mk.inj (Option.some.inj hcut)
      rfl
  · rw [if_neg hstatus, if_neg hstatus]
    constructor
    · rintro ⟨text', htext'⟩ hsaid
      rw [hok hsaid] at htext'
      cases htext'
    · exact herror

/-- The statuses of the constructors that have one of their own, and those of the gateway. -/
def statuses : List (ℕ × String) :=
  [(200, "OK"), (400, "Bad Request"), (401, "Unauthorized"), (404, "Not Found"),
    (405, "Method Not Allowed"), (429, "Too Many Requests"), (500, "Internal Server Error")]

/-- What can be read from the status line. -/
def LineSays (status : ℕ) (text : List Char) : Prop :=
  (("200".toList <:+: (toString status).toList ∨ "200".toList <:+: firstLine text) ↔ status = 200) ∧
    ¬ ("201".toList <:+: (toString status).toList ∨ "201".toList <:+: firstLine text) ∧
    ¬ blankLine <:+: text ++ ['\r', '\n']

instance (status : ℕ) (text : List Char) : Decidable (LineSays status text) :=
  inferInstanceAs (Decidable (_ ∧ _))

theorem statuses_say : ∀ row ∈ statuses, LineSays row.1 row.2.toList := by
  have hrow : ∀ {status : ℕ} {text : List Char}, LineSays status text →
      LineSays status (String.ofList text).toList := of_chars
  simp only [statuses, List.forall_mem_cons]
  exact ⟨hrow (by decide), hrow (by decide), hrow (by decide), hrow (by decide), hrow (by decide),
    hrow (by decide), hrow (by decide), List.forall_mem_nil _⟩

theorem says_of_mem_statuses (h : (resp.status, resp.statusText) ∈ statuses) :
    (Says resp "200".toList ↔ resp.status = 200) ∧ ¬ Says resp "201".toList ∧
      ¬ blankLine <:+: resp.statusText.toList ++ ['\r', '\n'] := by
  obtain ⟨hsaid, hcreated, hblank⟩ := statuses_say _ h
  exact ⟨hsaid, hcreated, hblank⟩

theorem tellsStatus_of_mem_statuses (h : (resp.status, resp.statusText) ∈ statuses) :
    TellsStatus resp := by
  obtain ⟨hsaid, -, hblank⟩ := says_of_mem_statuses h
  unfold TellsStatus
  split
  · exact hblank
  · next hstatus => exact mt hsaid.mp hstatus

/-- Its text says `200`, and its status is another one. -/
def busyResponse : HttpResponse := .new 503 "Retry after 200 ms" (asBytes "busy")

theorem busyResponse_headers :
    ∀ row ∈ busyResponse.headers.toList, '\r' ∉ row.1.toList ∧ '\r' ∉ row.2.toList := by
  decide +kernel

/-- Up to the error some of the body has come, maybe not all of it. -/
theorem broken_transfer_iff {chunks : List Bytes}
    (hpart : chunks.flatten <+: resp.toBytes toLowercase order)
    (hhead : (resp.toBytes toLowercase order).length ≤ chunks.flatten.length + resp.body.length)
    (hne : ∀ chunk ∈ chunks, chunk ≠ []) (later : List (Except Unit Bytes)) :
    ((∃ text, apiGet (chunks.map .ok ++ .error () :: later) = some (.error text)) ↔
      ¬ Says resp "200".toList) ∧
    ((∃ text, apiPost (chunks.map .ok ++ .error () :: later) = some (.error text)) ↔
      ¬ (Says resp "200".toList ∨ Says resp "201".toList)) := by
  have hcollect : collect (chunks.map .ok ++ .error () :: later) = some chunks.flatten := by
    rw [collect_append hne]
    simp [collect]
  obtain ⟨part, hreceived⟩ : ∃ part,
      chunks.flatten = encode (writtenHead toLowercase order resp) ++ part := by
    rw [toBytes_eq] at hpart hhead
    rw [List.length_append] at hhead
    obtain ⟨part, hwhole⟩ := List.prefix_of_prefix_length_le (List.prefix_append _ _) hpart (by omega)
    exact ⟨part, hwhole.symm⟩
  have hresponse : fromUtf8Lossy chunks.flatten =
      writtenHead toLowercase order resp ++ fromUtf8Lossy part := by
    rw [hreceived, fromUtf8Lossy_encode_append]
  obtain ⟨head, body, -, hok, herror⟩ := getAnswer_cases hresponse
  obtain ⟨hposted, hfailed⟩ := postAnswer_cases hresponse
  rw [apiGet, apiPost, hcollect, Option.map_some, Option.map_some]
  simp only [Option.some.injEq]
  refine ⟨⟨?_, herror⟩, ⟨?_, hfailed⟩⟩
  · rintro ⟨text, htext⟩ hsaid
    rw [hok hsaid] at htext
    cases htext
  · rintro ⟨text, htext⟩ hsaid
    obtain ⟨posted, hpost⟩ := hposted hsaid
    rw [hpost] at htext
    cases htext

/-- All of it but the last byte. -/
def cutShort (resp : HttpResponse) : List Bytes := [(resp.toBytes id .sorted).dropLast]

theorem broken_transfer_iff_notFound :
    ((∃ text, apiGet ((cutShort (.notFound "x")).map .ok ++ [.error ()]) = some (.error text)) ↔
      ¬ Says (.notFound "x") "200".toList) ∧
    ((∃ text, apiPost ((cutShort (.notFound "x")).map .ok ++ [.error ()]) = some (.error text)) ↔
      ¬ (Says (.notFound "x") "200".toList ∨ Says (.notFound "x") "201".toList)) :=
  broken_transfer_iff (by simpa [cutShort] using List.dropLast_prefix _) (by decide +kernel)
    (by decide +kernel) []

theorem cut_response_is_answer :
    (cutShort (.json (asBytes "[1,2]"))).flatten <+:
      (HttpResponse.json (asBytes "[1,2]")).toBytes id .sorted ∧
    ((HttpResponse.json (asBytes "[1,2]")).toBytes id .sorted).length =
      (cutShort (.json (asBytes "[1,2]"))).flatten.length + 1 ∧
    (HttpResponse.json (asBytes "[1,2]")).body.length = 5 ∧
    apiGet ((cutShort (.json (asBytes "[1,2]"))).map .ok ++ [.error ()]) = some (.ok "[1,2") ∧
    apiPost ((cutShort (.json (asBytes "[1,2]"))).map .ok ++ [.error ()]) = some (.ok "[1,2") := by
  refine ⟨by simpa [cutShort] using List.dropLast_prefix _, ?_, ?_, ?_, ?_⟩
  · decide +kernel
  · decide +kernel
  · decide +kernel
  · decide +kernel

end DSearch.ApiClient

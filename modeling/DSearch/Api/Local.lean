import DSearch.Api.Handlers
import DSearch.Foundations.LossyText

/-! # A connection of the local API: `api/local.rs`

`handle_connection` reads from the socket once, and what it has read then is the request. So a request
is passed on as it was sent only if it comes in one read: a later part of its body is left out, and
so is what follows a blank line in it. A failed read or write of the socket is not modelled. -/

namespace DSearch
set_option autoImplicit false
open RustText Sign Utf8Text Transaction

/-! ## A part of a request -/

namespace Request
section
variable {head body before after tail : List Char}

/-- The first characters of a request, and maybe a replacement for the next one: the blank line after
the head is not among them, or they go on with a part of the body. -/
theorem IsHead.part_cases (hhead : IsHead head) (hwhole : head ++ blankLine ++ body = before ++ after)
    (htail : tail = [] ∨ after ≠ [] ∧ tail = [replacement]) :
    ¬ blankLine <:+: before ++ tail ∨
      ∃ part, part ++ after = body ∧ before ++ tail = head ++ blankLine ++ (part ++ tail) := by
  rcases hfirst : breakOn blankLine before with _ | ⟨a, b⟩
  · have hbefore := breakOn_eq_none_iff.mp hfirst
    rcases htail with rfl | ⟨-, rfl⟩
    · exact .inl (by rwa [List.append_nil])
    · refine .inl fun hinside => ?_
      rcases (SeparatedText.infix_append_sep_iff (by decide)).mp hinside with h | h
      · exact hbefore h
      · exact absurd (List.infix_nil.mp h) (by decide)
  · have hboth := Sign.breakOn_append hfirst after
    rw [← hwhole, hhead.breakOn_append] at hboth
    obtain ⟨rfl, rfl⟩ := Prod.mk.inj (Option.some.inj hboth)
    refine .inr ⟨b, rfl, ?_⟩
    rw [eq_of_breakOn hfirst, List.append_assoc _ b tail]

theorem length_tail_le (htail : tail = [] ∨ after ≠ [] ∧ tail = [replacement]) :
    tail.length ≤ after.length := by
  rcases htail with rfl | ⟨hne, rfl⟩
  · exact Nat.zero_le _
  · exact List.length_pos_iff.mpr hne

/-- The body is read only from the whole of the request, and only if no blank line is in it. -/
theorem IsHead.bodyOf_part_iff (hhead : IsHead head)
    (hwhole : head ++ blankLine ++ body = before ++ after)
    (htail : tail = [] ∨ after ≠ [] ∧ tail = [replacement]) (hbody : body ≠ []) :
    bodyOf (before ++ tail) = body ↔
      before ++ tail = head ++ blankLine ++ body ∧ ¬ blankLine <:+: body := by
  constructor
  · intro h
    rcases hhead.part_cases hwhole htail with hnone | ⟨part, hpart, htext⟩
    · exact absurd (h.symm.trans (bodyOf_eq_nil hnone)) hbody
    · rw [htext, hhead.bodyOf_append] at h
      rcases hrest : breakOn blankLine (part ++ tail) with _ | ⟨a, b⟩
      · rw [hrest] at h
        dsimp only at h
        rw [htext, h]
        exact ⟨rfl, h ▸ breakOn_eq_none_iff.mp hrest⟩
      · -- a blank line after the body would make it longer than it is
        rw [hrest] at h
        dsimp only at h
        have hlength := congrArg List.length (eq_of_breakOn hrest)
        have hblank : blankLine.length = 4 := rfl
        have htail' := length_tail_le htail
        have hpart' := congrArg List.length hpart
        simp only [List.length_append] at hlength hpart'
        rw [h] at hlength
        omega
  · rintro ⟨htext, hnone⟩
    rw [htext, hhead.bodyOf_append, breakOn_eq_none_iff.mpr hnone]

/-- Where there is no body, none is read. -/
theorem IsHead.bodyOf_part_nil (hhead : IsHead head) (hwhole : head ++ blankLine = before ++ after)
    (htail : tail = [] ∨ after ≠ [] ∧ tail = [replacement]) : bodyOf (before ++ tail) = [] := by
  rw [← List.append_nil (head ++ blankLine)] at hwhole
  rcases hhead.part_cases hwhole htail with hnone | ⟨part, hpart, htext⟩
  · exact bodyOf_eq_nil hnone
  · obtain ⟨rfl, rfl⟩ := List.append_eq_nil_iff.mp hpart
    obtain rfl := List.length_eq_zero_iff.mp (Nat.le_zero.mp (length_tail_le htail))
    rw [htext, hhead.bodyOf_append]
    rfl

end

end Request

namespace Local
open Request

/-- One connection: one read of at most 65536 bytes, and the response of `route` if they are a
request. -/
def handleConnection {σ α : Type} (toLowercase : String → String) (route : HttpRequest → Client σ α)
    (reads : List Bytes) : Client σ (Except String (Option α)) :=
  let received := reads.headD []
  if received = [] then .done (.ok none)
  else
    match parseHttpRequest toLowercase (fromUtf8Lossy received) with
    | .error e => .done (.error e)
    | .ok req => (route req).bind fun resp => .done (.ok (some resp))

/-- How the bytes that are sent come off the socket. -/
structure Reads (sent : Bytes) (reads : List Bytes) : Prop where
  flatten_eq : reads.flatten = sent
  ne_nil : ∀ received ∈ reads, received ≠ []
  fits : ∀ received ∈ reads, received.length ≤ 65536

/-- Whatever `route` is, it is given `req`, and its response is written. -/
def Passes (toLowercase : String → String) (reads : List Bytes) (req : HttpRequest) : Prop :=
  ∀ (σ α : Type) (route : HttpRequest → Client σ α),
    handleConnection toLowercase route reads =
      (route req).bind fun resp => .done (.ok (some resp))

variable {toLowercase : String → String}

theorem passes_iff {reads : List Bytes} {req : HttpRequest} :
    Passes toLowercase reads req ↔ reads.headD [] ≠ [] ∧
      parseHttpRequest toLowercase (fromUtf8Lossy (reads.headD [])) = .ok req := by
  constructor
  · intro h
    -- a route that answers with the request itself
    have hecho := h Unit HttpRequest .done
    unfold handleConnection at hecho
    dsimp only at hecho
    split at hecho
    · cases hecho
    case isFalse hne =>
      refine ⟨hne, ?_⟩
      split at hecho
      · cases hecho
      case h_2 req' hparse =>
        cases hecho
        exact hparse
  · rintro ⟨hne, hparse⟩ σ α route
    rw [handleConnection, if_neg hne, hparse]

def sentBytes (head body : Bytes) : Bytes := head ++ asBytes "\r\n\r\n" ++ body

theorem fromUtf8Lossy_sentBytes (head body : Bytes) :
    fromUtf8Lossy (sentBytes head body) = fromUtf8Lossy head ++ blankLine ++ fromUtf8Lossy body := by
  have hbytes : asBytes "\r\n\r\n" = [13, 10, 13, 10] := by decide
  have hblank : fromUtf8Lossy ([13, 10, 13, 10] ++ body) = blankLine ++ fromUtf8Lossy body := by
    simp only [List.cons_append, List.nil_append]
    rw [fromUtf8Lossy_cons_ascii _ (by decide), fromUtf8Lossy_cons_ascii _ (by decide),
      fromUtf8Lossy_cons_ascii _ (by decide), fromUtf8Lossy_cons_ascii _ (by decide)]
    rfl
  rw [sentBytes, hbytes, List.append_assoc, List.append_assoc, ← hblank]
  simp only [List.cons_append, List.nil_append]
  rw [fromUtf8Lossy_append_ascii _ _ (by decide),
    fromUtf8Lossy_cons_ascii (10 :: 13 :: 10 :: body) (by decide)]

theorem headOf_sentBytes (head body : Bytes) :
    headOf toLowercase (fromUtf8Lossy (sentBytes head body)) =
      headOf toLowercase (fromUtf8Lossy (sentBytes head [])) := by
  rw [fromUtf8Lossy_sentBytes, fromUtf8Lossy_sentBytes, headOf_blankLine, headOf_blankLine]

/-- The first read has the whole of the request, and no blank line is in its body; or it has no body,
and the part of the head that has come says what the whole head says. -/
def FirstReadTells (toLowercase : String → String) (head body received : Bytes) : Prop :=
  (fromUtf8Lossy received = fromUtf8Lossy (sentBytes head body) ∧
    ¬ blankLine <:+: fromUtf8Lossy body) ∨
  (body = [] ∧ headOf toLowercase (fromUtf8Lossy received) =
    headOf toLowercase (fromUtf8Lossy (sentBytes head [])))

theorem Reads.first {sent : Bytes} {reads : List Bytes} (h : Reads sent reads) (hne : sent ≠ []) :
    reads.headD [] ≠ [] ∧ reads.headD [] <+: sent ∧ (reads.headD []).length ≤ 65536 := by
  rcases reads with _ | ⟨received, reads⟩
  · exact absurd h.flatten_eq.symm hne
  · exact ⟨h.ne_nil received List.mem_cons_self, ⟨reads.flatten, h.flatten_eq⟩,
      h.fits received List.mem_cons_self⟩

theorem Reads.head {head body : Bytes} {reads : List Bytes}
    (h : Reads (sentBytes head body) reads) :
    reads.headD [] ≠ [] ∧ reads.headD [] <+: sentBytes head body ∧
      (reads.headD []).length ≤ 65536 := by
  have hblank : asBytes "\r\n\r\n" ≠ [] := by decide
  exact h.first (by simp [sentBytes, hblank])

/-- What is parsed from the first bytes of a request is the request exactly if they tell it. -/
theorem parse_iff_firstReadTells {head body received : Bytes} {req : HttpRequest}
    (hhead : IsHead (fromUtf8Lossy head))
    (hreq : parseHttpRequest toLowercase (fromUtf8Lossy (sentBytes head [])) = .ok req)
    (hstart : received <+: sentBytes head body) (hfits : received.length ≤ 65536) :
    parseHttpRequest toLowercase (fromUtf8Lossy received) =
        .ok { req with body := String.ofList (fromUtf8Lossy body) } ↔
      FirstReadTells toLowercase head body received := by
  obtain ⟨hsaid, hvalid, -, -, hlength⟩ := parseHttpRequest_eq_ok_iff.mp hreq
  obtain ⟨before, after, tail, hwhole, hseen, htail⟩ := fromUtf8Lossy_of_start hstart
  rw [fromUtf8Lossy_sentBytes] at hwhole
  rw [parseHttpRequest_eq_ok_iff]
  dsimp only
  rw [← hsaid]
  constructor
  · rintro ⟨hsame, -, hbody, -, -⟩
    by_cases hempty : body = []
    · exact .inr ⟨hempty, hsame⟩
    · have hbody' := String.ofList_injective hbody
      rw [hseen] at hbody'
      obtain ⟨hall, hnone⟩ := (hhead.bodyOf_part_iff hwhole htail
        (fromUtf8Lossy_ne_nil hempty)).mp hbody'.symm
      exact .inl ⟨by rw [hseen, hall, fromUtf8Lossy_sentBytes], hnone⟩
  · rintro (⟨hall, hnone⟩ | ⟨rfl, hsame⟩)
    · have hbody : bodyOf (fromUtf8Lossy received) = fromUtf8Lossy body := by
        rw [hall, fromUtf8Lossy_sentBytes, hhead.bodyOf_append, breakOn_eq_none_iff.mpr hnone]
      refine ⟨by rw [hall, headOf_sentBytes], hvalid, by rw [hbody], ?_, hlength⟩
      -- what was read at once is far shorter than the longest body
      have hsize := length_fromUtf8Lossy received
      rw [hall, fromUtf8Lossy_sentBytes, encode_append, List.length_append] at hsize
      rw [utf8ByteSize_ofList, MAX_BODY_SIZE]
      omega
    · have hbody : bodyOf (fromUtf8Lossy received) = [] := by
        rw [hseen]
        refine hhead.bodyOf_part_nil ?_ htail
        rwa [show fromUtf8Lossy [] = [] from rfl, List.append_nil] at hwhole
      exact ⟨hsame, hvalid, by rw [hbody]; rfl, Nat.zero_le _, hlength⟩

/-- However its bytes are read, the request of a head and a body is passed on exactly if the first
read tells it. -/
theorem request_passed_iff {head body : Bytes} {reads : List Bytes} {req : HttpRequest}
    (hhead : IsHead (fromUtf8Lossy head))
    (hreq : parseHttpRequest toLowercase (fromUtf8Lossy (sentBytes head [])) = .ok req)
    (hreads : Reads (sentBytes head body) reads) :
    Passes toLowercase reads { req with body := String.ofList (fromUtf8Lossy body) } ↔
      FirstReadTells toLowercase head body (reads.headD []) := by
  obtain ⟨hne, hstart, hfits⟩ := hreads.head
  rw [passes_iff, ← parse_iff_firstReadTells hhead hreq hstart hfits]
  exact and_iff_right hne

/-! ## A POST request whose head and body come in two reads -/

def postHead : Bytes := asBytes "POST /record/insert HTTP/1.1"

def postBody : Bytes := asBytes "\x7b\"id\":\"r1\"\x7d"

def postRequest (body : String) : HttpRequest := ⟨"POST", "/record/insert", ∅, ∅, body⟩

theorem isHead_postHead : IsHead (fromUtf8Lossy postHead) := by
  unfold IsHead
  decide +kernel

theorem parse_postHead :
    parseHttpRequest id (fromUtf8Lossy (sentBytes postHead [])) = .ok (postRequest "") := by
  refine parseHttpRequest_eq_ok_iff.mpr ⟨?_, ?_, ?_, ?_, ?_⟩
  · rfl
  · decide +kernel
  · decide +kernel
  · decide +kernel
  · rfl

theorem request_passed_iff_atOnce :
    Passes id [sentBytes postHead postBody]
      { postRequest "" with body := String.ofList (fromUtf8Lossy postBody) } :=
  (request_passed_iff isHead_postHead parse_postHead
    ⟨by decide, by decide, by decide⟩).mpr (.inl ⟨rfl, by decide +kernel⟩)

theorem split_request_loses_body :
    IsHead (fromUtf8Lossy postHead) ∧
    parseHttpRequest id (fromUtf8Lossy (sentBytes postHead [])) = .ok (postRequest "") ∧
    postBody.length ≤ MAX_BODY_SIZE ∧
    Reads (sentBytes postHead postBody) [sentBytes postHead [], postBody] ∧
    Passes id [sentBytes postHead [], postBody] (postRequest "") ∧
    ¬ Passes id [sentBytes postHead [], postBody]
      { postRequest "" with body := String.ofList (fromUtf8Lossy postBody) } := by
  have hempty : Passes id [sentBytes postHead [], postBody] (postRequest "") :=
    passes_iff.mpr ⟨by decide, parse_postHead⟩
  refine ⟨isHead_postHead, parse_postHead, by decide, ⟨by decide, by decide, by decide⟩, hempty, ?_⟩
  intro hfull
  have hsame := Except.ok.inj ((passes_iff.mp hempty).2.symm.trans (passes_iff.mp hfull).2)
  have hbody : "" = String.ofList (fromUtf8Lossy postBody) := congrArg HttpRequest.body hsame
  exact absurd hbody (by decide +kernel)

/-! ## Requests that are texts -/

section
variable {head body : List Char} {received : Bytes}

theorem sentBytes_encode (head body : List Char) :
    sentBytes (encode head) (encode body) = encode (head ++ blankLine ++ body) := by
  rw [encode_append, encode_append, sentBytes, blankLine, encode_toList]

theorem firstReadTells_text_iff (hstart : received <+: sentBytes (encode head) (encode body))
    (hbody : body ≠ []) :
    FirstReadTells toLowercase (encode head) (encode body) received ↔
      Arrived received (head ++ blankLine ++ body) ∧ ¬ blankLine <:+: body := by
  rw [sentBytes_encode] at hstart
  unfold FirstReadTells
  rw [sentBytes_encode, fromUtf8Lossy_encode, fromUtf8Lossy_encode, fromUtf8Lossy_eq_iff hstart,
    encode_eq_nil]
  exact or_iff_left fun h => hbody h.1

/-- A request with a body that is longer than one read can be is never passed on. -/
theorem not_passes_of_long {reads : List Bytes} {req : HttpRequest} (hhead : IsHead head)
    (hreq : parseHttpRequest toLowercase (fromUtf8Lossy (sentBytes (encode head) [])) = .ok req)
    (hbody : body ≠ []) (hlong : 65538 < (sentBytes (encode head) (encode body)).length)
    (hreads : Reads (sentBytes (encode head) (encode body)) reads) :
    ¬ Passes toLowercase reads { req with body := String.ofList body } := by
  obtain ⟨-, hstart, hfits⟩ := hreads.head
  have hparse := parse_iff_firstReadTells (by rwa [fromUtf8Lossy_encode]) hreq hstart hfits
  rw [fromUtf8Lossy_encode, firstReadTells_text_iff hstart hbody] at hparse
  intro hpasses
  have harrived := (hparse.mp (passes_iff.mp hpasses).2).1.length_le
  rw [← sentBytes_encode] at harrived
  omega

end

end Local

namespace LocalApi
open Local Request
variable {ed : Ed25519} (api : LocalApi ed)

def handleConnection (reads : List Bytes) :
    Client NodeState (Except String (Option (Outcome HttpResponse))) :=
  Local.handleConnection api.env.toLowercase api.route reads

/-- A request that comes in one read, without a blank line in its body, is answered by `route`. -/
theorem handleConnection_atOnce {head body : Bytes} {req : HttpRequest}
    (hhead : IsHead (fromUtf8Lossy head))
    (hreq : parseHttpRequest api.env.toLowercase (fromUtf8Lossy (sentBytes head [])) = .ok req)
    (hbody : ¬ blankLine <:+: fromUtf8Lossy body) (hfits : (sentBytes head body).length ≤ 65536) :
    api.handleConnection [sentBytes head body] =
      (api.route { req with body := String.ofList (fromUtf8Lossy body) }).bind
        fun resp => .done (.ok (some resp)) := by
  have hne : sentBytes head body ≠ [] := by
    have hblank : asBytes "\r\n\r\n" ≠ [] := by decide
    simp [sentBytes, hblank]
  have hparse := (parse_iff_firstReadTells hhead hreq (List.prefix_refl _) hfits).mpr
    (.inl ⟨rfl, hbody⟩)
  have hpasses : Passes api.env.toLowercase [sentBytes head body]
      { req with body := String.ofList (fromUtf8Lossy body) } := passes_iff.mpr ⟨hne, hparse⟩
  exact hpasses _ _ api.route

end LocalApi

end DSearch

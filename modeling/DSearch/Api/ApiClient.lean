import DSearch.Api.Local

/-! # GET requests: `cli/api_client.rs`

What the CLI and the panels write to the local API, and how a request line that begins with `GET` is
parsed: its target goes on to the first space or to the end of the line. -/

namespace DSearch
set_option autoImplicit false
open RustText Sign Utf8Text SeparatedText

namespace Request
variable {toLowercase : String → String}

theorem trim_sublist (cs : List Char) : (trim cs).Sublist cs := by
  unfold trim
  rw [← List.reverse_sublist, List.reverse_reverse]
  refine (List.dropWhile_sublist _).trans ?_
  rw [List.reverse_sublist]
  exact List.dropWhile_sublist _

/-- Few lines, none of them long and none a content length. -/
theorem parseHeaders_eq_ok {headerLines : List (List Char)} {headers : Table String}
    (hcount : headers.size + headerLines.length ≤ MAX_HEADERS)
    (hshort : ∀ line ∈ headerLines, (encode line).length ≤ MAX_HEADER_VALUE_LEN)
    (hnames : ∀ line ∈ headerLines,
      toLowercase (String.ofList (trim (splitFirst ':' line).1)) ≠ "content-length")
    (hnone : headers["content-length"]? = none) :
    ∃ parsed, parseHeaders toLowercase headerLines headers = .ok parsed ∧
      parsed["content-length"]? = none := by
  induction headerLines generalizing headers with
  | nil => exact ⟨headers, rfl, hnone⟩
  | cons line lines ih =>
    rw [List.length_cons] at hcount
    have hshort' := fun l hl => hshort l (List.mem_cons_of_mem line hl)
    have hnames' := fun l hl => hnames l (List.mem_cons_of_mem line hl)
    rw [parseHeaders]
    split
    · exact ⟨headers, rfl, hnone⟩
    rw [if_neg (by omega)]
    split
    · exact ih (by omega) hshort' hnames' hnone
    next name rest hsplit =>
      have hvalue : ¬ (String.ofList (trim rest)).utf8ByteSize > MAX_HEADER_VALUE_LEN := by
        have hline := hshort line List.mem_cons_self
        rw [eq_append_of_splitFirst hsplit, encode_append, encode_cons] at hline
        simp only [List.length_append] at hline
        have htrim : (encode (trim rest)).length ≤ (encode rest).length :=
          ((trim_sublist rest).flatMap _).length_le
        rw [utf8ByteSize_ofList]
        omega
      dsimp only
      rw [if_neg hvalue]
      refine ih ?_ hshort' hnames' ?_
      · have hsize := Std.ExtTreeMap.size_insert_le (t := headers)
          (k := toLowercase (String.ofList (trim name))) (v := String.ofList (trim rest))
        omega
      · rw [OrderedTable.get_insert, if_neg]
        · exact hnone
        · have hname := hnames line List.mem_cons_self
          rw [hsplit] at hname
          exact hname

/-- What may come after the target of a request. -/
def EndsTarget (rest : List Char) : Prop :=
  rest = [] ∨ ∃ after, rest = ' ' :: after ∨ rest = '\n' :: after ∨ rest = '\r' :: '\n' :: after

theorem splitN_get (line : List Char) :
    ∃ target more rest, splitN 3 ' ' ("GET ".toList ++ line) = "GET".toList :: target :: more ∧
      line = target ++ rest ∧ ' ' ∉ target ∧ (rest = [] ∨ ∃ after, rest = ' ' :: after) := by
  have hget : splitFirst ' ' ("GET ".toList ++ line) = ("GET".toList, some line) :=
    splitFirst_append (a := "GET".toList) (by decide) line
  by_cases hspace : ' ' ∈ line
  · obtain ⟨target, after, rfl, htarget⟩ := List.eq_append_cons_of_mem hspace
    refine ⟨target, [after], ' ' :: after, ?_, rfl, htarget, .inr ⟨after, rfl⟩⟩
    rw [splitN, hget]
    dsimp only
    rw [splitN, splitFirst_append htarget]
    rfl
  · refine ⟨line, [], [], ?_, (List.append_nil line).symm, hspace, .inl rfl⟩
    rw [splitN, hget]
    dsimp only
    rw [splitN, splitFirst_of_not_mem hspace]

/-- The request line and the lines after it. -/
theorem lines_get (text : List Char) :
    ∃ line rest headerLines, lines ("GET ".toList ++ text) = ("GET ".toList ++ line) :: headerLines ∧
      text = line ++ rest ∧ '\n' ∉ line ∧
      (rest = [] ∨ ∃ after, rest = '\n' :: after ∨ rest = '\r' :: '\n' :: after) ∧
      (∀ header ∈ headerLines, header <:+: rest) ∧ headerLines.length ≤ rest.count '\n' + 1 := by
  by_cases hfeed : '\n' ∈ text
  · obtain ⟨first, after, rfl, hfirst⟩ := List.eq_append_cons_of_mem hfeed
    have hget : '\n' ∉ "GET ".toList ++ first := by
      rw [List.mem_append]
      exact fun h => h.elim (by decide) hfirst
    have hheaders : ∀ header ∈ lines after, ∀ rest, after <:+ rest → header <:+: rest :=
      fun header h rest hrest => (infix_of_mem_lines h).trans hrest.isInfix
    have hlines := lines_cons hget after
    rw [List.append_assoc] at hlines
    rw [hlines]
    rcases stripCarriageReturn_cases ("GET ".toList ++ first) with hsame | hstrip
    · refine ⟨first, '\n' :: after, lines after, by rw [hsame], rfl, hfirst, .inr ⟨after, .inl rfl⟩,
        fun header h => hheaders header h _ (List.suffix_cons _ _), ?_⟩
      have hlength := length_lines_le after
      rw [List.count_cons_self]
      omega
    · rcases List.eq_nil_or_concat first with rfl | ⟨line, c, rfl⟩
      · exact absurd (congrArg List.getLast? hstrip) (by simp)
      · rw [List.concat_eq_append, ← List.append_assoc] at hstrip
        obtain ⟨hline, hc⟩ := List.append_inj' hstrip rfl
        obtain rfl : c = '\r' := List.singleton_inj.mp hc
        refine ⟨line, '\r' :: '\n' :: after, lines after, ?_, ?_, ?_, .inr ⟨after, .inr rfl⟩,
          fun header h => hheaders header h _ ?_, ?_⟩
        · rw [List.concat_eq_append, ← List.append_assoc, ← hline]
        · simp
        · simp only [List.concat_eq_append, List.mem_append, not_or] at hfirst
          exact hfirst.1
        · exact (List.suffix_cons _ _).trans (List.suffix_cons _ _)
        · have hlength := length_lines_le after
          rw [List.count_cons_of_ne (by decide), List.count_cons_self]
          omega
  · refine ⟨text, [], [], ?_, (List.append_nil text).symm, hfeed, .inl rfl, by simp, by simp⟩
    refine lines_of_not_mem ?_ (by simp)
    rw [List.mem_append]
    exact fun h => h.elim (by decide) hfeed

/-- The target goes on to the first space or to the end of the line. -/
theorem headOf_get (toLowercase : String → String) (text : List Char) :
    ∃ target rest headerLines, text = target ++ rest ∧ ' ' ∉ target ∧ '\n' ∉ target ∧
      EndsTarget rest ∧
      headOf toLowercase ("GET ".toList ++ text) =
        some ("GET", String.ofList (splitFirst '?' target).1,
          parseQueryString ((splitFirst '?' target).2.getD []),
          parseHeaders toLowercase headerLines ∅) ∧
      (∀ header ∈ headerLines, header <:+: rest) ∧ headerLines.length ≤ rest.count '\n' + 1 := by
  obtain ⟨line, ending, headerLines, hlines, rfl, hfeed, hending, hheaders, hlength⟩ := lines_get text
  obtain ⟨target, more, rest, hparts, rfl, hspace, hrest⟩ := splitN_get line
  refine ⟨target, rest ++ ending, headerLines, List.append_assoc _ _ _, hspace, ?_, ?_, ?_, ?_, ?_⟩
  · exact fun h => hfeed (List.mem_append_left _ h)
  · rcases hrest with rfl | ⟨after, rfl⟩
    · rcases hending with rfl | ⟨after, rfl | rfl⟩
      · exact .inl rfl
      · exact .inr ⟨after, .inr (.inl rfl)⟩
      · exact .inr ⟨after, .inr (.inr rfl)⟩
    · exact .inr ⟨_, .inl rfl⟩
  · rw [headOf, hlines]
    dsimp only
    rw [hparts]
    rfl
  · exact fun header h => (hheaders header h).trans (List.suffix_append rest ending).isInfix
  · rw [List.count_append]
    omega

/-- The target of a request is as it is sent, if it has no space and no line feed. -/
theorem target_eq {target target' rest rest' : List Char} (htext : target ++ rest = target' ++ rest')
    (hspace : ' ' ∉ target) (hfeed : '\n' ∉ target) (hrest : EndsTarget rest)
    (hspace' : ' ' ∉ target') (hfeed' : '\n' ∉ target')
    (hrest' : rest' = [] ∨ ∃ after, rest' = ' ' :: after) : target = target' := by
  rcases List.append_eq_append_iff.mp htext with ⟨middle, rfl, hmiddle⟩ | ⟨middle, rfl, hmiddle⟩
  · cases middle with
    | nil => rw [List.append_nil]
    | cons c middle =>
      simp only [List.mem_append, List.mem_cons, not_or] at hspace' hfeed'
      rcases hrest with rfl | ⟨after, rfl | rfl | rfl⟩
      · cases hmiddle
      · exact absurd (List.cons.inj hmiddle).1 hspace'.2.1
      · exact absurd (List.cons.inj hmiddle).1 hfeed'.2.1
      · have hnext := (List.cons.inj hmiddle).2
        cases middle with
        | nil =>
          change '\n' :: after = rest' at hnext
          rcases hrest' with rfl | ⟨after', rfl⟩
          · cases hnext
          · exact absurd (List.cons.inj hnext).1 (by decide)
        | cons d middle =>
          rw [List.mem_cons, not_or] at hfeed'
          exact absurd (List.cons.inj hnext).1 hfeed'.2.2.1
  · cases middle with
    | nil => rw [List.append_nil]
    | cons c middle =>
      rcases hrest' with rfl | ⟨after, rfl⟩
      · cases hmiddle
      · rw [← (List.cons.inj hmiddle).1] at hspace
        simp at hspace

theorem bodyOf_isInfix {before : List Char} (h : '\n' ∉ before) (after : List Char) :
    bodyOf (before ++ after) <:+: after := by
  unfold bodyOf
  split
  · exact List.nil_infix
  next a rest hfirst =>
    have hrest : rest <:+ after := by
      have htext := eq_of_breakOn hfirst
      have hsep : before ++ after = (a ++ ['\r']) ++ '\n' :: ("\r\n".toList ++ rest) := by
        rw [htext]
        simp
      obtain ⟨t, ht⟩ := prefix_of_prefix_append h (hsep ▸ List.prefix_append before after)
      rw [← ht, List.append_assoc, List.append_cancel_left_eq] at hsep
      rw [hsep]
      exact ((List.suffix_append _ rest).trans (List.suffix_cons _ _)).trans (List.suffix_append t _)
    split
    · exact hrest.isInfix
    next body more hsecond =>
      have hbody := eq_of_breakOn hsecond
      refine List.IsInfix.trans ⟨[], "\r\n\r\n".toList ++ more, ?_⟩ hrest.isInfix
      rw [hbody]
      simp

end Request

namespace ApiClient
open Request

/-- What comes after the target in a request of `api_get`. -/
def requestTail (port : UInt16) : List Char :=
  " HTTP/1.1\r\nHost: 127.0.0.1:".toList ++ (toString port.toNat).toList ++
    "\r\nAccept: application/json\r\nConnection: close\r\n\r\n".toList

/-- The request that `api_get` writes. -/
def requestText (port : UInt16) (path : List Char) : List Char :=
  "GET ".toList ++ (path ++ requestTail port)

/-- `str::to_lowercase`, on ASCII texts. -/
def LowersAscii (toLowercase : String → String) : Prop :=
  ∀ s, (∀ c ∈ s.toList, c.toNat < 128) → toLowercase s = String.ofList (s.toList.map Char.toLower)

theorem lowersAscii_asciiLowercase : LowersAscii Query.asciiLowercase := fun _ _ => rfl

variable {toLowercase : String → String} {port : UInt16}

theorem length_portText (port : UInt16) : (toString port.toNat).toList.length ≤ 5 := by
  rw [Nat.toString_eq_repr, String.length_toList]
  exact (Nat.length_repr_le_iff (by decide)).mpr (port.toNat_lt.trans (by decide))

theorem length_requestTail (port : UInt16) : (requestTail port).length ≤ 90 := by
  have hport := length_portText port
  have hbefore : " HTTP/1.1\r\nHost: 127.0.0.1:".toList.length = 27 :=
    of_chars (motive := fun cs => cs.length = 27) rfl
  have hafter : "\r\nAccept: application/json\r\nConnection: close\r\n\r\n".toList.length = 49 :=
    of_chars (motive := fun cs => cs.length = 49) rfl
  unfold requestTail
  simp only [List.length_append, hbefore, hafter]
  omega

theorem mem_requestTail {c : Char} (h : c ∈ requestTail port) : c.toNat < 128 ∧ c ≠ '-' := by
  unfold requestTail at h
  simp only [List.mem_append] at h
  let ascii : Char → Bool := fun c => decide (c.toNat < 128 ∧ c ≠ '-')
  have hbefore : " HTTP/1.1\r\nHost: 127.0.0.1:".toList.all ascii = true :=
    of_chars (motive := fun cs => cs.all ascii = true) rfl
  have hafter : "\r\nAccept: application/json\r\nConnection: close\r\n\r\n".toList.all ascii = true :=
    of_chars (motive := fun cs => cs.all ascii = true) rfl
  rcases h with (h | h) | h
  · exact of_decide_eq_true (List.all_eq_true.mp hbefore c h)
  · have hdigit := JsonText.digit_of_mem_toString h
    refine ⟨by omega, ?_⟩
    rintro rfl
    exact absurd hdigit.1 (by decide)
  · exact of_decide_eq_true (List.all_eq_true.mp hafter c h)

theorem count_requestTail (port : UInt16) : (requestTail port).count '\n' = 5 := by
  have hport : (toString port.toNat).toList.count '\n' = 0 := by
    rw [List.count_eq_zero]
    intro h
    exact absurd (JsonText.digit_of_mem_toString h).1 (by decide)
  have hbefore : " HTTP/1.1\r\nHost: 127.0.0.1:".toList.count '\n' = 1 :=
    of_chars (motive := fun cs => cs.count '\n' = 1) rfl
  have hafter : "\r\nAccept: application/json\r\nConnection: close\r\n\r\n".toList.count '\n' = 4 :=
    of_chars (motive := fun cs => cs.count '\n' = 4) rfl
  unfold requestTail
  rw [List.count_append, List.count_append, hbefore, hport, hafter]

theorem length_encode_le (cs : List Char) : (encode cs).length ≤ 4 * cs.length := by
  induction cs with
  | nil => exact le_refl _
  | cons c cs ih =>
    have hc := c.utf8Size_le_four
    rw [encode_cons, List.length_append, String.length_utf8EncodeChar, List.length_cons]
    omega

/-- No part of the headers names a content length. -/
theorem lower_ne_contentLength (hlower : LowersAscii toLowercase) (port : UInt16) {name : List Char}
    (hname : ∀ c ∈ name, c ∈ requestTail port) :
    toLowercase (String.ofList name) ≠ "content-length" := by
  have hascii : ∀ c ∈ (String.ofList name).toList, c.toNat < 128 := by
    rw [String.toList_ofList]
    exact fun c hc => (mem_requestTail (hname c hc)).1
  have hdash : ∀ n < 128, (Char.ofNat n).toLower = '-' → Char.ofNat n = '-' := by decide
  rw [hlower _ hascii, String.toList_ofList]
  intro heq
  have hmem : '-' ∈ name.map Char.toLower := by
    rw [← String.toList_ofList (l := name.map Char.toLower), heq]
    decide
  obtain ⟨c, hc, hlow⟩ := List.mem_map.mp hmem
  obtain ⟨hsmall, hne⟩ := mem_requestTail (hname c hc)
  have hc' := hdash c.toNat hsmall
  rw [Char.ofNat_toNat] at hc'
  exact hne (hc' hlow)

/-- However much of its headers has come, a request for a target is a request if its path is valid. -/
theorem parse_get (hlower : LowersAscii toLowercase) (port : UInt16) {target rest : List Char}
    (hspace : ' ' ∉ target) (hfeed : '\n' ∉ target) (hrest : rest <+: requestTail port)
    (hvalid : validatePath (percentDecode (splitFirst '?' target).1) = .ok ()) :
    ∃ headers body, parseHttpRequest toLowercase ("GET ".toList ++ (target ++ rest)) = .ok
      { method := "GET"
        path := String.ofList (splitFirst '?' target).1
        query := parseQueryString ((splitFirst '?' target).2.getD [])
        headers := headers
        body := body } := by
  have hstart : rest = [] ∨ ∃ after, rest = ' ' :: after := by
    rcases List.prefix_cons_iff.mp hrest with hnil | ⟨after, hafter, -⟩
    · exact .inl hnil
    · exact .inr ⟨after, hafter⟩
  obtain ⟨target', rest', headerLines, htext, hspace', hfeed', hends, hhead, hparts, hcount⟩ :=
    headOf_get toLowercase (target ++ rest)
  obtain rfl := target_eq htext.symm hspace' hfeed' hends hspace hfeed hstart
  obtain rfl := List.append_cancel_left htext
  have hlength := hrest.length_le.trans (length_requestTail port)
  have hfeeds := (hrest.sublist.count_le '\n').trans (count_requestTail port).le
  have hmem : ∀ line ∈ headerLines, ∀ c ∈ line, c ∈ requestTail port :=
    fun line hline c hc => hrest.subset ((hparts line hline).subset hc)
  have hcount' : (∅ : Table String).size + headerLines.length ≤ MAX_HEADERS := by
    rw [Std.ExtTreeMap.size_empty, MAX_HEADERS]
    omega
  have hshort : ∀ line ∈ headerLines, (encode line).length ≤ MAX_HEADER_VALUE_LEN := by
    intro line hline
    have hle := (hparts line hline).length_le
    have hbytes := length_encode_le line
    unfold MAX_HEADER_VALUE_LEN
    omega
  have hnames : ∀ line ∈ headerLines,
      toLowercase (String.ofList (trim (splitFirst ':' line).1)) ≠ "content-length" := by
    intro line hline
    refine lower_ne_contentLength hlower port fun c hc => ?_
    have hname := (splitFirst_isPrefix ':' line).subset ((trim_sublist _).subset hc)
    exact hrest.subset ((hparts line hline).subset hname)
  obtain ⟨headers, hheaders, hnone⟩ := parseHeaders_eq_ok hcount' hshort hnames (by simp)
  refine ⟨headers, String.ofList (bodyOf ("GET ".toList ++ (target' ++ rest))),
    parseHttpRequest_eq_ok_iff.mpr ⟨?_, ?_, rfl, ?_, ?_⟩⟩
  · rw [hhead, hheaders]
  · rw [String.toList_ofList]
    exact hvalid
  · have hget : '\n' ∉ "GET ".toList ++ target' := by
      rw [List.mem_append]
      exact fun h => h.elim (by decide) hfeed
    have hbody := (bodyOf_isInfix hget rest).length_le
    have hbytes := length_encode_le (bodyOf ("GET ".toList ++ target' ++ rest))
    dsimp only
    rw [utf8ByteSize_ofList, ← List.append_assoc, MAX_BODY_SIZE]
    omega
  · rw [checkContentLength, hnone]

end ApiClient

end DSearch

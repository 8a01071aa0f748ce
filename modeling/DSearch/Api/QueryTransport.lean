import DSearch.Api.ApiClient

/-! # The query of a search on its way to the API

`cmd_search` of `main.rs` encodes the bytes of the query with `url_encode`, `run_search` of
`ui/search.rs` only writes a `+` for every space; `percent_decode` makes a character of every encoded
byte. -/

namespace DSearch
set_option autoImplicit false
open RustText Sign Utf8Text SeparatedText Request ApiClient

namespace QueryTransport

/-- A digit of `{:02X}`. -/
def upperHexDigit (n : ℕ) : Char := Char.ofNat (if n < 10 then 48 + n else 55 + n)

def isUnreserved (byte : UInt8) : Bool :=
  let n := byte.toNat
  (65 ≤ n && n ≤ 90) || (97 ≤ n && n ≤ 122) || (48 ≤ n && n ≤ 57) || n = 45 || n = 95 || n = 46 ||
    n = 126

def urlEncodeByte (byte : UInt8) : List Char :=
  if isUnreserved byte then [Char.ofNat byte.toNat]
  else if byte = 32 then ['+']
  else ['%', upperHexDigit (byte.toNat / 16), upperHexDigit (byte.toNat % 16)]

def urlEncode (s : String) : List Char := (asBytes s).flatMap urlEncodeByte

/-- The path that `cmd_search` requests. -/
def cmdSearchPath (query : String) (schema : Option String) (limit : UInt32) : List Char :=
  "/search?q=".toList ++ urlEncode query ++
    (match schema with
      | some s => "&schema=".toList ++ urlEncode s
      | none => []) ++
    "&limit=".toList ++ (toString limit.toNat).toList

def plusForSpace (c : Char) : Char := if c = ' ' then '+' else c

/-- The path that `run_search` requests, if it requests one. -/
def runSearchPath (query : String) : Option (List Char) :=
  if query = "" then none
  else some ("/search?q=".toList ++ query.toList.map plusForSpace ++ "&limit=20".toList)

/-- The parameter `q` of the request for a path that `api_get` sends. -/
def receivedQuery (toLowercase : String → String) (port : UInt16) (path : List Char) : Option String :=
  match parseHttpRequest toLowercase (fromUtf8Lossy (encode (requestText port path))) with
  | .ok req => req.query["q"]?
  | .error _ => none

/-- What stands after a `%` is no number, and has no space in it. -/
def NoNumber (hex : List Char) : Prop :=
  ' ' ∉ hex ∧ fromStrRadix16 (asBytes (String.ofList hex)) = none

/-- The decoder leaves every character as it is: it finds no `+` and, after a `%`, no number. A space
after a `%` is a `+` for it, which it leaves. -/
def ReadsAsWritten : List Char → Prop
  | [] => True
  | c :: cs =>
    if c = '%' then NoNumber (cs.take 2) ∧ ReadsAsWritten (cs.drop 2)
    else c ≠ '+' ∧ ReadsAsWritten cs
termination_by cs => cs.length

section
variable {a b c : Char} {cs : List Char}

theorem length_decodeHex_le (hex : List Char) : (decodeHex hex).length ≤ hex.length + 1 := by
  unfold decodeHex
  split <;> simp

theorem length_percentDecode_le (cs : List Char) : (percentDecode cs).length ≤ cs.length := by
  induction cs using decode_induction with
  | nil => exact le_refl _
  | percent a b cs ih =>
    have hhex := length_decodeHex_le [a, b]
    rw [percentDecode_percent]
    simp only [List.length_append, List.length_cons, List.length_nil] at hhex ih ⊢
    omega
  | percentOne a => exact length_decodeHex_le [a]
  | percentNone => exact length_decodeHex_le []
  | other c cs hpercent ih =>
    by_cases hplus : c = '+'
    · subst hplus
      rw [percentDecode_plus]
      simpa using ih
    · rw [percentDecode_cons hpercent hplus]
      simpa using ih

theorem readsAsWritten_nil : ReadsAsWritten [] := by
  rw [ReadsAsWritten]
  trivial

theorem plusForSpace_eq_iff : plusForSpace c = c ↔ c ≠ ' ' := by
  unfold plusForSpace
  split
  next h =>
    subst h
    simp
  next h => simp [h]

/-- Up to two characters after a `%` stay exactly if they are no number. -/
theorem decodeHex_plusForSpace_iff (hex : List Char) {rest cs : List Char}
    (hrest : rest.length ≤ cs.length) (hhex : hex ≠ []) :
    decodeHex (hex.map plusForSpace) ++ rest = '%' :: hex ++ cs ↔ NoNumber hex ∧ rest = cs := by
  have hmap : hex.map plusForSpace = hex ↔ ' ' ∉ hex := by
    have hid := List.map_inj_left (l := hex) (f := plusForSpace) (g := id)
    rw [List.map_id] at hid
    rw [hid]
    simp only [id, plusForSpace_eq_iff]
    exact ⟨fun h hspace => h ' ' hspace rfl, fun h c hc hspace => h (hspace ▸ hc)⟩
  unfold decodeHex NoNumber
  cases hvalue : fromStrRadix16 (asBytes (String.ofList (hex.map plusForSpace))) with
  | none =>
    constructor
    · intro h
      obtain ⟨hsame, hrest'⟩ := List.append_inj (List.cons.inj h).2 (List.length_map plusForSpace)
      rw [hsame] at hvalue
      exact ⟨⟨hmap.mp hsame, hvalue⟩, hrest'⟩
    · rintro ⟨⟨hspace, -⟩, rfl⟩
      rw [hmap.mpr hspace]
  | some byte =>
    -- the number is one character, for two or three
    refine iff_of_false (fun h => ?_) fun ⟨⟨hspace, hnone⟩, _⟩ => ?_
    · have hlength := congrArg List.length h
      have hpos := List.length_pos_iff.mpr hhex
      simp only [List.length_append, List.length_cons, List.length_nil] at hlength
      omega
    · rw [hmap.mpr hspace, hnone] at hvalue
      cases hvalue

theorem percentDecode_plusForSpace_iff (cs : List Char) :
    percentDecode (cs.map plusForSpace) = cs ↔ ReadsAsWritten cs := by
  have hlength : ∀ cs : List Char, (percentDecode (cs.map plusForSpace)).length ≤ cs.length :=
    fun cs => (length_percentDecode_le _).trans (List.length_map plusForSpace).le
  induction cs using decode_induction with
  | nil => exact iff_of_true rfl readsAsWritten_nil
  | percent a b cs ih =>
    rw [ReadsAsWritten, if_pos rfl]
    exact (decodeHex_plusForSpace_iff [a, b] (hlength cs) (by simp)).trans
      (and_congr_right' ih)
  | percentOne a =>
    rw [ReadsAsWritten, if_pos rfl]
    have hhex := decodeHex_plusForSpace_iff [a] (Nat.le_refl ([] : List Char).length) (by simp)
    rw [List.append_nil, List.append_nil, and_iff_left rfl] at hhex
    exact hhex.trans (and_iff_left readsAsWritten_nil).symm
  | percentNone =>
    rw [ReadsAsWritten, if_pos rfl]
    exact iff_of_true rfl ⟨⟨List.not_mem_nil, by decide⟩, readsAsWritten_nil⟩
  | other c cs hpercent ih =>
    rw [ReadsAsWritten, if_neg hpercent, List.map_cons]
    by_cases hplus : c = '+'
    · subst hplus
      exact iff_of_false (by simp [plusForSpace, percentDecode_plus]) (by simp)
    · refine Iff.trans ?_ (and_congr_right fun _ => ih)
      by_cases hspace : c = ' '
      · subst hspace
        simp [plusForSpace, percentDecode_plus]
      · rw [plusForSpace_eq_iff.mpr hspace, percentDecode_cons hpercent hplus]
        simp [hplus]

/-! ## Encoded bytes -/

theorem isUnreserved_chars {byte : UInt8} (h : isUnreserved byte = true) :
    Char.ofNat byte.toNat ∉ ['%', '+', ' ', '\n', '&'] := by
  have hall : ∀ n < 256, isUnreserved (UInt8.ofNat n) = true →
      Char.ofNat n ∉ ['%', '+', ' ', '\n', '&'] := by decide +kernel
  refine hall byte.toNat byte.toNat_lt ?_
  rwa [UInt8.ofNat_toNat]

theorem urlEncodeByte_chars {byte : UInt8} {c : Char} (h : c ∈ urlEncodeByte byte) :
    c ∉ [' ', '\n', '&'] := by
  have hdigit : ∀ n < 16, upperHexDigit n ∉ [' ', '\n', '&'] := by decide
  unfold urlEncodeByte at h
  split at h
  next hunreserved =>
    obtain rfl := List.mem_singleton.mp h
    exact fun hc => isUnreserved_chars hunreserved (by simp_all)
  next =>
    split at h
    next =>
      obtain rfl := List.mem_singleton.mp h
      decide
    next =>
      have hbyte := byte.toNat_lt
      simp only [List.mem_cons, List.not_mem_nil, or_false] at h
      rcases h with rfl | rfl | rfl
      · decide
      · exact hdigit _ (by omega)
      · exact hdigit _ (by omega)

theorem not_mem_urlEncode (s : String) : ∀ c ∈ [' ', '\n', '&'], c ∉ urlEncode s := by
  intro c hc hmem
  obtain ⟨byte, -, hbyte⟩ := List.mem_flatMap.mp hmem
  exact urlEncodeByte_chars hbyte hc

/-- An encoded byte is decoded to the character of its number. -/
theorem percentDecode_urlEncodeByte (byte : UInt8) (cs : List Char) :
    percentDecode (urlEncodeByte byte ++ cs) = Char.ofNat byte.toNat :: percentDecode cs := by
  have hhex : ∀ n < 256, fromStrRadix16 (asBytes (String.ofList
      [upperHexDigit (n / 16), upperHexDigit (n % 16)])) = some (UInt8.ofNat n) := by decide +kernel
  unfold urlEncodeByte
  split
  next hunreserved =>
    have hchar := isUnreserved_chars hunreserved
    simp only [List.mem_cons, not_or] at hchar
    exact percentDecode_cons hchar.1 hchar.2.1 cs
  next =>
    split
    next hspace =>
      subst hspace
      exact percentDecode_plus cs
    next =>
      rw [List.cons_append, List.cons_append, List.cons_append, List.nil_append,
        percentDecode_percent, decodeHex, hhex byte.toNat byte.toNat_lt, UInt8.ofNat_toNat]
      rfl

theorem percentDecode_urlEncode (s : String) :
    percentDecode (urlEncode s) = (asBytes s).map fun byte => Char.ofNat byte.toNat := by
  unfold urlEncode
  induction asBytes s with
  | nil => rfl
  | cons byte bytes ih => rw [List.flatMap_cons, percentDecode_urlEncodeByte, ih, List.map_cons]

def IsAscii (cs : List Char) : Prop := ∀ c ∈ cs, c.toNat < 128

theorem length_le_length_encode (cs : List Char) : cs.length ≤ (encode cs).length := by
  induction cs with
  | nil => exact le_refl _
  | cons c cs ih =>
    have hc := c.utf8Size_pos
    rw [encode_cons, List.length_append, String.length_utf8EncodeChar, List.length_cons]
    omega

/-- Only the bytes of an ASCII text have its characters as their numbers. -/
theorem bytes_as_chars_iff (cs : List Char) :
    (encode cs).map (fun byte => Char.ofNat byte.toNat) = cs ↔ IsAscii cs := by
  induction cs with
  | nil => simp [IsAscii]
  | cons c cs ih =>
    rw [encode_cons, List.map_append]
    by_cases hc : c.toNat < 128
    · have hsize : c.utf8Size = 1 := Char.utf8Size_eq_one_iff.mpr (by
        rw [UInt32.le_iff_toNat_le]
        exact Nat.le_of_lt_succ hc)
      have hbyte : Char.ofNat c.val.toUInt8.toNat = c := by
        have hsmall : c.val.toNat < 2 ^ 8 := hc.trans (by decide)
        rw [UInt32.toNat_toUInt8, Nat.mod_eq_of_lt hsmall]
        exact Char.ofNat_toNat c
      rw [String.utf8EncodeChar_eq_singleton hsize]
      simp only [List.map_cons, List.map_nil, List.singleton_append, hbyte, List.cons.injEq, true_and,
        ih]
      exact ⟨fun h => by simpa [IsAscii, hc] using h, fun h d hd => h d (List.mem_cons_of_mem c hd)⟩
    · refine iff_of_false (fun h => ?_) fun h => hc (h c List.mem_cons_self)
      have hlength := congrArg List.length h
      have hrest := length_le_length_encode cs
      have hsize : c.utf8Size ≠ 1 := fun hone => hc (by
        have hle := Char.utf8Size_eq_one_iff.mp hone
        rw [UInt32.le_iff_toNat_le] at hle
        exact Nat.lt_succ_of_le hle)
      have hpos := c.utf8Size_pos
      simp only [List.length_append, List.length_map, String.length_utf8EncodeChar,
        List.length_cons] at hlength
      omega

theorem percentDecode_urlEncode_iff (s : String) :
    percentDecode (urlEncode s) = s.toList ↔ IsAscii s.toList := by
  rw [percentDecode_urlEncode, ← encode_toList]
  exact bytes_as_chars_iff s.toList

example : percentDecode (urlEncode "é") = "Ã©".toList := by decide

end

/-! ## Parameters -/

def addPair (map : Table String) (pair : List Char) : Table String :=
  if pair = [] then map
  else
    let (key, value) := splitFirst '=' pair
    map.insert (String.ofList (percentDecode key)) (String.ofList (percentDecode (value.getD [])))

theorem parseQueryString_eq (qs : List Char) :
    parseQueryString qs = (qs.splitOn '&').foldl addPair ∅ := rfl

def pairKey (pair : List Char) : String := String.ofList (percentDecode (splitFirst '=' pair).1)

def pairValue (pair : List Char) : List Char := percentDecode ((splitFirst '=' pair).2.getD [])

section
variable {key : String} {map : Table String} {pair : List Char}

theorem get_addPair (hkey : key ≠ "") :
    (addPair map pair)[key]? =
      if pairKey pair = key then some (String.ofList (pairValue pair)) else map[key]? := by
  unfold addPair
  split
  next hempty =>
    subst hempty
    rw [if_neg (show pairKey [] ≠ key from hkey.symm)]
  next => exact OrderedTable.get_insert _ _ _ _

theorem get_foldl_addPair_of_ne (hkey : key ≠ "") {pairs : List (List Char)}
    (h : ∀ pair ∈ pairs, pairKey pair ≠ key) : (pairs.foldl addPair map)[key]? = map[key]? := by
  induction pairs generalizing map with
  | nil => rfl
  | cons pair pairs ih =>
    rw [List.foldl_cons, ih fun p hp => h p (List.mem_cons_of_mem pair hp), get_addPair hkey,
      if_neg (h pair List.mem_cons_self)]

theorem exists_pair_of_get (hkey : key ≠ "") {pairs : List (List Char)} {value : String}
    (h : (pairs.foldl addPair map)[key]? = some value) :
    map[key]? = some value ∨
      ∃ pair ∈ pairs, pairKey pair = key ∧ String.ofList (pairValue pair) = value := by
  induction pairs generalizing map with
  | nil => exact .inl h
  | cons pair pairs ih =>
    rcases ih h with hmap | ⟨p, hp, hsame⟩
    · rw [get_addPair hkey] at hmap
      split at hmap
      next hpair => exact .inr ⟨pair, List.mem_cons_self, hpair, Option.some.inj hmap⟩
      next => exact .inl hmap
    · exact .inr ⟨p, List.mem_cons_of_mem pair hp, hsame⟩

theorem pairKey_append (name : List Char) (h : '=' ∉ name) (value : List Char) :
    pairKey (name ++ '=' :: value) = String.ofList (percentDecode name) := by
  rw [pairKey, splitFirst_append h]

/-- The value of a parameter with a name is shorter than the parameter. -/
theorem length_pairValue (hkey : pairKey pair ≠ "") :
    pairValue pair = [] ∨ (pairValue pair).length + 2 ≤ pair.length := by
  rcases hsplit : splitFirst '=' pair with ⟨name, _ | value⟩
  · exact .inl (by rw [pairValue, hsplit]; rfl)
  · right
    have hpair := eq_append_of_splitFirst hsplit
    have hvalue := length_percentDecode_le value
    have hname : name ≠ [] := by
      rintro rfl
      rw [pairKey, hsplit] at hkey
      exact hkey rfl
    have hpos := List.length_pos_iff.mpr hname
    rw [pairValue, hsplit, hpair, List.length_append, List.length_cons]
    dsimp only [Option.getD_some]
    omega

end

/-- The pairs of a query that are put together with `&`. -/
theorem splitOn_pairs {first : List Char} {pairs : List (List Char)}
    (h : ∀ pair ∈ first :: pairs, '&' ∉ pair) :
    (first ++ pairs.flatMap fun pair => '&' :: pair).splitOn '&' = first :: pairs := by
  induction pairs generalizing first with
  | nil =>
    rw [List.flatMap_nil, List.append_nil]
    exact List.splitOn_eq_singleton (h first List.mem_cons_self)
  | cons pair pairs ih =>
    rw [List.flatMap_cons, List.cons_append,
      List.splitOn_append_cons_self_of_not_mem (h first List.mem_cons_self),
      ih fun p hp => h p (List.mem_cons_of_mem first hp)]

/-- The parameter `q` before others. -/
theorem get_query {value : List Char} (pairs : List (List Char)) (hvalue : '&' ∉ value)
    (hpairs : ∀ pair ∈ pairs, '&' ∉ pair ∧ pairKey pair ≠ "q") :
    (parseQueryString ("q=".toList ++ value ++ pairs.flatMap fun pair => '&' :: pair))["q"]? =
      some (String.ofList (percentDecode value)) := by
  have hsplit : ('q' :: '=' :: value ++ pairs.flatMap fun pair => '&' :: pair).splitOn '&' =
      ('q' :: '=' :: value) :: pairs := by
    refine splitOn_pairs fun pair hpair => ?_
    rcases List.mem_cons.mp hpair with rfl | hpair
    · simpa using hvalue
    · exact (hpairs pair hpair).1
  have hfirst : splitFirst '=' ('q' :: '=' :: value) = (['q'], some value) :=
    splitFirst_append (a := ['q']) (by decide) value
  change (parseQueryString ('q' :: '=' :: value ++ _))["q"]? = _
  rw [parseQueryString_eq, hsplit, List.foldl_cons,
    get_foldl_addPair_of_ne (by decide) fun pair hpair => (hpairs pair hpair).2,
    get_addPair (by decide), pairKey, pairValue, hfirst]
  exact if_pos rfl

/-! ## Requests for a search -/

section
variable {toLowercase : String → String} {port : UInt16}

theorem receivedQuery_eq (hlower : LowersAscii toLowercase) {query : List Char} (hspace : ' ' ∉ query)
    (hfeed : '\n' ∉ query) :
    receivedQuery toLowercase port ("/search?".toList ++ query) = (parseQueryString query)["q"]? := by
  have hsplit : splitFirst '?' ("/search?".toList ++ query) = ("/search".toList, some query) :=
    splitFirst_append (a := "/search".toList) (by decide) query
  have hvalid : validatePath (percentDecode
      (splitFirst '?' ("/search?".toList ++ query)).1) = .ok () := by
    rw [hsplit]
    rfl
  obtain ⟨headers, body, hparse⟩ := parse_get hlower port
    (show ' ' ∉ "/search?".toList ++ query by simp [hspace]) (by simp [hfeed])
    (List.prefix_refl _) hvalid
  rw [receivedQuery, fromUtf8Lossy_encode, requestText, hparse, hsplit]
  rfl

theorem cmdSearch_received_iff (hlower : LowersAscii toLowercase) (query : String)
    (schema : Option String) (limit : UInt32) :
    receivedQuery toLowercase port (cmdSearchPath query schema limit) = some query ↔
      IsAscii query.toList := by
  let pairs : List (List Char) :=
    schema.toList.map (fun s => "schema=".toList ++ urlEncode s) ++
      ["limit=".toList ++ (toString limit.toNat).toList]
  have hdigits : ∀ c ∈ [' ', '\n', '&'], c ∉ (toString limit.toNat).toList := by
    intro c hc hmem
    have hlow : ∀ c ∈ [' ', '\n', '&'], c.toNat < 48 := by simp
    have hdigit := JsonText.digit_of_mem_toString hmem
    exact absurd (hlow c hc) (by omega)
  have hpairs : ∀ pair ∈ pairs, (∀ c ∈ [' ', '\n', '&'], c ∉ pair) ∧ pairKey pair ≠ "q" := by
    intro pair hpair
    rcases List.mem_append.mp hpair with hschema | hlimit
    · obtain ⟨s, -, rfl⟩ := List.mem_map.mp hschema
      refine ⟨fun c hc hmem => ?_, ?_⟩
      · have hname : ∀ c ∈ [' ', '\n', '&'], c ∉ "schema=".toList := by simp
        exact (List.mem_append.mp hmem).elim (hname c hc) (not_mem_urlEncode s c hc)
      · have hkey := pairKey_append "schema".toList (by decide) (urlEncode s)
        exact ne_of_eq_of_ne hkey (by decide)
    · obtain rfl := List.mem_singleton.mp hlimit
      refine ⟨fun c hc hmem => ?_, ?_⟩
      · have hname : ∀ c ∈ [' ', '\n', '&'], c ∉ "limit=".toList := by simp
        exact (List.mem_append.mp hmem).elim (hname c hc) (hdigits c hc)
      · have hkey := pairKey_append "limit".toList (by decide)
          (toString limit.toNat).toList
        exact ne_of_eq_of_ne hkey (by decide)
  have hpath : cmdSearchPath query schema limit = "/search?".toList ++
      ("q=".toList ++ urlEncode query ++ pairs.flatMap fun pair => '&' :: pair) := by
    unfold cmdSearchPath pairs
    cases schema <;> simp
  have hclean : ∀ c ∈ [' ', '\n'], c ∉ "q=".toList ++ urlEncode query ++
      pairs.flatMap fun pair => '&' :: pair := by
    intro c hc hmem
    have hc' : c ∈ [' ', '\n', '&'] := List.mem_append_left ['&'] hc
    have hname : ∀ c ∈ [' ', '\n'], c ∉ "q=".toList ∧ c ≠ '&' := by simp
    rcases List.mem_append.mp hmem with hmem | hmem
    · exact (List.mem_append.mp hmem).elim (hname c hc).1 (not_mem_urlEncode query c hc')
    · obtain ⟨pair, hpair, hmem⟩ := List.mem_flatMap.mp hmem
      exact (List.mem_cons.mp hmem).elim (hname c hc).2 ((hpairs pair hpair).1 c hc')
  rw [hpath, receivedQuery_eq hlower (hclean _ (by simp)) (hclean _ (by simp)),
    get_query _ (not_mem_urlEncode query '&' (by simp))
      fun pair hpair => ⟨(hpairs pair hpair).1 '&' (by simp), (hpairs pair hpair).2⟩,
    Option.some.injEq, ← percentDecode_urlEncode_iff, ← String.toList_inj, String.toList_ofList]

/-- Every parameter of a query without a separator at its end is shorter than it. -/
theorem length_of_query_pair {query : String} {pair : List Char} (hkey : pairKey pair = "q")
    (hvalue : String.ofList (pairValue pair) = query) (hne : query ≠ "") :
    query.toList.length + 2 ≤ pair.length := by
  subst hvalue
  rw [String.toList_ofList]
  refine (length_pairValue (by rw [hkey]; decide)).resolve_left fun hempty => hne ?_
  rw [hempty]

/-- What `run_search` writes for a query. -/
def plusEncode (query : String) : List Char := query.toList.map plusForSpace

theorem mem_plusEncode {query : String} {c : Char} (hspace : c ≠ ' ') (hplus : c ≠ '+') :
    c ∈ plusEncode query ↔ c ∈ query.toList := by
  unfold plusEncode
  rw [List.mem_map]
  constructor
  · rintro ⟨d, hd, rfl⟩
    unfold plusForSpace at hplus ⊢
    split at hplus
    · exact absurd rfl hplus
    next hne => rwa [if_neg hne]
  · exact fun h => ⟨c, h, plusForSpace_eq_iff.mpr hspace⟩

theorem space_not_mem_plusEncode (query : String) : ' ' ∉ plusEncode query := by
  unfold plusEncode plusForSpace
  intro h
  obtain ⟨c, -, hc⟩ := List.mem_map.mp h
  split at hc
  · exact absurd hc (by decide)
  next hne => exact hne hc

theorem length_plusEncode (query : String) : (plusEncode query).length = query.toList.length :=
  List.length_map plusForSpace

/-- A query on one line: the path is the target of the request. -/
theorem runSearch_received_of_line (hlower : LowersAscii toLowercase) {query : String}
    (hfeed : '\n' ∉ query.toList) :
    receivedQuery toLowercase port
        ("/search?".toList ++ ("q=".toList ++ plusEncode query ++ '&' :: "limit=20".toList)) =
      (parseQueryString ("q=".toList ++ plusEncode query ++ '&' :: "limit=20".toList))["q"]? := by
  have hspace := space_not_mem_plusEncode query
  have hfeed' := (mem_plusEncode (c := '\n') (by decide) (by decide)).not.mpr hfeed
  refine receivedQuery_eq hlower (fun h => ?_) fun h => ?_
  · simp [hspace] at h
  · simp [hfeed'] at h

/-- A query with a line feed in it: what is received comes from the part before. -/
theorem runSearch_received_of_feed {query : String} (hfeed : '\n' ∈ query.toList) :
    receivedQuery toLowercase port
        ("/search?".toList ++ ("q=".toList ++ plusEncode query ++ '&' :: "limit=20".toList)) ≠
      some query := by
  intro hreceived
  unfold receivedQuery at hreceived
  rw [fromUtf8Lossy_encode, requestText] at hreceived
  split at hreceived
  case h_2 => cases hreceived
  case h_1 req hparse =>
  obtain ⟨hhead, -⟩ := parseHttpRequest_eq_ok_iff.mp hparse
  obtain ⟨target, rest, headerLines, htext, -, hfeedless, -, hget, -, -⟩ :=
    headOf_get toLowercase
      ("/search?".toList ++ ("q=".toList ++ plusEncode query ++ '&' :: "limit=20".toList) ++
        requestTail port)
  have hquery : req.query = parseQueryString ((splitFirst '?' target).2.getD []) := by
    have hsame := Option.some.inj (hhead.symm.trans hget)
    simp only [Prod.mk.injEq] at hsame
    exact hsame.2.2.1
  rw [hquery] at hreceived
  obtain ⟨before, after, hsplit, -⟩ := List.eq_append_cons_of_mem hfeed
  have hshort : target.length ≤ 10 + before.length := by
    have hbegins : target <+: ("/search?q=".toList ++ before.map plusForSpace) ++ '\n' ::
        (after.map plusForSpace ++ '&' :: "limit=20".toList ++ requestTail port) := by
      refine ⟨rest, htext.symm.trans ?_⟩
      rw [plusEncode, hsplit]
      simp [plusForSpace]
    have hlength := (prefix_of_prefix_append hfeedless hbegins).length_le
    have hname : "/search?q=".toList.length = 10 := rfl
    rw [List.length_append, List.length_map] at hlength
    omega
  rcases hmark : splitFirst '?' target with ⟨front, _ | qs⟩
  · rw [hmark] at hreceived
    have hnone : (parseQueryString [])["q"]? = none := by simp [parseQueryString]
    exact absurd (hnone.symm.trans hreceived) (by simp)
  · rw [hmark, parseQueryString_eq] at hreceived
    have htarget := eq_append_of_splitFirst hmark
    have hfront : "/search".toList <+: front := by
      refine prefix_of_prefix_append (b := qs ++ rest) (show '?' ∉ "/search".toList by decide) ?_
      have hwhole : front ++ '?' :: (qs ++ rest) = target ++ rest := by
        rw [htarget, List.append_assoc, List.cons_append]
      rw [hwhole, ← htext]
      exact ⟨'?' :: ("q=".toList ++ plusEncode query ++ '&' :: "limit=20".toList ++
        requestTail port), by simp⟩
    have hne : query ≠ "" := by
      rintro rfl
      exact absurd hfeed List.not_mem_nil
    rcases exists_pair_of_get (by decide) hreceived with hnone | ⟨pair, hpair, hkey, hvalue⟩
    · simp at hnone
    · have hlong := length_of_query_pair hkey hvalue hne
      have hqs := (infix_of_mem_splitOn hpair).length_le
      have hlength := congrArg List.length htarget
      have hquery' := congrArg List.length hsplit
      have hpath := hfront.length_le
      have hname : "/search".toList.length = 7 := rfl
      simp only [List.length_append, List.length_cons, Option.getD_some] at hlength hquery' hqs
      omega

/-- A query with an `&` in it: every parameter is shorter than the query with its name. -/
theorem runSearch_received_of_and {query : String} (hand : '&' ∈ query.toList) :
    (parseQueryString ("q=".toList ++ plusEncode query ++ '&' :: "limit=20".toList))["q"]? ≠
      some query := by
  intro hget
  have hand' := (mem_plusEncode (c := '&') (by decide) (by decide)).mpr hand
  rw [parseQueryString_eq, List.splitOn_append_cons_self] at hget
  rcases exists_pair_of_get (by decide) hget with hnone | ⟨pair, hpair, hkey, hvalue⟩
  · simp at hnone
  · have hne : query ≠ "" := by
      rintro rfl
      exact absurd hand List.not_mem_nil
    have hlong := length_of_query_pair hkey hvalue hne
    rcases List.mem_append.mp hpair with hpair | hpair
    · have hshort : pair.length < ("q=".toList ++ plusEncode query).length := by
        refine lt_of_le_of_ne (infix_of_mem_splitOn hpair).length_le fun hsame => ?_
        have hwhole := (infix_of_mem_splitOn hpair).eq_of_length hsame
        exact not_mem_of_mem_splitOn hpair (hwhole ▸ List.mem_append_right _ hand')
      rw [List.length_append, length_plusEncode] at hshort
      have hname : "q=".toList.length = 2 := rfl
      omega
    · rw [List.splitOn_eq_singleton (by simp), List.mem_singleton] at hpair
      have hlimit := pairKey_append "limit".toList (by decide) "20".toList
      rw [hpair] at hkey
      exact absurd (hlimit.symm.trans hkey) (by decide)

theorem runSearch_received_iff (hlower : LowersAscii toLowercase) {query : String} {path : List Char}
    (hpath : runSearchPath query = some path) :
    receivedQuery toLowercase port path = some query ↔
      '&' ∉ query.toList ∧ '\n' ∉ query.toList ∧ ReadsAsWritten query.toList := by
  unfold runSearchPath at hpath
  split at hpath
  · cases hpath
  next hne =>
    have hshape : path = "/search?".toList ++
        ("q=".toList ++ plusEncode query ++ '&' :: "limit=20".toList) := by
      rw [← Option.some.inj hpath]
      simp [plusEncode]
    subst hshape
    by_cases hfeed : '\n' ∈ query.toList
    · exact iff_of_false (runSearch_received_of_feed hfeed) fun h => h.2.1 hfeed
    rw [runSearch_received_of_line hlower hfeed]
    by_cases hand : '&' ∈ query.toList
    · exact iff_of_false (runSearch_received_of_and hand) fun h => h.1 hand
    have hlimit := pairKey_append "limit".toList (by decide) "20".toList
    have hget := get_query ["limit=20".toList]
      ((mem_plusEncode (by decide) (by decide)).not.mpr hand)
      (fun pair hpair => by
        obtain rfl := List.mem_singleton.mp hpair
        exact ⟨by simp, ne_of_eq_of_ne hlimit (by decide)⟩)
    rw [List.flatMap_singleton] at hget
    rw [hget, Option.some.injEq, ← String.toList_inj, String.toList_ofList, plusEncode,
      percentDecode_plusForSpace_iff]
    simp [hand, hfeed]

end

/-- The parameter `q` that is parsed from the request of `cmd_search` is the query exactly if the query
is ASCII; from the request of `run_search`, if it has no `&` and no line feed and reads as it is
written. -/
theorem query_received_iff (toLowercase : String → String) (hlower : LowersAscii toLowercase)
    (port : UInt16) (query : String) :
    (∀ schema limit, receivedQuery toLowercase port (cmdSearchPath query schema limit) = some query ↔
      IsAscii query.toList) ∧
    ∀ path, runSearchPath query = some path →
      (receivedQuery toLowercase port path = some query ↔
        '&' ∉ query.toList ∧ '\n' ∉ query.toList ∧ ReadsAsWritten query.toList) :=
  ⟨cmdSearch_received_iff hlower query, fun _ hpath => runSearch_received_iff hlower hpath⟩

theorem query_received_iff_rust :
    receivedQuery Query.asciiLowercase 7743 (cmdSearchPath "c++" none 20) = some "c++" ∧
      receivedQuery Query.asciiLowercase 7743 "/search?q=a+b&limit=20".toList = some "a b" :=
  ⟨((query_received_iff Query.asciiLowercase lowersAscii_asciiLowercase 7743 "c++").1 none 20).mpr
      (by unfold IsAscii; simp),
    ((query_received_iff Query.asciiLowercase lowersAscii_asciiLowercase 7743 "a b").2 _ rfl).mpr
      (by simp [ReadsAsWritten])⟩

/-- A letter that is not ASCII is two bytes, and two letters for the decoder; the panel loses a sign. -/
theorem searched_text_changes :
    (¬ ∀ (toLowercase : String → String), LowersAscii toLowercase → ∀ (port : UInt16) (query : String)
      (schema : Option String) (limit : UInt32),
      receivedQuery toLowercase port (cmdSearchPath query schema limit) = some query) ∧
    ¬ ∀ (toLowercase : String → String), LowersAscii toLowercase → ∀ (port : UInt16) (query : String)
      (path : List Char), runSearchPath query = some path →
      receivedQuery toLowercase port path = some query := by
  constructor
  · intro h
    have hsame := h Query.asciiLowercase lowersAscii_asciiLowercase 7743 "é" none 20
    rw [cmdSearch_received_iff lowersAscii_asciiLowercase] at hsame
    exact absurd (hsame 'é' (by decide)) (by decide)
  · intro h
    have hsame := h Query.asciiLowercase lowersAscii_asciiLowercase 7743 "c++" _ rfl
    rw [runSearch_received_iff lowersAscii_asciiLowercase rfl] at hsame
    simp [ReadsAsWritten] at hsame

end QueryTransport

end DSearch

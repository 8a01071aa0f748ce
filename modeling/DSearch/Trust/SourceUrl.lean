import DSearch.Foundations.SeparatedText
import DSearch.Trust.Sign

/-! # Source hashes and record ids: the rest of `trust/sign.rs`

`blake3` is not part of the repository and is a parameter: the hexadecimal digest of a byte string.
So is `str::to_lowercase`, which maps characters by the Unicode tables. -/

namespace DSearch.Sign
set_option autoImplicit false

def computeRecordId (blake3 : Bytes → String) (sourceUrl sourceHash schema tags body createdAt : Bytes) :
    String :=
  blake3 (canonicalEncodeFields [sourceUrl, sourceHash, schema, tags, body, createdAt])

def TRACKING_PARAMS : List String :=
  ["utm_source", "utm_medium", "utm_campaign", "utm_term", "utm_content", "utm_id", "fbclid", "gclid",
    "gclsrc", "dclid", "msclkid", "mc_eid", "_ga", "_gl", "_hsenc", "_hsmi", "hsCtaTracking", "ver",
    "ref", "referrer", "source", "s_cid", "elqTrackId", "elqTrack", "assetType", "assetId",
    "recipient_id", "campaign_id", "site_id"]

/-- The characters that `str::trim` removes: Unicode White_Space. -/
def isWhiteSpace (c : Char) : Bool :=
  let n := c.toNat
  (0x09 ≤ n && n ≤ 0x0d) || n = 0x20 || n = 0x85 || n = 0xa0 || n = 0x1680 ||
    (0x2000 ≤ n && n ≤ 0x200a) || n = 0x2028 || n = 0x2029 || n = 0x202f || n = 0x205f || n = 0x3000

def trim (cs : List Char) : List Char :=
  ((cs.dropWhile isWhiteSpace).reverse.dropWhile isWhiteSpace).reverse

/-- The text before the first occurrence of `pattern`, and the text after it. -/
def breakOn (pattern : List Char) : List Char → Option (List Char × List Char)
  | [] => if pattern.isEmpty then some ([], []) else none
  | c :: cs =>
    if pattern.isPrefixOf (c :: cs) then some ([], (c :: cs).drop pattern.length)
    else (breakOn pattern cs).map fun parts => (c :: parts.1, parts.2)

theorem breakOn_nil {pattern a b : List Char} :
    breakOn pattern [] = some (a, b) ↔ pattern = [] ∧ a = [] ∧ b = [] := by
  rw [breakOn]
  split <;> simp_all

/-- The pattern stands at the start of the text, or its first occurrence is in the rest. -/
theorem breakOn_cons {pattern cs a b : List Char} {c : Char} :
    breakOn pattern (c :: cs) = some (a, b) ↔
      a = [] ∧ pattern ++ b = c :: cs ∨
      ¬ pattern <+: c :: cs ∧ ∃ a', a = c :: a' ∧ breakOn pattern cs = some (a', b) := by
  rw [breakOn]
  split
  case isTrue h =>
    obtain ⟨rest, hrest⟩ := List.isPrefixOf_iff_prefix.mp h
    have hstart : pattern <+: c :: cs := ⟨rest, hrest⟩
    rw [← hrest, List.drop_left, hrest]
    simp only [hstart, not_true_eq_false, false_and, or_false, Option.some.injEq, Prod.mk.injEq]
    rw [← hrest, List.append_cancel_left_eq, eq_comm, @eq_comm _ rest]
  case isFalse h =>
    have hstart : ¬ pattern <+: c :: cs := fun hp => h (List.isPrefixOf_iff_prefix.mpr hp)
    constructor
    · intro hsome
      obtain ⟨⟨a', b'⟩, hrest, hparts⟩ := Option.map_eq_some_iff.mp hsome
      obtain ⟨rfl, rfl⟩ := Prod.mk.inj hparts
      exact .inr ⟨hstart, a', rfl, hrest⟩
    · rintro (⟨-, hwhole⟩ | ⟨-, a', rfl, hrest⟩)
      · exact absurd ⟨b, hwhole⟩ hstart
      · rw [hrest]
        rfl

theorem eq_of_breakOn {pattern cs a b : List Char} (h : breakOn pattern cs = some (a, b)) :
    cs = a ++ pattern ++ b := by
  induction cs generalizing a with
  | nil =>
    obtain ⟨rfl, rfl, rfl⟩ := breakOn_nil.mp h
    rfl
  | cons c cs ih =>
    obtain ⟨rfl, hwhole⟩ | ⟨-, a', rfl, hrest⟩ := breakOn_cons.mp h
    · exact hwhole.symm
    · rw [ih hrest]
      rfl

/-- What follows does not move the first occurrence. -/
theorem breakOn_append {pattern cs a b : List Char} (h : breakOn pattern cs = some (a, b))
    (rest : List Char) : breakOn pattern (cs ++ rest) = some (a, b ++ rest) := by
  induction cs generalizing a with
  | nil =>
    obtain ⟨rfl, rfl, rfl⟩ := breakOn_nil.mp h
    cases rest <;> rfl
  | cons c cs ih =>
    rw [List.cons_append, breakOn_cons]
    obtain ⟨rfl, hwhole⟩ | ⟨hstart, a', rfl, hrest⟩ := breakOn_cons.mp h
    · exact .inl ⟨rfl, by rw [← List.append_assoc, hwhole, List.cons_append]⟩
    · refine .inr ⟨fun hlonger => hstart ?_, a', rfl, ih hrest⟩
      -- the pattern occurs further on, so it is not longer than the text
      have hlength := congrArg List.length (eq_of_breakOn hrest)
      refine List.prefix_of_prefix_length_le hlonger (List.prefix_append (c :: cs) rest) ?_
      simp only [List.length_append, List.length_cons] at hlength ⊢
      omega

theorem breakOn_ne_none {pattern cs : List Char} (h : pattern <:+: cs) :
    breakOn pattern cs ≠ none := by
  induction cs with
  | nil =>
    obtain rfl := List.infix_nil.mp h
    exact Option.some_ne_none _
  | cons c cs ih =>
    rw [breakOn]
    split
    · exact Option.some_ne_none _
    case isFalse hstart =>
      obtain hp | hp := List.infix_cons_iff.mp h
      · exact absurd (List.isPrefixOf_iff_prefix.mpr hp) hstart
      · rw [Ne, Option.map_eq_none_iff]
        exact ih hp

theorem breakOn_eq_none_iff {pattern cs : List Char} :
    breakOn pattern cs = none ↔ ¬ pattern <:+: cs := by
  constructor
  · exact fun hnone h => breakOn_ne_none h hnone
  · intro h
    cases hparts : breakOn pattern cs with
    | none => rfl
    | some parts => exact absurd ⟨parts.1, parts.2, (eq_of_breakOn hparts).symm⟩ h

def breakAt (c : Char) (cs : List Char) : List Char × List Char :=
  (cs.takeWhile (· ≠ c), (cs.dropWhile (· ≠ c)).drop 1)

/-- The query parameters that are kept, in the order of the query. -/
def queryParams (toLowercase : String → String) (query : List Char) : List (String × String) :=
  (query.splitOn '&').filterMap fun pair =>
    if pair.isEmpty then none
    else
      let (key, value) := breakAt '=' pair
      if toLowercase (String.ofList key) ∈ TRACKING_PARAMS then none
      else some (String.ofList key, String.ofList value)

def normalizeSourceUrl (toLowercase : String → String) (url : String) : String :=
  let url := (breakAt '#' (trim url.toList)).1
  match breakOn "://".toList url with
  | none => String.ofList url
  | some (scheme, rest) =>
    let scheme := toLowercase (String.ofList (scheme ++ "://".toList))
    let host := toLowercase (String.ofList (rest.takeWhile (· ≠ '/')))
    let pathAndQuery := match rest.dropWhile (· ≠ '/') with
      | [] => ['/']
      | cs => cs
    let (path, query) := breakAt '?' pathAndQuery
    let pathStripped := if path.length > 1 && path.getLast? = some '/' then path.dropLast else path
    let params := (queryParams toLowercase query).insertionSort fun a b => a.1 ≤ b.1
    let shown := params.map fun (k, v) => if v = "" then k else k ++ "=" ++ v
    scheme ++ host ++ String.ofList pathStripped ++
      (if params.isEmpty then "" else "?" ++ SeparatedText.join '&' shown)

example : normalizeSourceUrl id "https://h/a/?b=2&utm_id=1&a=1#top" = "https://h/a?a=1&b=2" := by
  decide +kernel

def computeSourceHash (blake3 : Bytes → String) (toLowercase : String → String) (sourceUrl : String) :
    String :=
  blake3 (asBytes (normalizeSourceUrl toLowercase sourceUrl))

end DSearch.Sign

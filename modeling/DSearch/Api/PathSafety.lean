import DSearch.Api.Request
import DSearch.Foundations.LetterMaps
import DSearch.Foundations.Utf8Text

/-! # The path of a request

`validate_path` looks at the decoded path, and the handlers use the path as it came. Decoding replaces
a `%` with a number and a `+`, none of which has a slash, a dot or a NUL in it, so whatever the check
finds in the path as it came it finds in the decoded one. -/

namespace DSearch.Request
set_option autoImplicit false
open RustText Sign Utf8Text LetterMaps

/-- The characters that the check is about. -/
def PathMark (c : Char) : Prop := c = '/' ∨ c = '.' ∨ c = '\x00'

theorem not_pathMark_percent : ¬ PathMark '%' := by
  unfold PathMark
  decide

theorem not_pathMark_plus : ¬ PathMark '+' := by
  unfold PathMark
  decide

theorem validatePath_eq_ok_iff {path : List Char} :
    validatePath path = .ok () ↔ '\x00' ∉ path ∧ "..".toList ∉ path.splitOn '/' := by
  unfold validatePath
  by_cases hnul : '\x00' ∈ path
  · simp [hnul]
  · simp [hnul]

/-- A number has digits and a `+` only. -/
theorem digit_of_fromStrRadix16 {bytes : Bytes} {value : UInt8} (h : fromStrRadix16 bytes = some value)
    {b : UInt8} (hb : b ∈ bytes) : b = 43 ∨ ∃ digit, Sign.digitValue b = some digit := by
  match bytes, h with
  | [a], h =>
    obtain ⟨digit, hdigit, -⟩ := Option.map_eq_some_iff.mp h
    obtain rfl := List.mem_singleton.mp hb
    exact .inr ⟨digit, hdigit⟩
  | [a, b'], h =>
    rw [fromStrRadix16] at h
    split at h
    · next hplus =>
      obtain ⟨digit, hdigit, -⟩ := Option.map_eq_some_iff.mp h
      rcases List.mem_pair.mp hb with rfl | rfl
      · exact .inl hplus
      · exact .inr ⟨digit, hdigit⟩
    · obtain ⟨high, hhigh, h⟩ := Option.bind_eq_some_iff.mp h
      obtain ⟨low, hlow, -⟩ := Option.bind_eq_some_iff.mp h
      rcases List.mem_pair.mp hb with rfl | rfl
      · exact .inr ⟨high, hhigh⟩
      · exact .inr ⟨low, hlow⟩

theorem not_pathMark_of_number {hex : List Char} {value : UInt8}
    (h : fromStrRadix16 (asBytes (String.ofList hex)) = some value) {c : Char} (hc : c ∈ hex) :
    ¬ PathMark c := by
  have hbyte : ∀ b ∈ String.utf8EncodeChar c, b = 43 ∨ ∃ digit, Sign.digitValue b = some digit := by
    intro b hb
    refine digit_of_fromStrRadix16 h ?_
    rw [← encode_toList, String.toList_ofList]
    exact List.mem_flatMap.mpr ⟨c, hc, hb⟩
  have hmark : ∀ b : UInt8, b ≠ 43 → Sign.digitValue b = none →
      ¬ (b = 43 ∨ ∃ digit, Sign.digitValue b = some digit) := by
    rintro b hplus hnone (rfl | ⟨digit, hdigit⟩)
    · exact hplus rfl
    · rw [hnone] at hdigit
      cases hdigit
  intro hc
  rcases hc with rfl | rfl | rfl
  · exact hmark 47 (by decide) (by decide) (hbyte 47 (by decide))
  · exact hmark 46 (by decide) (by decide) (hbyte 46 (by decide))
  · exact hmark 0 (by decide) (by decide) (hbyte 0 (by decide))

theorem edits_keep (part : List Char) {cs ds : List Char} (h : Edits PathMark cs ds) :
    Edits PathMark (part ++ cs) (part ++ ds) := by
  induction part with
  | nil => exact h
  | cons c part ih => exact .keep c ih

/-- A `%` and what stands after it are one character, or stay as they are. -/
theorem edits_decodeHex (hex : List Char) {cs ds : List Char} (h : Edits PathMark cs ds) :
    Edits PathMark ('%' :: hex ++ cs) (decodeHex hex ++ ds) := by
  unfold decodeHex
  split
  · next byte hbyte =>
    refine .part (List.cons_ne_nil _ _) (fun c hc => ?_) h
    rcases List.mem_cons.mp hc with rfl | hc
    · exact not_pathMark_percent
    · exact not_pathMark_of_number hbyte hc
  · exact edits_keep ('%' :: hex) h

theorem edits_percentDecode (cs : List Char) : Edits PathMark cs (percentDecode cs) := by
  induction cs using decode_induction with
  | nil => exact .nil
  | percent a b cs ih =>
    rw [percentDecode_percent]
    exact edits_decodeHex [a, b] ih
  | percentOne a =>
    have hone := edits_decodeHex [a] Edits.nil
    rwa [List.append_nil, List.append_nil] at hone
  | percentNone =>
    have hnone := edits_decodeHex [] Edits.nil
    rwa [List.append_nil, List.append_nil] at hnone
  | other c cs hpercent ih =>
    by_cases hplus : c = '+'
    · subst hplus
      rw [percentDecode_plus]
      have hspace : Edits PathMark (['+'] ++ cs) ([' '] ++ percentDecode cs) := by
        refine .part (List.cons_ne_nil _ _) (fun c hc => ?_) ih
        rw [List.mem_singleton.mp hc]
        exact not_pathMark_plus
      exact hspace
    · rw [percentDecode_cons hpercent hplus]
      exact .keep c ih

/-- A path whose decoded form passes the check passes it as it is. -/
theorem validatePath_of_decoded {path : List Char} (h : validatePath (percentDecode path) = .ok ()) :
    validatePath path = .ok () := by
  obtain ⟨hnul, hdots⟩ := validatePath_eq_ok_iff.mp h
  have hedits := edits_percentDecode path
  refine validatePath_eq_ok_iff.mpr ⟨fun hmem => hnul (hedits.mem (.inr (.inr rfl)) hmem), ?_⟩
  intro hmem
  refine hdots (hedits.mem_splitOn (.inl rfl) (fun d hd => ?_) hmem (by decide))
  exact .inr (.inl (by simpa using hd))

theorem parsed_path_safe {toLowercase : String → String} {raw : List Char} {req : HttpRequest}
    (h : parseHttpRequest toLowercase raw = .ok req) :
    ∀ path ∈ [req.path.toList, percentDecode req.path.toList],
      '\x00' ∉ path ∧ "..".toList ∉ path.splitOn '/' := by
  obtain ⟨-, hvalid, -⟩ := parseHttpRequest_eq_ok_iff.mp h
  intro path hpath
  rcases List.mem_pair.mp hpath with rfl | rfl
  · exact validatePath_eq_ok_iff.mp (validatePath_of_decoded hvalid)
  · exact validatePath_eq_ok_iff.mp hvalid

theorem parsed_path_safe_encodedDot :
    '\x00' ∉ percentDecode "/a/%2e/b+%2".toList ∧
      "..".toList ∉ (percentDecode "/a/%2e/b+%2".toList).splitOn '/' := by
  have hparsed : parseHttpRequest id "GET /a/%2e/b+%2?q=.. HTTP/1.1\r\n\r\n".toList =
      .ok ⟨"GET", "/a/%2e/b+%2", parseQueryString "q=..".toList, ∅, ""⟩ := by
    refine parseHttpRequest_eq_ok_iff.mpr ⟨rfl, ?_, ?_, ?_, rfl⟩
    · decide +kernel
    · decide +kernel
    · decide +kernel
  exact parsed_path_safe hparsed _ (List.mem_cons_of_mem _ List.mem_cons_self)

end DSearch.Request

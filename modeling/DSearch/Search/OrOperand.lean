import DSearch.Search.OrChains
import DSearch.Search.Tokens

/-! # The token after `OR`

`parse_query` pushes the token after `OR` as it stands: it is not put in lower case, and the quotes of a
phrase stay on it. The matcher looks for it in a text of small letters. -/

namespace DSearch.Query
set_option autoImplicit false
open RustText Sign SeparatedText

/-- What is assumed of `str::to_lowercase` besides: what stands in a text in lower case is in lower
case, and the only ASCII characters that are made are small letters. -/
structure LowercaseText (toLowercase : String → String) : Prop extends LowercaseLaws toLowercase where
  part : ∀ s u : String, u.toList <:+: (toLowercase s).toList → toLowercase u = u
  ascii : ∀ s, ∀ c ∈ (toLowercase s).toList, c.toNat < 128 → c.isLower = false → c ∈ s.toList

section
variable {toLowercase : String → String}

theorem LowercaseText.idem (hlaws : LowercaseText toLowercase) (s : String) :
    toLowercase (toLowercase s) = toLowercase s :=
  hlaws.part s (toLowercase s) (List.infix_refl _)

/-! ## The three queries -/

theorem parseQuery_item {item : Item} (h : item.WellFormed) :
    parseQuery toLowercase item.token = item.insert toLowercase .default := by
  rw [parseQuery, h.tokenize, parseTokens_cons _ fun hor => h.ne_or hor.1, parseTokens, h.insertToken]

theorem matchesQuery_word (hlaws : LowercaseText toLowercase) {w : String} (hw : BareWord w)
    (record : ContentRecord) : matchesQuery toLowercase record (parseQuery toLowercase w) =
      contains (buildSearchableText toLowercase record) (toLowercase w) := by
  have hitem : (Item.word w).WellFormed := hw
  rw [show w = (Item.word w).token from rfl, parseQuery_item hitem]
  refine (matchesQuery_withTerms record [toLowercase w]).trans ?_
  rw [orGroups_eq, List.foldl_cons, groupStep, hlaws.toLowercaseLaws.strippedTerm]
  simp [closeGroup]
  rfl

theorem matchesQuery_phrase {text : String} (h : '"' ∉ text.toList) (record : ContentRecord) :
    matchesQuery toLowercase record (parseQuery toLowercase (Item.phrase text).token) =
      contains (buildSearchableText toLowercase record) (toLowercase text) := by
  have hitem : (Item.phrase text).WellFormed := h
  rw [parseQuery_item hitem]
  simp [matchesQuery, Item.insert, ParsedQuery.default, orGroups]

theorem unbroken_or : Unbroken "OR" := unbroken_of (by decide) (by decide)

/-- The operand is looked for as it stands. -/
theorem matchesQuery_or {w : String} (hw : BareWord w) {item : Item} (hitem : item.WellFormed)
    (record : ContentRecord) :
    matchesQuery toLowercase record (parseQuery toLowercase (w ++ " OR " ++ item.token)) =
      (contains (buildSearchableText toLowercase record) (toLowercase w) ||
        contains (buildSearchableText toLowercase record) item.token) := by
  have hword : (Item.word w).WellFormed := hw
  have hinsert : insertToken toLowercase .default w = (Item.word w).insert toLowercase .default :=
    hword.insertToken toLowercase .default
  have htokens : tokenize (w ++ " OR " ++ item.token) = [w, "OR", item.token] := by
    have hbalanced : QuotesBalanced (w ++ " " ++ "OR") := by
      have hcount : w.toList.count '"' = 0 := List.count_eq_zero_of_not_mem hw.noQuote
      simp [QuotesBalanced, hcount]
    have hfirst : QuotesBalanced w := hword.balanced
    rw [show w ++ " OR " ++ item.token = w ++ " " ++ "OR" ++ " " ++ item.token by
      simp [← String.toList_inj], tokenize_append_space hbalanced, tokenize_append_space hfirst,
      hw.toUnbroken.tokenize, unbroken_or.tokenize, hitem.tokenize]
    rfl
  have hparsed : parseQuery toLowercase (w ++ " OR " ++ item.token) =
      withTerms ["OR:" ++ toLowercase w, "OR:" ++ item.token] := by
    rw [parseQuery, htokens, parseTokens_cons _ (fun hor => hw.notOr hor.1),
      hinsert, parseTokens_or _ ⟨rfl, by simp [Item.insert, ParsedQuery.default]⟩]
    rfl
  rw [hparsed, matchesQuery_withTerms, orGroups_eq]
  simp only [List.foldl_cons, List.foldl_nil, groupStep, strippedTerm_marked]
  simp [closeGroup]

/-! ## When an operand means what it means elsewhere -/

theorem contains_operand (hlaws : LowercaseText toLowercase) {item : Item} {text s : String}
    (hkind : item = .word text ∨ item = .phrase text)
    (h : contains (toLowercase s) item.token = true) :
    contains (toLowercase s) (toLowercase text) = true ∧ toLowercase text = text := by
  have hinside : PartOf item.token (toLowercase s) := contains_iff.mp h
  have htext : PartOf text item.token := by
    rcases hkind with rfl | rfl
    · exact List.infix_refl _
    · exact ⟨['"'], ['"'], by simp [Item.token]⟩
  have hpart : PartOf text (toLowercase s) := htext.trans hinside
  have hlower : toLowercase text = text := hlaws.part s text hpart
  rw [hlower]
  exact ⟨contains_iff.mpr hpart, rfl⟩

/-- A record with nothing but the operand in lower case. -/
theorem text_operandRecord (hlaws : LowercaseText toLowercase) (text : String) :
    buildSearchableText toLowercase (wordsRecord [toLowercase text]) =
      "   " ++ (toLowercase text ++ " ") := by
  rw [text_wordsRecord hlaws.toLowercaseLaws]
  · simp
  · intro s hs
    rw [List.mem_singleton.mp hs]
    exact hlaws.idem text

theorem partOf_operandRecord (hlaws : LowercaseText toLowercase) {w : String} (hw : BareWord w)
    (hne : toLowercase w ≠ "") {text : String}
    (h : PartOf (toLowercase w) (buildSearchableText toLowercase (wordsRecord [toLowercase text]))) :
    PartOf (toLowercase w) (toLowercase text) := by
  have hspace : ' ' ∉ (toLowercase w).toList := by
    intro hmem
    have hwhite := hw.noSpace ' ' (hlaws.ascii w ' ' hmem (by decide) (by decide))
    exact absurd hwhite (by decide)
  have hlower : ∀ s ∈ [toLowercase text], toLowercase s = s := by
    intro s hs
    rw [List.mem_singleton.mp hs]
    exact hlaws.idem text
  obtain ⟨s, hs, hpart⟩ := (partOf_wordsRecord hlaws.toLowercaseLaws hlower hne hspace).mp h
  rwa [List.mem_singleton.mp hs] at hpart

/-- The operand is found in that record only if it is a word in lower case. -/
theorem word_of_operandRecord (hlaws : LowercaseText toLowercase) {item : Item} {text : String}
    (hkind : item = .word text ∨ item = .phrase text) (hitem : item.WellFormed)
    (h : contains (buildSearchableText toLowercase (wordsRecord [toLowercase text])) item.token = true) :
    item = .word text ∧ toLowercase text = text := by
  have hsmall := (contains_operand hlaws hkind h).2
  rcases hkind with rfl | rfl
  · exact ⟨rfl, hsmall⟩
  · -- the quotes of the phrase are not in the text
    have hquote : '"' ∈ ("   " ++ (toLowercase text ++ " ")).toList := by
      rw [← text_operandRecord hlaws]
      exact (contains_iff.mp h).subset (by simp [Item.token])
    rw [hsmall] at hquote
    exact absurd (by simpa using hquote) hitem

/-- A word after `OR` in lower case is found as it is elsewhere. Any other operand is not found, so its
records are accepted only for the word before it, if that stands in the operand. -/
theorem or_operand_iff (hlaws : LowercaseText toLowercase) {w text : String} (hw : BareWord w)
    {item : Item} (hkind : item = .word text ∨ item = .phrase text) (hitem : item.WellFormed) :
    (∀ record, matchesQuery toLowercase record
        (parseQuery toLowercase (w ++ " OR " ++ item.token)) = true ↔
      matchesQuery toLowercase record (parseQuery toLowercase w) = true ∨
        matchesQuery toLowercase record (parseQuery toLowercase item.token) = true) ↔
      (item = .word text ∧ toLowercase text = text) ∨
        PartOf (toLowercase w) (toLowercase text) := by
  have helsewhere : ∀ record, matchesQuery toLowercase record
      (parseQuery toLowercase item.token) =
        contains (buildSearchableText toLowercase record) (toLowercase text) := by
    intro record
    rcases hkind with rfl | rfl
    · exact matchesQuery_word hlaws hitem record
    · exact matchesQuery_phrase hitem record
  simp only [matchesQuery_or hw hitem, matchesQuery_word hlaws hw, helsewhere, Bool.or_eq_true]
  constructor
  · intro hsame
    by_contra hcond
    obtain ⟨hword, hpart⟩ := not_or.mp hcond
    have hne : toLowercase w ≠ "" := by
      intro hempty
      rw [hempty] at hpart
      exact hpart (List.nil_infix)
    have hfound : PartOf (toLowercase text)
        (buildSearchableText toLowercase (wordsRecord [toLowercase text])) := by
      rw [text_operandRecord hlaws]
      exact ⟨"   ".toList, " ".toList, by simp⟩
    rcases (hsame _).mpr (.inr (contains_iff.mpr hfound)) with hfirst | hoperand
    · exact hpart (partOf_operandRecord hlaws hw hne (contains_iff.mp hfirst))
    · exact hword (word_of_operandRecord hlaws hkind hitem hoperand)
  · rintro (⟨rfl, hlower⟩ | hpart) record
    · rw [hlower]
      rfl
    · constructor
      · exact Or.imp_right fun h => (contains_operand hlaws hkind h).1
      · rintro (h | h)
        · exact .inl h
        · exact .inl (contains_iff.mpr (hpart.trans (contains_iff.mp h)))

end

/-! ## A lower case -/

theorem lowercaseText_ascii : LowercaseText asciiLowercase where
  toLowercaseLaws := lowercaseLaws_ascii
  part s u h := by
    have hfixed : ∀ c ∈ u.toList, c.toLower = c := by
      intro c hc
      have hmem : c ∈ s.toList.map Char.toLower := by simpa [asciiLowercase] using h.subset hc
      obtain ⟨d, -, rfl⟩ := List.mem_map.mp hmem
      exact Char.toLower_toLower_eq_toLower d
    rw [asciiLowercase, List.map_congr_left hfixed, List.map_id', String.ofList_toList]
  ascii s c hc _ hlower := by
    rw [asciiLowercase, String.toList_ofList] at hc
    obtain ⟨d, hd, rfl⟩ := List.mem_map.mp hc
    have halpha : d.isAlpha = false := by rwa [Char.isLower_toLower_eq_isAlpha] at hlower
    have hupper : d.isUpper = false := (Bool.or_eq_false_iff.mp halpha).1
    rwa [Char.toLower_eq_of_not_isUpper (by simp [hupper])]

theorem or_operand_iff_rust :
    (∀ record, matchesQuery asciiLowercase record
        (parseQuery asciiLowercase ("go" ++ " OR " ++ (Item.phrase "rust lang").token)) = true ↔
      matchesQuery asciiLowercase record (parseQuery asciiLowercase "go") = true ∨
        matchesQuery asciiLowercase record
          (parseQuery asciiLowercase (Item.phrase "rust lang").token) = true) ↔
      (Item.phrase "rust lang" = .word "rust lang" ∧ asciiLowercase "rust lang" = "rust lang") ∨
        PartOf (asciiLowercase "go") (asciiLowercase "rust lang") :=
  or_operand_iff lowercaseText_ascii
    ⟨unbroken_of (by decide) (by decide), by decide, by decide, by decide⟩ (.inr rfl)
    (show '"' ∉ "rust lang".toList by decide)

/-- `Rust` after `OR` is looked for with its capital letter. -/
theorem capital_operand_not_matched : ¬ ∀ toLowercase : String → String,
    LowercaseText toLowercase → ∀ (w text : String) (item : Item), BareWord w →
      (item = .word text ∨ item = .phrase text) → item.WellFormed → ∀ record,
        (matchesQuery toLowercase record
            (parseQuery toLowercase (w ++ " OR " ++ item.token)) = true ↔
          matchesQuery toLowercase record (parseQuery toLowercase w) = true ∨
            matchesQuery toLowercase record (parseQuery toLowercase item.token) = true) := by
  intro hclaim
  have hword : BareWord "go" := ⟨unbroken_of (by decide) (by decide), by decide, by decide, by decide⟩
  have hoperand : BareWord "Rust" :=
    ⟨unbroken_of (by decide) (by decide), by decide, by decide, by decide⟩
  have hmatch := (hclaim asciiLowercase lowercaseText_ascii "go" "Rust" (.word "Rust") hword
    (.inl rfl) hoperand (textRecord "rust")).mpr (.inr (by decide +kernel))
  revert hmatch
  decide +kernel

end DSearch.Query

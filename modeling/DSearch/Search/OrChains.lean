import DSearch.Foundations.Clauses
import DSearch.Foundations.SeparatedText
import DSearch.Search.Query

/-! # OR chains

A query of plain words, linked by `OR` or not, is a list of chains. `parse_query` writes a chain as
terms with the mark `OR:`, twice on the words between its first and its last, and `matches_query` takes
the marked terms as members of the group that is open. So the middle words of a chain are looked for
with a mark that no text has, and a longer chain joins the one before it. -/

namespace DSearch.Query
set_option autoImplicit false
open RustText Sign Clauses SeparatedText

/-! ## The tokens of a text without quotes -/

/-- `split_whitespace`. -/
def pieces (text : String) : List String :=
  ((text.toList.splitOnP isWhiteSpace).filter (· ≠ [])).map String.ofList

theorem foldl_step_eq (cs : List Char) (tokens : List String) (current : List Char)
    (h : '"' ∉ cs) : (cs.foldl Tokenizer.step ⟨tokens, current, false⟩).flush =
      tokens ++ ((((cs.splitOnP isWhiteSpace).modifyHead (current ++ ·)).filter (· ≠ [])).map
        String.ofList) := by
  induction cs generalizing tokens current with
  | nil =>
    rw [List.foldl_nil, Tokenizer.flush, List.splitOnP_nil]
    by_cases hcurrent : current = [] <;> simp [hcurrent]
  | cons c cs ih =>
    have hquote : c ≠ '"' := fun hc => h (hc ▸ List.mem_cons_self)
    have hrest : '"' ∉ cs := fun hmem => h (List.mem_cons_of_mem c hmem)
    rw [List.foldl_cons, Tokenizer.step, if_neg hquote, List.splitOnP_cons_eq_if_modifyHead]
    by_cases hspace : isWhiteSpace c = true
    · rw [if_pos ⟨hspace, rfl⟩, if_pos hspace, ih _ _ hrest, Tokenizer.flush]
      have hhead : (cs.splitOnP isWhiteSpace).modifyHead (([] : List Char) ++ ·) =
          cs.splitOnP isWhiteSpace := by
        cases cs.splitOnP isWhiteSpace <;> rfl
      rw [hhead]
      by_cases hcurrent : current = [] <;> simp [hcurrent]
    · rw [if_neg fun hboth => hspace hboth.1, if_neg hspace, ih _ _ hrest]
      cases cs.splitOnP isWhiteSpace <;> simp

theorem tokenize_eq_pieces {input : String} (h : '"' ∉ input.toList) :
    tokenize input = pieces input := by
  rw [tokenize, foldl_step_eq _ _ _ h, List.nil_append, pieces]
  cases input.toList.splitOnP isWhiteSpace <;> rfl

/-- What is not white space stands in a piece. -/
theorem mem_pieces {cs : List Char} {c : Char} (h : c ∈ cs) (hspace : isWhiteSpace c = false) :
    ∃ piece ∈ cs.splitOnP isWhiteSpace, c ∈ piece := by
  induction cs with
  | nil => cases h
  | cons d cs ih =>
    rw [List.splitOnP_cons_eq_if_modifyHead]
    have hlater : c ∈ cs → ∃ piece ∈ cs.splitOnP isWhiteSpace, c ∈ piece := ih
    obtain ⟨first, rest, hsplit⟩ := List.exists_cons_of_ne_nil (List.splitOnP_ne_nil isWhiteSpace cs)
    rw [hsplit] at hlater ⊢
    by_cases hd : isWhiteSpace d = true
    · rw [if_pos hd]
      rcases List.mem_cons.mp h with rfl | hrest
      · rw [hspace] at hd
        cases hd
      · obtain ⟨piece, hpiece, hc⟩ := hlater hrest
        exact ⟨piece, List.mem_cons_of_mem _ hpiece, hc⟩
    · rw [if_neg hd, List.modifyHead_cons]
      rcases List.mem_cons.mp h with rfl | hrest
      · exact ⟨_, List.mem_cons_self, List.mem_cons_self⟩
      · obtain ⟨piece, hpiece, hc⟩ := hlater hrest
        rcases List.mem_cons.mp hpiece with rfl | hpiece
        · exact ⟨_, List.mem_cons_self, List.mem_cons_of_mem _ hc⟩
        · exact ⟨piece, List.mem_cons_of_mem _ hpiece, hc⟩

/-! ## Chains -/

/-- What is assumed of `str::to_lowercase`: no capital letters are left, a space is one, and texts in
lower case may be put together. -/
structure LowercaseLaws (toLowercase : String → String) : Prop where
  noCapitals : ∀ s, ∀ c ∈ (toLowercase s).toList, c.isUpper = false
  space : toLowercase " " = " "
  append : ∀ s t, toLowercase s = s → toLowercase t = t → toLowercase (s ++ t) = s ++ t

/-- A word in lower case without white space, colon, quote or leading dash. -/
structure PlainWord (toLowercase : String → String) (w : String) : Prop where
  lower : toLowercase w = w
  nonempty : w ≠ ""
  noSpace : ∀ c ∈ w.toList, isWhiteSpace c = false
  noColon : ':' ∉ w.toList
  noQuote : '"' ∉ w.toList
  noDash : w.toList.head? ≠ some '-'

/-- Words that are linked by `OR`. -/
structure Chain where
  first : String
  rest : List String
  deriving DecidableEq, Repr

namespace Chain

def words (c : Chain) : List String := c.first :: c.rest

def tokens (c : Chain) : List String := c.first :: c.rest.flatMap fun next => ["OR", next]

/-- The terms that are written for the words after a word that stands as `last` in the terms. -/
def markedTerms : String → List String → List String
  | last, [] => [last]
  | last, next :: rest => ("OR:" ++ last) :: markedTerms ("OR:" ++ next) rest

def terms (c : Chain) : List String := markedTerms c.first c.rest

/-- The words of the chain that are looked for: of three or more, the first and the last. -/
def live (c : Chain) : List String :=
  match c.rest.getLast? with
  | some last => [c.first, last]
  | none => [c.first]

end Chain

def chainTokens (chains : List Chain) : List String := chains.flatMap Chain.tokens

def withTerms (terms : List String) : ParsedQuery := { ParsedQuery.default with terms := terms }

section
variable {toLowercase : String → String}

theorem PlainWord.ne_or {w : String} (hlaws : LowercaseLaws toLowercase)
    (h : PlainWord toLowercase w) : w ≠ "OR" := by
  rintro rfl
  have hcapital := hlaws.noCapitals "OR" 'O'
  rw [h.lower] at hcapital
  exact absurd (hcapital (by decide)) (by decide)

theorem PlainWord.insertToken {w : String} (h : PlainWord toLowercase w) (terms : List String) :
    insertToken toLowercase (withTerms terms) w = withTerms (terms ++ [w]) := by
  have hquote : w.toList.head? ≠ some '"' := fun hhead => h.noQuote (List.mem_of_head? hhead)
  have hfilter : parseFieldFilter w = none := by
    have hnone : w.toList.dropWhile (· ≠ ':') = [] := by
      rw [List.dropWhile_eq_nil_iff]
      intro c hc
      simpa using fun heq : c = ':' => h.noColon (heq ▸ hc)
    rw [parseFieldFilter, splitFirst, hnone]
  unfold Query.insertToken
  dsimp only
  rw [if_neg fun hboth => h.noDash hboth.1, if_neg fun hboth => hquote hboth.1, hfilter, h.lower]
  rfl

theorem markLast_concat (terms : List String) (last : String) :
    markLast (terms ++ [last]) = terms ++ ["OR:" ++ last] := by
  rw [markLast, List.getLast?_concat, List.dropLast_concat]

theorem parseTokens_links (terms : List String) (last : String) (rest tokens : List String) :
    parseTokens toLowercase (rest.flatMap (fun next => ["OR", next]) ++ tokens)
        (withTerms (terms ++ [last])) =
      parseTokens toLowercase tokens (withTerms (terms ++ Chain.markedTerms last rest)) := by
  induction rest generalizing terms last with
  | nil => rfl
  | cons next rest ih =>
    have hor : "OR" = "OR" ∧ (withTerms (terms ++ [last])).terms ≠ [] :=
      ⟨rfl, List.append_ne_nil_of_right_ne_nil _ (List.cons_ne_nil _ _)⟩
    rw [List.flatMap_cons, List.append_assoc, List.cons_append, List.cons_append, List.nil_append,
      parseTokens.eq_def]
    dsimp only
    rw [if_pos hor]
    have hmarked : markLast (withTerms (terms ++ [last])).terms ++ ["OR:" ++ next] =
        (terms ++ ["OR:" ++ last]) ++ ["OR:" ++ next] :=
      congrArg (· ++ ["OR:" ++ next]) (markLast_concat terms last)
    rw [hmarked]
    refine (ih (terms ++ ["OR:" ++ last]) ("OR:" ++ next)).trans ?_
    rw [List.append_assoc]
    rfl

theorem parseTokens_chains (hlaws : LowercaseLaws toLowercase) {chains : List Chain}
    (hplain : ∀ c ∈ chains, ∀ w ∈ c.words, PlainWord toLowercase w) (terms : List String) :
    parseTokens toLowercase (chainTokens chains) (withTerms terms) =
      withTerms (terms ++ chains.flatMap Chain.terms) := by
  induction chains generalizing terms with
  | nil =>
    rw [List.flatMap_nil, List.append_nil]
    rfl
  | cons c chains ih =>
    have hfirst := hplain c List.mem_cons_self c.first List.mem_cons_self
    have hword : ¬ (c.first = "OR" ∧ (withTerms terms).terms ≠ []) :=
      fun hboth => hfirst.ne_or hlaws hboth.1
    rw [chainTokens, List.flatMap_cons, Chain.tokens, List.cons_append, parseTokens.eq_def]
    dsimp only
    rw [if_neg hword, hfirst.insertToken, parseTokens_links, List.flatMap_cons, ← List.append_assoc]
    exact ih (fun c' hc' => hplain c' (List.mem_cons_of_mem c hc')) _

end

/-! ## The groups of the matcher -/

def closeGroup (group : List String) : List (List String) := if group = [] then [] else [group]

/-- One term in the loop that groups them: the groups that are closed, and the open one. -/
def groupStep (groups : List (List String) × List String) (term : String) :
    List (List String) × List String :=
  match strippedTerm term with
  | some stripped => (groups.1, groups.2 ++ [stripped])
  | none => (groups.1 ++ closeGroup groups.2, [term])

theorem orGroups_eq (terms : List String) :
    orGroups terms = (terms.foldl groupStep ([], [])).1 ++
      closeGroup (terms.foldl groupStep ([], [])).2 := by
  have hclose : ∀ groups : List (List String) × List String,
      (if groups.2 = [] then groups.1 else groups.1 ++ [groups.2]) =
        groups.1 ++ closeGroup groups.2 := by
    intro groups
    unfold closeGroup
    split <;> simp
  have hfold : ∀ step : List (List String) × List String → String → List (List String) × List String,
      (∀ groups term, step groups term = groupStep groups term) →
        terms.foldl step ([], []) = terms.foldl groupStep ([], []) := by
    intro step hstep
    rw [show step = groupStep from funext₂ hstep]
  unfold orGroups
  dsimp only
  rw [hclose, hfold]
  intro groups term
  unfold groupStep
  cases strippedTerm term with
  | some stripped => rfl
  | none => exact congrArg (fun closed => (closed, [term])) (hclose groups)

theorem strippedTerm_marked (w : String) : strippedTerm ("OR:" ++ w) = some w := by
  simp [strippedTerm, stripPrefix, List.isPrefixOf]

theorem strippedTerm_plain {w : String} (h : ':' ∉ w.toList) : strippedTerm w = none := by
  have hstart : ¬ "OR:".toList.isPrefixOf w.toList = true := by
    intro hmark
    exact h ((List.isPrefixOf_iff_prefix.mp hmark).subset (by decide))
  rw [strippedTerm, stripPrefix, if_neg hstart]
  rfl

/-- What the matcher takes for the words of a chain after its first one: marked, but for the last. -/
def tailWords : String → List String → List String
  | last, [] => [last]
  | middle, next :: rest => ("OR:" ++ middle) :: tailWords next rest

theorem foldl_marked (groups : List (List String)) (group : List String) (w : String)
    (rest : List String) :
    (Chain.markedTerms ("OR:" ++ w) rest).foldl groupStep (groups, group) =
      (groups, group ++ tailWords w rest) := by
  induction rest generalizing group w with
  | nil =>
    rw [Chain.markedTerms, List.foldl_cons, groupStep, strippedTerm_marked]
    rfl
  | cons next rest ih =>
    rw [Chain.markedTerms, List.foldl_cons, groupStep, strippedTerm_marked]
    dsimp only
    rw [ih, List.append_assoc]
    rfl

/-- A chain of one word opens a group, a longer one joins the group that is open. -/
theorem foldl_terms {c : Chain} (h : ':' ∉ c.first.toList) (groups : List (List String))
    (group : List String) :
    c.terms.foldl groupStep (groups, group) = match c.rest with
      | [] => (groups ++ closeGroup group, [c.first])
      | next :: rest => (groups, group ++ c.first :: tailWords next rest) := by
  unfold Chain.terms
  cases c.rest with
  | nil =>
    rw [Chain.markedTerms, List.foldl_cons, groupStep, strippedTerm_plain h]
    rfl
  | cons next rest =>
    rw [Chain.markedTerms, List.foldl_cons, groupStep, strippedTerm_marked]
    dsimp only
    rw [foldl_marked, List.append_assoc]
    rfl

/-- The groups that the matcher makes of the chains, with the words that count. -/
def liveGroups : List Chain → List String → List (List String)
  | [], group => closeGroup group
  | c :: chains, group =>
    if c.rest = [] then closeGroup group ++ liveGroups chains c.live
    else liveGroups chains (group ++ c.live)

/-- The text holds no marked word. -/
def Unmarked (text : String) : Prop := ∀ w, contains text ("OR:" ++ w) = false

theorem any_tailWords {text : String} (h : Unmarked text) (w : String) (rest : List String) :
    (tailWords w rest).any (contains text) = contains text ((w :: rest).getLast (by simp)) := by
  induction rest generalizing w with
  | nil => simp [tailWords]
  | cons next rest ih =>
    rw [tailWords, List.any_cons, h, Bool.false_or, ih]
    rfl

theorem any_live (c : Chain) (text : String) : c.live.any (contains text) = match c.rest with
    | [] => contains text c.first
    | next :: rest => contains text c.first || contains text ((next :: rest).getLast (by simp)) := by
  unfold Chain.live
  cases c.rest with
  | nil => simp
  | cons next rest =>
    rw [List.getLast?_eq_some_getLast (List.cons_ne_nil next rest)]
    simp

theorem all_groups {text : String} (htext : Unmarked text) {chains : List Chain}
    (hplain : ∀ c ∈ chains, ':' ∉ c.first.toList) (groups : List (List String))
    (group group' : List String) (hempty : group = [] ↔ group' = [])
    (hany : group.any (contains text) = group'.any (contains text)) :
    let out := (chains.flatMap Chain.terms).foldl groupStep (groups, group)
    (out.1 ++ closeGroup out.2).all (fun g => g.any (contains text)) =
      (groups.all (fun g => g.any (contains text)) &&
        (liveGroups chains group').all fun g => g.any (contains text)) := by
  have hclose : ∀ {group group' : List String}, (group = [] ↔ group' = []) →
      group.any (contains text) = group'.any (contains text) →
      (closeGroup group).all (fun g => g.any (contains text)) =
        (closeGroup group').all fun g => g.any (contains text) := by
    intro group group' hempty hany
    unfold closeGroup
    by_cases hnone : group = []
    · rw [if_pos hnone, if_pos (hempty.mp hnone)]
    · rw [if_neg hnone, if_neg fun h => hnone (hempty.mpr h)]
      simp [hany]
  dsimp only
  induction chains generalizing groups group group' with
  | nil =>
    rw [List.flatMap_nil, List.foldl_nil, List.all_append, liveGroups, hclose hempty hany]
  | cons c chains ih =>
    have hrest := fun c' hc' => hplain c' (List.mem_cons_of_mem c hc')
    have hlive := any_live c text
    rw [List.flatMap_cons, List.foldl_append, foldl_terms (hplain c List.mem_cons_self), liveGroups]
    cases hshape : c.rest with
    | nil =>
      have hsingle : c.live = [c.first] := by
        rw [Chain.live, hshape]
        rfl
      dsimp only
      rw [if_pos rfl, ih hrest _ _ c.live (by simp [hsingle]) (by simp [hsingle]),
        List.all_append, List.all_append, hclose hempty hany, Bool.and_assoc]
    | cons next rest =>
      rw [hshape] at hlive
      dsimp only at hlive ⊢
      have hlong : c.live ≠ [] := by
        unfold Chain.live
        split <;> simp
      have hjoined : (group ++ c.first :: tailWords next rest).any (contains text) =
          (group' ++ c.live).any (contains text) := by
        rw [List.any_append, List.any_append, List.any_cons, any_tailWords htext, hlive, hany]
      rw [if_neg (List.cons_ne_nil next rest), ih hrest _ _ (group' ++ c.live) (by simp [hlong]) hjoined]

/-! ## What the matcher accepts -/

/-- The one word stands in the other. -/
def PartOf (u w : String) : Prop := u.toList <:+: w.toList

instance : DecidableRel PartOf := fun u w => inferInstanceAs (Decidable (u.toList <:+: w.toList))

instance : Std.Refl PartOf := ⟨fun w => List.infix_refl w.toList⟩

instance : IsTrans String PartOf := ⟨fun _ _ _ h h' => h.trans h'⟩

theorem contains_iff {text w : String} : contains text w = true ↔ PartOf w text := decide_eq_true_iff

theorem all_any_iff (clauses : List (List String)) (text : String) :
    (clauses.all fun clause => clause.any (contains text)) = true ↔
      AllMet PartOf [text] clauses := by
  simp [AllMet, Met, contains_iff]

section
variable {toLowercase : String → String}

theorem LowercaseLaws.unmarked (hlaws : LowercaseLaws toLowercase) (s : String) :
    Unmarked (toLowercase s) := by
  intro w
  refine Bool.eq_false_of_not_eq_true fun hmark => ?_
  have hinside : PartOf ("OR:" ++ w) (toLowercase s) := contains_iff.mp hmark
  have hcapital := hlaws.noCapitals s 'O' (hinside.subset (by simp))
  exact absurd hcapital (by decide)

/-- No text in lower case has the mark. -/
theorem LowercaseLaws.strippedTerm (hlaws : LowercaseLaws toLowercase) (s : String) :
    strippedTerm (toLowercase s) = none := by
  have hstart : ¬ "OR:".toList.isPrefixOf (toLowercase s).toList = true := by
    intro hmark
    have hcapital := hlaws.noCapitals s 'O'
      ((List.isPrefixOf_iff_prefix.mp hmark).subset (by decide))
    exact absurd hcapital (by decide)
  rw [Query.strippedTerm, stripPrefix, if_neg hstart]
  rfl

theorem noQuote_of_pieces {input : String} {chains : List Chain}
    (hplain : ∀ c ∈ chains, ∀ w ∈ c.words, PlainWord toLowercase w)
    (hinput : pieces input = chainTokens chains) : '"' ∉ input.toList := by
  intro hquote
  obtain ⟨piece, hpiece, hmem⟩ := mem_pieces hquote (by decide)
  have hne : piece ≠ [] := List.ne_nil_of_mem hmem
  have htoken : String.ofList piece ∈ chainTokens chains := by
    rw [← hinput, pieces]
    exact List.mem_map_of_mem (List.mem_filter.mpr ⟨hpiece, by simpa using hne⟩)
  obtain ⟨c, hc, htoken⟩ := List.mem_flatMap.mp htoken
  have hword : ∀ w ∈ c.words, String.ofList piece = w → False := by
    intro w hw heq
    refine (hplain c hc w hw).noQuote ?_
    rw [← heq, String.toList_ofList]
    exact hmem
  rcases List.mem_cons.mp htoken with hfirst | hrest
  · exact hword c.first List.mem_cons_self hfirst
  · obtain ⟨next, hnext, hpair⟩ := List.mem_flatMap.mp hrest
    rcases List.mem_pair.mp hpair with hor | hnextWord
    · have hchars := congrArg String.toList hor
      rw [String.toList_ofList] at hchars
      rw [hchars] at hmem
      exact absurd hmem (by decide)
    · exact hword next (List.mem_cons_of_mem _ hnext) hnextWord

theorem matchesQuery_withTerms (record : ContentRecord) (terms : List String) :
    matchesQuery toLowercase record (withTerms terms) =
      (orGroups terms).all fun group =>
        group.any (contains (buildSearchableText toLowercase record)) := by
  simp [matchesQuery, withTerms, ParsedQuery.default]

/-- A query of chains is matched if in each of its groups there is a word that counts. -/
theorem matchesQuery_chains (hlaws : LowercaseLaws toLowercase) {chains : List Chain}
    (hplain : ∀ c ∈ chains, ∀ w ∈ c.words, PlainWord toLowercase w) {input : String}
    (hinput : pieces input = chainTokens chains) (record : ContentRecord) :
    matchesQuery toLowercase record (parseQuery toLowercase input) = true ↔
      AllMet PartOf [buildSearchableText toLowercase record] (liveGroups chains []) := by
  have hparsed : parseQuery toLowercase input = withTerms (chains.flatMap Chain.terms) := by
    rw [parseQuery, tokenize_eq_pieces (noQuote_of_pieces hplain hinput), hinput]
    exact parseTokens_chains hlaws hplain []
  have hcolons : ∀ c ∈ chains, ':' ∉ c.first.toList :=
    fun c hc => (hplain c hc c.first List.mem_cons_self).noColon
  have htext : Unmarked (buildSearchableText toLowercase record) := hlaws.unmarked _
  have hgroups := all_groups htext hcolons [] [] [] Iff.rfl rfl
  dsimp only at hgroups
  rw [hparsed, matchesQuery_withTerms, orGroups_eq, hgroups, List.all_nil, Bool.true_and, all_any_iff]

/-! ## Records of given words -/

/-- A record whose only text is some words in its body. -/
def wordsRecord (present : List String) : ContentRecord where
  id := ""
  sourceUrl := ""
  sourceHash := ""
  schema := ""
  tags := []
  body := String.join (present.map (· ++ " "))
  createdAt := 0
  expiresAt := 0
  scrapeSource := .url
  refreshPolicy := .once
  sig := ""

theorem toLowercase_words (hlaws : LowercaseLaws toLowercase) {front : String}
    (hfront : toLowercase front = front) {present : List String}
    (hlower : ∀ s ∈ present, toLowercase s = s) :
    toLowercase (front ++ String.join (present.map (· ++ " "))) =
      front ++ String.join (present.map (· ++ " ")) := by
  induction present generalizing front with
  | nil => simpa using hfront
  | cons s present ih =>
    have hs := hlaws.append s " " (hlower s List.mem_cons_self) hlaws.space
    have hnext := ih (hlaws.append front (s ++ " ") hfront hs)
      fun s' hs' => hlower s' (List.mem_cons_of_mem s hs')
    simpa [String.join_cons, String.append_assoc] using hnext

theorem text_wordsRecord (hlaws : LowercaseLaws toLowercase) {present : List String}
    (hlower : ∀ s ∈ present, toLowercase s = s) :
    buildSearchableText toLowercase (wordsRecord present) =
      "   " ++ String.join (present.map (· ++ " ")) := by
  have hspaces : toLowercase "   " = "   " :=
    hlaws.append "  " " " (hlaws.append " " " " hlaws.space hlaws.space) hlaws.space
  rw [← toLowercase_words hlaws hspaces hlower]
  rfl

theorem partOf_wordsRecord (hlaws : LowercaseLaws toLowercase) {present : List String}
    (hlower : ∀ s ∈ present, toLowercase s = s) {w : String} (hne : w ≠ "") (hspace : ' ' ∉ w.toList) :
    PartOf w (buildSearchableText toLowercase (wordsRecord present)) ↔
      ∃ s ∈ present, PartOf w s := by
  have hchars : w.toList ≠ [] := fun hnil => hne (String.toList_eq_nil_iff.mp hnil)
  have hpieces : "   ".toList ++ (String.join (present.map (· ++ " "))).toList =
      ([] :: [] :: [] :: present.map String.toList).flatMap fun piece => piece ++ [' '] := by
    simp [List.flatMap_map]
  rw [PartOf, text_wordsRecord hlaws hlower, String.toList_append, hpieces, infix_flatMap_sep_iff hchars hspace]
  simp [PartOf, hchars]

/-! ## The chains and the groups -/

theorem mem_liveGroups {chains : List Chain} {group g : List String} {w : String}
    (hg : g ∈ liveGroups chains group) (hw : w ∈ g) :
    w ∈ group ∨ ∃ c ∈ chains, w ∈ c.words := by
  have hclose : ∀ {group : List String}, g ∈ closeGroup group → w ∈ group := by
    intro group hmem
    unfold closeGroup at hmem
    split at hmem
    · cases hmem
    · rwa [← List.mem_singleton.mp hmem]
  have hlive : ∀ {c : Chain}, w ∈ c.live → w ∈ c.words := by
    intro c hmem
    unfold Chain.live at hmem
    unfold Chain.words
    split at hmem
    · next last hlast =>
      rcases List.mem_pair.mp hmem with rfl | rfl
      · exact List.mem_cons_self
      · exact List.mem_cons_of_mem _ (List.mem_of_getLast? hlast)
    · rw [List.mem_singleton.mp hmem]
      exact List.mem_cons_self
  induction chains generalizing group with
  | nil => exact .inl (hclose hg)
  | cons c chains ih =>
    have hrest : ∀ group : List String, g ∈ liveGroups chains (group ++ c.live) →
        w ∈ group ∨ ∃ c' ∈ c :: chains, w ∈ c'.words := by
      intro group hmem
      rcases ih hmem with hopen | ⟨c', hc', hword⟩
      · rcases List.mem_append.mp hopen with hgroup | hmem
        · exact .inl hgroup
        · exact .inr ⟨c, List.mem_cons_self, hlive hmem⟩
      · exact .inr ⟨c', List.mem_cons_of_mem c hc', hword⟩
    rw [liveGroups] at hg
    split at hg
    · rcases List.mem_append.mp hg with hclosed | hmem
      · exact .inl (hclose hclosed)
      · exact .inr ((hrest [] hmem).resolve_left List.not_mem_nil)
    · exact hrest group hg

/-- The chains of the query and the groups of the matcher ask for the same: each group is covered by a
chain, and each chain by a group. -/
def GroupsAgree (chains : List Chain) : Prop :=
  Entails PartOf (chains.map Chain.words) (liveGroups chains []) ∧
    Entails PartOf (liveGroups chains []) (chains.map Chain.words)

instance (chains : List Chain) : Decidable (GroupsAgree chains) :=
  inferInstanceAs (Decidable (_ ∧ _))

/-- If the texts that meet the one list of clauses meet the other, the one entails the other: there is a
record of any words. -/
theorem entails_of_records (hlaws : LowercaseLaws toLowercase) {clauses clauses' : List (List String)}
    (hplain : ∀ clause ∈ clauses, ∀ w ∈ clause, PlainWord toLowercase w)
    (hplain' : ∀ clause ∈ clauses', ∀ w ∈ clause, PlainWord toLowercase w)
    (h : ∀ record, AllMet PartOf [buildSearchableText toLowercase record] clauses →
      AllMet PartOf [buildSearchableText toLowercase record] clauses') :
    Entails PartOf clauses clauses' := by
  refine entails_of_allMet fun weaker hweaker hmet => ?_
  have hlower : ∀ s ∈ avoiding PartOf clauses weaker, toLowercase s = s := by
    intro s hs
    obtain ⟨clause, hclause, hmem⟩ := List.mem_flatten.mp (mem_avoiding.mp hs).1
    exact (hplain clause hclause s hmem).lower
  have hpart : ∀ w, PlainWord toLowercase w →
      (PartOf w (buildSearchableText toLowercase (wordsRecord (avoiding PartOf clauses weaker))) ↔
        ∃ s ∈ avoiding PartOf clauses weaker, PartOf w s) := by
    intro w hw
    refine partOf_wordsRecord hlaws hlower hw.nonempty fun hmem => ?_
    have hwhite := hw.noSpace ' ' hmem
    exact absurd hwhite (by decide)
  have hrecord := h (wordsRecord (avoiding PartOf clauses weaker)) ?_
  · obtain ⟨w, hw, text, htext, hword⟩ := hrecord weaker hweaker
    rw [List.mem_singleton.mp htext] at hword
    exact ⟨w, hw, (hpart w (hplain' weaker hweaker w hw)).mp hword⟩
  · intro clause hclause
    obtain ⟨w, hw, hpresent⟩ := hmet clause hclause
    have hword := (hpart w (hplain clause hclause w hw)).mpr hpresent
    exact ⟨w, hw, _, List.mem_singleton.mpr rfl, hword⟩

theorem chains_met_iff (chains : List Chain) (text : String) :
    (∀ c ∈ chains, ∃ w ∈ c.words, contains text w = true) ↔
      AllMet PartOf [text] (chains.map Chain.words) := by
  simp [AllMet, Met, contains_iff]

/-- A query of plain words is matched by exactly the records that have a word of each of its chains, if
and only if its chains and groups agree. -/
theorem or_chains_iff (hlaws : LowercaseLaws toLowercase) {chains : List Chain}
    (hplain : ∀ c ∈ chains, ∀ w ∈ c.words, PlainWord toLowercase w) {input : String}
    (hinput : pieces input = chainTokens chains) :
    (∀ record, matchesQuery toLowercase record (parseQuery toLowercase input) = true ↔
        ∀ c ∈ chains, ∃ w ∈ c.words, contains (buildSearchableText toLowercase record) w = true) ↔
      GroupsAgree chains := by
  have hwords : ∀ clause ∈ chains.map Chain.words, ∀ w ∈ clause, PlainWord toLowercase w := by
    intro clause hclause w hw
    obtain ⟨c, hc, rfl⟩ := List.mem_map.mp hclause
    exact hplain c hc w hw
  have hgroups : ∀ group ∈ liveGroups chains [], ∀ w ∈ group, PlainWord toLowercase w := by
    intro group hgroup w hw
    obtain ⟨c, hc, hword⟩ := (mem_liveGroups hgroup hw).resolve_left List.not_mem_nil
    exact hplain c hc w hword
  simp only [matchesQuery_chains hlaws hplain hinput, chains_met_iff]
  constructor
  · intro hsame
    exact ⟨entails_of_records hlaws hwords hgroups fun record => (hsame record).mpr,
      entails_of_records hlaws hgroups hwords fun record => (hsame record).mp⟩
  · rintro ⟨hcovered, hcovers⟩ record
    exact ⟨hcovers.allMet, hcovered.allMet⟩

end

/-! ## A lower case -/

theorem lowercaseLaws_ascii : LowercaseLaws asciiLowercase where
  noCapitals s c hc := by
    rw [asciiLowercase, String.toList_ofList] at hc
    obtain ⟨d, -, rfl⟩ := List.mem_map.mp hc
    exact d.isUpper_toLower_eq_false
  space := by decide
  append s t hs ht := by
    conv_rhs => rw [← hs, ← ht]
    simp [asciiLowercase]

def textRecord (body : String) : ContentRecord := { makeRecord "r1" "src" 1 0 with body := body }

theorem toList_searchable {record : ContentRecord} {id url schema tag body : List Char}
    (hid : record.id = String.ofList id) (hurl : record.sourceUrl = String.ofList url)
    (hschema : record.schema = String.ofList schema) (htags : record.tags = [String.ofList tag])
    (hbody : record.body = String.ofList body) :
    (buildSearchableText asciiLowercase record).toList =
      (id ++ ' ' :: (url ++ ' ' :: (schema ++ ' ' :: (tag ++ ' ' :: body)))).map Char.toLower := by
  have hspace : " ".toList = [' '] := by decide
  simp only [buildSearchableText, asciiLowercase, hid, hurl, hschema, htags, hbody,
    String.toList_ofList, String.toList_append, String.toList_join, List.map_cons, List.map_nil,
    List.flatMap_cons, List.flatMap_nil, List.append_nil, List.append_assoc, List.cons_append,
    List.nil_append, hspace]

/-- `yy` is a word of the only chain, and the text has it; the matcher looks for `xx`, `OR:yy` and
`zz`. -/
theorem middle_word_not_matched :
    pieces "xx OR yy OR zz" = chainTokens [⟨"xx", ["yy", "zz"]⟩] ∧
      contains (buildSearchableText asciiLowercase (textRecord "yy")) "yy" = true ∧
      matchesQuery asciiLowercase (textRecord "yy")
        (parseQuery asciiLowercase "xx OR yy OR zz") = false := by
  have htext := @toList_searchable (textRecord "yy") _ _ _ _ _ rfl rfl rfl rfl rfl
  refine ⟨by decide +kernel, ?_, ?_⟩
  · rw [contains, htext]
    decide +kernel
  · have hgroups : orGroups (parseQuery asciiLowercase "xx OR yy OR zz").terms =
        [["xx", "OR:yy", "zz"]] := by decide +kernel
    have hnone : ∀ w ∈ ["xx", "OR:yy", "zz"],
        contains (buildSearchableText asciiLowercase (textRecord "yy")) w = false := by
      unfold contains
      rw [htext]
      decide +kernel
    rw [matchesQuery, hgroups, Bool.and_eq_false_iff]
    refine .inr ?_
    simp [hnone]

theorem plainWord_of {w : String} (hlower : asciiLowercase w = w) (hnonempty : w ≠ "")
    (hspace : w.toList.any isWhiteSpace = false) (hmarks : ':' ∉ w.toList ∧ '"' ∉ w.toList)
    (hdash : w.toList.head? ≠ some '-') : PlainWord asciiLowercase w where
  lower := hlower
  nonempty := hnonempty
  noSpace := by simpa using hspace
  noColon := hmarks.1
  noQuote := hmarks.2
  noDash := hdash

theorem or_chains_iff_pair :
    (∀ record, matchesQuery asciiLowercase record
        (parseQuery asciiLowercase "rust OR go fast") = true ↔
        ∀ c ∈ [Chain.mk "rust" ["go"], Chain.mk "fast" []], ∃ w ∈ c.words,
          contains (buildSearchableText asciiLowercase record) w = true) ↔
      GroupsAgree [⟨"rust", ["go"]⟩, ⟨"fast", []⟩] := by
  refine or_chains_iff lowercaseLaws_ascii ?_ (by decide +kernel)
  have hplain : ∀ w ∈ ["rust", "go", "fast"], PlainWord asciiLowercase w := by
    intro w hw
    simp only [List.mem_cons, List.not_mem_nil, or_false] at hw
    rcases hw with rfl | rfl | rfl
    · exact plainWord_of (by decide) (by decide) (by decide) (by decide) (by decide)
    · exact plainWord_of (by decide) (by decide) (by decide) (by decide) (by decide)
    · exact plainWord_of (by decide) (by decide) (by decide) (by decide) (by decide)
  intro c hc w hw
  refine hplain w ?_
  rcases List.mem_pair.mp hc with rfl | rfl
  · exact List.mem_append_left ["fast"] hw
  · exact List.mem_append_right ["rust", "go"] hw

end DSearch.Query

import DSearch.Search.Query

/-! # Tokens and items

A query is written as items with single spaces between them: words, quoted phrases, excluded words and
filters. The tokenizer finds each item's token again, since a token has no space outside quotes and its
quotes are closed, and `parse_query` adds to each part of the query what its items say. -/

namespace DSearch.Query
set_option autoImplicit false
open RustText Sign

/-! ## The tokenizer -/

/-- Outside quotes at the end: the quotes of the text come in pairs. -/
def QuotesBalanced (text : String) : Prop := Even (text.toList.count '"')

instance (text : String) : Decidable (QuotesBalanced text) :=
  inferInstanceAs (Decidable (Even _))

theorem inQuotes_foldl (cs : List Char) (t : Tokenizer) :
    (cs.foldl Tokenizer.step t).inQuotes = (t.inQuotes ^^ decide (cs.count '"' % 2 = 1)) := by
  induction cs generalizing t with
  | nil => simp
  | cons c cs ih =>
    rw [List.foldl_cons, ih, Tokenizer.step]
    by_cases hquote : c = '"'
    · subst hquote
      rw [if_pos rfl, List.count_cons_self]
      by_cases hodd : cs.count '"' % 2 = 1
      · have heven : ¬ (cs.count '"' + 1) % 2 = 1 := by omega
        cases hin : t.inQuotes <;> simp [hodd, heven]
      · have hnext : (cs.count '"' + 1) % 2 = 1 := by omega
        cases hin : t.inQuotes <;> simp [hodd, hnext]
    · rw [if_neg hquote, List.count_cons_of_ne hquote]
      split <;> rfl

theorem flush_tokens (tokens : List String) (t : Tokenizer) :
    ({ t with tokens := tokens ++ t.tokens } : Tokenizer).flush = tokens ++ t.flush := by
  unfold Tokenizer.flush
  dsimp only
  split
  · rfl
  · rw [List.append_assoc]

/-- The tokens that were found before stay in front. -/
theorem foldl_step_tokens (cs : List Char) (tokens : List String) (t : Tokenizer) :
    cs.foldl Tokenizer.step { t with tokens := tokens ++ t.tokens } =
      { cs.foldl Tokenizer.step t with tokens := tokens ++ (cs.foldl Tokenizer.step t).tokens } := by
  induction cs generalizing t with
  | nil => rfl
  | cons c cs ih =>
    have hstep : ({ t with tokens := tokens ++ t.tokens } : Tokenizer).step c =
        { t.step c with tokens := tokens ++ (t.step c).tokens } := by
      unfold Tokenizer.step
      rw [flush_tokens]
      dsimp only
      split
      · split <;> rfl
      · split <;> rfl
    rw [List.foldl_cons, hstep, ih, List.foldl_cons]

theorem tokenize_append_space {first : String} (hbalanced : QuotesBalanced first) (second : String) :
    tokenize (first ++ " " ++ second) = tokenize first ++ tokenize second := by
  have hclosed : (first.toList.foldl Tokenizer.step ⟨[], [], false⟩).inQuotes = false := by
    rw [inQuotes_foldl, Nat.even_iff.mp hbalanced]
    rfl
  have hspace : (first.toList.foldl Tokenizer.step ⟨[], [], false⟩).step ' ' =
      ⟨(first.toList.foldl Tokenizer.step ⟨[], [], false⟩).flush ++ [], [], false⟩ := by
    rw [Tokenizer.step, if_neg (by decide), if_pos ⟨by decide, hclosed⟩, hclosed, List.append_nil]
  rw [tokenize, String.toList_append, String.toList_append, List.append_assoc, List.foldl_append,
    List.foldl_append, show " ".toList = [' '] from rfl, List.foldl_cons, List.foldl_nil, hspace]
  rw [foldl_step_tokens second.toList _ ⟨[], [], false⟩, flush_tokens]
  rfl

/-- A token that white space ends. -/
structure Unbroken (token : String) : Prop where
  nonempty : token ≠ ""
  noSpace : ∀ c ∈ token.toList, isWhiteSpace c = false
  noQuote : '"' ∉ token.toList

theorem unbroken_of {token : String} (hnonempty : token ≠ "")
    (hplain : token.toList.all (fun c => ! isWhiteSpace c && c != '"') = true) : Unbroken token where
  nonempty := hnonempty
  noSpace c hc := by
    have hc := List.all_eq_true.mp hplain c hc
    simp_all
  noQuote hquote := by
    have hc := List.all_eq_true.mp hplain '"' hquote
    simp_all

theorem foldl_step_plain (cs : List Char) (tokens : List String) (current : List Char)
    (inQuotes : Bool) (hquote : '"' ∉ cs) (hspace : inQuotes = true ∨ ∀ c ∈ cs, isWhiteSpace c = false) :
    cs.foldl Tokenizer.step ⟨tokens, current, inQuotes⟩ = ⟨tokens, current ++ cs, inQuotes⟩ := by
  induction cs generalizing current with
  | nil => rw [List.foldl_nil, List.append_nil]
  | cons c cs ih =>
    have hc : c ≠ '"' := fun heq => hquote (heq ▸ List.mem_cons_self)
    have hin : ¬ (isWhiteSpace c = true ∧ inQuotes = false) := by
      rintro ⟨hwhite, rfl⟩
      rcases hspace with hcontra | hspace
      · cases hcontra
      · exact absurd hwhite (Bool.eq_false_iff.mp (hspace c List.mem_cons_self))
    rw [List.foldl_cons, Tokenizer.step, if_neg hc, if_neg hin]
    dsimp only
    rw [ih _ (fun hmem => hquote (List.mem_cons_of_mem c hmem))
      (hspace.imp_right fun h d hd => h d (List.mem_cons_of_mem c hd)), List.append_assoc]
    rfl

theorem Unbroken.tokenize {token : String} (h : Unbroken token) : tokenize token = [token] := by
  have hne : token.toList ≠ [] := fun hnil => h.nonempty (String.toList_eq_nil_iff.mp hnil)
  rw [Query.tokenize, foldl_step_plain _ _ _ _ h.noQuote (.inr h.noSpace), Tokenizer.flush,
    List.nil_append, if_neg hne, String.ofList_toList]
  rfl

theorem tokenize_phrase {text : String} (h : '"' ∉ text.toList) :
    tokenize ("\"" ++ text ++ "\"") = ["\"" ++ text ++ "\""] := by
  rw [tokenize, String.toList_append, String.toList_append, List.append_assoc, List.foldl_append,
    List.foldl_append]
  have hopen : "\"".toList.foldl Tokenizer.step ⟨[], [], false⟩ = ⟨[], ['"'], true⟩ := rfl
  have hclose : "\"".toList.foldl Tokenizer.step ⟨[], ['"'] ++ text.toList, true⟩ =
      ⟨[], ['"'] ++ text.toList ++ ['"'], false⟩ := rfl
  rw [hopen, foldl_step_plain _ _ _ _ h (.inl rfl), hclose, Tokenizer.flush, if_neg (by simp)]
  simp [← String.toList_inj]

/-! ## The loop over the tokens -/

section
variable (toLowercase : String → String)

theorem parseTokens_cons {token : String} {query : ParsedQuery}
    (h : ¬ (token = "OR" ∧ query.terms ≠ [])) (tokens : List String) :
    parseTokens toLowercase (token :: tokens) query =
      parseTokens toLowercase tokens (insertToken toLowercase query token) := by
  rw [parseTokens.eq_def]
  exact if_neg h

theorem parseTokens_or {token : String} {query : ParsedQuery}
    (h : token = "OR" ∧ query.terms ≠ []) (next : String) (tokens : List String) :
    parseTokens toLowercase (token :: next :: tokens) query =
      parseTokens toLowercase tokens
        { query with terms := markLast query.terms ++ ["OR:" ++ next] } := by
  rw [parseTokens.eq_def]
  exact if_pos h

end

/-! ## Items -/

/-- A word that stands for itself in a query. -/
structure BareWord (w : String) : Prop extends Unbroken w where
  noColon : ':' ∉ w.toList
  noDash : w.toList.head? ≠ some '-'
  notOr : w ≠ "OR"

inductive Item where
  | word (w : String)
  | phrase (text : String)
  | exclude (w : String)
  | filter (field value : String)

namespace Item

def token : Item → String
  | .word w => w
  | .phrase text => "\"" ++ text ++ "\""
  | .exclude w => "-" ++ w
  | .filter field value => field ++ ":" ++ value

def WellFormed : Item → Prop
  | .word w => BareWord w
  | .phrase text => '"' ∉ text.toList
  | .exclude w => BareWord w
  | .filter field value =>
    field ∈ FILTER_FIELDS ∧ (∀ c ∈ value.toList, isWhiteSpace c = false) ∧ '"' ∉ value.toList

/-- What an item adds to a query. -/
def insert (toLowercase : String → String) (query : ParsedQuery) : Item → ParsedQuery
  | .word w => { query with terms := query.terms ++ [toLowercase w] }
  | .phrase text => { query with phrases := query.phrases ++ [toLowercase text] }
  | .exclude w => { query with excludes := query.excludes ++ [toLowercase w] }
  | .filter field value => insertFilter toLowercase query field value

theorem fields_plain {field : String} (h : field ∈ FILTER_FIELDS) : field ≠ "" ∧
    field.toList.head? ≠ some '-' ∧
    ∀ c ∈ field.toList, isWhiteSpace c = false ∧ c ≠ '"' ∧ c ≠ ':' := by
  have hall : FILTER_FIELDS.all (fun field => field != "" && field.toList.head? != some '-' &&
      field.toList.all fun c => ! isWhiteSpace c && c != '"' && c != ':') = true := by decide
  have hfield := List.all_eq_true.mp hall field h
  simpa [and_assoc] using hfield

theorem WellFormed.unbroken {item : Item} (h : item.WellFormed)
    (hphrase : ∀ text, item ≠ .phrase text) : Unbroken item.token := by
  cases item with
  | word w => exact h.toUnbroken
  | phrase text => exact absurd rfl (hphrase text)
  | exclude w =>
    refine ⟨by simp [token], ?_, ?_⟩
    · intro c hc
      rcases List.mem_cons.mp (show c ∈ '-' :: w.toList by simpa [token] using hc) with rfl | hmem
      · decide
      · exact h.noSpace c hmem
    · simpa [token] using h.noQuote
  | filter field value =>
    obtain ⟨hfield, hspace, hquote⟩ := h
    obtain ⟨hne, -, hplain⟩ := fields_plain hfield
    refine ⟨by simp [token], ?_, ?_⟩
    · intro c hc
      have hparts : c ∈ field.toList ∨ c = ':' ∨ c ∈ value.toList := by
        simpa [token, or_assoc] using hc
      rcases hparts with hmem | rfl | hmem
      · exact (hplain c hmem).1
      · decide
      · exact hspace c hmem
    · have hfieldQuote : '"' ∉ field.toList := fun hmem => (hplain _ hmem).2.1 rfl
      simp [token, hfieldQuote, hquote]

theorem WellFormed.tokenize {item : Item} (h : item.WellFormed) :
    tokenize item.token = [item.token] := by
  cases item with
  | word w => exact h.toUnbroken.tokenize
  | phrase text => exact tokenize_phrase h
  | exclude w => exact (WellFormed.unbroken h (by simp)).tokenize
  | filter field value => exact (WellFormed.unbroken h (by simp)).tokenize

theorem WellFormed.balanced {item : Item} (h : item.WellFormed) : QuotesBalanced item.token := by
  have hunbroken : Unbroken item.token → QuotesBalanced item.token := by
    intro hplain
    rw [QuotesBalanced, List.count_eq_zero_of_not_mem hplain.noQuote]
    exact Even.zero
  cases item with
  | word w => exact hunbroken (WellFormed.unbroken h (by simp))
  | phrase text =>
    have hcount : text.toList.count '"' = 0 := List.count_eq_zero_of_not_mem h
    simp [QuotesBalanced, token, hcount]
  | exclude w => exact hunbroken (WellFormed.unbroken h (by simp))
  | filter field value => exact hunbroken (WellFormed.unbroken h (by simp))

theorem WellFormed.ne_or {item : Item} (h : item.WellFormed) : item.token ≠ "OR" := by
  intro hor
  have hchars := congrArg String.toList hor
  cases item with
  | word w => exact h.notOr hor
  | phrase text => simp [token] at hchars
  | exclude w => simp [token] at hchars
  | filter field value =>
    have hcolon : ':' ∈ "OR".toList := by
      rw [← hchars]
      simp [token]
    exact absurd hcolon (by decide)

/-- The parser takes each item for what it is. -/
theorem WellFormed.insertToken {item : Item} (h : item.WellFormed) (toLowercase : String → String)
    (query : ParsedQuery) :
    insertToken toLowercase query item.token = item.insert toLowercase query := by
  cases item with
  | word w =>
    have hquote : w.toList.head? ≠ some '"' := fun hhead => h.noQuote (List.mem_of_head? hhead)
    have hfilter : parseFieldFilter w = none := by
      rw [parseFieldFilter, splitFirst_of_not_mem h.noColon]
    unfold Query.insertToken
    dsimp only [token]
    rw [if_neg fun hboth => h.noDash hboth.1, if_neg fun hboth => hquote hboth.1, hfilter]
    rfl
  | phrase text =>
    have hchars : ("\"" ++ text ++ "\"").toList = '"' :: (text.toList ++ ['"']) := by simp
    have hlast : ("\"" ++ text ++ "\"").toList.getLast? = some '"' := by
      rw [hchars, ← List.cons_append, List.getLast?_concat]
    unfold Query.insertToken
    dsimp only [token]
    rw [if_neg (by simp), if_pos ⟨by simp, hlast, by simp⟩]
    simp [insert]
  | exclude w =>
    have hlong : ("-" ++ w).toList.length > 1 := by
      have hne : 0 < w.toList.length := List.length_pos_iff.mpr fun hnil =>
        h.nonempty (String.toList_eq_nil_iff.mp hnil)
      rw [String.toList_append, List.length_append]
      change 1 + w.toList.length > 1
      omega
    unfold Query.insertToken
    dsimp only [token]
    rw [if_pos ⟨by simp, hlong⟩]
    simp [insert]
  | filter field value =>
    obtain ⟨hne, hdash, hplain⟩ := fields_plain h.1
    have hcolon : ':' ∉ field.toList := fun hmem => (hplain _ hmem).2.2 rfl
    have hquote : field.toList.head? ≠ some '"' := fun hhead =>
      (hplain _ (List.mem_of_head? hhead)).2.1 rfl
    have hchars : (field ++ ":" ++ value).toList = field.toList ++ ':' :: value.toList := by simp
    have hhead : (field ++ ":" ++ value).toList.head? = field.toList.head? := by
      rw [hchars]
      cases hfield : field.toList with
      | nil => exact absurd (String.toList_eq_nil_iff.mp hfield) hne
      | cons c cs => rfl
    have hfilter : parseFieldFilter (field ++ ":" ++ value) = some (field, value) := by
      rw [parseFieldFilter, hchars, splitFirst_append hcolon]
      dsimp only
      rw [String.ofList_toList, String.ofList_toList, if_pos h.1]
    unfold Query.insertToken
    dsimp only [token]
    rw [if_neg fun hboth => hdash (hhead ▸ hboth.1), if_neg fun hboth => hquote (hhead ▸ hboth.1),
      hfilter]
    rfl

end Item

end DSearch.Query

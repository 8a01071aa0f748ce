import DSearch.Foundations.Markup
import DSearch.Foundations.RustText
import DSearch.Scraper.Job

/-! # Parsing feeds: `parse_feed` of `discovery/html_scrape.rs`

Items and entries are found by searching for their tags, and so are the elements in them. What stands
between the tags of an element is its text as it is: a CDATA wrapper is taken off, entities stay. -/

namespace DSearch.Feed
set_option autoImplicit false
open Sign RustText Markup

/-- `format!("<{}", tag)`: attributes may follow, or a longer name. -/
def openTag (tag : String) : List Char := '<' :: tag.toList

def closeTag (tag : String) : List Char := '<' :: '/' :: (tag.toList ++ ['>'])

/-- The first start tag of this name, up to its `>`, and what follows it. -/
def startTag (tag : String) (text : List Char) : Option (List Char × List Char) :=
  match breakOn (openTag tag) text with
  | none => none
  | some (_, after) =>
    match breakOn ['>'] (openTag tag ++ after) with
    | none => none
    | some (inside, content) => some (inside ++ ['>'], content)

theorem length_of_startTag {tag : String} {text start content : List Char}
    (h : startTag tag text = some (start, content)) : content.length < text.length := by
  unfold startTag at h
  split at h
  · cases h
  · next before after hopen =>
    split at h
    · cases h
    · next inside rest hclose =>
      obtain ⟨rfl, rfl⟩ := Prod.mk.inj (Option.some.inj h)
      have hlength := congrArg List.length (eq_of_breakOn hopen)
      have hlength' := congrArg List.length (eq_of_breakOn hclose)
      simp only [List.length_append, List.length_singleton] at hlength hlength'
      omega

def extractXmlBlocks (tag : String) (xml : List Char) : List (List Char) :=
  match _hstart : startTag tag xml with
  | none => []
  | some (_, content) =>
    match _hclose : breakOn (closeTag tag) content with
    | none => []
    | some (block, rest) => block :: extractXmlBlocks tag rest
termination_by xml.length
decreasing_by
  have hcontent := length_of_startTag _hstart
  have hlength := congrArg List.length (eq_of_breakOn _hclose)
  simp only [List.length_append] at hlength
  omega

theorem extractXmlBlocks_of_none {tag : String} {xml : List Char} (h : startTag tag xml = none) :
    extractXmlBlocks tag xml = [] := by
  rw [extractXmlBlocks]
  split
  · rfl
  · next hstart => cases h.symm.trans hstart

theorem extractXmlBlocks_of_some {tag : String} {xml start content block rest : List Char}
    (hstart : startTag tag xml = some (start, content))
    (hclose : breakOn (closeTag tag) content = some (block, rest)) :
    extractXmlBlocks tag xml = block :: extractXmlBlocks tag rest := by
  rw [extractXmlBlocks]
  split
  · next hnone => cases hnone.symm.trans hstart
  · next hsome =>
    cases hsome.symm.trans hstart
    split
    · next hnone => cases hnone.symm.trans hclose
    · next hsome' =>
      cases hsome'.symm.trans hclose
      rfl

/-- `strip_suffix`. -/
def stripSuffix (pattern cs : List Char) : Option (List Char) :=
  if pattern.isSuffixOf cs then some (cs.take (cs.length - pattern.length)) else none

def stripCdata (text : List Char) : Option (List Char) :=
  (stripPrefix "<![CDATA[".toList text).bind (stripSuffix "]]>".toList)

def extractXmlText (tag : String) (block : List Char) : Option (List Char) :=
  match startTag tag block with
  | none => none
  | some (start, content) =>
    if "/>".toList.isSuffixOf start then none
    else
      match breakOn (closeTag tag) content with
      | none => none
      | some (inside, _) =>
        let text := trim inside
        match stripCdata text with
        | some stripped => some stripped
        | none => if text = [] then none else some text

def entryBody (title text : List Char) : List Char :=
  if title = [] then text else if text = [] then title else title ++ "\n\n".toList ++ text

def feedEntry (link title text : List Char) : Option FeedEntry :=
  if link = [] then none else some ⟨String.ofList link, String.ofList (entryBody title text)⟩

/-- The entry of an RSS `<item>` block. -/
def itemEntry (block : List Char) : Option FeedEntry :=
  let link := (extractXmlText "link" block).getD []
  let title := (extractXmlText "title" block).getD []
  let description :=
    ((extractXmlText "description" block).or (extractXmlText "content:encoded" block)).getD []
  feedEntry link title description

/-- Atom `<link href="..." />`: on the first line with both parts. -/
def hrefLink (block : List Char) : Option (List Char) := do
  let l ← (lines block).find? fun l => "<link".toList <:+: l ∧ "href=".toList <:+: l
  let (_, after) ← breakOn "href=\"".toList l
  let (href, _) ← breakOn ['"'] after
  return href

/-- The entry of an Atom `<entry>` block. -/
def atomEntry (block : List Char) : Option FeedEntry :=
  let link := ((extractXmlText "link" block).or (hrefLink block)).getD []
  let title := (extractXmlText "title" block).getD []
  let summary := ((extractXmlText "summary" block).or (extractXmlText "content" block)).getD []
  feedEntry link title summary

def parseFeed (xml : List Char) : Except String (List FeedEntry) :=
  let entries := (extractXmlBlocks "item" xml).filterMap itemEntry ++
    (extractXmlBlocks "entry" xml).filterMap atomEntry
  if entries = [] ∧ ¬ "<item".toList <:+: xml ∧ ¬ "<entry".toList <:+: xml then
    .error "no feed entries found (expected RSS <item> or Atom <entry>)"
  else .ok entries

end DSearch.Feed

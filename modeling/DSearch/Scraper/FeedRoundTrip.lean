import DSearch.Scraper.Feed

/-! # The round trip of a feed

A document with items whose texts are escaped is taken apart as it was put together, but the texts come
out as they stand in it: an entity is not read as its character. -/

namespace DSearch.Feed
set_option autoImplicit false
open Sign Markup

/-! ## Documents -/

/-- A text without white space at its ends. -/
structure Bordered (text : List Char) : Prop where
  ne_nil : text ≠ []
  head : ∀ c ∈ text.head?, isWhiteSpace c = false
  last : ∀ c ∈ text.getLast?, isWhiteSpace c = false

structure FeedItem where
  link : String
  title : String
  description : String
  bordered_link : Bordered link.toList
  bordered_title : Bordered title.toList
  bordered_description : Bordered description.toList

/-- The entry that the item is meant for. -/
def FeedItem.entry (item : FeedItem) : FeedEntry :=
  ⟨item.link, item.title ++ "\n\n" ++ item.description⟩

/-- What stands around the items of a document: before the first one, between tags, and after the last
one from the next tag on. -/
structure RssLayout where
  head : List Char
  gap : List Char
  foot : List Char
  gap_plain : '<' ∉ gap
  head_plain : ∀ tag ∈ ["item", "entry"], ¬ openTag tag <:+: head
  foot_plain : ∀ tag ∈ ["item", "entry"], ¬ openTag tag <:+: '<' :: foot

variable (layout : RssLayout)

namespace RssLayout

def element (tag text : String) : List Char :=
  openTag tag ++ '>' :: (escaped text.toList ++ closeTag tag ++ layout.gap)

/-- What stands between the tags of an item. -/
def block (item : FeedItem) : List Char :=
  layout.gap ++ layout.element "link" item.link ++ layout.element "title" item.title ++
    layout.element "description" item.description

def renderItem (item : FeedItem) : List Char :=
  openTag "item" ++ '>' :: (layout.block item ++ closeTag "item" ++ layout.gap)

def render (items : List FeedItem) : List Char :=
  layout.head ++ items.flatMap layout.renderItem ++ '<' :: layout.foot

end RssLayout

/-! ## Searching for a tag -/

theorem breakOn_mark {mark : Char} {name a b : List Char} (hname : mark ∉ name)
    (ha : ¬ mark :: name <:+: a) : breakOn (mark :: name) (a ++ mark :: (name ++ b)) = some (a, b) := by
  induction a with
  | nil => exact breakOn_cons.mpr (.inl ⟨rfl, rfl⟩)
  | cons c a ih =>
    rw [List.infix_cons_iff, not_or] at ha
    rw [List.cons_append, breakOn_cons]
    refine .inr ⟨fun hstart => ha.1 ?_, a, rfl, ih ha.2⟩
    rw [List.cons_prefix_cons] at hstart ⊢
    exact ⟨hstart.1, SeparatedText.prefix_of_prefix_append hname hstart.2⟩

theorem startTag_mark {tag : String} (hopen : '<' ∉ tag.toList) (hclose : '>' ∉ tag.toList)
    {a : List Char} (ha : ¬ openTag tag <:+: a) (b : List Char) :
    startTag tag (a ++ (openTag tag ++ '>' :: b)) = some (openTag tag ++ ['>'], b) := by
  have hstart : breakOn (openTag tag) (a ++ (openTag tag ++ '>' :: b)) = some (a, '>' :: b) :=
    breakOn_mark hopen ha
  have hnot : ¬ ['>'] <:+: openTag tag := by
    rw [List.singleton_infix_iff]
    simp [openTag, hclose]
  have hend : breakOn ['>'] (openTag tag ++ '>' :: b) = some (openTag tag, b) :=
    breakOn_mark List.not_mem_nil hnot
  rw [startTag, hstart]
  dsimp only
  rw [hend]

/-! ## The pieces of an item -/

namespace RssLayout
variable {layout}

/-- An element as pieces between its `<`. -/
def elementPieces (layout : RssLayout) (tag text : String) : List (List Char) :=
  [tag.toList ++ '>' :: escaped text.toList, '/' :: (tag.toList ++ '>' :: layout.gap)]

def blockPieces (layout : RssLayout) (item : FeedItem) : List (List Char) :=
  layout.elementPieces "link" item.link ++ layout.elementPieces "title" item.title ++
    layout.elementPieces "description" item.description

def itemPieces (layout : RssLayout) (item : FeedItem) : List (List Char) :=
  ("item>".toList ++ layout.gap) :: (layout.blockPieces item ++ ["/item>".toList ++ layout.gap])

theorem element_eq (tag text : String) :
    layout.element tag text = marked '<' (layout.elementPieces tag text) := by
  simp [element, elementPieces, marked, openTag, closeTag]

theorem block_eq (item : FeedItem) :
    layout.block item = layout.gap ++ marked '<' (layout.blockPieces item) := by
  simp only [block, element_eq, blockPieces, marked_append, List.append_assoc]

theorem renderItem_eq (item : FeedItem) :
    layout.renderItem item = marked '<' (layout.itemPieces item) := by
  rw [renderItem, block_eq, itemPieces]
  simp [marked, openTag, closeTag]

theorem render_eq (items : List FeedItem) :
    layout.render items =
      layout.head ++ marked '<' (items.flatMap layout.itemPieces) ++ '<' :: layout.foot := by
  have hitems : items.flatMap layout.renderItem = marked '<' (items.flatMap layout.itemPieces) := by
    rw [marked, List.flatMap_assoc]
    exact congrArg (items.flatMap ·) (funext renderItem_eq)
  rw [render, hitems]

theorem not_mem_elementPieces {tag : String} (htag : '<' ∉ tag.toList) (text : String) :
    ∀ piece ∈ layout.elementPieces tag text, '<' ∉ piece := by
  have htext := (not_mem_escaped text.toList).1
  have hgap := layout.gap_plain
  simp [elementPieces, htag, htext, hgap]

theorem not_mem_blockPieces (item : FeedItem) : ∀ piece ∈ layout.blockPieces item, '<' ∉ piece := by
  intro piece hpiece
  rw [blockPieces, List.mem_append, List.mem_append] at hpiece
  rcases hpiece with (h | h) | h
  · exact not_mem_elementPieces (by decide) _ piece h
  · exact not_mem_elementPieces (by decide) _ piece h
  · exact not_mem_elementPieces (by decide) _ piece h

theorem not_mem_itemPieces (item : FeedItem) : ∀ piece ∈ layout.itemPieces item, '<' ∉ piece := by
  have hgap := layout.gap_plain
  intro piece hpiece
  rw [itemPieces, List.mem_cons, List.mem_append, List.mem_singleton] at hpiece
  rcases hpiece with rfl | h | rfl
  · simp [hgap]
  · exact not_mem_blockPieces item piece h
  · simp [hgap]

/-- A tag is not found in front of pieces none of which begins with its name. -/
theorem not_infix_gap_marked {name : List Char} (hname : '<' ∉ name) {pieces : List (List Char)}
    (hpieces : ∀ piece ∈ pieces, '<' ∉ piece) (h : ∀ piece ∈ pieces, ¬ name <+: piece) :
    ¬ '<' :: name <:+: layout.gap ++ marked '<' pieces := by
  rw [infix_append_marked_iff hname hpieces]
  rintro (hgap | ⟨piece, hpiece, hstart⟩)
  · exact layout.gap_plain (hgap.subset List.mem_cons_self)
  · exact h piece hpiece hstart

end RssLayout

/-! ## One element -/

theorem Bordered.ends {text : List Char} (h : Bordered text) :
    ∃ c rest front d, text = c :: rest ∧ text = front ++ [d] ∧ isWhiteSpace c = false ∧
      isWhiteSpace d = false := by
  obtain ⟨c, hc⟩ := Option.ne_none_iff_exists'.mp (mt List.head?_eq_none_iff.mp h.ne_nil)
  obtain ⟨d, hd⟩ := Option.ne_none_iff_exists'.mp (mt List.getLast?_eq_none_iff.mp h.ne_nil)
  obtain ⟨rest, hrest⟩ := List.head?_eq_some_iff.mp hc
  obtain ⟨front, hfront⟩ := List.getLast?_eq_some_iff.mp hd
  exact ⟨c, rest, front, d, hrest, hfront, h.head c hc, h.last d hd⟩

theorem Bordered.trim_eq {text : List Char} (h : Bordered text) : trim text = text := by
  obtain ⟨c, rest, front, d, rfl, hfront, hfirst, hlast⟩ := h.ends
  rw [trim, List.dropWhile_cons_of_neg (by simp [hfirst]), hfront, List.reverse_append,
    List.reverse_singleton, List.singleton_append, List.dropWhile_cons_of_neg (by simp [hlast]),
    List.reverse_cons, List.reverse_reverse]

theorem bordered_of_ends {text : List Char} {c d : Char} (hhead : text.head? = some c)
    (hlast : text.getLast? = some d) (hc : isWhiteSpace c = false) (hd : isWhiteSpace d = false) :
    Bordered text where
  ne_nil := by
    intro hnil
    rw [hnil] at hhead
    cases hhead
  head := by
    intro x hx
    cases hhead.symm.trans hx
    exact hc
  last := by
    intro x hx
    cases hlast.symm.trans hx
    exact hd

theorem bordered_escapeChar {c : Char} (h : isWhiteSpace c = false) : Bordered (escapeChar c) := by
  by_cases hc : IsMarkup c
  · rcases hc with rfl | rfl | rfl
    · exact bordered_of_ends (c := '&') (d := ';') rfl rfl (by decide) (by decide)
    · exact bordered_of_ends (c := '&') (d := ';') rfl rfl (by decide) (by decide)
    · exact bordered_of_ends (c := '&') (d := ';') rfl rfl (by decide) (by decide)
  · rw [escapeChar_of_not_isMarkup hc]
    exact bordered_of_ends rfl rfl h h

theorem Bordered.escaped {text : List Char} (h : Bordered text) : Bordered (escaped text) := by
  obtain ⟨c, rest, front, d, hrest, hfront, hc, hd⟩ := h.ends
  have hfirst := bordered_escapeChar hc
  have hlast := bordered_escapeChar hd
  have hstart : Markup.escaped text = escapeChar c ++ Markup.escaped rest := by
    rw [hrest, escaped_cons]
  have hend : Markup.escaped text = Markup.escaped front ++ escapeChar d := by
    rw [hfront, Markup.escaped, List.flatMap_append, List.flatMap_singleton]
    rfl
  refine ⟨?_, ?_, ?_⟩
  · rw [hstart]
    exact List.append_ne_nil_of_left_ne_nil hfirst.ne_nil _
  · rw [hstart, List.head?_append_of_ne_nil _ hfirst.ne_nil]
    exact hfirst.head
  · rw [hend, List.getLast?_append_of_ne_nil _ hlast.ne_nil]
    exact hlast.last

theorem extractXmlText_element {tag text : String} (hopen : '<' ∉ tag.toList)
    (hclose : '>' ∉ tag.toList) (hslash : ¬ "/>".toList <:+ openTag tag ++ ['>'])
    (htext : Bordered text.toList) {before : List Char} (hbefore : ¬ openTag tag <:+: before)
    (after : List Char) :
    extractXmlText tag (before ++ layout.element tag text ++ after) =
      some (escaped text.toList) := by
  have hstart : startTag tag (before ++ layout.element tag text ++ after) =
      some (openTag tag ++ ['>'], escaped text.toList ++ closeTag tag ++ (layout.gap ++ after)) := by
    have hassoc : before ++ layout.element tag text ++ after = before ++ (openTag tag ++
        '>' :: (escaped text.toList ++ closeTag tag ++ (layout.gap ++ after))) := by
      simp [RssLayout.element]
    rw [hassoc, startTag_mark hopen hclose hbefore]
  have hnoTag := (not_mem_escaped text.toList).1
  have hend : breakOn (closeTag tag) (escaped text.toList ++ closeTag tag ++ (layout.gap ++ after)) =
      some (escaped text.toList, layout.gap ++ after) := by
    have hname : '<' ∉ '/' :: (tag.toList ++ ['>']) := by simp [hopen]
    rw [List.append_assoc]
    exact breakOn_mark hname fun h => hnoTag (h.subset List.mem_cons_self)
  have hcdata : stripCdata (escaped text.toList) = none := by
    have hprefix : ¬ "<![CDATA[".toList.isPrefixOf (escaped text.toList) = true := by
      intro h
      exact hnoTag ((List.isPrefixOf_iff_prefix.mp h).subset (by decide))
    rw [stripCdata, RustText.stripPrefix, if_neg hprefix]
    rfl
  have hslash' : ¬ "/>".toList.isSuffixOf (openTag tag ++ ['>']) = true := by
    rwa [List.isSuffixOf_iff_suffix]
  rw [extractXmlText, hstart]
  dsimp only
  rw [if_neg hslash', hend]
  dsimp only
  rw [htext.escaped.trim_eq, hcdata]
  exact if_neg htext.escaped.ne_nil

/-! ## Items and documents -/

/-- The entry as the document writes it: entities stay. -/
def FeedItem.writtenEntry (item : FeedItem) : FeedEntry :=
  ⟨String.ofList (escaped item.link.toList),
    String.ofList (escaped item.title.toList ++ "\n\n".toList ++ escaped item.description.toList)⟩

theorem itemEntry_block (item : FeedItem) :
    itemEntry (layout.block item) = some item.writtenEntry := by
  have hlink : extractXmlText "link" (layout.block item) = some (escaped item.link.toList) := by
    have hbefore : ¬ openTag "link" <:+: layout.gap :=
      fun h => layout.gap_plain (h.subset List.mem_cons_self)
    rw [RssLayout.block, List.append_assoc]
    exact extractXmlText_element layout (by decide) (by decide) (by decide) item.bordered_link hbefore _
  have htitle : extractXmlText "title" (layout.block item) = some (escaped item.title.toList) := by
    have hbefore : ¬ openTag "title" <:+: layout.gap ++ layout.element "link" item.link := by
      rw [RssLayout.element_eq]
      refine RssLayout.not_infix_gap_marked (by decide)
        (RssLayout.not_mem_elementPieces (by decide) item.link) ?_
      simp [RssLayout.elementPieces]
    exact extractXmlText_element layout (by decide) (by decide) (by decide) item.bordered_title hbefore _
  have hdescription : extractXmlText "description" (layout.block item) =
      some (escaped item.description.toList) := by
    have hbefore : ¬ openTag "description" <:+: layout.gap ++
        (layout.element "link" item.link ++ layout.element "title" item.title) := by
      rw [RssLayout.element_eq, RssLayout.element_eq, ← marked_append]
      refine RssLayout.not_infix_gap_marked (by decide) ?_ ?_
      · rw [List.forall_mem_append]
        exact ⟨RssLayout.not_mem_elementPieces (by decide) item.link,
          RssLayout.not_mem_elementPieces (by decide) item.title⟩
      · simp [RssLayout.elementPieces]
    rw [RssLayout.block, List.append_assoc layout.gap, ← List.append_nil (_ ++ _)]
    exact extractXmlText_element layout (by decide) (by decide) (by decide) item.bordered_description
      hbefore []
  have hlinkNe := item.bordered_link.escaped.ne_nil
  have htitleNe := item.bordered_title.escaped.ne_nil
  have hdescriptionNe := item.bordered_description.escaped.ne_nil
  rw [itemEntry, hlink, htitle, hdescription]
  simp only [Option.getD_some, Option.some_or, feedEntry, entryBody, hlinkNe, htitleNe, hdescriptionNe,
    if_false]
  rfl

/-- The blocks of the items, whatever stands before the first one. -/
theorem extractXmlBlocks_items (items : List FeedItem) {before : List Char}
    (hbefore : ¬ openTag "item" <:+: before) :
    extractXmlBlocks "item" (before ++ items.flatMap layout.renderItem ++ '<' :: layout.foot) =
      items.map layout.block := by
  have hfoot := layout.foot_plain "item" (by decide)
  induction items generalizing before with
  | nil =>
    refine extractXmlBlocks_of_none ?_
    have hnone : ¬ openTag "item" <:+: before ++ '<' :: layout.foot := by
      rw [openTag, infix_append_mark_iff (by decide), not_or]
      exact ⟨hbefore, hfoot⟩
    rw [List.flatMap_nil, List.append_nil, startTag, breakOn_eq_none_iff.mpr hnone]
  | cons item items ih =>
    have hgap : ¬ openTag "item" <:+: layout.gap :=
      fun h => layout.gap_plain (h.subset List.mem_cons_self)
    have hsplit : before ++ (item :: items).flatMap layout.renderItem ++ '<' :: layout.foot =
        before ++ (openTag "item" ++ '>' :: (layout.block item ++ (closeTag "item" ++
          (layout.gap ++ items.flatMap layout.renderItem ++ '<' :: layout.foot)))) := by
      simp [RssLayout.renderItem]
    have hclose : breakOn (closeTag "item") (layout.block item ++ (closeTag "item" ++
        (layout.gap ++ items.flatMap layout.renderItem ++ '<' :: layout.foot))) =
        some (layout.block item, layout.gap ++ items.flatMap layout.renderItem ++ '<' :: layout.foot) := by
      refine breakOn_mark (by decide) ?_
      rw [RssLayout.block_eq]
      refine RssLayout.not_infix_gap_marked (by decide) (RssLayout.not_mem_blockPieces item) ?_
      simp [RssLayout.blockPieces, RssLayout.elementPieces]
    rw [hsplit, extractXmlBlocks_of_some (startTag_mark (by decide) (by decide) hbefore _) hclose,
      ih hgap, List.map_cons]

theorem not_infix_render {tag : String} (htag : tag ∈ ["item", "entry"]) {items : List FeedItem}
    (h : ∀ item ∈ items, ∀ piece ∈ layout.itemPieces item, ¬ tag.toList <+: piece) :
    ¬ openTag tag <:+: layout.render items := by
  have hopen : '<' ∉ tag.toList := by
    fin_cases htag <;> decide
  have hpieces : ∀ piece ∈ items.flatMap layout.itemPieces, '<' ∉ piece := by
    intro piece hpiece
    obtain ⟨item, -, hitem⟩ := List.mem_flatMap.mp hpiece
    exact RssLayout.not_mem_itemPieces item piece hitem
  rw [RssLayout.render_eq, openTag, infix_append_mark_iff hopen, infix_append_marked_iff hopen hpieces]
  rintro ((hhead | ⟨piece, hpiece, hstart⟩) | hfoot)
  · exact layout.head_plain tag htag hhead
  · obtain ⟨item, hitem, hpiece⟩ := List.mem_flatMap.mp hpiece
    exact h item hitem piece hpiece hstart
  · exact layout.foot_plain tag htag hfoot

/-- What a document is parsed into. -/
theorem parseFeed_render (items : List FeedItem) :
    parseFeed (layout.render items) =
      if items = [] then .error "no feed entries found (expected RSS <item> or Atom <entry>)"
      else .ok (items.map FeedItem.writtenEntry) := by
  have hitems : (extractXmlBlocks "item" (layout.render items)).filterMap itemEntry =
      items.map FeedItem.writtenEntry := by
    rw [RssLayout.render, extractXmlBlocks_items layout items (layout.head_plain "item" (by decide)),
      List.filterMap_map, ← List.filterMap_eq_map]
    exact congrArg (items.filterMap ·) (funext (itemEntry_block layout))
  have hnoEntry : ¬ openTag "entry" <:+: layout.render items := by
    refine not_infix_render layout (by decide) fun item _ => ?_
    simp [RssLayout.itemPieces, RssLayout.blockPieces, RssLayout.elementPieces]
  have hentries : extractXmlBlocks "entry" (layout.render items) = [] := by
    refine extractXmlBlocks_of_none ?_
    rw [startTag, breakOn_eq_none_iff.mpr hnoEntry]
  rw [parseFeed, hitems, hentries, List.filterMap_nil, List.append_nil]
  by_cases hnil : items = []
  · have hnoItem : ¬ openTag "item" <:+: layout.render items := by
      refine not_infix_render layout (by decide) ?_
      simp [hnil]
    rw [if_pos hnil]
    exact if_pos ⟨by simp [hnil], hnoItem, hnoEntry⟩
  · rw [if_neg hnil]
    exact if_neg fun h => hnil (by simpa using h.1)

/-! ## What comes back -/

/-- The texts of the item are written as they are. -/
def FeedItem.Plain (item : FeedItem) : Prop :=
  ∀ c ∈ item.link.toList ++ item.title.toList ++ item.description.toList, ¬ IsMarkup c

theorem writtenEntry_eq_iff (item : FeedItem) : item.writtenEntry = item.entry ↔ item.Plain := by
  rw [FeedItem.Plain, List.forall_mem_append, List.forall_mem_append]
  constructor
  · intro h
    have hlink := congrArg (fun entry => entry.link.toList.length) h
    have hbody := congrArg (fun entry => entry.body.toList.length) h
    have htitleLe := length_le_escaped item.title.toList
    have hdescriptionLe := length_le_escaped item.description.toList
    simp only [FeedItem.writtenEntry, FeedItem.entry, String.toList_ofList, String.toList_append,
      List.length_append] at hlink hbody
    refine ⟨⟨?_, ?_⟩, ?_⟩
    · exact length_escaped_le_iff.mp hlink.le
    · exact length_escaped_le_iff.mp (by omega)
    · exact length_escaped_le_iff.mp (by omega)
  · rintro ⟨⟨hlink, htitle⟩, hdescription⟩
    rw [FeedItem.writtenEntry, escaped_of_not_isMarkup hlink, escaped_of_not_isMarkup htitle,
      escaped_of_not_isMarkup hdescription]
    simp [FeedItem.entry, ← String.toList_inj]

/-- The items come back if there are some and no character of their texts is written as an entity. -/
theorem parseFeed_render_eq_iff (items : List FeedItem) :
    parseFeed (layout.render items) = .ok (items.map FeedItem.entry) ↔
      items ≠ [] ∧ ∀ item ∈ items, item.Plain := by
  rw [parseFeed_render]
  by_cases hnil : items = []
  · simp [hnil]
  · rw [if_neg hnil, Except.ok.injEq, List.map_inj_left]
    simp only [writtenEntry_eq_iff, hnil, ne_eq, not_false_eq_true, true_and]

/-- A channel with a line for each tag. -/
def channelLayout : RssLayout where
  head := "<rss><channel>\n".toList
  gap := ['\n']
  foot := "/channel></rss>".toList
  gap_plain := by decide
  head_plain := by decide
  foot_plain := by decide

/-- A link with two parameters. -/
def twoParameters : FeedItem where
  link := "https://h/a?x=1&y=2"
  title := "News"
  description := "Text"
  bordered_link := bordered_of_ends (c := 'h') (d := '2') rfl rfl (by decide) (by decide)
  bordered_title := bordered_of_ends (c := 'N') (d := 's') rfl rfl (by decide) (by decide)
  bordered_description := bordered_of_ends (c := 'T') (d := 't') rfl rfl (by decide) (by decide)

theorem ampersand_stays_entity :
    parseFeed (channelLayout.render [twoParameters]) =
        .ok [⟨"https://h/a?x=1&amp;y=2", "News\n\nText"⟩] ∧
      parseFeed (channelLayout.render [twoParameters]) ≠ .ok [twoParameters.entry] := by
  have hwritten : twoParameters.writtenEntry = ⟨"https://h/a?x=1&amp;y=2", "News\n\nText"⟩ := by
    decide
  have hparsed := parseFeed_render channelLayout [twoParameters]
  rw [if_neg (List.cons_ne_nil twoParameters []), List.map_singleton] at hparsed
  refine ⟨by rw [hparsed, hwritten], ?_⟩
  rw [hparsed, hwritten]
  decide

end DSearch.Feed

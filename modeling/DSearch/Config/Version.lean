import DSearch.Api.KeyStore
import DSearch.Trust.SourceUrl

/-! # `load_config` of `config/mod.rs` and the version in the file

The configuration is parsed by `toml`, but its version is looked up line by line in the text.
`Announces` says which version that is: the one of the first line that looks like an entry
`config_version` in a stretch of lines under `[meta]`. `TomlReader` is what `toml` makes of a text. -/

namespace DSearch
set_option autoImplicit false
open RustText Sign

def CURRENT_CONFIG_VERSION : ℕ := 1

/-- A value of a TOML document; what is neither an integer nor a table is not looked at. -/
inductive TomlValue where
  | integer (value : ℤ)
  | table (entries : List (String × TomlValue))
  | other

def TomlValue.get? (key : String) : TomlValue → Option TomlValue
  | .table entries => entries.lookup key
  | _ => none

/-- `meta.config_version` of a document. -/
def TomlValue.metaVersion (document : TomlValue) : Option TomlValue :=
  (document.get? "meta").bind (TomlValue.get? "config_version")

/-- `toml::from_str`, for the configuration, and the document that a valid text stands for. -/
structure TomlReader (ν : Type) where
  fromStr : String → Except String ν
  document : String → TomlValue

namespace ConfigVersion

/-- The loop of `extract_config_version`. A line of the version's name without `=` is passed over. -/
def scanVersion : Bool → List (List Char) → Option ℕ
  | _, [] => none
  | inMeta, line :: rest =>
    let trimmed := trim line
    if trimmed = "[meta]".toList then scanVersion true rest
    else if trimmed.head? = some '[' then scanVersion false rest
    else if inMeta && "config_version".toList.isPrefixOf trimmed then
      match (splitFirst '=' trimmed).2 with
      | some val => parseUnsigned (2 ^ 32) (trim val)
      | none => scanVersion inMeta rest
    else scanVersion inMeta rest

def extractConfigVersion (text : String) : Option ℕ := scanVersion false (lines text.toList)

def futureError (version : ℕ) : String :=
  "config_version " ++ toString version ++ " is from a future version (current: " ++
    toString CURRENT_CONFIG_VERSION ++
    "). Downgrading is not supported — your data may be corrupted."

def loadConfig {ν : Type} (toml : TomlReader ν) (default : ν) : ConfigFile → Except String ν
  | .missing => .ok default
  | .unreadable e => .error ("Failed to read config.toml: " ++ e)
  | .text contents =>
    match toml.fromStr contents with
    | .error e => .error ("Failed to parse config.toml: " ++ e)
    | .ok config =>
      match extractConfigVersion contents with
      | some version =>
        if version > CURRENT_CONFIG_VERSION then .error (futureError version) else .ok config
      | none => .ok config

/-! ## The version that a text announces -/

def MetaHeader (line : List Char) : Prop := trim line = "[meta]".toList

def Header (line : List Char) : Prop := (trim line).head? = some '['

/-- The line looks like an entry `config_version = val`. -/
def LooksLike (line val : List Char) : Prop :=
  "config_version".toList <+: trim line ∧ (splitFirst '=' (trim line)).2 = some val

/-- The last header before is `[meta]`. -/
def UnderMeta (before : List (List Char)) : Prop :=
  ∃ earlier header between, before = earlier ++ header :: between ∧ MetaHeader header ∧
    ∀ line ∈ between, ¬ Header line

/-- The first line under `[meta]` that looks like an entry has this number, and nothing after it. -/
def Announces (text : String) (version : ℕ) : Prop :=
  ∃ before line after val, lines text.toList = before ++ line :: after ∧ UnderMeta before ∧
    LooksLike line val ∧ parseUnsigned (2 ^ 32) (trim val) = some version ∧
    ∀ earlier entry between val', before = earlier ++ entry :: between → UnderMeta earlier →
      ¬ LooksLike entry val'

theorem MetaHeader.header {line : List Char} (h : MetaHeader line) : Header line := by
  rw [Header, h]
  rfl

theorem LooksLike.not_header {line val : List Char} (h : LooksLike line val) : ¬ Header line := by
  obtain ⟨⟨rest, hrest⟩, -⟩ := h
  rw [Header, ← hrest]
  simp

instance (line : List Char) : Decidable (MetaHeader line) := inferInstanceAs (Decidable (_ = _))

instance (line : List Char) : Decidable (Header line) := inferInstanceAs (Decidable (_ = _))

/-- Whether the lines after this one are under `[meta]`. -/
def nextSection (inMeta : Bool) (line : List Char) : Bool :=
  if MetaHeader line then true else if Header line then false else inMeta

theorem underMeta_iff (before : List (List Char)) :
    UnderMeta before ↔ before.foldl nextSection false = true := by
  induction before using List.reverseRecOn with
  | nil =>
    simp only [List.foldl_nil, Bool.false_eq_true, iff_false]
    rintro ⟨earlier, header, between, hsplit, -⟩
    simp at hsplit
  | append_singleton before line ih =>
    rw [List.foldl_append, List.foldl_cons, List.foldl_nil, nextSection]
    by_cases hmeta : MetaHeader line
    · rw [if_pos hmeta]
      exact ⟨fun _ => rfl, fun _ => ⟨before, line, [], rfl, hmeta, by simp⟩⟩
    · rw [if_neg hmeta]
      have hlast : UnderMeta (before ++ [line]) ↔ ¬ Header line ∧ UnderMeta before := by
        constructor
        · rintro ⟨earlier, header, between, hsplit, hheader, hbetween⟩
          rcases List.eq_nil_or_concat between with rfl | ⟨between, last, rfl⟩
          · obtain ⟨-, hline⟩ := List.append_inj' hsplit rfl
            obtain rfl := List.singleton_inj.mp hline
            exact absurd hheader hmeta
          · rw [List.concat_eq_append, ← List.cons_append, ← List.append_assoc] at hsplit
            obtain ⟨rfl, hline⟩ := List.append_inj' hsplit rfl
            obtain rfl := List.singleton_inj.mp hline
            refine ⟨hbetween line (by simp), earlier, header, between, rfl, hheader, fun l hl => ?_⟩
            exact hbetween l (by simp [hl])
        · rintro ⟨hline, earlier, header, between, rfl, hheader, hbetween⟩
          refine ⟨earlier, header, between ++ [line], by simp, hheader, fun l hl => ?_⟩
          rcases List.mem_append.mp hl with hl | hl
          · exact hbetween l hl
          · obtain rfl := List.mem_singleton.mp hl
            exact hline
      rw [hlast, ih]
      by_cases hheader : Header line
      · simp [hheader]
      · simp [hheader]

/-- `Announces`, for a text that starts under `[meta]` or not. -/
def FirstEntry (inMeta : Bool) (text : List (List Char)) (version : ℕ) : Prop :=
  ∃ before line after val, text = before ++ line :: after ∧
    before.foldl nextSection inMeta = true ∧ LooksLike line val ∧
    parseUnsigned (2 ^ 32) (trim val) = some version ∧
    ∀ earlier entry between val', before = earlier ++ entry :: between →
      earlier.foldl nextSection inMeta = true → ¬ LooksLike entry val'

/-- A first line that is no entry is passed over, and may open a section. -/
theorem firstEntry_cons_of_not {inMeta : Bool} {first : List Char} {rest : List (List Char)}
    {version : ℕ} (hfirst : ∀ val, inMeta = true → ¬ LooksLike first val) :
    FirstEntry inMeta (first :: rest) version ↔
      FirstEntry (nextSection inMeta first) rest version := by
  constructor
  · rintro ⟨before, line, after, val, hsplit, hunder, hline, hval, hnone⟩
    cases before with
    | nil =>
      obtain ⟨rfl, rfl⟩ := List.cons.inj hsplit
      exact absurd hline (hfirst val hunder)
    | cons first' before =>
      obtain ⟨rfl, rfl⟩ := List.cons.inj hsplit
      refine ⟨before, line, after, val, rfl, hunder, hline, hval, ?_⟩
      rintro earlier entry between val' rfl hearlier
      exact hnone (first :: earlier) entry between val' rfl hearlier
  · rintro ⟨before, line, after, val, rfl, hunder, hline, hval, hnone⟩
    refine ⟨first :: before, line, after, val, rfl, hunder, hline, hval, ?_⟩
    intro earlier entry between val' hsplit hearlier
    cases earlier with
    | nil =>
      obtain ⟨rfl, -⟩ := List.cons.inj hsplit
      exact hfirst val' hearlier
    | cons first' earlier =>
      obtain ⟨rfl, rfl⟩ := List.cons.inj hsplit
      exact hnone earlier entry between val' rfl hearlier

theorem firstEntry_cons_of_entry {first : List Char} {rest : List (List Char)} {val : List Char}
    (hlike : LooksLike first val) {version : ℕ} :
    FirstEntry true (first :: rest) version ↔
      parseUnsigned (2 ^ 32) (trim val) = some version := by
  constructor
  · rintro ⟨before, line, after, val', hsplit, -, hline, hparse, hnone⟩
    cases before with
    | nil =>
      obtain ⟨rfl, rfl⟩ := List.cons.inj hsplit
      obtain rfl := Option.some.inj (hlike.2.symm.trans hline.2)
      exact hparse
    | cons first' before =>
      obtain ⟨rfl, rfl⟩ := List.cons.inj hsplit
      exact absurd hlike (hnone [] first before val rfl rfl)
  · intro hparse
    exact ⟨[], first, rest, val, rfl, rfl, hlike, hparse, by simp⟩

/-- The scanner finds the first entry, from whatever section it starts in. -/
theorem scanVersion_eq_some {inMeta : Bool} {text : List (List Char)} {version : ℕ} :
    scanVersion inMeta text = some version ↔ FirstEntry inMeta text version := by
  induction text generalizing inMeta with
  | nil => simp [scanVersion, FirstEntry]
  | cons first rest ih =>
    rw [scanVersion]
    by_cases hmeta : trim first = "[meta]".toList
    · have hsection : nextSection inMeta first = true := if_pos hmeta
      have hheader : Header first := MetaHeader.header hmeta
      rw [if_pos hmeta, firstEntry_cons_of_not fun val _ hlike => hlike.not_header hheader, hsection]
      exact ih
    · rw [if_neg hmeta]
      by_cases hheader : (trim first).head? = some '['
      · have hsection : nextSection inMeta first = false := (if_neg hmeta).trans (if_pos hheader)
        rw [if_pos hheader, firstEntry_cons_of_not fun val _ hlike => hlike.not_header hheader,
          hsection]
        exact ih
      · rw [if_neg hheader]
        have hsection : nextSection inMeta first = inMeta := (if_neg hmeta).trans (if_neg hheader)
        by_cases hentry : (inMeta && "config_version".toList.isPrefixOf (trim first)) = true
        · rw [if_pos hentry]
          obtain ⟨rfl, hbegins⟩ := Bool.and_eq_true_iff.mp hentry
          cases hval : (splitFirst '=' (trim first)).2 with
          | none =>
            rw [firstEntry_cons_of_not, hsection]
            · exact ih
            · intro val _ hlike
              rw [hlike.2] at hval
              cases hval
          | some val =>
            exact (firstEntry_cons_of_entry ⟨List.isPrefixOf_iff_prefix.mp hbegins, hval⟩).symm
        · rw [if_neg hentry, firstEntry_cons_of_not, hsection]
          · exact ih
          · intro val hunder hlike
            apply hentry
            rw [hunder, Bool.true_and]
            exact List.isPrefixOf_iff_prefix.mpr hlike.1

theorem extractConfigVersion_eq_some {text : String} {version : ℕ} :
    extractConfigVersion text = some version ↔ Announces text version := by
  rw [extractConfigVersion, scanVersion_eq_some, Announces, FirstEntry]
  simp only [underMeta_iff]

/-! ## When the guard agrees with the document -/

/-- A document of a later version is refused, and one of this version or without any is not. -/
def Guards {ν : Type} (toml : TomlReader ν) (default : ν) (text : String) : Prop :=
  (∀ version, (toml.document text).metaVersion = some (.integer version) →
    (CURRENT_CONFIG_VERSION : ℤ) < version → ∃ e, loadConfig toml default (.text text) = .error e) ∧
  (((toml.document text).metaVersion = none ∨ ∃ version,
    (toml.document text).metaVersion = some (.integer version) ∧
      version ≤ (CURRENT_CONFIG_VERSION : ℤ)) →
      ∀ version, loadConfig toml default (.text text) ≠ .error (futureError version))

theorem loadConfig_text {ν : Type} {toml : TomlReader ν} {text : String} {config : ν}
    (hconfig : toml.fromStr text = .ok config) (default : ν) :
    (∃ version, CURRENT_CONFIG_VERSION < version ∧ Announces text version ∧
      loadConfig toml default (.text text) = .error (futureError version)) ∨
    ((∀ version, Announces text version → version ≤ CURRENT_CONFIG_VERSION) ∧
      loadConfig toml default (.text text) = .ok config) := by
  unfold loadConfig
  dsimp only
  rw [hconfig]
  dsimp only
  cases hversion : extractConfigVersion text with
  | none =>
    refine .inr ⟨fun version hannounces => ?_, rfl⟩
    rw [extractConfigVersion_eq_some.mpr hannounces] at hversion
    cases hversion
  | some version =>
    dsimp only
    by_cases hfuture : version > CURRENT_CONFIG_VERSION
    · exact .inl ⟨version, hfuture, extractConfigVersion_eq_some.mp hversion, if_pos hfuture⟩
    · refine .inr ⟨fun version' hannounces => ?_, if_neg hfuture⟩
      rw [extractConfigVersion_eq_some.mpr hannounces] at hversion
      obtain rfl := Option.some.inj hversion
      exact Nat.not_lt.mp hfuture

/-- The guard is right exactly if the text of a later version announces a later version, and the text
of this version or of none does not. -/
theorem loadConfig_guards_iff {ν : Type} (toml : TomlReader ν) (default config : ν) (text : String)
    (hconfig : toml.fromStr text = .ok config) :
    Guards toml default text ↔
      (∀ version, (toml.document text).metaVersion = some (.integer version) →
        (CURRENT_CONFIG_VERSION : ℤ) < version →
          ∃ announced, CURRENT_CONFIG_VERSION < announced ∧ Announces text announced) ∧
      (((toml.document text).metaVersion = none ∨ ∃ version,
        (toml.document text).metaVersion = some (.integer version) ∧
          version ≤ (CURRENT_CONFIG_VERSION : ℤ)) →
        ∀ announced, Announces text announced → announced ≤ CURRENT_CONFIG_VERSION) := by
  unfold Guards
  obtain ⟨found, hfuture, hannounces, hrun⟩ | ⟨hcurrent, hrun⟩ := loadConfig_text hconfig default
  · rw [hrun]
    refine and_congr ?_ (imp_congr_right fun _ => ?_)
    · exact ⟨fun _ _ _ _ => ⟨found, hfuture, hannounces⟩, fun _ _ _ _ => ⟨_, rfl⟩⟩
    · constructor
      · exact fun hnever => absurd rfl (hnever found)
      · intro hall
        exact absurd (hall found hannounces) (Nat.not_le.mpr hfuture)
  · rw [hrun]
    refine and_congr ?_ (imp_congr_right fun _ => ?_)
    · constructor
      · intro hall version hversion hlater
        obtain ⟨e, he⟩ := hall version hversion hlater
        cases he
      · intro hall version hversion hlater
        obtain ⟨announced, hfuture, hannounces⟩ := hall version hversion hlater
        exact absurd (hcurrent announced hannounces) (Nat.not_le.mpr hfuture)
    · exact ⟨fun _ => hcurrent, fun _ _ he => by cases he⟩

/-! ## Two texts that are read differently -/

/-- TOML allows blanks inside a header. -/
def spacedHeader : String := "[ meta ]\nconfig_version = 2\n"

/-- The level is a text of several lines; there is no table `meta`. -/
def quotedHeader : String := "[log]\nlevel = \"\"\"\n[meta]\nconfig_version = 2\n\"\"\"\n"

/-- What `toml` reads in the two texts; the configuration is left out. -/
def twoTexts : TomlReader Unit where
  fromStr _ := .ok ()
  document text :=
    if text = spacedHeader then .table [("meta", .table [("config_version", .integer 2)])]
    else .table [("log", .table [("level", .other)])]

theorem loadConfig_guards_iff_spacedHeader :
    Guards twoTexts () spacedHeader ↔
      (∀ version, (twoTexts.document spacedHeader).metaVersion = some (.integer version) →
        (CURRENT_CONFIG_VERSION : ℤ) < version →
          ∃ announced, CURRENT_CONFIG_VERSION < announced ∧ Announces spacedHeader announced) ∧
      (((twoTexts.document spacedHeader).metaVersion = none ∨ ∃ version,
        (twoTexts.document spacedHeader).metaVersion = some (.integer version) ∧
          version ≤ (CURRENT_CONFIG_VERSION : ℤ)) →
        ∀ announced, Announces spacedHeader announced → announced ≤ CURRENT_CONFIG_VERSION) :=
  loadConfig_guards_iff twoTexts () () spacedHeader rfl

/-- The document of version 2 is loaded. -/
theorem version_read_by_lines :
    ¬ ∀ (ν : Type) (toml : TomlReader ν) (default config : ν) (text : String),
      toml.fromStr text = .ok config → Guards toml default text := by
  intro hclaim
  obtain ⟨hlater, -⟩ := hclaim Unit twoTexts () () spacedHeader rfl
  obtain ⟨e, he⟩ := hlater 2 rfl (by decide)
  have hscan : extractConfigVersion spacedHeader = none :=
    of_chars (motive := fun cs => scanVersion false (lines cs) = none) (by decide +kernel)
  simp [loadConfig, twoTexts, hscan] at he

/-- The document without a version is refused as one of version 2. -/
theorem quoted_version_refused : ¬ Guards twoTexts () quotedHeader := by
  rintro ⟨-, hnone⟩
  have hscan : extractConfigVersion quotedHeader = some 2 :=
    of_chars (motive := fun cs => scanVersion false (lines cs) = some 2) (by decide +kernel)
  have hdocument : (twoTexts.document quotedHeader).metaVersion = none := by
    have hne : quotedHeader ≠ spacedHeader := by decide
    dsimp only [twoTexts]
    rw [if_neg hne]
    rfl
  apply hnone (.inl hdocument) 2
  simp [loadConfig, twoTexts, hscan, CURRENT_CONFIG_VERSION]

end ConfigVersion

end DSearch

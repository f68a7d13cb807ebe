import Mathlib.Data.List.TakeWhile
import FoamDict.Proofs.Settings.Loading

/-!
# Settings of layered files

If the sections of all files are tables and their settings have the types wanted, the settings
resolve, each on its own: to what the last file gives that gives it at all, or else to the default.
-/

namespace FoamDict.Toml.Value

def string? : Value → Option String
  | string s => some s
  | _ => none

def strings? : Value → Option (List String)
  | array items => items.mapM string?
  | _ => none

end FoamDict.Toml.Value

namespace FoamDict.Settings

open Value

namespace FileEntries

/-- No two keys differ only in upper and lower case. -/
def Distinct (entries : FileEntries) : Prop := (entries.map (·.1.toLower)).Nodup

instance (entries : FileEntries) : Decidable entries.Distinct :=
  inferInstanceAs (Decidable (List.Nodup _))

def find? (entries : FileEntries) (key : String) : Option Toml.Value :=
  (List.find? (·.1.toLower = key) entries).map (·.2)

/-- Whether a value is a table with distinct keys. -/
def isSection : Toml.Value → Bool
  | .table inner => Distinct inner
  | _ => false

/-- What entries give for a setting of a section. -/
def given? (entries : FileEntries) (name setting : String) : Option Toml.Value :=
  match find? entries name with
  | some (.table inner) => find? inner setting
  | _ => none

theorem exists_table_of_isSection {v : Toml.Value} (h : isSection v) :
    ∃ inner : FileEntries, v = .table inner ∧ inner.Distinct := by
  cases v with
  | table inner => exact ⟨inner, rfl, of_decide_eq_true h⟩
  | _ => cases h

theorem find?_cons (e : String × Toml.Value) (entries : FileEntries) (key : String) :
    find? (e :: entries) key = if e.1.toLower = key then some e.2 else find? entries key := by
  by_cases h : e.1.toLower = key
  · simp [find?, h]
  · simp [find?, h]

theorem find?_eq_none {entries : FileEntries} {key : String}
    (h : key ∉ entries.map (·.1.toLower)) : find? entries key = none := by
  rw [find?, Option.map_eq_none_iff, List.find?_eq_none]
  intro e he
  simpa using fun hkey : e.1.toLower = key => h (hkey ▸ List.mem_map_of_mem he)

end FileEntries

open FileEntries

/-- Of entries with distinct keys one at most is set behind a key. -/
theorem foldl_setOver_of_distinct {entries : FileEntries} (hdistinct : entries.Distinct)
    (origin key : String) (old : Option Value) :
    ((entriesOfToml origin entries).filter (·.1.toLower = key)).foldl
        (fun old e => some (e.2.setOver old)) old =
      ((entries.find? key).map fun v => (ofToml origin v).setOver old).or old := by
  induction entries generalizing old with
  | nil => rfl
  | cons e entries ih =>
      obtain ⟨hnew, hdistinct⟩ := List.nodup_cons.mp hdistinct
      rw [entriesOfToml, find?_cons]
      by_cases hkey : e.1.toLower = key
      · rw [List.filter_cons_of_pos (by simpa using hkey), List.foldl_cons, ih hdistinct,
          find?_eq_none (hkey ▸ hnew), if_pos hkey]
        rfl
      · rw [List.filter_cons_of_neg (by simpa using hkey), ih hdistinct, if_neg hkey]

def sectionNames : List String := ["logging", "diagnostics", "completion"]

theorem isKeyChar_of_toLower {c : Char} (h : Path.isKeyChar c.toLower) : Path.isKeyChar c := by
  by_cases hupper : c.isUpper
  · have halpha : c.isAlpha = (c.isUpper || c.isLower) := rfl
    simp only [Path.isKeyChar, Char.isAlphanum, halpha, hupper, Bool.true_or]
  · have hself : c.toLower = c := dif_neg fun hletter => hupper (decide_eq_true hletter)
    rwa [hself] at h

theorem parse_of_all_isKeyChar {key : String} (hne : key.toList ≠ [])
    (hkey : ∀ c ∈ key.toList, Path.isKeyChar c) : Path.parse key = .ok ⟨key, []⟩ := by
  have htake : key.toList.takeWhile Path.isKeyChar = key.toList :=
    List.takeWhile_eq_self_iff.mpr hkey
  have hdrop : key.toList.dropWhile Path.isKeyChar = [] := List.dropWhile_eq_nil_iff.mpr hkey
  have hrest : Path.stepsFrom [] = .ok [] := by
    rw [Path.stepsFrom]
    rfl
  rw [Path.parse, Path.takeKey?, htake, hdrop]
  cases hchars : key.toList with
  | nil => exact absurd hchars hne
  | cons c cs =>
      dsimp only
      rw [hrest, ← hchars, String.ofList_toList]
      rfl

/-- The name of a section is a path of one key, however it is written. -/
theorem pathOfKey_of_mem_sectionNames {key : String} (h : key.toLower ∈ sectionNames) :
    pathOfKey key = ⟨key, []⟩ := by
  have hnames : ∀ name ∈ sectionNames, name.toList ≠ [] ∧ name.toList.all Path.isKeyChar := by
    decide
  obtain ⟨hne, hall⟩ := hnames _ h
  have hchars : key.toLower.toList = key.toList.map Char.toLower := String.toList_map
  rw [hchars] at hne hall
  have hkey : ∀ c ∈ key.toList, Path.isKeyChar c := fun c hc =>
    isKeyChar_of_toLower (List.all_eq_true.mp hall _ (List.mem_map_of_mem hc))
  rw [pathOfKey, parse_of_all_isKeyChar (List.map_eq_nil_iff.not.mp hne) hkey]

/-- The sections of a file are tables whose settings have the types wanted. Its other entries are
anything that is not set within a section. -/
@[mk_iff]
structure Sectioned (entries : FileEntries) : Prop where
  distinct : entries.Distinct
  dotted : ∀ e ∈ entries, (pathOfKey e.1).isDotted
  own : ∀ e ∈ entries, (pathOfKey e.1).first ∈ sectionNames → e.1.toLower ∈ sectionNames
  sections : ∀ name ∈ sectionNames, (entries.find? name).all isSection
  filter : (entries.given? "logging" "filter").all (·.string?.isSome)
  source : (entries.given? "diagnostics" "source").all (·.string?.isSome)
  detail : (entries.given? "completion" "detail").all (·.string?.isSome)
  triggers : (entries.given? "completion" "trigger_characters").all (·.strings?.isSome)

instance (entries : FileEntries) : Decidable (Sectioned entries) :=
  decidable_of_iff' _ (sectioned_iff entries)

/-- The value of a setting in the last of the files that gives it. -/
def lastGiven? {α : Type} (files : Files) (layers : List FileLayer) (name setting : String)
    (read? : Toml.Value → Option α) : Option α :=
  (layers.filterMap fun l =>
    (l.entries? files).bind fun entries => (entries.given? name setting).bind read?).getLast?

namespace Value

def setting? (root : Value) (name setting : String) : Option Value :=
  (root.get? name).bind (·.get? setting)

/-- A section of a file is set as a whole, by the one entry that has its name. -/
theorem get?_addEntries_of_sectioned {entries : FileEntries} (hentries : Sectioned entries)
    (origin : String) (root : Value) {name : String} (hname : name ∈ sectionNames) :
    (root.addEntries (entriesOfToml origin entries)).get? name =
      ((entries.find? name).map fun v => (ofToml origin v).setOver (root.get? name)).or
        (root.get? name) := by
  rw [get?_addEntries, ← foldl_setOver_of_distinct hentries.distinct]
  have hpath : ∀ e ∈ entriesOfToml origin entries, (pathOfKey e.1).first = name →
      e.1.toLower = name ∧ (pathOfKey e.1).below = [] := by
    intro e he hfirst
    rw [entriesOfToml_eq_map] at he
    obtain ⟨read, hread, rfl⟩ := List.mem_map.mp he
    have hown := hentries.own read hread (hfirst ▸ hname)
    rw [pathOfKey_of_mem_sectionNames hown] at hfirst ⊢
    exact ⟨hfirst, rfl⟩
  -- `own` keeps longer paths out of the section, so that the name of an entry says where it goes.
  have hfilter : (entriesOfToml origin entries).filter (fun e => (pathOfKey e.1).first = name) =
      (entriesOfToml origin entries).filter (·.1.toLower = name) := by
    refine List.filter_congr fun e he => decide_eq_decide.mpr ⟨fun h => (hpath e he h).1, ?_⟩
    rintro rfl
    rw [pathOfKey_of_mem_sectionNames hname]
    rfl
  rw [← hfilter]
  refine List.foldl_ext _ _ _ fun old e he => ?_
  obtain ⟨hmem, hfirst⟩ := List.mem_filter.mp he
  rw [(hpath e hmem (by simpa using hfirst)).2]
  rfl

/-- Each setting of a section is set on its own. -/
theorem setting?_addEntries {entries : FileEntries} (hentries : Sectioned entries) (origin : String)
    (root : Value) {name : String} (hname : name ∈ sectionNames) (setting : String) :
    (root.addEntries (entriesOfToml origin entries)).setting? name setting =
      ((entries.given? name setting).map fun v =>
        (ofToml origin v).setOver (root.setting? name setting)).or
          (root.setting? name setting) := by
  rw [setting?, get?_addEntries_of_sectioned hentries origin root hname, given?]
  cases hfind : entries.find? name with
  | none => rfl
  | some v =>
      have hsection := hentries.sections name hname
      rw [hfind, Option.all_some] at hsection
      obtain ⟨inner, rfl, hinner⟩ := exists_table_of_isSection hsection
      have hold : ((root.get? name).getD emptyTable).get? setting = root.setting? name setting := by
        rw [setting?]
        cases root.get? name <;> rfl
      dsimp only [Option.map_some, Option.some_or, Option.bind_some]
      rw [ofToml, setOver, mergeAll_eq_foldl, get?_foldl_put (fun e : String × Value => e.1.toLower)
        (fun e old => e.2.setOver old), foldl_setOver_of_distinct hinner, hold]

end Value

/-- A value of a file replaces what stands behind its key, and `take?` finds in it what `read?`
finds in the file. -/
def Replaces {α : Type} (read? : Toml.Value → Option α) (take? : Value → Option α) : Prop :=
  ∀ origin v a old, read? v = some a → take? ((ofToml origin v).setOver old) = some a

theorem string?_replaces : Replaces Toml.Value.string? text? := by
  intro origin v a old h
  cases v with
  | string s => exact h
  | _ => cases h

theorem mapM_text?_ofToml (origin : String) {items : List Toml.Value} {texts : List String}
    (h : items.mapM Toml.Value.string? = some texts) :
    (items.map (ofToml origin)).mapM text? = some texts := by
  induction items generalizing texts with
  | nil => exact h
  | cons v items ih =>
      rw [List.mapM_cons] at h
      obtain ⟨s, hs, h⟩ := Option.bind_eq_some_iff.mp h
      obtain ⟨rest, hrest, h⟩ := Option.bind_eq_some_iff.mp h
      obtain rfl := Option.some.inj h
      have hfirst : (ofToml origin v).text? = some s := by
        cases v with
        | string t => exact hs
        | _ => cases hs
      rw [List.map_cons, List.mapM_cons, hfirst, ih hrest]
      rfl

theorem strings?_replaces : Replaces Toml.Value.strings? texts? := by
  intro origin v a old h
  cases v with
  | array items =>
      have htexts := mapM_text?_ofToml origin h
      rw [← itemsOfToml_eq_map] at htexts
      rw [ofToml]
      exact htexts
  | _ => cases h

section Run

variable {α : Type} {read? : Toml.Value → Option α} {take? : Value → Option α} {files : Files}
  {name setting : String}

/-- What one file does to a setting: it replaces it, if it gives it at all. -/
theorem bind_setting?_addTo (hreplaces : Replaces read? take?) (hname : name ∈ sectionNames)
    {l : FileLayer} {entries : FileEntries} (hload : l.entries? files = some entries)
    (hentries : Sectioned entries)
    (hread : (entries.given? name setting).all fun v => (read? v).isSome) (root : Value) :
    ((l.addTo files root).setting? name setting).bind take? =
      ((entries.given? name setting).bind read?).or ((root.setting? name setting).bind take?) := by
  rw [FileLayer.addTo, hload, Option.getD_some, setting?_addEntries hentries _ _ hname]
  cases hgiven : entries.given? name setting with
  | none => rfl
  | some v =>
      rw [hgiven] at hread
      obtain ⟨a, ha⟩ := Option.isSome_iff_exists.mp hread
      have htake := hreplaces (l.origin files) v a (root.setting? name setting) ha
      rw [Option.map_some, Option.some_or, Option.bind_some, Option.bind_some, ha, htake]
      rfl

theorem bind_setting?_addFiles (hreplaces : Replaces read? take?) (hname : name ∈ sectionNames)
    {layers : List FileLayer}
    (hlayers : ∀ l ∈ layers, ∃ entries, l.entries? files = some entries ∧ Sectioned entries ∧
      (entries.given? name setting).all fun v => (read? v).isSome) (root : Value) :
    ((addFiles files layers root).setting? name setting).bind take? =
      (lastGiven? files layers name setting read?).or
        ((root.setting? name setting).bind take?) := by
  induction layers generalizing root with
  | nil => rfl
  | cons l layers ih =>
      obtain ⟨⟨entries, hload, hentries, hread⟩, hlayers⟩ := List.forall_mem_cons.mp hlayers
      have hstep := bind_setting?_addTo hreplaces hname hload hentries hread root
      rw [addFiles, List.foldl_cons, ← addFiles, ih hlayers, hstep, lastGiven?, lastGiven?,
        List.filterMap_cons, hload, Option.bind_some]
      cases (entries.given? name setting).bind read? with
      | none => rfl
      | some a =>
          rw [List.getLast?_cons]
          cases (layers.filterMap fun l => (l.entries? files).bind fun entries =>
            (entries.given? name setting).bind read?).getLast? <;> rfl

/-- Over the defaults a setting is what the last file gives, or else the default. -/
theorem bind_setting?_addFiles_default (hreplaces : Replaces read? take?)
    (hname : name ∈ sectionNames) {layers : List FileLayer}
    (hlayers : ∀ l ∈ layers, ∃ entries, l.entries? files = some entries ∧ Sectioned entries)
    (hread : ∀ entries, Sectioned entries →
      (entries.given? name setting).all fun v => (read? v).isSome)
    {default : α} (hdefault : (Default.root.setting? name setting).bind take? = some default) :
    ((addFiles files layers Default.root).setting? name setting).bind take? =
      some ((lastGiven? files layers name setting read?).getD default) := by
  rw [bind_setting?_addFiles hreplaces hname, hdefault]
  · cases lastGiven? files layers name setting read? <;> rfl
  · intro l hl
    obtain ⟨entries, hload, hentries⟩ := hlayers l hl
    exact ⟨entries, hload, hentries, hread entries hentries⟩

end Run

/-- A setting that is found by its name is the one that is read. -/
theorem bind_member?_of_setting? {α : Type} {root : Value} {name setting : String}
    {take? : Value → Option α} {a : α} (h : (root.setting? name setting).bind take? = some a)
    (place : Nat) :
    ((root.get? name).bind fun v => (v.member? setting place).bind take?) = some a := by
  rw [Value.setting?] at h
  cases hsection : root.get? name with
  | none => rw [hsection] at h; cases h
  | some v =>
      rw [hsection, Option.bind_some] at h
      rw [Option.bind_some, member?]
      cases hentry : v.get? setting with
      | none => rw [hentry] at h; cases h
      | some entry => rwa [hentry] at h

theorem settings?_of_setting? {root : Value} {s : Settings}
    (hfilter : (root.setting? "logging" "filter").bind text? = some s.filter)
    (hsource : (root.setting? "diagnostics" "source").bind text? = some s.source)
    (hdetail : (root.setting? "completion" "detail").bind text? = some s.detail)
    (htriggers : (root.setting? "completion" "trigger_characters").bind texts? =
      some s.triggers) : root.settings? = some s := by
  have hlogging : (root.get? "logging").bind filter? = some s.filter :=
    bind_member?_of_setting? hfilter 0
  have hdiagnostics : (root.get? "diagnostics").bind source? = some s.source :=
    bind_member?_of_setting? hsource 0
  have hcompletion : (root.get? "completion").bind completion? =
      some (s.detail, s.triggers) := by
    have hdetail := bind_member?_of_setting? hdetail 0
    have htriggers := bind_member?_of_setting? htriggers 1
    cases hsection : root.get? "completion" with
    | none => rw [hsection] at hdetail; cases hdetail
    | some v =>
        rw [hsection, Option.bind_some] at hdetail htriggers
        rw [Option.bind_some, completion?, hdetail, htriggers]
        rfl
  rw [settings?, hlogging, hdiagnostics, hcompletion]
  rfl

/-- Files with sections of the right types resolve to the last value given for each setting, and to
the default for one that none gives. A file that cannot be loaded is a fault whatever the others
hold. -/
theorem layered_settings (files : Files) (layers : List FileLayer) :
    ((∀ l ∈ layers, ∃ entries, l.entries? files = some entries ∧ Sectioned entries) →
      (Layers.ofFiles layers).resolve files = .ok {
        filter :=
          (lastGiven? files layers "logging" "filter" Toml.Value.string?).getD Default.filter
        source :=
          (lastGiven? files layers "diagnostics" "source" Toml.Value.string?).getD Default.source
        detail :=
          (lastGiven? files layers "completion" "detail" Toml.Value.string?).getD Default.detail
        triggers := (lastGiven? files layers "completion" "trigger_characters"
          Toml.Value.strings?).getD Default.triggers }) ∧
    ∀ l ∈ layers, l.entries? files = none → ∀ overrides, ∃ fault,
      { Layers.ofFiles layers with overrides := overrides }.resolve files = .error fault := by
  refine ⟨fun hlayers => ?_, fun l hl hload overrides => ?_⟩
  · have hload : ∀ l ∈ layers, (l.entries? files).isSome := by
      intro l hl
      obtain ⟨entries, hentries, -⟩ := hlayers l hl
      rw [hentries]
      rfl
    have hdotted : ∀ l ∈ layers, l.IsDotted files := by
      intro l hl entries hentries
      obtain ⟨entries', hentries', hsectioned⟩ := hlayers l hl
      obtain rfl := Option.some.inj (hentries.symm.trans hentries')
      exact hsectioned.dotted
    have hfilter := bind_setting?_addFiles_default string?_replaces (by decide) hlayers
      (fun _ h => h.filter) rfl
    have hsource := bind_setting?_addFiles_default string?_replaces (by decide) hlayers
      (fun _ h => h.source) rfl
    have hdetail := bind_setting?_addFiles_default string?_replaces (by decide) hlayers
      (fun _ h => h.detail) rfl
    have htriggers := bind_setting?_addFiles_default strings?_replaces (by decide) hlayers
      (fun _ h => h.triggers) rfl
    refine toOption_eq_some_iff.mp ?_
    rw [Layers.toOption_resolve, Layers.merged_ofFiles hload hdotted, toOption_ok,
      Option.bind_some]
    exact settings?_of_setting? hfilter hsource hdetail htriggers
  · rw [Layers.ofFiles_eq]
    exact Layers.resolve_error hl hload

theorem exists_sectioned_of_any {l : FileLayer} {files : Files}
    (h : (l.entries? files).any fun entries => decide (Sectioned entries)) :
    ∃ entries, l.entries? files = some entries ∧ Sectioned entries := by
  obtain ⟨entries, hentries, hsectioned⟩ := (Option.any_eq_true _ _).mp h
  exact ⟨entries, hentries, of_decide_eq_true hsectioned⟩

/-- Of two lists of characters the later one is taken whole. An optional file that is not found
leaves the settings as they are, a required one does not. -/
theorem layered_settings_three_files :
    (Layers.ofFiles [⟨"a", true⟩, ⟨"b", false⟩, ⟨"c", true⟩]).resolve
        [("a", "completion.trigger_characters=[':','/']"),
          ("c", "completion.trigger_characters=['-']")] =
      .ok ⟨"info", "openfoam-lsp", "OpenFOAM keyword", ["-"]⟩ ∧
    ∀ overrides, ∃ fault,
      { Layers.ofFiles [⟨"b", true⟩, ⟨"a", true⟩] with overrides := overrides }.resolve
        [("a", "")] = .error fault := by
  have hlayers : ∀ l ∈ [(⟨"a", true⟩ : FileLayer), ⟨"b", false⟩, ⟨"c", true⟩],
      (l.entries? [("a", "completion.trigger_characters=[':','/']"),
        ("c", "completion.trigger_characters=['-']")]).any
        fun entries => decide (Sectioned entries) := by
    decide +kernel
  have hmissing : ((⟨"b", true⟩ : FileLayer).entries? [("a", "")]).isNone := by decide +kernel
  refine ⟨((layered_settings _ _).1 fun l hl => exists_sectioned_of_any (hlayers l hl)).trans ?_,
    (layered_settings _ _).2 ⟨"b", true⟩ (by simp) (Option.isNone_iff_eq_none.mp hmissing)⟩
  exact congrArg Except.ok (by decide +kernel)

end FoamDict.Settings

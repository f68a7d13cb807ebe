import Mathlib.Data.List.Basic
import FoamDict.Proofs.Settings.Loading

/-!
# Pinned log filters

With a pinned filter what the files hold for logging does not count: it neither lets the settings
resolve nor keeps them from it, and no other setting depends on it.
-/

namespace FoamDict

/-- The settings beside the log filter. -/
def Settings.rest (s : Settings) : String × String × List String := (s.source, s.detail, s.triggers)

namespace Settings

namespace Value

def rest? (root : Value) : Option (String × String × List String) := do
  let source ← (root.get? "diagnostics").bind source?
  let completion ← (root.get? "completion").bind completion?
  return (source, completion)

theorem settings?_eq_some_iff {root : Value} {s : Settings} :
    root.settings? = some s ↔
      (root.get? "logging").bind filter? = some s.filter ∧ root.rest? = some s.rest := by
  rw [settings?, rest?, Settings.rest]
  obtain ⟨filter, source, detail, triggers⟩ := s
  cases (root.get? "logging").bind filter? with
  | none => simp
  | some filter' =>
      cases (root.get? "diagnostics").bind source? with
      | none => simp
      | some source' =>
          cases (root.get? "completion").bind completion? with
          | none => simp
          | some completion' => simp [Prod.ext_iff]

/-- The root with a log filter set. -/
def pinned (root : Value) (directive : String) : Value :=
  (text directive).setAlong Layers.filterPath.names (some root)

theorem get?_pinned (root : Value) (directive key : String) :
    (root.pinned directive).get? key =
      if key = "logging" then
        some (((root.get? "logging").getD nothing).put "filter" (text directive))
      else root.get? key := by
  have hnames : Layers.filterPath.names = ["logging", "filter"] := by decide +kernel
  rw [pinned, hnames]
  exact get?_put root _ "logging" key

theorem filter?_put (v : Value) (directive : String) :
    (v.put "filter" (text directive)).filter? = some directive := by
  rw [filter?, member?, get?_put, if_pos rfl]
  rfl

theorem settings?_pinned_iff {root : Value} {directive : String} {s : Settings} :
    (root.pinned directive).settings? = some s ↔
      s.filter = directive ∧ root.rest? = some s.rest := by
  have hlogging : ((root.pinned directive).get? "logging").bind filter? = some directive := by
    rw [get?_pinned, if_pos rfl, Option.bind_some, filter?_put]
  have hrest : (root.pinned directive).rest? = root.rest? := by
    rw [rest?, rest?, get?_pinned, get?_pinned, if_neg (by decide), if_neg (by decide)]
  rw [settings?_eq_some_iff, hlogging, hrest, Option.some_inj, eq_comm]

end Value

open Value

theorem readSection_eq_ok_some_iff {α : Type} {read : String → Value → Read α}
    {found? : Value → Option α} (hread : ∀ key v, (read key v).toOption = found? v) {root : Value}
    {name : String} {a : α} :
    readSection root name read = .ok (some a) ↔ (root.get? name).bind found? = some a := by
  rw [← toOption_readSection hread]
  cases readSection root name read with
  | error fault => simp [Except.toOption]
  | ok found => simp [Except.toOption]

theorem rest?_eq_some_iff {root : Value} {rest : String × String × List String} :
    root.rest? = some rest ↔
      readSection root "diagnostics" readSource = .ok (some rest.1) ∧
      readSection root "completion" readCompletion = .ok (some rest.2) := by
  rw [readSection_eq_ok_some_iff toOption_readSource,
    readSection_eq_ok_some_iff toOption_readCompletion, rest?]
  cases (root.get? "diagnostics").bind source? with
  | none => simp
  | some source =>
      cases (root.get? "completion").bind completion? with
      | none => simp
      | some completion => simp [Prod.ext_iff]

section Origin

mutual

/-- A value of a file differs only in where it is from when it stands in another file. -/
theorem bare_ofToml (origin origin' : String) (v : Toml.Value) :
    (ofToml origin v).bare = (ofToml origin' v).bare := by
  cases v with
  | array items => rw [ofToml, ofToml, bare, bare, bareItems_itemsOfToml origin origin' items]
  | table entries =>
      rw [ofToml, ofToml, bare, bare, bareEntries_entriesOfToml origin origin' entries]
  | _ => rfl

theorem bareItems_itemsOfToml (origin origin' : String) (items : List Toml.Value) :
    bareItems (itemsOfToml origin items) = bareItems (itemsOfToml origin' items) := by
  cases items with
  | nil => rfl
  | cons v rest =>
      rw [itemsOfToml, itemsOfToml, bareItems, bareItems, bare_ofToml origin origin' v,
        bareItems_itemsOfToml origin origin' rest]

theorem bareEntries_entriesOfToml (origin origin' : String) (entries : FileEntries) :
    bareEntries (entriesOfToml origin entries) = bareEntries (entriesOfToml origin' entries) := by
  cases entries with
  | nil => rfl
  | cons e rest =>
      rw [entriesOfToml, entriesOfToml, bareEntries, bareEntries, bare_ofToml origin origin' e.2,
        bareEntries_entriesOfToml origin origin' rest]

end

end Origin

/-- One entry after the other, set over what stands behind a key, keeps that alike. -/
theorem foldl_setAlong (origin origin' : String) (entries : FileEntries)
    {old old' : Option Value} (h : AlikeIfAny old old') :
    AlikeIfAny
      ((entriesOfToml origin entries).foldl
        (fun old e => some (e.2.setAlong (pathOfKey e.1).below old)) old)
      ((entriesOfToml origin' entries).foldl
        (fun old e => some (e.2.setAlong (pathOfKey e.1).below old)) old') := by
  induction entries generalizing old old' with
  | nil => exact h
  | cons e entries ih =>
      have hv := bare_ofToml origin origin' e.2
      exact ih (.some (Alike.setAlong (Alike.setOver _ _ hv) (pathOfKey e.1).below h))

/-- The entries of a file that are not set behind a key. -/
def FileLayer.besides (l : FileLayer) (files : Files) (key : String) : Option FileEntries :=
  (l.entries? files).map fun entries => entries.filter fun e => (pathOfKey e.1).first ≠ key

/-- The same stands behind every key but one. -/
def AgreeBesides (key : String) (v w : Value) : Prop :=
  ∀ other, other ≠ key → AlikeIfAny (v.get? other) (w.get? other)

namespace AgreeBesides

variable {key : String} {v w : Value}

theorem rest?_eq (h : AgreeBesides "logging" v w) : v.rest? = w.rest? := by
  rw [rest?, rest?,
    (h "diagnostics" (by decide)).bind_eq fun _ _ => Alike.source?_eq,
    (h "completion" (by decide)).bind_eq fun _ _ => Alike.completion?_eq]

theorem addEntries (h : AgreeBesides key v w) (origin origin' : String)
    {entries entries' : FileEntries}
    (hentries : (entries.filter fun e => (pathOfKey e.1).first ≠ key) =
      entries'.filter fun e => (pathOfKey e.1).first ≠ key) :
    AgreeBesides key (v.addEntries (entriesOfToml origin entries))
      (w.addEntries (entriesOfToml origin' entries')) := by
  intro other hother
  have hbehind (entries : FileEntries) :
      (entries.filter fun e => (pathOfKey e.1).first = other) =
        (entries.filter fun e => (pathOfKey e.1).first ≠ key).filter
          fun e => (pathOfKey e.1).first = other := by
    rw [List.filter_filter]
    refine List.filter_congr fun e _ => ?_
    by_cases heq : (pathOfKey e.1).first = other
    · simp [heq, hother]
    · simp [heq]
  rw [get?_addEntries, get?_addEntries,
    filter_entriesOfToml origin entries fun name => (pathOfKey name).first = other,
    filter_entriesOfToml origin' entries' fun name => (pathOfKey name).first = other,
    hbehind entries, hbehind entries', hentries]
  exact foldl_setAlong origin origin' _ (h other hother)

variable {files files' : Files}

theorem addTo (h : AgreeBesides key v w) {l l' : FileLayer} {entries : FileEntries}
    (hload : l.entries? files = some entries)
    (hbesides : l.besides files key = l'.besides files' key) :
    AgreeBesides key (l.addTo files v) (l'.addTo files' w) := by
  rw [FileLayer.besides, FileLayer.besides, hload, Option.map_some] at hbesides
  obtain ⟨entries', hload', hentries⟩ := Option.map_eq_some_iff.mp hbesides.symm
  rw [FileLayer.addTo, FileLayer.addTo, hload, hload', Option.getD_some, Option.getD_some]
  exact h.addEntries _ _ hentries.symm

theorem addFiles (h : AgreeBesides key v w) {layers layers' : List FileLayer}
    (hload : ∀ l ∈ layers, (l.entries? files).isSome)
    (hbesides : layers.map (·.besides files key) = layers'.map (·.besides files' key)) :
    AgreeBesides key (addFiles files layers v) (addFiles files' layers' w) := by
  induction layers generalizing layers' v w with
  | nil =>
      obtain rfl := List.map_eq_nil_iff.mp hbesides.symm
      exact h
  | cons l layers ih =>
      obtain ⟨l', rest, rfl, hl, hrest⟩ := List.map_eq_cons_iff.mp hbesides.symm
      obtain ⟨hloads, hload⟩ := List.forall_mem_cons.mp hload
      obtain ⟨entries, hentries⟩ := Option.isSome_iff_exists.mp hloads
      exact ih (h.addTo hentries hl.symm) hload hrest.symm

end AgreeBesides

theorem forall_isSome_entries?_iff {files : Files} {layers : List FileLayer} (key : String) :
    (∀ l ∈ layers, (l.entries? files).isSome) ↔
      ∀ entries ∈ layers.map (·.besides files key), entries.isSome := by
  simp [FileLayer.besides]

namespace Layers

variable {files : Files} {layers : List FileLayer} {directive : String}

theorem pinFilter_ofFiles (layers : List FileLayer) (directive : String) :
    (ofFiles layers).pinFilter (some directive) =
      { files := layers, overrides := [(filterPath, .text directive)] } := by
  rw [ofFiles_eq]
  rfl

theorem resolve_pinFilter_iff (hload : ∀ l ∈ layers, (l.entries? files).isSome)
    (hdotted : ∀ l ∈ layers, l.IsDotted files) {s : Settings} :
    ((ofFiles layers).pinFilter (some directive)).resolve files = .ok s ↔
      s.filter = directive ∧ (addFiles files layers Default.root).rest? = some s.rest := by
  have hset (root : Value) :
      applyOverride root (filterPath, .text directive) = .ok (root.pinned directive) := by
    have hpath : filterPath.isDotted := rfl
    rw [applyOverride, set_eq_setAlong hpath]
    rfl
  have hmerged : ((ofFiles layers).pinFilter (some directive)).merged files =
      .ok ((addFiles files layers Default.root).pinned directive) := by
    rw [pinFilter_ofFiles, merged, foldlM_applyFile hload hdotted]
    exact hset _
  rw [← toOption_eq_some_iff, toOption_resolve, hmerged, toOption_ok, Option.bind_some,
    settings?_pinned_iff]

theorem toOption_resolve_pinFilter_eq_none
    (hload : ¬ ∀ l ∈ layers, (l.entries? files).isSome) :
    (((ofFiles layers).pinFilter (some directive)).resolve files).toOption = none := by
  simp only [not_forall, Option.not_isSome_iff_eq_none] at hload
  obtain ⟨l, hl, hnone⟩ := hload
  have hfiles : l ∈ ((ofFiles layers).pinFilter (some directive)).files := by
    rwa [pinFilter_ofFiles]
  obtain ⟨fault, hfault⟩ := resolve_error hfiles hnone
  rw [hfault]
  rfl

theorem isSome_entries?_of_resolve_pinFilter {s : Settings}
    (hs : ((ofFiles layers).pinFilter (some directive)).resolve files = .ok s) :
    ∀ l ∈ layers, (l.entries? files).isSome := by
  by_contra hload
  have hnone := (toOption_eq_some_iff.mpr hs).symm.trans (toOption_resolve_pinFilter_eq_none hload)
  cases hnone

/-- Files that set the same besides logging come to the same. -/
theorem toOption_resolve_pinFilter_eq {files' : Files} {layers' : List FileLayer}
    (hdotted : ∀ l ∈ layers, l.IsDotted files) (hdotted' : ∀ l ∈ layers', l.IsDotted files')
    (hbesides : layers.map (·.besides files "logging") =
      layers'.map (·.besides files' "logging")) :
    (((ofFiles layers).pinFilter (some directive)).resolve files).toOption =
      (((ofFiles layers').pinFilter (some directive)).resolve files').toOption := by
  have hloads : (∀ l ∈ layers, (l.entries? files).isSome) ↔
      ∀ l ∈ layers', (l.entries? files').isSome := by
    rw [forall_isSome_entries?_iff "logging", hbesides, ← forall_isSome_entries?_iff "logging"]
  by_cases hload : ∀ l ∈ layers, (l.entries? files).isSome
  · have hload' := hloads.mp hload
    have hagree : AgreeBesides "logging" (addFiles files layers Default.root)
        (addFiles files' layers' Default.root) :=
      AgreeBesides.addFiles (fun _ _ => .refl _) hload hbesides
    ext s
    rw [toOption_eq_some_iff, toOption_eq_some_iff, resolve_pinFilter_iff hload hdotted,
      resolve_pinFilter_iff hload' hdotted', hagree.rest?_eq]
  · have hload' := hloads.not.mp hload
    rw [toOption_resolve_pinFilter_eq_none hload, toOption_resolve_pinFilter_eq_none hload']

end Layers

/-- With a pinned filter the settings resolve just if the files load and the other two sections can
be read. The filter is the pinned one, the other settings are those without it, and files that
differ only in what they set for logging make no difference. -/
theorem pinned_filter (files : Files) (layers : List FileLayer)
    (hdotted : ∀ l ∈ layers, l.IsDotted files) (directive : String) :
    ((∃ s, ((Layers.ofFiles layers).pinFilter (some directive)).resolve files = .ok s) ↔
      (∀ l ∈ layers, (l.entries? files).isSome) ∧
      ∃ root, (Layers.ofFiles layers).merged files = .ok root ∧
        (∃ source, readSection root "diagnostics" readSource = .ok (some source)) ∧
        ∃ completion, readSection root "completion" readCompletion = .ok (some completion)) ∧
    (∀ s, ((Layers.ofFiles layers).pinFilter (some directive)).resolve files = .ok s →
      s.filter = directive ∧
      ∀ s', (Layers.ofFiles layers).resolve files = .ok s' → s'.rest = s.rest) ∧
    ∀ files' layers', (∀ l ∈ layers', l.IsDotted files') →
      layers.map (·.besides files "logging") = layers'.map (·.besides files' "logging") →
      (((Layers.ofFiles layers).pinFilter (some directive)).resolve files).toOption =
        (((Layers.ofFiles layers').pinFilter (some directive)).resolve files').toOption := by
  refine ⟨⟨?_, ?_⟩, ?_, fun files' layers' hdotted' hbesides =>
    Layers.toOption_resolve_pinFilter_eq hdotted hdotted' hbesides⟩
  · rintro ⟨s, hs⟩
    have hload := Layers.isSome_entries?_of_resolve_pinFilter hs
    have hrest := ((Layers.resolve_pinFilter_iff hload hdotted).mp hs).2
    obtain ⟨hsource, hcompletion⟩ := rest?_eq_some_iff.mp hrest
    exact ⟨hload, _, Layers.merged_ofFiles hload hdotted, ⟨_, hsource⟩, ⟨_, hcompletion⟩⟩
  · rintro ⟨hload, root, hroot, ⟨source, hsource⟩, ⟨detail, triggers⟩, hcompletion⟩
    obtain rfl := Except.ok.inj ((Layers.merged_ofFiles hload hdotted).symm.trans hroot)
    exact ⟨⟨directive, source, detail, triggers⟩, (Layers.resolve_pinFilter_iff hload hdotted).mpr
      ⟨rfl, rest?_eq_some_iff.mpr ⟨hsource, hcompletion⟩⟩⟩
  · intro s hs
    have hload := Layers.isSome_entries?_of_resolve_pinFilter hs
    obtain ⟨hfilter, hrest⟩ := (Layers.resolve_pinFilter_iff hload hdotted).mp hs
    refine ⟨hfilter, fun s' hs' => ?_⟩
    rw [← toOption_eq_some_iff, Layers.toOption_resolve, Layers.merged_ofFiles hload hdotted] at hs'
    exact Option.some.inj ((settings?_eq_some_iff.mp hs').2.symm.trans hrest)

/-- A text stands where the section for logging should be. -/
theorem pinned_filter_over_text :
    (⟨"a", true⟩ : FileLayer).IsDotted [("a", "logging='x'")] ∧
    (∃ s, ((Layers.ofFiles [⟨"a", true⟩]).pinFilter (some "debug")).resolve
      [("a", "logging='x'")] = .ok s ∧ s.filter = "debug") ∧
    (((Layers.ofFiles [⟨"a", true⟩]).pinFilter (some "debug")).resolve
        [("a", "logging='x'")]).toOption =
      (((Layers.ofFiles [⟨"b", false⟩]).pinFilter (some "debug")).resolve []).toOption := by
  have hdotted : ∀ l ∈ [(⟨"a", true⟩ : FileLayer)], l.IsDotted [("a", "logging='x'")] := by
    decide +kernel
  have hload : ∀ l ∈ [(⟨"a", true⟩ : FileLayer)],
      (l.entries? [("a", "logging='x'")]).isSome := by
    decide +kernel
  have hrest : (addFiles [("a", "logging='x'")] [⟨"a", true⟩] Default.root).rest? =
      some ("openfoam-lsp", "OpenFOAM keyword", [".", "\"", " "]) := by
    decide +kernel
  obtain ⟨hsource, hcompletion⟩ := rest?_eq_some_iff.mp hrest
  obtain ⟨hresolves, hpinned, hsame⟩ :=
    pinned_filter [("a", "logging='x'")] [⟨"a", true⟩] hdotted "debug"
  refine ⟨hdotted _ List.mem_cons_self, ?_, hsame [] [⟨"b", false⟩] (by decide +kernel) ?_⟩
  · have hroot := Layers.merged_ofFiles hload hdotted
    obtain ⟨s, hs⟩ := hresolves.mpr ⟨hload, _, hroot, ⟨_, hsource⟩, _, hcompletion⟩
    exact ⟨s, hs, (hpinned s hs).1⟩
  -- Neither file has entries beside the section for logging.
  · have hnone : ∀ l ∈ [((⟨"a", true⟩ : FileLayer), [("a", "logging='x'")]), (⟨"b", false⟩, [])],
        (l.1.besides l.2 "logging").any List.isEmpty := by
      decide +kernel
    have hempty {besides : Option FileEntries} (h : besides.any List.isEmpty) :
        besides = some [] := by
      obtain ⟨entries, rfl, hentries⟩ := (Option.any_eq_true _ _).mp h
      exact congrArg some (List.isEmpty_iff.mp hentries)
    rw [List.map_singleton, List.map_singleton, hempty (hnone (⟨"a", true⟩, _) (by simp)),
      hempty (hnone (⟨"b", false⟩, _) (by simp))]

end Settings

end FoamDict

import FoamDict.Proofs.Settings.Read
import FoamDict.Settings.Layers

/-!
# Loading files

The entries of a file are set at the paths that their keys stand for. If no key has an index,
loading fails just for files that are malformed, or required and not found; whatever the other files
hold, one such file is enough.
-/

namespace FoamDict.Settings

abbrev FileEntries := List (String × Toml.Value)

namespace FileLayer

variable (l : FileLayer) (files : Files)

/-- The entries of the file; an optional file that is not found has none. -/
def entries? : Option FileEntries :=
  match findFile? files l.path with
  | none => if l.isRequired then none else some []
  | some (_, text) => Toml.entries? text

/-- The name of the file that is found. -/
def origin : String := ((findFile? files l.path).map (·.1)).getD l.path

/-- No key at the top of the file has an index. -/
def IsDotted : Prop :=
  ∀ entries, l.entries? files = some entries → ∀ e ∈ entries, (pathOfKey e.1).isDotted

instance : Decidable (l.IsDotted files) :=
  decidable_of_iff ((l.entries? files).all fun entries =>
    entries.all fun e => (pathOfKey e.1).isDotted) <| by
      rw [IsDotted]
      cases l.entries? files <;> simp

end FileLayer

namespace Value

/-- Entries set at the paths of their keys, none of which has an index. -/
def addEntries (root : Value) (entries : List (String × Value)) : Value :=
  root.setAll (fun key => (pathOfKey key).names) entries

/-- Behind a key only the entries count whose paths start there. -/
theorem get?_addEntries (root : Value) (entries : List (String × Value)) (key : String) :
    (root.addEntries entries).get? key =
      (entries.filter fun e => (pathOfKey e.1).first = key).foldl
        (fun old e => some (e.2.setAlong (pathOfKey e.1).below old)) (root.get? key) := by
  simp only [addEntries, setAll, setAlong_names]
  rw [get?_foldl_put (fun e : String × Value => (pathOfKey e.1).first)
    (fun e old => e.2.setAlong (pathOfKey e.1).below old)]

theorem entriesOfToml_eq_map (origin : String) (entries : FileEntries) :
    entriesOfToml origin entries = entries.map fun e => (e.1, ofToml origin e.2) := by
  induction entries with
  | nil => rfl
  | cons e entries ih => rw [entriesOfToml, ih, List.map_cons]

theorem filter_entriesOfToml (origin : String) (entries : FileEntries) (test : String → Bool) :
    (entriesOfToml origin entries).filter (fun e => test e.1) =
      entriesOfToml origin (entries.filter fun e => test e.1) := by
  rw [entriesOfToml_eq_map, entriesOfToml_eq_map, List.filter_map]
  rfl

theorem itemsOfToml_eq_map (origin : String) (items : List Toml.Value) :
    itemsOfToml origin items = items.map (ofToml origin) := by
  induction items with
  | nil => rfl
  | cons v items ih => rw [itemsOfToml, ih, List.map_cons]

end Value

open Value

theorem mergeFile_eq_addEntries {entries : List (String × Value)}
    (hdotted : ∀ e ∈ entries, (pathOfKey e.1).isDotted) (root : Value) :
    mergeFile root entries = some (root.addEntries entries) := foldlM_set hdotted root

namespace FileLayer

variable {l : FileLayer} {files : Files}

/-- The settings with the file laid over them; a file without entries to give leaves them. -/
def addTo (l : FileLayer) (files : Files) (root : Value) : Value :=
  root.addEntries (entriesOfToml (l.origin files) ((l.entries? files).getD []))

theorem applyFile_of_entries? {entries : FileEntries} (hload : l.entries? files = some entries)
    (root : Value) :
    Layers.applyFile files root l =
      (mergeFile root (entriesOfToml (l.origin files) entries)).elim
        (.error .indexBeforeStart) .ok := by
  rw [entries?] at hload
  rw [Layers.applyFile, origin]
  cases hfound : findFile? files l.path with
  | none =>
      rw [hfound] at hload
      dsimp only at hload ⊢
      by_cases hrequired : l.isRequired
      · rw [if_pos hrequired] at hload
        cases hload
      · rw [if_neg hrequired] at hload ⊢
        obtain rfl := Option.some.inj hload
        rfl
  | some found =>
      rw [hfound] at hload
      dsimp only [Option.map_some, Option.getD_some] at hload ⊢
      rw [hload]
      dsimp only
      cases mergeFile root (entriesOfToml found.1 entries) <;> rfl

theorem applyFile_eq_addTo (hload : (l.entries? files).isSome) (hdotted : l.IsDotted files)
    (root : Value) : Layers.applyFile files root l = .ok (l.addTo files root) := by
  obtain ⟨entries, hentries⟩ := Option.isSome_iff_exists.mp hload
  have hread : ∀ e ∈ entriesOfToml (l.origin files) entries, (pathOfKey e.1).isDotted := by
    intro e he
    rw [entriesOfToml_eq_map] at he
    obtain ⟨read, hread, rfl⟩ := List.mem_map.mp he
    exact hdotted entries hentries read hread
  rw [applyFile_of_entries? hentries, mergeFile_eq_addEntries hread, addTo, hentries]
  rfl

theorem applyFile_error (hload : l.entries? files = none) (root : Value) :
    ∃ fault, Layers.applyFile files root l = .error fault := by
  rw [entries?] at hload
  rw [Layers.applyFile]
  cases hfound : findFile? files l.path with
  | none =>
      rw [hfound] at hload
      dsimp only at hload ⊢
      split at hload
      · exact ⟨_, if_pos ‹_›⟩
      · cases hload
  | some found =>
      rw [hfound] at hload
      dsimp only at hload ⊢
      rw [hload]
      exact ⟨_, rfl⟩

end FileLayer

/-- The settings with files laid over them one after the other. -/
def addFiles (files : Files) (layers : List FileLayer) (root : Value) : Value :=
  layers.foldl (fun root l => l.addTo files root) root

theorem foldlM_applyFile {files : Files} {layers : List FileLayer}
    (hload : ∀ l ∈ layers, (l.entries? files).isSome)
    (hdotted : ∀ l ∈ layers, l.IsDotted files) (root : Value) :
    layers.foldlM (Layers.applyFile files) root = .ok (addFiles files layers root) := by
  induction layers generalizing root with
  | nil => rfl
  | cons l layers ih =>
      obtain ⟨hl, hlayers⟩ := List.forall_mem_cons.mp hload
      obtain ⟨hl', hlayers'⟩ := List.forall_mem_cons.mp hdotted
      rw [List.foldlM_cons, FileLayer.applyFile_eq_addTo hl hl']
      exact ih hlayers hlayers' _

theorem foldlM_applyFile_error {files : Files} {layers : List FileLayer} {l : FileLayer}
    (hl : l ∈ layers) (hload : l.entries? files = none) (root : Value) :
    ∃ fault, layers.foldlM (Layers.applyFile files) root = .error fault := by
  induction layers generalizing root with
  | nil => cases hl
  | cons first layers ih =>
      rw [List.foldlM_cons]
      cases happly : Layers.applyFile files root first with
      | error fault => exact ⟨fault, rfl⟩
      | ok next =>
          rcases List.mem_cons.mp hl with rfl | hl
          · obtain ⟨fault, hfault⟩ := FileLayer.applyFile_error hload root
            rw [happly] at hfault
            cases hfault
          · exact ih hl next

namespace Layers

/-- Files layered in that order, without overrides. -/
def ofFiles (layers : List FileLayer) : Layers :=
  layers.foldl (fun ls l => ls.addFile l.path l.isRequired) {}

theorem foldl_addFile (layers : List FileLayer) (ls : Layers) :
    layers.foldl (fun ls l => ls.addFile l.path l.isRequired) ls =
      { ls with files := ls.files ++ layers } := by
  induction layers generalizing ls with
  | nil => rw [List.append_nil]; rfl
  | cons l layers ih =>
      rw [List.foldl_cons, ih, addFile, List.append_assoc]
      rfl

theorem ofFiles_eq (layers : List FileLayer) : ofFiles layers = { files := layers } :=
  foldl_addFile layers {}

theorem merged_ofFiles {files : Files} {layers : List FileLayer}
    (hload : ∀ l ∈ layers, (l.entries? files).isSome)
    (hdotted : ∀ l ∈ layers, l.IsDotted files) :
    (ofFiles layers).merged files = .ok (addFiles files layers Default.root) := by
  rw [ofFiles_eq, merged, foldlM_applyFile hload hdotted]
  rfl

theorem toOption_resolve (ls : Layers) (files : Files) :
    (ls.resolve files).toOption = (ls.merged files).toOption.bind settings? := by
  rw [resolve, toOption_bind]
  congr 1
  funext root
  rw [← toOption_read]
  cases Settings.read root <;> rfl

theorem resolve_error {ls : Layers} {files : Files} {l : FileLayer} (hl : l ∈ ls.files)
    (hload : l.entries? files = none) : ∃ fault, ls.resolve files = .error fault := by
  obtain ⟨fault, hfault⟩ := foldlM_applyFile_error hl hload Default.root
  exact ⟨fault, by rw [resolve, merged, hfault]; rfl⟩

end Layers

end FoamDict.Settings

import Mathlib.Data.List.Forall2
import FoamDict.Proofs.Settings.Loading

/-!
# Entries in any order

No order is promised of the entries of a table, nor of the overrides. The order matters where paths
meet: of `Source` and `source` the later one stays. Where no path leads on from another, neither at
the top nor inside of tables, entries come to alike values in every order.
-/

namespace FoamDict.Settings

namespace Value

/-- The same entries, in another order at the top or inside of tables. An array is taken whole, with
the tables in it as they are. -/
inductive Reordered : {κ : Type} → List (κ × Value) → List (κ × Value) → Prop
  | perm {κ : Type} {es es' : List (κ × Value)} (h : es.Perm es') : Reordered es es'
  | inside {κ : Type} (key : κ) (origin : Option String) {inner inner' : List (String × Value)}
      (h : Reordered inner inner') (rest : List (κ × Value)) :
      Reordered ((key, table origin inner) :: rest) ((key, table origin inner') :: rest)
  | trans {κ : Type} {es es' es'' : List (κ × Value)} (h : Reordered es es')
      (h' : Reordered es' es'') : Reordered es es''

mutual

/-- Whether no two keys of a table in the value differ only in upper and lower case. -/
def isClear : Value → Bool
  | scalar _ _ => true
  | array _ _ => true
  | table _ entries => (entries.map (·.1.toLower)).Nodup && areClear entries

def areClear : List (String × Value) → Bool
  | [] => true
  | (_, v) :: rest => v.isClear && areClear rest

end

theorem areClear_iff {entries : List (String × Value)} :
    areClear entries ↔ ∀ e ∈ entries, e.2.isClear := by
  induction entries with
  | nil => simp [areClear]
  | cons e entries ih => rw [areClear, Bool.and_eq_true, ih, List.forall_mem_cons]

theorem isClear_table_iff {origin : Option String} {entries : List (String × Value)} :
    (table origin entries).isClear ↔
      (entries.map (·.1.toLower)).Nodup ∧ ∀ e ∈ entries, e.2.isClear := by
  rw [isClear, Bool.and_eq_true, decide_eq_true_iff, areClear_iff]

theorem pairwise_apart_of_nodup {entries : List (String × Value)}
    (h : (entries.map (·.1.toLower)).Nodup) :
    entries.Pairwise fun e e' => Apart [e.1.toLower] [e'.1.toLower] := by
  refine (List.pairwise_map.mp h).imp fun hne => ?_
  simpa [Apart] using ⟨hne, hne.symm⟩

namespace Reordered

variable {κ : Type} {es es' : List (κ × Value)}

theorem refl (es : List (κ × Value)) : Reordered es es := .perm (.refl es)

theorem keys_perm {α : Type} (h : Reordered es es') (f : κ → α) :
    (es.map (f ·.1)).Perm (es'.map (f ·.1)) := by
  induction h with
  | perm h => exact h.map _
  | inside key origin h rest ih => exact .refl _
  | trans _ _ ih ih' => exact (ih f).trans (ih' f)

theorem forall_isDotted (h : Reordered es es') (path : κ → Path)
    (hes : ∀ e ∈ es, (path e.1).isDotted) : ∀ e ∈ es', (path e.1).isDotted := by
  intro e he
  have hkey : path e.1 ∈ es.map (path ·.1) :=
    (h.keys_perm path).mem_iff.mpr (List.mem_map_of_mem he)
  obtain ⟨e', he', heq⟩ := List.mem_map.mp hkey
  exact heq ▸ hes e' he'

theorem pairwise_apart (h : Reordered es es') {keys : κ → List String}
    (hapart : es.Pairwise fun e e' => Apart (keys e.1) (keys e'.1)) :
    es'.Pairwise fun e e' => Apart (keys e.1) (keys e'.1) := by
  have hkeys : (es.map (keys ·.1)).Pairwise Apart := List.pairwise_map.mpr hapart
  exact List.pairwise_map.mp (((h.keys_perm keys).pairwise_iff Apart.symm).mp hkeys)

theorem forall_isClear (h : Reordered es es') (hclear : ∀ e ∈ es, e.2.isClear) :
    ∀ e ∈ es', e.2.isClear := by
  induction h with
  | perm h => exact fun e he => hclear e (h.mem_iff.mpr he)
  | inside key origin h rest ih =>
      obtain ⟨hfirst, hrest⟩ := List.forall_mem_cons.mp hclear
      obtain ⟨hkeys, hinner⟩ := isClear_table_iff.mp hfirst
      have hkeys' := (h.keys_perm String.toLower).nodup_iff.mp hkeys
      exact List.forall_mem_cons.mpr ⟨isClear_table_iff.mpr ⟨hkeys', ih hinner⟩, hrest⟩
  | trans _ _ ih ih' => exact ih' (ih hclear)

/-- An entry is there in every order, at most with another order inside of its value. -/
theorem exists_mem (h : Reordered es es') {key : κ} {v : Value} (hmem : (key, v) ∈ es) :
    (key, v) ∈ es' ∨ ∃ origin inner inner', v = table origin inner ∧
      Reordered inner inner' ∧ (key, table origin inner') ∈ es' := by
  induction h generalizing v with
  | perm h => exact .inl (h.mem_iff.mp hmem)
  | inside other origin h rest ih =>
      rcases List.mem_cons.mp hmem with heq | hmem
      · obtain ⟨rfl, rfl⟩ := Prod.mk.inj heq
        exact .inr ⟨origin, _, _, rfl, h, List.mem_cons_self⟩
      · exact .inl (List.mem_cons_of_mem _ hmem)
  | trans _ _ ih ih' =>
      rcases ih hmem with hmem | ⟨origin, inner, mid, rfl, hmid, hmem⟩
      · exact ih' hmem
      · rcases ih' hmem with hmem | ⟨_, _, inner', heq, hinner', hmem⟩
        · exact .inr ⟨origin, inner, mid, rfl, hmid, hmem⟩
        · obtain ⟨rfl, rfl⟩ := table.inj heq
          exact .inr ⟨origin, inner, inner', rfl, hmid.trans hinner', hmem⟩

theorem filter (h : Reordered es es') (test : κ → Bool) :
    Reordered (es.filter (test ·.1)) (es'.filter (test ·.1)) := by
  induction h with
  | perm h => exact .perm (h.filter _)
  | inside key origin h rest ih =>
      by_cases htest : test key
      · rw [List.filter_cons_of_pos (by simpa using htest),
          List.filter_cons_of_pos (by simpa using htest)]
        exact .inside key origin h _
      · rw [List.filter_cons_of_neg (by simpa using htest),
          List.filter_cons_of_neg (by simpa using htest)]
        exact .refl _
  | trans _ _ ih ih' => exact (ih test).trans (ih' test)

theorem eq_singleton (h : Reordered es es') {key : κ} {v : Value} (hes : es = [(key, v)])
    (hv : v.shape ≠ .table) : es' = [(key, v)] := by
  induction h with
  | perm h => exact List.perm_singleton.mp (hes ▸ h.symm)
  | inside other origin h rest ih =>
      obtain ⟨heq, -⟩ := List.cons.inj hes
      obtain ⟨-, rfl⟩ := Prod.mk.inj heq
      exact absurd rfl hv
  | trans _ _ ih ih' => exact ih' (ih hes)

/-- Entries of which no path leads on from another come to alike values in every order, if the
tables among them are clear. -/
theorem alike_setAll (h : Reordered es es') {keys : κ → List String}
    (hapart : es.Pairwise fun e e' => Apart (keys e.1) (keys e'.1))
    (hclear : ∀ e ∈ es, e.2.isClear) {root root' : Value} (hroot : Alike root root') :
    Alike (root.setAll keys es) (root'.setAll keys es') := by
  induction h generalizing root root' with
  | perm h => exact (setAll_perm h hapart root).trans (hroot.setAll _)
  | @inside _ key origin inner inner' h rest ih =>
      obtain ⟨hkeys, hinner⟩ := isClear_table_iff.mp (hclear _ List.mem_cons_self)
      -- A table is merged along its keys in lower case, whatever the path of its own entry.
      have htable {old old' : Option Value} (hold : AlikeIfAny old old') :
          Alike ((table origin inner).setOver old) ((table origin inner').setOver old') := by
        rw [setOver, setOver, mergeAll_eq_setAll, mergeAll_eq_setAll]
        exact ih (pairwise_apart_of_nodup hkeys) hinner (hold.getD emptyTable)
      exact (Alike.setAlong htable (keys key) (.some hroot)).setAll rest
  | trans h _ ih ih' =>
      have hmiddle := ih hapart hclear hroot
      exact hmiddle.trans (ih' (h.pairwise_apart hapart) (h.forall_isClear hclear) (.refl root'))

end Reordered

/-- Entries at paths without an index, of which none leads on from another, with clear values. -/
@[mk_iff]
structure ClearEntries {κ : Type} (path : κ → Path) (es : List (κ × Value)) : Prop where
  dotted : ∀ e ∈ es, (path e.1).isDotted
  apart : es.Pairwise fun e e' => Apart (path e.1).names (path e'.1).names
  clear : ∀ e ∈ es, e.2.isClear

instance {κ : Type} (path : κ → Path) (es : List (κ × Value)) : Decidable (ClearEntries path es) :=
  decidable_of_iff' _ (clearEntries_iff path es)

end Value

open Value

/-- The entries of a file, if it can be loaded. -/
def FileLayer.read? (l : FileLayer) (files : Files) : Option (List (String × Value)) :=
  (l.entries? files).map (entriesOfToml (l.origin files))

/-- No key at the top of the file has an index or leads on from another, and all values are
clear. -/
def FileLayer.IsClear (l : FileLayer) (files : Files) : Prop :=
  ∀ es, l.read? files = some es → ClearEntries pathOfKey es

instance (l : FileLayer) (files : Files) : Decidable (l.IsClear files) :=
  decidable_of_iff ((l.read? files).all fun es => ClearEntries pathOfKey es) <| by
    rw [FileLayer.IsClear]
    cases l.read? files <;> simp

/-- What is gone through when layers are resolved: the entries of each file, if it can be loaded,
and the overrides. -/
structure Reading where
  files : List (Option (List (String × Value)))
  overrides : List (Path × Value)

namespace Reading

/-- The same is gone through in another order. Files keep their places. -/
structure Reordered (r r' : Reading) : Prop where
  files : List.Forall₂ (Option.Rel Value.Reordered) r.files r'.files
  overrides : Value.Reordered r.overrides r'.overrides

def left? (files : List (Option (List (String × Value)))) (root : Value) : Option Value :=
  files.foldlM (fun root es => es.bind (mergeFile root)) root

def settings? (r : Reading) : Option Settings := do
  let left ← left? r.files Default.root
  let root ← r.overrides.foldlM (fun root o => root.set o.1 o.2) left
  (Settings.read root).toOption

theorem settings?_of_dotted {r : Reading} (hdotted : ∀ o ∈ r.overrides, o.1.isDotted) :
    r.settings? = (left? r.files Default.root).bind fun left =>
      (left.setAll Path.names r.overrides).settings? := by
  rw [settings?]
  congr 1
  funext left
  have hoverrides : r.overrides.foldlM (fun root o => root.set o.1 o.2) left =
      some (left.setAll Path.names r.overrides) := @foldlM_set _ id _ hdotted left
  rw [hoverrides, ← toOption_read]
  rfl

/-- Overrides at paths of which none leads on from another come to the same in every order, whatever
the files left. -/
theorem settings?_perm (fs : List (Option (List (String × Value)))) {os os' : List (Path × Value)}
    (hperm : os.Perm os') (hdotted : ∀ o ∈ os, o.1.isDotted)
    (hapart : os.Pairwise fun o o' => Apart o.1.names o'.1.names) :
    (⟨fs, os⟩ : Reading).settings? = (⟨fs, os'⟩ : Reading).settings? := by
  have hdotted' : ∀ o ∈ os', o.1.isDotted := fun o ho => hdotted o (hperm.mem_iff.mpr ho)
  rw [settings?_of_dotted hdotted, settings?_of_dotted hdotted']
  congr 1
  funext left
  exact (setAll_perm hperm hapart left).settings?_eq

theorem alike_left? {fs fs' : List (Option (List (String × Value)))}
    (h : List.Forall₂ (Option.Rel Value.Reordered) fs fs')
    (hclear : ∀ es, some es ∈ fs → ClearEntries pathOfKey es) {root root' : Value}
    (hroot : Alike root root') : AlikeIfAny (left? fs root) (left? fs' root') := by
  induction h generalizing root root' with
  | nil => exact .some hroot
  | @cons es es' fs fs' hread _ ih =>
      cases hread with
      | none => exact .none
      | @some es es' hread =>
          have hes := hclear es List.mem_cons_self
          have hdotted' := hread.forall_isDotted pathOfKey hes.dotted
          rw [left?, left?, List.foldlM_cons, List.foldlM_cons, Option.bind_some, Option.bind_some,
            mergeFile_eq_addEntries hes.dotted, mergeFile_eq_addEntries hdotted']
          refine ih (fun es hmem => hclear es (List.mem_cons_of_mem _ hmem)) ?_
          exact hread.alike_setAll hes.apart hes.clear hroot

/-- Clear files and overrides come to the same settings in every order. -/
theorem Reordered.settings?_eq {r r' : Reading} (h : r.Reordered r')
    (hfiles : ∀ es, some es ∈ r.files → ClearEntries pathOfKey es)
    (hoverrides : ClearEntries id r.overrides) : r.settings? = r'.settings? := by
  rw [settings?_of_dotted hoverrides.dotted,
    settings?_of_dotted (h.overrides.forall_isDotted id hoverrides.dotted)]
  refine (alike_left? h.files hfiles (.refl Default.root)).bind_eq fun left left' hleft => ?_
  exact (h.overrides.alike_setAll hoverrides.apart hoverrides.clear hleft).settings?_eq

end Reading

namespace Layers

def reading (ls : Layers) (files : Files) : Reading := ⟨ls.files.map (·.read? files), ls.overrides⟩

/-- What layers may come to: settings, or none, with all entries gone through in some order. -/
def MayResolve (ls : Layers) (files : Files) (result : Option Settings) : Prop :=
  ∃ r, (ls.reading files).Reordered r ∧ r.settings? = result

theorem toOption_applyFile (files : Files) (root : Value) (l : FileLayer) :
    (applyFile files root l).toOption = (l.read? files).bind (mergeFile root) := by
  rw [FileLayer.read?]
  cases hentries : l.entries? files with
  | none =>
      obtain ⟨fault, hfault⟩ := FileLayer.applyFile_error hentries root
      rw [hfault]
      rfl
  | some entries =>
      rw [FileLayer.applyFile_of_entries? hentries, Option.map_some, Option.bind_some]
      cases mergeFile root (entriesOfToml (l.origin files) entries) <;> rfl

theorem toOption_applyOverride (root : Value) (o : Path × Value) :
    (applyOverride root o).toOption = root.set o.1 o.2 := by
  rw [applyOverride]
  cases root.set o.1 o.2 <;> rfl

/-- Layers resolve with all entries in the order in which they are written. -/
theorem settings?_reading (ls : Layers) (files : Files) :
    (ls.reading files).settings? = (ls.resolve files).toOption := by
  have hleft := toOption_foldlM (toOption_applyFile files) Default.root ls.files
  rw [toOption_resolve, merged, toOption_bind, hleft, Reading.settings?, reading, Reading.left?,
    List.foldlM_map, Option.bind_assoc]
  congr 1
  funext left
  rw [toOption_foldlM toOption_applyOverride]
  simp only [← toOption_read]
  rfl

theorem mayResolve_resolve (ls : Layers) (files : Files) :
    ls.MayResolve files (ls.resolve files).toOption := by
  refine ⟨_, ⟨List.forall₂_same.mpr fun es _ => ?_, .refl _⟩, ls.settings?_reading files⟩
  cases es with
  | none => exact .none
  | some es => exact .some (.refl es)

theorem MayResolve.perm {fs : List FileLayer} {os os' : List (Path × Value)} {files : Files}
    {result : Option Settings} (h : MayResolve ⟨fs, os⟩ files result) (hperm : os.Perm os') :
    MayResolve ⟨fs, os'⟩ files result := by
  obtain ⟨r, ⟨hfiles, hoverrides⟩, hresult⟩ := h
  exact ⟨r, ⟨hfiles, .trans (.perm hperm.symm) hoverrides⟩, hresult⟩

/-- Clear layers come to one result only. -/
theorem mayResolve_iff {ls : Layers} {files : Files} (hfiles : ∀ l ∈ ls.files, l.IsClear files)
    (hoverrides : ClearEntries id ls.overrides) (result : Option Settings) :
    ls.MayResolve files result ↔ result = (ls.resolve files).toOption := by
  constructor
  · rintro ⟨r, hr, rfl⟩
    rw [← settings?_reading]
    refine (hr.settings?_eq (fun es hes => ?_) hoverrides).symm
    obtain ⟨l, hl, hread⟩ := List.mem_map.mp hes
    exact hfiles l hl es hread
  · rintro rfl
    exact ls.mayResolve_resolve files

end Layers

end FoamDict.Settings

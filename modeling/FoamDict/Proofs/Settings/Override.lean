import FoamDict.Proofs.Settings.Given

/-!
# Overrides

Overrides are set over what the files left, wherever they stand between them. If no path leads on
from another, their order does not matter, and the settings that they give are the ones that are
read. The order in which the entries of the files are gone through is left open: in each order the
overrides come to one result, and if the keys are clear, in all of them to the same.
-/

namespace FoamDict.Settings

/-- One thing to put settings together from. -/
inductive Instruction where
  | file (path : String) (isRequired : Bool)
  | override (key : String) (v : Value)
  | filter (directive : Option String)

namespace Instruction

def layer? : Instruction → Option FileLayer
  | file path isRequired => some ⟨path, isRequired⟩
  | override _ _ => none
  | filter _ => none

/-- The path that is set and its value. A pinned filter is an override like any other. -/
def override? : Instruction → Option (Path × Value)
  | file _ _ => none
  | override key v => (Path.parse key).toOption.map (·, v)
  | filter directive => directive.map fun directive => (Layers.filterPath, .text directive)

end Instruction

namespace Layers

def follow (ls : Layers) : Instruction → Except PathFault Layers
  | .file path isRequired => .ok (ls.addFile path isRequired)
  | .override key v => ls.overrideAt key v
  | .filter directive => .ok (ls.pinFilter directive)

def followAll (is : List Instruction) : Except PathFault Layers := is.foldlM follow {}

end Layers

/-- All overrides are at paths without an index, of which none is or leads on from another. -/
structure Independent (is : List Instruction) : Prop where
  dotted : ∀ key v, Instruction.override key v ∈ is → ∃ p, Path.parse key = .ok p ∧ p.isDotted
  apart : (is.filterMap Instruction.override?).Pairwise fun o o' => Value.Apart o.1.names o'.1.names

open Value

namespace Layers

theorem override_of_apart {ls : Layers} {path : Path}
    (h : ∀ o ∈ ls.overrides, Apart o.1.names path.names) (v : Value) :
    ls.override path v = { ls with overrides := ls.overrides ++ [(path, v)] } := by
  have hkept : ls.overrides.filter (·.1 ≠ path) = ls.overrides := by
    refine List.filter_eq_self.mpr fun o ho => ?_
    have hne : o.1 ≠ path := by
      rintro rfl
      exact (h o ho).1 List.prefix_rfl
    simpa using hne
  rw [override, hkept]

theorem follow_eq {ls : Layers} {i : Instruction}
    (hdotted : ∀ key v, i = .override key v → ∃ p, Path.parse key = .ok p ∧ p.isDotted)
    (hapart : ∀ o ∈ i.override?, ∀ o' ∈ ls.overrides, Apart o'.1.names o.1.names) :
    ls.follow i = .ok ⟨ls.files ++ i.layer?.toList, ls.overrides ++ i.override?.toList⟩ := by
  cases i with
  | file path isRequired =>
      simp only [Instruction.override?, Option.toList_none, List.append_nil]
      rfl
  | override key v =>
      obtain ⟨p, hp, -⟩ := hdotted key v rfl
      rw [Instruction.override?, hp] at hapart ⊢
      rw [follow, overrideAt, hp]
      simp only [Instruction.layer?, Option.toList_none, List.append_nil]
      exact congrArg Except.ok (override_of_apart (hapart _ rfl) v)
  | filter directive =>
      simp only [Instruction.layer?, Option.toList_none, List.append_nil]
      cases directive with
      | none => exact congrArg Except.ok (by simp [pinFilter, Instruction.override?])
      | some directive => exact congrArg Except.ok (override_of_apart (hapart _ rfl) _)

/-- Independent instructions are taken apart into files and overrides, in their order. -/
theorem foldlM_follow {is : List Instruction}
    (hdotted : ∀ key v, .override key v ∈ is → ∃ p, Path.parse key = .ok p ∧ p.isDotted)
    {ls : Layers} (hapart : (ls.overrides ++ is.filterMap Instruction.override?).Pairwise
      fun o o' => Apart o.1.names o'.1.names) :
    is.foldlM follow ls = .ok ⟨ls.files ++ is.filterMap Instruction.layer?,
      ls.overrides ++ is.filterMap Instruction.override?⟩ := by
  induction is generalizing ls with
  | nil =>
      simp only [List.filterMap_nil, List.append_nil]
      rfl
  | cons i is ih =>
      have hcons {α : Type} (f : Instruction → Option α) :
          (i :: is).filterMap f = (f i).toList ++ is.filterMap f := by
        rw [List.filterMap_cons]
        cases f i <;> rfl
      rw [hcons, ← List.append_assoc] at hapart
      have hstep : ls.follow i =
          .ok ⟨ls.files ++ i.layer?.toList, ls.overrides ++ i.override?.toList⟩ := by
        refine follow_eq (fun key v h => hdotted key v (h ▸ List.mem_cons_self)) ?_
        intro o ho o' ho'
        have hfront := (List.pairwise_append.mp hapart).1
        exact (List.pairwise_append.mp hfront).2.2 o' ho' o (Option.mem_toList.mpr ho)
      rw [List.foldlM_cons, hstep, hcons, hcons, ← List.append_assoc, ← List.append_assoc]
      exact ih (fun key v h => hdotted key v (List.mem_cons_of_mem _ h)) hapart

end Layers

namespace Independent

variable {is is' : List Instruction}

theorem isDotted (h : Independent is) :
    ∀ o ∈ is.filterMap Instruction.override?, o.1.isDotted := by
  intro o ho
  obtain ⟨i, hi, hio⟩ := List.mem_filterMap.mp ho
  cases i with
  | file path isRequired => cases hio
  | override key v =>
      obtain ⟨p, hp, hdotted⟩ := h.dotted key v hi
      rw [Instruction.override?, hp] at hio
      exact Option.some.inj hio ▸ hdotted
  | filter directive =>
      obtain ⟨directive, -, rfl⟩ := Option.map_eq_some_iff.mp hio
      rfl

theorem perm (h : Independent is) (hperm : is.Perm is') : Independent is' where
  dotted key v hmem := h.dotted key v (hperm.mem_iff.mpr hmem)
  apart := ((hperm.filterMap _).pairwise_iff fun h => h.symm).mp h.apart

theorem followAll_eq (h : Independent is) : Layers.followAll is =
    .ok ⟨is.filterMap Instruction.layer?, is.filterMap Instruction.override?⟩ :=
  Layers.foldlM_follow h.dotted h.apart

end Independent

/-- Independent overrides come to the same settings, or to none, in every order and wherever they
stand between the files. So it is for each order in which the entries of the files may be gone
through, and if all keys are clear no order comes to anything else. What an override gives is what
is read, whatever the files hold. -/
theorem overrides_independent (files : Files) {is is' : List Instruction}
    (hindependent : Independent is) (hperm : is.Perm is')
    (hfiles : is.filterMap Instruction.layer? = is'.filterMap Instruction.layer?) :
    ∃ ls ls', Layers.followAll is = .ok ls ∧ Layers.followAll is' = .ok ls' ∧
      (ls.resolve files).toOption = (ls'.resolve files).toOption ∧
      (∀ read os os', ls.overrides.Perm os → ls'.overrides.Perm os' →
        (⟨read, os⟩ : Reading).settings? = (⟨read, os'⟩ : Reading).settings?) ∧
      (∀ result, ls.MayResolve files result ↔ ls'.MayResolve files result) ∧
      ((∀ l ∈ ls.files, l.IsClear files) → (∀ o ∈ ls.overrides, o.2.isClear) →
        ∀ result, ls.MayResolve files result ↔ result = (ls'.resolve files).toOption) ∧
      ∀ s, ls.MayResolve files (some s) → ∀ o ∈ is.filterMap Instruction.override?,
        ∀ setting v, Gives setting v o → v.shape ≠ .table → setting.IsReadFrom s v := by
  have hindependent' := hindependent.perm hperm
  have hoverrides := hperm.filterMap Instruction.override?
  have hsame (read : List (Option (List (String × Value)))) (os os' : List (Path × Value))
      (hos : (is.filterMap Instruction.override?).Perm os)
      (hos' : (is'.filterMap Instruction.override?).Perm os') :
      (⟨read, os⟩ : Reading).settings? = (⟨read, os'⟩ : Reading).settings? := by
    have hleft := Reading.settings?_perm read hos hindependent.isDotted hindependent.apart
    exact hleft.symm.trans (Reading.settings?_perm read (hoverrides.trans hos')
      hindependent.isDotted hindependent.apart)
  have hresolve : (Layers.resolve ⟨is.filterMap Instruction.layer?,
        is.filterMap Instruction.override?⟩ files).toOption =
      (Layers.resolve ⟨is'.filterMap Instruction.layer?,
        is'.filterMap Instruction.override?⟩ files).toOption := by
    rw [hfiles, ← Layers.settings?_reading, ← Layers.settings?_reading]
    exact hsame _ _ _ (.refl _) (.refl _)
  refine ⟨_, _, hindependent.followAll_eq, hindependent'.followAll_eq, hresolve, hsame,
    fun result => ?_, fun hclear hvalues result => ?_, fun s hs o ho setting v hgives hv => ?_⟩
  · rw [hfiles]
    exact ⟨fun h => h.perm hoverrides, fun h => h.perm hoverrides.symm⟩
  · rw [← hresolve]
    exact Layers.mayResolve_iff hclear ⟨hindependent.isDotted, hindependent.apart, hvalues⟩ result
  · exact Layers.isReadFrom_of_gives hindependent.isDotted hindependent.apart hs ho hgives hv

theorem parse_source :
    Path.parse "diagnostics.source" = .ok ⟨"diagnostics", [.key "source"]⟩ :=
  toOption_eq_some_iff.mp (by decide +kernel)

theorem independent_source_and_filter : Independent
    [.override "diagnostics.source" (.text "x"), .file "a" true, .filter (some "debug")] where
  dotted key v hmem := by
    obtain ⟨rfl, -⟩ : key = "diagnostics.source" ∧ v = .text "x" := by simpa using hmem
    exact ⟨_, parse_source, rfl⟩
  apart := by decide +kernel

/-- The override of the source comes in front of a file with a text for the whole section, or
behind it. In every order of all entries both come to the same. -/
theorem overrides_independent_around_file : ∃ ls ls',
    Layers.followAll [.override "diagnostics.source" (.text "x"), .file "a" true,
      .filter (some "debug")] = .ok ls ∧
    Layers.followAll [.file "a" true, .filter (some "debug"),
      .override "diagnostics.source" (.text "x")] = .ok ls' ∧
    (∀ result, ls.MayResolve [("a", "diagnostics='y'")] result ↔
      result = some ⟨"debug", "x", "OpenFOAM keyword", [".", "\"", " "]⟩) ∧
    (∀ result, ls.MayResolve [("a", "diagnostics='y'")] result ↔
      ls'.MayResolve [("a", "diagnostics='y'")] result) ∧
    ∀ s, ls.MayResolve [("a", "diagnostics='y'")] (some s) → some "x" = some s.source := by
  have hperm : List.Perm
      [Instruction.override "diagnostics.source" (.text "x"), .file "a" true,
        .filter (some "debug")]
      [.file "a" true, .filter (some "debug"), .override "diagnostics.source" (.text "x")] :=
    (List.Perm.swap _ _ _).trans (.cons _ (.swap _ _ _))
  obtain ⟨ls, ls', hls, hls', -, -, hiff, hclear, hgives⟩ :=
    overrides_independent [("a", "diagnostics='y'")] independent_source_and_filter hperm rfl
  refine ⟨ls, ls', hls, hls', fun result => ?_, hiff, fun s hs => ?_⟩
  · obtain rfl := Except.ok.inj (independent_source_and_filter.followAll_eq.symm.trans hls)
    have hfollow' := (independent_source_and_filter.perm hperm).followAll_eq
    obtain rfl := Except.ok.inj (hfollow'.symm.trans hls')
    rw [hclear (by decide +kernel) (by decide +kernel) result]
    exact iff_of_eq (congrArg (result = ·) (by decide +kernel))
  · have hpath : (Instruction.override "diagnostics.source" (.text "x")).override? =
        some (⟨"diagnostics", [.key "source"]⟩, .text "x") := by
      rw [Instruction.override?, parse_source]
      rfl
    exact hgives s hs _ (List.mem_filterMap.mpr ⟨_, List.mem_cons_self, hpath⟩) .source (.text "x")
      (.whole (by decide +kernel)) nofun

end FoamDict.Settings

import FoamDict.Proofs.Settings.Order

/-!
# What overrides give

An override stands above the files: what it sets at its path is there when all overrides are set,
whatever the files left, and a setting that it gives is the one that is read. Only tables are merged
into what was there.
-/

namespace FoamDict.Settings

namespace Value

/-- What stands at the end of keys. -/
def at? : (keys : List String) → Value → Option Value
  | [], v => some v
  | key :: keys, v => (v.get? key).bind (at? keys)

theorem at?_setAlong (v : Value) (keys : List String) (old : Option Value) :
    at? keys (v.setAlong keys old) = some (v.setOver (old.bind (at? keys))) := by
  induction keys generalizing old with
  | nil => cases old <;> rfl
  | cons key keys ih =>
      rw [at?, setAlong, get?_put, if_pos rfl, Option.bind_some, ih]
      cases old <;> rfl

theorem at?_setAlong_of_apart (v : Value) {keys keys' : List String} (h : Apart keys keys')
    (old : Option Value) : at? keys (v.setAlong keys' old) = old.bind (at? keys) := by
  induction keys generalizing keys' old with
  | nil => exact absurd List.nil_prefix h.1
  | cons key keys ih =>
      cases keys' with
      | nil => exact absurd List.nil_prefix h.2
      | cons key' keys' =>
          have hold : ((old.getD nothing).get? key).bind (at? keys) =
              old.bind (at? (key :: keys)) := by
            cases old <;> rfl
          rw [at?, setAlong, get?_put]
          by_cases hkey : key = key'
          · subst hkey
            rw [if_pos rfl, Option.bind_some, ih (apart_cons_self_iff.mp h), hold]
          · rw [if_neg hkey, hold]

section Entries

variable {κ : Type} {keys : κ → List String}

theorem at?_setAll_of_apart {way : List String} {entries : List (κ × Value)}
    (h : ∀ e ∈ entries, Apart way (keys e.1)) (root : Value) :
    at? way (root.setAll keys entries) = at? way root := by
  induction entries generalizing root with
  | nil => rfl
  | cons e entries ih =>
      obtain ⟨he, hrest⟩ := List.forall_mem_cons.mp h
      exact (ih hrest _).trans (at?_setAlong_of_apart e.2 he (some root))

/-- At the end of its keys stands what an entry made of what was there before all of them. -/
theorem at?_setAll {entries : List (κ × Value)}
    (hapart : entries.Pairwise fun e e' => Apart (keys e.1) (keys e'.1)) {e : κ × Value}
    (he : e ∈ entries) (root : Value) :
    at? (keys e.1) (root.setAll keys entries) = some (e.2.setOver (at? (keys e.1) root)) := by
  induction entries generalizing root with
  | nil => cases he
  | cons first rest ih =>
      obtain ⟨hfirst, hrest⟩ := List.pairwise_cons.mp hapart
      rcases List.mem_cons.mp he with rfl | he
      · exact (at?_setAll_of_apart hfirst _).trans (at?_setAlong e.2 (keys e.1) (some root))
      · have hkept := at?_setAlong_of_apart first.2 (hfirst e he).symm (some root)
        exact (ih hrest he _).trans (congrArg (some <| e.2.setOver ·) hkept)

end Entries

theorem setOver_of_shape_ne_table {v : Value} (hv : v.shape ≠ .table) (old : Option Value) :
    v.setOver old = v := by
  cases v with
  | table origin entries => exact absurd rfl hv
  | scalar origin s => rfl
  | array origin items => rfl

end Value

open Value

/-- One of the settings that are read. -/
inductive Setting where
  | filter
  | source
  | detail
  | triggers

namespace Setting

/-- The name of the section that the setting is in. -/
def group : Setting → String
  | filter => "logging"
  | source => "diagnostics"
  | detail => "completion"
  | triggers => "completion"

def key : Setting → String
  | filter => "filter"
  | source => "source"
  | detail => "detail"
  | triggers => "trigger_characters"

/-- The place of the setting in a section that is an array. -/
def place : Setting → Nat
  | filter => 0
  | source => 0
  | detail => 0
  | triggers => 1

def found? (setting : Setting) (root : Value) : Option Value :=
  (root.get? setting.group).bind (·.member? setting.key setting.place)

/-- The setting is the one that is read from a value. -/
def IsReadFrom (setting : Setting) (s : Settings) (v : Value) : Prop :=
  match setting with
  | filter => v.text? = some s.filter
  | source => v.text? = some s.source
  | detail => v.text? = some s.detail
  | triggers => v.texts? = some s.triggers

theorem bind_found? {α : Type} (setting : Setting) (root : Value) (read : Value → Option α) :
    (setting.found? root).bind read = (root.get? setting.group).bind fun inner =>
      (inner.member? setting.key setting.place).bind read := Option.bind_assoc _ _ _

theorem isReadFrom_of_settings? {root v : Value} {s : Settings} (hs : root.settings? = some s)
    {setting : Setting} (hfound : setting.found? root = some v) : setting.IsReadFrom s v := by
  have hread {α : Type} (read : Value → Option α) :
      ((root.get? setting.group).bind fun inner =>
        (inner.member? setting.key setting.place).bind read) = read v := by
    rw [← bind_found?, hfound, Option.bind_some]
  rw [Value.settings?] at hs
  obtain ⟨filter, hfilter, hs⟩ := Option.bind_eq_some_iff.mp hs
  obtain ⟨source, hsource, hs⟩ := Option.bind_eq_some_iff.mp hs
  obtain ⟨⟨detail, triggers⟩, hcompletion, hs⟩ := Option.bind_eq_some_iff.mp hs
  obtain rfl := Option.some.inj hs
  obtain ⟨inner, hinner, hcompletion⟩ := Option.bind_eq_some_iff.mp hcompletion
  obtain ⟨_, hdetail, hcompletion⟩ := Option.bind_eq_some_iff.mp hcompletion
  obtain ⟨_, htriggers, hcompletion⟩ := Option.bind_eq_some_iff.mp hcompletion
  obtain ⟨rfl, rfl⟩ := Prod.mk.inj (Option.some.inj hcompletion)
  cases setting with
  | filter => exact (hread text?).symm.trans hfilter
  | source => exact (hread text?).symm.trans hsource
  | detail => exact (hread text?).symm.trans (Option.bind_eq_some_iff.mpr ⟨inner, hinner, hdetail⟩)
  | triggers =>
      exact (hread texts?).symm.trans (Option.bind_eq_some_iff.mpr ⟨inner, hinner, htriggers⟩)

end Setting

/-- An override gives a setting: its path leads there, or to the section, in which it has the one
entry with its key, or the item at its place. -/
inductive Gives (setting : Setting) (v : Value) : Path × Value → Prop
  | whole {path : Path} (hpath : path.names = [setting.group, setting.key]) :
      Gives setting v (path, v)
  | entry {path : Path} (hpath : path.names = [setting.group]) {key : String}
      {entries : List (String × Value)}
      (hone : entries.filter (·.1.toLower = setting.key) = [(key, v)]) (origin : Option String) :
      Gives setting v (path, .table origin entries)
  | item {path : Path} (hpath : path.names = [setting.group]) {items : List Value}
      (hitem : items[setting.place]? = some v) (origin : Option String) :
      Gives setting v (path, .array origin items)

namespace Gives

variable {setting : Setting} {v : Value}

/-- What an override gives is found once the override stands at its path. -/
theorem found? {o : Path × Value} (h : Gives setting v o) (hv : v.shape ≠ .table) {root : Value}
    {old : Option Value} (hroot : at? o.1.names root = some (o.2.setOver old)) :
    setting.found? root = some v := by
  cases h with
  | whole hpath =>
      rw [hpath, setOver_of_shape_ne_table hv] at hroot
      obtain ⟨inner, hinner, hroot⟩ := Option.bind_eq_some_iff.mp hroot
      obtain ⟨entry, hentry, hroot⟩ := Option.bind_eq_some_iff.mp hroot
      obtain rfl := Option.some.inj hroot
      rw [Setting.found?, hinner, Option.bind_some, member?, hentry, Option.some_or]
  | @entry path hpath key entries hone origin =>
      rw [hpath] at hroot
      obtain ⟨inner, hinner, hroot⟩ := Option.bind_eq_some_iff.mp hroot
      obtain rfl := Option.some.inj hroot
      have hentry : ((table origin entries).setOver old).get? setting.key = some v := by
        rw [setOver, mergeAll_eq_foldl, get?_foldl_put (fun e : String × Value => e.1.toLower)
          (fun e old => e.2.setOver old), hone]
        exact congrArg some (setOver_of_shape_ne_table hv _)
      rw [Setting.found?, hinner, Option.bind_some, member?, hentry, Option.some_or]
  | item hpath hitem origin =>
      rw [hpath] at hroot
      obtain ⟨inner, hinner, hroot⟩ := Option.bind_eq_some_iff.mp hroot
      obtain rfl := Option.some.inj hroot
      rw [Setting.found?, hinner, Option.bind_some]
      exact hitem

/-- Another order inside of tables does not change what is given. -/
theorem of_reordered {os os' : List (Path × Value)} (hos : Reordered os os') {o : Path × Value}
    (ho : o ∈ os) (h : Gives setting v o) (hv : v.shape ≠ .table) :
    ∃ o' ∈ os', Gives setting v o' := by
  rcases hos.exists_mem ho with ho' | ⟨origin, inner, inner', heq, hinner, ho'⟩
  · exact ⟨o, ho', h⟩
  · cases h with
    | whole hpath => exact absurd (congrArg shape heq) hv
    | entry hpath hone origin =>
        obtain ⟨rfl, rfl⟩ := table.inj heq
        have hsame := hinner.filter fun key => key.toLower = setting.key
        exact ⟨_, ho', .entry hpath (hsame.eq_singleton hone hv) _⟩
    | item hpath hitem origin => cases heq

end Gives

/-- A setting that an override gives is the one that is read, if any settings are. -/
theorem Reading.isReadFrom_of_gives {r : Reading} (hdotted : ∀ o ∈ r.overrides, o.1.isDotted)
    (hapart : r.overrides.Pairwise fun o o' => Apart o.1.names o'.1.names) {s : Settings}
    (hs : r.settings? = some s) {o : Path × Value} (ho : o ∈ r.overrides) {setting : Setting}
    {v : Value} (hgives : Gives setting v o) (hv : v.shape ≠ .table) :
    setting.IsReadFrom s v := by
  rw [settings?_of_dotted hdotted] at hs
  obtain ⟨left, -, hs⟩ := Option.bind_eq_some_iff.mp hs
  exact Setting.isReadFrom_of_settings? hs (hgives.found? hv (at?_setAll hapart ho left))

/-- So it is in whatever order all entries are gone through. -/
theorem Layers.isReadFrom_of_gives {ls : Layers} (hdotted : ∀ o ∈ ls.overrides, o.1.isDotted)
    (hapart : ls.overrides.Pairwise fun o o' => Apart o.1.names o'.1.names) {files : Files}
    {s : Settings} (hs : ls.MayResolve files (some s)) {o : Path × Value} (ho : o ∈ ls.overrides)
    {setting : Setting} {v : Value} (hgives : Gives setting v o) (hv : v.shape ≠ .table) :
    setting.IsReadFrom s v := by
  obtain ⟨r, hr, hs⟩ := hs
  obtain ⟨o', ho', hgives'⟩ := hgives.of_reordered hr.overrides ho hv
  exact Reading.isReadFrom_of_gives (hr.overrides.forall_isDotted id hdotted)
    (hr.overrides.pairwise_apart hapart) hs ho' hgives' hv

end FoamDict.Settings

import FoamDict.Proofs.Association
import FoamDict.Settings.Merge

/-!
# Settings behind one key

Setting an entry changes what stands behind its key and nothing else. A path without indices, read
in lower case, is a list of keys: what stands at each of them once a value is set depends only on
what stood there, and turns into a table on the way.
-/

namespace FoamDict.Settings

namespace Step

/-- The key of a step in lower case. -/
def name? : Step → Option String
  | key name => some name.toLower
  | index _ => none

end Step

namespace Path

/-- Whether a path is a key with further keys behind dots and has no index. -/
def isDotted (p : Path) : Bool := p.steps.all (·.name?.isSome)

def first (p : Path) : String := p.head.toLower

def below (p : Path) : List String := p.steps.filterMap Step.name?

/-- The keys of a path in lower case. -/
def names (p : Path) : List String := p.first :: p.below

end Path

namespace Value

open Association (lookup_cons)

theorem lookup_putEntry (key other : String) (v : Value) (entries : List (String × Value)) :
    (putEntry key v entries).lookup other =
      if other = key then some v else entries.lookup other := by
  induction entries with
  | nil => exact lookup_cons
  | cons entry entries ih =>
      obtain ⟨k, old⟩ := entry
      rw [putEntry]
      by_cases hk : k = key
      · subst hk
        rw [if_pos rfl, lookup_cons, lookup_cons]
        split_ifs <;> rfl
      · rw [if_neg hk, lookup_cons, lookup_cons, ih]
        by_cases hother : other = k
        · rw [if_pos hother, if_pos hother, if_neg fun h => hk (hother.symm.trans h)]
        · rw [if_neg hother, if_neg hother]

@[simp] theorem get?_put (v entry : Value) (key other : String) :
    (v.put key entry).get? other = if other = key then some entry else v.get? other := by
  cases v with
  | table origin entries => exact lookup_putEntry key other entry entries
  | scalar origin s => exact lookup_putEntry key other entry []
  | array origin items => exact lookup_putEntry key other entry []

/-- What stands behind a key once `v` is set there in place of `old`: a table is merged into it. -/
def setOver (v : Value) (old : Option Value) : Value :=
  match v with
  | table _ entries => mergeAll (old.getD emptyTable) entries
  | v => v

theorem merge_eq_put (parent v : Value) (key : String) :
    parent.merge key v = parent.put key.toLower (v.setOver (parent.get? key.toLower)) := by
  cases v <;> rfl

/-- What stands in place of `old` once `v` is set at the keys below it. -/
def setAlong (v : Value) : (keys : List String) → Option Value → Value
  | [], old => v.setOver old
  | key :: keys, old =>
    (old.getD nothing).put key (v.setAlong keys ((old.getD nothing).get? key))

theorem setAt_eq_setAlong (v : Value) {steps : List Step} (hsteps : steps.all (·.name?.isSome))
    (name : String) (parent : Value) :
    setAt v (.key name :: steps) parent =
      some (v.setAlong (name.toLower :: steps.filterMap Step.name?) (some parent)) := by
  induction steps generalizing name parent with
  | nil => exact congrArg some (merge_eq_put parent v name)
  | cons s steps ih =>
      rw [List.all_cons, Bool.and_eq_true] at hsteps
      cases s with
      | index i => cases hsteps.1
      | key next =>
          have hinner := ih hsteps.2 next ((parent.get? name.toLower).getD nothing)
          rw [setAt, hinner]
          · rfl
          · exact List.cons_ne_nil _ _

theorem set_eq_setAlong {p : Path} (hp : p.isDotted) (root v : Value) :
    root.set p v = some (v.setAlong p.names (some root)) := setAt_eq_setAlong v hp p.head root

theorem setAlong_names (v : Value) (p : Path) (root : Value) :
    v.setAlong p.names (some root) =
      root.put p.first (v.setAlong p.below (root.get? p.first)) := rfl

/-- Entries put one after the other, each over what stands behind its key: behind a key only those
for that key count. -/
theorem get?_foldl_put {α : Type} (key : α → String) (change : α → Option Value → Value)
    (es : List α) (root : Value) (k : String) :
    (es.foldl (fun root e => root.put (key e) (change e (root.get? (key e)))) root).get? k =
      (es.filter (key · = k)).foldl (fun old e => some (change e old)) (root.get? k) := by
  induction es generalizing root with
  | nil => rfl
  | cons e es ih =>
      rw [List.foldl_cons, ih, get?_put]
      by_cases hk : key e = k
      · rw [List.filter_cons_of_pos (by simpa using hk), List.foldl_cons, if_pos hk.symm, hk]
      · rw [List.filter_cons_of_neg (by simpa using hk), if_neg (Ne.symm hk)]

theorem mergeAll_eq_foldl (target : Value) (entries : List (String × Value)) :
    mergeAll target entries = entries.foldl
      (fun target e => target.put e.1.toLower (e.2.setOver (target.get? e.1.toLower))) target := by
  induction entries generalizing target with
  | nil => rfl
  | cons e entries ih => rw [mergeAll, ih, merge_eq_put, List.foldl_cons]

/-- Entries set one after the other, each along the keys that its own key stands for. -/
def setAll {κ : Type} (keys : κ → List String) (root : Value) (entries : List (κ × Value)) :
    Value :=
  entries.foldl (fun root e => e.2.setAlong (keys e.1) (some root)) root

/-- Paths without an index cannot fail to be set. -/
theorem foldlM_set {κ : Type} {path : κ → Path} {entries : List (κ × Value)}
    (hdotted : ∀ e ∈ entries, (path e.1).isDotted) (root : Value) :
    entries.foldlM (fun root e => root.set (path e.1) e.2) root =
      some (root.setAll (fun key => (path key).names) entries) := by
  induction entries generalizing root with
  | nil => rfl
  | cons e entries ih =>
      obtain ⟨he, hrest⟩ := List.forall_mem_cons.mp hdotted
      rw [List.foldlM_cons, set_eq_setAlong he]
      exact ih hrest _

/-- A table is merged entry by entry, each along one key. -/
theorem mergeAll_eq_setAll (target : Value) (entries : List (String × Value)) :
    mergeAll target entries = target.setAll (fun key => [key.toLower]) entries :=
  mergeAll_eq_foldl target entries

end Value

end FoamDict.Settings

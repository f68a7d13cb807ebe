import Mathlib.Data.Option.Basic
import FoamDict.Proofs.Settings.Merge

/-!
# Alike values

Two values are alike if the same stands at every place in them, wherever they are from and in
whatever order their entries are. Putting and merging keep values alike, and values set at paths
of which none leads on from another may be set in any order.
-/

namespace FoamDict.Settings

namespace Value

/-- What a value is, without what is in it and where it is from. -/
inductive Shape where
  | scalar (s : Scalar)
  | array (length : Nat)
  | table

def shape : Value → Shape
  | scalar _ s => .scalar s
  | array _ items => .array items.length
  | table _ _ => .table

/-- The key of an entry or the place of an item. -/
inductive Turn where
  | entry (key : String)
  | item (place : Nat)

def inside? (v : Value) : Turn → Option Value
  | .entry key => v.get? key
  | .item place => v.items[place]?

def shapeAt? : (way : List Turn) → Value → Option Shape
  | [], v => some v.shape
  | turn :: way, v => (v.inside? turn).bind (shapeAt? way)

def Alike (v w : Value) : Prop := ∀ way, shapeAt? way v = shapeAt? way w

/-- Both are missing, or both are there and alike. -/
abbrev AlikeIfAny : Option Value → Option Value → Prop := Option.Rel Alike

variable {u v w v' w' : Value} {old old' : Option Value}

@[refl] theorem Alike.refl (v : Value) : Alike v v := fun _ => rfl

theorem Alike.symm (h : Alike v w) : Alike w v := fun way => (h way).symm

theorem Alike.trans (h : Alike u v) (h' : Alike v w) : Alike u w := fun way =>
  (h way).trans (h' way)

theorem AlikeIfAny.refl (old : Option Value) : AlikeIfAny old old := by
  cases old with
  | none => exact .none
  | some v => exact .some (.refl v)

theorem alikeIfAny_iff :
    AlikeIfAny old old' ↔ ∀ way, old.bind (shapeAt? way) = old'.bind (shapeAt? way) := by
  constructor
  · rintro (h | _) way
    · exact h way
    · rfl
  · intro h
    cases old with
    | none =>
        cases old' with
        | none => exact .none
        | some w => cases h []
    | some v =>
        cases old' with
        | none => cases h []
        | some w => exact .some h

theorem alike_iff :
    Alike v w ↔ v.shape = w.shape ∧ ∀ turn, AlikeIfAny (v.inside? turn) (w.inside? turn) := by
  constructor
  · intro h
    exact ⟨Option.some.inj (h []), fun turn => alikeIfAny_iff.mpr fun way => h (turn :: way)⟩
  · rintro ⟨hshape, hinside⟩ way
    cases way with
    | nil => exact congrArg some hshape
    | cons turn way => exact alikeIfAny_iff.mp (hinside turn) way

theorem Alike.shape_eq (h : Alike v w) : v.shape = w.shape := (alike_iff.mp h).1

theorem Alike.get? (h : Alike v w) (key : String) : AlikeIfAny (v.get? key) (w.get? key) :=
  (alike_iff.mp h).2 (.entry key)

theorem Alike.items (h : Alike v w) (place : Nat) :
    AlikeIfAny v.items[place]? w.items[place]? := (alike_iff.mp h).2 (.item place)

theorem AlikeIfAny.getD (h : AlikeIfAny old old') (v : Value) :
    Alike (old.getD v) (old'.getD v) := by
  cases h with
  | some h => exact h
  | none => exact .refl v

@[simp] theorem shape_put (v entry : Value) (key : String) : (v.put key entry).shape = .table := by
  cases v <;> rfl

theorem items_of_shape_eq_table (h : v.shape = .table) : v.items = [] := by
  cases v with
  | table origin entries => rfl
  | scalar origin s => cases h
  | array origin items => cases h

/-- Of tables only the entries count. -/
theorem alike_of_tables (hv : v.shape = .table) (hw : w.shape = .table)
    (h : ∀ key, AlikeIfAny (v.get? key) (w.get? key)) : Alike v w := by
  refine alike_iff.mpr ⟨hv.trans hw.symm, fun turn => ?_⟩
  cases turn with
  | entry key => exact h key
  | item place =>
      rw [inside?, inside?, items_of_shape_eq_table hv, items_of_shape_eq_table hw]
      exact .refl _

theorem Alike.put (h : Alike v w) (h' : Alike v' w') (key : String) :
    Alike (v.put key v') (w.put key w') := by
  refine alike_of_tables (shape_put _ _ _) (shape_put _ _ _) fun other => ?_
  rw [get?_put, get?_put]
  split_ifs
  · exact .some h'
  · exact h.get? other

section Bare

mutual

/-- The value without where it is from. -/
def bare : Value → Value
  | scalar _ s => scalar none s
  | array _ items => array none (bareItems items)
  | table _ entries => table none (bareEntries entries)

def bareItems : List Value → List Value
  | [] => []
  | v :: rest => v.bare :: bareItems rest

def bareEntries : List (String × Value) → List (String × Value)
  | [] => []
  | (key, v) :: rest => (key, v.bare) :: bareEntries rest

end

theorem bareItems_eq_map (items : List Value) : bareItems items = items.map bare := by
  induction items with
  | nil => rfl
  | cons v items ih => rw [bareItems, ih, List.map_cons]

theorem lookup_bareEntries (key : String) (entries : List (String × Value)) :
    (bareEntries entries).lookup key = (entries.lookup key).map bare := by
  induction entries with
  | nil => rfl
  | cons e entries ih =>
      obtain ⟨k, v⟩ := e
      rw [bareEntries, Association.lookup_cons, Association.lookup_cons, ih]
      split_ifs <;> rfl

theorem inside?_bare (v : Value) (turn : Turn) :
    v.bare.inside? turn = (v.inside? turn).map bare := by
  cases turn with
  | entry key =>
      cases v with
      | table origin entries => exact lookup_bareEntries key entries
      | scalar origin s => rfl
      | array origin items => rfl
  | item place =>
      cases v with
      | array origin items =>
          rw [bare, inside?, Value.items, bareItems_eq_map, List.getElem?_map]
          rfl
      | scalar origin s => rfl
      | table origin entries => rfl

theorem shape_bare (v : Value) : v.bare.shape = v.shape := by
  cases v with
  | array origin items => rw [bare, shape, bareItems_eq_map, List.length_map, shape]
  | scalar origin s => rfl
  | table origin entries => rfl

theorem alike_bare (v : Value) : Alike v.bare v := by
  intro way
  induction way generalizing v with
  | nil => exact congrArg some (shape_bare v)
  | cons turn way ih =>
      rw [shapeAt?, shapeAt?, inside?_bare]
      cases v.inside? turn with
      | none => rfl
      | some inner => exact ih inner

theorem alike_of_bare_eq (h : v.bare = w.bare) : Alike v w :=
  (alike_bare v).symm.trans (h ▸ alike_bare w)

end Bare

mutual

/-- Setting values that differ only in where they are from keeps what is set alike. -/
theorem Alike.setOver (v v' : Value) (hv : v.bare = v'.bare) {old old' : Option Value}
    (h : AlikeIfAny old old') : Alike (v.setOver old) (v'.setOver old') := by
  cases v with
  | scalar origin s =>
      cases v' with
      | scalar origin' s' => exact alike_of_bare_eq hv
      | array _ _ => simp [bare] at hv
      | table _ _ => simp [bare] at hv
  | array origin items =>
      cases v' with
      | array origin' items' => exact alike_of_bare_eq hv
      | scalar _ _ => simp [bare] at hv
      | table _ _ => simp [bare] at hv
  | table origin entries =>
      cases v' with
      | table origin' entries' =>
          simp only [bare, table.injEq, true_and] at hv
          exact Alike.mergeAll entries entries' hv (h.getD emptyTable)
      | scalar _ _ => simp [bare] at hv
      | array _ _ => simp [bare] at hv

theorem Alike.mergeAll (entries entries' : List (String × Value))
    (hentries : bareEntries entries = bareEntries entries') {t t' : Value} (h : Alike t t') :
    Alike (mergeAll t entries) (mergeAll t' entries') := by
  cases entries with
  | nil =>
      cases entries' with
      | nil => exact h
      | cons e rest => simp [bareEntries] at hentries
  | cons e rest =>
      cases entries' with
      | nil => simp [bareEntries] at hentries
      | cons e' rest' =>
          obtain ⟨key, v⟩ := e
          obtain ⟨key', v'⟩ := e'
          simp only [bareEntries, List.cons.injEq, Prod.mk.injEq] at hentries
          obtain ⟨⟨rfl, hv⟩, hrest⟩ := hentries
          refine Alike.mergeAll rest rest' hrest ?_
          rw [merge_eq_put, merge_eq_put]
          exact h.put (Alike.setOver v v' hv (h.get? key.toLower)) key.toLower

end

/-- Two values that come to alike ones wherever they are set do so along keys too. -/
theorem Alike.setAlong
    (hv : ∀ {old old'}, AlikeIfAny old old' → Alike (v.setOver old) (v'.setOver old'))
    (keys : List String) (h : AlikeIfAny old old') :
    Alike (v.setAlong keys old) (v'.setAlong keys old') := by
  induction keys generalizing old old' with
  | nil => exact hv h
  | cons key keys ih =>
      have hparent := h.getD nothing
      exact hparent.put (ih (hparent.get? key)) key

/-- Neither list of keys leads on from the other. -/
def Apart (keys keys' : List String) : Prop := ¬ keys <+: keys' ∧ ¬ keys' <+: keys

instance (keys keys' : List String) : Decidable (Apart keys keys') :=
  inferInstanceAs (Decidable (_ ∧ _))

theorem Apart.symm {keys keys' : List String} (h : Apart keys keys') : Apart keys' keys :=
  And.symm h

theorem apart_cons_self_iff {key : String} {keys keys' : List String} :
    Apart (key :: keys) (key :: keys') ↔ Apart keys keys' := by
  simp only [Apart, List.cons_prefix_cons, true_and]

theorem setAlong_comm (v w : Value) {keys keys' : List String} (h : Apart keys keys')
    (old : Option Value) :
    Alike (v.setAlong keys (some (w.setAlong keys' old)))
      (w.setAlong keys' (some (v.setAlong keys old))) := by
  induction keys generalizing keys' old with
  | nil => exact absurd List.nil_prefix h.1
  | cons key keys ih =>
      cases keys' with
      | nil => exact absurd List.nil_prefix h.2
      | cons key' keys' =>
          refine alike_of_tables (shape_put _ _ _) (shape_put _ _ _) fun other => ?_
          simp only [Value.setAlong, get?_put, Option.getD_some]
          -- Paths with the same first key part further down; with different ones they never meet.
          by_cases hkey : key = key'
          · subst hkey
            simp only [if_true]
            split_ifs
            · exact .some (ih (apart_cons_self_iff.mp h) _)
            · exact .refl _
          · simp only [hkey, Ne.symm hkey, if_false]
            by_cases hother : other = key
            · rw [if_pos hother, if_neg fun h => hkey (hother.symm.trans h), if_pos hother]
              exact .refl _
            · rw [if_neg hother, if_neg hother]
              exact .refl _

section Entries

variable {κ : Type} {keys : κ → List String}

theorem Alike.setAll {root root' : Value} (h : Alike root root') (entries : List (κ × Value)) :
    Alike (root.setAll keys entries) (root'.setAll keys entries) := by
  induction entries generalizing root root' with
  | nil => exact h
  | cons e entries ih => exact ih (Alike.setAlong (Alike.setOver _ _ rfl) (keys e.1) (.some h))

theorem setAll_perm {entries entries' : List (κ × Value)} (hperm : entries.Perm entries')
    (hapart : entries.Pairwise fun e e' => Apart (keys e.1) (keys e'.1)) (root : Value) :
    Alike (root.setAll keys entries) (root.setAll keys entries') := by
  induction hperm generalizing root with
  | nil => exact .refl root
  | cons e _ ih => exact ih (List.pairwise_cons.mp hapart).2 _
  -- Only here the keys have to be apart; the entries that follow keep both roots alike.
  | swap e e' rest =>
      have hfirst : Apart (keys e'.1) (keys e.1) :=
        (List.pairwise_cons.mp hapart).1 e List.mem_cons_self
      exact Alike.setAll (setAlong_comm e.2 e'.2 hfirst.symm (some root)) rest
  | trans hperm _ ih ih' =>
      have hapart' := (hperm.pairwise_iff fun h => h.symm).mp hapart
      exact (ih hapart root).trans (ih' hapart' root)

end Entries

end Value

end FoamDict.Settings

import FoamDict.Proofs.Settings.Alike
import FoamDict.Settings.Read

/-!
# What is read from alike values

Without its fault, a reading is a chain of look-ups. It finds the same in alike values.
-/

namespace FoamDict.Settings

theorem toOption_ok {ε α : Type} (a : α) : (Except.ok a : Except ε α).toOption = some a := rfl

theorem toOption_eq_some_iff {ε α : Type} {x : Except ε α} {a : α} :
    x.toOption = some a ↔ x = .ok a := by
  cases x with
  | error fault => simp [Except.toOption]
  | ok b => simp [Except.toOption]

theorem toOption_bind {ε α β : Type} (x : Except ε α) (f : α → Except ε β) :
    (x >>= f).toOption = x.toOption.bind fun a => (f a).toOption := by
  cases x <;> rfl

theorem toOption_foldlM {ε α β : Type} {f : β → α → Except ε β} {g : β → α → Option β}
    (h : ∀ b a, (f b a).toOption = g b a) (b : β) (as : List α) :
    (as.foldlM f b).toOption = as.foldlM g b := by
  induction as generalizing b with
  | nil => rfl
  | cons a as ih =>
      rw [List.foldlM_cons, List.foldlM_cons, toOption_bind, h]
      exact congrArg _ (funext ih)

theorem toOption_map_some {ε α : Type} (x : Except ε α) :
    (some <$> x).toOption.bind id = x.toOption := by
  cases x <;> rfl

namespace Value

/-- The field of a section: an entry of a table, or an item of an array. -/
def member? (v : Value) (name : String) (place : Nat) : Option Value :=
  (v.get? name).or v.items[place]?

def texts? : Value → Option (List String)
  | array _ items => items.mapM text?
  | _ => none

def filter? (v : Value) : Option String := (v.member? "filter" 0).bind text?

def source? (v : Value) : Option String := (v.member? "source" 0).bind text?

def completion? (v : Value) : Option (String × List String) := do
  let detail ← (v.member? "detail" 0).bind text?
  let triggers ← (v.member? "trigger_characters" 1).bind texts?
  return (detail, triggers)

/-- The settings at a root, if all of them can be read. -/
def settings? (root : Value) : Option Settings := do
  let filter ← (root.get? "logging").bind filter?
  let source ← (root.get? "diagnostics").bind source?
  let (detail, triggers) ← (root.get? "completion").bind completion?
  return ⟨filter, source, detail, triggers⟩

end Value

open Value

section Reading

variable {α : Type} {read : String → Value → Read α} {found? : Value → Option α}

theorem toOption_readText (key : String) (v : Value) : (readText key v).toOption = v.text? := by
  rw [readText]
  cases v.text? <;> rfl

theorem toOption_mapM_readText (key : String) (items : List Value) (first : Nat) :
    ((items.zipIdx first).mapM fun (v, index) => readText (itemKey key index) v).toOption =
      items.mapM text? := by
  induction items generalizing first with
  | nil => rfl
  | cons v items ih =>
      simp only [List.zipIdx_cons, List.mapM_cons, toOption_bind, ih, toOption_readText]
      rfl

theorem toOption_readTexts (key : String) (v : Value) :
    (readTexts key v).toOption = v.texts? := by
  cases v with
  | array origin items => exact toOption_mapM_readText key items 0
  | scalar origin s => rfl
  | table origin entries => rfl

theorem toOption_required (name : String) (found : Option α) :
    (required name found).toOption = found := by cases found <;> rfl

/-- Which section it is decides only over the fault. -/
theorem member?_of_error {key structName : String} {count : Nat} {v : Value} {fault : ReadFault}
    (h : Fields.of key structName count v = .error fault) (name : String) (place : Nat) :
    v.member? name place = none := by
  cases v with
  | scalar origin s => rfl
  | array origin items => cases h
  | table origin entries => cases h

theorem toOption_read? (hread : ∀ key v, (read key v).toOption = found? v)
    {key structName : String} {count : Nat} {v : Value} {fields : Fields}
    (hfields : Fields.of key structName count v = .ok fields) (name : String) (place : Nat) :
    (fields.read? name place read).toOption.bind id = (v.member? name place).bind found? := by
  have hfound (key : String) (v : Value) :
      (some <$> read key v).toOption.bind id = found? v :=
    (toOption_map_some (read key v)).trans (hread key v)
  cases v with
  | scalar origin s => cases hfields
  | array origin items =>
      obtain rfl := Except.ok.inj hfields
      have hmember : (array origin items).member? name place = items[place]? := rfl
      rw [Fields.read?, hmember]
      cases items[place]? with
      | none => rfl
      | some v => exact hfound _ v
  | table origin entries =>
      obtain rfl := Except.ok.inj hfields
      have hmember : (table origin entries).member? name place = entries.lookup name :=
        Option.or_none
      rw [Fields.read?, hmember]
      cases entries.lookup name with
      | none => rfl
      | some v => exact hfound _ v

theorem toOption_readField (hread : ∀ key v, (read key v).toOption = found? v)
    (key structName name : String) (count place : Nat) (v : Value) :
    (Fields.of key structName count v >>= fun fields =>
      fields.read? name place read >>= required name).toOption =
        (v.member? name place).bind found? := by
  rw [toOption_bind]
  cases hfields : Fields.of key structName count v with
  | error fault => rw [member?_of_error hfields, Option.bind_none]; rfl
  | ok fields =>
      rw [← toOption_read? hread hfields]
      refine (toOption_bind _ _).trans ?_
      rw [funext (toOption_required name)]
      rfl

theorem toOption_readFilter (key : String) (v : Value) :
    (readFilter key v).toOption = v.filter? :=
  toOption_readField toOption_readText key "LoggingConfig" "filter" 1 0 v

theorem toOption_readSource (key : String) (v : Value) :
    (readSource key v).toOption = v.source? :=
  toOption_readField toOption_readText key "DiagnosticsConfig" "source" 1 0 v

theorem toOption_readCompletion (key : String) (v : Value) :
    (readCompletion key v).toOption = v.completion? := by
  rw [readCompletion, toOption_bind, completion?]
  cases hfields : Fields.of key "CompletionConfig" 2 v with
  | error fault => rw [member?_of_error hfields]; rfl
  | ok fields =>
      rw [← toOption_read? toOption_readText hfields, ← toOption_read? toOption_readTexts hfields]
      simp only [toOption_ok, Option.bind_some, toOption_bind, toOption_required]
      cases (fields.read? "detail" 0 readText).toOption with
      | none => rfl
      | some detail? =>
          cases (fields.read? "trigger_characters" 1 readTexts).toOption with
          | none => cases detail? <;> rfl
          | some triggers? => cases detail? <;> cases triggers? <;> rfl

theorem toOption_readSection (hread : ∀ key v, (read key v).toOption = found? v) (root : Value)
    (name : String) :
    (readSection root name read).toOption.bind id = (root.get? name).bind found? := by
  rw [readSection]
  cases root.get? name with
  | none => rfl
  | some v =>
      rw [Option.bind_some, ← hread name v]
      exact toOption_map_some (read name v)

end Reading

/-- Reading succeeds just if every section is found, and gives what is found there. -/
theorem toOption_read (root : Value) : (read root).toOption = root.settings? := by
  rw [settings?, ← toOption_readSection toOption_readFilter,
    ← toOption_readSection toOption_readSource, ← toOption_readSection toOption_readCompletion]
  simp only [read, toOption_bind, toOption_required]
  cases (readSection root "logging" readFilter).toOption with
  | none => rfl
  | some filter? =>
      cases (readSection root "diagnostics" readSource).toOption with
      | none => cases filter? <;> rfl
      | some source? =>
          cases (readSection root "completion" readCompletion).toOption with
          | none => cases filter? <;> cases source? <;> rfl
          | some completion? => cases filter? <;> cases source? <;> cases completion? <;> rfl

namespace Value

variable {v w : Value} {old old' : Option Value}

theorem AlikeIfAny.bind_eq {α : Type} (h : AlikeIfAny old old') {f g : Value → Option α}
    (hfg : ∀ v w, Alike v w → f v = g w) : old.bind f = old'.bind g := by
  cases h with
  | some h => exact hfg _ _ h
  | none => rfl

theorem Alike.member? (h : Alike v w) (name : String) (place : Nat) :
    AlikeIfAny (v.member? name place) (w.member? name place) := by
  have hentry := h.get? name
  rw [Value.member?, Value.member?]
  cases hv : v.get? name with
  | none =>
      rw [hv] at hentry
      cases hw : w.get? name with
      | none => exact h.items place
      | some inner' => rw [hw] at hentry; cases hentry
  | some inner =>
      rw [hv] at hentry
      cases hw : w.get? name with
      | none => rw [hw] at hentry; cases hentry
      | some inner' => rwa [hw] at hentry

theorem Alike.text?_eq (h : Alike v w) : v.text? = w.text? := by
  have hshape := h.shape_eq
  cases v <;> cases w <;> simp_all [shape, text?]

theorem mapM_text?_eq {items items' : List Value}
    (h : ∀ place : Nat, AlikeIfAny items[place]? items'[place]?) :
    items.mapM text? = items'.mapM text? := by
  induction items generalizing items' with
  | nil =>
      cases items' with
      | nil => rfl
      | cons v' items' => cases h 0
  | cons v items ih =>
      cases items' with
      | nil => cases h 0
      | cons v' items' =>
          obtain ⟨hfirst⟩ := h 0
          rw [List.mapM_cons, List.mapM_cons, hfirst.text?_eq, ih fun place => h (place + 1)]

theorem Alike.texts?_eq (h : Alike v w) : v.texts? = w.texts? := by
  have hshape := h.shape_eq
  cases v with
  | array origin items =>
      cases w with
      | array origin' items' => exact mapM_text?_eq h.items
      | scalar _ _ => cases hshape
      | table _ _ => cases hshape
  | scalar origin s =>
      cases w with
      | array _ _ => cases hshape
      | scalar _ _ => rfl
      | table _ _ => rfl
  | table origin entries =>
      cases w with
      | array _ _ => cases hshape
      | scalar _ _ => rfl
      | table _ _ => rfl

theorem Alike.filter?_eq (h : Alike v w) : v.filter? = w.filter? :=
  (h.member? "filter" 0).bind_eq fun _ _ => Alike.text?_eq

theorem Alike.source?_eq (h : Alike v w) : v.source? = w.source? :=
  (h.member? "source" 0).bind_eq fun _ _ => Alike.text?_eq

theorem Alike.completion?_eq (h : Alike v w) : v.completion? = w.completion? := by
  rw [completion?, completion?, (h.member? "detail" 0).bind_eq fun _ _ => Alike.text?_eq,
    (h.member? "trigger_characters" 1).bind_eq fun _ _ => Alike.texts?_eq]

/-- Only the three sections are read, and alike ones alike. -/
theorem settings?_eq (hlogging : AlikeIfAny (v.get? "logging") (w.get? "logging"))
    (hdiagnostics : AlikeIfAny (v.get? "diagnostics") (w.get? "diagnostics"))
    (hcompletion : AlikeIfAny (v.get? "completion") (w.get? "completion")) :
    v.settings? = w.settings? := by
  rw [settings?, settings?, hlogging.bind_eq fun _ _ => Alike.filter?_eq,
    hdiagnostics.bind_eq fun _ _ => Alike.source?_eq,
    hcompletion.bind_eq fun _ _ => Alike.completion?_eq]

theorem Alike.settings?_eq (h : Alike v w) : v.settings? = w.settings? :=
  Value.settings?_eq (h.get? _) (h.get? _) (h.get? _)

end Value

end FoamDict.Settings

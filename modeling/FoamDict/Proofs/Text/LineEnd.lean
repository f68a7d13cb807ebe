import FoamDict.Proofs.Text.Line

/-!
# Two ways to end a line

A text without carriage returns can be written with a carriage return before any of its line feeds.
Reading each such pair as a line feed gives the text back, and the lines are the same either way.
-/

namespace FoamDict.Text

/-- The second text is the first with a carriage return before some of its line feeds; the first has
none of its own. -/
inductive Recoded : List Char → List Char → Prop
  | nil : Recoded [] []
  | keep {c : Char} {text text' : List Char} (hc : c ≠ '\r') (h : Recoded text text') :
      Recoded (c :: text) (c :: text')
  | feed {text text' : List Char} (h : Recoded text text') :
      Recoded ('\n' :: text) ('\r' :: '\n' :: text')

/-- Read a carriage return and a line feed as a line feed. -/
def unify : List Char → List Char
  | '\r' :: '\n' :: text => '\n' :: unify text
  | c :: text => c :: unify text
  | [] => []

theorem unify_cons_of_ne {c : Char} (hc : c ≠ '\r') (text : List Char) :
    unify (c :: text) = c :: unify text := by
  rw [unify]
  exact fun _ h => absurd h hc

theorem unify_of_return_not_mem {text : List Char} (h : '\r' ∉ text) : unify text = text := by
  induction text with
  | nil => rfl
  | cons c text ih =>
      rw [List.mem_cons, not_or] at h
      rw [unify_cons_of_ne (Ne.symm h.1), ih h.2]

namespace Recoded

variable {text text' : List Char}

theorem return_not_mem (h : Recoded text text') : '\r' ∉ text := by
  induction h with
  | nil => exact List.not_mem_nil
  | keep hc _ ih => simp [ih, Ne.symm hc]
  | feed _ ih => simp [ih]

theorem unify_eq (h : Recoded text text') : unify text' = text := by
  induction h with
  | nil => rfl
  | keep hc _ ih => rw [unify_cons_of_ne hc, ih]
  | feed _ ih => rw [unify, ih]

theorem of_unify (h : '\r' ∉ unify text) : Recoded (unify text) text := by
  fun_induction unify text with
  | case1 text ih =>
      rw [List.mem_cons, not_or] at h
      exact .feed (ih h.2)
  | case2 c text _ ih =>
      rw [List.mem_cons, not_or] at h
      exact .keep (Ne.symm h.1) (ih h.2)
  | case3 => exact .nil

theorem append {more more' : List Char} (h : Recoded text text') (hmore : Recoded more more') :
    Recoded (text ++ more) (text' ++ more') := by
  induction h with
  | nil => exact hmore
  | keep hc _ ih => exact .keep hc ih
  | feed _ ih => exact .feed ih

end Recoded

theorem recoded_iff {text text' : List Char} :
    Recoded text text' ↔ '\r' ∉ text ∧ unify text' = text := by
  constructor
  · exact fun h => ⟨h.return_not_mem, h.unify_eq⟩
  · rintro ⟨h, rfl⟩
    exact .of_unify h

theorem dropReturn_isPrefix (piece : List Char) : dropReturn piece <+: piece := by
  rw [dropReturn]
  split
  · exact List.dropLast_prefix piece
  · exact List.prefix_refl piece

theorem dropReturn_cons_of_ne {c : Char} (hc : c ≠ '\r') (piece : List Char) :
    dropReturn (c :: piece) = c :: dropReturn piece := by
  cases piece with
  | nil => simp [dropReturn, hc]
  | cons d piece =>
      rw [dropReturn, dropReturn, List.getLast?_cons_cons, List.dropLast_cons_cons]
      split <;> rfl

theorem lines_feed (text : List Char) : lines ('\n' :: text) = [] :: lines text := by
  rw [lines, pieces_cons, if_pos rfl, List.map_cons, lines, dropReturn_nil]

theorem lines_return_feed (text : List Char) : lines ('\r' :: '\n' :: text) = [] :: lines text := by
  rw [lines, pieces_cons, if_neg (by decide), pieces_cons, if_pos rfl]
  rfl

theorem lines_cons_of_ne {c : Char} (hr : c ≠ '\r') (hf : c ≠ '\n') (text : List Char) :
    lines (c :: text) = (lines text).modifyHead (c :: ·) := by
  rw [lines, pieces_cons, if_neg hf, lines]
  cases pieces text with
  | nil => rfl
  | cons piece rest =>
      rw [List.modifyHead_cons, List.map_cons, dropReturn_cons_of_ne hr, List.map_cons,
        List.modifyHead_cons]

/-- Either way of ending lines gives the same lines. -/
theorem Recoded.lines_eq {text text' : List Char} (h : Recoded text text') :
    lines text' = lines text := by
  induction h with
  | nil => rfl
  | @keep c text text' hc _ ih =>
      by_cases hf : c = '\n'
      · rw [hf, lines_feed, lines_feed, ih]
      · rw [lines_cons_of_ne hc hf, lines_cons_of_ne hc hf, ih]
  | feed _ ih => rw [lines_return_feed, lines_feed, ih]

/-- Each carriage return stands right before a line feed. -/
def ReturnsPaired (text : List Char) : Prop :=
  ∀ before behind, text = before ++ '\r' :: behind → behind.head? = some '\n'

theorem ReturnsPaired.tail {c : Char} {text : List Char} (h : ReturnsPaired (c :: text)) :
    ReturnsPaired text := by
  intro before behind htext
  exact h (c :: before) behind (congrArg (c :: ·) htext)

/-- Such a text is another form of one without carriage returns. -/
theorem ReturnsPaired.recoded {text : List Char} (h : ReturnsPaired text) :
    Recoded (unify text) text := by
  fun_induction unify text with
  | case1 text ih => exact .feed (ih h.tail.tail)
  | case2 c text hfeed ih =>
      refine .keep ?_ (ih h.tail)
      rintro rfl
      obtain ⟨rest, rfl⟩ := List.head?_eq_some_iff.mp (h [] text rfl)
      exact hfeed rest rfl rfl
  | case3 => exact .nil

theorem Recoded.returnsPaired {text text' : List Char} (h : Recoded text text') :
    ReturnsPaired text' := by
  induction h with
  | nil => simp [ReturnsPaired]
  | keep hc _ ih =>
      intro before behind htext
      cases before with
      | nil => exact absurd (List.cons.inj htext).1 hc
      | cons d before => exact ih before behind (List.cons.inj htext).2
  | feed _ ih =>
      intro before behind htext
      match before with
      | [] => rw [← (List.cons.inj htext).2, List.head?_cons]
      | [d] => simp at htext
      | d :: e :: before => exact ih before behind (List.cons.inj (List.cons.inj htext).2).2

theorem returnsPaired_iff {text : List Char} : ReturnsPaired text ↔ '\r' ∉ unify text :=
  ⟨fun h => h.recoded.return_not_mem, fun h => (Recoded.of_unify h).returnsPaired⟩

instance (text : List Char) : Decidable (ReturnsPaired text) :=
  decidable_of_iff' _ returnsPaired_iff

theorem ReturnsPaired.getLast?_ne {text : List Char} (h : ReturnsPaired text) :
    text.getLast? ≠ some '\r' := by
  intro hlast
  obtain ⟨before, rfl⟩ := List.getLast?_eq_some_iff.mp hlast
  cases h before [] rfl

/-- No line of such a text has a carriage return. -/
theorem ReturnsPaired.return_not_mem {text line : List Char} (h : ReturnsPaired text)
    (hline : line ∈ lines text) : '\r' ∉ line := by
  intro hreturn
  rw [h.recoded.lines_eq, lines] at hline
  obtain ⟨piece, hpiece, rfl⟩ := List.mem_map.mp hline
  have hmem := (dropReturn_isPrefix piece).mem hreturn
  exact h.recoded.return_not_mem (mem_of_mem_pieces hpiece hmem)

end FoamDict.Text

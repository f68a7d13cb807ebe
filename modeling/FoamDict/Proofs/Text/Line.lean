import FoamDict.Text.Line

/-!
# A text as its pieces

A text is its pieces with a line feed between them. Around any one piece, the text is the earlier
pieces, each with its line feed behind it, then the piece, then the later ones, each with a line
feed in front. Whatever is put in the place of the piece is split on its own: the pieces before and
after stay what they are.
-/

namespace FoamDict.Text

/-- Pieces with a line feed behind each. -/
def closed (ps : List (List Char)) : List Char := ps.flatMap (· ++ ['\n'])

/-- Pieces with a line feed in front of each. -/
def opened (ps : List (List Char)) : List Char := ps.flatMap ('\n' :: ·)

@[simp] theorem closed_nil : closed [] = [] := rfl

@[simp] theorem closed_cons (p : List Char) (ps : List (List Char)) :
    closed (p :: ps) = p ++ '\n' :: closed ps := by simp [closed]

@[simp] theorem closed_append (ps qs : List (List Char)) :
    closed (ps ++ qs) = closed ps ++ closed qs := by simp [closed]

@[simp] theorem opened_nil : opened [] = [] := rfl

@[simp] theorem opened_cons (p : List Char) (ps : List (List Char)) :
    opened (p :: ps) = '\n' :: (p ++ opened ps) := by simp [opened]

theorem pieces_ne_nil (text : List Char) : pieces text ≠ [] := List.splitOn_ne_nil _ _

theorem pieces_of_feed_not_mem {text : List Char} (h : '\n' ∉ text) : pieces text = [text] :=
  List.splitOn_eq_singleton h

theorem pieces_append_feed (a b : List Char) : pieces (a ++ '\n' :: b) = pieces a ++ pieces b :=
  List.splitOn_append_cons_self a b

theorem length_pieces (text : List Char) : (pieces text).length = text.count '\n' + 1 := by
  induction text with
  | nil => rfl
  | cons c text ih =>
      rw [pieces_cons]
      by_cases hc : c = '\n'
      · simp [hc, ih]
      · simp [hc, ih, List.count_cons_of_ne]

/-- No piece goes past a line feed. -/
theorem feed_not_mem_of_mem_pieces {text piece : List Char} (h : piece ∈ pieces text) :
    '\n' ∉ piece := by
  induction text generalizing piece with
  | nil => simp_all
  | cons c text ih =>
      rw [pieces_cons] at h
      by_cases hc : c = '\n'
      · rw [if_pos hc] at h
        rcases List.mem_cons.mp h with rfl | h
        · exact List.not_mem_nil
        · exact ih h
      · rw [if_neg hc] at h
        obtain ⟨head, rest, hsplit⟩ := List.exists_cons_of_ne_nil (pieces_ne_nil text)
        rw [hsplit, List.modifyHead_cons] at h
        rcases List.mem_cons.mp h with rfl | h
        · have hhead : '\n' ∉ head := ih (by simp [hsplit])
          simp [hhead, Ne.symm hc]
        · exact ih (by simp [hsplit, h])

theorem pieces_closed_append {ps : List (List Char)} (h : ∀ p ∈ ps, '\n' ∉ p) (text : List Char) :
    pieces (closed ps ++ text) = ps ++ pieces text := by
  induction ps with
  | nil => rfl
  | cons p ps ih =>
      have hp : '\n' ∉ p := h p (by simp)
      have hps : ∀ q ∈ ps, '\n' ∉ q := fun q hq => h q (by simp [hq])
      rw [closed_cons, List.append_assoc, List.cons_append, pieces_append_feed,
        pieces_of_feed_not_mem hp, ih hps]
      rfl

theorem pieces_append_opened {ps : List (List Char)} (h : ∀ p ∈ ps, '\n' ∉ p) (text : List Char) :
    pieces (text ++ opened ps) = pieces text ++ ps := by
  induction ps generalizing text with
  | nil => simp
  | cons p ps ih =>
      have hp : '\n' ∉ p := h p (by simp)
      have hps : ∀ q ∈ ps, '\n' ∉ q := fun q hq => h q (by simp [hq])
      rw [opened_cons, pieces_append_feed, ih hps, pieces_of_feed_not_mem hp]
      rfl

/-- Between the pieces `ps` and `qs`, a text is split on its own. -/
theorem pieces_framed {ps qs : List (List Char)} (hp : ∀ p ∈ ps, '\n' ∉ p)
    (hq : ∀ q ∈ qs, '\n' ∉ q) (text : List Char) :
    pieces (closed ps ++ (text ++ opened qs)) = ps ++ (pieces text ++ qs) := by
  rw [pieces_closed_append hp, pieces_append_opened hq]

theorem intercalate_feed_cons (p : List Char) (ps : List (List Char)) :
    ['\n'].intercalate (p :: ps) = p ++ opened ps := by
  induction ps generalizing p with
  | nil => simp
  | cons q ps ih => rw [List.intercalate_cons_cons, ih, opened_cons]; simp

theorem intercalate_feed_append_cons (ps : List (List Char)) (q : List Char)
    (qs : List (List Char)) :
    ['\n'].intercalate (ps ++ q :: qs) = closed ps ++ (q ++ opened qs) := by
  induction ps with
  | nil => exact intercalate_feed_cons q qs
  | cons p ps ih =>
      rw [List.cons_append, List.intercalate_cons_of_ne_nil (by simp), ih, closed_cons]
      simp

/-- The text around the piece that has number `index`. -/
theorem eq_framed {text piece : List Char} {index : Nat} (h : (pieces text)[index]? = some piece) :
    text =
      closed ((pieces text).take index) ++ (piece ++ opened ((pieces text).drop (index + 1))) := by
  have hsplit :
      (pieces text).take index ++ piece :: (pieces text).drop (index + 1) = pieces text := by
    obtain ⟨hlt, rfl⟩ := List.getElem?_eq_some_iff.mp h
    rw [List.getElem_cons_drop, List.take_append_drop]
  calc
    text = ['\n'].intercalate (pieces text) := (List.intercalate_splitOn '\n').symm
    _ = ['\n'].intercalate
          ((pieces text).take index ++ piece :: (pieces text).drop (index + 1)) := by rw [hsplit]
    _ = _ := intercalate_feed_append_cons _ _ _

theorem mem_of_mem_pieces {text piece : List Char} {c : Char} (hpiece : piece ∈ pieces text)
    (h : c ∈ piece) : c ∈ text := by
  obtain ⟨index, hindex⟩ := List.mem_iff_getElem?.mp hpiece
  rw [eq_framed hindex, List.mem_append, List.mem_append]
  exact Or.inr (Or.inl h)

/-- A text ends in a piece of its own, behind the earlier ones with their line feeds. -/
theorem exists_eq_closed_append (text : List Char) :
    ∃ ps last, text = closed ps ++ last ∧ (∀ p ∈ ps, '\n' ∉ p) ∧ '\n' ∉ last := by
  obtain ⟨ps, last, hsplit⟩ : ∃ ps last, pieces text = ps ++ [last] :=
    ⟨_, _, (List.dropLast_concat_getLast (pieces_ne_nil text)).symm⟩
  have hfeed : ∀ p ∈ ps ++ [last], '\n' ∉ p := fun p hp => feed_not_mem_of_mem_pieces (hsplit ▸ hp)
  have htext : text = closed ps ++ last := by
    calc
      text = ['\n'].intercalate (pieces text) := (List.intercalate_splitOn '\n').symm
      _ = closed ps ++ last := by
        rw [hsplit, intercalate_feed_append_cons, opened_nil, List.append_nil]
  exact ⟨ps, last, htext, fun p hp => hfeed p (by simp [hp]), hfeed last (by simp)⟩

/-- Characters behind a text that are no line feeds join its last piece. -/
theorem exists_pieces_append (text : List Char) :
    ∃ ps piece, ∀ cs, '\n' ∉ cs → pieces (text ++ cs) = ps ++ [piece ++ cs] := by
  obtain ⟨ps, piece, htext, hps, hpiece⟩ := exists_eq_closed_append text
  refine ⟨ps, piece, fun cs hcs => ?_⟩
  have hlast : '\n' ∉ piece ++ cs := by
    rw [List.mem_append, not_or]
    exact ⟨hpiece, hcs⟩
  rw [htext, List.append_assoc, pieces_closed_append hps, pieces_of_feed_not_mem hlast]

/-- Characters in front of a text that are no line feeds join its first piece. -/
theorem pieces_append_of_feed_not_mem {cs : List Char} (h : '\n' ∉ cs) (text : List Char) :
    pieces (cs ++ text) = (pieces text).modifyHead (cs ++ ·) := by
  induction cs with
  | nil =>
      rw [List.nil_append]
      exact (congrFun List.modifyHead_id _).symm
  | cons c cs ih =>
      rw [List.mem_cons, not_or] at h
      rw [List.cons_append, pieces_cons, if_neg (Ne.symm h.1), ih h.2, List.modifyHead_modifyHead]
      rfl

theorem feed_not_mem_of_mem_take {text p : List Char} {index : Nat}
    (h : p ∈ (pieces text).take index) : '\n' ∉ p :=
  feed_not_mem_of_mem_pieces (List.mem_of_mem_take h)

theorem feed_not_mem_of_mem_drop {text p : List Char} {index : Nat}
    (h : p ∈ (pieces text).drop index) : '\n' ∉ p :=
  feed_not_mem_of_mem_pieces (List.mem_of_mem_drop h)

end FoamDict.Text

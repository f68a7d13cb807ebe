import FoamDict.Proofs.Brace.Level

/-!
# Closing what is missing

Braces put behind a text join its last line, so they change nothing that is reported of the lines
before it. As many as are missing take the fault of the last line away, fewer lower its count by as
many, and more turn it into an unmatched closing brace.
-/

namespace FoamDict.Brace

open FoamDict.Text

theorem balance_dropReturn (piece : List Char) : balance (dropReturn piece) = balance piece := by
  rw [dropReturn]
  split
  case isFalse => rfl
  case isTrue h =>
    obtain ⟨line, rfl⟩ := List.getLast?_eq_some_iff.mp h
    have hreturn : balance ['\r'] = 0 := rfl
    rw [List.dropLast_concat, balance_append, hreturn, Int.add_zero]

theorem balance_append_replicate (piece : List Char) (k : Nat) :
    balance (piece ++ List.replicate k '\x7d') = balance piece - k := by
  have hclose : balance (List.replicate k '\x7d') = -k := by simp [balance, List.count_replicate]
  rw [balance_append, hclose, Int.sub_eq_add_neg]

/-- What is reported of the last line, `depth` braces being open behind it. -/
def finalFaults (extent : Extent) (depth : Int) : List Fault :=
  if depth < 0 then [⟨extent, .unmatchedClose⟩]
  else if depth = 0 then [] else [⟨extent, .missingClose depth.toNat⟩]

theorem eq_of_mem_finalFaults {extent extent' : Extent} {depth : Int} {n : Nat}
    (h : ⟨extent', .missingClose n⟩ ∈ finalFaults extent depth) :
    extent' = extent ∧ depth = n ∧ finalFaults extent depth = [⟨extent', .missingClose n⟩] := by
  rw [finalFaults] at h ⊢
  split at h
  case isTrue => simp at h
  case isFalse hneg =>
    split at h
    case isTrue => simp at h
    case isFalse hzero =>
      rw [List.mem_singleton, Fault.mk.injEq, FaultKind.missingClose.injEq] at h
      obtain ⟨rfl, rfl⟩ := h
      rw [if_neg hneg, if_neg hzero]
      exact ⟨rfl, by omega, rfl⟩

theorem finalFaults_sub (extent : Extent) (n k : Nat) :
    finalFaults extent (n - k) =
      if k < n then [⟨extent, .missingClose (n - k)⟩]
      else if k = n then [] else [⟨extent, .unmatchedClose⟩] := by
  rw [finalFaults]
  rcases Nat.lt_trichotomy k n with h | rfl | h
  · have hcount : ((n : Int) - k).toNat = n - k := by omega
    rw [if_neg (by omega), if_neg (by omega), if_pos h, hcount]
  · simp
  · rw [if_pos (by omega), if_neg (by omega), if_neg (by omega)]

/-- The last line has no say in what is reported before it. -/
theorem exists_faultsFrom_concat (index depth : Nat) (last : Extent) (init : List (List Char)) :
    ∃ earlier, ∃ depth' : Nat, (∀ f ∈ earlier, f.kind = .unmatchedClose) ∧ ∀ line,
      faultsFrom index depth last (init ++ [line]) =
        earlier ++ finalFaults (.ofLine (index + init.length) line) (depth' + balance line) := by
  induction init generalizing index depth last with
  | nil =>
      refine ⟨[], depth, by simp, fun line => ?_⟩
      rw [List.nil_append, List.nil_append, faultsFrom, finalFaults]
      by_cases hneg : depth + balance line < 0
      · rw [if_pos hneg, if_pos hneg]
        rfl
      · rw [if_neg hneg, if_neg hneg, faultsFrom]
        by_cases hzero : depth + balance line = 0
        · rw [if_pos (by omega), if_pos hzero]
        · rw [if_neg (by omega), if_neg hzero]
          rfl
  | cons line init ih =>
      have hlength : index + (line :: init).length = index + 1 + init.length := by
        rw [List.length_cons]
        omega
      by_cases hneg : depth + balance line < 0
      · obtain ⟨earlier, depth', hkind, hfaults⟩ := ih (index + 1) 0 (.ofLine index line)
        refine ⟨⟨.ofLine index line, .unmatchedClose⟩ :: earlier, depth', ?_, fun line' => ?_⟩
        · exact List.forall_mem_cons.mpr ⟨rfl, hkind⟩
        · rw [List.cons_append, faultsFrom, if_pos hneg, hfaults, hlength, List.cons_append]
      · obtain ⟨earlier, depth', hkind, hfaults⟩ :=
          ih (index + 1) (depth + balance line).toNat (.ofLine index line)
        refine ⟨earlier, depth', hkind, fun line' => ?_⟩
        rw [List.cons_append, faultsFrom, if_neg hneg, hfaults, hlength]

/-- Braces behind a text take its depth down by as many, within its last line. -/
theorem exists_faults_append (text : List Char) :
    ∃ before index depth, ∃ last : Nat → List Char, (∀ f ∈ before, f.kind = .unmatchedClose) ∧
      ∀ k : Nat, (lines (text ++ List.replicate k '\x7d')).getLast? = some (last k) ∧
        index + 1 = (lines (text ++ List.replicate k '\x7d')).length ∧
        faults (text ++ List.replicate k '\x7d') =
          before ++ finalFaults (.ofLine index (last k)) (depth - k) := by
  obtain ⟨ps, piece, hpieces⟩ := exists_pieces_append text
  obtain ⟨before, depth, hkind, hconcat⟩ :=
    exists_faultsFrom_concat 0 0 ⟨0, 0, 0⟩ (ps.map dropReturn)
  refine ⟨before, ps.length, depth + balance piece,
    fun k => dropReturn (piece ++ List.replicate k '\x7d'), hkind, fun k => ?_⟩
  have hlines : lines (text ++ List.replicate k '\x7d') =
      ps.map dropReturn ++ [dropReturn (piece ++ List.replicate k '\x7d')] := by
    rw [lines, hpieces _ (by simp [List.mem_replicate]), List.map_append]
    rfl
  refine ⟨?_, ?_, ?_⟩
  · rw [hlines, List.getLast?_concat]
  · rw [hlines, List.length_append, List.length_map]
    rfl
  · rw [faults, hlines, hconcat, balance_dropReturn, balance_append_replicate, Nat.zero_add,
      List.length_map, Int.add_sub_assoc]

/-- Where `n` braces are missing, `k` braces behind the text leave `n - k` missing, none, or a line
that closes too many; everything reported before stays. -/
theorem faults_append_closing {text : List Char} {earlier : List Fault} {extent : Extent} {n : Nat}
    (h : faults text = earlier ++ [⟨extent, .missingClose n⟩]) (k : Nat) :
    ∃ line, (lines (text ++ List.replicate k '\x7d')).getLast? = some line ∧
      extent.line + 1 = (lines (text ++ List.replicate k '\x7d')).length ∧
      faults (text ++ List.replicate k '\x7d') = earlier ++
        if k < n then [⟨.ofLine extent.line line, .missingClose (n - k)⟩]
        else if k = n then [] else [⟨.ofLine extent.line line, .unmatchedClose⟩] := by
  obtain ⟨before, index, depth, last, hkind, hadd⟩ := exists_faults_append text
  -- What is missing is reported of the last line, and only there.
  obtain ⟨_, _, hnone⟩ := hadd 0
  rw [List.replicate_zero, List.append_nil, h] at hnone
  have hmem : ⟨extent, .missingClose n⟩ ∈
      before ++ finalFaults (.ofLine index (last 0)) (depth - (0 : Nat)) := by
    rw [← hnone]
    exact List.mem_append_right _ (List.mem_singleton_self _)
  rcases List.mem_append.mp hmem with hmem | hmem
  · cases hkind _ hmem
  obtain ⟨rfl, hdepth, hfinal⟩ := eq_of_mem_finalFaults hmem
  rw [hfinal] at hnone
  obtain rfl := List.append_cancel_right hnone
  obtain ⟨hlast, hlength, hfaults⟩ := hadd k
  have hmissing : depth = n := by omega
  refine ⟨last k, hlast, hlength, ?_⟩
  rw [hfaults, hmissing, finalFaults_sub]
  rfl

/-- Behind an unmatched brace two are missing; the carriage return at the end of the text becomes
part of the last line when braces are put behind it. -/
theorem faults_append_closing_behind_return :
    faults ['\x7d', '\n', '\x7b', '\x7b', '\r'] =
        [⟨⟨0, 0, 1⟩, .unmatchedClose⟩, ⟨⟨1, 0, 2⟩, .missingClose 2⟩] ∧
      faults ['\x7d', '\n', '\x7b', '\x7b', '\r', '\x7d'] =
        [⟨⟨0, 0, 1⟩, .unmatchedClose⟩, ⟨⟨1, 0, 4⟩, .missingClose 1⟩] ∧
      faults ['\x7d', '\n', '\x7b', '\x7b', '\r', '\x7d', '\x7d'] =
        [⟨⟨0, 0, 1⟩, .unmatchedClose⟩] ∧
      faults ['\x7d', '\n', '\x7b', '\x7b', '\r', '\x7d', '\x7d', '\x7d'] =
        [⟨⟨0, 0, 1⟩, .unmatchedClose⟩, ⟨⟨1, 0, 6⟩, .unmatchedClose⟩] := by
  have h : faults ['\x7d', '\n', '\x7b', '\x7b', '\r'] =
      [⟨⟨0, 0, 1⟩, .unmatchedClose⟩] ++ [⟨⟨1, 0, 2⟩, .missingClose 2⟩] := by decide
  obtain ⟨line, hline, _, hone⟩ := faults_append_closing h 1
  obtain ⟨_, _, _, htwo⟩ := faults_append_closing h 2
  obtain ⟨line', hline', _, hthree⟩ := faults_append_closing h 3
  obtain rfl : ['\x7b', '\x7b', '\r', '\x7d'] = line := Option.some.inj hline
  obtain rfl : ['\x7b', '\x7b', '\r', '\x7d', '\x7d', '\x7d'] = line' := Option.some.inj hline'
  exact ⟨h, hone, htwo, hthree⟩

end FoamDict.Brace

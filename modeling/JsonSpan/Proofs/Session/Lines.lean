import JsonSpan.Proofs.Text.Utf8
import JsonSpan.Session
import Mathlib.Data.List.Basic

/-!
# Lines of an input

An input is cut at its line feeds (`inputLines_append`). Whether it is UTF-8 is settled line by line
(`isValid_iff_lines`), since no character reaches over a line feed.
-/

namespace JsonSpan

open Utf8 (isValid)

theorem isValid_dropCarriageReturn (line : Bytes) :
    isValid (dropCarriageReturn line) ↔ isValid line := by
  unfold dropCarriageReturn
  split
  · next h =>
    obtain ⟨front, rfl⟩ := List.getLast?_eq_some_iff.1 h
    rw [List.dropLast_concat, Utf8.isValid_append (by decide)]
    exact (and_iff_left rfl).symm
  · rfl

theorem linesFrom_append {line t : Bytes} (h : Byte.lineFeed ∉ t) (rest : Bytes) :
    linesFrom line (t ++ Byte.lineFeed :: rest) =
      dropCarriageReturn (line.reverse ++ t) :: inputLines rest := by
  induction t generalizing line with
  | nil => simp [linesFrom, inputLines]
  | cons b t ih =>
    obtain ⟨hb, ht⟩ := not_or.1 (mt List.mem_cons.2 h)
    rw [List.cons_append, linesFrom, if_neg (Ne.symm hb), ih ht]
    simp

theorem inputLines_append {line : Bytes} (h : Byte.lineFeed ∉ line) (rest : Bytes) :
    inputLines (line ++ Byte.lineFeed :: rest) = dropCarriageReturn line :: inputLines rest :=
  linesFrom_append h rest

theorem Text.isWhite_getLast {cs : List Char} (h : trimChars cs = cs) :
    ∀ c ∈ cs.getLast?, isWhite c = false := by
  intro c hc
  have hend : (cs.dropWhile isWhite).reverse.dropWhile isWhite = cs.reverse := by
    rw [← List.reverse_reverse (List.dropWhile _ _)]
    exact congrArg List.reverse h
  have hhead := List.head?_dropWhile_not isWhite (cs.dropWhile isWhite).reverse
  rw [hend, List.head?_reverse, Option.mem_def.1 hc] at hhead
  simpa using hhead

theorem dropCarriageReturn_utf8 {text : String} (h : Text.trimChars text.toList = text.toList) :
    dropCarriageReturn (utf8 text) = utf8 text := by
  refine if_neg fun hlast => ?_
  rcases List.eq_nil_or_concat text.toList with hnil | ⟨cs, c, hcs⟩
  · rw [utf8, hnil] at hlast
    cases hlast
  · obtain ⟨b, bs, hbytes, -⟩ := Utf8.step_encode c []
    have hne : String.utf8EncodeChar c ≠ [] := by simp [hbytes]
    rw [utf8, hcs, List.concat_eq_append, List.flatMap_append, List.flatMap_singleton,
      List.getLast?_append_of_ne_nil _ hne] at hlast
    have hwhite := Text.isWhite_getLast h c (by simp [hcs])
    rcases Utf8.le_of_mem_encodeChar (List.mem_of_getLast? hlast) with hle | ⟨-, heq⟩
    · exact absurd hle (by decide)
    · have hc : c = '\r' := Char.toNat_inj.1 heq.symm
      subst hc
      cases hwhite

theorem inputLines_utf8 {text : String} (hline : '\n' ∉ text.toList)
    (htrim : Text.trimChars text.toList = text.toList) (rest : Bytes) : inputLines (utf8 text ++ Byte.lineFeed :: rest) = utf8 text :: inputLines rest := by
  have hfeed : Byte.lineFeed ∉ utf8 text := fun h => hline (mem_of_mem_utf8 (by decide) h)
  rw [inputLines_append hfeed, dropCarriageReturn_utf8 htrim]

theorem isValid_linesFrom (line input : Bytes) :
    isValid (line.reverse ++ input) ↔ ∀ l ∈ linesFrom line input, isValid l := by
  induction input generalizing line with
  | nil =>
    rw [linesFrom, List.append_nil]
    cases line with
    | nil => exact iff_of_true rfl (List.forall_mem_nil _)
    | cons b line => simp
  | cons b input ih =>
    unfold linesFrom
    split
    · next hb =>
      subst hb
      rw [List.forall_mem_cons, isValid_dropCarriageReturn, ← ih, Utf8.isValid_append (by decide)]
      rfl
    · rw [← ih, List.reverse_cons, List.append_assoc]
      rfl

/-- An input is UTF-8 if and only if all of its lines are. -/
theorem isValid_iff_lines (input : Bytes) : isValid input ↔ ∀ line ∈ inputLines input, isValid line :=
  isValid_linesFrom [] input

end JsonSpan

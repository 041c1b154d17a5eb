import JsonSpan.Proofs.Printing.Canonical
import JsonSpan.Proofs.Printing.Lost

/-!
# Canonical texts that cannot be read

A number that is infinite or a NaN, and a pattern with a slash after an odd number of backslashes,
make the canonical text of a path one that spells no path at all, whatever else there is in the path
(`Path.not_pathText_text`): up to the first of them the scanner returns to code, there it is lost, and
what is printed after it does not lead it back.
-/

namespace JsonSpan

open Spelling Spelling.Mode

/-! ### No part of a canonical text leads back -/

theorem keepsLost_bracket {t : List Char} (h : KeepsLost t) : KeepsLost ('[' :: t ++ [']']) :=
  .enclosed ['['] [']'] (by decide) (by decide) h

theorem keepsLost_parenthesize (needed : Bool) {t : List Char} (h : KeepsLost t) :
    KeepsLost (parenthesize needed t) := by
  cases needed with
  | true => exact .enclosed ['('] [')'] (by decide) (by decide) h
  | false => exact h

theorem keepsLost_members (ss : List Selector) :
    KeepsLost ([','].intercalate (ss.map Selector.chars)) := by
  have hmember : ∀ s : Selector, KeepsLost s.chars := by
    intro s
    cases s with
    | name s => exact keepsLost_quote s.toList
    | index i => exact additive_keepsLost.integer (integerText_indexChars i)
  induction ss with
  | nil => exact additive_keepsLost.nil
  | cons s ss ih =>
    cases ss with
    | nil =>
      rw [List.map_singleton, List.intercalate_singleton]
      exact hmember s
    | cons s' ss =>
      rw [List.map_cons, List.map_cons, List.intercalate_cons_cons]
      exact ((hmember s).append (keepsLost_of_forall (by decide))).append ih

theorem keepsLost_field (afterDescent : Bool) (name : String) :
    KeepsLost ((Segment.field name).charsAfter afterDescent) := by
  have hchars : KeepsLost (Segment.field name).chars := by
    rw [Segment.chars]
    split
    · next hname =>
      have hplain := (Bool.and_eq_true_iff.1 hname).2
      exact additive_keepsLost.cons (by decide) (keepsLost_plain (List.all_eq_true.1 hplain))
    · exact keepsLost_bracket (keepsLost_quote name.toList)
  rw [Segment.charsAfter]
  split
  · next hname =>
    have hplain := (Bool.and_eq_true_iff.1 (Bool.and_eq_true_iff.1 hname).2).2
    exact keepsLost_plain (List.all_eq_true.1 hplain)
  · exact hchars

theorem keepsLost_wildcard (afterDescent : Bool) :
    KeepsLost (Segment.wildcard.charsAfter afterDescent) := by
  cases afterDescent with
  | true => exact keepsLost_of_forall (by decide)
  | false => exact keepsLost_of_forall (by decide)

mutual

theorem Segment.keepsLost_charsAfter (afterDescent : Bool) : ∀ s : Segment,
    KeepsLost (s.charsAfter afterDescent)
  | .field name => keepsLost_field afterDescent name
  | .wildcard => keepsLost_wildcard afterDescent
  | .index i => keepsLost_bracket (additive_keepsLost.integer (integerText_indexChars i))
  | .slice start stop step =>
    keepsLost_bracket (additive_keepsLost.slice (sliceText_chars start stop step))
  | .union selectors => keepsLost_bracket (keepsLost_members selectors)
  | .descent => keepsLost_of_forall (t := ['.', '.']) (by decide)
  | .filter condition =>
    .enclosed ['[', '?', '('] [')', ']'] (by decide) (by decide) (Condition.keepsLost_chars condition)

theorem Segment.keepsLost_charsAll : ∀ (afterDescent : Bool) (ss : List Segment),
    KeepsLost (Segment.charsAll afterDescent ss)
  | _, [] => additive_keepsLost.nil
  | afterDescent, s :: ss => by
    rw [Segment.charsAll_cons]
    exact (Segment.keepsLost_charsAfter afterDescent s).append
      (Segment.keepsLost_charsAll s.isDescent ss)

theorem Condition.keepsLost_chars : ∀ c : Condition, KeepsLost c.chars
  | .or left right => by
    rw [Condition.chars]
    exact ((Condition.keepsLost_chars left).append (keepsLost_of_forall (by decide))).append
      (Condition.keepsLost_chars right)
  | .and left right => by
    rw [Condition.chars]
    have hleft := keepsLost_parenthesize left.isOr (Condition.keepsLost_chars left)
    have hright := keepsLost_parenthesize right.isOr (Condition.keepsLost_chars right)
    exact (hleft.append (keepsLost_of_forall (by decide))).append hright
  | .not inner => by
    rw [Condition.chars]
    exact additive_keepsLost.cons (by decide)
      (keepsLost_parenthesize _ (Condition.keepsLost_chars inner))
  | .compare left op right => by
    rw [Condition.chars]
    have hop := additive_keepsLost.cons (c := ' ') (by decide)
      (additive_keepsLost.comparison (comparisonText_chars op))
    exact ((Operand.keepsLost_chars left).append hop).append
      (additive_keepsLost.cons (by decide) (Operand.keepsLost_chars right))
  | .like operand pattern => by
    rw [Condition.chars]
    exact ((Operand.keepsLost_chars operand).append (keepsLost_of_forall (by decide))).append
      (keepsLost_pattern pattern)
  | .present operand => by
    rw [Condition.chars]
    exact Operand.keepsLost_chars operand

theorem Operand.keepsLost_chars : ∀ a : Operand, KeepsLost a.chars
  | .current segments => by
    rw [Operand.chars]
    exact additive_keepsLost.cons (by decide) (Segment.keepsLost_charsAll false segments)
  | .root segments => by
    rw [Operand.chars]
    exact additive_keepsLost.cons (by decide) (Segment.keepsLost_charsAll false segments)
  | .literal value => by
    rw [Operand.chars]
    exact keepsLost_literal value

end

/-! ### Where the way is lost -/

/-- The text loses the scanner where a condition or an operand begins. -/
def Loses (t : List Char) : Prop :=
  ∀ last ∈ starters, ((Mode.code last).run t).Lost

theorem loses_literal {v : Literal} (h : v.isReprintable = false) : Loses v.chars := by
  intro last hlast
  match v, h with
  | .number x, hx =>
    have hword : ∀ last ∈ starters, (Mode.code last).step 'N' = .dead ∧
        (Mode.code last).step 'i' = .dead ∧ (Mode.code last).step '-' = .code '-' := by
      decide
    obtain ⟨hnan, hinf, hminus⟩ := hword last hlast
    have htext := Binary64.text_mem_of_not_isFinite hx
    simp only [List.mem_cons, List.not_mem_nil, or_false] at htext
    show ((Mode.code last).run x.text.toList).Lost
    rcases htext with htext | htext | htext
    · rw [htext]
      show (((Mode.code last).step 'N').run ['a', 'N']).Lost
      rw [hnan]
      exact trivial
    · rw [htext]
      show (((Mode.code last).step 'i').run ['n', 'f']).Lost
      rw [hinf]
      exact trivial
    · rw [htext]
      show (((Mode.code last).step '-').run ['i', 'n', 'f']).Lost
      rw [hminus]
      exact trivial

theorem lost_escapeSlashes {odd : Bool} {cs : List Char} (h : evenBackslashes odd cs = false) :
    (((Mode.literal '/' odd).run (escapeSlashes cs)).step '/').Lost := by
  induction cs generalizing odd with
  | nil =>
    cases odd with
    | true => exact ⟨rfl, by decide⟩
    | false => cases h
  | cons c cs ih =>
    rw [evenBackslashes] at h
    rw [escapeSlashes, List.flatMap_cons, run_append]
    by_cases hback : c = '\\'
    · subst hback
      rw [if_pos rfl] at h
      have hstep : (Mode.literal '/' odd).run ['\\'] = .literal '/' !odd := by
        cases odd <;> rfl
      rw [if_neg (by decide), hstep]
      exact ih h
    · rw [if_neg hback] at h
      by_cases hslash : c = '/'
      · subst hslash
        rw [if_pos rfl]
        cases odd with
        | true =>
          -- the backslash before the slash is hidden itself, and the pattern ends here
          have hcode : (Mode.code '/').LostInPattern := trivial
          exact (hcode.escapeSlashes cs).close
        | false => exact ih (by simpa using h)
      · have hstep : (Mode.literal '/' odd).run [c] = .literal '/' false := by
          cases odd with
          | true => rfl
          | false =>
            show (if c = '\\' then Mode.literal '/' true
              else if c = '/' then .code c else .literal '/' false) = _
            rw [if_neg hback, if_neg hslash]
        rw [if_neg hslash, hstep]
        exact ih (by simpa [hslash] using h)

theorem lost_pattern {p : Pattern} (h : p.isReprintable = false) :
    ((Mode.code '~').run p.text).Lost := by
  have hopen : (Mode.code '~').step '/' = .literal '/' false := rfl
  rw [Pattern.text, List.cons_append, run_cons, run_append, hopen]
  exact keepsLost_flags p _ (lost_escapeSlashes h)

theorem Loses.parenthesize {t : List Char} (h : Loses t) (needed : Bool) :
    Loses (parenthesize needed t) := by
  intro last hlast
  cases needed with
  | true =>
    have hinside := h '(' (by decide)
    have hopen : (Mode.code last).step '(' = .code '(' := rfl
    show (((Mode.code last).step '(').run (t ++ [')'])).Lost
    rw [hopen, run_append]
    exact hinside.step (by decide)
  | false => exact h last hlast

theorem run_comparison (op : Comparison) (last : Char) :
    ∃ last' ∈ starters, (Mode.code last).run (' ' :: op.chars ++ [' ']) = .code last' := by
  cases op with
  | equal => exact ⟨'=', by decide, rfl⟩
  | unequal => exact ⟨'=', by decide, rfl⟩
  | less => exact ⟨'<', by decide, rfl⟩
  | lessEqual => exact ⟨'=', by decide, rfl⟩
  | greater => exact ⟨'>', by decide, rfl⟩
  | greaterEqual => exact ⟨'=', by decide, rfl⟩

theorem loses_either {t sep u : List Char} {first second : Bool} {starts : List Char}
    (h : (first && second) = false) (ht : first = false → Loses t)
    (hreturns : first = true → Returns t)
    (hsep : ∀ last, ∃ last' ∈ starts, (Mode.code last).run sep = .code last')
    (hu : second = false → ∀ last ∈ starts, ((Mode.code last).run u).Lost)
    (hkeep : KeepsLost (sep ++ u)) : Loses (t ++ sep ++ u) := by
  intro last hlast
  rw [List.append_assoc, run_append]
  cases first with
  | false => exact hkeep _ (ht rfl last hlast)
  | true =>
    obtain ⟨mid, hmid⟩ := hreturns rfl last
    obtain ⟨last', hlast', hsep⟩ := hsep mid
    rw [hmid, run_append, hsep]
    exact hu h last' hlast'

theorem run_leadChars (afterDescent : Bool) (last : Char) :
    ∃ last', (Mode.code last).run (leadChars afterDescent) = .code last' := by
  cases afterDescent with
  | true => exact ⟨'.', rfl⟩
  | false => exact ⟨last, rfl⟩

mutual

theorem Segment.lost_charsAfter (afterDescent : Bool) (last : Char) : ∀ {s : Segment},
    s.isWellFormed → s.isReprintable = false →
    ((Mode.code last).run (leadChars afterDescent ++ s.charsAfter afterDescent)).Lost
  | .filter condition, hw, hr => by
    obtain ⟨mid, hmid⟩ := run_leadChars afterDescent last
    have hopen : (Mode.code mid).run ['[', '?', '('] = .code '(' := rfl
    have hlost := Condition.loses_chars hw hr '(' (by decide)
    show ((Mode.code last).run (leadChars afterDescent ++
      (['[', '?', '('] ++ condition.chars ++ [')', ']']))).Lost
    rw [run_append, hmid, run_append, run_append, hopen]
    exact keepsLost_of_forall (by decide) _ hlost
  | .field _, _, hr | .wildcard, _, hr | .index _, _, hr | .slice _ _ _, _, hr | .union _, _, hr
  | .descent, _, hr => by cases hr

theorem Segment.lost_charsAll : ∀ {afterDescent : Bool} {ss : List Segment},
    Segment.areWellFormed afterDescent ss → Segment.areReprintable ss = false → ∀ last,
    ((Mode.code last).run (leadChars afterDescent ++ Segment.charsAll afterDescent ss)).Lost
  | _, [], _, hr, _ => by cases hr
  | afterDescent, s :: ss, hw, hr, last => by
    simp only [Segment.areWellFormed, Bool.and_eq_true, Bool.not_eq_true'] at hw
    rw [Segment.areReprintable] at hr
    obtain ⟨⟨hs, hdescent⟩, hss⟩ := hw
    rw [Segment.charsAll_cons, ← List.append_assoc, run_append]
    by_cases hfirst : s.isReprintable = true
    · rw [hfirst, Bool.true_and] at hr
      by_cases hd : s.isDescent = true
      · rw [hd, Bool.and_true] at hdescent
        subst hdescent
        have hmore := Segment.lost_charsAll hss hr last
        rw [hd] at hmore ⊢
        rw [run_append] at hmore
        cases s with
        | descent => exact hmore
        | _ => cases hd
      · have hd : s.isDescent = false := by simpa using hd
        have htext := Segment.segmentText_chars afterDescent hs hfirst hd
        obtain ⟨mid, hmid⟩ := compositional_returns.segment htext last
        have hmore := Segment.lost_charsAll hss hr mid
        rw [hd] at hmore ⊢
        rw [hmid]
        exact hmore
    · have hlost := Segment.lost_charsAfter afterDescent last hs (by simpa using hfirst)
      exact Segment.keepsLost_charsAll s.isDescent ss _ hlost

theorem Condition.loses_chars : ∀ {c : Condition}, c.isWellFormed → c.isReprintable = false →
    Loses c.chars
  | .or left right, hw, hr => by
    rw [Condition.isWellFormed, Bool.and_eq_true] at hw
    rw [Condition.chars]
    refine loses_either hr (Condition.loses_chars hw.1) ?_ (fun _ => ⟨'|', by decide, rfl⟩)
      (Condition.loses_chars hw.2) ?_
    · exact fun hl => compositional_returns.or (Condition.printed_of_isWellFormed hw.1 hl).bare
    · exact (keepsLost_of_forall (by decide)).append (Condition.keepsLost_chars right)
  | .and left right, hw, hr => by
    rw [Condition.isWellFormed, Bool.and_eq_true] at hw
    rw [Condition.chars]
    refine loses_either hr (fun hl => (Condition.loses_chars hw.1 hl).parenthesize _) ?_
      (fun _ => ⟨'&', by decide, rfl⟩) (fun hl => (Condition.loses_chars hw.2 hl).parenthesize _) ?_
    · exact fun hl => compositional_returns.and (Condition.printed_of_isWellFormed hw.1 hl).item
    · exact (keepsLost_of_forall (by decide)).append
        (keepsLost_parenthesize _ (Condition.keepsLost_chars right))
  | .not inner, hw, hr => by
    intro last _
    have hinner := (Condition.loses_chars (c := inner) hw hr).parenthesize (!inner.isTight)
    rw [Condition.chars]
    exact hinner '!' (by decide)
  | .compare left op right, hw, hr => by
    rw [Condition.isWellFormed, Bool.and_eq_true] at hw
    have hchars : (Condition.compare left op right).chars =
        left.chars ++ (' ' :: op.chars ++ [' ']) ++ right.chars := by
      simp [Condition.chars]
    rw [hchars]
    refine loses_either hr (Operand.loses_chars hw.1) ?_ (run_comparison op)
      (Operand.loses_chars hw.2) ?_
    · exact fun hl => compositional_returns.operand (Operand.operandText_chars hw.1 hl)
    · have hop := additive_keepsLost.cons (c := ' ') (by decide)
        (additive_keepsLost.comparison (comparisonText_chars op))
      exact (hop.append (keepsLost_of_forall (by decide))).append (Operand.keepsLost_chars right)
  | .like operand pattern, hw, hr => by
    have hsign : ∀ last, ∃ last' ∈ ['~'], (Mode.code last).run " =~ ".toList = .code last' :=
      fun _ => ⟨'~', by decide, rfl⟩
    rw [Condition.chars]
    refine loses_either hr (Operand.loses_chars hw) ?_ hsign ?_ ?_
    · exact fun hl => compositional_returns.operand (Operand.operandText_chars hw hl)
    · intro hp last hlast
      rw [List.mem_singleton.1 hlast]
      exact lost_pattern hp
    · exact (keepsLost_of_forall (by decide)).append (keepsLost_pattern pattern)
  | .present operand, hw, hr => by
    rw [Condition.isWellFormed, Bool.and_eq_true] at hw
    rw [Condition.chars]
    exact Operand.loses_chars hw.2 hr

theorem Operand.loses_chars : ∀ {a : Operand}, a.isWellFormed → a.isReprintable = false →
    Loses a.chars
  | .current segments, hw, hr => by
    intro last _
    rw [Operand.chars]
    exact Segment.lost_charsAll hw hr '@'
  | .root segments, hw, hr => by
    intro last _
    rw [Operand.chars]
    exact Segment.lost_charsAll hw hr '$'
  | .literal value, _, hr => by
    rw [Operand.chars]
    exact loses_literal hr

end

/-- If the text of a constant or of a pattern cannot be read, that of the path spells none. -/
theorem Path.not_pathText_text {p : Path} (hw : p.isWellFormed) (hr : p.isReprintable = false)
    (q : Path) : ¬PathText p.text.toList q := by
  intro hq
  have hlost := Segment.lost_charsAll hw hr '$'
  obtain ⟨last, hlast⟩ := compositional_returns.path hq '$'
  have htext : (Mode.code '$').run p.text.toList =
      (Mode.code '$').run (leadChars false ++ Segment.charsAll false p) := by
    rw [Path.text, String.toList_ofList]
    rfl
  rw [htext] at hlast
  rw [hlast] at hlost
  exact hlost

end JsonSpan

import JsonSpan.Proofs.Printing.Lexing
import JsonSpan.Proofs.Printing.Tokens

/-!
# A scanner that has lost its way

A literal whose text is not one can leave the scanner dead, or in a literal where the printed text is
outside of them (`Mode.Lost`). Nothing that is printed afterwards leads it back to code: what stands
between quotes and slashes has quotes and slashes escaped, so either it ends as it began, or it dies,
or it takes the closing mark of the one literal for the opening mark of another.
-/

namespace JsonSpan.Spelling.Mode

/-- Outside of what is printed as a literal, the scanner is in one, or dead. -/
def Lost : Mode → Prop
  | .code _ => False
  | .literal close escaped => escaped = false ∧ close ∈ ['"', '\'', '/']
  | .dead => True

/-- Inside of what is printed in quotes, a scanner that was lost is not in such quotes. -/
def LostInString : Mode → Prop
  | .code _ => True
  | .literal close escaped => escaped = false ∧ close ∈ ['\'', '/']
  | .dead => True

/-- Inside of what is printed between slashes, a scanner that was lost is not between slashes. -/
def LostInPattern : Mode → Prop
  | .code _ => True
  | .literal close _ => close ∈ ['"', '\'']
  | .dead => True

/-! ### Single characters -/

/-- The characters that can end a literal, and the one that can keep them from it. -/
def marks : List Char :=
  ['"', '\'', '/', '\\']

theorem Lost.step {m : Mode} (h : m.Lost) {c : Char} (hc : c ∉ marks) : (m.step c).Lost := by
  match m, h with
  | .dead, _ => exact trivial
  | .literal close _, ⟨rfl, hclose⟩ =>
    have hne : c ≠ close := by
      rintro rfl
      have hall : ∀ d ∈ ['"', '\'', '/'], d ∈ marks := by decide
      exact hc (hall c hclose)
    have hback : c ≠ '\\' := by
      rintro rfl
      exact hc (by decide)
    rw [Mode.step, if_neg (by simp), if_neg hback, if_neg hne]
    exact ⟨rfl, hclose⟩

theorem Lost.open_string {m : Mode} (h : m.Lost) : (m.step '"').LostInString := by
  match m, h with
  | .dead, _ => exact trivial
  | .literal close _, ⟨rfl, hclose⟩ =>
    have hall : ∀ d ∈ ['"', '\'', '/'], d = '"' ∨ d ∈ ['\'', '/'] ∧ '"' ≠ d := by decide
    rw [Mode.step, if_neg (by simp), if_neg (by decide)]
    rcases hall close hclose with rfl | ⟨hother, hne⟩
    · exact trivial
    · rw [if_neg hne]
      exact ⟨rfl, hother⟩

theorem LostInString.close {m : Mode} (h : m.LostInString) : (m.step '"').Lost := by
  match m, h with
  | .dead, _ => exact trivial
  | .code last, _ => exact ⟨rfl, by decide⟩
  | .literal close _, ⟨rfl, hclose⟩ =>
    have hall : ∀ d ∈ ['\'', '/'], d ∈ ['"', '\'', '/'] ∧ '"' ≠ d := by decide
    obtain ⟨hclose, hne⟩ := hall close hclose
    rw [Mode.step, if_neg (by simp), if_neg (by decide), if_neg hne]
    exact ⟨rfl, hclose⟩

theorem step_code (last c : Char) :
    (∃ last', (code last).step c = .code last') ∨ (code last).step c = .dead ∨
      c ∈ ['"', '\'', '/'] ∧ (code last).step c = .literal c false := by
  rw [Mode.step]
  split
  · exact .inr (.inl rfl)
  split
  · next hquote =>
    refine .inr (.inr ⟨?_, rfl⟩)
    rcases hquote with rfl | rfl <;> decide
  split
  · next hslash =>
    subst hslash
    split
    · exact .inr (.inr ⟨by decide, rfl⟩)
    · exact .inr (.inl rfl)
  split
  · exact .inr (.inl rfl)
  split
  · exact .inl ⟨_, rfl⟩
  · exact .inl ⟨_, rfl⟩

theorem LostInString.step {m : Mode} (h : m.LostInString) {c : Char} (hquote : c ≠ '"')
    (hback : c ≠ '\\') : (m.step c).LostInString := by
  match m, h with
  | .dead, _ => exact trivial
  | .code last, _ =>
    rcases step_code last c with ⟨last', hcode⟩ | hdead | ⟨hc, hopen⟩
    · rw [hcode]
      exact trivial
    · rw [hdead]
      exact trivial
    · rw [hopen]
      refine ⟨rfl, ?_⟩
      simpa [hquote] using hc
  | .literal close _, ⟨rfl, hclose⟩ =>
    rw [Mode.step, if_neg (by simp), if_neg hback]
    split
    · exact trivial
    · exact ⟨rfl, hclose⟩

theorem LostInString.escape {m : Mode} (h : m.LostInString) (c : Char) :
    (m.run ['\\', c]).LostInString := by
  match m, h with
  | .dead, _ => exact trivial
  | .code last, _ => exact trivial
  | .literal close _, ⟨rfl, hclose⟩ => exact ⟨rfl, hclose⟩

theorem LostInString.run {m : Mode} (h : m.LostInString) {t : List Char}
    (ht : ∀ c ∈ t, c ≠ '"' ∧ c ≠ '\\') : (m.run t).LostInString := by
  induction t generalizing m with
  | nil => exact h
  | cons c t ih =>
    obtain ⟨hquote, hback⟩ := ht c (by simp)
    exact ih (h.step hquote hback) fun d hd => ht d (by simp [hd])

theorem Lost.open_pattern {m : Mode} (h : m.Lost) : (m.step '/').LostInPattern := by
  match m, h with
  | .dead, _ => exact trivial
  | .literal close _, ⟨rfl, hclose⟩ =>
    have hall : ∀ d ∈ ['"', '\'', '/'], d = '/' ∨ d ∈ ['"', '\''] ∧ '/' ≠ d := by decide
    rw [Mode.step, if_neg (by simp), if_neg (by decide)]
    rcases hall close hclose with rfl | ⟨hother, hne⟩
    · exact trivial
    · rw [if_neg hne]
      exact hother

theorem LostInPattern.close {m : Mode} (h : m.LostInPattern) : (m.step '/').Lost := by
  match m, h with
  | .dead, _ => exact trivial
  | .code last, _ =>
    show (if last = '~' then Mode.literal '/' false else .dead).Lost
    split
    · exact ⟨rfl, by decide⟩
    · exact trivial
  | .literal close escaped, hclose =>
    have hall : ∀ d ∈ ['"', '\''], d ∈ ['"', '\'', '/'] ∧ '/' ≠ d := by decide
    obtain ⟨hmark, hne⟩ := hall close hclose
    rw [Mode.step]
    cases escaped with
    | true => exact ⟨rfl, hmark⟩
    | false =>
      rw [if_neg (by simp), if_neg (by decide), if_neg hne]
      exact ⟨rfl, hmark⟩

theorem LostInPattern.step {m : Mode} (h : m.LostInPattern) {c : Char} (hslash : c ≠ '/') :
    (m.step c).LostInPattern := by
  match m, h with
  | .dead, _ => exact trivial
  | .code last, _ =>
    rcases step_code last c with ⟨last', hcode⟩ | hdead | ⟨hc, hopen⟩
    · rw [hcode]
      exact trivial
    · rw [hdead]
      exact trivial
    · rw [hopen]
      show c ∈ ['"', '\'']
      simpa [hslash] using hc
  | .literal close escaped, hclose =>
    rw [Mode.step]
    split
    · exact hclose
    split
    · exact hclose
    split
    · exact trivial
    · exact hclose

theorem LostInPattern.slash {m : Mode} (h : m.LostInPattern) : (m.run ['\\', '/']).LostInPattern := by
  match m, h with
  | .dead, _ => exact trivial
  | .code last, _ => exact trivial
  | .literal close true, hclose =>
    have hall : ∀ d ∈ ['"', '\''], '/' ≠ d := by decide
    have hne := hall close hclose
    show (if '/' = close then Mode.code '/' else .literal close false).LostInPattern
    rw [if_neg hne]
    exact hclose
  | .literal close false, hclose => exact hclose

theorem LostInPattern.escapeSlashes {m : Mode} (h : m.LostInPattern) (cs : List Char) :
    (m.run (escapeSlashes cs)).LostInPattern := by
  induction cs generalizing m with
  | nil => exact h
  | cons c cs ih =>
    rw [JsonSpan.escapeSlashes, List.flatMap_cons, run_append]
    split
    · exact ih h.slash
    · next hslash => exact ih (h.step hslash)

/-! ### What does not lead back -/

/-- The text leads from lost to lost. -/
def KeepsLost (t : List Char) : Prop :=
  ∀ m : Mode, m.Lost → (m.run t).Lost

theorem KeepsLost.append {t u : List Char} (ht : KeepsLost t) (hu : KeepsLost u) :
    KeepsLost (t ++ u) := by
  intro m hm
  rw [run_append]
  exact hu _ (ht m hm)

theorem keepsLost_of_forall {t : List Char} (h : ∀ c ∈ t, c ∉ marks) : KeepsLost t := by
  induction t with
  | nil => exact fun _ hm => hm
  | cons c t ih =>
    intro m hm
    exact ih (fun d hd => h d (by simp [hd])) _ (hm.step (h c (by simp)))

theorem additive_keepsLost : Additive KeepsLost where
  nil := fun _ hm => hm
  append := .append
  cons := by
    intro c t hc ht m hm
    have hall : ∀ c ∈ marks, c ∈ special := by decide
    exact ht _ (hm.step fun hmem => hc (hall c hmem))

theorem keepsLost_plain {t : List Char} (h : ∀ c ∈ t, isPlainChar c) : KeepsLost t := by
  have hall : ∀ c ∈ marks, isPlainChar c = false := by decide
  refine keepsLost_of_forall fun c hc hmem => ?_
  have hplain := h c hc
  rw [hall c hmem] at hplain
  cases hplain

theorem KeepsLost.enclosed (opener closer : List Char) (ho : ∀ c ∈ opener, c ∉ marks)
    (hc : ∀ c ∈ closer, c ∉ marks) {t : List Char} (h : KeepsLost t) :
    KeepsLost (opener ++ t ++ closer) :=
  ((keepsLost_of_forall ho).append h).append (keepsLost_of_forall hc)

theorem LostInString.quoteChar {m : Mode} (h : m.LostInString) (c : Char) :
    (m.run (Text.quoteChar c)).LostInString := by
  rw [Text.quoteChar]
  split
  · exact h.escape _
  split
  · exact h.escape _
  split
  · exact h.escape _
  split
  · exact h.escape _
  split
  · exact h.escape _
  split
  · next hcontrol =>
    have hdigits := fun d => Escape.isAlphanum_of_mem_hexPadded (d := d) hcontrol
    generalize (Text.hexPadded 4 c.toNat).toList = digits at hdigits ⊢
    refine LostInString.run (h.escape 'u') fun d hd => ?_
    have hdigit := hdigits d hd
    constructor
    · rintro rfl
      cases hdigit
    · rintro rfl
      cases hdigit
  · next hquote hback _ _ _ _ => exact h.step hquote hback

theorem keepsLost_quote (cs : List Char) : KeepsLost (Text.quote cs) := by
  intro m hm
  have hinside : ∀ {m : Mode}, m.LostInString → (m.run (cs.flatMap Text.quoteChar)).LostInString := by
    induction cs with
    | nil => exact fun h => h
    | cons c cs ih =>
      intro m h
      rw [List.flatMap_cons, run_append]
      exact ih (h.quoteChar c)
  rw [Text.quote, List.cons_append, run_cons, run_append]
  exact (hinside hm.open_string).close

theorem keepsLost_flags (p : Pattern) : KeepsLost p.flags.toList := by
  have hall : ∀ c ∈ ['i', 'm', 's', 'x'], c ∉ marks := by decide
  exact keepsLost_of_forall fun c hc => hall c (mem_flags_of_ofText p.ofText_source c hc)

theorem keepsLost_pattern (p : Pattern) : KeepsLost p.text := by
  intro m hm
  have hinside := hm.open_pattern.escapeSlashes p.source.toList
  have hclosed := keepsLost_flags p _ hinside.close
  rw [Pattern.text, List.cons_append, run_cons, run_append]
  exact hclosed

theorem keepsLost_number (x : Binary64) : KeepsLost x.text.toList := by
  by_cases hx : x.isFinite = true
  · obtain ⟨n, hchars, _⟩ := Binary64.exists_numeral hx
    rw [← hchars]
    exact additive_keepsLost.numeral n
  · have hwords : ∀ w ∈ ["NaN", "inf", "-inf"], ∀ c ∈ w.toList, c ∉ marks := by decide
    exact keepsLost_of_forall (hwords x.text (Binary64.text_mem_of_not_isFinite (by simpa using hx)))

theorem keepsLost_literal (v : Literal) : KeepsLost v.chars := by
  cases v with
  | number x => exact keepsLost_number x
  | string s => exact keepsLost_quote s.toList
  | boolean b =>
    cases b with
    | true => exact keepsLost_of_forall (by decide)
    | false => exact keepsLost_of_forall (by decide)
  | null => exact keepsLost_of_forall (by decide)

end JsonSpan.Spelling.Mode

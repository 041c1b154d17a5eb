import JsonSpan.Path.Delimiters
import JsonSpan.Proofs.Grammar.Parts

/-!
# Delimiters of spelled paths

No text that spells a path leaves a delimiter open: reading any part of it puts the matching back to
what was open before (`Passes`). A slash opens a regular expression only after `=~`, so the pattern
of a condition is looked at together with its operator.
-/

namespace JsonSpan

/-! ### One part after the other -/

theorem DelimiterScan.run_append (s : DelimiterScan) (o : Nat) (t u : List Char) :
    s.run o (t ++ u) = s.run o t >>= fun s' => s'.run (o + Utf8.size t) u := by
  induction t generalizing s o with
  | nil => rfl
  | cons c t ih =>
    rw [List.cons_append, run, run, Utf8.size, ← Nat.add_assoc]
    cases s.step o c with
    | error fault => rfl
    | ok s' => exact ih s' (o + c.utf8Size)

namespace Spelling

open DelimiterScan

/-- What is open after the text is what was open before, and the text ends in code. -/
def Passes (t : List Char) : Prop :=
  ∀ frames last o, ∃ last', (DelimiterScan.mk frames .code last).run o t =
    .ok ⟨frames, .code, last'⟩

theorem passes_nil : Passes [] :=
  fun _ last _ => ⟨last, rfl⟩

theorem Passes.append {t u : List Char} (ht : Passes t) (hu : Passes u) : Passes (t ++ u) := by
  intro frames last o
  obtain ⟨mid, hmid⟩ := ht frames last o
  obtain ⟨last', hlast⟩ := hu frames mid (o + Utf8.size t)
  refine ⟨last', ?_⟩
  rw [run_append, hmid]
  exact hlast

/-- The characters that the matching of delimiters looks at. -/
def delimiters : List Char :=
  ['[', ']', '(', ')', '"', '\'', '/']

theorem nest_plain {s : DelimiterScan} {c : Char} (h : c ∉ delimiters) (o : Nat) :
    s.nest o c = .ok s.frames := by
  simp only [delimiters, List.mem_cons, List.not_mem_nil, or_false, not_or] at h
  obtain ⟨hopen, hclose, hleft, hright, _⟩ := h
  rw [nest.eq_def]
  split
  · exact absurd rfl hopen
  · exact absurd rfl hleft
  · exact absurd rfl hleft
  · exact absurd rfl hright
  · exact absurd rfl hright
  · exact absurd rfl hclose
  · exact absurd rfl hclose
  · rfl

theorem opened_plain {s : DelimiterScan} {c : Char} (h : c ∉ delimiters) : s.opened c = .code := by
  simp only [delimiters, List.mem_cons, List.not_mem_nil, or_false, not_or] at h
  obtain ⟨_, _, _, _, hdouble, hsingle, hslash⟩ := h
  rw [opened, if_neg (by simp [hdouble, hsingle]), if_neg (by simp [hslash])]

theorem step_plain {c : Char} (h : c ∉ delimiters) (frames : List Delimiter) (last : Char × Char)
    (o : Nat) : (DelimiterScan.mk frames .code last).step o c =
      .ok ⟨frames, .code, if isSpace c then last else (c, last.1)⟩ := by
  rw [step]
  dsimp only
  rw [nest_plain h, opened_plain h]
  rfl

theorem Passes.cons {c : Char} {t : List Char} (h : c ∉ delimiters) (ht : Passes t) :
    Passes (c :: t) := by
  intro frames last o
  rw [run, step_plain h]
  exact ht frames _ _

theorem passes_of_forall {t : List Char} (h : ∀ c ∈ t, c ∉ delimiters) : Passes t := by
  induction t with
  | nil => exact passes_nil
  | cons c t ih => exact .cons (h c (by simp)) (ih fun d hd => h d (by simp [hd]))

/-! ### Brackets and parentheses -/

theorem Passes.bracket {t : List Char} (h : Passes t) : Passes ('[' :: t ++ [']']) := by
  intro frames last o
  obtain ⟨mid, hmid⟩ := h (⟨.bracket, o⟩ :: frames) ('[', last.1) (o + '['.utf8Size)
  refine ⟨(']', mid.1), ?_⟩
  rw [run_append]
  show ((DelimiterScan.mk (⟨.bracket, o⟩ :: frames) .code ('[', last.1)).run _ t >>= _) = _
  rw [hmid]
  rfl

theorem step_parenthesis (frames : List Delimiter) (last : Char × Char) (o : Nat) :
    ∃ frame : Delimiter, frame.kind ≠ .bracket ∧ (DelimiterScan.mk frames .code last).step o '(' =
      .ok ⟨frame :: frames, .code, ('(', last.1)⟩ := by
  match frames with
  | [] => exact ⟨⟨.parenthesis, o⟩, by simp, rfl⟩
  | ⟨.parenthesis, _⟩ :: _ => exact ⟨⟨.parenthesis, o⟩, by simp, rfl⟩
  | ⟨.filter, _⟩ :: _ => exact ⟨⟨.parenthesis, o⟩, by simp, rfl⟩
  | ⟨.bracket, opened⟩ :: more =>
    by_cases hfilter : last.1 = '?'
    · refine ⟨⟨.filter, opened⟩, by simp, ?_⟩
      simp only [step, nest, hfilter, ↓reduceIte]
      rfl
    · refine ⟨⟨.parenthesis, o⟩, by simp, ?_⟩
      simp only [step, nest, hfilter, ↓reduceIte]
      rfl

theorem Passes.parenthesis {t : List Char} (h : Passes t) : Passes ('(' :: t ++ [')']) := by
  intro frames last o
  obtain ⟨⟨kind, opened⟩, hkind, hstep⟩ := step_parenthesis frames last o
  obtain ⟨mid, hmid⟩ := h (⟨kind, opened⟩ :: frames) ('(', last.1) (o + '('.utf8Size)
  have hopened : (DelimiterScan.mk frames .code last).run o ('(' :: t) =
      .ok ⟨⟨kind, opened⟩ :: frames, .code, mid⟩ := by
    rw [run, hstep]
    exact hmid
  refine ⟨(')', mid.1), ?_⟩
  rw [run_append, hopened]
  cases kind with
  | bracket => exact absurd rfl hkind
  | parenthesis => rfl
  | filter => rfl

/-! ### Strings and regular expressions -/

theorem Body.run {close : Char} {t : List Char} (h : Body close t) (frames : List Delimiter)
    (last : Char × Char) (o : Nat) :
    (DelimiterScan.mk frames (.literal close false) last).run o t =
      .ok ⟨frames, .literal close false, last⟩ := by
  induction h generalizing o with
  | nil => rfl
  | escaped c _ ih => exact ih (o + '\\'.utf8Size + c.utf8Size)
  | @plain c t hc hb _ ih =>
    have hcontinued : continued close false c = .literal close false := by
      simp [continued, hc, hb]
    rw [DelimiterScan.run, step]
    dsimp only
    rw [hcontinued]
    exact ih (o + c.utf8Size)

theorem run_close {close : Char} (hclose : close ≠ '\\') (frames : List Delimiter)
    (last : Char × Char) (o : Nat) (t : List Char) :
    (DelimiterScan.mk frames (.literal close false) last).run o (close :: t) =
      (DelimiterScan.mk frames .code last).run (o + close.utf8Size) t := by
  have hcontinued : continued close false close = .code := by
    simp [continued, hclose]
  rw [run, step]
  dsimp only
  rw [hcontinued]
  rfl

theorem step_quote {close : Char} (hq : close = '"' ∨ close = '\'') (frames : List Delimiter)
    (last : Char × Char) (o : Nat) : (DelimiterScan.mk frames .code last).step o close =
      .ok ⟨frames, .literal close false, (close, last.1)⟩ := by
  rcases hq with rfl | rfl
  · simp only [step, nest, opened, true_or, ↓reduceIte]
    rfl
  · simp only [step, nest, opened, or_true, ↓reduceIte]
    rfl

theorem passes_string {close : Char} {t : List Char} (hq : close = '"' ∨ close = '\'')
    (h : Body close t) : Passes (close :: t ++ [close]) := by
  intro frames last o
  have hclose : close ≠ '\\' := by
    rcases hq with rfl | rfl <;> decide
  have hinside := h.run frames (close, last.1) (o + close.utf8Size)
  refine ⟨(close, last.1), ?_⟩
  rw [List.cons_append, run, step_quote hq]
  show (DelimiterScan.mk frames (.literal close false) (close, last.1)).run _ (t ++ [close]) = _
  rw [run_append, hinside]
  exact run_close hclose frames (close, last.1) (o + close.utf8Size + Utf8.size t) []

theorem StringText.passes {t : List Char} {s : String} (h : StringText t s) : Passes t := by
  obtain ⟨hq, hbody, _⟩ := h
  exact passes_string hq hbody

theorem Blank.run {w : List Char} (h : Blank w) (frames : List Delimiter) (last : Char × Char)
    (o : Nat) : (DelimiterScan.mk frames .code last).run o w = .ok ⟨frames, .code, last⟩ := by
  induction w generalizing o with
  | nil => rfl
  | cons c w ih =>
    have hc := mem_blanks (h c (by simp))
    have hall : ∀ c ∈ [' ', '\t', '\r', '\n'], c ∉ delimiters ∧ isSpace c = true := by decide
    obtain ⟨hplain, hspace⟩ := hall c hc
    have hstep : (DelimiterScan.mk frames .code last).step o c = .ok ⟨frames, .code, last⟩ := by
      rw [step]
      dsimp only
      rw [nest_plain hplain, opened_plain hplain, hspace]
      rfl
    rw [DelimiterScan.run, hstep]
    exact ih (fun d hd => h d (by simp [hd])) _

theorem passes_regex {w t flags : List Char} (hw : Blank w) (h : Body '/' t)
    (hf : ∀ c ∈ flags, c ∉ delimiters) :
    Passes ('=' :: '~' :: (w ++ '/' :: (t ++ '/' :: flags))) := by
  intro frames last o
  obtain ⟨last', hflags⟩ := passes_of_forall hf frames ('/', '~')
    (o + 1 + 1 + Utf8.size w + 1 + Utf8.size t + 1)
  have hblank := hw.run frames ('~', '=') (o + 1 + 1)
  have hinside := h.run frames ('/', '~') (o + 1 + 1 + Utf8.size w + 1)
  refine ⟨last', ?_⟩
  show (DelimiterScan.mk frames .code ('~', '=')).run (o + 1 + 1) (w ++ '/' :: (t ++ '/' :: flags)) = _
  rw [run_append, hblank]
  show (DelimiterScan.mk frames (.literal '/' false) ('/', '~')).run
    (o + 1 + 1 + Utf8.size w + 1) (t ++ '/' :: flags) = _
  rw [run_append, hinside]
  show (DelimiterScan.mk frames (.literal '/' false) ('/', '~')).run _ ('/' :: flags) = _
  rw [run_close (by decide)]
  exact hflags

/-! ### All parts -/

theorem NameText.plain {t : List Char} {s : String} (h : NameText t s) : ∀ c ∈ t, c ∉ delimiters := by
  obtain ⟨_, hplain⟩ := h
  have hall : ∀ c ∈ delimiters, isPlainChar c = false := by decide
  intro c hc hmem
  have hc := hplain c hc
  rw [hall c hmem] at hc
  cases hc

theorem passes_name {t : List Char} {s : String} (h : NameText t s) : Passes ('.' :: t) :=
  .cons (by decide) (passes_of_forall h.plain)

theorem compositional_passes : Compositional Passes where
  nil := passes_nil
  append := .append
  cons := by
    intro c t hc ht
    have hall : ∀ c ∈ delimiters, c ∈ special := by decide
    exact .cons (fun hmem => hc (hall c hmem)) ht
  name := passes_name
  string := StringText.passes
  regex := by
    intro w t flags hw h hf
    have hall : ∀ c ∈ ['i', 'm', 's', 'x'], c ∉ delimiters := by decide
    exact passes_regex hw h fun c hc => hall c (hf c hc)
  bracket := .bracket
  parenthesis := .parenthesis

/-- In a text that spells a path, every delimiter is closed. -/
theorem checkDelimiters_of_pathText {cs : List Char} {p : Path} (h : PathText cs p) :
    checkDelimiters cs = .ok () := by
  obtain ⟨last, hlast⟩ := compositional_passes.path h [] start.last 0
  rw [checkDelimiters]
  show ((DelimiterScan.mk [] .code start.last).run 0 _ >>= _) = _
  rw [hlast]
  rfl

end Spelling

end JsonSpan

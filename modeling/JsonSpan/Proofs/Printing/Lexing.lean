import JsonSpan.Proofs.Grammar.Parts

/-!
# What no spelled text has

A scanner that looks at one character after the other, and knows of the grammar only where literals
begin and end. It dies where no spelled text can go on: at a backslash that is not in a literal, at a
slash that does not open a regular expression, and at an `i` or `N` where a condition or an operand
is to begin. Every text that spells a path leads it from code to code (`compositional_returns`).
-/

namespace JsonSpan.Spelling

/-- Where the scanner is: in code, with the last character that is no blank, or in a literal, or
beyond all that a spelled text can hold. -/
inductive Mode where
  | code (last : Char)
  | literal (close : Char) (escaped : Bool)
  | dead
  deriving DecidableEq

/-- The characters after which a condition or an operand begins. -/
def starters : List Char :=
  ['(', '|', '&', '!', '=', '<', '>', '-']

namespace Mode

/-- One character further. -/
def step : Mode → Char → Mode
  | .code last, c =>
    if c = '\\' then .dead
    else if c = '"' ∨ c = '\'' then .literal c false
    else if c = '/' then if last = '~' then .literal '/' false else .dead
    else if (c = 'i' ∨ c = 'N') ∧ last ∈ starters then .dead
    else if Reader.isBlank c then .code last
    else .code c
  | .literal close escaped, c =>
    if escaped then .literal close false
    else if c = '\\' then .literal close true
    else if c = close then .code c
    else .literal close false
  | .dead, _ => .dead

def run (m : Mode) (t : List Char) : Mode :=
  t.foldl step m

@[simp] theorem run_nil (m : Mode) : m.run [] = m := rfl

@[simp] theorem run_cons (m : Mode) (c : Char) (t : List Char) : m.run (c :: t) = (m.step c).run t :=
  rfl

@[simp] theorem run_append (m : Mode) (t u : List Char) : m.run (t ++ u) = (m.run t).run u :=
  List.foldl_append

/-! ### Steps -/

theorem step_ordinary {c : Char} (h : c ∉ special) (last : Char) :
    ∃ last', (code last).step c = .code last' := by
  simp only [special, List.mem_cons, List.not_mem_nil, or_false, not_or] at h
  obtain ⟨_, _, _, _, hdouble, hsingle, hslash, hback, hi, hN⟩ := h
  rw [step, if_neg hback, if_neg (by simp [hdouble, hsingle]), if_neg hslash,
    if_neg (by simp [hi, hN])]
  split
  · exact ⟨last, rfl⟩
  · exact ⟨c, rfl⟩

theorem step_plain {c : Char} (h : isPlainChar c) {last : Char} (hlast : last ∉ starters) :
    (code last).step c = .code c := by
  have hne : ∀ {d : Char}, isPlainChar d = false → c ≠ d := by
    rintro d hd rfl
    rw [h] at hd
    cases hd
  have hblank : Reader.isBlank c = false := by
    simp [Reader.isBlank, hne (d := ' ') rfl, hne (d := '\t') rfl, hne (d := '\r') rfl,
      hne (d := '\n') rfl]
  rw [step, if_neg (hne rfl), if_neg (by simp [hne (d := '"') rfl, hne (d := '\'') rfl]),
    if_neg (hne rfl), if_neg (fun hstart => hlast hstart.2), if_neg (by simp [hblank])]

theorem run_plain {t : List Char} (h : ∀ c ∈ t, isPlainChar c) {last : Char}
    (hlast : last ∉ starters) : ∃ last', (code last).run t = .code last' := by
  have hstarters : ∀ c ∈ starters, isPlainChar c = false := by decide
  induction t generalizing last with
  | nil => exact ⟨last, rfl⟩
  | cons c t ih =>
    have hc := h c (by simp)
    rw [run_cons, step_plain hc hlast]
    refine ih (fun d hd => h d (by simp [hd])) fun hmem => ?_
    rw [hstarters c hmem] at hc
    cases hc

theorem run_blank {w : List Char} (h : Blank w) (last : Char) : (code last).run w = .code last := by
  have hall : ∀ c ∈ [' ', '\t', '\r', '\n'], c ∉ ['\\', '"', '\'', '/', 'i', 'N'] := by decide
  induction w with
  | nil => rfl
  | cons c w ih =>
    have hc := h c (by simp)
    have hne := hall c (mem_blanks hc)
    simp only [List.mem_cons, List.not_mem_nil, or_false, not_or] at hne
    obtain ⟨hback, hdouble, hsingle, hslash, hi, hN⟩ := hne
    rw [run_cons, step, if_neg hback, if_neg (by simp [hdouble, hsingle]), if_neg hslash,
      if_neg (by simp [hi, hN]), if_pos hc]
    exact ih fun d hd => h d (by simp [hd])

theorem run_body {close : Char} {t : List Char} (h : Body close t) :
    (literal close false).run t = .literal close false := by
  induction h with
  | nil => rfl
  | escaped c _ ih => exact ih
  | plain hc hb _ ih =>
    rw [run_cons, step, if_neg (by simp), if_neg hb, if_neg hc]
    exact ih

theorem step_close {close : Char} (h : close ≠ '\\') :
    (literal close false).step close = .code close := by
  rw [step, if_neg (by simp), if_neg h, if_pos rfl]

end Mode

/-! ### From code to code -/

open Mode

/-- The text leads from code to code. -/
def Returns (t : List Char) : Prop :=
  ∀ last, ∃ last', (code last).run t = .code last'

theorem Returns.append {t u : List Char} (ht : Returns t) (hu : Returns u) : Returns (t ++ u) := by
  intro last
  obtain ⟨mid, hmid⟩ := ht last
  obtain ⟨last', hlast⟩ := hu mid
  refine ⟨last', ?_⟩
  rw [run_append, hmid, hlast]

theorem Returns.cons {c : Char} {t : List Char} (hc : c ∉ special) (ht : Returns t) :
    Returns (c :: t) := by
  intro last
  obtain ⟨mid, hmid⟩ := step_ordinary hc last
  rw [run_cons, hmid]
  exact ht mid

theorem NameText.returns {t : List Char} {s : String} (h : NameText t s) : Returns ('.' :: t) := by
  obtain ⟨_, hplain⟩ := h
  intro last
  have hdot : (code last).step '.' = .code '.' := by
    rw [Mode.step]
    rfl
  rw [run_cons, hdot]
  exact run_plain hplain (by decide)

theorem StringText.returns {t : List Char} {s : String} (h : StringText t s) : Returns t := by
  obtain @⟨close, t, cs, hq, hbody, _⟩ := h
  intro last
  have hclose : close ≠ '\\' := by
    rcases hq with rfl | rfl <;> decide
  have hopen : (code last).step close = .literal close false := by
    rw [Mode.step, if_neg hclose, if_pos hq]
  refine ⟨close, ?_⟩
  rw [List.cons_append, run_cons, hopen, run_append, run_body hbody, run_cons, step_close hclose,
    run_nil]

theorem returns_regex {w t flags : List Char} (hw : Blank w) (h : Body '/' t)
    (hf : ∀ c ∈ flags, c ∈ ['i', 'm', 's', 'x']) :
    Returns ('=' :: '~' :: (w ++ '/' :: (t ++ '/' :: flags))) := by
  intro last
  have hplain : ∀ c ∈ ['i', 'm', 's', 'x'], isPlainChar c := by decide
  have hslash : '/' ∉ starters := by decide
  obtain ⟨last', hflags⟩ := run_plain (fun c hc => hplain c (hf c hc)) hslash
  have hsign : ((code last).step '=').step '~' = .code '~' := rfl
  have hopen : (code '~').step '/' = .literal '/' false := rfl
  refine ⟨last', ?_⟩
  rw [run_cons, run_cons, hsign, run_append, run_blank hw, run_cons, hopen, run_append, run_body h,
    run_cons, step_close (by decide), hflags]

theorem Returns.enclosed {t : List Char} {opener closer : Char}
    (hopener : ∀ last, (code last).step opener = .code opener)
    (hcloser : ∀ last, (code last).step closer = .code closer) (h : Returns t) :
    Returns (opener :: t ++ [closer]) := by
  intro last
  obtain ⟨mid, hmid⟩ := h opener
  refine ⟨closer, ?_⟩
  rw [List.cons_append, run_cons, hopener, run_append, hmid, run_cons, hcloser, run_nil]

theorem compositional_returns : Compositional Returns where
  nil := fun last => ⟨last, rfl⟩
  append := .append
  cons := .cons
  name := NameText.returns
  string := StringText.returns
  regex := returns_regex
  bracket := .enclosed (fun _ => rfl) (fun _ => rfl)
  parenthesis := .enclosed (fun _ => rfl) (fun _ => rfl)

end JsonSpan.Spelling

import JsonSpan.Proofs.Grammar.Nesting

/-!
# Delimiters of paths that are cut short

A text that spells a path may be cut anywhere, also in a literal. What is open at the cut was opened
by the part of the text before it, and nothing that was open before that part is closed by it
(`OpensOnly`). So the outermost delimiter that is open at the cut is a bracket between the segments of
the path, together with its filter if the cut is in there, and that is what the matching of delimiters
reports (`Brackets.run_cut`).
-/

namespace JsonSpan

theorem cut_enclosed {a b : Char} {t x y : List Char} (h : a :: t ++ [b] = x ++ y) :
    x = [] ∨ (∃ x' y', x = a :: x' ∧ t = x' ++ y') ∨ x = a :: t ++ [b] := by
  rcases List.append_eq_append_iff.1 h with ⟨x', rfl, hx⟩ | ⟨y', hy, _⟩
  · rcases List.cons_eq_append_iff.1 hx with ⟨rfl, _⟩ | ⟨x'', rfl, hnil⟩
    · exact .inr (.inl ⟨t, [], by simp⟩)
    · obtain ⟨rfl, _⟩ := List.append_eq_nil_iff.1 hnil.symm
      exact .inr (.inr rfl)
  · cases x with
    | nil => exact .inl rfl
    | cons c x =>
      obtain ⟨rfl, ht⟩ := List.cons.inj hy
      exact .inr (.inl ⟨x, y', rfl, ht⟩)

namespace Spelling

open DelimiterScan

/-! ### Cuts -/

/-- Wherever the text is cut, what is open before it stays open below what the part before the cut
opens, of which a property holds. -/
def OpensOnly (P : List Delimiter → Prop) (t : List Char) : Prop :=
  ∀ x y, t = x ++ y → ∀ frames last o, ∃ fs lexical last', P fs ∧
    (DelimiterScan.mk frames .code last).run o x = .ok ⟨fs ++ frames, lexical, last'⟩

variable {P : List Delimiter → Prop}

theorem OpensOnly.append {t u : List Char} (ht : OpensOnly P t) (hp : Passes t)
    (hu : OpensOnly P u) : OpensOnly P (t ++ u) := by
  intro x y hxy frames last o
  rcases List.append_eq_append_iff.1 hxy with ⟨x', rfl, hx⟩ | ⟨y', hy, _⟩
  · obtain ⟨mid, hmid⟩ := hp frames last o
    obtain ⟨fs, lexical, last', hP, hrun⟩ := hu x' y hx frames mid (o + Utf8.size t)
    refine ⟨fs, lexical, last', hP, ?_⟩
    rw [run_append, hmid]
    exact hrun
  · exact ht x y' hy frames last o

theorem OpensOnly.mono {Q : List Delimiter → Prop} {t : List Char} (h : OpensOnly P t)
    (hPQ : ∀ fs, P fs → Q fs) : OpensOnly Q t := by
  intro x y hxy frames last o
  obtain ⟨fs, lexical, last', hP, hrun⟩ := h x y hxy frames last o
  exact ⟨fs, lexical, last', hPQ fs hP, hrun⟩

/-! ### Literals -/

theorem Body.run_cut {close : Char} {t x y : List Char} (h : Body close t) (ht : t = x ++ y)
    (frames : List Delimiter) (last : Char × Char) (o : Nat) :
    ∃ lexical, (DelimiterScan.mk frames (.literal close false) last).run o x =
      .ok ⟨frames, lexical, last⟩ := by
  induction h generalizing x o with
  | nil =>
    obtain ⟨rfl, _⟩ := List.append_eq_nil_iff.1 ht.symm
    exact ⟨_, rfl⟩
  | escaped c _ ih =>
    match x, ht with
    | [], _ => exact ⟨_, rfl⟩
    | [_], ht =>
      cases ht
      exact ⟨.literal close true, rfl⟩
    | _ :: _ :: x, ht =>
      cases ht
      exact ih rfl (o + '\\'.utf8Size + c.utf8Size)
  | @plain c t hc hb _ ih =>
    match x, ht with
    | [], _ => exact ⟨_, rfl⟩
    | _ :: x, ht =>
      cases ht
      have hcontinued : continued close false c = .literal close false := by
        simp [continued, hc, hb]
      obtain ⟨lexical, hrun⟩ := ih rfl (o + c.utf8Size)
      refine ⟨lexical, ?_⟩
      rw [DelimiterScan.run, step]
      dsimp only
      rw [hcontinued]
      exact hrun

theorem Body.run_cut_enclosed {close : Char} {t x y : List Char} (h : Body close t)
    (hclose : close ≠ '\\') (hx : close :: t ++ [close] = x ++ y) {frames : List Delimiter}
    {last last' : Char × Char} (hopen : ∀ o, (DelimiterScan.mk frames .code last).step o close =
      .ok ⟨frames, .literal close false, last'⟩) (o : Nat) :
    ∃ lexical last'', (DelimiterScan.mk frames .code last).run o x = .ok ⟨frames, lexical, last''⟩ := by
  rcases cut_enclosed hx with rfl | ⟨x', y', rfl, ht⟩ | rfl
  · exact ⟨_, _, rfl⟩
  · obtain ⟨lexical, hrun⟩ := h.run_cut ht frames last' (o + close.utf8Size)
    refine ⟨lexical, last', ?_⟩
    rw [DelimiterScan.run, hopen]
    exact hrun
  · have hinside := h.run frames last' (o + close.utf8Size)
    refine ⟨.code, last', ?_⟩
    rw [List.cons_append, DelimiterScan.run, hopen]
    show (DelimiterScan.mk frames (.literal close false) last').run _ (t ++ [close]) = _
    rw [run_append, hinside]
    exact run_close hclose frames last' (o + close.utf8Size + Utf8.size t) []

/-! ### Texts without brackets -/

theorem Flat.passes {t : List Char} (h : Flat t) : Passes t := by
  induction h with
  | nil => exact passes_nil
  | append _ _ ih ih' => exact ih.append ih'
  | plain h => exact .cons h passes_nil
  | string hq h => exact passes_string hq h
  | regex hw h =>
    have hflags : ∀ c ∈ ([] : List Char), c ∉ delimiters := by simp
    have hregex := passes_regex hw h hflags
    simpa using hregex

theorem opensOnly_plain {c : Char} (h : c ∉ delimiters) : OpensOnly (· = []) [c] := by
  intro x y hxy frames last o
  cases x with
  | nil => exact ⟨[], _, _, rfl, rfl⟩
  | cons d x =>
    obtain ⟨rfl, hx⟩ := List.cons.inj hxy
    obtain ⟨rfl, _⟩ := List.append_eq_nil_iff.1 hx.symm
    obtain ⟨last', hrun⟩ := (Passes.cons h passes_nil) frames last o
    exact ⟨[], _, last', rfl, hrun⟩

theorem opensOnly_of_forall {t : List Char} (h : ∀ c ∈ t, c ∉ delimiters) :
    OpensOnly (· = []) t := by
  induction t with
  | nil =>
    intro x y hxy frames last o
    obtain ⟨rfl, _⟩ := List.append_eq_nil_iff.1 hxy.symm
    exact ⟨[], _, _, rfl, rfl⟩
  | cons c t ih =>
    have hc := h c (by simp)
    exact (opensOnly_plain hc).append (.cons hc passes_nil) (ih fun d hd => h d (by simp [hd]))

theorem Flat.opensOnly {t : List Char} (h : Flat t) : OpensOnly (· = []) t := by
  induction h with
  | nil => exact opensOnly_of_forall (by simp)
  | append h _ ih ih' => exact ih.append h.passes ih'
  | plain h => exact opensOnly_plain h
  | @string close t hq h =>
    intro x y hxy frames last o
    have hclose : close ≠ '\\' := by
      rcases hq with rfl | rfl <;> decide
    obtain ⟨lexical, last', hrun⟩ := h.run_cut_enclosed hclose hxy (step_quote hq frames last) o
    exact ⟨[], lexical, last', rfl, hrun⟩
  | @regex w t hw h =>
    intro x y hxy frames last o
    rcases List.append_eq_append_iff.1 hxy with ⟨x', rfl, hx⟩ | ⟨y', hy, _⟩
    · -- after the operator the slash opens a literal
      have hopen : ∀ o, (DelimiterScan.mk frames .code ('~', '=')).step o '/' =
          .ok ⟨frames, .literal '/' false, ('/', '~')⟩ := fun _ => rfl
      have hblank := hw.run frames ('~', '=') (o + 1 + 1)
      obtain ⟨lexical, last', hrun⟩ :=
        h.run_cut_enclosed (by decide) hx hopen (o + 1 + 1 + Utf8.size w)
      refine ⟨[], lexical, last', rfl, ?_⟩
      show (DelimiterScan.mk frames .code ('~', '=')).run (o + 1 + 1) (w ++ x') = _
      rw [run_append, hblank]
      exact hrun
    · have hplain : ∀ c ∈ '=' :: '~' :: w, c ∉ delimiters := by
        have hsigns : ∀ c ∈ ['=', '~'], c ∉ delimiters := by decide
        exact List.forall_mem_append.2 ⟨hsigns, hw.plain⟩
      exact opensOnly_of_forall hplain x y' hy frames last o

/-! ### Brackets and parentheses -/

theorem Brackets.passes {l : Scope} {o : Nat} {t : List Char} {bs : List Bracket}
    (h : Brackets l o t bs) : Passes t := by
  induction h with
  | flat h => exact h.passes
  | append _ _ ih ih' => exact ih.append ih'
  | bracket h => exact h.passes.bracket
  | filter hw h₁ _ hw' ih =>
    have hinside := Passes.cons (c := '?') (by decide)
      ((passes_of_forall h₁.plain).append ih.parenthesis)
    have hall := (((passes_of_forall hw.plain).append hinside).append
      (passes_of_forall hw'.plain)).bracket
    simpa using hall
  | parenthesis _ ih => exact ih.parenthesis

theorem OpensOnly.bracket {t : List Char} (h : OpensOnly (fun _ => True) t) (hp : Passes t) :
    OpensOnly (fun _ => True) ('[' :: t ++ [']']) := by
  intro x y hxy frames last o
  rcases cut_enclosed hxy with rfl | ⟨x', y', rfl, ht⟩ | rfl
  · exact ⟨[], _, _, trivial, rfl⟩
  · obtain ⟨fs, lexical, last', _, hrun⟩ :=
      h x' y' ht (⟨.bracket, o⟩ :: frames) ('[', last.1) (o + '['.utf8Size)
    refine ⟨fs ++ [⟨.bracket, o⟩], lexical, last', trivial, ?_⟩
    rw [List.append_assoc]
    exact hrun
  · obtain ⟨last', hrun⟩ := hp.bracket frames last o
    exact ⟨[], .code, last', trivial, hrun⟩

theorem OpensOnly.parenthesis {t : List Char} (h : OpensOnly (fun _ => True) t) (hp : Passes t) :
    OpensOnly (fun _ => True) ('(' :: t ++ [')']) := by
  intro x y hxy frames last o
  rcases cut_enclosed hxy with rfl | ⟨x', y', rfl, ht⟩ | rfl
  · exact ⟨[], _, _, trivial, rfl⟩
  · obtain ⟨frame, _, hstep⟩ := step_parenthesis frames last o
    obtain ⟨fs, lexical, last', _, hrun⟩ :=
      h x' y' ht (frame :: frames) ('(', last.1) (o + '('.utf8Size)
    refine ⟨fs ++ [frame], lexical, last', trivial, ?_⟩
    rw [List.append_assoc, run, hstep]
    exact hrun
  · obtain ⟨last', hrun⟩ := hp.parenthesis frames last o
    exact ⟨[], .code, last', trivial, hrun⟩

/-- No text of a path closes what was open before it, wherever it is cut. -/
theorem Brackets.opensOnly {l : Scope} {o : Nat} {t : List Char} {bs : List Bracket}
    (h : Brackets l o t bs) : OpensOnly (fun _ => True) t := by
  have hflat : ∀ {t : List Char}, Flat t → OpensOnly (fun _ => True) t :=
    fun h => h.opensOnly.mono fun _ _ => trivial
  have hplain : ∀ {t : List Char}, (∀ c ∈ t, c ∉ delimiters) → OpensOnly (fun _ => True) t :=
    fun h => hflat (.of_forall h)
  induction h with
  | flat h => exact hflat h
  | append h _ ih ih' => exact ih.append h.passes ih'
  | bracket h => exact (hflat h).bracket h.passes
  | @filter l o w w₁ t w' bs hw h₁ h hw' ih =>
    have hquestion : Flat ('?' :: w₁) := .append (.plain (c := '?') (by decide)) (.of_forall h₁.plain)
    have hlead : Flat (w ++ '?' :: w₁) := (Flat.of_forall hw.plain).append hquestion
    have hinside := (hflat hlead).append hlead.passes (ih.parenthesis h.passes)
    have hp := hlead.passes.append h.passes.parenthesis
    have hall := (hinside.append hp (hplain hw'.plain)).bracket
      (hp.append (passes_of_forall hw'.plain))
    simpa using hall
  | parenthesis h ih => exact ih.parenthesis h.passes

/-! ### Where brackets lie -/

theorem size_enclosed {a b : Char} (ha : a.utf8Size = 1) (hb : b.utf8Size = 1) (t : List Char) :
    Utf8.size (a :: t ++ [b]) = Utf8.size t + 2 := by
  simp only [List.cons_append, Utf8.size_append, Utf8.size_cons, Utf8.size, ha, hb]
  omega

theorem size_lead (w w₁ : List Char) :
    Utf8.size (w ++ '?' :: w₁) = Utf8.size w + Utf8.size w₁ + 1 := by
  have hquestion : '?'.utf8Size = 1 := rfl
  rw [Utf8.size_append, Utf8.size_cons, hquestion]
  omega

theorem filter_eq (w w₁ t w' : List Char) :
    '[' :: w ++ '?' :: w₁ ++ '(' :: t ++ ')' :: w' ++ [']'] =
      '[' :: ((w ++ '?' :: w₁) ++ (('(' :: t ++ [')']) ++ w')) ++ [']'] := by
  simp

theorem size_filter (w w₁ t w' : List Char) :
    Utf8.size ('[' :: w ++ '?' :: w₁ ++ '(' :: t ++ ')' :: w' ++ [']']) =
      Utf8.size w + Utf8.size w₁ + Utf8.size t + Utf8.size w' + 5 := by
  rw [filter_eq, size_enclosed rfl rfl, Utf8.size_append, size_lead, Utf8.size_append,
    size_enclosed rfl rfl]
  omega

theorem Brackets.bounds {l : Scope} {o : Nat} {t : List Char} {bs : List Bracket}
    (h : Brackets l o t bs) : ∀ b ∈ bs, o ≤ b.start ∧ b.stop ≤ o + Utf8.size t := by
  induction h with
  | flat => simp
  | append _ _ ih ih' =>
    rw [Utf8.size_append]
    refine List.forall_mem_append.2 ⟨fun b hb => ?_, fun b hb => ?_⟩
    · have := ih b hb
      omega
    · have := ih' b hb
      omega
  | bracket =>
    rw [size_enclosed rfl rfl, List.forall_mem_singleton]
    exact ⟨Nat.le_refl _, Nat.le_refl _⟩
  | filter _ _ _ _ ih =>
    rw [size_filter]
    refine List.forall_mem_cons.2 ⟨by dsimp only; omega, fun b hb => ?_⟩
    have := ih b hb
    omega
  | parenthesis _ ih =>
    rw [size_enclosed rfl rfl]
    intro b hb
    have := ih b hb
    omega

/-! ### What is reported at a cut -/

/-- Where nothing is open no bracket is; otherwise the outermost open bracket makes the error. -/
inductive Diagnosed (bs : List Bracket) (n : Nat) : List Delimiter → Prop where
  | closed (h : ∀ b ∈ bs, ¬ b.IsOpen n) : Diagnosed bs n []
  | opened {frames : List Delimiter} (b : Bracket) (hb : b ∈ bs) (hopen : b.IsOpen n)
    (houter : ∀ b' ∈ bs, b'.IsOpen n → b' = b ∨ b.start < b'.start) (hne : frames ≠ [])
    (herror : unclosed frames = b.error n) : Diagnosed bs n frames

theorem Diagnosed.append {bs bs' : List Bracket} {n : Nat} {frames : List Delimiter}
    (h : Diagnosed bs n frames) (h' : ∀ b ∈ bs', ¬ b.IsOpen n) : Diagnosed (bs ++ bs') n frames := by
  cases h with
  | closed h => exact .closed (List.forall_mem_append.2 ⟨h, h'⟩)
  | opened b hb hopen houter hne herror =>
    refine .opened b (List.mem_append_left _ hb) hopen (List.forall_mem_append.2 ⟨houter, ?_⟩) hne herror
    exact fun b' hb' hopen' => absurd hopen' (h' b' hb')

theorem Diagnosed.prepend {bs bs' : List Bracket} {n : Nat} {frames : List Delimiter}
    (h : Diagnosed bs' n frames) (h' : ∀ b ∈ bs, ¬ b.IsOpen n) : Diagnosed (bs ++ bs') n frames := by
  cases h with
  | closed h => exact .closed (List.forall_mem_append.2 ⟨h', h⟩)
  | opened b hb hopen houter hne herror =>
    refine .opened b (List.mem_append_right _ hb) hopen (List.forall_mem_append.2 ⟨?_, houter⟩) hne herror
    exact fun b' hb' hopen' => absurd hopen' (h' b' hb')

theorem Diagnosed.around {b : Bracket} {bs : List Bracket} {n : Nat} {frames : List Delimiter}
    (hopen : b.IsOpen n) (hbs : ∀ b' ∈ bs, b.start < b'.start) (hne : frames ≠ [])
    (herror : unclosed frames = b.error n) : Diagnosed (b :: bs) n frames :=
  .opened b List.mem_cons_self hopen
    (List.forall_mem_cons.2 ⟨fun _ => .inl rfl, fun b' hb' _ => .inr (hbs b' hb')⟩) hne herror

theorem unclosed_bracket (o : Nat) : unclosed [⟨.bracket, o⟩] = .openBracket o :=
  rfl

theorem unclosed_filter (fs : List Delimiter) (o : Nat) :
    unclosed (fs ++ [⟨.filter, o⟩, ⟨.bracket, o⟩]) = .openFilter o := by
  simp [unclosed]

theorem Bracket.error_inside {o stop n : Nat} {filter : Span}
    (h : filter.start ≤ n ∧ n < filter.stop) :
    Bracket.error ⟨o, stop, some filter⟩ n = .openFilter o :=
  if_pos h

theorem Bracket.error_outside {o stop n : Nat} {filter : Span}
    (h : n < filter.start ∨ filter.stop ≤ n) :
    Bracket.error ⟨o, stop, some filter⟩ n = .openBracket o :=
  if_neg (by omega)

section

variable {w w₁ t w' x y : List Char}

theorem cut_filter (h : (w ++ '?' :: w₁) ++ (('(' :: t ++ [')']) ++ w') = x ++ y) :
    (∃ y', w ++ '?' :: w₁ = x ++ y') ∨
      (∃ x' y', x = (w ++ '?' :: w₁) ++ '(' :: x' ∧ t = x' ++ y') ∨
      ∃ x', x = (w ++ '?' :: w₁) ++ (('(' :: t ++ [')']) ++ x') ∧ w' = x' ++ y := by
  rcases List.append_eq_append_iff.1 h with ⟨x', rfl, hx⟩ | ⟨y', hy, _⟩
  · rcases List.append_eq_append_iff.1 hx with ⟨x'', rfl, hx'⟩ | ⟨y', hy, hw'⟩
    · exact .inr (.inr ⟨x'', rfl, hx'⟩)
    · rcases cut_enclosed hy with rfl | ⟨x'', y'', rfl, ht⟩ | rfl
      · exact .inl ⟨[], by simp⟩
      · exact .inr (.inl ⟨x'', y'', rfl, ht⟩)
      · have hnil : y' = [] := by simpa using hy
        subst hnil
        exact .inr (.inr ⟨[], by simp, hw'.symm⟩)
  · exact .inl ⟨y', hy⟩

theorem run_lead (hw : Blank w) (h₁ : Blank w₁) (frames : List Delimiter) (last : Char × Char)
    (o : Nat) : (DelimiterScan.mk frames .code last).run o (w ++ '?' :: w₁) =
      .ok ⟨frames, .code, ('?', last.1)⟩ := by
  rw [run_append, hw.run]
  show (DelimiterScan.mk frames .code last).run _ ('?' :: w₁) = _
  rw [run, step_plain (by decide)]
  exact h₁.run frames ('?', last.1) _

theorem run_cut_filter (hw : Blank w) (h₁ : Blank w₁) (hp : Passes t)
    (ht : OpensOnly (fun _ => True) t) (hw' : Blank w')
    (h : (w ++ '?' :: w₁) ++ (('(' :: t ++ [')']) ++ w') = x ++ y) (o stop : Nat)
    (last : Char × Char) :
    ∃ fs lexical last', (DelimiterScan.mk [⟨.bracket, o⟩] .code last).run (o + 1) x =
        .ok ⟨fs, lexical, last'⟩ ∧ fs ≠ [] ∧
      unclosed fs = Bracket.error ⟨o, stop, some ⟨o + Utf8.size w + Utf8.size w₁ + 3,
        o + Utf8.size w + Utf8.size w₁ + Utf8.size t + 4⟩⟩ (o + 1 + Utf8.size x) := by
  have hsize := size_lead w w₁
  have hlead := run_lead hw h₁ [⟨.bracket, o⟩] last (o + 1)
  rcases cut_filter h with ⟨y', hy⟩ | ⟨x', y', rfl, hx⟩ | ⟨x', rfl, hx⟩
  · have hflat : Flat (w ++ '?' :: w₁) := (Flat.of_forall hw.plain).append
      (.append (.plain (c := '?') (by decide)) (.of_forall h₁.plain))
    obtain ⟨fs, lexical, last', rfl, hrun⟩ :=
      hflat.opensOnly x y' hy [⟨.bracket, o⟩] last (o + 1)
    have hle := congrArg Utf8.size hy
    rw [hsize, Utf8.size_append] at hle
    refine ⟨[⟨.bracket, o⟩], lexical, last', hrun, by simp, ?_⟩
    exact (Bracket.error_outside (.inl (by dsimp only; omega))).symm
  · obtain ⟨fs, lexical, last', _, hrun⟩ := ht x' y' hx [⟨.filter, o⟩, ⟨.bracket, o⟩]
      ('(', '?') (o + 1 + Utf8.size (w ++ '?' :: w₁) + '('.utf8Size)
    have hle := congrArg Utf8.size hx
    have hparenthesis : '('.utf8Size = 1 := rfl
    rw [Utf8.size_append] at hle
    refine ⟨fs ++ [⟨.filter, o⟩, ⟨.bracket, o⟩], lexical, last', ?_, by simp, ?_⟩
    · rw [run_append, hlead]
      exact hrun
    · rw [unclosed_filter, Utf8.size_append, Utf8.size_cons]
      exact (Bracket.error_inside (by dsimp only; omega)).symm
  · obtain ⟨mid, hmid⟩ := hp.parenthesis [⟨.bracket, o⟩] ('?', last.1)
      (o + 1 + Utf8.size (w ++ '?' :: w₁))
    obtain ⟨fs, lexical, last', rfl, hrun⟩ := (Flat.of_forall hw'.plain).opensOnly x' y hx
      [⟨.bracket, o⟩] mid (o + 1 + Utf8.size (w ++ '?' :: w₁) + Utf8.size ('(' :: t ++ [')']))
    refine ⟨[⟨.bracket, o⟩], lexical, last', ?_, by simp, ?_⟩
    · rw [run_append, hlead]
      show (DelimiterScan.mk [⟨.bracket, o⟩] .code ('?', last.1)).run _ (('(' :: t ++ [')']) ++ x') = _
      rw [run_append, hmid]
      exact hrun
    · rw [unclosed_bracket, Utf8.size_append (w ++ '?' :: w₁), hsize,
        Utf8.size_append ('(' :: t ++ [')']), size_enclosed rfl rfl]
      exact (Bracket.error_outside (.inr (by dsimp only; omega))).symm

end

/-- Wherever a path is cut, what is open at the cut is reported as its outermost open bracket is. -/
theorem Brackets.run_cut {o : Nat} {t : List Char} {bs : List Bracket}
    (h : Brackets .path o t bs) {x y : List Char} (hx : t = x ++ y) (last : Char × Char) :
    ∃ fs lexical last', (DelimiterScan.mk [] .code last).run o x = .ok ⟨fs, lexical, last'⟩ ∧
      Diagnosed bs (o + Utf8.size x) fs := by
  generalize hl : Scope.path = l at h
  induction h generalizing x y last with
  | flat h =>
    obtain ⟨fs, lexical, last', rfl, hrun⟩ := h.opensOnly x y hx [] last _
    exact ⟨[], lexical, last', hrun, .closed (by simp)⟩
  | @append l o t u bs bs' h h' ih ih' =>
    rcases List.append_eq_append_iff.1 hx with ⟨x', rfl, hx'⟩ | ⟨y', hy, _⟩
    · obtain ⟨mid, hmid⟩ := h.passes [] last o
      obtain ⟨fs, lexical, last', hrun, hd⟩ := ih' hx' mid hl
      refine ⟨fs, lexical, last', ?_, ?_⟩
      · rw [run_append, hmid]
        exact hrun
      · rw [Utf8.size_append, ← Nat.add_assoc]
        refine hd.prepend fun b hb hopen => ?_
        have := (h.bounds b hb).2
        have := hopen.2
        omega
    · obtain ⟨fs, lexical, last', hrun, hd⟩ := ih hy last hl
      refine ⟨fs, lexical, last', hrun, hd.append fun b hb hopen => ?_⟩
      have hle := congrArg Utf8.size hy
      rw [Utf8.size_append] at hle
      have := (h'.bounds b hb).1
      have := hopen.1
      omega
  | @bracket l o t h =>
    rcases cut_enclosed hx with rfl | ⟨x', y', rfl, ht⟩ | rfl
    · refine ⟨[], _, _, rfl, .closed (List.forall_mem_singleton.2 fun hopen => ?_)⟩
      exact Nat.lt_irrefl o hopen.1
    · obtain ⟨fs, lexical, last', rfl, hrun⟩ :=
        h.opensOnly x' y' ht [⟨.bracket, o⟩] ('[', last.1) (o + 1)
      have hle := congrArg Utf8.size ht
      have hbracket : '['.utf8Size = 1 := rfl
      rw [Utf8.size_append] at hle
      refine ⟨[⟨.bracket, o⟩], lexical, last', hrun, ?_⟩
      rw [Utf8.size_cons, hbracket]
      refine .around ⟨?_, ?_⟩ (List.forall_mem_nil _) (by simp) rfl
      · dsimp only
        omega
      · dsimp only
        omega
    · obtain ⟨last', hrun⟩ := h.passes.bracket [] last o
      refine ⟨[], .code, last', hrun, .closed (List.forall_mem_singleton.2 fun hopen => ?_)⟩
      rw [size_enclosed rfl rfl] at hopen
      exact Nat.lt_irrefl _ hopen.2
  | @filter l o w w₁ t w' bs hw h₁ h hw' _ =>
    have hsize := size_filter w w₁ t w'
    have hall := (Brackets.filter (l := l) (o := o) hw h₁ h hw').passes
    rw [filter_eq] at hx hsize hall
    rcases cut_enclosed hx with rfl | ⟨x', y', rfl, hinside⟩ | rfl
    · refine ⟨[], _, _, rfl, .closed (List.forall_mem_cons.2 ⟨fun hopen => ?_, fun b hb hopen => ?_⟩)⟩
      · exact Nat.lt_irrefl o hopen.1
      · have := (h.bounds b hb).1
        have := hopen.1
        simp only [Utf8.size] at this
        omega
    · obtain ⟨fs, lexical, last', hrun, hne, herror⟩ := run_cut_filter hw h₁ h.passes h.opensOnly hw'
        hinside o (o + Utf8.size w + Utf8.size w₁ + Utf8.size t + Utf8.size w' + 5) ('[', last.1)
      have hbracket : '['.utf8Size = 1 := rfl
      rw [size_enclosed rfl rfl, hinside, Utf8.size_append] at hsize
      refine ⟨fs, lexical, last', hrun, ?_⟩
      rw [Utf8.size_cons, hbracket, ← Nat.add_assoc]
      refine .around ⟨?_, ?_⟩ (fun b hb => ?_) hne herror
      · dsimp only
        omega
      · dsimp only
        omega
      · have := (h.bounds b hb).1
        dsimp only
        omega
    · obtain ⟨last', hrun⟩ := hall [] last o
      refine ⟨[], .code, last', hrun, .closed ?_⟩
      rw [hsize]
      refine List.forall_mem_cons.2 ⟨fun hopen => ?_, fun b hb hopen => ?_⟩
      · have := hopen.2
        dsimp only at this
        omega
      · have := (h.bounds b hb).2
        have := hopen.2
        omega
  | parenthesis => cases hl

end Spelling

end JsonSpan

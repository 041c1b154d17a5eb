import JsonSpan.Proofs.Delimiters.Enclosed
import JsonSpan.Proofs.Grammar.Acceptance
import JsonSpan.Proofs.Grammar.Meanings

/-!
# Delimiters that are reported

Which delimiter of a text is reported as left open, whatever the text is. The offset is that of a
bracket outside of all literals which nothing closes (`BracketOpenAt`); for a filter, there is a
parenthesis inside of that bracket which nothing closes either, with a question mark before it
(`FilterOpenAt`). A text that leaves open nothing but parentheses is reported at its start, where
there need not be a bracket (`Path.parse_openDelimiter`).
-/

namespace JsonSpan

open Spelling DelimiterScan

/-! ### Where the matching stops -/

theorem step_eq_error {s : DelimiterScan} {o : Nat} {c : Char} {e : PathError}
    (h : s.step o c = .error e) :
    s.lexical = .code ∧ c = ']' ∧ s.frames ≠ [] ∧ e = unclosed s.frames := by
  rw [step] at h
  split at h
  · cases h
  · next hcode =>
    rcases bind_eq_error.1 h with hn | ⟨_, _, hpure⟩
    · exact ⟨hcode, nest_eq_error hn⟩
    · cases hpure

theorem run_eq_error {s : DelimiterScan} {o : Nat} {cs : List Char} {e : PathError}
    (h : s.run o cs = .error e) :
    ∃ x c y s', cs = x ++ c :: y ∧ s.run o x = .ok s' ∧
      s'.step (o + Utf8.size x) c = .error e := by
  induction cs generalizing s o with
  | nil => cases h
  | cons c cs ih =>
    rcases bind_eq_error.1 h with hstep | ⟨s₁, hstep, hrest⟩
    · exact ⟨[], c, cs, s, rfl, rfl, hstep⟩
    · obtain ⟨x, d, y, s', rfl, hx, hd⟩ := ih hrest
      refine ⟨c :: x, d, y, s', rfl, ?_, ?_⟩
      · rw [DelimiterScan.run, hstep]
        exact hx
      · rwa [Utf8.size_cons, ← Nat.add_assoc]

/-- The matching stops at the end of the text, or at a closing bracket of code that it refuses. -/
structure StopsAt (x y : List Char) : Prop where
  stops : Stops x y
  why : y = [] ∨ EndsInCode x ∧ y.head? = some ']'

theorem checkDelimiters_eq_error {cs : List Char} {e : PathError}
    (h : checkDelimiters cs = .error e) :
    ∃ x y s, cs = x ++ y ∧ Reaches x s ∧ StopsAt x y ∧ s.frames ≠ [] ∧ e = unclosed s.frames := by
  rcases bind_eq_error.1 h with hrun | ⟨s, hrun, hend⟩
  · obtain ⟨x, c, y, s, rfl, hx, hstep⟩ := run_eq_error hrun
    obtain ⟨hcode, rfl, hne, he⟩ := step_eq_error hstep
    have hreaches : Reaches x s := hx
    refine ⟨x, ']' :: y, s, rfl, hx, ⟨?_, .inr ⟨hreaches.endsInCode hcode, rfl⟩⟩, hne, he⟩
    rintro _ _ ⟨⟩ s' hs'
    obtain ⟨s₀, hs₀, hstep'⟩ := reaches_concat.1 hs'
    cases hs₀.unique hx
    rw [Nat.zero_add, hstep'] at hstep
    cases hstep
  · refine ⟨cs, [], s, (List.append_nil cs).symm, hrun, ⟨nofun, .inl rfl⟩, ?_⟩
    split at hend
    · cases hend
    · next hne =>
      cases hend
      exact ⟨by simpa using hne, rfl⟩

/-- The error for what is left open is that of a filter, or of a bracket if there is no filter, or
else, if there are only parentheses, that of the start. -/
theorem unclosed_cases (frames : List Delimiter) :
    (∃ f ∈ frames, f.kind = .filter ∧ unclosed frames = .openFilter f.offset) ∨
    (∃ f ∈ frames, f.kind = .bracket ∧ unclosed frames = .openBracket f.offset) ∨
    (∀ f ∈ frames, f.kind = .parenthesis) ∧ unclosed frames = .openBracket 0 := by
  rw [unclosed]
  cases hfilter : frames.reverse.find? (·.kind == .filter) with
  | some f =>
    have hkind := List.find?_some hfilter
    have hmem := List.mem_reverse.1 (List.mem_of_find?_eq_some hfilter)
    exact .inl ⟨f, hmem, eq_of_beq hkind, rfl⟩
  | none =>
    cases hbracket : frames.reverse.find? (·.kind == .bracket) with
    | some f =>
      have hkind := List.find?_some hbracket
      have hmem := List.mem_reverse.1 (List.mem_of_find?_eq_some hbracket)
      exact .inr (.inl ⟨f, hmem, eq_of_beq hkind, rfl⟩)
    | none =>
      refine .inr (.inr ⟨fun f hf => ?_, rfl⟩)
      have hnotFilter := List.find?_eq_none.1 hfilter f (List.mem_reverse.2 hf)
      have hnotBracket := List.find?_eq_none.1 hbracket f (List.mem_reverse.2 hf)
      cases hkind : f.kind with
      | parenthesis => rfl
      | filter => exact absurd (by simp [hkind]) hnotFilter
      | bracket => exact absurd (by simp [hkind]) hnotBracket

/-! ### What is reported -/

/-- An opener, after `t`, that is outside of all literals and has no closer in the rest of the
text. -/
structure NeverClosed (d : Enclosure) (t rest : List Char) : Prop where
  endsInCode : EndsInCode t
  not_isClosed : ¬ IsClosed d t rest

/-- At this offset of the text there is a bracket that is never closed. -/
def BracketOpenAt (cs : List Char) (o : Nat) : Prop :=
  ∃ t u, cs = t ++ '[' :: u ∧ Utf8.size t = o ∧ NeverClosed .bracket t u

/-- At this offset of the text there is a bracket that is never closed, after it a nested text, then
a question mark, and then, white space apart, a parenthesis that is never closed. -/
def FilterOpenAt (cs : List Char) (o : Nat) (n : List Char) : Prop :=
  ∃ t w u, cs = t ++ '[' :: (n ++ '?' :: (w ++ '(' :: u)) ∧ Utf8.size t = o ∧ Spaces w ∧
    Nested (some .bracket) (t ++ ['[']) n ∧
    NeverClosed .bracket t (n ++ '?' :: (w ++ '(' :: u)) ∧
    NeverClosed .parenthesis (t ++ '[' :: (n ++ '?' :: w)) u

/-- In the text, or in what stands before a closing bracket of code, some parenthesis is never
closed, but every bracket is. -/
def OnlyParenthesesOpen (cs : List Char) : Prop :=
  ∃ x y, cs = x ++ y ∧ (y = [] ∨ EndsInCode x ∧ y.head? = some ']') ∧
    (∃ t u, x = t ++ '(' :: u ∧ NeverClosed .parenthesis t (u ++ y)) ∧
    ∀ t u, x = t ++ '[' :: u → EndsInCode t → IsClosed .bracket t u

section

variable {x y : List Char} {s : DelimiterScan}

theorem Origin.neverClosed {f : Delimiter} {frames : List Delimiter} {t u : List Char}
    (h : Origin f frames t u) (hstop : Stops (t ++ f.enclosure.opener :: u) y) :
    NeverClosed f.enclosure t (u ++ y) :=
  ⟨h.openAfter.endsInCode, h.not_isClosed hstop⟩

theorem bracketOpenAt_of_mem (hs : Reaches x s) (hstop : Stops x y) {f : Delimiter}
    (hf : f ∈ s.frames) (hkind : f.kind = .bracket) : BracketOpenAt (x ++ y) f.offset := by
  obtain ⟨kind, o⟩ := f
  subst hkind
  obtain ⟨above, below, hframes⟩ := List.append_of_mem hf
  obtain ⟨t, u, rfl, horigin⟩ := hs.origin (hframes ▸ List.suffix_append above _)
  have hnever := horigin.neverClosed hstop
  cases horigin.openedAt
  exact ⟨t, u ++ y, by simp [Delimiter.enclosure, Enclosure.opener], rfl, hnever⟩

theorem filterOpenAt_of_mem (hs : Reaches x s) (hstop : Stops x y) {f : Delimiter}
    (hf : f ∈ s.frames) (hkind : f.kind = .filter) : ∃ n, FilterOpenAt (x ++ y) f.offset n := by
  obtain ⟨kind, o⟩ := f
  subst hkind
  obtain ⟨above, below, hframes⟩ := List.append_of_mem hf
  obtain ⟨t', u, rfl, hfilter⟩ := hs.origin (hframes ▸ List.suffix_append above _)
  have hparenthesis := hfilter.neverClosed hstop
  obtain ⟨more, rfl, hmark⟩ : ∃ more, below = ⟨.bracket, o⟩ :: more ∧ EndsIn '?' t' := by
    cases hfilter.openedAt with
    | filter hbelow hmark => exact ⟨_, hbelow, hmark⟩
  obtain ⟨last, hreaches⟩ := hfilter.openAfter
  obtain ⟨t, v, rfl, hbracket⟩ := hreaches.origin (List.suffix_refl _)
  have hnested := hbracket.nested hfilter.openAfter
  have hnever := (hbracket.below hfilter).neverClosed (y := y) (by simpa using hstop)
  obtain rfl : Utf8.size t = o := by
    cases hbracket.openedAt
    rfl
  rcases (endsIn_append_cons rfl).1 hmark with ⟨n, w, rfl, hw⟩ | ⟨hne, _⟩
  · have hinside : Nested (some .bracket) (t ++ ['[']) n := by
      refine hnested.of_append (List.forall_mem_cons.2 ⟨by decide, fun c hc hmem => ?_⟩)
      have hall : ∀ c ∈ [']', ')', '"', '\'', '/'], isSpace c = false := by decide
      exact Bool.false_ne_true ((hall c hmem).symm.trans (hw c hc))
    refine ⟨n, t, w, u ++ y, ?_, rfl, hw, hinside, ?_, hparenthesis⟩
    · simp [Delimiter.enclosure, Enclosure.opener]
    · simpa [Delimiter.enclosure, Enclosure.opener] using hnever
  · cases hne

theorem onlyParenthesesOpen_of_forall (hs : Reaches x s) (hstop : StopsAt x y)
    (hne : s.frames ≠ []) (hall : ∀ f ∈ s.frames, f.kind = .parenthesis) :
    OnlyParenthesesOpen (x ++ y) := by
  refine ⟨x, y, rfl, hstop.why, ?_, fun t u hx ht => ?_⟩
  · obtain ⟨⟨kind, o⟩, below, hframes⟩ := List.exists_cons_of_ne_nil hne
    obtain rfl : kind = .parenthesis := hall _ (hframes ▸ List.mem_cons_self)
    have hsuffix : (⟨.parenthesis, o⟩ :: below) <:+ s.frames := hframes ▸ List.suffix_refl _
    obtain ⟨t, u, rfl, horigin⟩ := hs.origin hsuffix
    exact ⟨t, u, rfl, horigin.neverClosed hstop.stops⟩
  · subst hx
    obtain ⟨s', hs', _⟩ := reaches_append.1 hs
    have hopen := OpenAfter.of_reaches hs' (ht.lexical_eq hs')
    rcases isClosed_or_isOpen hopen .bracket hs with hclosed | ⟨⟨kind, o⟩, hf, hsuffix⟩
    · exact hclosed
    · obtain rfl : kind = .parenthesis := hall _ (hsuffix.subset (List.mem_cons_self))
      cases hf

end

/-! ### The errors of paths -/

theorem FilterOpenAt.spaces {cs : List Char} {o : Nat} {n : List Char} (h : FilterOpenAt cs o n)
    (hmarks : ∀ t u, cs = t ++ '?' :: u → EndsInCode t → EndsIn '[' t) : Spaces n := by
  obtain ⟨t, w, u, hcs, _, _, hnested, hnever, _⟩ := h
  have hopen := EndsInCode.char hnever.endsInCode Enclosure.bracket.not_opensLiteral.1
  have hcode := hnested.endsInCode hopen
  have hmark := hmarks (t ++ ['['] ++ n) (w ++ '(' :: u) (by simpa using hcs) hcode
  rw [List.append_assoc, List.singleton_append, endsIn_append_cons rfl] at hmark
  rcases hmark with hends | ⟨_, hspaces⟩
  · exact absurd hends hnested.not_endsIn
  · exact hspaces

theorem Path.parse_eq_error {q : String} {e : PathError} (h : Path.parse q = .error e)
    (he : e.IsUnclosed) : checkDelimiters (Text.trimChars q.toList) = .error e := by
  rw [parse_eq] at h
  rcases bind_eq_error.1 h with hcheck | ⟨_, _, hchars⟩
  · exact hcheck
  · exact absurd he (ofChars_notUnclosed _ e hchars)

/-- The offset of an error for delimiters left open. -/
theorem Path.parse_openDelimiter (q : String) :
    (∀ o, Path.parse q = .error (.openBracket o) →
      BracketOpenAt (Text.trimChars q.toList) o ∨
        o = 0 ∧ OnlyParenthesesOpen (Text.trimChars q.toList)) ∧
    ∀ o, Path.parse q = .error (.openFilter o) →
      ∃ n, FilterOpenAt (Text.trimChars q.toList) o n ∧
        ((∀ t u, Text.trimChars q.toList = t ++ '?' :: u → EndsInCode t → EndsIn '[' t) →
          Spaces n) := by
  refine ⟨fun o h => ?_, fun o h => ?_⟩
  · obtain ⟨x, y, s, hcs, hs, hstop, hne, he⟩ := checkDelimiters_eq_error (parse_eq_error h trivial)
    rw [hcs]
    rcases unclosed_cases s.frames with
      ⟨f, _, _, hf⟩ | ⟨f, hf, hkind, hunclosed⟩ | ⟨hall, hunclosed⟩
    · cases he.trans hf
    · cases he.trans hunclosed
      exact .inl (bracketOpenAt_of_mem hs hstop.stops hf hkind)
    · cases he.trans hunclosed
      exact .inr ⟨rfl, onlyParenthesesOpen_of_forall hs hstop hne hall⟩
  · obtain ⟨x, y, s, hcs, hs, hstop, hne, he⟩ := checkDelimiters_eq_error (parse_eq_error h trivial)
    rcases unclosed_cases s.frames with ⟨f, hf, hkind, hunclosed⟩ | ⟨f, _, _, hf⟩ | ⟨_, hunclosed⟩
    · cases he.trans hunclosed
      obtain ⟨n, hn⟩ := filterOpenAt_of_mem hs hstop.stops hf hkind
      rw [← hcs] at hn
      exact ⟨n, hn, hn.spaces⟩
    · cases he.trans hf
    · cases he.trans hunclosed

/-- A bracket in code that nothing closes is always reported. A slash opens a literal only right after
`=~` here, so a bracket after another slash has to be closed too, whatever the grammar makes of it. -/
theorem Path.parse_notClosed {q : String} {t u : List Char}
    (hq : Text.trimChars q.toList = t ++ '[' :: u) (ht : EndsInCode t)
    (hopen : ¬ IsClosed .bracket t u) : ∃ e, Path.parse q = .error e ∧ e.IsUnclosed := by
  rw [parse_eq]
  cases hcheck : checkDelimiters (Text.trimChars q.toList) with
  | error e =>
    obtain ⟨x, y, s, -, -, -, -, rfl⟩ := checkDelimiters_eq_error hcheck
    refine ⟨_, rfl, ?_⟩
    rcases unclosed_cases s.frames with ⟨f, -, -, hf⟩ | ⟨f, -, -, hf⟩ | ⟨-, hf⟩ <;>
      simp only [hf, PathError.IsUnclosed]
  | ok =>
    rw [hq] at hcheck
    obtain ⟨s, hs, hend⟩ := bind_eq_ok.1 hcheck
    have hempty : s.frames = [] := by
      split at hend
      · next hnil => simpa using hnil
      · cases hend
    obtain ⟨s₀, hs₀, -⟩ := reaches_append.1 hs
    have hafter := OpenAfter.of_reaches hs₀ (ht.lexical_eq hs₀)
    rcases isClosed_or_isOpen hafter .bracket hs with hclosed | ⟨f, -, hsuffix⟩
    · exact absurd hclosed hopen
    · rw [hempty] at hsuffix
      simp at hsuffix

/-- A parenthesis alone is reported as a bracket at the start, a question mark anywhere before a
parenthesis is taken for that of a filter, and so is one whose bracket is closed, if a bracket stands
in a literal that the grammar reads: it finds no other fault than the literal. -/
theorem Path.parse_openDelimiter_misreported :
    (Path.parse "$(" = .error (.openBracket 0) ∧ OnlyParenthesesOpen "$(".toList) ∧
      (Path.parse "$[a?(" = .error (.openFilter 1) ∧ ∃ n, FilterOpenAt "$[a?(".toList 1 n) ∧
      Path.parse "$[?(@.a == /[/)]" = .error (.openFilter 1) ∧
      (∃ n, FilterOpenAt "$[?(@.a == /[/)]".toList 1 n) ∧
      EndsInCode "$[?(@.a == /".toList ∧
      Path.ofChars "$[?(@.a == /[/)]".toList = .error (.strayPattern "/[/") := by
  have htrim : Text.trimChars "$(".toList = "$(".toList ∧
      Text.trimChars "$[a?(".toList = "$[a?(".toList ∧
      Text.trimChars "$[?(@.a == /[/)]".toList = "$[?(@.a == /[/)]".toList := by decide
  have hcheck : checkDelimiters "$(".toList = .error (.openBracket 0) ∧
      checkDelimiters "$[a?(".toList = .error (.openFilter 1) ∧
      checkDelimiters "$[?(@.a == /[/)]".toList = .error (.openFilter 1) := by decide
  have hparenthesis : Path.parse "$(" = .error (.openBracket 0) := by
    rw [parse_eq, htrim.1, hcheck.1]
    rfl
  have hmark : Path.parse "$[a?(" = .error (.openFilter 1) := by
    rw [parse_eq, htrim.2.1, hcheck.2.1]
    rfl
  have hslash : Path.parse "$[?(@.a == /[/)]" = .error (.openFilter 1) := by
    rw [parse_eq, htrim.2.2, hcheck.2.2]
    rfl
  have hcode : Reaches "$[?(@.a == /".toList
      ⟨[⟨.filter, 1⟩, ⟨.bracket, 1⟩], .code, ('/', '=')⟩ := by
    show start.run 0 _ = _
    decide
  have hstray : Path.ofChars "$[?(@.a == /[/)]".toList = .error (.strayPattern "/[/") := by
    have herror : (match Path.ofChars "$[?(@.a == /[/)]".toList with
        | .error e => some e
        | .ok _ => none) = some (.strayPattern "/[/") := by
      decide +kernel
    cases hchars : Path.ofChars "$[?(@.a == /[/)]".toList with
    | error e =>
      rw [hchars] at herror
      exact congrArg Except.error (Option.some.inj herror)
    | ok p =>
      rw [hchars] at herror
      cases herror
  have hstart := (parse_openDelimiter "$(").1 0 hparenthesis
  obtain ⟨n, hfilter, _⟩ := (parse_openDelimiter "$[a?(").2 1 hmark
  obtain ⟨m, hliteral, _⟩ := (parse_openDelimiter "$[?(@.a == /[/)]").2 1 hslash
  rw [htrim.1] at hstart
  rw [htrim.2.1] at hfilter
  rw [htrim.2.2] at hliteral
  rcases hstart with ⟨t, u, htext, _⟩ | ⟨_, honly⟩
  · have hmem : '[' ∈ "$(".toList := by
      rw [htext]
      exact List.mem_append_right _ List.mem_cons_self
    exact absurd hmem (by decide)
  · exact ⟨⟨hparenthesis, honly⟩, ⟨hmark, n, hfilter⟩, hslash, ⟨m, hliteral⟩, hcode.endsInCode rfl,
      hstray⟩

end JsonSpan

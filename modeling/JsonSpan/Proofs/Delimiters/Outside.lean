import JsonSpan.Proofs.Grammar.Cuts
import JsonSpan.Proofs.Printing.Tokens

/-!
# Code and literals

Which places of a text, be it a path or not, are outside of all strings and regular expressions. A
quote opens a string anywhere in code, and a slash opens a regular expression right after `=~`; the
same character closes the literal, unless a backslash escapes it. The matching of delimiters is in
code exactly after the texts that end there (`Reaches.endsInCode`, `EndsInCode.lexical_eq`).
-/

namespace JsonSpan

open Spelling DelimiterScan

/-! ### Ends of texts -/

/-- A run of the white space that is looked through for `=~` and `[?`. -/
def Spaces (w : List Char) : Prop :=
  ∀ c ∈ w, isSpace c

/-- The last character of a text, white space apart. -/
def EndsIn (c : Char) (t : List Char) : Prop :=
  ∃ t' w, t = t' ++ c :: w ∧ Spaces w

/-- The last two characters of a text, white space apart, are those of the operator `=~`. -/
def EndsInLike (t : List Char) : Prop :=
  ∃ t' w, t = t' ++ '~' :: w ∧ Spaces w ∧ EndsIn '=' t'

theorem spaces_nil : Spaces [] :=
  nofun

theorem spaces_concat {c : Char} {w : List Char} : Spaces (w ++ [c]) ↔ Spaces w ∧ isSpace c := by
  rw [Spaces, List.forall_mem_append, List.forall_mem_singleton]
  rfl

theorem concat_eq_append_cons {t t' w : List Char} {c d : Char} :
    t ++ [d] = t' ++ c :: w ↔
      t = t' ∧ d = c ∧ w = [] ∨ ∃ w', w = w' ++ [d] ∧ t = t' ++ c :: w' := by
  constructor
  · intro h
    rcases List.eq_nil_or_concat w with rfl | ⟨w', e, rfl⟩
    · obtain ⟨ht, hc⟩ := List.append_inj' h rfl
      exact .inl ⟨ht, List.singleton_inj.1 hc, rfl⟩
    · have h' : t ++ [d] = (t' ++ c :: w') ++ [e] := by simpa using h
      obtain ⟨ht, hd⟩ := List.append_inj' h' rfl
      cases List.singleton_inj.1 hd
      exact .inr ⟨w', by simp, ht⟩
  · rintro (⟨rfl, rfl, rfl⟩ | ⟨w', rfl, rfl⟩)
    · rfl
    · simp

theorem endsIn_concat {c d : Char} {t : List Char} :
    EndsIn c (t ++ [d]) ↔ d = c ∨ isSpace d ∧ EndsIn c t := by
  constructor
  · rintro ⟨t', w, h, hw⟩
    rcases concat_eq_append_cons.1 h with ⟨_, hd, _⟩ | ⟨w', rfl, ht⟩
    · exact .inl hd
    · obtain ⟨hw', hd⟩ := spaces_concat.1 hw
      exact .inr ⟨hd, t', w', ht, hw'⟩
  · rintro (rfl | ⟨hd, t', w, rfl, hw⟩)
    · exact ⟨t, [], rfl, spaces_nil⟩
    · exact ⟨t', w ++ [d], by simp, spaces_concat.2 ⟨hw, hd⟩⟩

theorem endsInLike_concat {d : Char} {t : List Char} :
    EndsInLike (t ++ [d]) ↔ d = '~' ∧ EndsIn '=' t ∨ isSpace d ∧ EndsInLike t := by
  constructor
  · rintro ⟨t', w, h, hw, hends⟩
    rcases concat_eq_append_cons.1 h with ⟨rfl, hd, _⟩ | ⟨w', rfl, ht⟩
    · exact .inl ⟨hd, hends⟩
    · obtain ⟨hw', hd⟩ := spaces_concat.1 hw
      exact .inr ⟨hd, t', w', ht, hw', hends⟩
  · rintro (⟨rfl, hends⟩ | ⟨hd, t', w, rfl, hw, hends⟩)
    · exact ⟨t, [], rfl, spaces_nil, hends⟩
    · exact ⟨t', w ++ [d], by simp, spaces_concat.2 ⟨hw, hd⟩, hends⟩

theorem not_endsIn_nil {c : Char} : ¬ EndsIn c [] := by
  rintro ⟨t, w, h, _⟩
  simp at h

theorem endsIn_append_cons {c d : Char} {t u : List Char} (hd : isSpace d = false) :
    EndsIn c (t ++ d :: u) ↔ EndsIn c u ∨ d = c ∧ Spaces u := by
  induction u using List.reverseRecOn with
  | nil =>
    have hnil : ¬ EndsIn c [] := not_endsIn_nil
    simp [endsIn_concat, hd, hnil, spaces_nil]
  | append_singleton u e ih =>
    rw [← List.cons_append, ← List.append_assoc, endsIn_concat, endsIn_concat, spaces_concat, ih]
    tauto

/-! ### Outside of literals -/

/-- A character that opens a literal, where a text in code stands before it. -/
def OpensLiteral (t : List Char) (c : Char) : Prop :=
  c = '"' ∨ c = '\'' ∨ c = '/' ∧ EndsInLike t

/-- The text ends in code: what comes next is outside of every string and regular expression. -/
inductive EndsInCode : List Char → Prop where
  | nil : EndsInCode []
  | char {t : List Char} {c : Char} (h : EndsInCode t) (hc : ¬ OpensLiteral t c) :
    EndsInCode (t ++ [c])
  | literal {t body : List Char} {c : Char} (h : EndsInCode t) (hc : OpensLiteral t c)
    (hb : Body c body) : EndsInCode (t ++ (c :: body ++ [c]))

section

variable {t : List Char} {c : Char}

theorem OpensLiteral.mem (h : OpensLiteral t c) : c ∈ ['"', '\'', '/'] := by
  rcases h with rfl | rfl | ⟨rfl, _⟩ <;> decide

theorem OpensLiteral.not_isSpace (h : OpensLiteral t c) : isSpace c = false := by
  have hall : ∀ c ∈ ['"', '\'', '/'], isSpace c = false := by decide
  exact hall c h.mem

theorem OpensLiteral.ne (h : OpensLiteral t c) {d : Char} (hd : d ∉ ['"', '\'', '/']) : c ≠ d := by
  rintro rfl
  exact hd h.mem

end

/-! ### What the matching of delimiters knows of a text -/

/-- The matching of delimiters stands at a state after a text. -/
def Reaches (t : List Char) (s : DelimiterScan) : Prop :=
  start.run 0 t = .ok s

theorem Reaches.unique {t : List Char} {s s' : DelimiterScan} (h : Reaches t s)
    (h' : Reaches t s') : s = s' :=
  Except.ok.inj (h.symm.trans h')

theorem reaches_append {t u : List Char} {s' : DelimiterScan} :
    Reaches (t ++ u) s' ↔ ∃ s, Reaches t s ∧ s.run (Utf8.size t) u = .ok s' := by
  rw [Reaches, run_append, Nat.zero_add]
  exact bind_eq_ok

theorem reaches_concat {t : List Char} {c : Char} {s' : DelimiterScan} :
    Reaches (t ++ [c]) s' ↔ ∃ s, Reaches t s ∧ s.step (Utf8.size t) c = .ok s' := by
  have hone (s : DelimiterScan) (o : Nat) : s.run o [c] = s.step o c := by
    rw [DelimiterScan.run]
    cases s.step o c <;> rfl
  simp only [reaches_append, hone]

/-- The last two characters of code are those of a text, as far as anything depends on them. -/
structure Recalls (t : List Char) (last : Char × Char) : Prop where
  ends : ∀ c ∈ ['?', '='], last.1 = c ↔ EndsIn c t
  like : last = ('~', '=') ↔ EndsInLike t

theorem recalls_nil : Recalls [] start.last := by
  have hlike : ¬ EndsInLike [] := by
    rintro ⟨t, w, h, _⟩
    simp at h
  constructor
  · intro c hc
    refine iff_of_false ?_ not_endsIn_nil
    rintro rfl
    exact absurd hc (by decide)
  · exact iff_of_false (by decide) hlike

section

variable {t : List Char} {last : Char × Char} {c : Char}

theorem Recalls.space (h : Recalls t last) (hc : isSpace c) : Recalls (t ++ [c]) last := by
  constructor
  · intro d hd
    have hne : c ≠ d := by
      have hall : ∀ d ∈ ['?', '='], isSpace d = false := by decide
      rintro rfl
      exact Bool.false_ne_true ((hall c hd).symm.trans hc)
    simp [endsIn_concat, h.ends d hd, hc, hne]
  · have hne : c ≠ '~' := by
      rintro rfl
      exact absurd hc (by decide)
    simp [endsInLike_concat, h.like, hc, hne]

theorem Recalls.ink (h : Recalls t last) (hc : isSpace c = false) :
    Recalls (t ++ [c]) (c, last.1) := by
  constructor
  · intro d _
    simp [endsIn_concat, hc]
  · simp [endsInLike_concat, hc, h.ends '=' (by decide)]

theorem recalls_literal {t' : List Char} (hc : OpensLiteral t' c) (d : Char) :
    Recalls (t ++ [c]) (c, d) := by
  have hne : c ≠ '~' := hc.ne (by decide)
  constructor
  · intro e _
    simp [endsIn_concat, hc.not_isSpace]
  · simp [endsInLike_concat, hc.not_isSpace, hne]

end

/-! ### Steps in code and in literals -/

section

variable {t : List Char} {s : DelimiterScan} {c : Char}

theorem opened_literal (h : Recalls t s.last) (hc : OpensLiteral t c) :
    s.opened c = .literal c false := by
  rw [opened]
  rcases hc with rfl | rfl | ⟨rfl, hlike⟩
  · rfl
  · rfl
  · rw [if_neg (by decide), if_pos ⟨rfl, h.like.2 hlike⟩]

theorem opened_code (h : Recalls t s.last) (hc : ¬ OpensLiteral t c) : s.opened c = .code := by
  simp only [OpensLiteral, not_or, not_and] at hc
  obtain ⟨hdouble, hsingle, hslash⟩ := hc
  rw [opened, if_neg (by simp [hdouble, hsingle]), if_neg]
  rintro ⟨hc, hlast⟩
  exact hslash hc (h.like.1 hlast)

theorem nest_literal (hc : OpensLiteral t c) (o : Nat) : s.nest o c = .ok s.frames := by
  rcases hc with rfl | rfl | ⟨rfl, _⟩ <;> simp [nest]

theorem run_literal {frames : List Delimiter} {last : Char × Char} {body : List Char}
    (h : Recalls t last) (hc : OpensLiteral t c) (hb : Body c body) (o : Nat) :
    (DelimiterScan.mk frames .code last).run o (c :: body ++ [c]) =
      .ok ⟨frames, .code, (c, last.1)⟩ := by
  have hclose : c ≠ '\\' := hc.ne (by decide)
  have hstep : (DelimiterScan.mk frames .code last).step o c =
      .ok ⟨frames, .literal c false, (c, last.1)⟩ := by
    have hopened := opened_literal (s := ⟨frames, .code, last⟩) h hc
    rw [step]
    dsimp only
    rw [nest_literal hc, hopened, hc.not_isSpace]
    rfl
  have hinside := hb.run frames (c, last.1) (o + c.utf8Size)
  rw [List.cons_append, DelimiterScan.run, hstep]
  show (DelimiterScan.mk frames (.literal c false) (c, last.1)).run _ (body ++ [c]) = _
  rw [run_append, hinside]
  exact run_close hclose frames (c, last.1) (o + c.utf8Size + Utf8.size body) []

end

/-- What of a literal has been read after a text in code: all of its body so far, or a backslash
more. In code it is nothing. -/
inductive PartOfLiteral (t : List Char) : Lexical → List Char → Prop where
  | code : PartOfLiteral t .code []
  | whole {c : Char} {body : List Char} (hc : OpensLiteral t c) (hb : Body c body) :
    PartOfLiteral t (.literal c false) (c :: body)
  | escaping {c : Char} {body : List Char} (hc : OpensLiteral t c) (hb : Body c body) :
    PartOfLiteral t (.literal c true) (c :: body ++ ['\\'])

theorem PartOfLiteral.continued {t r : List Char} {close : Char} {escaped : Bool}
    (h : PartOfLiteral t (.literal close escaped) r) (c : Char) :
    (∃ escaped', continued close escaped c = .literal close escaped' ∧
      PartOfLiteral t (.literal close escaped') (r ++ [c])) ∨
    (continued close escaped c = .code ∧ OpensLiteral t close ∧
      ∃ body, Body close body ∧ r ++ [c] = close :: body ++ [close]) := by
  cases h with
  | escaping hc hb =>
    have hmore := hb.append (.escaped c .nil)
    exact .inl ⟨false, rfl, by simpa using PartOfLiteral.whole hc hmore⟩
  | @whole _ body hc hb =>
    by_cases hslash : c = '\\'
    · subst hslash
      exact .inl ⟨true, rfl, .escaping hc hb⟩
    by_cases hclose : c = close
    · subst hclose
      exact .inr ⟨by simp [DelimiterScan.continued, hslash], hc, body, hb, rfl⟩
    · have hmore := hb.append (.plain hclose hslash .nil)
      exact .inl ⟨false, by simp [DelimiterScan.continued, hslash, hclose], .whole hc hmore⟩

/-- Where the matching of delimiters stands after a text, which is code and then perhaps part of a
literal. -/
structure StandsAt (t r : List Char) (s : DelimiterScan) : Prop where
  endsInCode : EndsInCode t
  part : PartOfLiteral t s.lexical r
  recalls : s.lexical = .code → Recalls t s.last
  opener : ∀ c escaped, s.lexical = .literal c escaped → s.last.1 = c

theorem StandsAt.step {t r : List Char} {s s' : DelimiterScan} {c : Char} (h : StandsAt t r s)
    {o : Nat} (hstep : s.step o c = .ok s') :
    ∃ t' r', t ++ r ++ [c] = t' ++ r' ∧ StandsAt t' r' s' := by
  obtain ⟨frames, lexical, last⟩ := s
  obtain ⟨ht, hpart, hrecalls, hopener⟩ := h
  cases lexical with
  | code =>
    obtain ⟨frames', _, hs'⟩ := bind_eq_ok.1 hstep
    cases hs'
    cases hpart
    have hl := hrecalls rfl
    by_cases hc : OpensLiteral t c
    · have hopened := opened_literal (s := ⟨frames, .code, last⟩) hl hc
      rw [hopened, hc.not_isSpace]
      refine ⟨t, [c], by simp, ht, .whole hc .nil, nofun, ?_⟩
      rintro _ _ ⟨⟩
      rfl
    · have hopened := opened_code (s := ⟨frames, .code, last⟩) hl hc
      rw [hopened]
      refine ⟨t ++ [c], [], by simp, .char ht hc, .code, fun _ => ?_, nofun⟩
      cases hspace : isSpace c with
      | true => exact hl.space hspace
      | false => exact hl.ink hspace
  | literal close escaped =>
    cases hstep
    have hlast : last.1 = close := hopener close escaped rfl
    rcases hpart.continued c with ⟨escaped', hlexical, hmore⟩ | ⟨hlexical, hc, body, hb, hr⟩
    · rw [hlexical]
      refine ⟨t, r ++ [c], by simp, ht, hmore, nofun, ?_⟩
      rintro _ _ ⟨⟩
      exact hlast
    · rw [hlexical, List.append_assoc, hr]
      have hcode := EndsInCode.literal ht hc hb
      refine ⟨t ++ (close :: body ++ [close]), [], by simp, hcode, .code, fun _ => ?_, nofun⟩
      have hends : Recalls (t ++ close :: body ++ [close]) (close, last.2) :=
        recalls_literal hc _
      simpa [← hlast] using hends

theorem Reaches.standsAt {x : List Char} {s : DelimiterScan} (h : Reaches x s) :
    ∃ t r, x = t ++ r ∧ StandsAt t r s := by
  induction x using List.reverseRecOn generalizing s with
  | nil =>
    cases h
    exact ⟨[], [], rfl, .nil, .code, fun _ => recalls_nil, nofun⟩
  | append_singleton x c ih =>
    obtain ⟨s₀, hs₀, hstep⟩ := reaches_concat.1 h
    obtain ⟨t, r, rfl, hstands⟩ := ih hs₀
    exact hstands.step hstep

section

variable {t : List Char} {s : DelimiterScan}

theorem Reaches.standsAt_code (h : Reaches t s) (hs : s.lexical = .code) : StandsAt t [] s := by
  obtain ⟨t, r, rfl, hstands⟩ := h.standsAt
  have hpart := hstands.part
  rw [hs] at hpart
  cases hpart
  rwa [List.append_nil]

theorem Reaches.endsInCode (h : Reaches t s) (hs : s.lexical = .code) : EndsInCode t :=
  (h.standsAt_code hs).endsInCode

theorem Reaches.recalls (h : Reaches t s) (hs : s.lexical = .code) : Recalls t s.last :=
  (h.standsAt_code hs).recalls hs

theorem Reaches.literal (h : Reaches t s) (hs : s.lexical = .code) {c : Char} {body : List Char}
    (hc : OpensLiteral t c) (hb : Body c body) :
    Reaches (t ++ (c :: body ++ [c])) ⟨s.frames, .code, (c, s.last.1)⟩ := by
  have hl := h.recalls hs
  obtain ⟨frames, lexical, last⟩ := s
  subst hs
  exact reaches_append.2 ⟨_, h, run_literal hl hc hb _⟩

/-- After a text that ends in code, the matching of delimiters is in code. -/
theorem EndsInCode.lexical_eq (ht : EndsInCode t) (h : Reaches t s) : s.lexical = .code := by
  induction ht generalizing s with
  | nil =>
    cases h
    rfl
  | @char t c _ hc ih =>
    obtain ⟨s₀, hs₀, hstep⟩ := reaches_concat.1 h
    have hcode := ih hs₀
    have hopened := opened_code (hs₀.recalls hcode) hc
    rw [step, hcode] at hstep
    obtain ⟨frames, _, hs⟩ := bind_eq_ok.1 hstep
    cases hs
    exact hopened
  | literal _ hc hb ih =>
    obtain ⟨s₀, hs₀, _⟩ := reaches_append.1 h
    rw [h.unique (hs₀.literal (ih hs₀) hc hb)]

end

end JsonSpan

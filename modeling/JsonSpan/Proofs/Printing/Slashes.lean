import JsonSpan.Proofs.Printing.Tokens

/-!
# Patterns between slashes

A pattern is printed between slashes, with a backslash before each slash of its source. Where each
slash of the source and its end have an even number of backslashes before them, the rule of the
grammar for patterns takes the whole text and gives the pattern back; elsewhere it does not take the
whole text. These sources are those that some text between slashes denotes
(`evenBackslashes_unescapeSlashes`); others are given as strings.
-/

namespace JsonSpan

open Grammar Reader Spelling

theorem append_cons_inj {α : Type} {t u v w : List α} {a : α} (hv : a ∉ v) (hw : a ∉ w)
    (h : t ++ a :: v = u ++ a :: w) : t = u ∧ v = w := by
  rcases List.append_eq_append_iff.1 h with ⟨between, hu, hbetween⟩ | ⟨between, ht, hbetween⟩
  · cases between with
    | nil =>
      rw [List.append_nil] at hu
      exact ⟨hu.symm, (List.cons.inj hbetween).2⟩
    | cons b between =>
      obtain ⟨rfl, rfl⟩ := List.cons.inj hbetween
      exact absurd (by simp) hv
  · cases between with
    | nil =>
      rw [List.append_nil] at ht
      exact ⟨ht, (List.cons.inj hbetween).2.symm⟩
    | cons b between =>
      obtain ⟨rfl, rfl⟩ := List.cons.inj hbetween
      exact absurd (by simp) hw

/-! ### Sources that have a text between slashes -/

theorem Spelling.Body.head?_ne {t : List Char} (h : Body '/' t) : t.head? ≠ some '/' := by
  cases h with
  | nil => simp
  | escaped => simp
  | plain hc => simpa using hc

/-- What a text between slashes denotes has an even number of backslashes before each slash and at
its end: backslashes stand there in pairs, but for the ones that are taken from slashes. -/
theorem evenBackslashes_unescapeSlashes {t : List Char} (h : Body '/' t) :
    evenBackslashes false (unescapeSlashes t) := by
  induction h with
  | nil => rfl
  | @escaped c t h ih =>
    by_cases hslash : c = '/'
    · subst hslash
      exact ih
    rw [unescapeSlashes_kept fun _ => by simpa using hslash, unescapeSlashes_kept fun _ => h.head?_ne]
    by_cases hback : c = '\\'
    · subst hback
      exact ih
    · simp [evenBackslashes, hback, hslash, ih]
  | @plain c t hslash hback h ih =>
    rw [unescapeSlashes_kept fun hc => absurd hc hback]
    simp [evenBackslashes, hback, ih]

/-- A source can be printed between slashes if and only if some text there denotes it. -/
theorem evenBackslashes_iff {cs : List Char} :
    evenBackslashes false cs ↔ ∃ t, Body '/' t ∧ unescapeSlashes t = cs := by
  constructor
  · intro h
    exact ⟨escapeSlashes cs, body_escapeSlashes h, unescapeSlashes_escapeSlashes cs⟩
  · rintro ⟨t, ht, rfl⟩
    exact evenBackslashes_unescapeSlashes ht

/-! ### The printed text -/

namespace Pattern

variable {p : Pattern}

theorem ofText_eq_ok {source flags : String} :
    Pattern.ofText source flags = .ok p ↔ p.source = source ∧ p.flags = flags := by
  constructor
  · intro h
    rw [Pattern.ofText] at h
    split at h
    · cases h
      exact ⟨rfl, rfl⟩
    · cases h
  · rintro ⟨rfl, rfl⟩
    exact p.ofText_source

theorem slash_notMem_flags (p : Pattern) : '/' ∉ p.flags.toList := by
  intro h
  have hknown := mem_flags_of_ofText p.ofText_source '/' h
  simp at hknown

theorem isAlpha_of_mem_flags (p : Pattern) : ∀ c ∈ p.flags.toList, c.isAlpha := by
  have hall : ∀ c ∈ ['i', 'm', 's', 'x'], c.isAlpha := by decide
  exact fun c hc => hall c (mem_flags_of_ofText p.ofText_source c hc)

theorem isReprintable_of_reads {right : RightSide} (h : Reads Grammar.regex p.text right []) :
    p.isReprintable := by
  obtain ⟨o, hresult⟩ := h 0
  obtain ⟨t, ht, body, flags, -, rfl, hbody, hflags⟩ := takes_regex ⟨0, p.text⟩ _ _ hresult
  have hslash : '/' ∉ flags := by
    intro hmem
    have := hflags '/' hmem
    simp at this
  have hparts : ('/' :: escapeSlashes p.source.toList) ++ '/' :: p.flags.toList =
      ('/' :: body) ++ '/' :: flags := ht.trans (List.append_nil _)
  obtain ⟨hsource, -⟩ := append_cons_inj p.slash_notMem_flags hslash hparts
  refine evenBackslashes_iff.2 ⟨body, hbody, ?_⟩
  rw [← (List.cons.inj hsource).2, unescapeSlashes_escapeSlashes]

theorem reads_of_isReprintable (h : p.isReprintable) :
    Reads Grammar.regex p.text
      (.regex p.text (escapeSlashes p.source.toList) p.flags.toList) [] := by
  have hend : EndsName [] := fun _ hc => nomatch hc
  have hreads := reads_regex (body_escapeSlashes h) p.isAlpha_of_mem_flags hend
  rw [List.append_nil] at hreads
  exact hreads

/-- The text of a pattern is taken whole by the rule for patterns, and gives the pattern back, if its
source has an even number of backslashes before each slash and at its end. The sources that are given
between slashes are of this kind. The text of any other pattern is not taken whole. -/
theorem regex_text {source flags : String} {p : Pattern} (h : Pattern.ofText source flags = .ok p) :
    (p.isReprintable → ∃ body, Reads Grammar.regex p.text (.regex p.text body flags.toList) [] ∧
      Pattern.ofText (String.ofList (unescapeSlashes body)) flags = .ok p) ∧
    (¬p.isReprintable → (∀ right, ¬Reads Grammar.regex p.text right []) ∧
      ∀ body, Body '/' body → unescapeSlashes body ≠ source.toList) := by
  obtain ⟨rfl, rfl⟩ := ofText_eq_ok.1 h
  refine ⟨fun hr => ⟨_, reads_of_isReprintable hr, ?_⟩, fun hr => ⟨?_, ?_⟩⟩
  · rw [unescapeSlashes_escapeSlashes, String.ofList_toList, p.ofText_source]
  · exact fun right hreads => hr (isReprintable_of_reads hreads)
  · exact fun body hbody hsource => hr (evenBackslashes_iff.2 ⟨body, hbody, hsource⟩)

/-- A slash after a backslash, as only a string can give it, is printed as an escaped backslash and a
slash that closes the pattern; a slash alone is printed so that it is read again. -/
theorem regex_text_escaped :
    (∃ p, Pattern.ofText "a\\/b" "" = .ok p ∧ p.text = "/a\\\\/b/".toList ∧
      ∀ right, ¬Reads Grammar.regex p.text right []) ∧
    ∃ p, Pattern.ofText "a/b" "i" = .ok p ∧ p.text = "/a\\/b/i".toList ∧
      ∃ body, Reads Grammar.regex p.text (.regex p.text body "i".toList) [] ∧
        Pattern.ofText (String.ofList (unescapeSlashes body)) "i" = .ok p := by
  constructor
  · obtain ⟨p, hp⟩ := exists_eq_ok (m := Pattern.ofText "a\\/b" "") (by decide +kernel)
    obtain ⟨hsource, hflags⟩ := ofText_eq_ok.1 hp
    refine ⟨p, hp, ?_, ((regex_text hp).2 ?_).1⟩
    · rw [text, hsource, hflags]
      decide
    · rw [isReprintable, hsource]
      decide
  · obtain ⟨p, hp⟩ := exists_eq_ok (m := Pattern.ofText "a/b" "i") (by decide +kernel)
    obtain ⟨hsource, hflags⟩ := ofText_eq_ok.1 hp
    refine ⟨p, hp, ?_, (regex_text hp).1 ?_⟩
    · rw [text, hsource, hflags]
      decide
    · rw [isReprintable, hsource]
      decide

end Pattern

end JsonSpan

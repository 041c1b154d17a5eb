import JsonSpan.Proofs.Grammar.Acceptance
import JsonSpan.Proofs.Grammar.Cuts
import JsonSpan.Proofs.Grammar.Meanings
import JsonSpan.Proofs.Printing.Canonical

/-!
# Paths with delimiters left open

Every path that is cut short is reported by the brackets that are open at the cut: the outermost one
of them, or its filter if the cut is in there. If none is open, no delimiter is reported
(`Path.parse_cut`).
-/

namespace JsonSpan

open Spelling

/-! ### White space at the end -/

theorem Text.isWhite_plain {c : Char} (h : isWhite c) : c ∉ delimiters := by
  have hall : ∀ c ∈ delimiters, isWhite c = false := by decide
  exact fun hc => Bool.false_ne_true ((hall c hc).symm.trans h)

theorem Text.trimChars_append {t : List Char} (h : t.dropWhile isWhite = t) :
    ∃ w, t = trimChars t ++ w ∧ ∀ c ∈ w, isWhite c := by
  refine ⟨(t.reverse.takeWhile isWhite).reverse, ?_, fun c hc => ?_⟩
  · rw [trimChars, h, ← List.reverse_append, List.takeWhile_append_dropWhile, List.reverse_reverse]
  · exact List.all_eq_true.1 List.all_takeWhile c (List.mem_reverse.1 hc)

theorem DelimiterScan.run_plain {w : List Char} (h : ∀ c ∈ w, c ∉ delimiters) (s : DelimiterScan)
    (o : Nat) : ∃ lexical last, s.run o w = .ok ⟨s.frames, lexical, last⟩ := by
  induction w generalizing s o with
  | nil => exact ⟨_, _, rfl⟩
  | cons c w ih =>
    obtain ⟨hc, hw⟩ := List.forall_mem_cons.1 h
    obtain ⟨lexical, last, hstep⟩ :
        ∃ lexical last, s.step o c = .ok ⟨s.frames, lexical, last⟩ := by
      obtain ⟨frames, lexical, last⟩ := s
      cases lexical with
      | code => exact ⟨_, _, step_plain hc frames last o⟩
      | literal close escaped => exact ⟨_, _, rfl⟩
    rw [run, hstep]
    exact ih hw ⟨s.frames, lexical, last⟩ (o + c.utf8Size)

theorem checkDelimiters_trimChars {t : List Char} (h : t.dropWhile Text.isWhite = t)
    {s : DelimiterScan} (hrun : DelimiterScan.start.run 0 t = .ok s) :
    checkDelimiters (Text.trimChars t) =
      if s.frames.isEmpty then .ok () else .error (DelimiterScan.unclosed s.frames) := by
  obtain ⟨w, ht, hw⟩ := Text.trimChars_append h
  rw [ht, DelimiterScan.run_append] at hrun
  obtain ⟨s', hs', hend⟩ := bind_eq_ok.1 hrun
  obtain ⟨lexical, last, hplain⟩ := DelimiterScan.run_plain
    (fun c hc => Text.isWhite_plain (hw c hc)) s' (0 + Utf8.size (Text.trimChars t))
  obtain rfl := Except.ok.inj (hend.symm.trans hplain)
  rw [checkDelimiters, hs']
  rfl

/-! ### Cuts of paths -/

/-- A bracket is the outermost of those that are open after the first bytes of the text. -/
structure Spelling.Bracket.IsOutermost (b : Bracket) (bs : List Bracket) (n : Nat) : Prop where
  mem : b ∈ bs
  isOpen : b.IsOpen n
  le : ∀ b' ∈ bs, b'.IsOpen n → b.start ≤ b'.start

theorem Spelling.PathText.dropWhile_cut {x y : List Char} {p : Path} (h : PathText (x ++ y) p) :
    x.dropWhile Text.isWhite = x := by
  generalize ht : x ++ y = t at h
  cases h with
  | mk =>
    rcases List.append_eq_cons_iff.1 ht with ⟨rfl, _⟩ | ⟨x', rfl, _⟩
    · rfl
    · exact List.dropWhile_cons_of_neg (by decide)

/-- A text that was read as a path, and has no white space around it, has its brackets somewhere; and
wherever it is cut, the outermost bracket that is open at the cut makes the error, and if none is
open, the error is not that of an open delimiter. -/
theorem Path.parse_cut {q : String} {p : Path} (h : Path.parse q = .ok p)
    (htrim : Text.trim q = q) :
    (∃ bs, Brackets .path 0 q.toList bs) ∧
    ∀ bs, Brackets .path 0 q.toList bs → ∀ t u : String, q = t ++ u →
      (∀ b : Bracket, b.IsOutermost bs (Utf8.size t.toList) →
        Path.parse t = .error (b.error (Utf8.size t.toList))) ∧
      ((∀ b ∈ bs, ¬ b.IsOpen (Utf8.size t.toList)) →
        ∀ o, Path.parse t ≠ .error (.openBracket o) ∧ Path.parse t ≠ .error (.openFilter o)) := by
  have hspelled : PathText q.toList p := by
    have hchars : Text.trimChars q.toList = q.toList := by
      rw [← String.toList_ofList (l := Text.trimChars q.toList)]
      exact congrArg String.toList htrim
    exact hchars ▸ pathText_of_parse h
  refine ⟨exists_brackets hspelled, fun bs hbs t u hq => ?_⟩
  have hcut : q.toList = t.toList ++ u.toList := by
    rw [hq, String.toList_append]
  rw [hcut] at hspelled
  obtain ⟨frames, lexical, last, hrun, hdiagnosed⟩ := hbs.run_cut hcut ('\x00', '\x00')
  have hcheck := checkDelimiters_trimChars hspelled.dropWhile_cut hrun
  rw [Nat.zero_add] at hdiagnosed
  cases hdiagnosed with
  | closed hclosed =>
    have hparse : Path.parse t = ofChars (Text.trimChars t.toList) := by
      rw [parse_eq, hcheck]
      rfl
    refine ⟨fun b hb => absurd hb.isOpen (hclosed b hb.mem), fun _ o => ⟨?_, ?_⟩⟩
    · rw [hparse]
      exact fun herror => ofChars_notUnclosed _ _ herror trivial
    · rw [hparse]
      exact fun herror => ofChars_notUnclosed _ _ herror trivial
  | opened b hb hopen houter hne herror =>
    have hparse : Path.parse t = .error (b.error (Utf8.size t.toList)) := by
      rw [parse_eq, hcheck, if_neg (by simpa using hne), herror]
      rfl
    refine ⟨fun b' hb' => ?_, fun hclosed => absurd hopen (hclosed b hb)⟩
    have hle := hb'.le b hb hopen
    rcases houter b' hb'.mem hb'.isOpen with rfl | hlt
    · exact hparse
    · omega

/-- A filter that asks for a child whose name is a bracket. -/
def Path.bracketNamed : Path :=
  [.filter (.present (.current [.field "]"]))]

theorem Path.parse_bracketNamed : Path.parse "$[?(@[\"]\"])]" = .ok bracketNamed := by
  have hname : StringText ['"', ']', '"'] "]" := stringText_quote "]"
  have hquery : QueryText ['@', '[', '"', ']', '"', ']'] (.current [.field "]"]) :=
    .current (.cons (.bracket (bracketText_of (.name hname))) .nil)
  have hcondition := OrText.one (.one (.present hquery))
  have hfilter := SelectorText.filter blank_nil blank_nil hcondition blank_nil
  exact parse_of_pathText (.mk (.cons (.bracket (bracketText_of hfilter)) .nil))

theorem Path.brackets_bracketNamed :
    Brackets .path 0 "$[?(@[\"]\"])]".toList [⟨1, 12, some ⟨4, 11⟩⟩, ⟨5, 10, none⟩] := by
  have hname : Flat ['"', ']', '"'] := .string (.inl rfl) (.plain (by decide) (by decide) .nil)
  have hcondition : Brackets .condition 4 ['@', '[', '"', ']', '"', ']'] [⟨5, 10, none⟩] :=
    .append (.flat (.plain (c := '@') (by decide))) (.bracket hname)
  have hfilter := Brackets.filter (l := .path) (o := 1) blank_nil blank_nil hcondition blank_nil
  exact .append (.flat (.plain (c := '$') (by decide))) hfilter

/-- A cut in a literal, whose bracket does not count, is reported by the filter around it. -/
theorem Path.parse_cut_literal :
    Path.parse "$[?(@[\"]\"])]" = .ok bracketNamed ∧ Text.trim "$[?(@[\"]\"])]" = "$[?(@[\"]\"])]" ∧
      Path.parse "$[?(@[\"]" = .error (.openFilter 1) := by
  have htrim : Text.trim "$[?(@[\"]\"])]" = "$[?(@[\"]\"])]" := by decide
  have hcut := (parse_cut parse_bracketNamed htrim).2 _ brackets_bracketNamed "$[?(@[\"]" "\"])]" rfl
  have houtermost : Bracket.IsOutermost ⟨1, 12, some ⟨4, 11⟩⟩
      [⟨1, 12, some ⟨4, 11⟩⟩, ⟨5, 10, none⟩] 8 := ⟨by decide, by decide, by decide⟩
  exact ⟨parse_bracketNamed, htrim, hcut.1 _ houtermost⟩

end JsonSpan

import JsonSpan.Path.Grammar
import JsonSpan.Proofs.Grammar.Selectors

/-!
# What the readers take spells what they give

By induction on the depth to which conditions are nested, every text that the reader of a path takes
is put together as the rules of the grammar say (`pathText_of_ofChars`). A chain is read as one part
and the parts after it; that makes the first operator the innermost.
-/

namespace JsonSpan.Spelling

open Grammar Reader

/-! ### Chains -/

section

variable {sign : List Char} {join : Condition → Condition → Condition}
  {P Q : List Char → Condition → Prop}

theorem foldl_of_items
    (hjoin : ∀ {t u w w' : List Char} {c d : Condition}, Q t c → Blank w → Blank w' → P u d →
      Q (t ++ w ++ sign ++ w' ++ u) (join c d))
    {t u : List Char} {c : Condition} {ms : List (Meaning Condition)} {ds : List Condition} (h : Q t c)
    (hm : Items (fun t a => ∃ w w' u, t = w ++ sign ++ w' ++ u ∧ Blank w ∧ Blank w' ∧
      Denotes P u a) u ms) (hms : ms = ds.map .ok) : Q (t ++ u) (ds.foldl join c) := by
  induction hm generalizing t c ds with
  | nil =>
    rw [List.map_eq_nil_iff.1 hms.symm, List.append_nil]
    exact h
  | @cons v v' m ms ha _ ih =>
    obtain ⟨w, w', u, rfl, hw, hw', hu⟩ := ha
    obtain ⟨d, ds', rfl, rfl, hds'⟩ := List.map_eq_cons_iff.1 hms.symm
    have hfirst := hjoin h hw hw' (hu d rfl)
    have hall := ih hfirst hds'.symm
    simpa using hall

theorem takes_chain (which : Rule) {part : Reader (Meaning Condition)} (h : Takes part (Denotes P))
    (hone : ∀ {t : List Char} {c : Condition}, P t c → Q t c)
    (hjoin : ∀ {t u w w' : List Char} {c d : Condition}, Q t c → Blank w → Blank w' → P u d →
      Q (t ++ w ++ sign ++ w' ++ u) (join c d)) :
    Takes (chain which sign join part) (Denotes Q) := by
  refine Takes.rule _ ((h.bind fun _ => (takes_another h).many.bind fun _ => takes_pure _).mono ?_)
  rintro _ _ ⟨t, _, m, rfl, hm, u, _, ms, rfl, hms, rfl, rfl⟩ c hc
  obtain ⟨first, hfirst, hmore⟩ := bind_eq_ok.1 hc
  obtain ⟨ds, hds, hall⟩ := bind_eq_ok.1 hmore
  cases hall
  rw [List.append_nil]
  exact foldl_of_items hjoin (hone (hm first hfirst)) hms (inOrder_eq_ok.1 hds)

end

section

variable {r : Reader (Meaning Condition)} (h : Takes r (Denotes UnaryText))

include h

theorem takes_conjunction : Takes (conjunction r) (Denotes AndText) :=
  takes_chain .and h .one fun ht hw hw' hu => by simpa using ht.and hw hw' hu

theorem takes_disjunction : Takes (disjunction r) (Denotes OrText) :=
  takes_chain .or (takes_conjunction h) .one fun ht hw hw' hu => by simpa using ht.or hw hw' hu

/-! ### Segments -/

theorem takes_filter : Takes (filter r) (Denotes SelectorText) := by
  refine Takes.rule _ (((takes_text ['?']).bind fun _ => takes_blanks.bind fun _ =>
    (takes_text ['(']).bind fun _ => takes_blanks.bind fun _ => (takes_disjunction h).bind fun _ =>
      takes_blanks.bind fun _ => (takes_text [')']).bind fun _ => takes_pure _).mono ?_)
  rintro _ _ ⟨_, _, _, rfl, rfl, w₁, _, _, rfl, hw₁, _, _, _, rfl, rfl, w₂, _, _, rfl, hw₂, t, _, m, rfl,
    hm, w₃, _, _, rfl, hw₃, _, _, _, rfl, rfl, rfl, rfl⟩ s hs
  obtain ⟨c, hc, rfl⟩ := map_eq_ok.1 hs
  have := SelectorText.filter hw₁ hw₂ (hm c hc) hw₃
  simpa using this

theorem takes_selector : Takes (selector r) (Denotes fun t s =>
    ∃ u w, t = u ++ w ∧ SelectorText u s ∧ Blank w) := by
  have hnil : Blank [] := by simp [Blank]
  have halone : ∀ {r : Reader (Meaning Selector)} {S : List Char → Selector → Prop},
      Takes r (Denotes S) → (∀ t s, S t s → SelectorText t (selectorSegment s)) →
      Takes (r >>= fun m => Pure.pure (m.map selectorSegment)) (Denotes fun t s =>
        ∃ u w, t = u ++ w ∧ SelectorText u s ∧ Blank w) := by
    intro r S hr hS
    refine (hr.bind fun _ => takes_pure _).mono ?_
    rintro _ _ ⟨t, _, m, rfl, hm, rfl, rfl⟩ s hs
    obtain ⟨a, ha, rfl⟩ := map_eq_ok.1 hs
    exact ⟨t, [], rfl, hS t a (hm a ha), hnil⟩
  refine Takes.or ((takes_filter h).mono ?_) (Takes.or (takes_union.mono ?_)
    (Takes.or (takes_slice.mono ?_) (Takes.or (takes_wildcard.mono ?_)
      (Takes.or (halone takes_index ?_) (halone takes_name ?_)))))
  · exact fun t m hm s hs => ⟨t, [], by simp, hm s hs, hnil⟩
  · intro t m hm s hs
    obtain ⟨ss, hss, hlen, rfl⟩ := hm s hs
    exact ⟨t, [], by simp, .union hss hlen, hnil⟩
  · intro t m hm s hs
    obtain ⟨u, w, _, _, _, rfl, hw, hu, hstep, rfl⟩ := hm s hs
    exact ⟨u, w, rfl, .slice hu hstep, hw⟩
  · rintro t m ⟨rfl, rfl⟩ s hs
    cases hs
    exact ⟨_, [], rfl, .wildcard, hnil⟩
  · rintro t s ⟨i, hi, rfl⟩
    exact .index hi
  · rintro t s ⟨n, hn, rfl⟩
    exact .name hn

theorem takes_bracket : Takes (bracket r) (Denotes BracketText) := by
  refine Takes.rule _ (((takes_text ['[']).bind fun _ => takes_blanks.bind fun _ =>
    (takes_selector h).bind fun _ => takes_blanks.bind fun _ => (takes_text [']']).bind fun _ =>
      takes_pure _).mono ?_)
  rintro _ _ ⟨_, _, _, rfl, rfl, w, _, _, rfl, hw, t, _, m, rfl, hm, w', _, _, rfl, hw', _, _, _, rfl,
    rfl, rfl, rfl⟩ s hs
  obtain ⟨u, v, rfl, hu, hv⟩ := hm s hs
  have hafter : Blank (v ++ w') := by
    intro c hc
    rcases List.mem_append.1 hc with hc | hc
    · exact hv c hc
    · exact hw' c hc
  have := BracketText.mk hw hu hafter
  simpa using this

theorem takes_descendant : Takes (descendant r) (Denotes SegmentText) := by
  have hone : Takes (or wildcard (or fieldName (bracket r)))
      (Denotes fun t s => SegmentText ('.' :: '.' :: t) [.descent, s]) := by
    refine Takes.or (takes_wildcard.mono ?_) (Takes.or (takes_fieldName.mono ?_)
      ((takes_bracket h).mono ?_))
    · rintro t m ⟨rfl, rfl⟩ s hs
      cases hs
      exact .belowWildcard
    · intro t m hm s hs
      obtain ⟨n, hn, rfl⟩ := hm s hs
      exact .belowName hn
    · exact fun t m hm s hs => .belowBracket (hm s hs)
  refine Takes.rule _ (((takes_text ['.', '.']).bind fun _ => hone.bind fun _ => takes_pure _).mono ?_)
  rintro _ _ ⟨_, _, _, rfl, rfl, t, _, m, rfl, hm, rfl, rfl⟩ ss hss
  obtain ⟨s, hs, rfl⟩ := map_eq_ok.1 hss
  rw [List.append_nil]
  exact hm s hs

omit h in
theorem takes_child : Takes child (Denotes SegmentText) := by
  have hone : Takes (or wildcard fieldName) (Denotes fun t s => SegmentText ('.' :: t) [s]) := by
    refine Takes.or (takes_wildcard.mono ?_) (takes_fieldName.mono ?_)
    · rintro t m ⟨rfl, rfl⟩ s hs
      cases hs
      exact .wildcard
    · intro t m hm s hs
      obtain ⟨n, hn, rfl⟩ := hm s hs
      exact .name hn
  refine Takes.rule _ (((takes_text ['.']).bind fun _ => hone.bind fun _ => takes_pure _).mono ?_)
  rintro _ _ ⟨_, _, _, rfl, rfl, t, _, m, rfl, hm, rfl, rfl⟩ ss hss
  obtain ⟨s, hs, rfl⟩ := map_eq_ok.1 hss
  rw [List.append_nil]
  exact hm s hs

theorem takes_segment : Takes (segment r) (Denotes SegmentText) := by
  refine (takes_descendant h).or (takes_child.or
    (((takes_bracket h).bind fun _ => takes_pure _).mono ?_))
  rintro _ _ ⟨t, _, m, rfl, hm, rfl, rfl⟩ ss hss
  obtain ⟨s, hs, rfl⟩ := map_eq_ok.1 hss
  rw [List.append_nil]
  exact .bracket (hm s hs)

omit h in
theorem segmentsText_of_items {t : List Char} {ms : List (Meaning (List Segment))}
    {sss : List (List Segment)} (hm : Items (Denotes SegmentText) t ms) (hms : ms = sss.map .ok) :
    SegmentsText t sss.flatten := by
  induction hm generalizing sss with
  | nil =>
    rw [List.map_eq_nil_iff.1 hms.symm]
    exact .nil
  | cons ha _ ih =>
    obtain ⟨ss, sss', rfl, rfl, hsss'⟩ := List.map_eq_cons_iff.1 hms.symm
    exact .cons (ha ss rfl) (ih hsss'.symm)

theorem takes_segments : Takes (segments r) (Denotes SegmentsText) := by
  refine ((takes_segment h).many.bind fun _ => takes_pure _).mono ?_
  rintro _ _ ⟨t, _, ms, rfl, hms, rfl, rfl⟩ ss hss
  obtain ⟨sss, hsss, rfl⟩ := map_eq_ok.1 hss
  rw [List.append_nil]
  exact segmentsText_of_items hms (inOrder_eq_ok.1 hsss)

/-! ### Operands and conditions -/

theorem takes_query : Takes (query r) (Denotes QueryText) := by
  have hstart : ∀ (which : Rule) (sign : Char) (operand : List Segment → Operand),
      (∀ t ss, SegmentsText t ss → QueryText (sign :: t) (operand ss)) →
      Takes (Reader.rule which (text [sign] >>= fun _ => segments r >>= fun m =>
        Pure.pure (m.map operand))) (Denotes QueryText) := by
    intro which sign operand hS
    refine Takes.rule _ (((takes_text [sign]).bind fun _ => (takes_segments h).bind fun _ =>
      takes_pure _).mono ?_)
    rintro _ _ ⟨_, _, _, rfl, rfl, t, _, m, rfl, hm, rfl, rfl⟩ a ha
    obtain ⟨ss, hss, rfl⟩ := map_eq_ok.1 ha
    rw [List.append_nil]
    exact hS t ss (hm ss hss)
  exact (hstart .currentQuery '@' .current fun _ _ => .current).or
    (hstart .rootQuery '$' .root fun _ _ => .root)

theorem takes_operand : Takes (operand r) SideText := by
  refine Takes.or (((Takes.withText (takes_query h)).bind fun _ => takes_pure _).mono ?_) takes_literal
  rintro _ _ ⟨t, _, ⟨m, _⟩, rfl, ⟨hm, rfl⟩, rfl, rfl⟩ a ha
  rw [List.append_nil]
  exact .query (hm a ha)

omit h in
theorem patternMeaning_eq_ok {source flags : String} {p : Pattern} :
    patternMeaning source flags = .ok p ↔ Pattern.ofText source flags = .ok p := by
  rw [patternMeaning]
  cases Pattern.ofText source flags <;> simp

omit h in
theorem mem_of_patternFlags {cs : List Char} {fs : Regex.Flags} (h : patternFlags cs = .ok fs) :
    ∀ c ∈ cs, c ∈ ['i', 'm', 's', 'x'] := by
  induction cs generalizing fs with
  | nil => simp
  | cons c cs ih =>
    have hmore : ∀ {set : Regex.Flags → Regex.Flags}, (Pure.pure set >>= fun set =>
        patternFlags cs >>= fun fs => Pure.pure (set fs)) = Except.ok fs → ∀ d ∈ cs,
          d ∈ ['i', 'm', 's', 'x'] := by
      intro set h
      obtain ⟨_, _, h⟩ := bind_eq_ok.1 h
      obtain ⟨fs', hfs', _⟩ := bind_eq_ok.1 h
      exact ih hfs'
    rw [patternFlags] at h
    rw [List.forall_mem_cons]
    split at h
    · next hc => exact ⟨by simp [hc], hmore h⟩
    split at h
    · next hc => exact ⟨by simp [hc], hmore h⟩
    split at h
    · next hc => exact ⟨by simp [hc], hmore h⟩
    split at h
    · next hc => exact ⟨by simp [hc], hmore h⟩
    · cases h

omit h in
theorem mem_flags_of_ofText {source flags : String} {p : Pattern}
    (hp : Pattern.ofText source flags = .ok p) :
    ∀ c ∈ flags.toList, c ∈ ['i', 'm', 's', 'x'] := by
  have hcompiled : ∃ fs, patternFlags flags.toList = .ok fs := by
    obtain ⟨regex, hregex⟩ : ∃ regex, compilePattern source flags = .ok regex := by
      rw [Pattern.ofText] at hp
      split at hp
      · next regex h => exact ⟨regex, h⟩
      · cases hp
    rw [compilePattern] at hregex
    cases hflags : patternFlags flags.toList with
    | ok fs => exact ⟨fs, rfl⟩
    | error fault =>
      rw [hflags] at hregex
      cases hregex
  obtain ⟨fs, hfs⟩ := hcompiled
  exact mem_of_patternFlags hfs

/-- A regular expression, or a side. -/
def RightText (t : List Char) : RightSide → Prop
  | .regex cs source flags => cs = t ∧ t = '/' :: source ++ '/' :: flags ∧ Body '/' source
  | .side side => SideText t side

theorem takes_right : Takes (or regex (operand r >>= fun s => Pure.pure (RightSide.side s)))
    RightText := by
  refine Takes.or (takes_regex.mono ?_) (((takes_operand h).bind fun _ => takes_pure _).mono ?_)
  · rintro t _ ⟨source, flags, rfl, ht, hbody, _⟩
    exact ⟨rfl, ht, hbody⟩
  · rintro _ _ ⟨t, _, side, rfl, hside, rfl, rfl⟩
    rw [List.append_nil]
    exact hside

omit h in
theorem unaryText_of_comparisonMeaning {t u v w w' : List Char} {left : Side}
    {op : Option Comparison} {right : RightSide} {c : Condition} (hleft : SideText t left)
    (hw : Blank w) (ho : OperatorText v op) (hw' : Blank w') (hright : RightText u right)
    (hc : comparisonMeaning left op right = .ok c) : UnaryText (t ++ w ++ v ++ w' ++ u) c := by
  obtain ⟨a, ha, hc⟩ := bind_eq_ok.1 hc
  have hta := hleft.operand a ha
  cases ho with
  | like =>
    simp only [List.append_assoc, List.cons_append, List.nil_append]
    cases right with
    | regex cs source flags =>
      obtain ⟨p, hp, hc⟩ := bind_eq_ok.1 hc
      cases hc
      obtain ⟨_, rfl, hbody⟩ := hright
      have hp := patternMeaning_eq_ok.1 hp
      have hflags := mem_flags_of_ofText hp
      rw [String.toList_ofList] at hflags
      have := UnaryText.like hta hw hw' (.regex hbody hflags hp)
      simpa using this
    | side side =>
      cases side with
      | other cs m => cases hc
      | string m =>
        obtain ⟨s, hs, hc⟩ := bind_eq_ok.1 hc
        obtain ⟨p, hp, hc⟩ := bind_eq_ok.1 hc
        cases hc
        have := UnaryText.like hta hw hw' (.string (hright s hs) (patternMeaning_eq_ok.1 hp))
        simpa using this
  | compare ho =>
    cases right with
    | regex cs source flags => cases hc
    | side side =>
      obtain ⟨b, hb, hc⟩ := bind_eq_ok.1 hc
      cases hc
      exact .compare hta hw ho hw' (hright.operand b hb)

theorem takes_comparison : Takes (comparison r) (Denotes UnaryText) := by
  refine Takes.rule _ (((takes_operand h).bind fun _ => takes_blanks.bind fun _ =>
    takes_operator.bind fun _ => takes_blanks.bind fun _ => (takes_right h).bind fun _ =>
      takes_pure _).mono ?_)
  rintro _ _ ⟨t, _, left, rfl, hleft, w, _, _, rfl, hw, v, _, op, rfl, hop, w', _, _, rfl, hw', u, _,
    right, rfl, hright, rfl, rfl⟩ c hc
  have := unaryText_of_comparisonMeaning hleft hw hop hw' hright hc
  simpa using this

theorem takes_existence : Takes (existence r) (Denotes UnaryText) := by
  refine Takes.rule _ (((takes_query h).bind fun _ => takes_pure _).mono ?_)
  rintro _ _ ⟨t, _, m, rfl, hm, rfl, rfl⟩ c hc
  obtain ⟨a, ha, rfl⟩ := map_eq_ok.1 hc
  rw [List.append_nil]
  exact .present (hm a ha)

theorem takes_negation : Takes (negation r) (Denotes UnaryText) := by
  refine Takes.rule _ (((takes_text ['!']).bind fun _ => takes_blanks.bind fun _ => h.bind fun _ =>
    takes_pure _).mono ?_)
  rintro _ _ ⟨_, _, _, rfl, rfl, w, _, _, rfl, hw, t, _, m, rfl, hm, rfl, rfl⟩ c hc
  obtain ⟨inner, hinner, rfl⟩ := map_eq_ok.1 hc
  have := UnaryText.not hw (hm inner hinner)
  simpa using this

theorem takes_group : Takes (group r) (Denotes UnaryText) := by
  refine Takes.rule _ (((takes_text ['(']).bind fun _ => takes_blanks.bind fun _ =>
    (takes_disjunction h).bind fun _ => takes_blanks.bind fun _ => (takes_text [')']).bind fun _ =>
      takes_pure _).mono ?_)
  rintro _ _ ⟨_, _, _, rfl, rfl, w, _, _, rfl, hw, t, _, m, rfl, hm, w', _, _, rfl, hw', _, _, _, rfl,
    rfl, rfl, rfl⟩ c hc
  have := UnaryText.group hw (hm c hc) hw'
  simpa using this

theorem takes_unaryOf : Takes (unaryOf r) (Denotes UnaryText) :=
  (takes_negation h).or ((takes_group h).or ((takes_comparison h).or (takes_existence h)))

end

theorem takes_unary : ∀ depth, Takes (unary depth) (Denotes UnaryText)
  | 0 => takes_fail _
  | depth + 1 => takes_unaryOf (takes_unary depth)

/-- A text from which a path is read spells the path. -/
theorem pathText_of_ofChars {cs : List Char} {p : Path} (h : Path.ofChars cs = .ok p) :
    PathText cs p := by
  rw [Path.ofChars] at h
  split at h
  · next meaning q hq =>
    rw [path, result_rule, result_bind, Option.bind_eq_some_iff] at hq
    obtain ⟨⟨_, q₁⟩, hroot, hq⟩ := hq
    rw [result_bind, Option.bind_eq_some_iff] at hq
    obtain ⟨⟨m, q₂⟩, hsegments, hq⟩ := hq
    rw [result_bind, Option.bind_eq_some_iff] at hq
    obtain ⟨⟨_, q₃⟩, hend, hq⟩ := hq
    cases hq
    obtain ⟨_, hcs, rfl⟩ := (takes_text ['$']).rule .root _ _ _ hroot
    obtain ⟨t, ht, hm⟩ := takes_segments (takes_unary _) _ _ _ hsegments
    have hnil : q₂.rest = [] := by
      rw [result_rule, atEnd] at hend
      split at hend
      · next hempty => exact List.isEmpty_iff.1 hempty
      · cases hend
    rw [hnil, List.append_nil] at ht
    have hcs : cs = ['$'] ++ q₁.rest := hcs
    rw [hcs, ht]
    exact .mk (hm p h)
  · cases h

end JsonSpan.Spelling

import JsonSpan.Proofs.Grammar.Soundness

/-!
# What spells a path is read as that path

By induction on how a text is put together, the readers take it to its end, provided that the text
that follows does not go on with it. The alternatives before the right one fail: what they start
with cannot stand there, or the character after what they have read cannot.
-/

namespace JsonSpan.Spelling

open Grammar Reader

/-! ### First characters -/

theorem SegmentText.starts {t : List Char} {ss : List Segment} (h : SegmentText t ss) :
    Starts (fun c => c = '.' ∨ c = '[') t := by
  cases h with
  | bracket h =>
    cases h with
    | mk _ _ _ => exact ⟨'[', _, rfl, .inr rfl⟩
  | _ => exact ⟨'.', _, rfl, .inl rfl⟩

theorem SegmentsText.endsName {t rest : List Char} {ss : List Segment} (h : SegmentsText t ss)
    (hr : Ends rest) : EndsName (t ++ rest) := by
  cases h with
  | nil => exact hr.name
  | cons h _ =>
    intro c hc
    rcases (h.starts.append _).head rest c hc with rfl | rfl <;> decide

theorem QueryText.starts {t : List Char} {a : Operand} (h : QueryText t a) :
    Starts (fun c => c = '@' ∨ c = '$') t := by
  cases h with
  | current _ => exact ⟨'@', _, rfl, .inl rfl⟩
  | root _ => exact ⟨'$', _, rfl, .inr rfl⟩

theorem OperandText.starts {t : List Char} {a : Operand} (h : OperandText t a) :
    Starts (fun c => isBlank c = false ∧ c ∉ ['!', '(', '/', '=']) t := by
  cases h with
  | query h =>
    refine h.starts.mono fun c hc => ?_
    rcases hc with rfl | rfl <;> decide
  | literal h =>
    refine h.starts.mono fun c hc => ⟨hc.1, fun hmem => hc.2 ?_⟩
    exact List.mem_append_left ['@', '$'] hmem

mutual

theorem OrText.starts : ∀ {t : List Char} {c : Condition}, OrText t c →
    Starts (fun c => isBlank c = false) t
  | _, _, .one h => AndText.starts h
  | _, _, .or h _ _ _ => by
    simp only [List.append_assoc]
    exact (OrText.starts h).append _

theorem AndText.starts : ∀ {t : List Char} {c : Condition}, AndText t c →
    Starts (fun c => isBlank c = false) t
  | _, _, .one h => UnaryText.starts h
  | _, _, .and h _ _ _ => by
    simp only [List.append_assoc]
    exact (AndText.starts h).append _

theorem UnaryText.starts : ∀ {t : List Char} {c : Condition}, UnaryText t c →
    Starts (fun c => isBlank c = false) t
  | _, _, .not _ _ => ⟨'!', _, rfl, by decide⟩
  | _, _, .group _ _ _ => ⟨'(', _, rfl, by decide⟩
  | _, _, .compare h _ _ _ _ => by
    simp only [List.append_assoc]
    exact (h.starts.mono fun c hc => hc.1).append _
  | _, _, .like h _ _ _ => by
    simp only [List.append_assoc]
    exact (h.starts.mono fun c hc => hc.1).append _
  | _, _, .present h => h.starts.mono fun c hc => by
    rcases hc with rfl | rfl <;> decide

end

/-! ### What follows -/

/-- One of some characters follows, perhaps after blanks. -/
def Follows (stops rest : List Char) : Prop :=
  ∃ w d more, rest = w ++ d :: more ∧ Blank w ∧ d ∈ stops

theorem Follows.mono {stops stops' rest : List Char} (h : Follows stops rest)
    (hsub : ∀ c ∈ stops, c ∈ stops') : Follows stops' rest := by
  obtain ⟨w, d, more, hrest, hw, hd⟩ := h
  exact ⟨w, d, more, hrest, hw, hsub d hd⟩

theorem Follows.ends {rest : List Char} (h : Follows [')', '|', '&'] rest) : Ends rest := by
  obtain ⟨w, d, more, rfl, hw, hd⟩ := h
  have hall : ∀ c ∈ [')', '|', '&'], isReserved c = true ∧ c ≠ '.' ∧ c ≠ '[' := by decide
  exact forall_head_blank hw (by decide) (hall d hd)

theorem refuses_fieldName {cs : List Char} (h : EndsName cs) : Refuses fieldName cs :=
  Refuses.rule _ (Refuses.bind (refuses_char fun c hc => by rw [h c hc]; rfl))

/-! ### Chains -/

/-- A chain is read as a first part and the parts after it, which make up the condition. What can be
read after the chain is read as further parts. -/
def ReadsChain (sign : List Char) (join : Condition → Condition → Condition)
    (part : Reader (Meaning Condition)) (t : List Char) (c : Condition) (rest : List Char) : Prop :=
  ∃ (first : Condition) (more : List Condition) (mid : List Char), c = more.foldl join first ∧
    Reads part (t ++ rest) (.ok first) mid ∧ ∀ ms rest', ReadsMany (another sign part) rest ms rest' →
      ReadsMany (another sign part) mid (more.map .ok ++ ms) rest'

section

variable {sign : List Char} {join : Condition → Condition → Condition}
  {part : Reader (Meaning Condition)} {t u w w' rest : List Char} {c d : Condition}

theorem readsChain_one (h : Reads part (t ++ rest) (.ok c) rest) :
    ReadsChain sign join part t c rest :=
  ⟨c, [], rest, rfl, h, fun _ _ hm => hm⟩

theorem readsChain_join {s : Char} (hs : isBlank s = false) (hw : Blank w) (hw' : Blank w')
    (hstart : Starts (fun c => isBlank c = false) u)
    (hu : Reads part (u ++ rest) (.ok d) rest)
    (h : ReadsChain (s :: sign) join part t c (w ++ (s :: sign ++ (w' ++ (u ++ rest))))) :
    ReadsChain (s :: sign) join part (t ++ (w ++ (s :: sign ++ (w' ++ u)))) (join c d) rest := by
  obtain ⟨first, more, mid, rfl, hfirst, hmore⟩ := h
  refine ⟨first, more ++ [d], mid, by simp, by simpa using hfirst, ?_⟩
  intro ms rest' hm
  have hnext : Reads (another (s :: sign) part) (w ++ (s :: sign ++ (w' ++ (u ++ rest)))) (.ok d) rest :=
    reads_another hw hs hw' hu (hstart.head rest)
  have hshort : rest.length < (w ++ (s :: sign ++ (w' ++ (u ++ rest)))).length := by
    simp only [List.length_append, List.length_cons]
    omega
  have hall := hmore (.ok d :: ms) rest' (.more hnext hshort hm)
  simpa using hall

theorem ReadsChain.reads {which : Rule} (h : ReadsChain sign join part t c rest)
    (hstop : Refuses (another sign part) rest) :
    Reads (chain which sign join part) (t ++ rest) (.ok c) rest := by
  obtain ⟨first, more, mid, rfl, hfirst, hmore⟩ := h
  have hmany := (hmore [] rest (.stop hstop)).many
  rw [List.append_nil] at hmany
  have hmeaning : (inOrder (more.map .ok) >>= fun ds => Pure.pure (ds.foldl join first)) =
      (.ok (more.foldl join first) : Meaning Condition) :=
    bind_eq_ok.2 ⟨more, inOrder_eq_ok.2 rfl, rfl⟩
  rw [← hmeaning]
  exact Reads.rule _ (hfirst.bind (hmany.bind (reads_pure _ rest)))

end

theorem refuses_sign_after {part : Reader (Meaning Condition)} {c : Char} {sign stops rest : List Char}
    (h : Follows stops rest) (hstops : ∀ d ∈ stops, isBlank d = false ∧ d ≠ c) :
    Refuses (another (c :: sign) part) rest := by
  obtain ⟨w, d, more, rfl, hw, hd⟩ := h
  exact refuses_another hw (hstops d hd).1 (hstops d hd).2

/-! ### Selectors -/

section

variable {r : Reader (Meaning Condition)}

theorem refuses_filter {cs : List Char} (h : cs.head? ≠ some '?') : Refuses (filter r) cs :=
  Refuses.rule _ (Refuses.bind (refuses_text h))

theorem reads_filter {t w₁ w₂ w₃ more : List Char} {c : Condition} (h₁ : Blank w₁) (h₂ : Blank w₂)
    (hstart : Starts (fun c => isBlank c = false) t)
    (h : Reads (disjunction r) (t ++ (w₃ ++ ')' :: more)) (.ok c) (w₃ ++ ')' :: more))
    (h₃ : Blank w₃) :
    Reads (filter r) ('?' :: (w₁ ++ '(' :: (w₂ ++ (t ++ (w₃ ++ ')' :: more))))) (.ok (.filter c))
      more :=
  Reads.rule _ ((reads_text ['?'] _).bind ((reads_blanks_cons h₁ (by decide)).bind
    ((reads_text ['('] _).bind ((reads_blanks h₂ (hstart.head _)).bind (h.bind
      ((reads_blanks_cons h₃ (by decide)).bind ((reads_text [')'] more).bind (reads_pure _ more))))))))

/-- The reader of a selector that stands for its own. -/
def alone (r : Reader (Meaning Selector)) : Reader (Meaning Segment) := do
  return (← r).map selectorSegment

theorem selector_eq (r : Reader (Meaning Condition)) : selector r =
    or (filter r) (or union (or slice (or wildcard (or (alone index) (alone name))))) := rfl

theorem Starts.refuses_filter {P : Char → Prop} {t : List Char} (h : Starts P t) (hP : ¬P '?')
    (rest : List Char) : Refuses (filter r) (t ++ rest) :=
  JsonSpan.Spelling.refuses_filter fun hq => hP (h.head rest '?' hq)

theorem reads_selector_union {t w : List Char} {ss : List Selector} (h : MembersText t ss)
    (hlen : 2 ≤ ss.length) (hw : Blank w) (more : List Char) :
    Reads (selector r) (t ++ (w ++ ']' :: more)) (.ok (.union ss)) (w ++ ']' :: more) := by
  have hfilter := h.starts.refuses_filter (r := r) (by simp) (w ++ ']' :: more)
  rw [selector_eq]
  exact hfilter.or_right (reads_union h hlen hw more).or_left

theorem SliceText.refuses_before {t : List Char} {start stop step : Option Int64}
    (h : SliceText t start stop step) (rest : List Char) :
    Refuses (filter r) (t ++ rest) ∧ Refuses union (t ++ rest) := by
  obtain ⟨u, w, more, b, hu, hw, hmore⟩ : ∃ u w more b, BoundText u b ∧ Blank w ∧
      t ++ rest = u ++ (w ++ ':' :: more) := by
    cases h with
    | @two _ u _ w' _ _ h hw hw' h' => exact ⟨_, _, w' ++ (u ++ rest), _, h, hw, by simp⟩
    | @three _ u v _ w₂ w₃ w₄ _ _ _ h h₁ h₂ h' h₃ h₄ h'' =>
      exact ⟨_, _, w₂ ++ (u ++ (w₃ ++ ':' :: (w₄ ++ (v ++ rest)))), _, h, h₁, by simp⟩
  rw [hmore]
  cases hu with
  | none =>
    have hquote : ∀ c ∈ (w ++ ':' :: more).head?, c ∉ ['?', '"', '\''] :=
      forall_head_blank hw (by decide) (by decide)
    rw [List.nil_append]
    refine ⟨refuses_filter fun hq => hquote '?' hq (by decide), refuses_union ⟨?_, ?_⟩ ?_⟩
    · exact fun hq => hquote '"' hq (by decide)
    · exact fun hq => hquote '\'' hq (by decide)
    · exact noInteger_blank hw (by decide) more
  | some h =>
    exact ⟨h.starts.refuses_filter (by decide) _, refuses_union_one (.index h) hw (by decide)⟩

theorem reads_selector_slice {t w : List Char} {start stop step : Option Int64}
    (h : SliceText t start stop step) (hstep : step ≠ some 0) (hw : Blank w) (more : List Char) :
    ∃ w', Blank w' ∧ Reads (selector r) (t ++ (w ++ ']' :: more)) (.ok (.slice start stop step))
      (w' ++ ']' :: more) := by
  obtain ⟨w', hw', hslice⟩ := reads_slice h hstep hw more
  obtain ⟨hfilter, hunion⟩ := h.refuses_before (r := r) (w ++ ']' :: more)
  rw [selector_eq]
  exact ⟨w', hw', hfilter.or_right (hunion.or_right hslice.or_left)⟩

theorem reads_selector_wildcard (rest : List Char) :
    Reads (selector r) ('*' :: rest) (.ok .wildcard) rest := by
  have hunion : Refuses union ('*' :: rest) :=
    refuses_union ⟨by simp, by simp⟩ (noInteger_blank (w := []) (by simp [Blank]) (by decide) rest)
  have hslice : Refuses slice ([] ++ ([] ++ '*' :: rest)) :=
    refuses_slice .none (by simp [Blank]) (by decide) (by decide)
  rw [selector_eq]
  exact (refuses_filter (by simp)).or_right (hunion.or_right (hslice.or_right
    (reads_wildcard rest).or_left))

theorem reads_selector_index {t w : List Char} {i : Int64} (h : IntegerText t i) (hw : Blank w)
    (more : List Char) :
    Reads (selector r) (t ++ (w ++ ']' :: more)) (.ok (.index i)) (w ++ ']' :: more) := by
  have hfilter := h.starts.refuses_filter (r := r) (by decide) (w ++ ']' :: more)
  have hunion : Refuses union (t ++ (w ++ ']' :: more)) :=
    refuses_union_one (.index h) hw (by decide)
  have hslice : Refuses slice (t ++ (w ++ ']' :: more)) :=
    refuses_slice (.some h) hw (by decide) (by decide)
  have hwildcard : Refuses wildcard (t ++ (w ++ ']' :: more)) :=
    refuses_wildcard fun hq => absurd (h.starts.head _ '*' hq) (by decide)
  have hindex : Reads (alone index) (t ++ (w ++ ']' :: more)) (.ok (.index i)) (w ++ ']' :: more) :=
    (reads_index h (forall_head_blank hw (by decide) (by decide))).bind (reads_pure _ _)
  rw [selector_eq]
  exact hfilter.or_right (hunion.or_right (hslice.or_right (hwildcard.or_right
    hindex.or_left)))

theorem reads_selector_name {t w : List Char} {s : String} (h : StringText t s) (hw : Blank w)
    (more : List Char) :
    Reads (selector r) (t ++ (w ++ ']' :: more)) (.ok (.field s)) (w ++ ']' :: more) := by
  have hfilter := h.starts.refuses_filter (r := r) (by decide) (w ++ ']' :: more)
  have hunion : Refuses union (t ++ (w ++ ']' :: more)) :=
    refuses_union_one (.name h) hw (by decide)
  have hinteger : NoInteger (t ++ (w ++ ']' :: more)) := by
    intro c hc
    rcases h.starts.head _ c hc with rfl | rfl <;> decide
  have hslice : Refuses slice (t ++ (w ++ ']' :: more)) := by
    obtain ⟨c, t, rfl, hc⟩ := h.starts
    refine refuses_slice (t := []) (w := []) .none (by simp [Blank]) ?_ ?_
    · rcases hc with rfl | rfl <;> decide
    · rcases hc with rfl | rfl <;> decide
  have hwildcard : Refuses wildcard (t ++ (w ++ ']' :: more)) :=
    refuses_wildcard fun hq => absurd (h.starts.head _ '*' hq) (by decide)
  rw [selector_eq]
  exact hfilter.or_right (hunion.or_right (hslice.or_right (hwildcard.or_right
    ((refuses_index hinteger).bind.or_right ((reads_name h _).bind (reads_pure _ _))))))

/-! ### Segments -/

theorem refuses_child {cs : List Char} (h : cs.head? ≠ some '.') : Refuses child cs :=
  Refuses.rule _ (Refuses.bind (refuses_text h))

theorem refuses_descendant {cs : List Char} (h : cs.head? ≠ some '.') : Refuses (descendant r) cs :=
  Refuses.rule _ (Refuses.bind (refuses_text h))

theorem refuses_descendant_one {cs : List Char} (h : cs.head? ≠ some '.') :
    Refuses (descendant r) ('.' :: cs) :=
  Refuses.rule _ (Refuses.bind ((reads_char (by decide) cs).refuses_bind (refuses_text h)))

theorem refuses_bracket {cs : List Char} (h : cs.head? ≠ some '[') : Refuses (bracket r) cs :=
  Refuses.rule _ (Refuses.bind (refuses_text h))

theorem refuses_segment {cs : List Char} (h : Ends cs) : Refuses (segment r) cs := by
  have hdot : cs.head? ≠ some '.' := fun hq => (h '.' hq).2.1 rfl
  have hbracket : cs.head? ≠ some '[' := fun hq => (h '[' hq).2.2 rfl
  exact (refuses_descendant hdot).or ((refuses_child hdot).or (refuses_bracket hbracket).bind)

theorem reads_bracket_of {t w w' v rest : List Char} {s : Segment} (hw : Blank w) (hv : Blank v)
    (hstart : ∀ c ∈ (t ++ (w' ++ ']' :: rest)).head?, isBlank c = false)
    (h : Reads (selector r) (t ++ (w' ++ ']' :: rest)) (.ok s) (v ++ ']' :: rest)) :
    Reads (bracket r) ('[' :: (w ++ (t ++ (w' ++ ']' :: rest)))) (.ok s) rest :=
  Reads.rule _ ((reads_text ['['] _).bind ((reads_blanks hw hstart).bind (h.bind
    ((reads_blanks_cons hv (by decide)).bind ((reads_text [']'] rest).bind (reads_pure _ rest))))))

theorem NameText.starts {t : List Char} {s : String} (h : NameText t s) :
    Starts (fun c => c ≠ '.' ∧ c ≠ '*') t := by
  obtain ⟨hne, hplain⟩ := h
  obtain ⟨c, more, rfl⟩ := List.exists_cons_of_ne_nil hne
  have hc : isPlainChar c = true := hplain c (by simp)
  refine ⟨c, more, rfl, ?_, ?_⟩ <;>
  · rintro rfl
    exact absurd hc (by decide)

theorem reads_segment_name {t rest : List Char} {s : String} (h : NameText t s)
    (hr : EndsName rest) : Reads (segment r) ('.' :: (t ++ rest)) (.ok [.field s]) rest := by
  have hdescendant : Refuses (descendant r) ('.' :: (t ++ rest)) :=
    refuses_descendant_one fun hq => (h.starts.head rest '.' hq).1 rfl
  have hwildcard : Refuses wildcard (t ++ rest) :=
    refuses_wildcard fun hq => (h.starts.head rest '*' hq).2 rfl
  have hchild : Reads child ('.' :: (t ++ rest)) (.ok [.field s]) rest :=
    Reads.rule _ ((reads_text ['.'] _).bind ((hwildcard.or_right (reads_fieldName h hr)).bind
      (reads_pure _ rest)))
  exact hdescendant.or_right hchild.or_left

theorem reads_segment_wildcard (rest : List Char) :
    Reads (segment r) ('.' :: '*' :: rest) (.ok [.wildcard]) rest := by
  have hchild : Reads child ('.' :: '*' :: rest) (.ok [.wildcard]) rest :=
    Reads.rule _ ((reads_text ['.'] _).bind ((reads_wildcard rest).or_left.bind (reads_pure _ rest)))
  exact (refuses_descendant_one (by simp)).or_right hchild.or_left

theorem reads_segment_bracket {cs rest : List Char} {s : Segment}
    (h : Reads (bracket r) ('[' :: cs) (.ok s) rest) :
    Reads (segment r) ('[' :: cs) (.ok [s]) rest :=
  (refuses_descendant (by simp)).or_right ((refuses_child (by simp)).or_right
    (h.bind (reads_pure _ rest)))

theorem reads_segment_below {cs rest : List Char} {s : Segment}
    (h : Reads (or wildcard (or fieldName (bracket r))) cs (.ok s) rest) :
    Reads (segment r) ('.' :: '.' :: cs) (.ok [.descent, s]) rest := by
  have hdescendant : Reads (descendant r) ('.' :: '.' :: cs) (.ok [.descent, s]) rest :=
    Reads.rule _ ((reads_text ['.', '.'] cs).bind (h.bind (reads_pure _ rest)))
  exact hdescendant.or_left

theorem reads_segments_of {t rest : List Char} {sss : List (List Segment)}
    (h : ReadsMany (segment r) (t ++ rest) (sss.map .ok) rest) :
    Reads (segments r) (t ++ rest) (.ok sss.flatten) rest := by
  have hmeaning : (inOrder (sss.map .ok)).map List.flatten =
      (.ok sss.flatten : Meaning (List Segment)) := map_eq_ok.2 ⟨sss, inOrder_eq_ok.2 rfl, rfl⟩
  rw [← hmeaning]
  exact h.many.bind (reads_pure _ rest)

/-! ### Operands and conditions -/

theorem reads_query_current {t rest : List Char} {ss : List Segment}
    (h : Reads (segments r) (t ++ rest) (.ok ss) rest) :
    Reads (query r) ('@' :: (t ++ rest)) (.ok (.current ss)) rest := by
  have hcurrent : Reads (Reader.rule .currentQuery (text ['@'] >>= fun _ => segments r >>= fun m =>
      Pure.pure (m.map Operand.current))) ('@' :: (t ++ rest)) (.ok (.current ss)) rest :=
    Reads.rule _ ((reads_text ['@'] _).bind (h.bind (reads_pure _ rest)))
  exact hcurrent.or_left

theorem reads_query_root {t rest : List Char} {ss : List Segment}
    (h : Reads (segments r) (t ++ rest) (.ok ss) rest) :
    Reads (query r) ('$' :: (t ++ rest)) (.ok (.root ss)) rest := by
  have hroot : Reads (Reader.rule .rootQuery (text ['$'] >>= fun _ => segments r >>= fun m =>
      Pure.pure (m.map Operand.root))) ('$' :: (t ++ rest)) (.ok (.root ss)) rest :=
    Reads.rule _ ((reads_text ['$'] _).bind (h.bind (reads_pure _ rest)))
  exact Refuses.or_right (Refuses.rule _ (Refuses.bind (refuses_text (by simp)))) hroot

theorem refuses_query {cs : List Char} (h : ∀ c ∈ cs.head?, c ∉ ['@', '$']) :
    Refuses (query r) cs :=
  Refuses.or (Refuses.rule _ (Refuses.bind (refuses_text fun hq => h '@' hq (by decide))))
    (Refuses.rule _ (Refuses.bind (refuses_text fun hq => h '$' hq (by decide))))

theorem reads_operand_query {t rest : List Char} {a : Operand}
    (h : Reads (query r) (t ++ rest) (.ok a) rest) :
    Reads (operand r) (t ++ rest) (.other t (.ok a)) rest := by
  have hquery : Reads (withText (query r) >>= fun x => Pure.pure (Side.other x.2 x.1)) (t ++ rest)
      (.other t (.ok a)) rest := h.withText.bind (reads_pure _ rest)
  exact hquery.or_left

theorem reads_operand_literal {t rest : List Char} {v : Literal} {side : Side}
    (hv : LiteralText t v) (h : Reads literal (t ++ rest) side rest) :
    Reads (operand r) (t ++ rest) side rest := by
  refine Refuses.or_right (Refuses.bind (Refuses.withText (refuses_query fun c hc hmem => ?_))) h
  exact (hv.starts.head rest c hc).2 (List.mem_append_right ['!', '(', '/', '='] hmem)

/-- The reader of what may stand on the right of an operator. -/
def right (r : Reader (Meaning Condition)) : Reader RightSide :=
  or regex do return .side (← operand r)

theorem comparison_eq (r : Reader (Meaning Condition)) : comparison r =
    Reader.rule .comparison (operand r >>= fun left => blanks >>= fun _ => operator >>= fun op =>
      blanks >>= fun _ => right r >>= fun right =>
        Pure.pure (comparisonMeaning left op right)) := rfl

theorem OperatorText.starts {t : List Char} {op : Option Comparison} (h : OperatorText t op) :
    Starts (fun c => c ∈ ['=', '!', '<', '>']) t := by
  cases h with
  | like => exact ⟨_, _, rfl, by decide⟩
  | compare h => cases h <;> exact ⟨_, _, rfl, by decide⟩

theorem OperatorText.ends {v w : List Char} {op : Option Comparison} (h : OperatorText v op)
    (hw : Blank w) (rest : List Char) : Ends (w ++ (v ++ rest)) := by
  obtain ⟨c, more, rfl, hc⟩ := h.starts
  have hall : ∀ c ∈ ['=', '!', '<', '>'], isReserved c = true ∧ c ≠ '.' ∧ c ≠ '[' := by decide
  exact forall_head_blank hw (by decide) (hall c hc)

theorem PatternText.starts {t : List Char} {p : Pattern} (h : PatternText t p) :
    Starts (fun c => isBlank c = false ∧ c ≠ '=') t := by
  cases h with
  | regex _ _ _ => exact ⟨'/', _, rfl, by decide⟩
  | string h _ =>
    refine h.starts.mono fun c hc => ?_
    rcases hc with rfl | rfl <;> decide

theorem reads_right_operand {u rest : List Char} {a : Operand} {side : Side} (hu : OperandText u a)
    (h : Reads (operand r) (u ++ rest) side rest) :
    Reads (right r) (u ++ rest) (.side side) rest := by
  have hregex : Refuses regex (u ++ rest) :=
    refuses_regex fun hq => (hu.starts.head rest '/' hq).2 (by decide)
  exact hregex.or_right (h.bind (reads_pure _ rest))

theorem reads_right_pattern {u rest : List Char} {p : Pattern} (h : PatternText u p)
    (hr : EndsName rest) : ∃ rightSide, Reads (right r) (u ++ rest) rightSide rest ∧
      ∀ left a, left.operand = .ok a → comparisonMeaning left none rightSide = .ok (.like a p) := by
  cases h with
  | @regex t flags _ h hf hp =>
    have halpha : ∀ c ∈ flags, c.isAlpha := by
      have hall : ∀ c ∈ ['i', 'm', 's', 'x'], c.isAlpha := by decide
      exact fun c hc => hall c (hf c hc)
    refine ⟨_, (reads_regex h halpha hr).or_left, fun left a ha => ?_⟩
    exact bind_eq_ok.2 ⟨a, ha, bind_eq_ok.2 ⟨p, patternMeaning_eq_ok.2 hp, rfl⟩⟩
  | @string _ s _ h hp =>
    have hread : Reads (operand r) (u ++ rest) (.string (.ok s)) rest :=
      reads_operand_literal (.string h) (reads_literal_string h rest)
    refine ⟨_, reads_right_operand (.literal (.string h)) hread, fun left a ha => ?_⟩
    exact bind_eq_ok.2 ⟨a, ha, bind_eq_ok.2 ⟨s, rfl, bind_eq_ok.2 ⟨p, patternMeaning_eq_ok.2 hp, rfl⟩⟩⟩

theorem reads_comparison {t u v w w' rest : List Char} {left : Side} {op : Option Comparison}
    {rightSide : RightSide} {c : Condition}
    (hleft : Reads (operand r) (t ++ (w ++ (v ++ (w' ++ (u ++ rest))))) left
      (w ++ (v ++ (w' ++ (u ++ rest))))) (hw : Blank w) (ho : OperatorText v op) (hw' : Blank w')
    (hstart : Starts (fun c => isBlank c = false ∧ c ≠ '=') u)
    (hright : Reads (right r) (u ++ rest) rightSide rest)
    (hc : comparisonMeaning left op rightSide = .ok c) :
    Reads (comparison r) (t ++ (w ++ (v ++ (w' ++ (u ++ rest))))) (.ok c) rest := by
  have hop : ∀ c ∈ (v ++ (w' ++ (u ++ rest))).head?, isBlank c = false := by
    cases ho with
    | like =>
      rintro c hc
      cases hc
      rfl
    | compare ho =>
      cases ho <;>
      · rintro c hc
        cases hc
        rfl
  have hafter : (w' ++ (u ++ rest)).head? ≠ some '=' := by
    obtain ⟨d, more, rfl, hd⟩ := hstart
    have hne : ∀ c ∈ (w' ++ d :: (more ++ rest)).head?, c ≠ '=' :=
      forall_head_blank hw' (by decide) hd.2
    exact fun hq => hne '=' hq rfl
  rw [comparison_eq, ← hc]
  exact Reads.rule _ (hleft.bind ((reads_blanks hw hop).bind ((reads_operator ho hafter).bind
    ((reads_blanks hw' fun c hc => (hstart.head rest c hc).1).bind
      (hright.bind (reads_pure _ rest))))))

theorem OperandText.refuses_before {t : List Char} {a : Operand} (h : OperandText t a)
    (rest : List Char) : Refuses (negation r) (t ++ rest) ∧ Refuses (group r) (t ++ rest) := by
  constructor
  · exact Refuses.rule _ (Refuses.bind (refuses_text fun hq =>
      (h.starts.head rest '!' hq).2 (by decide)))
  · exact Refuses.rule _ (Refuses.bind (refuses_text fun hq =>
      (h.starts.head rest '(' hq).2 (by decide)))

theorem reads_unaryOf_comparison {t rest rest' : List Char} {a : Operand} {c : Condition}
    (ht : OperandText t a) (h : Reads (comparison r) (t ++ rest) (.ok c) rest') :
    Reads (unaryOf r) (t ++ rest) (.ok c) rest' := by
  obtain ⟨hnegation, hgroup⟩ := ht.refuses_before (r := r) rest
  exact hnegation.or_right (hgroup.or_right h.or_left)

theorem reads_unaryOf_existence {t rest : List Char} {a : Operand} (ht : QueryText t a)
    (h : Reads (query r) (t ++ rest) (.ok a) rest) (hr : Follows [')', '|', '&'] rest) :
    Reads (unaryOf r) (t ++ rest) (.ok (.present a)) rest := by
  obtain ⟨hnegation, hgroup⟩ := (OperandText.query ht).refuses_before (r := r) rest
  have hcomparison : Refuses (comparison r) (t ++ rest) := by
    obtain ⟨w, d, more, rfl, hw, hd⟩ := hr
    have hblank : isBlank d = false ∧ d ∉ ['=', '!', '<', '>'] := by
      have hall : ∀ c ∈ [')', '|', '&'], isBlank c = false ∧ c ∉ ['=', '!', '<', '>'] := by decide
      exact hall d hd
    refine Refuses.rule _ ((reads_operand_query h).refuses_bind
      ((reads_blanks_cons hw hblank.1).refuses_bind (Refuses.bind (refuses_operator ?_))))
    rintro c hc
    cases hc
    exact hblank.2
  have hexistence : Reads (existence r) (t ++ rest) (.ok (.present a)) rest :=
    Reads.rule _ (h.bind (reads_pure _ rest))
  exact hnegation.or_right (hgroup.or_right (hcomparison.or_right hexistence))

end

/-! ### The induction

A reader of conditions of some depth reads what is not longer than the depth: each level of nesting
takes a character at least. -/

theorem Follows.cons {d : Char} {stops w more : List Char} (hw : Blank w) (hd : d ∈ stops) :
    Follows stops (w ++ d :: more) :=
  ⟨w, d, more, rfl, hw, hd⟩

mutual

theorem reads_segments : ∀ {t : List Char} {ss : List Segment}, SegmentsText t ss → ∀ {d : Nat},
    t.length ≤ d → ∀ {rest : List Char}, Ends rest → ∃ sss : List (List Segment), ss = sss.flatten ∧
      ReadsMany (segment (unary d)) (t ++ rest) (sss.map .ok) rest
  | _, _, .nil, d, _, rest, hr => ⟨[], rfl, .stop (refuses_segment hr)⟩
  | _, _, @SegmentsText.cons t u ss ss' h h', d, hd, rest, hr => by
    rw [List.length_append] at hd
    obtain ⟨sss, rfl, hmore⟩ := reads_segments h' (d := d) (by omega) hr
    have hone := reads_segment h (d := d) (by omega) (h'.endsName hr)
    have hpos := h.starts.length_pos
    refine ⟨ss :: sss, rfl, ?_⟩
    rw [List.append_assoc]
    refine .more hone ?_ hmore
    simp only [List.length_append]
    omega

theorem reads_segment : ∀ {t : List Char} {ss : List Segment}, SegmentText t ss → ∀ {d : Nat},
    t.length ≤ d → ∀ {rest : List Char}, EndsName rest →
      Reads (segment (unary d)) (t ++ rest) (.ok ss) rest
  | _, _, .name h, _, _, _, hr => reads_segment_name h hr
  | _, _, .wildcard, _, _, rest, _ => reads_segment_wildcard rest
  | _, _, .bracket h, _, hd, rest, _ => by
    have hbracket := reads_bracket h hd rest
    obtain ⟨hw, hs, hw'⟩ := h
    exact reads_segment_bracket hbracket
  | _, _, @SegmentText.belowName t _ h, _, _, rest, hr => by
    have hwildcard : Refuses wildcard (t ++ rest) :=
      refuses_wildcard fun hq => (h.starts.head rest '*' hq).2 rfl
    exact reads_segment_below (hwildcard.or_right (reads_fieldName h hr).or_left)
  | _, _, .belowWildcard, _, _, rest, _ => reads_segment_below (reads_wildcard rest).or_left
  | _, _, @SegmentText.belowBracket t _ h, d, hd, rest, _ => by
    simp only [List.length_cons] at hd
    have hbracket := reads_bracket h (d := d) (by omega) rest
    obtain ⟨hw, hs, hw'⟩ := h
    exact reads_segment_below ((refuses_wildcard (by simp)).or_right
      ((refuses_fieldName fun c hc => by cases hc; rfl).or_right hbracket))

theorem reads_bracket : ∀ {t : List Char} {s : Segment}, BracketText t s → ∀ {d : Nat},
    t.length ≤ d → ∀ rest : List Char, Reads (bracket (unary d)) (t ++ rest) (.ok s) rest
  | _, _, @BracketText.mk t w w' s hw h hw', d, hd, rest => by
    simp only [List.length_append, List.length_cons, List.length_nil] at hd
    obtain ⟨v, u, v', rfl, hv, hv', hstart, hread⟩ := reads_selector h (d := d) (by omega) hw' rest
    have hblank : Blank (w ++ v) := by
      intro c hc
      rcases List.mem_append.1 hc with hc | hc
      · exact hw c hc
      · exact hv c hc
    have hall := reads_bracket_of hblank hv' hstart hread
    simpa using hall

theorem reads_selector : ∀ {t : List Char} {s : Segment}, SelectorText t s → ∀ {d : Nat},
    t.length ≤ d → ∀ {w : List Char}, Blank w → ∀ more : List Char, ∃ v u w', t = v ++ u ∧ Blank v ∧
      Blank w' ∧ (∀ c ∈ (u ++ (w ++ ']' :: more)).head?, isBlank c = false) ∧
      Reads (selector (unary d)) (u ++ (w ++ ']' :: more)) (.ok s) (w' ++ ']' :: more)
  | _, _, @SelectorText.filter t w₁ w₂ w₃ c h₁ h₂ h h₃, d, hd, w, hw, more => by
    simp only [List.length_append, List.length_cons, List.length_nil] at hd
    have hfollows : Follows [')', '|'] (w₃ ++ ')' :: (w ++ ']' :: more)) := .cons h₃ (by decide)
    have hor : Reads (disjunction (unary d)) (t ++ (w₃ ++ ')' :: (w ++ ']' :: more))) (.ok c)
        (w₃ ++ ')' :: (w ++ ']' :: more)) :=
      (reads_or h (by omega) hfollows).reads (refuses_another h₃ (by decide) (by decide))
    have hread : Reads (selector (unary d)) _ _ _ := (reads_filter h₁ h₂ h.starts hor h₃).or_left
    refine ⟨[], _, w, rfl, by simp [Blank], hw, ?_, by simpa using hread⟩
    intro c hc
    cases hc
    rfl
  | _, _, .union h hlen, _, _, w, hw, more => by
    refine ⟨[], _, w, rfl, by simp [Blank], hw, ?_, reads_selector_union h hlen hw more⟩
    exact fun c hc => (h.starts.head _ c hc).1
  | _, _, .slice h hstep, _, _, w, hw, more => by
    obtain ⟨v, u, rfl, hv, hu, hstart⟩ := h.trimmed
    obtain ⟨w', hw', hread⟩ := reads_selector_slice hu hstep hw more
    exact ⟨v, u, w', rfl, hv, hw', hstart _, hread⟩
  | _, _, .wildcard, _, _, w, hw, more => by
    refine ⟨[], _, w, rfl, by simp [Blank], hw, ?_, reads_selector_wildcard _⟩
    intro c hc
    cases hc
    rfl
  | _, _, .index h, _, _, w, hw, more => by
    refine ⟨[], _, w, rfl, by simp [Blank], hw, ?_, reads_selector_index h hw more⟩
    exact fun c hc => (isDigit_or_minus (h.starts.head _ c hc)).1
  | _, _, .name h, _, _, w, hw, more => by
    refine ⟨[], _, w, rfl, by simp [Blank], hw, ?_, reads_selector_name h hw more⟩
    intro c hc
    rcases h.starts.head _ c hc with rfl | rfl <;> rfl

theorem reads_or : ∀ {t : List Char} {c : Condition}, OrText t c → ∀ {d : Nat}, t.length ≤ d →
    ∀ {rest : List Char}, Follows [')', '|'] rest →
      ReadsChain ['|', '|'] .or (conjunction (unary d)) t c rest
  | _, _, .one h, d, hd, rest, hr => by
    have hchain := reads_and h hd (hr.mono (by decide))
    exact readsChain_one (hchain.reads (refuses_sign_after hr (by decide)))
  | _, _, @OrText.or t u w w' c e h hw hw' h', d, hd, rest, hr => by
    simp only [List.length_append, List.length_cons] at hd
    have hfollows : Follows [')', '|'] (w ++ '|' :: '|' :: (w' ++ (u ++ rest))) :=
      .cons hw (by decide)
    have hleft := reads_or h (d := d) (by omega) hfollows
    have hright : Reads (conjunction (unary d)) (u ++ rest) (.ok e) rest :=
      (reads_and h' (by omega) (hr.mono (by decide))).reads (refuses_sign_after hr (by decide))
    have hall := readsChain_join (by decide) hw hw' h'.starts hright hleft
    simpa using hall

theorem reads_and : ∀ {t : List Char} {c : Condition}, AndText t c → ∀ {d : Nat}, t.length ≤ d →
    ∀ {rest : List Char}, Follows [')', '|', '&'] rest →
      ReadsChain ['&', '&'] .and (unary d) t c rest
  | _, _, .one h, d, hd, rest, hr => readsChain_one (reads_unary h hd hr)
  | _, _, @AndText.and t u w w' c e h hw hw' h', d, hd, rest, hr => by
    simp only [List.length_append, List.length_cons] at hd
    have hfollows : Follows [')', '|', '&'] (w ++ '&' :: '&' :: (w' ++ (u ++ rest))) :=
      .cons hw (by decide)
    have hleft := reads_and h (d := d) (by omega) hfollows
    have hright := reads_unary h' (d := d) (by omega) hr
    have hall := readsChain_join (by decide) hw hw' h'.starts hright hleft
    simpa using hall

theorem reads_unary : ∀ {t : List Char} {c : Condition}, UnaryText t c → ∀ {d : Nat}, t.length ≤ d →
    ∀ {rest : List Char}, Follows [')', '|', '&'] rest → Reads (unary d) (t ++ rest) (.ok c) rest
  | _, _, @UnaryText.not t w c hw h, 0, hd, _, _ => absurd hd (by simp)
  | _, _, @UnaryText.not t w c hw h, d + 1, hd, rest, hr => by
    simp only [List.length_append, List.length_cons] at hd
    have hinner := reads_unary h (d := d) (by omega) hr
    have hnegation : Reads (negation (unary d)) ('!' :: (w ++ (t ++ rest))) (.ok (.not c)) rest :=
      Reads.rule _ ((reads_text ['!'] _).bind ((reads_blanks hw (h.starts.head rest)).bind
        (hinner.bind (reads_pure _ rest))))
    have hread : Reads (unary (d + 1)) _ _ _ := hnegation.or_left
    simpa using hread
  | _, _, @UnaryText.group t w w' c hw h hw', 0, hd, _, _ => absurd hd (by simp)
  | _, _, @UnaryText.group t w w' c hw h hw', d + 1, hd, rest, hr => by
    simp only [List.length_append, List.length_cons, List.length_nil] at hd
    have hfollows : Follows [')', '|'] (w' ++ ')' :: rest) := .cons hw' (by decide)
    have hor : Reads (disjunction (unary d)) (t ++ (w' ++ ')' :: rest)) (.ok c) (w' ++ ')' :: rest) :=
      (reads_or h (by omega) hfollows).reads (refuses_another hw' (by decide) (by decide))
    have hgroup : Reads (group (unary d)) ('(' :: (w ++ (t ++ (w' ++ ')' :: rest)))) (.ok c) rest :=
      Reads.rule _ ((reads_text ['('] _).bind ((reads_blanks hw (h.starts.head _)).bind (hor.bind
        ((reads_blanks_cons hw' (by decide)).bind ((reads_text [')'] rest).bind
          (reads_pure _ rest))))))
    have hnegation : Refuses (negation (unary d)) ('(' :: (w ++ (t ++ (w' ++ ')' :: rest)))) :=
      Refuses.rule _ (Refuses.bind (refuses_text (by simp)))
    have hread : Reads (unary (d + 1)) _ _ _ := hnegation.or_right hgroup.or_left
    simpa using hread
  | _, _, @UnaryText.compare t u v w w' a b op h hw ho hw' h', 0, hd, _, _ => by
    have hpos := h.starts.length_pos
    simp only [List.length_append] at hd
    omega
  | _, _, @UnaryText.compare t u v w w' a b op h hw ho hw' h', d + 1, hd, rest, hr => by
    simp only [List.length_append] at hd
    have hop := OperatorText.compare ho
    obtain ⟨left, hleft, ha⟩ := reads_operand h (d := d) (by omega) (hop.ends hw (w' ++ (u ++ rest)))
    obtain ⟨side, hright, hb⟩ := reads_operand h' (d := d) (by omega) hr.ends
    have hmeaning : comparisonMeaning left (some op) (.side side) = .ok (.compare a op b) :=
      bind_eq_ok.2 ⟨a, ha, bind_eq_ok.2 ⟨b, hb, rfl⟩⟩
    have hstart : Starts (fun c => isBlank c = false ∧ c ≠ '=') u :=
      h'.starts.mono fun c hc => ⟨hc.1, fun heq => hc.2 (by rw [heq]; decide)⟩
    have hread : Reads (unary (d + 1)) _ _ _ := reads_unaryOf_comparison h
      (reads_comparison hleft hw hop hw' hstart (reads_right_operand h' hright) hmeaning)
    simpa using hread
  | _, _, @UnaryText.like t u w w' a p h hw hw' h', 0, hd, _, _ => by
    have hpos := h.starts.length_pos
    simp only [List.length_append] at hd
    omega
  | _, _, @UnaryText.like t u w w' a p h hw hw' h', d + 1, hd, rest, hr => by
    simp only [List.length_append] at hd
    obtain ⟨left, hleft, ha⟩ :=
      reads_operand h (d := d) (by omega) (OperatorText.like.ends hw (w' ++ (u ++ rest)))
    obtain ⟨side, hright, hmeaning⟩ := reads_right_pattern (r := unary d) h' hr.ends.name
    have hread : Reads (unary (d + 1)) _ _ _ := reads_unaryOf_comparison h
      (reads_comparison hleft hw .like hw' h'.starts hright (hmeaning left a ha))
    simpa using hread
  | _, _, @UnaryText.present t a h, 0, hd, _, _ => absurd h.starts.length_pos (by omega)
  | _, _, @UnaryText.present t a h, d + 1, hd, rest, hr =>
    reads_unaryOf_existence h (reads_query h hd hr.ends) hr

theorem reads_operand : ∀ {t : List Char} {a : Operand}, OperandText t a → ∀ {d : Nat},
    t.length ≤ d + 1 → ∀ {rest : List Char}, Ends rest →
      ∃ side, Reads (operand (unary d)) (t ++ rest) side rest ∧ side.operand = .ok a
  | _, _, .query h, d, hd, rest, hr => ⟨_, reads_operand_query (reads_query h hd hr), rfl⟩
  | _, _, .literal h, d, hd, rest, hr => by
    obtain ⟨side, hread, hside⟩ := reads_literal h hr
    exact ⟨side, reads_operand_literal h hread, hside⟩

theorem reads_query : ∀ {t : List Char} {a : Operand}, QueryText t a → ∀ {d : Nat},
    t.length ≤ d + 1 → ∀ {rest : List Char}, Ends rest →
      Reads (query (unary d)) (t ++ rest) (.ok a) rest
  | _, _, .current h, d, hd, rest, hr => by
    obtain ⟨sss, rfl, hmany⟩ := reads_segments h (Nat.le_of_succ_le_succ hd) hr
    exact reads_query_current (reads_segments_of hmany)
  | _, _, .root h, d, hd, rest, hr => by
    obtain ⟨sss, rfl, hmany⟩ := reads_segments h (Nat.le_of_succ_le_succ hd) hr
    exact reads_query_root (reads_segments_of hmany)

end

/-- From a text that spells a path, that path is read. -/
theorem ofChars_of_pathText {cs : List Char} {p : Path} (h : PathText cs p) :
    Path.ofChars cs = .ok p := by
  obtain ⟨h⟩ := h
  next t =>
  have hends : Ends [] := by simp [Ends]
  obtain ⟨sss, rfl, hmany⟩ := reads_segments h (d := t.length + 1 + 1) (by omega) hends
  have hsegments : Reads (segments (unary (t.length + 1 + 1))) (t ++ []) (.ok sss.flatten) [] :=
    reads_segments_of hmany
  have hend : Reads (Reader.rule .endOfText atEnd) [] () [] := fun o => ⟨o, by rw [result_rule]; rfl⟩
  have hpath : Reads (path (t.length + 1 + 1)) ('$' :: (t ++ [])) (.ok sss.flatten) [] := by
    refine Reads.rule _ (((reads_text ['$'] (t ++ [])).rule .root).bind (Reads.bind hsegments ?_))
    exact hend.bind (reads_pure _ [])
  rw [List.append_nil] at hpath
  obtain ⟨o, ho⟩ := hpath 0
  rw [Path.ofChars]
  simp only [List.length_cons, ho]

end JsonSpan.Spelling

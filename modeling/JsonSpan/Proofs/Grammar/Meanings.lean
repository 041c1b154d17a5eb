import JsonSpan.Path.Grammar
import JsonSpan.Proofs.Grammar.Selectors

/-!
# Errors of the grammar

Of a text that does not fit, the grammar says what it expected at a place in the text; of one that
fits, it says which part of the text fails to denote something. So all that an error of the grammar
names stands in the text (`Path.ofChars_concerns`). That a delimiter is left open is an error of the
matching of delimiters alone (`Path.ofChars_notUnclosed`).
-/

namespace JsonSpan

open Spelling

/-- Whether an error is that of delimiters left open. -/
def PathError.IsUnclosed : PathError → Prop
  | .openBracket _ | .openFilter _ => True
  | _ => False

/-- An error of the grammar about a text: something was expected at an offset in the text, or a part of
the text denotes nothing. -/
inductive PathError.Concerns (t : List Char) : PathError → Prop where
  | expected {rules : List Rule} {offset : Nat} (hne : rules ≠ []) (hle : offset ≤ Utf8.size t) :
    Concerns t (.expected (rules.map Rule.title) offset)
  | integerRange {negative : Bool} {ds : List Char} {i : Int} (hne : ds ≠ [])
    (hds : ∀ c ∈ ds, c.isDigit) (hpart : (if negative then '-' :: ds else ds) <:+: t)
    (hi : i = if negative then -(Decimal.ofDigits ds : Int) else Decimal.ofDigits ds)
    (hrange : ¬ (Int64.minValue.toInt ≤ i ∧ i ≤ Int64.maxValue.toInt)) :
    Concerns t (.integerRange (String.ofList (if negative then '-' :: ds else ds)))
  | escape {close : Char} {body : List Char} {fault : EscapeFault} (hq : close = '"' ∨ close = '\'')
    (h : Body close body) (hpart : close :: body ++ [close] <:+: t)
    (hfault : Escape.decode body = .error fault) : Concerns t (.escape fault)
  | patternExpected {found : List Char} (h : found <:+: t) :
    Concerns t (.patternExpected (String.ofList found))
  | strayPattern {found : List Char} (h : found <:+: t) :
    Concerns t (.strayPattern (String.ofList found))
  | fieldName {name : List Char} (h : name <:+: t) : Concerns t (.fieldName (String.ofList name))
  | zeroStep : Concerns t .zeroStep
  | pattern (fault : PatternFault) : Concerns t (.pattern fault)

/-! ### Places and notes -/

/-- A place in a text. -/
def TextPlace.IsIn (t : List Char) (p : TextPlace) : Prop :=
  ∃ before, t = before ++ p.rest ∧ p.offset = Utf8.size before

/-- A note of a place in a text. Only at its start there may be nothing noted. -/
structure Furthest.IsIn (t : List Char) (f : Furthest) : Prop where
  le : f.offset ≤ Utf8.size t
  rules : f.rules = [] → f.offset = 0

theorem TextPlace.IsIn.le {t : List Char} {p : TextPlace} (h : p.IsIn t) : p.offset ≤ Utf8.size t := by
  obtain ⟨before, rfl, hp⟩ := h
  rw [hp, Utf8.size_append]
  exact Nat.le_add_right _ _

theorem TextPlace.IsIn.drop {t u : List Char} {p q : TextPlace} (h : p.IsIn t)
    (hrest : p.rest = u ++ q.rest) (hoffset : q.offset = p.offset + Utf8.size u) : q.IsIn t := by
  obtain ⟨before, rfl, hp⟩ := h
  refine ⟨before ++ u, by rw [hrest, List.append_assoc], ?_⟩
  rw [hoffset, hp, Utf8.size_append]

namespace Furthest

theorem isIn_none (t : List Char) : none.IsIn t :=
  ⟨Nat.zero_le _, fun _ => rfl⟩

theorem rules_fail {before after : Furthest} {which : Rule} {offset : Nat}
    (h : after.rules = [] → after.offset = 0) : (fail before after which offset).rules ≠ [] := by
  unfold fail
  split
  · next hcount =>
    intro hrules
    simp only [countAt, hrules] at hcount
    split at hcount <;> simp at hcount
  · split
    · simp
    · split
      · simp
      · intro hrules
        have := h hrules
        omega

theorem IsIn.fail {t : List Char} {before after : Furthest} {which : Rule} {offset : Nat}
    (h : after.IsIn t) (hoffset : offset ≤ Utf8.size t) : (fail before after which offset).IsIn t := by
  refine ⟨?_, fun hrules => absurd hrules (rules_fail h.rules)⟩
  unfold Furthest.fail
  split
  · exact h.le
  · split
    · exact hoffset
    · split
      · exact hoffset
      · exact h.le

theorem IsIn.concerns_error {t : List Char} {f : Furthest} (h : f.IsIn t) (hrules : f.rules ≠ []) :
    f.error.Concerns t := by
  refine .expected (fun hnil => ?_) h.le
  obtain ⟨which, hwhich⟩ := List.exists_mem_of_ne_nil _ hrules
  have hall : which ∈ Rule.all := by cases which <;> decide
  have hmem : which ∈ Rule.all.filter f.rules.contains :=
    List.mem_filter.2 ⟨hall, List.contains_iff_mem.2 hwhich⟩
  rw [hnil] at hmem
  cases hmem

end Furthest

namespace Grammar

open Reader

variable {α β : Type} {t : List Char}

/-- If there is no meaning, the error is one about the text. -/
def Settled (t : List Char) (m : Meaning α) : Prop :=
  FailsOnly (PathError.Concerns t) m

theorem settled_error {e : PathError} (h : e.Concerns t) : Settled t (.error e : Meaning α) := by
  intro e' he
  cases he
  exact h

/-! ### What readers give -/

/-- In a text the reader stays, so do its notes, and what it gives has a property. -/
structure Yields (t : List Char) (r : Reader α) (P : α → Prop) : Prop where
  note : ∀ p, p.IsIn t → ∀ f, f.IsIn t → ((r p).note f).IsIn t
  result : ∀ p, p.IsIn t → ∀ a q, (r p).result = some (a, q) → q.IsIn t ∧ P a

namespace Yields

variable {r s : Reader α} {P : α → Prop} {Q : β → Prop}

theorem mono {P' : α → Prop} (h : Yields t r P) (hP : ∀ a, P a → P' a) : Yields t r P' :=
  ⟨h.note, fun p hp a q ha => ⟨(h.result p hp a q ha).1, hP a (h.result p hp a q ha).2⟩⟩

theorem pure {a : α} (h : P a) : Yields t (Pure.pure a) P := by
  refine ⟨fun _ _ _ hf => hf, fun p hp b q hb => ?_⟩
  cases hb
  exact ⟨hp, h⟩

theorem fail : Yields t fail P :=
  ⟨fun _ _ _ hf => hf, nofun⟩

theorem bind {f : α → Reader β} (h : Yields t r P) (h' : ∀ a, P a → Yields t (f a) Q) :
    Yields t (r >>= f) Q := by
  constructor
  · intro p hp g hg
    have hnote := h.note p hp g hg
    have hresult := h.result p hp
    show ((Reader.bind r f p).note g).IsIn t
    unfold Reader.bind
    generalize r p = x at hnote hresult ⊢
    obtain ⟨result, note⟩ := x
    cases result with
    | none => exact hnote
    | some x =>
      obtain ⟨hq, hP⟩ := hresult x.1 x.2 rfl
      exact (h' x.1 hP).note x.2 hq _ hnote
  · intro p hp b q hb
    rw [result_bind, Option.bind_eq_some_iff] at hb
    obtain ⟨⟨a, p'⟩, ha, hb⟩ := hb
    obtain ⟨hp', hP⟩ := h.result p hp a p' ha
    exact (h' a hP).result p' hp' b q hb

theorem skip {f : α → Reader β} (h : Yields t r P) (h' : ∀ a, Yields t (f a) Q) :
    Yields t (r >>= f) Q :=
  bind h fun a _ => h' a

theorem or (h : Yields t r P) (h' : Yields t s P) : Yields t (Reader.or r s) P := by
  constructor
  · intro p hp g hg
    have hnote := h.note p hp g hg
    unfold Reader.or
    generalize r p = x at hnote ⊢
    obtain ⟨result, note⟩ := x
    cases result with
    | none => exact h'.note p hp _ hnote
    | some x => exact hnote
  · intro p hp a q ha
    rw [result_or, Option.or_eq_some_iff] at ha
    rcases ha with ha | ⟨_, ha⟩
    · exact h.result p hp a q ha
    · exact h'.result p hp a q ha

theorem rule (which : Rule) (h : Yields t r P) : Yields t (Reader.rule which r) P := by
  constructor
  · intro p hp g hg
    have hnote := h.note p hp g hg
    unfold Reader.rule
    generalize r p = x at hnote ⊢
    obtain ⟨result, note⟩ := x
    cases result with
    | none => exact hnote.fail hp.le
    | some x => exact hnote
  · intro p hp a q ha
    rw [result_rule] at ha
    exact h.result p hp a q ha

theorem rules_rule (h : Yields t r P) (which : Rule) {p : TextPlace} (hp : p.IsIn t)
    (hfailed : (Reader.rule which r p).result = none) {f : Furthest} (hf : f.IsIn t) :
    ((Reader.rule which r p).note f).rules ≠ [] := by
  have hnote := h.note p hp f hf
  rw [result_rule] at hfailed
  unfold Reader.rule
  generalize r p = x at hnote hfailed ⊢
  obtain ⟨result, note⟩ := x
  obtain rfl : result = none := hfailed
  exact Furthest.rules_fail hnote.rules

theorem optional (h : Yields t r P) : Yields t (Reader.optional r) fun o => ∀ a ∈ o, P a :=
  or (bind h fun _ ha => pure fun _ ha' => Option.some.inj ha' ▸ ha) (pure nofun)

theorem withText (h : Yields t r P) : Yields t (Reader.withText r) fun x => P x.1 ∧ x.2 <:+: t := by
  refine ⟨h.note, fun p hp x q hx => ?_⟩
  rw [result_withText] at hx
  obtain ⟨⟨a, q'⟩, ha, hq⟩ := Option.map_eq_some_iff.1 hx
  cases hq
  obtain ⟨hq, hP⟩ := h.result p hp a q' ha
  obtain ⟨before, hbefore, -⟩ := hp
  refine ⟨hq, hP, ?_⟩
  rw [hbefore]
  exact (List.take_prefix _ _).isInfix.trans (List.suffix_append _ _).isInfix

theorem upTo (h : Yields t r P) (n : Nat) : Yields t (Reader.upTo r n) fun as => ∀ a ∈ as, P a := by
  induction n with
  | zero => exact pure (List.forall_mem_nil P)
  | succ n ih =>
    exact or (bind h fun a ha => bind ih fun as has => pure (List.forall_mem_cons.2 ⟨ha, has⟩))
      (pure (List.forall_mem_nil P))

theorem many (h : Yields t r P) : Yields t (Reader.many r) fun as => ∀ a ∈ as, P a :=
  ⟨fun p => (h.upTo p.rest.length).note p, fun p => (h.upTo p.rest.length).result p⟩

theorem taken {S : List Char → α → Prop} (h : Yields t r P) (hS : Takes r S) :
    Yields t r fun a => ∃ u, u <:+: t ∧ S u a := by
  refine ⟨h.note, fun p hp a q ha => ⟨(h.result p hp a q ha).1, ?_⟩⟩
  obtain ⟨u, hu, hSu⟩ := hS p a q ha
  obtain ⟨before, hbefore, -⟩ := hp
  exact ⟨u, ⟨before, q.rest, by rw [hbefore, hu, List.append_assoc]⟩, hSu⟩

end Yields

theorem yields_of_takes {r : Reader α} (hnote : ∀ p, (r p).note = id)
    (h : ∀ p a q, (r p).result = some (a, q) →
      ∃ u, p.rest = u ++ q.rest ∧ q.offset = p.offset + Utf8.size u) :
    Yields t r fun _ => True := by
  refine ⟨fun p _ f hf => by rwa [hnote], fun p hp a q ha => ⟨?_, trivial⟩⟩
  obtain ⟨u, hu, hoffset⟩ := h p a q ha
  exact hp.drop hu hoffset

theorem yields_char (accept : Char → Bool) : Yields t (char accept) fun _ => True := by
  refine yields_of_takes ?_ ?_
  · rintro ⟨o, cs⟩
    unfold char
    cases cs with
    | nil => rfl
    | cons c cs =>
      dsimp only
      split <;> rfl
  · rintro ⟨o, cs⟩ a q ha
    cases cs with
    | nil => cases ha
    | cons c cs =>
      rw [result_char_cons] at ha
      split at ha
      · cases ha
        exact ⟨[_], rfl, rfl⟩
      · cases ha

theorem yields_taking {front : List Char → List Char} (h : ∀ cs, front cs <+: cs) :
    Yields t (taking front) fun _ => True := by
  refine yields_of_takes (fun _ => rfl) fun p a q ha => ?_
  cases ha
  exact ⟨_, (List.prefix_iff_eq_append.1 (h p.rest)).symm, rfl⟩

theorem yields_run (accept : Char → Bool) : Yields t (run accept) fun _ => True :=
  yields_taking fun _ => List.takeWhile_prefix accept

theorem yields_text (cs : List Char) : Yields t (text cs) fun _ => True := by
  induction cs with
  | nil => exact .pure trivial
  | cons c cs ih => exact .skip (yields_char _) fun _ => ih

theorem yields_blanks : Yields t blanks fun _ => True :=
  .skip (yields_run _) fun _ => .pure trivial

theorem yields_atEnd : Yields t atEnd fun _ => True := by
  refine yields_of_takes ?_ fun p a q ha => ?_
  · intro p
    unfold atEnd
    split <;> rfl
  · unfold atEnd at ha
    split at ha
    · cases ha
      exact ⟨[], rfl, rfl⟩
    · cases ha

theorem yields_digits : Yields t digits fun _ => True :=
  .skip (yields_char _) fun _ => .skip (yields_run _) fun _ => .pure trivial

theorem yields_numeral : Yields t numeral fun _ => True := by
  have hwhole : Yields t whole fun _ => True :=
    .or (yields_text _) (.skip (yields_char _) fun _ => .skip (yields_run _) fun _ => .pure trivial)
  have hfraction : Yields t fraction _ := .optional (.skip (yields_text _) fun _ => yields_digits)
  have hexponent : Yields t exponent _ := .optional (.skip (yields_char _) fun _ =>
    .skip (.optional (yields_char _)) fun _ => yields_digits)
  rw [numeral_eq]
  exact .skip (.optional (yields_char _)) fun _ => .skip hwhole fun _ => .skip hfraction fun _ =>
    .skip hexponent fun _ => .pure trivial

/-! ### Meanings -/

namespace Settled

theorem inOrder {ms : List (Meaning α)} (h : ∀ m ∈ ms, Settled t m) : Settled t (inOrder ms) := by
  induction ms with
  | nil => exact .ok []
  | cons m ms ih =>
    obtain ⟨hm, hms⟩ := List.forall_mem_cons.1 h
    exact .bind hm fun _ _ => .bind (ih hms) fun _ _ => .ok _

theorem optionally {o : Option (Meaning α)} (h : ∀ m ∈ o, Settled t m) :
    Settled t (optionally o) := by
  cases o with
  | none => exact .ok none
  | some m => exact (h m rfl).map

theorem sliceMeaning {start stop step : Option (Meaning Int64)} (hstart : ∀ m ∈ start, Settled t m)
    (hstop : ∀ m ∈ stop, Settled t m) (hstep : ∀ m ∈ step, Settled t m) :
    Settled t (sliceMeaning start stop step) := by
  refine .bind (optionally hstart) fun _ _ => .bind (optionally hstop) fun _ _ =>
    .bind (optionally hstep) fun _ _ => ?_
  split
  · exact settled_error .zeroStep
  · exact .ok _

theorem patternMeaning (source flags : String) : Settled t (patternMeaning source flags) := by
  rw [Grammar.patternMeaning]
  split
  · exact .ok _
  · exact settled_error (.pattern _)

end Settled

/-- The meaning in a side. -/
def Side.Settled (t : List Char) : Side → Prop
  | .string value => Grammar.Settled t value
  | .other text value => text <:+: t ∧ Grammar.Settled t value

/-- The meaning in a right side, if there is one. -/
def RightSide.Settled (t : List Char) : RightSide → Prop
  | .regex text _ _ => text <:+: t
  | .side value => value.Settled t

theorem Side.Settled.operand {side : Side} (h : side.Settled t) : Grammar.Settled t side.operand := by
  cases side with
  | string value => exact FailsOnly.map h
  | other text value => exact h.2

theorem Settled.comparisonMeaning {left : Side} {op : Option Comparison} {right : RightSide}
    (hl : left.Settled t) (hr : right.Settled t) : Settled t (comparisonMeaning left op right) := by
  refine .bind hl.operand fun _ _ => ?_
  match op, right with
  | none, .regex _ source flags => exact .bind (patternMeaning _ _) fun _ _ => .ok _
  | none, .side (.string value) =>
    exact .bind hr fun _ _ => .bind (patternMeaning _ _) fun _ _ => .ok _
  | none, .side (.other text value) => exact settled_error (.patternExpected hr.1)
  | some _, .regex text source flags => exact settled_error (.strayPattern hr)
  | some op, .side right => exact .bind (Side.Settled.operand hr) fun _ _ => .ok _

/-! ### Tokens and selectors -/

theorem yields_fieldName : Yields t fieldName (Settled t) := by
  have hany : Yields t fieldName fun _ => True :=
    .rule _ (.skip (yields_char _) fun _ => .skip (yields_run _) fun _ => .pure trivial)
  refine (hany.taken takes_fieldMeaning).mono ?_
  rintro _ ⟨u, hu, rfl⟩
  rw [fieldMeaning]
  split
  · exact .ok _
  · exact settled_error (.fieldName hu)

theorem yields_wildcard : Yields t wildcard (Settled t) :=
  .rule _ (.skip (yields_text _) fun _ => .pure (.ok _))

theorem yields_integer : Yields t integer (Settled t) := by
  have hany : Yields t integer fun _ => True :=
    .rule _ (.skip (.optional (yields_char _)) fun _ => .skip (yields_char _) fun _ =>
      .skip (yields_run _) fun _ => .pure trivial)
  refine (hany.taken takes_integerMeaning).mono ?_
  rintro _ ⟨_, hu, negative, ds, rfl, hne, hds, rfl⟩
  exact iteInduction (motive := Settled t) (fun _ => .ok _) fun hrange =>
    settled_error (.integerRange hne hds hu rfl hrange)

theorem yields_string : Yields t string (Settled t) := by
  have hquoted (close : Char) : Yields t (quoted close) fun _ => True :=
    .skip (yields_text _) fun _ => .skip (yields_taking fun cs => (prefix_stringBody close cs).1)
      fun _ => .skip (yields_text _) fun _ => .pure trivial
  have hany : Yields t string fun _ => True := .rule _ (.or (hquoted _) (hquoted _))
  refine (hany.taken takes_stringMeaning).mono ?_
  rintro _ ⟨_, hu, close, body, hq, hbody, rfl, rfl⟩
  rw [stringMeaning]
  split
  · exact .ok _
  · next fault hfault =>
    exact settled_error (.escape hq hbody hu hfault)

theorem yields_number : Yields t number (Settled t) :=
  .rule _ (.skip yields_numeral.withText fun _ => .pure (.ok _))

theorem yields_name : Yields t name (Settled t) :=
  .rule _ (.bind yields_string fun _ h => .pure h.map)

theorem yields_index : Yields t index (Settled t) :=
  .rule _ (.bind yields_integer fun _ h => .pure h.map)

theorem yields_bound (which : Rule) : Yields t (bound which) fun o => ∀ m ∈ o, Settled t m :=
  .optional (.rule _ yields_integer)

theorem yields_slice : Yields t slice (Settled t) := by
  have hstep : Yields t (optional do
      text [':']
      blanks
      bound .sliceStep) fun o => ∀ m ∈ o, ∀ m' ∈ m, Settled t m' :=
    .optional (.skip (yields_text _) fun _ => .skip yields_blanks fun _ => yields_bound _)
  refine .rule _ (.bind (yields_bound _) fun start hstart => .skip yields_blanks fun _ =>
    .skip (yields_text _) fun _ => .skip yields_blanks fun _ => .bind (yields_bound _)
      fun stop hstop => .skip yields_blanks fun _ => .bind hstep fun step h =>
        .pure (.sliceMeaning hstart hstop ?_))
  cases step with
  | none => exact nofun
  | some m => exact h m rfl

theorem yields_another (sign : List Char) {part : Reader (Meaning α)}
    (h : Yields t part (Settled t)) : Yields t (another sign part) (Settled t) :=
  .skip yields_blanks fun _ => .skip (yields_text _) fun _ => .skip yields_blanks fun _ => h

theorem yields_union : Yields t union (Settled t) := by
  have hmember : Yields t member (Settled t) := .or yields_name yields_index
  have hanother := yields_another [','] hmember
  rw [union_eq]
  exact .rule _ (.bind hmember fun first h₁ => .bind hanother fun second h₂ =>
    .bind hanother.many fun more h => .pure (FailsOnly.map
      (Settled.inOrder (List.forall_mem_cons.2 ⟨h₁, List.forall_mem_cons.2 ⟨h₂, h⟩⟩))))

theorem yields_literal : Yields t literal (Side.Settled t) := by
  have hconstant {r : Reader (Meaning Literal)} (hr : Yields t r (Settled t)) :
      Yields t (constant r) (Side.Settled t) :=
    .bind hr.withText fun _ h => .pure ⟨h.2, h.1.map⟩
  have hword (which : Rule) (name : String) (value : Literal) :
      Yields t (word which name value) (Settled t) :=
    .rule _ (.skip (yields_text _) fun _ => .pure (.ok _))
  exact .or (hconstant yields_number) (.or (.bind yields_string fun _ h => .pure h)
    (.or (hconstant (hword _ _ _)) (.or (hconstant (hword _ _ _)) (hconstant (hword _ _ _)))))

theorem yields_operator : Yields t operator fun _ => True := by
  have hsign (cs : List Char) (op : Option Comparison) : Yields t (sign cs op) fun _ => True :=
    .skip (yields_text _) fun _ => .pure trivial
  rw [operator_eq]
  exact .rule _ (.or (hsign _ _) (.or (hsign _ _) (.or (hsign _ _) (.or (hsign _ _)
    (.or (hsign _ _) (.or (hsign _ _) (hsign _ _)))))))

theorem yields_regex : Yields t regex (RightSide.Settled t) := by
  have hbody (cs : List Char) : regexBody cs <+: cs := by
    obtain ⟨rest, hrest, -⟩ := prefix_regexBody cs
    exact ⟨rest, hrest.symm⟩
  have hparts : Yields t regexParts fun _ => True :=
    .skip (yields_text _) fun _ => .skip (yields_taking hbody) fun _ => .skip (yields_text _) fun _ =>
      .skip (yields_run _) fun _ => .pure trivial
  rw [regex_eq]
  exact .rule _ (.bind hparts.withText fun _ h => .pure h.2)

/-! ### Conditions and paths -/

section

variable {unary : Reader (Meaning Condition)} (h : Yields t unary (Settled t))

theorem yields_chain (which : Rule) (sign : List Char) (join : Condition → Condition → Condition)
    {part : Reader (Meaning Condition)} (h : Yields t part (Settled t)) :
    Yields t (chain which sign join part) (Settled t) :=
  .rule _ (.bind h fun _ hfirst => .bind (yields_another sign h).many fun _ hmore =>
    .pure (.bind hfirst fun _ _ => .bind (Settled.inOrder hmore) fun _ _ => .ok _))

include h

theorem yields_disjunction : Yields t (disjunction unary) (Settled t) :=
  yields_chain _ _ _ (yields_chain _ _ _ h)

theorem yields_filter : Yields t (filter unary) (Settled t) :=
  .rule _ (.skip (yields_text _) fun _ => .skip yields_blanks fun _ => .skip (yields_text _) fun _ =>
    .skip yields_blanks fun _ => .bind (yields_disjunction h) fun _ hc => .skip yields_blanks fun _ =>
      .skip (yields_text _) fun _ => .pure hc.map)

theorem yields_selector : Yields t (selector unary) (Settled t) := by
  have halone {r : Reader (Meaning Selector)} (hr : Yields t r (Settled t)) : Yields t (do
      return (← r).map selectorSegment) (Settled t) :=
    .bind hr fun _ hm => .pure hm.map
  exact .or (yields_filter h) (.or yields_union (.or yields_slice (.or yields_wildcard
    (.or (halone yields_index) (halone yields_name)))))

theorem yields_bracket : Yields t (bracket unary) (Settled t) :=
  .rule _ (.skip (yields_text _) fun _ => .skip yields_blanks fun _ => .bind (yields_selector h)
    fun _ hs => .skip yields_blanks fun _ => .skip (yields_text _) fun _ => .pure hs)

theorem yields_segments : Yields t (segments unary) (Settled t) := by
  have hdescendant : Yields t (descendant unary) (Settled t) :=
    .rule _ (.skip (yields_text _) fun _ => .bind (.or yields_wildcard (.or yields_fieldName
      (yields_bracket h))) fun _ hs => .pure hs.map)
  have hchild : Yields t child (Settled t) :=
    .rule _ (.skip (yields_text _) fun _ => .bind (.or yields_wildcard yields_fieldName)
      fun _ hs => .pure hs.map)
  have hsegment : Yields t (segment unary) (Settled t) :=
    .or hdescendant (.or hchild (.bind (yields_bracket h) fun _ hs => .pure hs.map))
  exact .bind hsegment.many fun _ hms => .pure (FailsOnly.map (Settled.inOrder hms))

theorem yields_query : Yields t (query unary) (Settled t) := by
  have hstart (which : Rule) (sign : Char) (operand : List Segment → Operand) :
      Yields t (rule which do
        text [sign]
        return (← segments unary).map operand) (Settled t) :=
    .rule _ (.skip (yields_text _) fun _ => .bind (yields_segments h) fun _ hm => .pure hm.map)
  exact .or (hstart _ _ _) (hstart _ _ _)

theorem yields_operand : Yields t (operand unary) (Side.Settled t) :=
  .or (.bind (yields_query h).withText fun _ hm => .pure ⟨hm.2, hm.1⟩) yields_literal

theorem yields_comparison : Yields t (comparison unary) (Settled t) :=
  .rule _ (.bind (yields_operand h) fun _ hl => .skip yields_blanks fun _ => .skip yields_operator
    fun _ => .skip yields_blanks fun _ => .bind (.or yields_regex (.bind (yields_operand h)
      fun _ hr => .pure hr)) fun _ hr => .pure (.comparisonMeaning hl hr))

theorem yields_unaryOf : Yields t (unaryOf unary) (Settled t) := by
  have hnegation : Yields t (negation unary) (Settled t) :=
    .rule _ (.skip (yields_text _) fun _ => .skip yields_blanks fun _ => .bind h fun _ hm =>
      .pure hm.map)
  have hgroup : Yields t (group unary) (Settled t) :=
    .rule _ (.skip (yields_text _) fun _ => .skip yields_blanks fun _ =>
      .bind (yields_disjunction h) fun _ hm => .skip yields_blanks fun _ =>
        .skip (yields_text _) fun _ => .pure hm)
  have hexistence : Yields t (existence unary) (Settled t) :=
    .rule _ (.bind (yields_query h) fun _ hm => .pure hm.map)
  exact .or hnegation (.or hgroup (.or (yields_comparison h) hexistence))

end

theorem yields_unary (depth : Nat) : Yields t (unary depth) (Settled t) := by
  induction depth with
  | zero => exact .fail
  | succ depth ih => exact yields_unaryOf ih

/-- What a whole path is read by, which makes no rule of it. -/
def wholePath (depth : Nat) : Reader (Meaning Path) := do
  rule .root (text ['$'])
  let path ← segments (unary depth)
  rule .endOfText atEnd
  return path

theorem path_eq (depth : Nat) : path depth = rule .path (wholePath depth) :=
  rfl

theorem yields_wholePath (depth : Nat) : Yields t (wholePath depth) (Settled t) :=
  .skip (.rule _ (yields_text _)) fun _ => .bind (yields_segments (yields_unary depth)) fun _ hm =>
    .skip (.rule _ yields_atEnd) fun _ => .pure hm

end Grammar

/-- The errors of the grammar are about the text. -/
theorem Path.ofChars_concerns (cs : List Char) : FailsOnly (PathError.Concerns cs) (Path.ofChars cs) := by
  have hstart : TextPlace.IsIn cs ⟨0, cs⟩ := ⟨[], rfl, rfl⟩
  have hwhole := Grammar.yields_wholePath (t := cs) (cs.length + 1)
  unfold Path.ofChars
  rw [Grammar.path_eq]
  dsimp only
  split
  · next meaning q hresult => exact ((hwhole.rule .path).result _ hstart meaning q hresult).2
  · next hfailed =>
    have hstarted := Furthest.isIn_none cs
    have hnote := (hwhole.rule .path).note _ hstart _ hstarted
    exact Grammar.settled_error (hnote.concerns_error
      (hwhole.rules_rule .path hstart hfailed hstarted))

/-- The grammar never reports that a delimiter is left open. -/
theorem Path.ofChars_notUnclosed (cs : List Char) :
    FailsOnly (fun e => ¬ e.IsUnclosed) (Path.ofChars cs) := by
  refine (ofChars_concerns cs).mono fun e he => ?_
  cases he <;> exact id

end JsonSpan

import JsonSpan.Proofs.Printing.Reparsing
import JsonSpan.Proofs.Query.Composition
import JsonSpan.Proofs.Strings.Codecs

/-!
# Filters for a text

The strings of a document, the strings of paths and the canonical quoted form are three ways to write
a text, and they agree (`StringToken.codecs_agree`): a string of a document can be put into a path as
it stands, and a text that is quoted for a path is a string of a document. So a filter that compares
with either of them picks just the strings that have the same text.
-/

namespace JsonSpan

open Spelling

/-! ### Comparing texts -/

theorem Text.compareChars_eq {a b : List Char} : compareChars a b = .eq ↔ a = b := by
  induction a generalizing b with
  | nil => cases b <;> simp [compareChars]
  | cons c a ih =>
    cases b with
    | nil => simp [compareChars]
    | cons d b =>
      rw [compareChars, Ordering.then_eq_eq, ih, compare_eq_iff_eq, Char.toNat_inj, List.cons.injEq]

/-- A span of a document holds a string with this text. -/
def Span.hasText (doc : Bytes) (t : List Char) (s : Span) : Bool :=
  (Place.ofOffset doc s.start).kind? == some .string && StringToken.decode (s.slice doc) == some t

/-- The condition that a child is a string with this text. -/
def Condition.isText (t : List Char) : Condition :=
  .compare (.current []) .equal (.literal (.string (String.ofList t)))

theorem Scalar.comparesBoth_text (kind : Kind) (bytes : Bytes) (t : List Char) :
    comparesBoth (ofBytes kind bytes) .equal (some (.text t)) =
      (some kind == some .string && StringToken.decode bytes == some t) := by
  cases kind with
  | string =>
    rw [ofBytes]
    cases StringToken.decode bytes with
    | none => rfl
    | some cs =>
      show (Text.compareChars cs t == .eq) = (true && (some cs == some t))
      rw [Bool.true_and, Bool.eq_iff_iff, beq_iff_eq, beq_iff_eq, Text.compareChars_eq, Option.some_inj]
  | object | array | number | boolean | null => rfl

theorem Condition.result_test_isText {doc : Bytes} {s : Span} (hs : s.IsExtent doc) (root : Span)
    (t : List Char) : ((isText t).test ⟨doc, root⟩ s).result = .ok (s.hasText doc t) := by
  obtain ⟨k, hk⟩ := hs.exists_kind
  have hk? := Place.kind?_of_kind hk
  have hscalar : Scalar.ofSpan doc s = .ok (Scalar.ofBytes k (s.slice doc)) := by
    rw [Scalar.ofSpan, hk]
    rfl
  rw [isText, result_test_compare, Operand.result_resolve_current, Segment.result_stepAll_nil,
    Operand.result_resolve_literal]
  show (Scalar.ofSpan doc s >>= fun a => .ok (Scalar.comparesBoth a .equal _)) = _
  rw [hscalar, Span.hasText, hk?, ← Scalar.comparesBoth_text, Scalar.ofLiteral, String.toList_ofList]
  rfl

/-! ### Picking siblings -/

theorem pick_ok {ε α : Type} (test : α → Bool) (as : List α) :
    pick (fun a => .ok (test a)) as = (.ok (as.filter test) : Except ε (List α)) := by
  induction as with
  | nil => rfl
  | cons a as ih =>
    rw [pick, ih, List.filter_cons]
    rfl

/-- The siblings below a value that are strings with this text. -/
def siblingsWithText (doc : Bytes) (t : List Char) (parent : Span) : Except Fault (List Span) := do
  let siblings ← childValues doc parent
  return siblings.filter (Span.hasText doc t)

theorem Segment.result_step_isText {doc : Bytes} {parent : Span} (h : parent.IsExtent doc)
    (root : Span) (t : List Char) :
    ((Segment.filter (.isText t)).step ⟨doc, root⟩ parent).result = siblingsWithText doc t parent := by
  rw [Segment.result_step_filter, siblingsWithText]
  cases hc : childValues doc parent with
  | error fault => rfl
  | ok siblings =>
    have htest : ∀ s ∈ siblings,
        ((Condition.isText t).test ⟨doc, root⟩ s).result = .ok (s.hasText doc t) :=
      fun s hs => Condition.result_test_isText (isExtent_of_childValues h hc s hs) root t
    exact (pick_congr htest).trans (pick_ok _ siblings)

theorem Path.select_isText {p : Path} {doc : Bytes} {parents : List Span}
    (h : p.select doc = .ok parents) (t : List Char) :
    (p ++ [Segment.filter (.isText t)]).select doc = gather (siblingsWithText doc t) parents := by
  obtain ⟨root, hroot, hparents⟩ := Path.select_eq_ok.1 h
  have hextent : ∀ parent ∈ parents, parent.IsExtent doc :=
    isExtent_of_stepAll (List.forall_mem_singleton.2 (isExtent_of_locateRoot hroot).1) hparents
  have hstep : gather (fun s => ((Segment.filter (.isText t)).step ⟨doc, root⟩ s).result) parents =
      gather (siblingsWithText doc t) parents :=
    gather_congr fun s hs => Segment.result_step_isText (hextent s hs) root t
  rw [Path.select_eq, hroot]
  show (Segment.stepAll ⟨doc, root⟩ [root] (p ++ [Segment.filter (.isText t)])).result = _
  rw [Segment.result_stepAll_append, hparents]
  show (Segment.stepAll ⟨doc, root⟩ parents [Segment.filter (.isText t)]).result = _
  rw [Segment.result_stepAll_cons, hstep]
  cases gather (siblingsWithText doc t) parents <;> rfl

/-! ### The text of the filter -/

/-- A filter in brackets that compares each child with a constant. -/
def filterChars (constant : List Char) : List Char :=
  ['[', '?', '(', '@', ' ', '=', '=', ' '] ++ constant ++ [')', ']']

theorem Spelling.SegmentsText.append {t u : List Char} {ss ss' : List Segment}
    (h : SegmentsText t ss) (h' : SegmentsText u ss') : SegmentsText (t ++ u) (ss ++ ss') :=
  match h with
  | .nil => h'
  | .cons h more => by
    rw [List.append_assoc, List.append_assoc]
    exact .cons h (more.append h')

theorem Spelling.bracketText_filterChars {constant t : List Char}
    (h : StringText constant (String.ofList t)) :
    BracketText (filterChars constant) (.filter (.isText t)) := by
  have hcompare := UnaryText.compare (.query (.current .nil)) blank_space .equal blank_space
    (.literal (.string h))
  have hfilter := SelectorText.filter blank_nil blank_nil (.one (.one hcompare)) blank_nil
  have hbracket := BracketText.mk blank_nil hfilter blank_nil
  simpa [filterChars, Condition.isText] using hbracket

/-- Behind the text of a path, the filter is read as one more segment of it. -/
theorem Path.parse_filterChars {q : String} {p : Path} (hq : Path.parse q = .ok p)
    {constant t : List Char} (h : StringText constant (String.ofList t)) :
    Path.parse (Text.trim q ++ String.ofList (filterChars constant)) =
      .ok (p ++ [Segment.filter (.isText t)]) := by
  have hchars : (Text.trim q ++ String.ofList (filterChars constant)).toList =
      Text.trimChars q.toList ++ filterChars constant := by
    rw [String.toList_append, Text.trim, String.toList_ofList, String.toList_ofList]
  refine parse_of_pathText ?_
  rw [hchars]
  have hp := pathText_of_parse hq
  generalize Text.trimChars q.toList = cs at hp
  cases hp with
  | @mk cs _ hsegments =>
    have hink : EndsInInk ('$' :: (cs ++ filterChars constant)) := by
      have hlast := endsInInk_concat
        ('$' :: (cs ++ ['[', '?', '(', '@', ' ', '=', '=', ' '] ++ constant ++ [')'])) (c := ']') rfl
      simpa [filterChars] using hlast
    have hbracket := SegmentsText.cons (.bracket (bracketText_filterChars h)) .nil
    rw [List.append_nil] at hbracket
    rw [List.cons_append, Text.trimChars_of_endsInInk hink]
    exact .mk (hsegments.append hbracket)

/-! ### Three ways to write a text -/

/-- A string of a document is read as a whole in a path, and has its text there. Behind the text of
any path, a filter that compares with it, or with the canonical quoted form of its text, picks the
siblings with that text, from all values that the path leads to. And the canonical quoted form of any
text is skipped as one string in a document, and has the text. -/
theorem StringToken.codecs_agree :
    (∀ (doc : Bytes) (s : Span) (t : List Char), s.IsString doc → decode (s.slice doc) = some t →
      ∃ raw : List Char, s.slice doc = Utf8.encode raw ∧
        (∀ rest, Reader.Reads Grammar.string (raw ++ rest) (.ok (String.ofList t)) rest) ∧
        ∀ constant ∈ [raw, Text.quote t], ∀ (q : String) (p : Path) (parents : List Span),
          Path.parse q = .ok p → p.select doc = .ok parents →
          ∃ p', Path.parse (Text.trim q ++ String.ofList (filterChars constant)) = .ok p' ∧
            p'.select doc = gather (siblingsWithText doc t) parents) ∧
    ∀ t : List Char,
      (∀ (offset : Nat) (r : Bytes),
        (Place.mk offset (Utf8.encode (Text.quote t) ++ r)).kind? = some .string ∧
        (Place.mk offset (Utf8.encode (Text.quote t) ++ r)).skipValue =
          .ok ⟨offset + (Utf8.encode (Text.quote t)).length, r⟩) ∧
      decode (Utf8.encode (Text.quote t)) = some t := by
  refine ⟨fun doc s t hs ht => ?_, fun t => ?_⟩
  · obtain ⟨raw, hraw, htext⟩ := hs.exists_stringText ht
    have hquote : StringText (Text.quote t) (String.ofList t) := by
      have hquoted := stringText_quote (String.ofList t)
      rwa [String.toList_ofList] at hquoted
    refine ⟨raw, hraw, reads_string htext, fun constant hconstant q p parents hq hp => ?_⟩
    have hspelled : StringText constant (String.ofList t) := by
      rcases List.mem_pair.1 hconstant with rfl | rfl
      · exact htext
      · exact hquote
    exact ⟨_, Path.parse_filterChars hq hspelled, Path.select_isText hp t⟩
  · obtain ⟨hstring, hdecode⟩ := Text.decode_quote t
    refine ⟨fun offset r => ⟨?_, hstring.skipValue offset r⟩, hdecode⟩
    rw [Text.quote, encode_enclosed]
    rfl

/-- A letter and its escape are one text. -/
theorem StringToken.codecs_agree_letter :
    Span.IsString (utf8 "[\"\\u0041\",\"A\",\"b\"]") ⟨1, 9⟩ ∧
      ∃ p, Path.parse (Text.trim "$" ++ String.ofList (filterChars (Text.quote ['A']))) = .ok p ∧
        p.select (utf8 "[\"\\u0041\",\"A\",\"b\"]") = .ok [⟨1, 9⟩, ⟨10, 13⟩] := by
  have hstring : Span.IsString (utf8 "[\"\\u0041\",\"A\",\"b\"]") ⟨1, 9⟩ := by
    refine ⟨?_, rfl⟩
    rw [Span.IsExtent]
    decide +kernel
  have hroot : Path.parse "$" = .ok [] := Path.parse_of_pathText (.mk .nil)
  obtain ⟨raw, _, _, hfilter⟩ := codecs_agree.1 _ _ ['A'] hstring (by decide +kernel)
  obtain ⟨p, hp, hselect⟩ := hfilter (Text.quote ['A']) (by simp) "$" [] [⟨0, 18⟩] hroot
    (by decide +kernel)
  refine ⟨hstring, p, hp, ?_⟩
  rw [hselect]
  decide +kernel

end JsonSpan

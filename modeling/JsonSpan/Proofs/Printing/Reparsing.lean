import JsonSpan.Proofs.Grammar.Acceptance
import JsonSpan.Proofs.Printing.Unreadable

/-!
# Reading the canonical text again

The canonical text of a path that was read is read again if and only if the path can be reprinted,
that is if its numbers are finite and its patterns close with their last slash. The path that is then
read has the same text and leads to the same values in every document (`Path.parse_text`). Otherwise
the text is not that of any path: a number like `1e400` is printed as `inf`, and the source of a
pattern that is given as a string can have its slashes where no slash can be written.
-/

namespace JsonSpan

open Spelling

/-! ### No white space at the ends -/

/-- The last character, if there is one, is no white space. -/
def EndsInInk (t : List Char) : Prop :=
  ∀ c ∈ t.getLast?, Text.isWhite c = false

theorem endsInInk_append {t u : List Char} (ht : EndsInInk t) (hu : EndsInInk u) :
    EndsInInk (t ++ u) := by
  intro c hc
  rw [List.getLast?_append] at hc
  cases hlast : u.getLast? with
  | none =>
    rw [hlast] at hc
    exact ht c hc
  | some d =>
    rw [hlast] at hc
    exact hu c (hlast ▸ hc)

theorem endsInInk_concat (t : List Char) {c : Char} (hc : Text.isWhite c = false) :
    EndsInInk (t ++ [c]) := by
  intro d hd
  rw [List.getLast?_concat, Option.mem_some_iff] at hd
  rw [← hd, hc]

theorem isUpper_iff {c : Char} : c.isUpper = true ↔ 65 ≤ c.toNat ∧ c.toNat ≤ 90 := by
  show decide ('A'.val ≤ c.val ∧ c.val ≤ 'Z'.val) = true ↔ _
  rw [decide_eq_true_eq]
  exact Iff.rfl

theorem isLower_iff {c : Char} : c.isLower = true ↔ 97 ≤ c.toNat ∧ c.toNat ≤ 122 := by
  show (decide ('a'.val ≤ c.val) && decide (c.val ≤ 'z'.val)) = true ↔ _
  rw [Bool.and_eq_true, decide_eq_true_eq, decide_eq_true_eq]
  exact Iff.rfl

theorem isWhite_of_isPlainChar {c : Char} (h : isPlainChar c) : Text.isWhite c = false := by
  have hrange : 48 ≤ c.toNat ∧ c.toNat ≤ 122 := by
    change (((c.isUpper || c.isLower) || c.isDigit) || c == '_') = true at h
    rw [Bool.or_eq_true, Bool.or_eq_true, Bool.or_eq_true, isUpper_iff, isLower_iff, isDigit_iff,
      beq_iff_eq] at h
    rcases h with h | rfl
    · omega
    · decide
  simp only [Text.isWhite, Bool.or_eq_false_iff, Bool.and_eq_false_iff, decide_eq_false_iff_not,
    beq_eq_false_iff_ne]
  omega

theorem endsInInk_plain {t : List Char} (h : ∀ c ∈ t, isPlainChar c) : EndsInInk t :=
  fun c hc => isWhite_of_isPlainChar (h c (List.mem_of_getLast? hc))

theorem Segment.endsInInk_chars (s : Segment) : EndsInInk s.chars := by
  cases s with
  | field name =>
    rw [Segment.chars]
    split
    · next hname =>
      have hplain := List.all_eq_true.1 (Bool.and_eq_true_iff.1 hname).2
      exact endsInInk_append (endsInInk_concat [] (c := '.') rfl) (endsInInk_plain hplain)
    · exact endsInInk_concat _ rfl
  | wildcard => exact endsInInk_concat ['[', '*'] rfl
  | index | slice | union => exact endsInInk_concat _ rfl
  | descent => exact endsInInk_concat ['.'] rfl
  | filter condition =>
    have hclosed := endsInInk_concat (['[', '?', '('] ++ condition.chars ++ [')']) (c := ']') rfl
    rw [Segment.chars]
    simpa using hclosed

theorem Segment.endsInInk_charsAfter (afterDescent : Bool) (s : Segment) :
    EndsInInk (s.charsAfter afterDescent) := by
  have hchars := Segment.endsInInk_chars s
  match s with
  | .field name =>
    rw [Segment.charsAfter]
    split
    · next hname =>
      have hplain := (Bool.and_eq_true_iff.1 (Bool.and_eq_true_iff.1 hname).2).2
      exact endsInInk_plain (List.all_eq_true.1 hplain)
    · exact hchars
  | .wildcard =>
    rw [Segment.charsAfter]
    split
    · exact endsInInk_concat [] rfl
    · exact hchars
  | .index _ | .slice _ _ _ | .union _ | .descent | .filter _ => exact hchars

theorem Segment.endsInInk_charsAll (afterDescent : Bool) (ss : List Segment) :
    EndsInInk (Segment.charsAll afterDescent ss) := by
  induction ss generalizing afterDescent with
  | nil =>
    intro c hc
    cases hc
  | cons s ss ih =>
    rw [Segment.charsAll_cons]
    exact endsInInk_append (Segment.endsInInk_charsAfter afterDescent s) (ih s.isDescent)

theorem Text.trimChars_of_endsInInk {t : List Char} (h : EndsInInk ('$' :: t)) :
    trimChars ('$' :: t) = '$' :: t := by
  rw [trimChars, List.dropWhile_cons_of_neg (by decide)]
  have hlast : ('$' :: t).reverse.dropWhile isWhite = ('$' :: t).reverse := by
    rw [EndsInInk, ← List.head?_reverse] at h
    cases hreverse : ('$' :: t).reverse with
    | nil => rfl
    | cons c cs =>
      rw [hreverse] at h
      rw [List.dropWhile_cons_of_neg (by simpa using h)]
  rw [hlast, List.reverse_reverse]

theorem Path.trimChars_text (p : Path) : Text.trimChars p.text.toList = p.text.toList := by
  have hink : EndsInInk ('$' :: Segment.charsAll false p) :=
    endsInInk_append (endsInInk_concat [] (c := '$') rfl) (Segment.endsInInk_charsAll false p)
  rw [Path.text, String.toList_ofList]
  exact Text.trimChars_of_endsInInk hink

/-! ### Reading it again -/

/-- A well-formed path that can be reprinted is read from its text, its chains grouped to the left. -/
theorem Path.parse_text_of_isReprintable {p : Path} (hw : p.isWellFormed) (hr : p.isReprintable) :
    Path.parse p.text = .ok p.regroup := by
  refine parse_of_pathText ?_
  rw [trimChars_text]
  exact pathText_text hw hr

/-- The text of a well-formed path that cannot be reprinted is not that of any path. -/
theorem Path.parse_text_ne_ok {p : Path} (hw : p.isWellFormed) (hr : p.isReprintable = false)
    (q : Path) : Path.parse p.text ≠ .ok q := by
  intro hq
  have hspelled := pathText_of_parse hq
  rw [trimChars_text] at hspelled
  exact not_pathText_text hw hr q hspelled

/-- The canonical text of a path that was read is read again as a path of the same text that leads
to the same values, or to the same fault, in every document, if the path can be reprinted; otherwise
it is not read at all. -/
theorem Path.parse_text {q : String} {p : Path} (h : Path.parse q = .ok p) :
    (p.isReprintable → ∃ p', Path.parse p.text = .ok p' ∧ p'.text = p.text ∧
      ∀ doc, p'.select doc = p.select doc) ∧
    (¬p.isReprintable → ∀ p', Path.parse p.text ≠ .ok p') := by
  have hw := isWellFormed_of_pathText (pathText_of_parse h)
  refine ⟨fun hr => ?_, fun hr => ?_⟩
  · exact ⟨p.regroup, parse_text_of_isReprintable hw hr, text_regroup p, select_regroup p⟩
  · exact parse_text_ne_ok hw (by simpa using hr)

/-- A path with a number that is too great to be finite. -/
def Path.overflowing : Path :=
  [.filter (.compare (.current [.field "a"]) .equal (.literal (.number ⟨0x7ff0000000000000⟩)))]

/-- The numeral `1e400`. -/
def Numeral.overflowing : Numeral where
  negative := false
  whole := ⟨['1'], by decide, by decide⟩
  fraction := none
  exponent := some ⟨false, .none, ⟨['4', '0', '0'], by decide, by decide⟩⟩
  noLeadingZero := by decide

theorem Path.parse_overflowing : Path.parse "$[?(@.a == 1e400)]" = .ok overflowing := by
  have hname : NameText ['a'] "a" := .mk (by decide) (by decide)
  have hleft : OperandText ['@', '.', 'a'] (.current [.field "a"]) :=
    .query (.current (.cons (.name hname) .nil))
  have hright := OperandText.literal (LiteralText.number Numeral.overflowing)
  have hcondition := OrText.one (.one (.compare hleft blank_space .equal blank_space hright))
  have hfilter := SelectorText.filter blank_nil blank_nil hcondition blank_nil
  exact parse_of_pathText (.mk (.cons (.bracket (bracketText_of hfilter)) .nil))

/-- The text of infinity is no number. -/
theorem Path.parse_text_overflowing :
    Path.parse "$[?(@.a == 1e400)]" = .ok overflowing ∧ overflowing.text = "$[?(@.a == inf)]" ∧
      ∀ p', Path.parse overflowing.text ≠ .ok p' :=
  ⟨parse_overflowing, by decide, (parse_text parse_overflowing).2 (by decide)⟩

end JsonSpan

import JsonSpan.Proofs.Conversion.Agreement
import JsonSpan.Proofs.Delimiters.Reported
import JsonSpan.Proofs.Strings.Faults

/-!
# Messages for unexpected tokens

A text with an unexpected token is no path, and the message says why: what the grammar expected at an
offset in the text, or which part of the text denotes nothing (`UnexpectedMessage`). The part is repeated
in the message. Only of a low surrogate the code is written anew, and a high surrogate is not named at
all. No fault of the conversion itself is ever reported (`Path.parse_unexpected`).
-/

namespace JsonSpan

open Spelling (Body)

/-- Whether an error is one of an unexpected token. -/
def PathError.IsUnexpected : PathError → Prop
  | .expected _ _ | .integerRange _ | .escape _ | .patternExpected _ | .strayPattern _ => True
  | .fieldName _ | .zeroStep | .openBracket _ | .openFilter _ | .pattern _ => False

/-! ### Messages that name an escape -/

/-- What is said of an escape: it is repeated, a low surrogate in lower case, but a high surrogate is
not. -/
inductive EscapeMessage : List Char → String → Prop where
  | unknown (c : Char) :
    EscapeMessage ['\\', c] ("invalid escape sequence `\\" ++ String.singleton c ++ "`")
  | truncated (ds : List Char) :
    EscapeMessage ('\\' :: 'u' :: ds) ("truncated unicode escape \\u" ++ String.ofList ds)
  | notHex (ds : List Char) :
    EscapeMessage ('\\' :: 'u' :: ds) ("invalid unicode escape \\u" ++ String.ofList ds)
  | lowSurrogate {ds : List Char} {n : Nat} (h : CodeText false ds n) (hlow : Surrogate.isLow n) :
    EscapeMessage ('\\' :: 'u' :: ds)
      ("invalid unicode escape \\u" ++ String.ofList (ds.map Char.toLower))
  | highSurrogate {ds : List Char} {n : Nat} (h : CodeText false ds n) (hhigh : Surrogate.isHigh n) :
    EscapeMessage ('\\' :: 'u' :: ds) "unpaired surrogate in string literal"

theorem HexDigit.digitChar_value (d : HexDigit) : Nat.digitChar d.value = d.char.toLower := by
  have hall : ∀ n < 0x80, ∀ v ∈ Text.hexValue? (Char.ofNat n),
      Nat.digitChar v = (Char.ofNat n).toLower := by decide
  have hd := hall d.char.toNat d.toNat_char_lt d.value
  rw [Char.ofNat_toNat] at hd
  exact hd d.hexValue?

theorem HexDigit.toDigits_append (d : HexDigit) {n : Nat} (hn : 0 < n) :
    Nat.toDigits 16 (16 * n + d.value) = Nat.toDigits 16 n ++ [d.char.toLower] := by
  have hd := d.value_lt
  have hdiv : (16 * n + d.value) / 16 = n := by omega
  have hmod : (16 * n + d.value) % 16 = d.value := by omega
  rw [Nat.toDigits_eq_if (by decide), if_neg (by omega), hdiv, hmod, d.digitChar_value]

theorem CodeText.hexPadded {ds : List Char} {n : Nat} (h : CodeText false ds n)
    (hlow : Surrogate.isLow n) : Text.hexPadded 4 n = String.ofList (ds.map Char.toLower) := by
  simp only [Surrogate.isLow, Bool.and_eq_true, decide_eq_true_eq] at hlow
  cases h with
  | plus h _ _ _ => cases h
  | digits code =>
    obtain ⟨a, b, c, d⟩ := code
    have hb := b.value_lt
    have hc := c.value_lt
    have hd := d.value_lt
    have hle : 0xdc00 ≤ 16 * (16 * (16 * a.value + b.value) + c.value) + d.value := hlow.1
    have hfirst : Nat.toDigits 16 a.value = [a.char.toLower] := by
      rw [Nat.toDigits_eq_if (by decide), if_pos a.value_lt, a.digitChar_value]
    have hdigits : Nat.toDigits 16 (16 * (16 * (16 * a.value + b.value) + c.value) + d.value) =
        [a.char.toLower, b.char.toLower, c.char.toLower, d.char.toLower] := by
      rw [d.toDigits_append (by omega), c.toDigits_append (by omega), b.toDigits_append (by omega),
        hfirst]
      rfl
    rw [Text.hexPadded, HexCode.value, hdigits]
    rfl

theorem FaultyEscape.message {escape after : List Char} {fault : EscapeFault}
    (h : FaultyEscape escape after fault) : EscapeMessage escape fault.message := by
  cases h with
  | unknown _ _ => exact .unknown _
  | truncated _ _ => exact .truncated _
  | notHex _ _ => exact .notHex _
  | unpaired h hhigh _ => exact .highSurrogate h hhigh
  | notChar h hlow =>
    have hmessage := EscapeMessage.lowSurrogate h hlow
    rw [← h.hexPadded hlow] at hmessage
    exact hmessage

/-! ### Messages of texts -/

/-- What may be said of a text for an unexpected token in it. -/
inductive UnexpectedMessage (t : List Char) : String → Prop where
  | expected {rules : List Rule} {offset : Nat} (hne : rules ≠ []) (hle : offset ≤ Utf8.size t) :
    UnexpectedMessage t ("Unexpected token: expected " ++ alternatives (rules.map Rule.title) ++
      " at offset " ++ toString offset)
  | integerRange {negative : Bool} {ds : List Char} {i : Int} (hne : ds ≠ [])
    (hds : ∀ c ∈ ds, c.isDigit) (hpart : (if negative then '-' :: ds else ds) <:+: t)
    (hi : i = if negative then -(Decimal.ofDigits ds : Int) else Decimal.ofDigits ds)
    (hrange : ¬ (Int64.minValue.toInt ≤ i ∧ i ≤ Int64.maxValue.toInt)) :
    UnexpectedMessage t ("Unexpected token: integer out of range: " ++
      String.ofList (if negative then '-' :: ds else ds))
  | escape {close : Char} {before escape after : List Char} {fault : EscapeFault}
    (hq : close = '"' ∨ close = '\'') (h : Body close (before ++ (escape ++ after)))
    (hpart : close :: (before ++ (escape ++ after)) ++ [close] <:+: t)
    (hbefore : BeforeEscape before) (hfault : FaultyEscape escape after fault)
    (hm : EscapeMessage escape fault.message) :
    UnexpectedMessage t ("Unexpected token: " ++ fault.message)
  | patternExpected {found : List Char} (h : found <:+: t) :
    UnexpectedMessage t ("Unexpected token: `=~` expects a regex or string pattern, got `" ++
      String.ofList found ++ "`")
  | strayPattern {found : List Char} (h : found <:+: t) :
    UnexpectedMessage t ("Unexpected token: regex literal `" ++ String.ofList found ++ "` requires `=~`")

theorem PathError.Concerns.message {t : List Char} {e : PathError} (h : e.Concerns t)
    (he : e.IsUnexpected) : UnexpectedMessage t e.message := by
  cases h with
  | expected hne hle => exact .expected hne hle
  | integerRange hne hds hpart hi hrange => exact .integerRange hne hds hpart hi hrange
  | escape hq h hpart hfault =>
    obtain ⟨before, escape, after, rfl, hbefore, hescape⟩ := Escape.decode_eq_error h hfault
    exact .escape hq h hpart hbefore hescape hescape.message
  | patternExpected h => exact .patternExpected h
  | strayPattern h => exact .strayPattern h
  | fieldName _ => cases he
  | zeroStep => cases he
  | pattern _ => cases he

/-- No escape lacks the character after its backslash. -/
theorem PathError.Concerns.ne_unknown_none {t : List Char} {e : PathError} (h : e.Concerns t) :
    e ≠ .escape (.unknown none) := by
  rintro rfl
  cases h with
  | escape hq h hpart hfault =>
    obtain ⟨before, escape, after, rfl, hbefore, hescape⟩ := Escape.decode_eq_error h hfault
    cases hescape

/-- What is not the fault of a delimiter is that of the grammar. -/
theorem Path.parse_concerns {q : String} {e : PathError} (h : Path.parse q = .error e)
    (he : e.IsUnexpected) : e.Concerns (Text.trimChars q.toList) := by
  rw [parse_eq] at h
  rcases bind_eq_error.1 h with hcheck | ⟨_, _, hchars⟩
  · obtain ⟨_, _, s, _, _, _, _, rfl⟩ := checkDelimiters_eq_error hcheck
    rcases unclosed_cases s.frames with ⟨_, _, _, hf⟩ | ⟨_, _, _, hf⟩ | ⟨_, hf⟩
    all_goals
      rw [hf] at he
      cases he
  · exact ofChars_concerns _ e hchars

/-- The conversion of the parts of a text never fails by itself: it gives the path that is read from the
text, or the same error. If this is one of an unexpected token, it says what the grammar expected at an
offset in the text, or which part of the text denotes nothing; no escape lacks its character. -/
theorem Path.parse_unexpected (q : String) :
    Conversion.parse q = ofMeaning (Path.parse q) ∧
      ∀ fault, Conversion.parse q = .error fault →
        ∃ e, fault = .path e ∧ Path.parse q = .error e ∧ e ≠ .escape (.unknown none) ∧
          (e.IsUnexpected → UnexpectedMessage (Text.trimChars q.toList) fault.message) := by
  refine ⟨Conversion.parse_eq q, fun fault hfault => ?_⟩
  rw [Conversion.parse_eq] at hfault
  cases hparse : Path.parse q with
  | ok path =>
    rw [hparse] at hfault
    cases hfault
  | error e =>
    rw [hparse] at hfault
    cases hfault
    refine ⟨e, rfl, rfl, ?_, fun he => (parse_concerns hparse he).message he⟩
    rintro rfl
    exact (parse_concerns hparse trivial).ne_unknown_none rfl

/-- The message for a low surrogate has its escape in lower case. -/
theorem Path.parse_unexpected_lowSurrogate :
    Conversion.parse "$['\\uDC00']" = .error (.path (.escape (.notChar 0xdc00))) ∧
      UnexpectedMessage (Text.trimChars "$['\\uDC00']".toList)
        "Unexpected token: invalid unicode escape \\udc00" := by
  have hforget : (fun _ => ()) <$> Path.parse "$['\\uDC00']" = .error (.escape (.notChar 0xdc00)) := by
    decide +kernel
  obtain ⟨hconversion, hfaults⟩ := parse_unexpected "$['\\uDC00']"
  rw [map_eq_error.1 hforget] at hconversion
  obtain ⟨_, ⟨⟩, -, -, hmessage⟩ := hfaults _ hconversion
  exact ⟨hconversion, hmessage trivial⟩

/-- The message for a high surrogate does not repeat its escape. -/
theorem Path.parse_unexpected_unnamed :
    Path.parse "$[\"\\ud800\"]" = .error (.escape .unpaired) ∧
      (PathError.escape .unpaired).message = "Unexpected token: unpaired surrogate in string literal" ∧
      ¬ "\\ud800".toList <:+: (PathError.escape .unpaired).message.toList := by
  have hforget : (fun _ => ()) <$> Path.parse "$[\"\\ud800\"]" = .error (.escape .unpaired) := by
    decide +kernel
  exact ⟨map_eq_error.1 hforget, rfl, by decide⟩

end JsonSpan

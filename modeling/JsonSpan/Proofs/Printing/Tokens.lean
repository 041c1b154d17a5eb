import JsonSpan.Path.Printer
import JsonSpan.Proofs.Grammar.Soundness
import JsonSpan.Proofs.Number.Positional

/-!
# The canonical text of tokens

What is printed for an integer, a text, a constant or an operator spells it again. Two tokens are
exceptions. A number that is infinite or a NaN is printed as a word, which no constant is. And only
slashes are escaped in the source of a pattern, so a slash after an odd number of backslashes closes
the pattern early, and an odd number of backslashes at the end keeps it open
(`Pattern.isReprintable`).
-/

namespace JsonSpan

open Grammar

namespace Spelling

/-! ### Integers -/

theorem integerText_indexChars (i : Int64) : IntegerText (indexChars i) i := by
  rw [indexChars, integerChars]
  by_cases hi : i.toInt < 0
  · rw [if_pos hi]
    refine .negative (Digits.ofNat i.toInt.natAbs) ?_
    rw [Digits.ofNat, Decimal.ofDigits_toDigits]
    omega
  · rw [if_neg hi]
    refine .positive (Digits.ofNat i.toInt.natAbs) ?_
    rw [Digits.ofNat, Decimal.ofDigits_toDigits]
    omega

end Spelling

/-! ### Quoted texts -/

namespace Escape

theorem decode_plain {c : Char} (hc : c ≠ '\\') (cs : List Char) :
    decode (c :: cs) = (c :: ·) <$> decode cs := by
  rw [decode.eq_def]
  split
  · next heq => cases heq
  · next heq =>
    cases heq
    exact absurd rfl hc
  · next heq =>
    cases heq
    cases decode cs <;> rfl

theorem decode_escaped {cs rest : List Char} {c : Char} (h : char cs = .ok (c, rest)) :
    decode ('\\' :: cs) = (c :: ·) <$> decode rest := by
  rw [decode]
  split
  · next heq =>
    rw [h] at heq
    cases heq
    cases decode rest <;> rfl
  · next heq =>
    rw [h] at heq
    cases heq

theorem decode_escaped_error {cs : List Char} {fault : EscapeFault} (h : char cs = .error fault) :
    decode ('\\' :: cs) = .error fault := by
  rw [decode]
  split
  · next heq =>
    rw [h] at heq
    cases heq
  · next heq =>
    rw [h] at heq
    cases heq
    rfl

theorem hexPadded_control : ∀ n < 0xa0, (Text.hexPadded 4 n).toList.length = 4 ∧
    Utf8.size (Text.hexPadded 4 n).toList = 4 ∧ signedHex? (Text.hexPadded 4 n).toList = some n ∧
    ∀ d ∈ (Text.hexPadded 4 n).toList, d.isAlphanum := by
  simp only [Text.hexPadded, String.toList_ofList]
  decide +kernel

theorem unit_hexPadded {n : Nat} (hn : n < 0xa0) (rest : List Char) :
    unit ((Text.hexPadded 4 n).toList ++ rest) = .ok (n, rest) := by
  obtain ⟨hlength, hsize, hvalue, _⟩ := hexPadded_control n hn
  simp only [unit]
  rw [List.take_left' hlength, List.drop_left' hlength, if_neg (by rw [hsize]; simp), hvalue]

theorem lt_of_isControl {c : Char} (h : Text.isControl c = true) : c.toNat < 0xa0 := by
  simp only [Text.isControl, Bool.or_eq_true, Bool.and_eq_true, decide_eq_true_eq] at h
  omega

theorem isAlphanum_of_mem_hexPadded {c d : Char} (h : Text.isControl c = true)
    (hd : d ∈ (Text.hexPadded 4 c.toNat).toList) : d.isAlphanum :=
  (hexPadded_control c.toNat (lt_of_isControl h)).2.2.2 d hd

theorem char_control {c : Char} (h : Text.isControl c = true) (rest : List Char) :
    char ('u' :: ((Text.hexPadded 4 c.toNat).toList ++ rest)) = .ok (c, rest) := by
  have hn := lt_of_isControl h
  have hcode : code ((Text.hexPadded 4 c.toNat).toList ++ rest) = .ok (c.toNat, rest) := by
    have hhigh : Surrogate.isHigh c.toNat = false := by
      have hlow : ¬0xd800 ≤ c.toNat := by omega
      simp [Surrogate.isHigh, hlow]
    rw [code, unit_hexPadded hn]
    show (if Surrogate.isHigh c.toNat then _ else _) = _
    rw [hhigh]
    rfl
  have hvalid : c.toNat.isValidChar := c.valid
  rw [char]
  show (if 'u' = 'u' then _ else _) = _
  rw [if_pos rfl, hcode]
  show (if c.toNat.isValidChar then _ else _) = _
  rw [if_pos hvalid, Char.ofNat_toNat]
  rfl

theorem decode_quoteChar (c : Char) (rest : List Char) :
    decode (Text.quoteChar c ++ rest) = (c :: ·) <$> decode rest := by
  rw [Text.quoteChar]
  by_cases hquote : c = '"'
  · subst hquote
    exact decode_escaped rfl
  by_cases hslash : c = '\\'
  · subst hslash
    exact decode_escaped rfl
  rw [if_neg hquote, if_neg hslash]
  by_cases hnewline : c = '\n'
  · subst hnewline
    exact decode_escaped rfl
  by_cases hreturn : c = '\r'
  · subst hreturn
    exact decode_escaped rfl
  by_cases htab : c = '\t'
  · subst htab
    exact decode_escaped rfl
  rw [if_neg hnewline, if_neg hreturn, if_neg htab]
  by_cases hcontrol : Text.isControl c = true
  · rw [if_pos hcontrol]
    exact decode_escaped (char_control hcontrol rest)
  · rw [if_neg hcontrol]
    exact decode_plain hslash rest

theorem decode_flatMap_quoteChar (cs : List Char) : decode (cs.flatMap Text.quoteChar) = .ok cs := by
  induction cs with
  | nil =>
    rw [List.flatMap_nil, decode]
  | cons c cs ih =>
    rw [List.flatMap_cons, decode_quoteChar, ih]
    rfl

end Escape

namespace Spelling

theorem Body.append {close : Char} {t u : List Char} (ht : Body close t) (hu : Body close u) :
    Body close (t ++ u) := by
  induction ht with
  | nil => exact hu
  | escaped c _ ih => exact .escaped c ih
  | plain hc hb _ ih => exact .plain hc hb ih

theorem body_of_forall {close : Char} {t : List Char} (h : ∀ c ∈ t, c ≠ close ∧ c ≠ '\\') :
    Body close t := by
  induction t with
  | nil => exact .nil
  | cons c t ih =>
    obtain ⟨hc, hb⟩ := h c (by simp)
    exact .plain hc hb (ih fun d hd => h d (by simp [hd]))

theorem body_quoteChar (c : Char) : Body '"' (Text.quoteChar c) := by
  rw [Text.quoteChar]
  split
  · exact .escaped _ .nil
  split
  · exact .escaped _ .nil
  split
  · exact .escaped _ .nil
  split
  · exact .escaped _ .nil
  split
  · exact .escaped _ .nil
  split
  · next hcontrol =>
    refine .escaped 'u' (body_of_forall fun d hd => ?_)
    have hdigit := Escape.isAlphanum_of_mem_hexPadded hcontrol hd
    constructor
    · rintro rfl
      cases hdigit
    · rintro rfl
      cases hdigit
  · next hquote hslash _ _ _ _ => exact .plain hquote hslash .nil

theorem stringText_quote (s : String) : StringText (Text.quote s.toList) s := by
  have hbody : ∀ cs : List Char, Body '"' (cs.flatMap Text.quoteChar) := by
    intro cs
    induction cs with
    | nil => exact .nil
    | cons c cs ih => exact (body_quoteChar c).append ih
  have htext := StringText.mk (.inl rfl) (hbody s.toList) (Escape.decode_flatMap_quoteChar s.toList)
  rwa [String.ofList_toList] at htext

theorem comparisonText_chars (op : Comparison) : ComparisonText op.chars op := by
  cases op with
  | equal => exact .equal
  | unequal => exact .unequal
  | less => exact .less
  | lessEqual => exact .lessEqual
  | greater => exact .greater
  | greaterEqual => exact .greaterEqual

end Spelling

/-! ### Constants -/

/-- Whether the text of a constant is one that can be read: not that of infinity or a NaN. -/
def Literal.isReprintable : Literal → Bool
  | .number x => x.isFinite
  | _ => true

theorem Spelling.literalText_chars {v : Literal} (h : v.isReprintable) : LiteralText v.chars v := by
  cases v with
  | number x =>
    obtain ⟨n, hchars, hvalue⟩ := Binary64.exists_numeral h
    have htext := LiteralText.number n
    rwa [hchars, hvalue] at htext
  | string s => exact .string (stringText_quote s)
  | boolean b =>
    cases b with
    | true => exact .true
    | false => exact .false
  | null => exact .null

/-! ### Patterns -/

/-- Whether every slash, and the end, has an even number of backslashes directly before it. The flag
says whether the number is odd so far. -/
def evenBackslashes (odd : Bool) : List Char → Bool
  | [] => !odd
  | c :: cs =>
    if c = '\\' then evenBackslashes (!odd) cs
    else (c != '/' || !odd) && evenBackslashes false cs

/-- Whether the text of a pattern closes with its last slash. -/
def Pattern.isReprintable (p : Pattern) : Bool :=
  evenBackslashes false p.source.toList

theorem Pattern.ofText_source (p : Pattern) : Pattern.ofText p.source p.flags = .ok p := by
  rw [Pattern.ofText]
  split
  · next regex hregex =>
    have hsame : regex = p.regex := Except.ok.inj (hregex.symm.trans p.compiled)
    subst hsame
    rfl
  · next hfault => cases hfault.symm.trans p.compiled

/-- A text with a backslash before each slash. -/
def escapeSlashes (cs : List Char) : List Char :=
  cs.flatMap fun c => if c = '/' then ['\\', '/'] else [c]

theorem unescapeSlashes_kept {c : Char} {cs : List Char} (h : c = '\\' → cs.head? ≠ some '/') :
    unescapeSlashes (c :: cs) = c :: unescapeSlashes cs := by
  rw [unescapeSlashes.eq_def]
  split
  · next heq =>
    cases heq
    exact absurd rfl (h rfl)
  · next heq =>
    cases heq
    rfl
  · next heq => cases heq

theorem unescapeSlashes_cons {c : Char} (hc : c ≠ '/') (cs : List Char) :
    unescapeSlashes (escapeSlashes (c :: cs)) = c :: unescapeSlashes (escapeSlashes cs) := by
  have hcons : escapeSlashes (c :: cs) = c :: escapeSlashes cs := by
    rw [escapeSlashes, List.flatMap_cons, if_neg hc]
    rfl
  have hhead : (escapeSlashes cs).head? ≠ some '/' := by
    cases cs with
    | nil => simp [escapeSlashes]
    | cons d ds =>
      rw [escapeSlashes, List.flatMap_cons]
      split
      · simp
      · next hd => simpa using hd
  rw [hcons, unescapeSlashes_kept fun _ => hhead]

theorem unescapeSlashes_escapeSlashes (cs : List Char) : unescapeSlashes (escapeSlashes cs) = cs := by
  induction cs with
  | nil => rfl
  | cons c cs ih =>
    by_cases hc : c = '/'
    · subst hc
      show '/' :: unescapeSlashes (escapeSlashes cs) = _
      rw [ih]
    · rw [unescapeSlashes_cons hc, ih]

namespace Spelling

theorem body_escapeSlashes {odd : Bool} {cs : List Char} (h : evenBackslashes odd cs) :
    Body '/' ((if odd then ['\\'] else []) ++ escapeSlashes cs) := by
  induction cs generalizing odd with
  | nil =>
    cases odd with
    | true => cases h
    | false => exact .nil
  | cons c cs ih =>
    rw [evenBackslashes] at h
    by_cases hc : c = '\\'
    · subst hc
      rw [if_pos rfl] at h
      cases odd with
      | true => exact .escaped '\\' (ih h)
      | false => exact ih h
    · rw [if_neg hc, Bool.and_eq_true] at h
      obtain ⟨hslash, hmore⟩ := h
      have hrest := ih hmore
      by_cases hs : c = '/'
      · subst hs
        cases odd with
        | true => simp at hslash
        | false => exact .escaped '/' hrest
      · have hcons : escapeSlashes (c :: cs) = c :: escapeSlashes cs := by
          rw [escapeSlashes, List.flatMap_cons, if_neg hs]
          rfl
        rw [hcons]
        cases odd with
        | true => exact .escaped c hrest
        | false => exact .plain hs hc hrest

theorem patternText_text {p : Pattern} (h : p.isReprintable) : PatternText p.text p := by
  have hpattern := p.ofText_source
  rw [← String.ofList_toList (s := p.source), ← unescapeSlashes_escapeSlashes p.source.toList,
    ← String.ofList_toList (s := p.flags)] at hpattern
  exact .regex (body_escapeSlashes h) (mem_flags_of_ofText p.ofText_source) hpattern

end Spelling

end JsonSpan

import JsonSpan.Path.Grammar
import JsonSpan.Proofs.Tree.Spelling

/-!
# The grammar of paths, read as a context-free grammar

Which texts spell which paths, without any order of alternatives and without a notion of what is
taken first. Each rule is a constructor: a text has a spelling if it can be put together from the
parts of one. Blanks may stand between any two tokens inside of brackets, and nowhere else; `||` and
`&&` are left-associative, and `&&` binds tighter.
-/

namespace JsonSpan.Spelling

open Grammar

/-! ### Tokens -/

/-- A run of blanks, which may be empty. -/
def Blank (t : List Char) : Prop :=
  ∀ c ∈ t, Reader.isBlank c

/-- A name that needs no quotes. -/
inductive NameText : List Char → String → Prop where
  | mk {t : List Char} (hne : t ≠ []) (h : ∀ c ∈ t, isPlainChar c) : NameText t (String.ofList t)

/-- An integer of 64 bits: a sign or none, and digits, which may start with zeros. -/
inductive IntegerText : List Char → Int64 → Prop where
  | positive (ds : Digits) {i : Int64} (h : i.toInt = Decimal.ofDigits ds.chars) :
    IntegerText ds.chars i
  | negative (ds : Digits) {i : Int64} (h : i.toInt = -(Decimal.ofDigits ds.chars : Int)) :
    IntegerText ('-' :: ds.chars) i

/-- What may stand between two characters `close`: escaped characters, and others that are neither
`close` nor a backslash. -/
inductive Body (close : Char) : List Char → Prop where
  | nil : Body close []
  | escaped (c : Char) {t : List Char} (h : Body close t) : Body close ('\\' :: c :: t)
  | plain {c : Char} {t : List Char} (hc : c ≠ close) (hb : c ≠ '\\') (h : Body close t) :
    Body close (c :: t)

/-- A string in quotes of either style, the escapes of which denote characters. -/
inductive StringText : List Char → String → Prop where
  | mk {close : Char} {t cs : List Char} (hq : close = '"' ∨ close = '\'') (h : Body close t)
    (hd : Escape.decode t = .ok cs) : StringText (close :: t ++ [close]) (String.ofList cs)

/-- A constant. -/
inductive LiteralText : List Char → Literal → Prop where
  | number (n : Numeral) : LiteralText n.chars (.number (.ofDecimal n.value))
  | string {t : List Char} {s : String} (h : StringText t s) : LiteralText t (.string s)
  | true : LiteralText "true".toList (.boolean true)
  | false : LiteralText "false".toList (.boolean false)
  | null : LiteralText "null".toList .null

/-- What may stand on the right of `=~`: a regular expression between slashes with its flags, or a
string. Either must compile. -/
inductive PatternText : List Char → Pattern → Prop where
  | regex {t flags : List Char} {p : Pattern} (h : Body '/' t)
    (hf : ∀ c ∈ flags, c ∈ ['i', 'm', 's', 'x'])
    (hp : Pattern.ofText (String.ofList (unescapeSlashes t)) (String.ofList flags) = .ok p) :
    PatternText ('/' :: t ++ '/' :: flags) p
  | string {t : List Char} {s : String} {p : Pattern} (h : StringText t s)
    (hp : Pattern.ofText s "" = .ok p) : PatternText t p

/-- The operators that compare. -/
inductive ComparisonText : List Char → Comparison → Prop where
  | equal : ComparisonText ['=', '='] .equal
  | unequal : ComparisonText ['!', '='] .unequal
  | less : ComparisonText ['<'] .less
  | lessEqual : ComparisonText ['<', '='] .lessEqual
  | greater : ComparisonText ['>'] .greater
  | greaterEqual : ComparisonText ['>', '='] .greaterEqual

/-! ### Selectors without conditions -/

/-- An item of a union. -/
inductive MemberText : List Char → Selector → Prop where
  | name {t : List Char} {s : String} (h : StringText t s) : MemberText t (.name s)
  | index {t : List Char} {i : Int64} (h : IntegerText t i) : MemberText t (.index i)

/-- Items with commas between them. -/
inductive MembersText : List Char → List Selector → Prop where
  | one {t : List Char} {s : Selector} (h : MemberText t s) : MembersText t [s]
  | cons {t u w w' : List Char} {s : Selector} {ss : List Selector} (h : MemberText t s)
    (hw : Blank w) (hw' : Blank w') (h' : MembersText u ss) :
    MembersText (t ++ w ++ ',' :: w' ++ u) (s :: ss)

/-- A bound of a slice, which may be left out. -/
inductive BoundText : List Char → Option Int64 → Prop where
  | none : BoundText [] none
  | some {t : List Char} {i : Int64} (h : IntegerText t i) : BoundText t (some i)

/-- A slice; its last bound, the step, may be left out together with its colon. -/
inductive SliceText : List Char → Option Int64 → Option Int64 → Option Int64 → Prop where
  | two {t u w w' : List Char} {start stop : Option Int64} (h : BoundText t start) (hw : Blank w)
    (hw' : Blank w') (h' : BoundText u stop) : SliceText (t ++ w ++ ':' :: w' ++ u) start stop none
  | three {t u v w₁ w₂ w₃ w₄ : List Char} {start stop step : Option Int64} (h : BoundText t start)
    (h₁ : Blank w₁) (h₂ : Blank w₂) (h' : BoundText u stop) (h₃ : Blank w₃) (h₄ : Blank w₄)
    (h'' : BoundText v step) :
    SliceText (t ++ w₁ ++ ':' :: w₂ ++ u ++ w₃ ++ ':' :: w₄ ++ v) start stop step

/-! ### Segments and conditions -/

mutual

/-- Segments with nothing between them. -/
inductive SegmentsText : List Char → List Segment → Prop where
  | nil : SegmentsText [] []
  | cons {t u : List Char} {ss ss' : List Segment} (h : SegmentText t ss)
    (h' : SegmentsText u ss') : SegmentsText (t ++ u) (ss ++ ss')

/-- One segment, or a descent and the segment it is for. -/
inductive SegmentText : List Char → List Segment → Prop where
  | name {t : List Char} {s : String} (h : NameText t s) : SegmentText ('.' :: t) [.field s]
  | wildcard : SegmentText ['.', '*'] [.wildcard]
  | bracket {t : List Char} {s : Segment} (h : BracketText t s) : SegmentText t [s]
  | belowName {t : List Char} {s : String} (h : NameText t s) :
    SegmentText ('.' :: '.' :: t) [.descent, .field s]
  | belowWildcard : SegmentText ['.', '.', '*'] [.descent, .wildcard]
  | belowBracket {t : List Char} {s : Segment} (h : BracketText t s) :
    SegmentText ('.' :: '.' :: t) [.descent, s]

/-- A segment in brackets. -/
inductive BracketText : List Char → Segment → Prop where
  | mk {t w w' : List Char} {s : Segment} (hw : Blank w) (h : SelectorText t s) (hw' : Blank w') :
    BracketText ('[' :: w ++ t ++ w' ++ [']']) s

/-- What stands between brackets. -/
inductive SelectorText : List Char → Segment → Prop where
  | filter {t w₁ w₂ w₃ : List Char} {c : Condition} (h₁ : Blank w₁) (h₂ : Blank w₂)
    (h : OrText t c) (h₃ : Blank w₃) :
    SelectorText ('?' :: w₁ ++ '(' :: w₂ ++ t ++ w₃ ++ [')']) (.filter c)
  | union {t : List Char} {ss : List Selector} (h : MembersText t ss) (hlen : 2 ≤ ss.length) :
    SelectorText t (.union ss)
  | slice {t : List Char} {start stop step : Option Int64} (h : SliceText t start stop step)
    (hstep : step ≠ some 0) : SelectorText t (.slice start stop step)
  | wildcard : SelectorText ['*'] .wildcard
  | index {t : List Char} {i : Int64} (h : IntegerText t i) : SelectorText t (.index i)
  | name {t : List Char} {s : String} (h : StringText t s) : SelectorText t (.field s)

/-- Conditions with `||` between them. -/
inductive OrText : List Char → Condition → Prop where
  | one {t : List Char} {c : Condition} (h : AndText t c) : OrText t c
  | or {t u w w' : List Char} {c d : Condition} (h : OrText t c) (hw : Blank w) (hw' : Blank w')
    (h' : AndText u d) : OrText (t ++ w ++ '|' :: '|' :: w' ++ u) (.or c d)

/-- Conditions with `&&` between them. -/
inductive AndText : List Char → Condition → Prop where
  | one {t : List Char} {c : Condition} (h : UnaryText t c) : AndText t c
  | and {t u w w' : List Char} {c d : Condition} (h : AndText t c) (hw : Blank w) (hw' : Blank w')
    (h' : UnaryText u d) : AndText (t ++ w ++ '&' :: '&' :: w' ++ u) (.and c d)

/-- A condition without `&&` and `||` outside of parentheses. -/
inductive UnaryText : List Char → Condition → Prop where
  | not {t w : List Char} {c : Condition} (hw : Blank w) (h : UnaryText t c) :
    UnaryText ('!' :: w ++ t) (.not c)
  | group {t w w' : List Char} {c : Condition} (hw : Blank w) (h : OrText t c) (hw' : Blank w') :
    UnaryText ('(' :: w ++ t ++ w' ++ [')']) c
  | compare {t u v w w' : List Char} {a b : Operand} {op : Comparison} (h : OperandText t a)
    (hw : Blank w) (ho : ComparisonText v op) (hw' : Blank w') (h' : OperandText u b) :
    UnaryText (t ++ w ++ v ++ w' ++ u) (.compare a op b)
  | like {t u w w' : List Char} {a : Operand} {p : Pattern} (h : OperandText t a) (hw : Blank w)
    (hw' : Blank w') (h' : PatternText u p) :
    UnaryText (t ++ w ++ '=' :: '~' :: w' ++ u) (.like a p)
  | present {t : List Char} {a : Operand} (h : QueryText t a) : UnaryText t (.present a)

/-- A path from the child under test or from the root, or a constant. -/
inductive OperandText : List Char → Operand → Prop where
  | query {t : List Char} {a : Operand} (h : QueryText t a) : OperandText t a
  | literal {t : List Char} {v : Literal} (h : LiteralText t v) : OperandText t (.literal v)

/-- A path from the child under test or from the root. -/
inductive QueryText : List Char → Operand → Prop where
  | current {t : List Char} {ss : List Segment} (h : SegmentsText t ss) :
    QueryText ('@' :: t) (.current ss)
  | root {t : List Char} {ss : List Segment} (h : SegmentsText t ss) :
    QueryText ('$' :: t) (.root ss)

end

/-- A whole path. -/
inductive PathText : List Char → Path → Prop where
  | mk {t : List Char} {p : Path} (h : SegmentsText t p) : PathText ('$' :: t) p

end JsonSpan.Spelling

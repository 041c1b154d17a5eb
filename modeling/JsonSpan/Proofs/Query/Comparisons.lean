import JsonSpan.Proofs.Printing.Reparsing
import JsonSpan.Proofs.Query.Composition

/-!
# Comparisons

The operators fit together (`Condition.compare_coherent`). Of two numbers, and of two texts, exactly
one of less, equal and greater holds, and the other operators hold as their names say; two truth
values are equal or unequal, null is equal to null, and nothing else compares. A comparison says the
same when it is written the other way round with the mirrored operator, and fails with it. All of this
needs that no number is a NaN, and none is: neither a text of a path nor a document has a way to write
one (`Binary64.isNaN_ofDecimal`).
-/

namespace JsonSpan

open Spelling

/-! ### Orders the other way round -/

/-- The operator that holds of two values if the other one does with the values exchanged. -/
def Comparison.mirror : Comparison → Comparison
  | equal => equal
  | unequal => unequal
  | less => greater
  | lessEqual => greaterEqual
  | greater => less
  | greaterEqual => lessEqual

theorem Comparison.holds_mirror (op : Comparison) (order : Ordering) :
    op.mirror.holds order.swap = op.holds order := by
  cases op <;> cases order <;> rfl

theorem Text.compareChars_swap (s t : List Char) : compareChars t s = (compareChars s t).swap := by
  induction s generalizing t with
  | nil => cases t <;> rfl
  | cons c s ih =>
    cases t with
    | nil => rfl
    | cons d t =>
      rw [compareChars, compareChars, Ordering.swap_then, ih, Nat.compare_swap]

theorem Binary64.compare?_swap (x y : Binary64) : y.compare? x = (x.compare? y).map .swap := by
  rw [compare?, compare?]
  cases x.key? with
  | none => cases y.key? <;> rfl
  | some i =>
    cases y.key? with
    | none => rfl
    | some j =>
      have hswap : compare j i = (compare i j).swap := Std.OrientedCmp.eq_swap
      exact congrArg some hswap

/-! ### No number is a NaN -/

namespace Binary64

theorem nearestDecimal_le (coefficient : Nat) (exponent : Int) :
    nearestDecimal coefficient exponent ≤ infinity := by
  rw [nearestDecimal]
  split_ifs
  · exact Nat.zero_le _
  · exact Nat.le_refl _
  · exact Nat.min_le_left _ _

theorem magnitude_ofMagnitude (negative : Bool) {m : Nat} (h : m < signWeight) :
    (ofMagnitude negative m).magnitude = m := by
  have hsum : (if negative then signWeight else 0) + m < 2 ^ 64 := by
    have hdouble : signWeight + signWeight = 2 ^ 64 := by decide
    split_ifs <;> omega
  rw [magnitude, ofMagnitude]
  show (UInt64.ofNat _).toNat % signWeight = m
  rw [UInt64.toNat_ofNat', Nat.mod_eq_of_lt hsum]
  cases negative with
  | false => simp [Nat.mod_eq_of_lt h]
  | true => simp [Nat.mod_eq_of_lt h]

theorem isNaN_ofDecimal (d : Decimal) : (ofDecimal d).isNaN = false := by
  have hle := nearestDecimal_le d.coefficient d.exponent
  have hlt : nearestDecimal d.coefficient d.exponent < signWeight :=
    Nat.lt_of_le_of_lt hle (by decide)
  rw [isNaN, ofDecimal, magnitude_ofMagnitude _ hlt]
  exact decide_eq_false (Nat.not_lt.2 hle)

theorem exists_compare? {x y : Binary64} (hx : x.isNaN = false) (hy : y.isNaN = false) :
    ∃ order, x.compare? y = some order := by
  have hkey : ∀ z : Binary64, z.isNaN = false → ∃ i, z.key? = some i := by
    intro z hz
    rw [key?, hz, if_neg Bool.false_ne_true]
    split <;> exact ⟨_, rfl⟩
  obtain ⟨i, hi⟩ := hkey x hx
  obtain ⟨j, hj⟩ := hkey y hy
  exact ⟨compare i j, by rw [compare?, hi, hj]⟩

end Binary64

namespace Scalar

/-- Whether a scalar is a number that is a NaN. -/
def isNaN : Scalar → Bool
  | number x => x.isNaN
  | _ => false

theorem isNaN_ofBytes {kind : Kind} {bytes : Bytes} {x : Scalar} (h : ofBytes kind bytes = some x) :
    x.isNaN = false := by
  cases kind with
  | object | array => cases h
  | number =>
    cases h
    exact Binary64.isNaN_ofDecimal _
  | string =>
    obtain ⟨cs, _, rfl⟩ := Option.map_eq_some_iff.1 h
    rfl
  | boolean | null =>
    cases h
    rfl

/-! ### Two scalars -/

def kind : Scalar → Kind
  | number _ => .number
  | text _ => .string
  | boolean _ => .boolean
  | null => .null

theorem compares_mirror (a b : Scalar) (op : Comparison) : b.compares op.mirror a = a.compares op b := by
  cases a <;> cases b <;> try rfl
  case number.number x y =>
    show (y.compare? x).any op.mirror.holds = (x.compare? y).any op.holds
    rw [Binary64.compare?_swap]
    cases x.compare? y with
    | none => rfl
    | some order => exact op.holds_mirror order
  case text.text s t =>
    show op.mirror.holds (Text.compareChars t s) = op.holds (Text.compareChars s t)
    rw [Text.compareChars_swap, op.holds_mirror]
  case boolean.boolean x y => cases op <;> cases x <;> cases y <;> rfl
  case null.null => cases op <;> rfl

theorem comparesBoth_mirror (a b : Option Scalar) (op : Comparison) :
    comparesBoth b op.mirror a = comparesBoth a op b := by
  cases a <;> cases b <;> try rfl
  exact compares_mirror _ _ op

end Scalar

/-! ### What operators say together -/

/-- What the operators say of two operands, by the scalars that these stand for, if any. -/
structure Comparison.Coherent (a b : Option Scalar) (holds : Comparison → Bool) : Prop where
  not_both : ¬ (holds .equal ∧ holds .unequal)
  unequal_iff : holds .unequal ↔
    (∃ x y, a = some x ∧ b = some y ∧ x.kind = y.kind) ∧ ¬ holds .equal
  at_most_one : ¬ (holds .less ∧ holds .equal) ∧ ¬ (holds .less ∧ holds .greater) ∧
    ¬ (holds .equal ∧ holds .greater)
  ordered : ∀ x y, a = some x → b = some y → x.kind = y.kind → x.kind ∈ [.number, .string] →
    (holds .less ∨ holds .equal ∨ holds .greater) ∧
    (holds .lessEqual ↔ holds .less ∨ holds .equal) ∧
    (holds .greaterEqual ↔ holds .greater ∨ holds .equal)
  apart : a = none ∨ b = none ∨ (∃ x y, a = some x ∧ b = some y ∧ x.kind ≠ y.kind) →
    ∀ op, holds op = false

namespace Comparison.Coherent

variable {a b : Option Scalar} {x y : Scalar}

theorem of_apart (h : ∀ x y, a = some x → b = some y → x.kind ≠ y.kind) :
    Coherent a b fun _ => false where
  not_both := nofun
  unequal_iff := by
    refine ⟨nofun, ?_⟩
    rintro ⟨⟨x, y, ha, hb, hkind⟩, -⟩
    exact absurd hkind (h x y ha hb)
  at_most_one := ⟨nofun, nofun, nofun⟩
  ordered x y ha hb hkind _ := absurd hkind (h x y ha hb)
  apart _ _ := rfl

theorem not_apart (hkind : x.kind = y.kind) {P : Prop}
    (h : some x = none ∨ some y = none ∨
      ∃ x' y', some x = some x' ∧ some y = some y' ∧ x'.kind ≠ y'.kind) : P := by
  rcases h with h | h | ⟨_, _, ⟨⟩, ⟨⟩, hne⟩
  · cases h
  · cases h
  · exact absurd hkind hne

theorem of_order (hkind : x.kind = y.kind) (order : Ordering) :
    Coherent (some x) (some y) fun op => op.holds order where
  not_both := by cases order <;> decide
  unequal_iff := by
    have hpair : ∃ x' y', some x = some x' ∧ some y = some y' ∧ x'.kind = y'.kind :=
      ⟨x, y, rfl, rfl, hkind⟩
    rw [and_iff_right hpair]
    cases order <;> decide
  at_most_one := by cases order <;> decide
  ordered _ _ _ _ _ _ := by cases order <;> decide
  apart h := not_apart hkind h

theorem of_same (hkind : x.kind = y.kind) (hunordered : x.kind ∉ [.number, .string])
    (same : Bool) :
    Coherent (some x) (some y) fun op =>
      match op with
      | .equal => same
      | .unequal => !same
      | _ => false where
  not_both := by cases same <;> decide
  unequal_iff := by
    have hpair : ∃ x' y', some x = some x' ∧ some y = some y' ∧ x'.kind = y'.kind :=
      ⟨x, y, rfl, rfl, hkind⟩
    rw [and_iff_right hpair]
    cases same <;> decide
  at_most_one := by cases same <;> decide
  ordered := by
    rintro _ _ ⟨⟩ ⟨⟩ _ hordered
    exact absurd hordered hunordered
  apart h := not_apart hkind h

end Comparison.Coherent

/-- The operators are coherent on scalars that are no NaN. -/
theorem Scalar.coherent_comparesBoth {a b : Option Scalar} (ha : ∀ x ∈ a, x.isNaN = false)
    (hb : ∀ y ∈ b, y.isNaN = false) :
    Comparison.Coherent a b fun op => comparesBoth a op b := by
  match a, b with
  | none, _ => exact .of_apart nofun
  | some _, none => exact .of_apart nofun
  | some x, some y =>
    have hx := ha x rfl
    have hy := hb y rfl
    cases x <;> cases y
    case number.number x y =>
      obtain ⟨order, horder⟩ := Binary64.exists_compare? hx hy
      have hholds : (fun op => comparesBoth (some (.number x)) op (some (.number y))) =
          fun op => op.holds order := by
        funext op
        show (x.compare? y).any op.holds = _
        rw [horder]
        rfl
      rw [hholds]
      exact .of_order (x := .number x) (y := .number y) rfl order
    case text.text s t => exact .of_order (x := .text s) (y := .text t) rfl (Text.compareChars s t)
    case boolean.boolean x y =>
      have hholds : (fun op => comparesBoth (some (.boolean x)) op (some (.boolean y))) =
          fun op => match op with | .equal => x == y | .unequal => !(x == y) | _ => false := by
        funext op
        cases op <;> rfl
      rw [hholds]
      exact .of_same (x := .boolean x) (y := .boolean y) rfl (by simp [kind]) (x == y)
    case null.null =>
      have hholds : (fun op => comparesBoth (some .null) op (some .null)) =
          fun op => match op with | .equal => true | .unequal => !true | _ => false := by
        funext op
        cases op <;> rfl
      rw [hholds]
      exact .of_same (x := .null) (y := .null) rfl (by decide) true
    all_goals
      refine .of_apart ?_
      rintro _ _ ⟨⟩ ⟨⟩
      nofun

/-! ### Operands -/

/-- An operand of a comparison in a path that is read from a text. -/
def Operand.IsParsed (o : Operand) : Prop :=
  ∃ (q : String) (p : Path) (op : Comparison) (other : Operand), Path.parse q = .ok p ∧
    (Segment.filter (.compare o op other) ∈ p ∨ Segment.filter (.compare other op o) ∈ p)

/-- A path as an operand leads to some values; a constant is none. -/
def Operand.LeadsTo (site : Site) (s : Span) (spans : List Span) : Operand → Prop
  | .current segments => (Segment.stepAll site [s] segments).result = .ok spans
  | .root segments => (Segment.stepAll site [site.root] segments).result = .ok spans
  | .literal _ => False

/-- The value at a span is a container, or a string that cannot be decoded. -/
def Span.HasNoScalar (doc : Bytes) (v : Span) : Prop :=
  (Place.ofOffset doc v.start).kind ∈ [.ok .object, .ok .array] ∨
    (Place.ofOffset doc v.start).kind = .ok .string ∧ StringToken.decode (v.slice doc) = none

/-! ### Operands that are read -/

namespace Spelling

/-- If a condition is a comparison, its operands have spellings. -/
def HasOperandTexts : Condition → Prop
  | .compare a _ b => (∃ t, OperandText t a) ∧ ∃ t, OperandText t b
  | _ => True

mutual

theorem OrText.operandTexts : ∀ {t : List Char} {c : Condition}, OrText t c → HasOperandTexts c
  | _, _, .one h => h.operandTexts
  | _, _, .or _ _ _ _ => trivial

theorem AndText.operandTexts : ∀ {t : List Char} {c : Condition}, AndText t c → HasOperandTexts c
  | _, _, .one h => h.operandTexts
  | _, _, .and _ _ _ _ => trivial

theorem UnaryText.operandTexts : ∀ {t : List Char} {c : Condition}, UnaryText t c →
    HasOperandTexts c
  | _, _, .group _ h _ => h.operandTexts
  | _, _, .compare h _ _ _ h' => ⟨⟨_, h⟩, ⟨_, h'⟩⟩
  | _, _, .not _ _ | _, _, .like _ _ _ _ | _, _, .present _ => trivial

end

theorem SegmentText.exists_bracket {t : List Char} {ss : List Segment} (h : SegmentText t ss)
    {c : Condition} (hc : .filter c ∈ ss) : ∃ u, BracketText u (.filter c) := by
  cases h with
  | name => simp at hc
  | wildcard => simp at hc
  | belowName => simp at hc
  | belowWildcard => simp at hc
  | bracket hbracket =>
    cases List.mem_singleton.1 hc
    exact ⟨_, hbracket⟩
  | belowBracket hbracket =>
    simp only [List.mem_cons, List.not_mem_nil, or_false, reduceCtorEq, false_or] at hc
    cases hc
    exact ⟨_, hbracket⟩

theorem SegmentsText.exists_bracket : ∀ {t : List Char} {ss : List Segment}, SegmentsText t ss →
    ∀ {c : Condition}, .filter c ∈ ss → ∃ u, BracketText u (.filter c)
  | _, _, .nil, _, hc => by cases hc
  | _, _, .cons h h', _, hc =>
    (List.mem_append.1 hc).elim h.exists_bracket h'.exists_bracket

end Spelling

theorem Operand.IsParsed.operandText {o : Operand} (h : o.IsParsed) : ∃ u, OperandText u o := by
  obtain ⟨q, p, op, other, hq, hmem⟩ := h
  have hp := Path.pathText_of_parse hq
  generalize Text.trimChars q.toList = cs at hp
  obtain ⟨hsegments⟩ := hp
  have htexts : ∀ {c : Condition}, .filter c ∈ p → HasOperandTexts c := by
    intro c hc
    obtain ⟨u, ⟨_, hselector, _⟩⟩ := hsegments.exists_bracket hc
    cases hselector with
    | filter _ _ hor _ => exact hor.operandTexts
  exact hmem.elim (fun hmem => (htexts hmem).1) fun hmem => (htexts hmem).2

theorem Scalar.isNaN_ofLiteral {t : List Char} {v : Literal} (h : LiteralText t v) :
    (ofLiteral v).isNaN = false := by
  cases h with
  | number n => exact Binary64.isNaN_ofDecimal _
  | string | true | false | null => rfl

theorem Site.isNaN_onlyScalar {site : Site} {spans : List Span} {a : Option Scalar}
    (h : site.onlyScalar spans = .ok a) : ∀ x ∈ a, x.isNaN = false := by
  rintro x rfl
  match spans with
  | [] => cases h
  | [v] =>
    obtain ⟨k, -, hx⟩ := bind_eq_ok.1 h
    exact Scalar.isNaN_ofBytes (Except.ok.inj hx)
  | _ :: _ :: _ => cases h

theorem Operand.IsParsed.isNaN {o : Operand} (h : o.IsParsed) {site : Site} {s : Span}
    {a : Option Scalar} (ha : (o.resolve site s).result = .ok a) : ∀ x ∈ a, x.isNaN = false := by
  cases o with
  | current segments =>
    obtain ⟨spans, -, hscalar⟩ := bind_eq_ok.1 ((result_resolve_current site s segments).symm.trans ha)
    exact Site.isNaN_onlyScalar hscalar
  | root segments =>
    obtain ⟨spans, -, hscalar⟩ := bind_eq_ok.1 ((result_resolve_root site s segments).symm.trans ha)
    exact Site.isNaN_onlyScalar hscalar
  | literal v =>
    cases ha
    rintro x ⟨⟩
    obtain ⟨u, htext⟩ := h.operandText
    cases htext with
    | query hquery => cases hquery
    | literal hliteral => exact Scalar.isNaN_ofLiteral hliteral

theorem Operand.LeadsTo.resolve {o : Operand} {site : Site} {s : Span} {spans : List Span}
    (h : o.LeadsTo site s spans)
    (hno : spans.length ≠ 1 ∨ ∃ v ∈ spans, v.HasNoScalar site.doc) {a : Option Scalar}
    (ha : (o.resolve site s).result = .ok a) : a = none := by
  have hscalar : site.onlyScalar spans = .ok a := by
    cases o with
    | current segments =>
      rw [result_resolve_current, show (Segment.stepAll site [s] segments).result = _ from h] at ha
      exact ha
    | root segments =>
      rw [result_resolve_root, show (Segment.stepAll site [site.root] segments).result = _ from h] at ha
      exact ha
    | literal => cases h
  match spans with
  | [] =>
    cases hscalar
    rfl
  | _ :: _ :: _ =>
    cases hscalar
    rfl
  | [v] =>
    obtain ⟨w, hw, hv⟩ := hno.resolve_left (absurd rfl)
    cases List.mem_singleton.1 hw
    obtain ⟨k, hk, hx⟩ := bind_eq_ok.1 hscalar
    rw [Span.HasNoScalar, hk] at hv
    cases hx
    rcases hv with hv | ⟨hv, hdecode⟩
    · rcases List.mem_pair.1 hv with hv | hv <;> cases hv <;> rfl
    · cases hv
      rw [Scalar.ofBytes, hdecode]
      rfl

/-! ### A comparison the other way round -/

section

variable {ε α β : Type}

theorem pick_eq_ok_congr {f g : α → Except ε Bool} {as bs : List α}
    (h : ∀ a ∈ as, ∀ keep, f a = .ok keep ↔ g a = .ok keep) :
    pick f as = .ok bs ↔ pick g as = .ok bs := by
  induction as generalizing bs with
  | nil => exact Iff.rfl
  | cons a as ih =>
    have hmore : ∀ more, pick f as = .ok more ↔ pick g as = .ok more :=
      fun more => ih fun b hb => h b (List.mem_cons_of_mem a hb)
    simp only [pick, bind_eq_ok, h a List.mem_cons_self, hmore]

end

theorem Condition.result_test_mirror (left right : Operand) (op : Comparison) (site : Site)
    (s : Span) (holds : Bool) :
    ((Condition.compare left op right).test site s).result = .ok holds ↔
      ((Condition.compare right op.mirror left).test site s).result = .ok holds := by
  simp only [result_test_compare, bind_eq_ok, Scalar.comparesBoth_mirror]
  constructor <;> rintro ⟨a, ha, b, hb, h⟩ <;> exact ⟨b, hb, a, ha, h⟩

/-- One segment can be exchanged for another one that leads to the same values. -/
theorem Path.select_exchange {segment segment' : Segment}
    (h : ∀ site s vs, (segment.step site s).result = .ok vs ↔ (segment'.step site s).result = .ok vs)
    (p more : Path) (doc : Bytes) (spans : List Span) :
    Path.select (p ++ segment :: more) doc = .ok spans ↔
      Path.select (p ++ segment' :: more) doc = .ok spans := by
  have hgather : ∀ site vs ws, gather (fun s => (segment.step site s).result) vs = .ok ws ↔
      gather (fun s => (segment'.step site s).result) vs = .ok ws :=
    fun site vs ws => gather_eq_ok_congr fun s _ => h site s
  simp only [Path.select_eq, bind_eq_ok, Segment.result_stepAll_append, Segment.result_stepAll_cons,
    hgather]

/-- The operators fit together, on all operands that are read from texts. A filter that compares
selects what the one with the sides exchanged and the operator mirrored does, at any place of a path,
and fails if that fails. And on a candidate where both operands are resolved, what all operators say
is coherent; if an operand leads to no value or several, to a container or to a string that cannot be
decoded, no operator holds. -/
theorem Condition.compare_coherent {left right : Operand} (hleft : left.IsParsed)
    (hright : right.IsParsed) :
    (∀ (op : Comparison) (p more : Path) (doc : Bytes) (spans : List Span),
      Path.select (p ++ .filter (.compare left op right) :: more) doc = .ok spans ↔
        Path.select (p ++ .filter (.compare right op.mirror left) :: more) doc = .ok spans) ∧
    ∀ (site : Site) (s : Span) (a b : Option Scalar),
      (left.resolve site s).result = .ok a → (right.resolve site s).result = .ok b →
      ∃ holds : Comparison → Bool,
        (∀ op, ((Condition.compare left op right).test site s).result = .ok (holds op)) ∧
        Comparison.Coherent a b holds ∧
        ∀ o ∈ [left, right], ∀ spans, o.LeadsTo site s spans →
          (spans.length ≠ 1 ∨ ∃ v ∈ spans, v.HasNoScalar site.doc) → ∀ op, holds op = false := by
  refine ⟨fun op => Path.select_exchange ?_, fun site s a b ha hb => ?_⟩
  · intro site s vs
    simp only [Segment.result_step_filter, bind_eq_ok]
    have hpick : ∀ children, pick (fun v => ((compare left op right).test site v).result) children =
        .ok vs ↔ pick (fun v => ((compare right op.mirror left).test site v).result) children =
        .ok vs := fun children => pick_eq_ok_congr fun v _ => result_test_mirror left right op site v
    simp only [hpick]
  have hcoherent := Scalar.coherent_comparesBoth (hleft.isNaN ha) (hright.isNaN hb)
  refine ⟨fun op => Scalar.comparesBoth a op b, fun op => ?_, hcoherent, ?_⟩
  · rw [result_test_compare, ha, hb]
    rfl
  · intro o ho spans hspans hno
    refine hcoherent.apart ?_
    rcases List.mem_pair.1 ho with rfl | rfl
    · exact .inl (hspans.resolve hno ha)
    · exact .inr (.inl (hspans.resolve hno hb))

/-- A number is less than infinity, also the other way round; of a text and infinity no operator
holds. -/
theorem Condition.compare_coherent_infinity :
    let left : Operand := .current [.field "a"]
    let right : Operand := .literal (.number ⟨0x7ff0000000000000⟩)
    let site : Site := ⟨utf8 "[\x7b\"a\":1\x7d,\x7b\"a\":\"1\"\x7d]", ⟨0, 19⟩⟩
    left.IsParsed ∧ right.IsParsed ∧
      Path.select [.filter (.compare right .greater left)] site.doc = .ok [⟨1, 8⟩] ∧
      (left.resolve site ⟨9, 18⟩).result = .ok (some (.text ['1'])) ∧
      ∀ op, ((Condition.compare left op right).test site ⟨9, 18⟩).result = .ok false := by
  intro left right site
  have hleft : left.IsParsed :=
    ⟨_, _, .equal, right, Path.parse_overflowing, .inl (List.mem_singleton.2 rfl)⟩
  have hright : right.IsParsed :=
    ⟨_, _, .equal, left, Path.parse_overflowing, .inr (List.mem_singleton.2 rfl)⟩
  obtain ⟨hmirror, hcoherent⟩ := compare_coherent hleft hright
  have htext : (left.resolve site ⟨9, 18⟩).result = .ok (some (.text ['1'])) := by decide +kernel
  refine ⟨hleft, hright, ?_, htext, fun op => ?_⟩
  · exact (hmirror .less [] [] site.doc [⟨1, 8⟩]).1 (by decide +kernel)
  · obtain ⟨holds, htest, hholds, -⟩ := hcoherent site ⟨9, 18⟩ _ _ htext rfl
    rw [htest op, hholds.apart (.inr (.inr ⟨_, _, rfl, rfl, nofun⟩))]

end JsonSpan

import Mathlib.Data.List.TakeWhile
import JsonSpan.Output.Highlight

/-!
# The tokens of highlighted bytes

Highlighted bytes are written token by token (`Highlight.pieces_eq`). The tokens tile the bytes
(`Highlight.flatMap_lexemes`), and what is known of all of them is proved from one token to the next
(`Highlight.token_induction`).
-/

namespace JsonSpan.Highlight

/-- A token, with its style if it has one. -/
structure Lexeme where
  style : Option Style
  bytes : Bytes
  deriving DecidableEq, Repr

/-- A token in the pieces in which it is written. -/
def Lexeme.pieces (color : Bool) (x : Lexeme) : List Bytes :=
  paintToken color x.style x.bytes

theorem tokenLength_pos (first : UInt8) (rest : Bytes) : 0 < tokenLength first rest := by
  unfold tokenLength
  split
  · exact Nat.succ_pos _
  · split <;> exact Nat.succ_pos _

/-- The tokens of bytes. -/
def lexemes : Bytes → List Lexeme
  | [] => []
  | b :: r =>
    let length := tokenLength b r
    let after := (b :: r).drop length
    ⟨styleOf b after, (b :: r).take length⟩ :: lexemes after
termination_by bytes => bytes.length
decreasing_by
  have := tokenLength_pos b r
  simp only [List.length_drop, List.length_cons]
  omega

@[simp]
theorem lexemes_nil : lexemes [] = [] := by
  rw [lexemes]

/-! ### One token -/

theorem stringLength_le (escaped : Bool) (r : Bytes) : stringLength escaped r ≤ r.length := by
  fun_induction stringLength escaped r with
  | case1 => exact Nat.le_refl 0
  | case2 _ r ih | case3 r ih | case5 _ r _ _ ih => exact Nat.succ_le_succ ih
  | case4 => exact Nat.succ_le_succ (Nat.zero_le _)

theorem tokenLength_le (b : UInt8) (r : Bytes) : tokenLength b r ≤ r.length + 1 := by
  unfold tokenLength
  split
  · exact Nat.succ_le_succ (stringLength_le false r)
  · split
    · exact Nat.succ_le_succ (List.takeWhile_prefix isScalarByte).length_le
    · exact Nat.succ_le_succ (Nat.zero_le _)

/-- Of the bytes `b :: (t ++ r)`, the first token is `b :: t`. -/
def Leads (b : UInt8) (t r : Bytes) : Prop :=
  tokenLength b (t ++ r) = t.length + 1

theorem exists_leads (b : UInt8) (rest : Bytes) : ∃ t r, rest = t ++ r ∧ Leads b t r := by
  have hpos := tokenLength_pos b rest
  have hle := tokenLength_le b rest
  refine ⟨rest.take (tokenLength b rest - 1), rest.drop (tokenLength b rest - 1),
    (List.take_append_drop _ _).symm, ?_⟩
  rw [Leads, List.take_append_drop, List.length_take]
  omega

namespace Leads

variable {b : UInt8} {t r : Bytes} (h : Leads b t r)

include h

theorem take : (b :: (t ++ r)).take (tokenLength b (t ++ r)) = b :: t := by
  rw [show tokenLength b (t ++ r) = t.length + 1 from h, List.take_succ_cons, List.take_left]

theorem drop : (b :: (t ++ r)).drop (tokenLength b (t ++ r)) = r := by
  rw [show tokenLength b (t ++ r) = t.length + 1 from h, List.drop_succ_cons, List.drop_left]

theorem lexemes : lexemes (b :: (t ++ r)) = ⟨styleOf b r, b :: t⟩ :: lexemes r := by
  rw [Highlight.lexemes]
  simp only [h.take, h.drop]

theorem pieces (color : Bool) :
    pieces color (b :: (t ++ r)) = paintToken color (styleOf b r) (b :: t) ++ pieces color r := by
  rw [Highlight.pieces]
  simp only [h.take, h.drop]

end Leads

/-- What holds of no bytes, and of bytes with one more token at their front, holds of all bytes. -/
@[elab_as_elim]
theorem token_induction {motive : Bytes → Prop} (json : Bytes) (nil : motive [])
    (token : ∀ b t r, Leads b t r → motive r → motive (b :: (t ++ r))) : motive json := by
  induction hn : json.length using Nat.strongRecOn generalizing json with
  | _ n ih =>
    cases json with
    | nil => exact nil
    | cons b rest =>
      obtain ⟨t, r, rfl, hleads⟩ := exists_leads b rest
      have hlt : r.length < n := by
        rw [← hn, List.length_cons, List.length_append]
        omega
      exact token b t r hleads (ih _ hlt r rfl)

/-! ### All tokens -/

theorem pieces_eq (color : Bool) (json : Bytes) :
    pieces color json = (lexemes json).flatMap (Lexeme.pieces color) := by
  induction json using token_induction with
  | nil => rw [pieces, lexemes_nil, List.flatMap_nil]
  | token b t r h ih =>
    rw [h.pieces, h.lexemes, List.flatMap_cons, ih]
    rfl

/-- The tokens tile the bytes. -/
theorem flatMap_lexemes (json : Bytes) : (lexemes json).flatMap Lexeme.bytes = json := by
  induction json using token_induction with
  | nil => rw [lexemes_nil, List.flatMap_nil]
  | token b t r h ih => rw [h.lexemes, List.flatMap_cons, ih, List.cons_append]

theorem flatten_pieces {color : Bool} {json : Bytes} {f : Lexeme → Bytes}
    (h : ∀ x ∈ lexemes json, (x.pieces color).flatten = f x) :
    (pieces color json).flatten = (lexemes json).flatMap f := by
  rw [pieces_eq, List.flatMap_def, List.flatMap_def, List.flatten_flatten, List.map_map]
  exact congrArg List.flatten (List.map_congr_left h)

/-! ### What a token is made of -/

theorem le_of_isScalarByte {b : UInt8} (h : isScalarByte b) : b ≤ 0x7f := by
  simp only [isScalarByte, Byte.isDigit, Byte.isLetter, Bool.or_eq_true, Bool.and_eq_true, beq_iff_eq,
    decide_eq_true_eq] at h
  rcases h with (((rfl | rfl) | rfl) | ⟨_, h⟩) | ⟨_, h⟩ | ⟨_, h⟩
  all_goals first | decide | exact UInt8.le_trans h (by decide)

theorem isScalarByte_of_isDigit {b : UInt8} (h : Byte.isDigit b) : isScalarByte b := by
  simp [isScalarByte, h]

theorem isScalarByte_of_styleOf {b : UInt8} {r : Bytes} (hb : b ≠ Byte.quote)
    (h : (styleOf b r).isSome) : isScalarByte b := by
  unfold styleOf at h
  rw [if_neg hb] at h
  split_ifs at h with hnumber hboolean hnull
  · rcases hnumber with rfl | hdigit
    · rfl
    · exact isScalarByte_of_isDigit hdigit
  · rcases hboolean with rfl | rfl <;> rfl
  · rw [hnull]
    rfl
  · contradiction

theorem eq_nil_or_quote_of_stringLength {escaped : Bool} {t r : Bytes}
    (h : stringLength escaped (t ++ r) = t.length) : r = [] ∨ ∃ t', t = t' ++ [Byte.quote] := by
  induction t generalizing escaped with
  | nil =>
    cases r with
    | nil => exact .inl rfl
    | cons b r =>
      rw [List.nil_append, stringLength.eq_def] at h
      split at h
      · contradiction
      · cases h
      · split_ifs at h
  | cons b t ih =>
    -- all bytes but the closing quote leave the rest of a string
    have hmore {escaped' : Bool} (h : stringLength escaped' (t ++ r) + 1 = t.length + 1) :
        r = [] ∨ ∃ t', b :: t = t' ++ [Byte.quote] :=
      (ih (Nat.succ.inj h)).imp_right fun ⟨t', ht'⟩ => ⟨b :: t', congrArg (b :: ·) ht'⟩
    rw [List.cons_append, stringLength.eq_def] at h
    cases escaped with
    | true => exact hmore h
    | false =>
      dsimp only at h
      split_ifs at h with hs hq
      · exact hmore h
      · obtain rfl : t = [] := List.length_eq_zero_iff.1 (Nat.succ.inj h).symm
        exact .inr ⟨[], congrArg (· :: []) hq⟩
      · exact hmore h

namespace Leads

variable {b : UInt8} {t r : Bytes} (h : Leads b t r)

include h

theorem ends (hb : b = Byte.quote) : r = [] ∨ ∃ t', t = t' ++ [Byte.quote] := by
  rw [Leads, tokenLength, if_pos hb] at h
  exact eq_nil_or_quote_of_stringLength (Nat.succ.inj h)

theorem run (hb : b ≠ Byte.quote) (hscalar : isScalarByte b) : ∀ x ∈ t, isScalarByte x := by
  rw [Leads, tokenLength, if_neg hb, if_pos hscalar] at h
  have hprefix : (t ++ r).takeWhile isScalarByte <+: t ++ r := List.takeWhile_prefix isScalarByte
  have htake : (t ++ r).takeWhile isScalarByte = t := by
    rw [List.prefix_iff_eq_take.1 hprefix, Nat.succ.inj h, List.take_left]
  intro x hx
  rw [← htake] at hx
  exact List.mem_takeWhile_imp hx

theorem stops (hb : b ≠ Byte.quote) (hscalar : isScalarByte b) :
    ∀ x ∈ r.head?, isScalarByte x = false := by
  have hrun := h.run hb hscalar
  rw [Leads, tokenLength, if_neg hb, if_pos hscalar, List.takeWhile_append_of_pos hrun] at h
  cases r with
  | nil => simp
  | cons x r =>
    intro y hy
    cases hy
    by_contra hx
    rw [Bool.not_eq_false] at hx
    rw [List.takeWhile_cons_of_pos hx, List.length_append, List.length_cons] at h
    omega

end Leads

end JsonSpan.Highlight

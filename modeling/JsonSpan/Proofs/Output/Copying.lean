import JsonSpan.Output.Result
import JsonSpan.Proofs.Output.Lexemes
import JsonSpan.Proofs.Text.Lossy

/-!
# Highlighting without colour

Where no colour is shown, highlighted bytes come out as they went in exactly if all strings in them
are UTF-8, a string reaching from a quote to its closing quote or to the end
(`Highlight.uncolored_exact`). A string that is not UTF-8 is made longer or has other bytes in place
of some. All else is copied: numbers and words are ASCII, and the other bytes are not written as text.
-/

namespace JsonSpan

open Utf8 (isValid)

namespace Highlight

/-! ### Each token -/

/-- What is written of a token if no colour is shown. -/
def Lexeme.uncolored (x : Lexeme) : Bytes :=
  if x.style.isSome then Utf8.encode (Utf8.decodeLossy x.bytes) else x.bytes

theorem Lexeme.flatten_pieces (x : Lexeme) : (x.pieces false).flatten = x.uncolored := by
  obtain ⟨style, bytes⟩ := x
  cases style <;> exact List.append_nil _

/-- Strings, keys among them. -/
def Lexeme.IsString (x : Lexeme) : Prop :=
  x.style = some .key ∨ x.style = some .string

/-- All strings in some bytes are UTF-8. -/
def StringsAreText (json : Bytes) : Prop :=
  ∀ x ∈ lexemes json, x.IsString → isValid x.bytes

theorem isString_iff {b : UInt8} {r bytes : Bytes} :
    Lexeme.IsString ⟨styleOf b r, bytes⟩ ↔ b = Byte.quote := by
  unfold Lexeme.IsString styleOf
  dsimp only
  split_ifs with hquote <;> simp [hquote]

theorem isString_or_isValid {json : Bytes} {x : Lexeme} (hx : x ∈ lexemes json)
    (hstyle : x.style.isSome) : x.IsString ∨ isValid x.bytes := by
  induction json using token_induction with
  | nil => simp at hx
  | token b t r h ih =>
    rw [h.lexemes] at hx
    rcases List.mem_cons.1 hx with rfl | hx
    · by_cases hb : b = Byte.quote
      · exact .inl (isString_iff.2 hb)
      · have hscalar := isScalarByte_of_styleOf hb hstyle
        have hrun : ∀ x ∈ b :: t, isScalarByte x :=
          List.forall_mem_cons.2 ⟨hscalar, h.run hb hscalar⟩
        exact .inr (Utf8.isValid_of_ascii fun x hx => le_of_isScalarByte (hrun x hx))
    · exact ih hx

theorem uncolored_eq_iff {json : Bytes} {x : Lexeme} (hx : x ∈ lexemes json) :
    x.uncolored = x.bytes ↔ (x.IsString → isValid x.bytes) := by
  unfold Lexeme.uncolored
  split
  · next hstyle =>
    rw [Utf8.encode_decodeLossy_eq_iff]
    exact ⟨fun h _ => h, fun h => (isString_or_isValid hx hstyle).elim h id⟩
  · next hstyle =>
    refine iff_of_true rfl fun h => absurd ?_ hstyle
    rcases h with h | h <;> rw [h] <;> rfl

theorem Lexeme.length_le_uncolored (x : Lexeme) : x.bytes.length ≤ x.uncolored.length := by
  unfold uncolored
  split
  · exact Utf8.length_le_encode_decodeLossy x.bytes
  · exact Nat.le_refl _

/-! ### All bytes -/

theorem length_flatMap_le {α β : Type} {f g : α → List β} {as : List α}
    (h : ∀ a ∈ as, (g a).length ≤ (f a).length) :
    (as.flatMap g).length ≤ (as.flatMap f).length := by
  induction as with
  | nil => exact Nat.le_refl 0
  | cons a as ih =>
    rw [List.forall_mem_cons] at h
    rw [List.flatMap_cons, List.flatMap_cons, List.length_append, List.length_append]
    exact Nat.add_le_add h.1 (ih h.2)

/-- No part of a concatenation can make up for another, if none is shorter than it should be. -/
theorem flatMap_eq_flatMap_iff {α β : Type} {f g : α → List β} {as : List α}
    (h : ∀ a ∈ as, (g a).length ≤ (f a).length) :
    as.flatMap f = as.flatMap g ↔ ∀ a ∈ as, f a = g a := by
  constructor
  · intro heq
    induction as with
    | nil => exact List.forall_mem_nil _
    | cons a as ih =>
      rw [List.forall_mem_cons] at h ⊢
      rw [List.flatMap_cons, List.flatMap_cons] at heq
      have hsum := congrArg List.length heq
      have hmore := length_flatMap_le h.2
      rw [List.length_append, List.length_append] at hsum
      obtain ⟨ha, has⟩ := List.append_inj heq (by omega)
      exact ⟨ha, ih h.2 has⟩
  · exact List.flatMap_congr

theorem flatMap_uncolored_eq_iff (json : Bytes) :
    (lexemes json).flatMap Lexeme.uncolored = json ↔ StringsAreText json := by
  have htokens : (lexemes json).flatMap Lexeme.uncolored = (lexemes json).flatMap Lexeme.bytes ↔
      ∀ x ∈ lexemes json, x.uncolored = x.bytes :=
    flatMap_eq_flatMap_iff fun x _ => x.length_le_uncolored
  rw [flatMap_lexemes] at htokens
  rw [htokens]
  exact forall₂_congr fun x hx => uncolored_eq_iff hx

theorem Leads.isValid {b : UInt8} {t r before : Bytes} (h : Leads b t r) (hb : b = Byte.quote)
    (hvalid : isValid (before ++ b :: (t ++ r))) : isValid (b :: t) := by
  subst hb
  have hquote : Byte.quote ≤ 0x7f := by decide
  have hinside := ((Utf8.isValid_append hquote).1 hvalid).2
  refine (Utf8.isValid_append hquote (a := [])).2 ⟨rfl, ?_⟩
  rcases h.ends rfl with rfl | ⟨t', rfl⟩
  · rwa [List.append_nil] at hinside
  · rw [List.append_assoc] at hinside
    exact (Utf8.isValid_append hquote).2 ⟨((Utf8.isValid_append hquote).1 hinside).1, rfl⟩

/-- What is before may end inside of a character. -/
theorem stringsAreText_of_append (before : Bytes) {json : Bytes} (hvalid : isValid (before ++ json)) :
    StringsAreText json := by
  induction json using token_induction generalizing before with
  | nil => simp [StringsAreText]
  | token b t r h ih =>
    intro x hx hstring
    rw [h.lexemes] at hx
    rcases List.mem_cons.1 hx with rfl | hx
    · exact h.isValid (isString_iff.1 hstring) hvalid
    · rw [← List.cons_append, ← List.append_assoc] at hvalid
      exact ih _ hvalid x hx hstring

/-! ### What is written -/

/-- Write the line with the values of matches, highlighted where colour may not be shown; a broken
pipe is forgiven. -/
def writeResult (sink : Sink) (color : Bool) (doc : Bytes) (spans : List Span) : Written :=
  let line := if spans.isEmpty then []
    else pieces color (renderMatches doc spans) ++ [[Byte.lineFeed]]
  (sink.write line).forgiveBrokenPipe

end Highlight

namespace Highlight

/-- Without colour, highlighting writes each token as it is, or as text if it is styled. The bytes
come out unchanged if and only if all strings in them are UTF-8, as they are if the bytes are UTF-8
as a whole. The line of a result is then the plain one, and else it is not. -/
theorem uncolored_exact (json : Bytes) :
    Sink.unlimited.writeHighlighted false json = ⟨(lexemes json).flatMap Lexeme.uncolored, .ok ()⟩ ∧
      ((Sink.unlimited.writeHighlighted false json).bytes = json ↔ StringsAreText json) ∧
      (isValid json → StringsAreText json) ∧
      ∀ doc spans, (writeResult .unlimited false doc spans).bytes =
          (Sink.unlimited.writeResult false doc spans).bytes ↔
        StringsAreText (renderMatches doc spans) := by
  have hwrite : Sink.unlimited.writeHighlighted false json =
      ⟨(lexemes json).flatMap Lexeme.uncolored, .ok ()⟩ := by
    rw [Sink.writeHighlighted, Sink.write_eq rfl, flatten_pieces fun x _ => x.flatten_pieces]
  refine ⟨hwrite, ?_, fun hvalid => stringsAreText_of_append [] hvalid, ?_⟩
  · rw [hwrite]
    exact flatMap_uncolored_eq_iff json
  · intro doc spans
    rw [writeResult, Sink.writeResult, Sink.write_eq rfl, Sink.write_eq rfl, resultPieces]
    show List.flatten _ = List.flatten _ ↔ _
    cases spans with
    | nil => exact iff_of_true rfl (stringsAreText_of_append [] rfl)
    | cons s more =>
      simp only [List.isEmpty_cons, Bool.false_eq_true, if_false, List.flatten_append]
      rw [List.append_left_inj, flatten_pieces fun x _ => x.flatten_pieces]
      exact flatMap_uncolored_eq_iff _

/-- A string of one byte that no character starts with. -/
theorem uncolored_exact_broken :
    (Sink.unlimited.writeHighlighted false [0x22, 0xff, 0x22]).bytes =
        [0x22, 0xef, 0xbf, 0xbd, 0x22] ∧
      ¬ StringsAreText [0x22, 0xff, 0x22] := by
  have hleads : Leads 0x22 [0xff, 0x22] [] := rfl
  have htokens : lexemes [0x22, 0xff, 0x22] = [⟨some .string, [0x22, 0xff, 0x22]⟩] :=
    hleads.lexemes.trans (by rw [lexemes_nil]; rfl)
  obtain ⟨hwrite, hiff, -⟩ := uncolored_exact [0x22, 0xff, 0x22]
  have hbytes : (Sink.unlimited.writeHighlighted false [0x22, 0xff, 0x22]).bytes =
      [0x22, 0xef, 0xbf, 0xbd, 0x22] := by
    rw [hwrite, htokens]
    rfl
  exact ⟨hbytes, fun h => absurd (hbytes.symm.trans (hiff.2 h)) (by decide)⟩

end Highlight

end JsonSpan

import JsonSpan.Proofs.Strings.Escapes

/-!
# Escapes that denote nothing

Where the body of a quoted string denotes nothing, there is a first escape in it that does not, and the
fault is that of this escape (`Escape.decode_eq_error`). No escape lacks the character after the
backslash: in the body of a string a backslash has one, and the reading never loses step with the
backslashes (`EscapeText.body`).
-/

namespace JsonSpan

open Spelling (Body)

/-- An escape that denotes nothing, what stands after it in the string, and its fault. -/
inductive FaultyEscape : List Char → List Char → EscapeFault → Prop where
  | unknown {c : Char} {after : List Char} (h : Escape.simple? c = none) (hu : c ≠ 'u') :
    FaultyEscape ['\\', c] after (.unknown (some c))
  | truncated {ds after : List Char} (h : Utf8.size ds ≠ 4)
    (hend : ds.length = 4 ∨ ds.length < 4 ∧ after = []) :
    FaultyEscape ('\\' :: 'u' :: ds) after (.truncated (String.ofList ds))
  | notHex {ds after : List Char} (hsize : Utf8.size ds = 4) (h : Escape.signedHex? ds = none) :
    FaultyEscape ('\\' :: 'u' :: ds) after (.notHex (String.ofList ds))
  | unpaired {ds after : List Char} {n : Nat} (h : CodeText false ds n) (hhigh : Surrogate.isHigh n)
    (hlone : ∀ ds' low more, CodeText true ds' low → Surrogate.isLow low →
      after ≠ '\\' :: 'u' :: (ds' ++ more)) :
    FaultyEscape ('\\' :: 'u' :: ds) after .unpaired
  | notChar {ds after : List Char} {n : Nat} (h : CodeText false ds n) (hlow : Surrogate.isLow n) :
    FaultyEscape ('\\' :: 'u' :: ds) after (.notChar n)

/-- What may stand before an escape that is read: a text that denotes one, or this and the first code
of a character that takes two. -/
inductive BeforeEscape : List Char → Prop where
  | text {raw t : List Char} (h : Spells true raw t) : BeforeEscape raw
  | high {raw t ds : List Char} {n : Nat} (h : Spells true raw t) (hds : CodeText false ds n)
    (hhigh : Surrogate.isHigh n) : BeforeEscape (raw ++ '\\' :: 'u' :: ds)

/-- The first escape of a text that denotes nothing has this fault. -/
def HasFault (t : List Char) (fault : EscapeFault) : Prop :=
  ∃ before escape after, t = before ++ (escape ++ after) ∧ BeforeEscape before ∧
    FaultyEscape escape after fault

theorem Spells.append {raw raw' t t' : List Char} (h : Spells true raw t)
    (h' : Spells true raw' t') : Spells true (raw ++ raw') (t ++ t') := by
  induction h with
  | nil => exact h'
  | plain hc _ ih => exact .plain hc ih
  | escape he _ ih =>
    rw [List.cons_append, List.append_assoc]
    exact .escape he ih

theorem BeforeEscape.append {raw t before : List Char} (h : Spells true raw t)
    (hbefore : BeforeEscape before) : BeforeEscape (raw ++ before) := by
  cases hbefore with
  | text h' => exact .text (h.append h')
  | high h' hds hhigh =>
    rw [← List.append_assoc]
    exact .high (h.append h') hds hhigh

theorem HasFault.append {raw t u : List Char} {fault : EscapeFault} (h : Spells true raw t)
    (hu : HasFault u fault) : HasFault (raw ++ u) fault := by
  obtain ⟨before, escape, after, rfl, hbefore, hfault⟩ := hu
  exact ⟨raw ++ before, escape, after, by rw [List.append_assoc], hbefore.append h, hfault⟩

namespace FaultyEscape

theorem hasFault {escape after : List Char} {fault : EscapeFault}
    (h : FaultyEscape escape after fault) : HasFault (escape ++ after) fault :=
  ⟨[], escape, after, rfl, .text .nil, h⟩

/-! ### Faults of codes -/

theorem of_unit {cs : List Char} {fault : EscapeFault} (h : Escape.unit cs = .error fault) :
    FaultyEscape ('\\' :: 'u' :: cs.take 4) (cs.drop 4) fault := by
  simp only [Escape.unit] at h
  split at h
  · next hsize =>
    cases h
    refine .truncated hsize ?_
    rw [List.length_take, List.drop_eq_nil_iff]
    omega
  · next hsize =>
    split at h
    · cases h
    · next hnone =>
      cases h
      exact .notHex (not_not.1 hsize) hnone

end FaultyEscape

namespace Escape

theorem hasFault_of_unit {cs : List Char} {fault : EscapeFault} (h : unit cs = .error fault) :
    HasFault ('\\' :: 'u' :: cs) fault := by
  have hfault := (FaultyEscape.of_unit h).hasFault
  simpa using hfault

theorem hasFault_of_code {cs : List Char} {fault : EscapeFault} (h : code cs = .error fault) :
    HasFault ('\\' :: 'u' :: cs) fault := by
  rcases bind_eq_error.1 h with hunit | ⟨⟨first, rest⟩, hfirst, hrest⟩
  · exact hasFault_of_unit hunit
  obtain ⟨ds, rfl, hds⟩ := unit_eq_ok.1 hfirst
  dsimp only at hrest
  split at hrest
  · next hhigh =>
    have hds := hds.of_surrogate (.inl hhigh)
    have hunpaired (hlone : ∀ ds' low more, CodeText true ds' low → Surrogate.isLow low →
        rest ≠ '\\' :: 'u' :: (ds' ++ more)) : HasFault ('\\' :: 'u' :: ds ++ rest) .unpaired :=
      (FaultyEscape.unpaired hds hhigh hlone).hasFault
    split at hrest
    · next rest =>
      rcases bind_eq_error.1 hrest with hunit | ⟨⟨second, more⟩, hsecond, hpair⟩
      · have hbefore : BeforeEscape ('\\' :: 'u' :: ds) := .high .nil hds hhigh
        exact ⟨_, _, _, by simp, hbefore, .of_unit hunit⟩
      · dsimp only at hpair
        split at hpair
        · cases hpair
        · next hlow =>
          cases hpair
          refine hunpaired fun ds' low more' hds' hlow' heq => hlow ?_
          have hunit : unit rest = .ok (low, more') :=
            unit_eq_ok.2 ⟨ds', (List.cons.inj (List.cons.inj heq).2).2, hds'⟩
          rw [hsecond] at hunit
          cases hunit
          exact hlow'
    · next hno =>
      cases hrest
      exact hunpaired fun ds' low more _ _ => hno (ds' ++ more)
  · cases hrest

/-! ### Faults of escapes -/

theorem hasFault_of_char {c : Char} {cs : List Char} {fault : EscapeFault}
    (h : char (c :: cs) = .error fault) : HasFault ('\\' :: c :: cs) fault := by
  rw [char] at h
  split at h
  · cases h
  · next hsimple =>
    split at h
    · next hu =>
      subst hu
      rcases bind_eq_error.1 h with hcode | ⟨⟨n, rest⟩, hn, hchar⟩
      · exact hasFault_of_code hcode
      · dsimp only at hchar
        split at hchar
        · cases hchar
        · next hvalid =>
          cases hchar
          -- A number that no character has is a low surrogate, and so has no sign.
          rcases code_eq_ok.1 hn with
            ⟨ds, rfl, hds, hhigh⟩ | ⟨ds, ds', high, low, -, -, hhigh, -, hlow, hpaired⟩
          · have hlow : Surrogate.isLow n := by
              by_contra hlow
              exact hvalid ((isValidChar_of_not_surrogate hds.lt hhigh).2 hlow)
            exact (FaultyEscape.notChar (hds.of_surrogate (.inr hlow)) hlow).hasFault
          · rw [hpaired] at hvalid
            exact absurd (isValidChar_paired hhigh hlow) hvalid
    · next hu =>
      cases h
      exact (FaultyEscape.unknown hsimple hu).hasFault

end Escape

/-! ### Keeping step with the backslashes -/

namespace Spelling

theorem Body.of_escaped {close c : Char} {t : List Char} (h : Body close ('\\' :: c :: t)) :
    Body close t := by
  cases h with
  | escaped _ h => exact h
  | plain _ hb _ => exact absurd rfl hb

theorem Body.of_plain {close c : Char} {t : List Char} (hc : c ≠ '\\') (h : Body close (c :: t)) :
    Body close t := by
  cases h with
  | escaped _ _ => exact absurd rfl hc
  | plain _ _ h => exact h

theorem Body.of_append {close : Char} {ds rest : List Char} (hds : ∀ c ∈ ds, c ≠ '\\')
    (h : Body close (ds ++ rest)) : Body close rest := by
  induction ds with
  | nil => exact h
  | cons d ds ih =>
    obtain ⟨hd, hds⟩ := List.forall_mem_cons.1 hds
    exact ih hds (h.of_plain hd)

end Spelling

theorem HexDigit.char_ne_backslash (d : HexDigit) : d.char ≠ '\\' := by
  intro h
  have hvalid := d.valid
  rw [h] at hvalid
  exact absurd hvalid (by decide)

theorem CodeText.no_backslash {signed : Bool} {ds : List Char} {n : Nat} (h : CodeText signed ds n) :
    ∀ c ∈ ds, c ≠ '\\' := by
  cases h with
  | digits n => simp [HexDigit.char_ne_backslash]
  | plus _ b c d => simp [HexDigit.char_ne_backslash]

theorem EscapeText.body {close c : Char} {e rest : List Char} (he : EscapeText true e c)
    (h : Body close ('\\' :: (e ++ rest))) : Body close rest := by
  cases he with
  | short e => exact h.of_escaped
  | apostrophe => exact h.of_escaped
  | code hds _ _ => exact h.of_escaped.of_append hds.no_backslash
  | @pair ds ds' _ _ hds _ hds' _ =>
    have hafter : Body close (ds ++ '\\' :: 'u' :: (ds' ++ rest)) := by
      simpa using h.of_escaped
    exact (hafter.of_append hds.no_backslash).of_escaped.of_append hds'.no_backslash

namespace Escape

/-- The fault of a string is that of its first escape that denotes nothing. -/
theorem decode_eq_error {close : Char} {body : List Char} {fault : EscapeFault}
    (h : Body close body) (hfault : decode body = .error fault) : HasFault body fault := by
  induction body using decode.induct with
  | case1 =>
    rw [decode] at hfault
    cases hfault
  | case2 cs c rest hc ih =>
    obtain ⟨e, rfl, he⟩ := char_eq_ok.1 hc
    rw [decode_escaped hc] at hfault
    have hrest := ih (he.body h) (map_eq_error.1 hfault)
    have hspells : Spells true ('\\' :: (e ++ [])) [c] := .escape he .nil
    simpa using hrest.append hspells
  | case3 cs fault' hfault' =>
    rw [decode_escaped_error hfault'] at hfault
    cases hfault
    cases cs with
    | nil =>
      cases h with
      | plain _ hb _ => exact absurd rfl hb
    | cons c cs => exact hasFault_of_char hfault'
  | case4 c cs hne ih =>
    have hc : c ≠ '\\' := by
      rintro rfl
      exact hne rfl
    rw [decode_plain hc] at hfault
    have hcs := ih (h.of_plain hc) (map_eq_error.1 hfault)
    have hspells : Spells true [c] [c] := .plain hc .nil
    exact hcs.append hspells

end Escape

end JsonSpan

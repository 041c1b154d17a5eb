import JsonSpan.Proofs.Grammar.Balance
import JsonSpan.Proofs.Grammar.Completeness

/-!
# Which texts are paths

The texts that are accepted are those that the grammar spells, white space around them apart, and
the path that is read is the one that is spelled. So neither the order of alternatives nor what is
taken greedily, nor the matching of delimiters beforehand, excludes a text or decides between two
ways to read one.
-/

namespace JsonSpan

open Spelling

theorem Path.parse_eq (s : String) : Path.parse s = (do
    checkDelimiters (Text.trimChars s.toList)
    ofChars (Text.trimChars s.toList)) :=
  rfl

theorem Path.parse_of_pathText {s : String} {p : Path} (h : PathText (Text.trimChars s.toList) p) :
    Path.parse s = .ok p := by
  rw [parse_eq, checkDelimiters_of_pathText h]
  exact ofChars_of_pathText h

theorem Path.pathText_of_parse {s : String} {p : Path} (h : Path.parse s = .ok p) :
    PathText (Text.trimChars s.toList) p := by
  rw [parse_eq] at h
  obtain ⟨_, _, hp⟩ := bind_eq_ok.1 h
  exact pathText_of_ofChars hp

/-- No text spells two paths. -/
theorem Spelling.PathText.unique {t : List Char} {p q : Path} (hp : PathText t p)
    (hq : PathText t q) : p = q := by
  have hread := (ofChars_of_pathText hp).symm.trans (ofChars_of_pathText hq)
  exact Except.ok.inj hread

/-- A path is read from a text if and only if the text, without the white space around it, spells
that path. -/
theorem Path.parse_eq_ok_iff {s : String} {p : Path} :
    Path.parse s = .ok p ↔ PathText (Text.trimChars s.toList) p :=
  ⟨pathText_of_parse, parse_of_pathText⟩

end JsonSpan

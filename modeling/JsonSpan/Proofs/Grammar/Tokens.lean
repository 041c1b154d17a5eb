import JsonSpan.Proofs.Grammar.Reading
import JsonSpan.Proofs.Grammar.Spelling
import JsonSpan.Proofs.Tree.Numbers

/-!
# Tokens of paths

Each reader of a token takes exactly the spellings of the token. A spelling is read to its end if
what follows does not go on with it: after a name stands a reserved character, after a number one
that is reserved and no dot.
-/

namespace JsonSpan.Spelling

open Grammar Reader

/-- After a name stands a reserved character, if any. -/
def EndsName (rest : List Char) : Prop :=
  ∀ c ∈ rest.head?, isReserved c = true

/-- After a path or a constant stands a reserved character that starts no segment, if any. -/
def Ends (rest : List Char) : Prop :=
  ∀ c ∈ rest.head?, isReserved c = true ∧ c ≠ '.' ∧ c ≠ '['

theorem Ends.name {rest : List Char} (h : Ends rest) : EndsName rest :=
  fun c hc => (h c hc).1

theorem mem_reserved {c : Char} (h : isReserved c = true) :
    c ∈ ['.', '[', ']', '(', ')', ',', '=', '!', '<', '>', '&', '|', '\'', '"', '*', ' ', '\t',
      '\r', '\n'] := by
  rw [isReserved, Bool.or_eq_true, List.contains_iff_mem] at h
  rcases h with h | h
  · exact List.mem_append_left [' ', '\t', '\r', '\n'] h
  · simp only [isBlank, Bool.or_eq_true, beq_iff_eq] at h
    rcases h with ((rfl | rfl) | rfl) | rfl <;> decide

theorem isReserved_of_isPlainChar {c : Char} (h : isPlainChar c = true) : isReserved c = false := by
  cases hr : isReserved c with
  | false => rfl
  | true =>
    have hall : ∀ c ∈ ['.', '[', ']', '(', ')', ',', '=', '!', '<', '>', '&', '|', '\'', '"', '*',
      ' ', '\t', '\r', '\n'], isPlainChar c = false := by decide
    rw [hall c (mem_reserved hr)] at h
    cases h

theorem EndsName.isAlphanum {rest : List Char} (h : EndsName rest) :
    ∀ c ∈ rest.head?, c.isAlphanum = false := by
  intro c hc
  have hall : ∀ c ∈ ['.', '[', ']', '(', ')', ',', '=', '!', '<', '>', '&', '|', '\'', '"', '*',
    ' ', '\t', '\r', '\n'], c.isAlphanum = false := by decide
  exact hall c (mem_reserved (h c hc))

theorem EndsName.isDigit {rest : List Char} (h : EndsName rest) :
    ∀ c ∈ rest.head?, c.isDigit = false := by
  intro c hc
  have := h.isAlphanum c hc
  rw [Char.isAlphanum, Bool.or_eq_false_iff] at this
  exact this.2

theorem EndsName.isAlpha {rest : List Char} (h : EndsName rest) :
    ∀ c ∈ rest.head?, c.isAlpha = false := by
  intro c hc
  have := h.isAlphanum c hc
  rw [Char.isAlphanum, Bool.or_eq_false_iff] at this
  exact this.1

/-- A meaning is a fault, or a value that is related to the text. -/
def Denotes {α : Type} (S : List Char → α → Prop) (t : List Char) (m : Meaning α) : Prop :=
  ∀ a, m = .ok a → S t a

theorem forall_head_append {t u : List Char} {P : Char → Prop} (ht : ∀ c ∈ t.head?, P c)
    (hu : ∀ c ∈ u.head?, P c) : ∀ c ∈ (t ++ u).head?, P c := by
  cases t with
  | nil => exact hu
  | cons c t => exact ht

/-- The first character of a text, whatever follows the text, is one for which the property holds. -/
def Starts (P : Char → Prop) (t : List Char) : Prop :=
  ∃ c more, t = c :: more ∧ P c

theorem Starts.head {P : Char → Prop} {t : List Char} (h : Starts P t) (rest : List Char) :
    ∀ c ∈ (t ++ rest).head?, P c := by
  obtain ⟨c, more, rfl, hc⟩ := h
  rintro d hd
  cases hd
  exact hc

theorem Starts.append {P : Char → Prop} {t : List Char} (h : Starts P t) (u : List Char) :
    Starts P (t ++ u) := by
  obtain ⟨c, more, rfl, hc⟩ := h
  exact ⟨c, more ++ u, rfl, hc⟩

theorem Starts.mono {P Q : Char → Prop} {t : List Char} (h : Starts P t) (hPQ : ∀ c, P c → Q c) :
    Starts Q t := by
  obtain ⟨c, more, ht, hc⟩ := h
  exact ⟨c, more, ht, hPQ c hc⟩

theorem Starts.length_pos {P : Char → Prop} {t : List Char} (h : Starts P t) : 0 < t.length := by
  obtain ⟨c, more, rfl, _⟩ := h
  simp

theorem mem_blanks {c : Char} (h : isBlank c = true) : c ∈ [' ', '\t', '\r', '\n'] := by
  simp only [isBlank, Bool.or_eq_true, beq_iff_eq] at h
  rcases h with ((rfl | rfl) | rfl) | rfl <;> decide

theorem isDigit_or_minus {c : Char} (h : c = '-' ∨ c.isDigit = true) :
    isBlank c = false ∧ c ∉ ['!', '(', '/', '=', '@', '$'] := by
  rcases h with rfl | h
  · decide
  constructor
  · cases hb : isBlank c with
    | false => rfl
    | true =>
      have hall : ∀ c ∈ [' ', '\t', '\r', '\n'], c.isDigit = false := by decide
      rw [hall c (mem_blanks hb)] at h
      cases h
  · intro hc
    have hall : ∀ c ∈ ['!', '(', '/', '=', '@', '$'], c.isDigit = false := by decide
    rw [hall c hc] at h
    cases h

/-! ### Names -/

theorem reads_fieldName {t rest : List Char} {s : String} (h : NameText t s)
    (hr : EndsName rest) : Reads fieldName (t ++ rest) (.ok (.field s)) rest := by
  obtain ⟨hne, hplain⟩ := h
  obtain ⟨c, cs, rfl⟩ := List.exists_cons_of_ne_nil hne
  have hfree : ∀ d ∈ c :: cs, (!isReserved d) = true := by
    intro d hd
    rw [isReserved_of_isPlainChar (hplain d hd)]
    rfl
  have hstop : ∀ d ∈ rest.head?, (!isReserved d) = false := by
    intro d hd
    rw [hr d hd]
    rfl
  have hmeaning : fieldMeaning (c :: cs) = .ok (.field (String.ofList (c :: cs))) := by
    rw [fieldMeaning, if_pos]
    rw [isPlainName, Bool.and_eq_true, List.all_eq_true]
    exact ⟨rfl, hplain⟩
  rw [← hmeaning]
  exact Reads.rule _ ((reads_char (hfree c (by simp)) (cs ++ rest)).bind
    ((reads_run (fun d hd => hfree d (by simp [hd])) hstop).bind (reads_pure _ rest)))

theorem takes_fieldMeaning : Takes fieldName fun t m => m = fieldMeaning t := by
  refine Takes.rule _ (((takes_char _).bind fun c => (takes_run _).bind fun cs =>
    takes_pure (fieldMeaning (c :: cs))).mono ?_)
  rintro _ _ ⟨_, _, c, rfl, ⟨rfl, _⟩, cs, _, _, rfl, ⟨rfl, _⟩, rfl, rfl⟩
  rw [List.append_nil]
  rfl

theorem takes_fieldName :
    Takes fieldName (Denotes fun t s => ∃ n, NameText t n ∧ s = .field n) := by
  refine takes_fieldMeaning.mono ?_
  rintro t _ rfl s hs
  rw [fieldMeaning] at hs
  split at hs
  · next hplain =>
    cases hs
    rw [isPlainName, Bool.and_eq_true, List.all_eq_true] at hplain
    exact ⟨_, .mk (by simpa using hplain.1) hplain.2, rfl⟩
  · cases hs

theorem reads_wildcard (rest : List Char) : Reads wildcard ('*' :: rest) (.ok .wildcard) rest :=
  Reads.rule _ ((reads_text ['*'] rest).bind (reads_pure _ rest))

theorem refuses_wildcard {cs : List Char} (h : cs.head? ≠ some '*') : Refuses wildcard cs :=
  Refuses.rule _ (Refuses.bind (refuses_text h))

theorem takes_wildcard :
    Takes wildcard fun t m => t = ['*'] ∧ m = .ok .wildcard := by
  refine Takes.rule _ (((takes_text ['*']).bind fun _ => takes_pure _).mono ?_)
  rintro _ _ ⟨_, _, _, rfl, rfl, rfl, rfl⟩
  exact ⟨rfl, rfl⟩

/-! ### Integers -/

theorem integerMeaning_eq_ok {negative : Bool} {ds : List Char} {i : Int64} :
    integerMeaning negative ds = .ok i ↔
      i.toInt = if negative then -(Decimal.ofDigits ds : Int) else Decimal.ofDigits ds := by
  have hmin := Int64.toInt_minValue
  have hmax := Int64.toInt_maxValue
  rw [integerMeaning]
  generalize (if negative then -(Decimal.ofDigits ds : Int) else Decimal.ofDigits ds) = n
  constructor
  · intro h
    split at h
    · next hn =>
      cases h
      exact Int64.toInt_ofInt_of_le (by omega) (by omega)
    · cases h
  · intro h
    have hlow := i.minValue_le_toInt
    have hhigh := i.toInt_le
    rw [if_pos (by omega), ← h, Int64.ofInt_toInt]

theorem IntegerText.starts {t : List Char} {i : Int64} (h : IntegerText t i) :
    Starts (fun c => c = '-' ∨ c.isDigit = true) t := by
  cases h with
  | positive ds _ =>
    obtain ⟨c, more, hc, hd⟩ := ds.exists_chars
    exact ⟨c, more, hc, .inr hd⟩
  | negative ds _ => exact ⟨'-', _, rfl, .inl rfl⟩

theorem reads_integer {t rest : List Char} {i : Int64} (h : IntegerText t i)
    (hr : ∀ c ∈ rest.head?, c.isDigit = false) : Reads integer (t ++ rest) (.ok i) rest := by
  cases h with
  | positive ds h =>
    obtain ⟨c, more, hc, hd⟩ := ds.exists_chars
    have hds : ∀ d ∈ more, d.isDigit := fun d hd => ds.digits d (by rw [hc]; simp [hd])
    have hminus : c ≠ '-' := by rintro rfl; exact absurd hd (by decide)
    have hi : integerMeaning false ds.chars = .ok i := integerMeaning_eq_ok.2 h
    rw [← hi, hc]
    exact Reads.rule _ ((Refuses.optional (refuses_char (by simpa using hminus))).bind
      ((reads_char hd _).bind ((reads_run hds hr).bind (reads_pure _ rest))))
  | negative ds h =>
    obtain ⟨c, more, hc, hd⟩ := ds.exists_chars
    have hds : ∀ d ∈ more, d.isDigit := fun d hd => ds.digits d (by rw [hc]; simp [hd])
    have hi : integerMeaning true ds.chars = .ok i := integerMeaning_eq_ok.2 h
    rw [← hi, hc]
    exact Reads.rule _ ((Reads.optional (reads_char (decide_eq_true rfl) _)).bind
      ((reads_char hd _).bind ((reads_run hds hr).bind (reads_pure _ rest))))

/-- Neither a sign nor a digit is at the front. -/
def NoInteger (cs : List Char) : Prop :=
  ∀ c ∈ cs.head?, c ≠ '-' ∧ c.isDigit = false

theorem refuses_integer {cs : List Char} (h : NoInteger cs) : Refuses integer cs := by
  refine Refuses.rule _ (Reads.refuses_bind (Refuses.optional (refuses_char ?_))
    (Refuses.bind (refuses_char fun c hc => (h c hc).2)))
  intro c hc
  exact beq_eq_false_iff_ne.2 (h c hc).1

theorem takes_integerMeaning : Takes integer fun t m => ∃ negative ds,
    t = (if negative then '-' :: ds else ds) ∧ ds ≠ [] ∧ (∀ c ∈ ds, c.isDigit) ∧
      m = integerMeaning negative ds := by
  refine Takes.rule _ (((Takes.optional (takes_char _)).bind fun _ => (takes_char _).bind fun _ =>
    (takes_run _).bind fun _ => takes_pure _).mono ?_)
  rintro _ _ ⟨t, _, sign, rfl, hsign, _, _, d, rfl, ⟨rfl, hd⟩, _, _, ds, rfl, ⟨rfl, hds⟩, rfl, rfl⟩
  have hall : ∀ c ∈ d :: ds, c.isDigit := List.forall_mem_cons.2 ⟨hd, hds⟩
  rw [List.append_nil]
  rcases hsign with ⟨rfl, rfl⟩ | ⟨c, rfl, rfl, hc⟩
  · exact ⟨false, d :: ds, rfl, List.cons_ne_nil d ds, hall, rfl⟩
  · rw [beq_iff_eq.1 hc]
    exact ⟨true, d :: ds, rfl, List.cons_ne_nil d ds, hall, rfl⟩

theorem takes_integer : Takes integer (Denotes IntegerText) := by
  refine takes_integerMeaning.mono ?_
  rintro _ _ ⟨negative, ds, rfl, hne, hds, rfl⟩ i hi
  have hvalue := integerMeaning_eq_ok.1 hi
  cases negative with
  | false => exact .positive ⟨ds, hne, hds⟩ hvalue
  | true => exact .negative ⟨ds, hne, hds⟩ hvalue

/-! ### Strings -/

theorem StringText.starts {t : List Char} {s : String} (h : StringText t s) :
    Starts (fun c => c = '"' ∨ c = '\'') t := by
  cases h with
  | mk hq _ _ => exact ⟨_, _, rfl, hq⟩

theorem stringBody_append {close : Char} {t : List Char} (hclose : close ≠ '\\')
    (h : Body close t) (rest : List Char) : stringBody close (t ++ close :: rest) = t := by
  induction h with
  | nil =>
    rw [List.nil_append, stringBody, if_pos (.inl rfl)]
    simp [hclose]
  | escaped c _ ih => rw [List.cons_append, List.cons_append, stringBody, ih]
  | plain hc hb _ ih =>
    rw [List.cons_append, stringBody, if_neg (by simp [hc, hb]), ih]
    simp [hb]

theorem prefix_stringBody (close : Char) (cs : List Char) :
    stringBody close cs <+: cs ∧ Body close (stringBody close cs) := by
  fun_induction stringBody close cs with
  | case1 c cs ih => exact ⟨by simpa using ih.1, .escaped c ih.2⟩
  | case2 c cs _ hc => exact ⟨List.nil_prefix, .nil⟩
  | case3 c cs _ hc ih =>
    rw [not_or] at hc
    exact ⟨by simpa using ih.1, .plain hc.1 hc.2 ih.2⟩
  | case4 => exact ⟨List.nil_prefix, .nil⟩

theorem reads_quoted {close : Char} {t cs : List Char} (hclose : close ≠ '\\') (h : Body close t)
    (hd : Escape.decode t = .ok cs) (rest : List Char) :
    Reads (quoted close) (close :: t ++ [close] ++ rest) (.ok (String.ofList cs)) rest := by
  have hmeaning : stringMeaning t = .ok (String.ofList cs) := by
    rw [stringMeaning, hd]
  have hbody : Reads (taking (stringBody close)) (t ++ close :: rest) t (close :: rest) :=
    reads_taking (stringBody_append hclose h rest)
  rw [← hmeaning, List.append_assoc]
  exact (reads_text [close] (t ++ close :: rest)).bind (hbody.bind
    ((reads_text [close] rest).bind (reads_pure _ rest)))

theorem reads_string {t : List Char} {s : String} (h : StringText t s) (rest : List Char) :
    Reads string (t ++ rest) (.ok s) rest := by
  obtain @⟨_, t, cs, rfl | rfl, h, hd⟩ := h
  · exact Reads.rule _ (reads_quoted (by decide) h hd rest).or_left
  · have hno : Refuses (quoted '"') ('\'' :: t ++ ['\''] ++ rest) :=
      Refuses.bind (refuses_text (by simp))
    exact Reads.rule _ (hno.or_right (reads_quoted (by decide) h hd rest))

def NoString (cs : List Char) : Prop :=
  cs.head? ≠ some '"' ∧ cs.head? ≠ some '\''

theorem refuses_string {cs : List Char} (h : NoString cs) : Refuses string cs :=
  Refuses.rule _ ((refuses_text h.1).bind.or (refuses_text h.2).bind)

theorem takes_stringMeaning : Takes string fun t m => ∃ close body,
    (close = '"' ∨ close = '\'') ∧ Body close body ∧ t = close :: body ++ [close] ∧
      m = stringMeaning body := by
  have hquoted {close : Char} (hq : close = '"' ∨ close = '\'') : Takes (quoted close) fun t m =>
      ∃ close body, (close = '"' ∨ close = '\'') ∧ Body close body ∧ t = close :: body ++ [close] ∧
        m = stringMeaning body := by
    refine ((takes_text [close]).bind fun _ => (takes_taking (prefix_stringBody close)).bind fun _ =>
      (takes_text [close]).bind fun _ => takes_pure _).mono ?_
    rintro _ _ ⟨_, _, _, rfl, rfl, _, _, t, rfl, ⟨rfl, h⟩, _, _, _, rfl, rfl, rfl, rfl⟩
    exact ⟨close, t, hq, h, by simp, rfl⟩
  exact Takes.rule _ ((hquoted (.inl rfl)).or (hquoted (.inr rfl)))

theorem takes_string : Takes string (Denotes StringText) := by
  refine takes_stringMeaning.mono ?_
  rintro _ _ ⟨close, body, hq, h, rfl, rfl⟩ s hs
  rw [stringMeaning] at hs
  split at hs
  · next cs hd =>
    cases hs
    exact .mk hq h hd
  · cases hs

/-! ### Numbers -/

theorem reads_digits (ds : Digits) {rest : List Char} (hr : ∀ c ∈ rest.head?, c.isDigit = false) :
    Reads digits (ds.chars ++ rest) ds.chars rest := by
  obtain ⟨c, more, hc, hd⟩ := ds.exists_chars
  have hds : ∀ d ∈ more, d.isDigit := fun d hd => ds.digits d (by rw [hc]; simp [hd])
  rw [hc]
  exact (reads_char hd _).bind ((reads_run hds hr).bind (reads_pure _ rest))

theorem takes_digits : Takes digits fun t cs => ∃ ds : Digits, t = ds.chars ∧ cs = t := by
  refine ((takes_char _).bind fun _ => (takes_run _).bind fun _ => takes_pure _).mono ?_
  rintro _ _ ⟨_, _, c, rfl, ⟨rfl, hc⟩, _, _, cs, rfl, ⟨rfl, hcs⟩, rfl, rfl⟩
  refine ⟨⟨c :: cs, by simp, ?_⟩, by simp, by simp⟩
  rintro d hd
  rcases List.mem_cons.1 hd with rfl | hd
  · exact hc
  · exact hcs d hd

/-- The whole part of a number: a zero, or digits that do not start with one. -/
def whole : Reader Unit :=
  or (text ['0']) do
    let _ ← char fun c => c.isDigit && c != '0'
    let _ ← run Char.isDigit
    return ()

theorem reads_whole (n : Numeral) {rest : List Char}
    (hr : ∀ c ∈ rest.head?, c.isDigit = false) : Reads whole (n.whole.chars ++ rest) () rest := by
  rcases n.noLeadingZero with h | h
  · rw [h]
    exact (reads_text ['0'] rest).or_left
  · obtain ⟨c, more, hc, hd⟩ := n.whole.exists_chars
    have hds : ∀ d ∈ more, d.isDigit := fun d hd => n.whole.digits d (by rw [hc]; simp [hd])
    have hzero : c ≠ '0' := by simpa [hc] using h
    have hno : Refuses (text ['0']) (c :: more ++ rest) := refuses_text (by simpa using hzero)
    rw [hc]
    refine hno.or_right ((reads_char ?_ _).bind ((reads_run hds hr).bind (reads_pure _ rest)))
    simp [hd, hzero]

theorem takes_whole : Takes whole fun t _ =>
    ∃ ds : Digits, t = ds.chars ∧ (ds.chars = ['0'] ∨ ds.chars.head? ≠ some '0') := by
  refine Takes.or ((takes_text ['0']).mono ?_) (((takes_char _).bind fun _ =>
    (takes_run _).bind fun _ => takes_pure _).mono ?_)
  · rintro _ _ rfl
    exact ⟨⟨['0'], by decide, by decide⟩, rfl, .inl rfl⟩
  · rintro _ _ ⟨_, _, c, rfl, ⟨rfl, hc⟩, _, _, cs, rfl, ⟨rfl, hcs⟩, rfl, -⟩
    rw [Bool.and_eq_true, bne_iff_ne] at hc
    refine ⟨⟨c :: cs, by simp, ?_⟩, by simp, .inr (by simpa using hc.2)⟩
    rintro d hd
    rcases List.mem_cons.1 hd with rfl | hd
    · exact hc.1
    · exact hcs d hd

def fraction : Reader (Option (List Char)) :=
  optional do
    text ['.']
    digits

theorem reads_fraction (n : Numeral) {rest : List Char}
    (hr : ∀ c ∈ rest.head?, c.isDigit = false ∧ c ≠ '.') :
    Reads fraction (n.fractionChars ++ rest) (n.fraction.map Digits.chars) rest := by
  unfold Numeral.fractionChars
  cases n.fraction with
  | none =>
    refine Refuses.optional (Refuses.bind (refuses_text fun hdot => ?_))
    exact (hr '.' hdot).2 rfl
  | some ds =>
    exact Reads.optional ((reads_text ['.'] _).bind (reads_digits ds fun c hc => (hr c hc).1))

theorem takes_fraction : Takes fraction fun t _ =>
    t = [] ∨ ∃ ds : Digits, t = '.' :: ds.chars := by
  refine (Takes.optional ((takes_text ['.']).bind fun _ => takes_digits)).mono ?_
  rintro t _ (⟨_, rfl⟩ | ⟨_, _, _, _, _, rfl, rfl, ds, rfl, _⟩)
  · exact .inl rfl
  · exact .inr ⟨ds, rfl⟩

def exponent : Reader (Option (List Char)) :=
  optional do
    let _ ← char fun c => c == 'e' || c == 'E'
    let _ ← optional (char fun c => c == '+' || c == '-')
    digits

theorem reads_exponent (n : Numeral) {rest : List Char} (hr : EndsName rest) :
    Reads exponent (n.exponentChars ++ rest) (n.exponent.map fun e => e.digits.chars) rest := by
  unfold Numeral.exponentChars
  cases n.exponent with
  | none =>
    refine Refuses.optional (Refuses.bind (refuses_char fun c hc => ?_))
    have halpha := hr.isAlpha c hc
    rw [Bool.or_eq_false_iff, beq_eq_false_iff_ne, beq_eq_false_iff_ne]
    constructor <;> (rintro rfl; exact absurd halpha (by decide))
  | some e =>
    have hmark : ((if e.capital then 'E' else 'e') == 'e' ||
        (if e.capital then 'E' else 'e') == 'E') = true := by
      cases e.capital <;> decide
    refine Reads.optional ((reads_char hmark _).bind ?_)
    have hdigits := reads_digits e.digits hr.isDigit
    cases e.sign with
    | plus => exact (Reads.optional (reads_char (by decide) _)).bind hdigits
    | minus => exact (Reads.optional (reads_char (by decide) _)).bind hdigits
    | none =>
      obtain ⟨c, more, hc, hd⟩ := e.digits.exists_chars
      refine Reads.bind (Refuses.optional (refuses_char ?_)) hdigits
      show ∀ d ∈ (e.digits.chars ++ rest).head?, _
      rw [hc]
      rintro d hd'
      cases hd'
      rw [Bool.or_eq_false_iff, beq_eq_false_iff_ne, beq_eq_false_iff_ne]
      constructor <;> (rintro rfl; exact absurd hd (by decide))

theorem takes_exponent : Takes exponent fun t _ => t = [] ∨ ∃ e : Exponent, t = e.chars := by
  refine (Takes.optional ((takes_char _).bind fun _ => (Takes.optional (takes_char _)).bind fun _ =>
    takes_digits)).mono ?_
  rintro t _ (⟨_, rfl⟩ | ⟨_, _, _, _, mark, rfl, ⟨rfl, hmark⟩, _, _, _, rfl, hsign, ds, rfl, _⟩)
  · exact .inl rfl
  · rw [Bool.or_eq_true, beq_iff_eq, beq_iff_eq] at hmark
    obtain ⟨capital, hcapital⟩ : ∃ capital, mark = if capital = true then 'E' else 'e' := by
      rcases hmark with rfl | rfl
      · exact ⟨false, rfl⟩
      · exact ⟨true, rfl⟩
    right
    rcases hsign with ⟨_, rfl⟩ | ⟨sign, _, rfl, hsign⟩
    · exact ⟨⟨capital, .none, ds⟩, by rw [hcapital]; rfl⟩
    · rw [Bool.or_eq_true, beq_iff_eq, beq_iff_eq] at hsign
      rcases hsign with rfl | rfl
      · exact ⟨⟨capital, .plus, ds⟩, by rw [hcapital]; rfl⟩
      · exact ⟨⟨capital, .minus, ds⟩, by rw [hcapital]; rfl⟩

theorem numeral_eq : numeral = (do
    let _ ← optional (char (· == '-'))
    let _ ← whole
    let _ ← fraction
    let _ ← exponent
    return ()) := rfl

theorem reads_sign (n : Numeral) (rest : List Char) :
    Reads (optional (char (· == '-'))) ((if n.negative then ['-'] else []) ++ (n.whole.chars ++ rest))
      (if n.negative then some '-' else none) (n.whole.chars ++ rest) := by
  cases n.negative with
  | true => exact Reads.optional (reads_char (by decide) _)
  | false =>
    refine Refuses.optional (refuses_char ?_)
    obtain ⟨c, more, hc, hd⟩ := n.whole.exists_chars
    show ∀ d ∈ (n.whole.chars ++ rest).head?, _
    rw [hc]
    rintro d hd'
    cases hd'
    rw [beq_eq_false_iff_ne]
    rintro rfl
    exact absurd hd (by decide)

theorem reads_numeral (n : Numeral) {rest : List Char} (hr : Ends rest) :
    Reads numeral (n.chars ++ rest) () rest := by
  have hends : ∀ c ∈ rest.head?, c.isDigit = false ∧ c ≠ '.' :=
    fun c hc => ⟨hr.name.isDigit c hc, (hr c hc).2.1⟩
  have hafter := forall_head_append n.isDigit_head_exponentChars hends
  have hbefore : ∀ c ∈ (n.fractionChars ++ (n.exponentChars ++ rest)).head?, c.isDigit = false := by
    rw [← List.append_assoc]
    exact forall_head_append n.isDigit_head_fractionChars fun c hc => (hends c hc).1
  rw [numeral_eq, Numeral.chars]
  simp only [List.append_assoc]
  exact (reads_sign n _).bind ((reads_whole n hbefore).bind ((reads_fraction n hafter).bind
    ((reads_exponent n hr.name).bind (reads_pure () rest))))

theorem takes_numeral : Takes numeral fun t _ => ∃ n : Numeral, t = n.chars := by
  rw [numeral_eq]
  refine ((Takes.optional (takes_char _)).bind fun _ => takes_whole.bind fun _ =>
    takes_fraction.bind fun _ => takes_exponent.bind fun _ => takes_pure _).mono ?_
  rintro _ _ ⟨sign, _, _, rfl, hsign, _, _, _, rfl, ⟨ds, rfl, hzero⟩, f, _, _, rfl, hf, e, _, _, rfl,
    he, rfl, _⟩
  obtain ⟨negative, hnegative⟩ : ∃ negative, sign = if negative = true then ['-'] else [] := by
    rcases hsign with ⟨_, rfl⟩ | ⟨c, _, rfl, hc⟩
    · exact ⟨false, rfl⟩
    · exact ⟨true, by rw [beq_iff_eq.1 hc]; rfl⟩
  obtain ⟨fraction, hfraction⟩ : ∃ fraction : Option Digits,
      f = (fraction.elim [] fun ds => '.' :: ds.chars) := by
    rcases hf with rfl | ⟨ds, rfl⟩
    · exact ⟨none, rfl⟩
    · exact ⟨some ds, rfl⟩
  obtain ⟨exponent, hexponent⟩ : ∃ exponent : Option Exponent,
      e = exponent.elim [] Exponent.chars := by
    rcases he with rfl | ⟨e, rfl⟩
    · exact ⟨none, rfl⟩
    · exact ⟨some e, rfl⟩
  refine ⟨⟨negative, ds, fraction, exponent, hzero⟩, ?_⟩
  rw [hnegative, hfraction, hexponent, Numeral.chars]
  simp only [List.append_assoc, List.append_nil]
  cases fraction <;> cases exponent <;> rfl

theorem reads_number (n : Numeral) {rest : List Char} (hr : Ends rest) :
    Reads number (n.chars ++ rest) (.ok (.number (.ofDecimal n.value))) rest := by
  rw [← n.ofNumeral_chars]
  exact Reads.rule _ ((reads_numeral n hr).withText.bind (reads_pure _ rest))

theorem refuses_number {cs : List Char} (h : NoInteger cs) : Refuses number cs := by
  refine Refuses.rule _ (Refuses.bind (Refuses.withText ?_))
  rw [numeral_eq]
  refine Reads.refuses_bind (Refuses.optional (refuses_char ?_)) (Refuses.bind (Refuses.or ?_ ?_))
  · intro c hc
    exact beq_eq_false_iff_ne.2 (h c hc).1
  · refine refuses_text fun hzero => ?_
    exact absurd (h '0' hzero).2 (by decide)
  · refine Refuses.bind (refuses_char fun c hc => ?_)
    rw [(h c hc).2, Bool.false_and]

theorem takes_number : Takes number (Denotes LiteralText) := by
  refine Takes.rule _ (((Takes.withText takes_numeral).bind fun _ => takes_pure _).mono ?_)
  rintro _ _ ⟨_, _, ⟨_, t⟩, rfl, ⟨⟨n, rfl⟩, rfl⟩, rfl, rfl⟩ v hv
  cases hv
  rw [List.append_nil, n.ofNumeral_chars]
  exact .number n

/-! ### Constants -/

theorem Numeral.starts (n : Numeral) : Starts (fun c => c = '-' ∨ c.isDigit = true) n.chars := by
  rw [Numeral.chars]
  cases n.negative with
  | true => exact ⟨'-', _, rfl, .inl rfl⟩
  | false =>
    obtain ⟨c, more, hc, hd⟩ := n.whole.exists_chars
    rw [hc]
    exact ⟨c, _, rfl, .inr hd⟩

theorem LiteralText.starts {t : List Char} {v : Literal} (h : LiteralText t v) :
    Starts (fun c => isBlank c = Bool.false ∧ c ∉ ['!', '(', '/', '=', '@', '$']) t := by
  cases h with
  | number n => exact (Numeral.starts n).mono fun c => isDigit_or_minus
  | string h =>
    refine h.starts.mono fun c hc => ?_
    rcases hc with rfl | rfl <;> decide
  | true => exact ⟨'t', _, rfl, by decide⟩
  | false => exact ⟨'f', _, rfl, by decide⟩
  | null => exact ⟨'n', _, rfl, by decide⟩

/-- A side spells an operand, or it is a string with its own text. -/
def SideText (t : List Char) : Side → Prop
  | .string m => Denotes StringText t m
  | .other _ m => Denotes OperandText t m

theorem SideText.operand {t : List Char} {side : Side} (h : SideText t side) :
    Denotes OperandText t side.operand := by
  cases side with
  | other cs m => exact h
  | string m =>
    intro a ha
    cases m with
    | error fault => cases ha
    | ok s =>
      cases ha
      exact .literal (.string (h s rfl))

/-- The reader of a constant along with its text. -/
def constant (r : Reader (Meaning Literal)) : Reader Side := do
  let (value, cs) ← withText r
  return .other cs (value.map .literal)

theorem literal_eq : literal =
    or (constant number) (or (do return .string (← string))
      (or (constant (word .trueWord "true" (.boolean true)))
        (or (constant (word .falseWord "false" (.boolean false)))
          (constant (word .nullWord "null" .null))))) := rfl

theorem reads_constant {r : Reader (Meaning Literal)} {t rest : List Char} {v : Literal}
    (h : Reads r (t ++ rest) (.ok v) rest) :
    Reads (constant r) (t ++ rest) (.other t (.ok (.literal v))) rest :=
  h.withText.bind (reads_pure _ rest)

theorem refuses_constant {r : Reader (Meaning Literal)} {cs : List Char} (h : Refuses r cs) :
    Refuses (constant r) cs :=
  h.withText.bind

theorem takes_constant {r : Reader (Meaning Literal)} (h : Takes r (Denotes LiteralText)) :
    Takes (constant r) SideText := by
  refine ((Takes.withText h).bind fun _ => takes_pure _).mono ?_
  rintro _ _ ⟨t, _, ⟨m, _⟩, rfl, ⟨hm, rfl⟩, rfl, rfl⟩ a ha
  rw [List.append_nil]
  cases m with
  | error fault => cases ha
  | ok v =>
    cases ha
    exact .literal (hm v rfl)

theorem reads_word (which : Rule) (name : String) (value : Literal) (rest : List Char) :
    Reads (word which name value) (name.toList ++ rest) (.ok value) rest :=
  Reads.rule _ ((reads_text name.toList rest).bind (reads_pure _ rest))

theorem refuses_word {which : Rule} {name : String} {value : Literal} {c : Char} {t cs : List Char}
    (hname : name.toList = c :: t) (h : cs.head? ≠ some c) : Refuses (word which name value) cs := by
  refine Refuses.rule _ (Refuses.bind ?_)
  rw [hname]
  exact refuses_text h

theorem takes_word {which : Rule} {name : String} {value : Literal}
    (h : LiteralText name.toList value) : Takes (word which name value) (Denotes LiteralText) := by
  refine Takes.rule _ (((takes_text name.toList).bind fun _ => takes_pure _).mono ?_)
  rintro _ _ ⟨_, _, _, rfl, rfl, rfl, rfl⟩ v hv
  cases hv
  rw [List.append_nil]
  exact h

theorem reads_literal_string {t : List Char} {s : String} (h : StringText t s) (rest : List Char) :
    Reads literal (t ++ rest) (.string (.ok s)) rest := by
  have hno : NoInteger (t ++ rest) := by
    cases h with
    | mk hq _ _ =>
      intro c hc
      cases hc
      rcases hq with rfl | rfl <;> decide
  rw [literal_eq]
  refine (refuses_constant (refuses_number hno)).or_right (Reads.or_left ?_)
  exact (reads_string h rest).bind (reads_pure _ rest)

theorem reads_literal {t rest : List Char} {v : Literal} (h : LiteralText t v) (hr : Ends rest) :
    ∃ side, Reads literal (t ++ rest) side rest ∧ side.operand = .ok (.literal v) := by
  have hnumber : ∀ {cs : List Char}, NoInteger cs → Refuses (constant number) cs :=
    fun hno => refuses_constant (refuses_number hno)
  have hstring : ∀ {cs : List Char}, NoString cs →
      Refuses (string >>= fun s => Pure.pure (Side.string s)) cs :=
    fun hno => (refuses_string hno).bind
  cases h with
  | number n =>
    exact ⟨_, (reads_constant (reads_number n hr)).or_left, rfl⟩
  | string h => exact ⟨_, reads_literal_string h rest, rfl⟩
  | true =>
    refine ⟨_, (hnumber ?_).or_right ((hstring ?_).or_right
      (reads_constant (reads_word .trueWord "true" (.boolean true) rest)).or_left), rfl⟩
    · rintro c ⟨⟩
      decide
    · exact ⟨by simp, by simp⟩
  | false =>
    refine ⟨_, (hnumber ?_).or_right ((hstring ?_).or_right
      ((refuses_constant (refuses_word (c := 't') rfl ?_)).or_right
        (reads_constant (reads_word .falseWord "false" (.boolean false) rest)).or_left)), rfl⟩
    · rintro c ⟨⟩
      decide
    · exact ⟨by simp, by simp⟩
    · simp
  | null =>
    refine ⟨_, (hnumber ?_).or_right ((hstring ?_).or_right
      ((refuses_constant (refuses_word (c := 't') rfl ?_)).or_right
        ((refuses_constant (refuses_word (c := 'f') rfl ?_)).or_right
          (reads_constant (reads_word .nullWord "null" .null rest))))), rfl⟩
    · rintro c ⟨⟩
      decide
    · exact ⟨by simp, by simp⟩
    · simp
    · simp

theorem takes_literal : Takes literal SideText := by
  rw [literal_eq]
  refine (takes_constant takes_number).or (Takes.or ?_ ((takes_constant (takes_word .true)).or
    ((takes_constant (takes_word .false)).or (takes_constant (takes_word .null)))))
  refine (takes_string.bind fun _ => takes_pure _).mono ?_
  rintro _ _ ⟨t, _, m, rfl, hm, rfl, rfl⟩
  rw [List.append_nil]
  exact hm

/-! ### Operators -/

def sign (cs : List Char) (op : Option Comparison) : Reader (Option Comparison) := do
  text cs
  return op

theorem operator_eq : operator = Reader.rule .operator
    (or (sign ['=', '='] (some .equal)) (or (sign ['!', '='] (some .unequal))
      (or (sign ['<', '='] (some .lessEqual)) (or (sign ['>', '='] (some .greaterEqual))
        (or (sign ['=', '~'] none) (or (sign ['<'] (some .less)) (sign ['>'] (some .greater)))))))) :=
  rfl

theorem reads_sign_text (cs : List Char) (op : Option Comparison) (rest : List Char) :
    Reads (sign cs op) (cs ++ rest) op rest :=
  (reads_text cs rest).bind (reads_pure op rest)

theorem refuses_sign {c : Char} {t cs : List Char} (op : Option Comparison)
    (h : cs.head? ≠ some c) : Refuses (sign (c :: t) op) cs :=
  Refuses.bind (refuses_text h)

theorem refuses_sign_second {c d : Char} {t cs : List Char} (op : Option Comparison)
    (h : cs.head? ≠ some d) : Refuses (sign (c :: d :: t) op) (c :: cs) :=
  Refuses.bind ((reads_char (beq_self_eq_true c) cs).refuses_bind (refuses_text h))

theorem takes_sign (cs : List Char) (op : Option Comparison) :
    Takes (sign cs op) fun t op' => t = cs ∧ op' = op := by
  refine ((takes_text cs).bind fun _ => takes_pure op).mono ?_
  rintro _ _ ⟨_, _, _, rfl, rfl, rfl, rfl⟩
  exact ⟨List.append_nil _, rfl⟩

/-- The operator for patterns, or one that compares. -/
inductive OperatorText : List Char → Option Comparison → Prop where
  | like : OperatorText ['=', '~'] none
  | compare {t : List Char} {op : Comparison} (h : ComparisonText t op) : OperatorText t (some op)

theorem reads_operator {t rest : List Char} {op : Option Comparison} (h : OperatorText t op)
    (hr : rest.head? ≠ some '=') : Reads operator (t ++ rest) op rest := by
  rw [operator_eq]
  refine Reads.rule _ ?_
  cases h with
  | like =>
    exact (refuses_sign_second _ (by simp)).or_right ((refuses_sign _ (by simp)).or_right
      ((refuses_sign _ (by simp)).or_right ((refuses_sign _ (by simp)).or_right
        (reads_sign_text ['=', '~'] none rest).or_left)))
  | compare h =>
    cases h with
    | equal => exact (reads_sign_text ['=', '='] _ rest).or_left
    | unequal =>
      exact (refuses_sign _ (by simp)).or_right (reads_sign_text ['!', '='] _ rest).or_left
    | lessEqual =>
      exact (refuses_sign _ (by simp)).or_right ((refuses_sign _ (by simp)).or_right
        (reads_sign_text ['<', '='] _ rest).or_left)
    | greaterEqual =>
      exact (refuses_sign _ (by simp)).or_right ((refuses_sign _ (by simp)).or_right
        ((refuses_sign _ (by simp)).or_right (reads_sign_text ['>', '='] _ rest).or_left))
    | less =>
      exact (refuses_sign _ (by simp)).or_right ((refuses_sign _ (by simp)).or_right
        ((refuses_sign_second _ hr).or_right ((refuses_sign _ (by simp)).or_right
          ((refuses_sign _ (by simp)).or_right (reads_sign_text ['<'] _ rest).or_left))))
    | greater =>
      exact (refuses_sign _ (by simp)).or_right ((refuses_sign _ (by simp)).or_right
        ((refuses_sign _ (by simp)).or_right ((refuses_sign_second _ hr).or_right
          ((refuses_sign _ (by simp)).or_right ((refuses_sign _ (by simp)).or_right
            (reads_sign_text ['>'] _ rest))))))

theorem refuses_operator {cs : List Char} (h : ∀ c ∈ cs.head?, c ∉ ['=', '!', '<', '>']) :
    Refuses operator cs := by
  have hne : ∀ c ∈ ['=', '!', '<', '>'], cs.head? ≠ some c := fun c hc heq => h c heq hc
  rw [operator_eq]
  exact Refuses.rule _ ((refuses_sign _ (hne '=' (by decide))).or
    ((refuses_sign _ (hne '!' (by decide))).or ((refuses_sign _ (hne '<' (by decide))).or
      ((refuses_sign _ (hne '>' (by decide))).or ((refuses_sign _ (hne '=' (by decide))).or
        ((refuses_sign _ (hne '<' (by decide))).or (refuses_sign _ (hne '>' (by decide)))))))))

theorem takes_operator : Takes operator OperatorText := by
  have htakes : ∀ {cs : List Char} {op : Option Comparison}, OperatorText cs op →
      Takes (sign cs op) OperatorText := by
    intro cs op h
    refine (takes_sign cs op).mono ?_
    rintro _ _ ⟨rfl, rfl⟩
    exact h
  rw [operator_eq]
  exact Takes.rule _ ((htakes (.compare .equal)).or ((htakes (.compare .unequal)).or
    ((htakes (.compare .lessEqual)).or ((htakes (.compare .greaterEqual)).or ((htakes .like).or
      ((htakes (.compare .less)).or (htakes (.compare .greater))))))))

/-! ### Patterns -/

theorem regexBody_append {t : List Char} (h : Body '/' t) (rest : List Char) :
    regexBody (t ++ '/' :: rest) = t := by
  induction h with
  | nil => rfl
  | escaped c _ ih => rw [List.cons_append, List.cons_append, regexBody, ih]
  | plain hc hb _ ih =>
    rw [List.cons_append, regexBody, if_neg hc, ih]
    simp [hb]

theorem prefix_regexBody (cs : List Char) :
    ∃ rest, cs = regexBody cs ++ rest ∧ (rest ≠ [] → Body '/' (regexBody cs)) := by
  fun_induction regexBody cs with
  | case1 c cs ih =>
    obtain ⟨rest, hrest, hbody⟩ := ih
    exact ⟨rest, by rw [List.cons_append, List.cons_append, ← hrest], fun h => .escaped c (hbody h)⟩
  | case2 cs => exact ⟨_, rfl, fun _ => .nil⟩
  | case3 c cs hb hc ih =>
    obtain ⟨rest, hrest, hbody⟩ := ih
    refine ⟨rest, by rw [List.cons_append, ← hrest], fun h => .plain hc ?_ (hbody h)⟩
    rintro rfl
    cases cs with
    | nil => exact h (List.append_eq_nil_iff.1 hrest.symm).2
    | cons d cs => exact hb d cs rfl rfl
  | case4 => exact ⟨[], rfl, fun h => absurd rfl h⟩

/-- The source of a regular expression between slashes, and its flags. -/
def regexParts : Reader (List Char × List Char) := do
  text ['/']
  let source ← taking regexBody
  text ['/']
  let flags ← run Char.isAlpha
  return (source, flags)

theorem regex_eq : regex = Reader.rule .regex (withText regexParts >>= fun x =>
    Pure.pure (RightSide.regex x.2 x.1.1 x.1.2)) := rfl

theorem reads_regex {t flags rest : List Char} (h : Body '/' t) (hf : ∀ c ∈ flags, c.isAlpha)
    (hr : EndsName rest) : Reads regex ('/' :: t ++ '/' :: flags ++ rest)
      (.regex ('/' :: t ++ '/' :: flags) t flags) rest := by
  have hbody : Reads (taking regexBody) (t ++ '/' :: (flags ++ rest)) t ('/' :: (flags ++ rest)) :=
    reads_taking (regexBody_append h _)
  have hparts : Reads regexParts ('/' :: t ++ '/' :: flags ++ rest) (t, flags) rest := by
    simp only [List.cons_append, List.append_assoc]
    exact (reads_text ['/'] _).bind (hbody.bind ((reads_text ['/'] _).bind
      ((reads_run hf hr.isAlpha).bind (reads_pure (t, flags) rest))))
  rw [regex_eq]
  exact Reads.rule _ (hparts.withText.bind (reads_pure _ rest))

theorem refuses_regex {cs : List Char} (h : cs.head? ≠ some '/') : Refuses regex cs :=
  Refuses.rule _ (Refuses.bind (Refuses.withText (Refuses.bind (refuses_text h))))

/-- What was taken up to the slash is the body of a regular expression, as something follows. -/
theorem takes_regexBody {α : Type} {f : List Char → Reader α} {T : List Char → List Char → α → Prop}
    (h : ∀ source, Takes (f source) (T source)) (hT : ∀ source t a, T source t a → t ≠ []) :
    Takes (taking regexBody >>= f) fun t a => ∃ u v, t = u ++ v ∧ Body '/' u ∧ T u v a := by
  intro p a q hr
  rw [result_bind, result_taking, Option.bind_some] at hr
  obtain ⟨rest, hrest, hbody⟩ := prefix_regexBody p.rest
  obtain ⟨v, hv, hTv⟩ := h _ _ a q hr
  have hdrop : p.rest.drop (regexBody p.rest).length = rest := by
    generalize regexBody p.rest = u at hrest
    rw [hrest, List.drop_left]
  have hv' : rest = v ++ q.rest := hdrop.symm.trans hv
  refine ⟨regexBody p.rest ++ v, ?_, regexBody p.rest, v, rfl, hbody ?_, hTv⟩
  · rw [List.append_assoc, ← hv', ← hrest]
  · rw [hv']
    exact fun h => hT _ v a hTv (List.append_eq_nil_iff.1 h).1

theorem takes_regex : Takes regex fun t r => ∃ source flags,
    r = .regex t source flags ∧ t = '/' :: source ++ '/' :: flags ∧ Body '/' source ∧
      ∀ c ∈ flags, c.isAlpha := by
  have hparts : Takes regexParts fun t x =>
      t = '/' :: x.1 ++ '/' :: x.2 ∧ Body '/' x.1 ∧ ∀ c ∈ x.2, c.isAlpha := by
    refine ((takes_text ['/']).bind fun _ => takes_regexBody (fun source => (takes_text ['/']).bind
      fun _ => (takes_run Char.isAlpha).bind fun flags => takes_pure (source, flags)) ?_).mono ?_
    · rintro _ _ _ ⟨_, _, _, rfl, rfl, _⟩
      simp
    · rintro _ _ ⟨_, _, _, rfl, rfl, _, _, rfl, hbody, _, _, _, rfl, rfl, _, _, _, rfl, ⟨rfl, hf⟩, rfl,
        rfl⟩
      exact ⟨by simp, hbody, hf⟩
  rw [regex_eq]
  refine Takes.rule _ (((Takes.withText hparts).bind fun x => takes_pure _).mono ?_)
  rintro _ _ ⟨t, _, ⟨⟨source, flags⟩, _⟩, rfl, ⟨⟨ht, hbody, hf⟩, rfl⟩, rfl, rfl⟩
  exact ⟨source, flags, by rw [List.append_nil], by rw [List.append_nil]; exact ht, hbody, hf⟩

end JsonSpan.Spelling

import JsonSpan.Proofs.Scan.Brackets
import JsonSpan.Proofs.Scan.Locality

/-!
# A cursor over a document

A cursor is moved over a document: past blanks or past a value, whose kind can be asked for first. A
move that fails leaves the cursor somewhere, and the fault it reports is put together on the way, from
an offset and the byte that was looked at there.

The scans of places (`Place.skipValue` and its parts) carry the rest of the document with them and
fail with the place alone. A cursor does the same as they do (`Cursor.Follows`): it comes to stand at
the place where the scan stopped, and what it reports is the fault of just that place.
-/

namespace JsonSpan

/-- A document and an offset into it, which may lie beyond its end. -/
structure Cursor where
  doc : Bytes
  offset : Nat
  deriving DecidableEq, Repr

namespace Cursor

/-- A move of a cursor gives a result or a fault. It leaves the cursor somewhere in either case. -/
abbrev Move (α : Type) := ExceptT Fault (StateM Cursor) α

def byte? (c : Cursor) : Option UInt8 :=
  c.doc[c.offset]?

def bump (c : Cursor) : Cursor :=
  { c with offset := c.offset + 1 }

def left (c : Cursor) : Nat :=
  c.doc.length - c.offset

theorem left_bump {c : Cursor} {b : UInt8} (h : c.byte? = some b) : c.bump.left < c.left := by
  obtain ⟨hlt, -⟩ := List.getElem?_eq_some_iff.1 h
  simp only [left, bump]
  omega

/-- The fault of what stands at a cursor being of no use. -/
def unexpected (c : Cursor) : Fault :=
  match c.byte? with
  | some b => .badByte c.offset b
  | none => .truncated c.offset

/-- The byte that the cursor stands at, where the document must not end. -/
def expectMore : Move UInt8 := do
  match (← get).byte? with
  | some b => return b
  | none => throw (.truncated (← get).offset)

def classify : Move Kind := do
  let b ← expectMore
  match Kind.ofByte? b with
  | some k => return k
  | none => throw (.badByte (← get).offset b)

def skipWhile (accept : UInt8 → Bool) (c : Cursor) : Cursor :=
  match _ : c.byte? with
  | some b => if accept b then c.bump.skipWhile accept else c
  | none => c
termination_by c.left
decreasing_by exact left_bump ‹_›

def skipBlanks : Cursor → Cursor :=
  skipWhile Byte.isBlank

/-- Past the rest of a string whose opening quote has been read. -/
def stringRest (c : Cursor) : Except Fault Unit × Cursor :=
  match _ : c.byte? with
  | none => (.error (.truncated c.offset), c)
  | some b =>
    if b = Byte.quote then (.ok (), c.bump)
    else if b = Byte.backslash then
      match _ : c.bump.byte? with
      | none => (.error (.truncated c.bump.offset), c.bump)
      | some _ => c.bump.bump.stringRest
    else c.bump.stringRest
termination_by c.left
decreasing_by
  · exact Nat.lt_trans (left_bump ‹c.bump.byte? = _›) (left_bump ‹c.byte? = _›)
  · exact left_bump ‹_›

def skipString : Move Unit := do
  modify bump
  stringRest

/-- Past a run of digits. The result is how many there were. -/
def skipDigits : Move Nat := do
  let start := (← get).offset
  modify (skipWhile Byte.isDigit)
  return (← get).offset - start

def someDigits : Move Unit := do
  if (← skipDigits) = 0 then throw (← get).unexpected

def skipIf (accept : UInt8 → Bool) : Move Unit := do
  if (← get).byte?.any accept then modify bump

def skipFraction : Move Unit := do
  if (← get).byte? = some Byte.point then
    modify bump
    someDigits

def skipExponent : Move Unit := do
  if (← get).byte?.any fun b => b == Byte.ofChar 'e' || b == Byte.ofChar 'E' then
    modify bump
    skipIf fun b => b == Byte.plus || b == Byte.minus
    someDigits

def skipNumber : Move Unit := do
  skipIf (· == Byte.minus)
  someDigits
  skipFraction
  skipExponent

def skipWord : Bytes → Move Unit
  | [] => return
  | w :: ws => do
    if (← expectMore) = w then
      modify bump
      skipWord ws
    else throw (← get).unexpected

def skipLiteral : Move Unit := do
  skipWord (Place.wordOf (← get).byte?)

theorem left_stringRest (c : Cursor) : c.stringRest.2.left ≤ c.left := by
  fun_induction stringRest c with
  | case1 => exact Nat.le_refl _
  | case2 c hb => exact Nat.le_of_lt (left_bump hb)
  | case3 c _ hb => exact Nat.le_of_lt (left_bump hb)
  | case4 c b hb' hb _ ih =>
    exact Nat.le_trans ih (Nat.le_of_lt (Nat.lt_trans (left_bump hb') (left_bump hb)))
  | case5 c b hb _ _ ih => exact Nat.le_trans ih (Nat.le_of_lt (left_bump hb))

theorem left_of_skipString {c c' : Cursor} {b : UInt8} {result : Except Fault Unit}
    (h : skipString c = (result, c')) (hb : c.byte? = some b) : c'.left < c.left := by
  have hrest : c.bump.stringRest = (result, c') := h
  have hle := left_stringRest c.bump
  rw [hrest] at hle
  exact Nat.lt_of_le_of_lt hle (left_bump hb)

/-- Past the closer of the outermost open bracket, where `closers` are the closers that are still
owed, innermost first. -/
def bracketsRest (closers : Bytes) (c : Cursor) : Except Fault Unit × Cursor :=
  match _ : c.byte? with
  | none => (.error (.truncated c.offset), c)
  | some b =>
    if b = Byte.openBrace then bracketsRest (Byte.closeBrace :: closers) c.bump
    else if b = Byte.openBracket then bracketsRest (Byte.closeBracket :: closers) c.bump
    else if b = Byte.closeBrace ∨ b = Byte.closeBracket then
      if closers.head? ≠ some b then (.error c.unexpected, c)
      else if closers.tail.isEmpty then (.ok (), c.bump)
      else bracketsRest closers.tail c.bump
    else if b = Byte.quote then
      match _ : skipString c with
      | (.ok (), c') => bracketsRest closers c'
      | (.error fault, c') => (.error fault, c')
    else bracketsRest closers c.bump
termination_by c.left
decreasing_by
  case _ => exact left_bump ‹_›
  case _ => exact left_bump ‹_›
  case _ => exact left_bump ‹_›
  case _ => exact left_of_skipString ‹_› ‹c.byte? = _›
  case _ => exact left_bump ‹_›

def skipContainer : Move Unit :=
  bracketsRest []

def skipKind : Kind → Move Unit
  | .object | .array => skipContainer
  | .string => skipString
  | .number => skipNumber
  | .boolean | .null => skipLiteral

/-- Past the value that starts at the cursor. The result is the offset after it. -/
def skipValue : Move Nat := do
  skipKind (← classify)
  return (← get).offset

/-- Past the value that starts at the cursor. The result is its span. -/
def readValue : Move Span := do
  let start := (← get).offset
  let stop ← skipValue
  return ⟨start, stop⟩

/-! ### Running moves -/

section

variable {α β : Type} {move : Move α} {next : α → Move β} {c c' : Cursor}

theorem bind_of_ok {a : α} (h : move c = (.ok a, c')) : (move >>= next) c = next a c' := by
  show ExceptT.bindCont next (move c).1 (move c).2 = _
  rw [h]
  rfl

theorem bind_of_error {fault : Fault} (h : move c = (.error fault, c')) :
    (move >>= next) c = (.error fault, c') := by
  show ExceptT.bindCont next (move c).1 (move c).2 = _
  rw [h]
  rfl

theorem ite_run {p : Prop} [Decidable p] {yes no : Move α} :
    (if p then yes else no) c = if p then yes c else no c := by
  split <;> rfl

theorem expectMore_of_byte? {b : UInt8} (h : c.byte? = some b) : expectMore c = (.ok b, c) := by
  show (match c.byte? with | some b => return b | none => _ : Move UInt8) c = _
  rw [h]
  rfl

theorem expectMore_of_end (h : c.byte? = none) : expectMore c = (.error c.unexpected, c) := by
  show (match c.byte? with | some b => return b | none => _ : Move UInt8) c = _
  rw [unexpected, h]
  rfl

end

/-! ### Cursors and places -/

/-- The place that a cursor stands at. -/
def place (c : Cursor) : Place :=
  .ofOffset c.doc c.offset

section

variable {c : Cursor} {b : UInt8}

theorem byte?_place (c : Cursor) : c.place.byte? = c.byte? :=
  List.head?_drop

theorem bump_place (c : Cursor) : c.bump.place = c.place.next := by
  rw [place, place, Place.ofOffset, Place.ofOffset, Place.next, List.tail_drop]
  rfl

theorem rest_of_byte? (h : c.byte? = some b) : c.place.rest = b :: c.bump.place.rest := by
  obtain ⟨hlt, rfl⟩ := List.getElem?_eq_some_iff.1 h
  exact List.drop_eq_getElem_cons hlt

theorem rest_of_end (h : c.byte? = none) : c.place.rest = [] := by
  rw [← byte?_place] at h
  exact List.head?_eq_none_iff.1 h

theorem unexpected_of_end (h : c.byte? = none) : c.unexpected = .truncated c.offset := by
  rw [unexpected, h]

theorem fault_place (c : Cursor) : c.place.fault = c.unexpected := by
  rw [unexpected, Place.fault]
  cases hb : c.byte? with
  | none => rw [rest_of_end hb]; rfl
  | some b => rw [rest_of_byte? hb]; rfl

end

/-- What came of a move in a document is what came of a scan: the cursor stands where the scan stopped,
and the result is what `give` makes of that of the scan, or the fault of the place where it is stuck. -/
structure Mirrors {α β : Type} (doc : Bytes) (give : β → α) (reached : β → Place)
    (moved : Except Fault α × Cursor) (scanned : Except Place β) : Prop where
  doc_eq : moved.2.doc = doc
  place_eq : moved.2.place = stopOf reached scanned
  result_eq : moved.1 = mapBoth Place.fault give scanned

/-- A move does what a scan does, wherever it starts. -/
def Follows (move : Move Unit) (scan : Place → Scan) : Prop :=
  ∀ c : Cursor, Mirrors c.doc (fun _ => ()) id (move c) (scan c.place)

theorem Mirrors.bind {α β α' β' : Type} {doc : Bytes} {give : β → α} {reached : β → Place}
    {give' : β' → α'} {reached' : β' → Place} {move : Move α} {next : α → Move α'} {c : Cursor}
    {x : Except Place β} {k : β → Except Place β'} (hx : Mirrors doc give reached (move c) x)
    (hk : ∀ b c', c'.doc = doc → c'.place = reached b →
      Mirrors doc give' reached' (next (give b) c') (k b)) :
    Mirrors doc give' reached' ((move >>= next) c) (x >>= k) := by
  obtain ⟨hdoc, hplace, hresult⟩ := hx
  rcases hmove : move c with ⟨result, c'⟩
  rw [hmove] at hdoc hplace hresult
  obtain rfl : result = mapBoth Place.fault give x := hresult
  cases x with
  | error q =>
    rw [bind_of_error hmove]
    exact ⟨hdoc, hplace, rfl⟩
  | ok b =>
    rw [bind_of_ok hmove]
    exact hk b c' hdoc hplace

theorem Mirrors.map {α β γ : Type} {doc : Bytes} {give : β → α} {reached : β → Place} {move : Move α}
    {c : Cursor} {x : Except Place β} (h : Mirrors doc give reached (move c) x) (f : α → γ) :
    Mirrors doc (fun b => f (give b)) reached ((do return f (← move) : Move γ) c) x := by
  rcases hmove : move c with ⟨result, c'⟩
  rw [hmove] at h
  obtain ⟨hdoc, hplace, rfl⟩ := h
  cases x with
  | error q =>
    rw [bind_of_error hmove]
    exact ⟨hdoc, hplace, rfl⟩
  | ok b =>
    rw [bind_of_ok hmove]
    exact ⟨hdoc, hplace, rfl⟩

theorem Mirrors.stuck {α β : Type} (give : β → α) (reached : β → Place) (c : Cursor) :
    Mirrors c.doc give reached (.error c.unexpected, c) (.error c.place) :=
  ⟨rfl, rfl, congrArg Except.error (fault_place c).symm⟩

theorem Mirrors.atEnd {α β : Type} (give : β → α) (reached : β → Place) {c : Cursor}
    (h : c.byte? = none) :
    Mirrors c.doc give reached (.error (.truncated c.offset), c) (.error ⟨c.offset, []⟩) := by
  have hstuck := Mirrors.stuck give reached c
  rw [unexpected_of_end h] at hstuck
  rw [← rest_of_end h]
  exact hstuck

namespace Follows

variable {move move' yes no : Move Unit} {scan scan' : Place → Scan}

theorem bind (h : Follows move scan) (h' : Follows move' scan') :
    Follows (move >>= fun _ => move') fun p => scan p >>= scan' := by
  intro c
  refine (h c).bind fun q c' hdoc hplace => ?_
  have hnext := h' c'
  rw [hdoc, hplace] at hnext
  exact hnext

theorem stay : Follows (return ()) .ok :=
  fun _ => ⟨rfl, rfl, rfl⟩

theorem stuck : Follows (do throw (← get).unexpected) .error :=
  Mirrors.stuck _ _

theorem onByte {accept : UInt8 → Bool} {scanYes scanNo : Place → Scan}
    (hyes : Follows yes scanYes) (hno : Follows no scanNo)
    (h : ∀ c : Cursor, move c = if c.byte?.any accept then yes c.bump else no c) :
    Follows move (Place.onByte accept scanYes scanNo) := by
  intro c
  rw [h c, Place.onByte, byte?_place]
  cases hb : c.byte? with
  | none => exact hno c
  | some b =>
    simp only [Option.any_some]
    split
    · rw [← bump_place]
      exact hyes c.bump
    · exact hno c

end Follows

/-! ### The scanners -/

theorem place_skipWhile (accept : UInt8 → Bool) (c : Cursor) :
    (c.skipWhile accept).doc = c.doc ∧
      (c.skipWhile accept).place = Place.skipWhile accept c.offset c.place.rest := by
  fun_induction skipWhile accept c with
  | case1 c b hb haccept ih =>
    rw [rest_of_byte? hb, Place.skipWhile, if_pos haccept]
    exact ih
  | case2 c b hb haccept =>
    rw [rest_of_byte? hb, Place.skipWhile, if_neg haccept, ← rest_of_byte? hb]
    exact ⟨rfl, rfl⟩
  | case3 c hb =>
    rw [rest_of_end hb, Place.skipWhile, ← rest_of_end hb]
    exact ⟨rfl, rfl⟩

theorem follows_skipWhile (accept : UInt8 → Bool) :
    Follows (modify (skipWhile accept)) fun p => .ok (Place.skipWhile accept p.offset p.rest) := by
  intro c
  obtain ⟨hdoc, hplace⟩ := c.place_skipWhile accept
  exact ⟨hdoc, hplace, rfl⟩

theorem skipWhile_of_any {accept : UInt8 → Bool} {c : Cursor} (h : c.byte?.any accept) :
    c.skipWhile accept = c.bump.skipWhile accept := by
  rw [skipWhile]
  split
  · next b hb => rw [if_pos (by simpa [hb] using h)]
  · next hb => simp [hb] at h

theorem skipWhile_of_not_any {accept : UInt8 → Bool} {c : Cursor} (h : ¬c.byte?.any accept) :
    c.skipWhile accept = c := by
  rw [skipWhile]
  split
  · next b hb => rw [if_neg (by simpa [hb] using h)]
  · rfl

theorem offset_le_skipWhile (accept : UInt8 → Bool) (c : Cursor) :
    c.offset ≤ (c.skipWhile accept).offset := by
  have hafter := Place.after_skipWhile accept c.offset c.place.rest
  rw [← (c.place_skipWhile accept).2] at hafter
  exact hafter.offset_le

theorem follows_skipIf (accept : UInt8 → Bool) :
    Follows (skipIf accept) fun p => .ok (p.skipIf accept) := by
  rw [Place.skipIf_eq]
  exact .onByte .stay .stay fun c => ite_run

theorem follows_someDigits : Follows someDigits Place.someDigits := by
  rw [Place.someDigits_eq]
  refine .onByte (follows_skipWhile Byte.isDigit) .stuck fun c => ?_
  have hrun : someDigits c =
      let c' := c.skipWhile Byte.isDigit
      if c'.offset - c.offset = 0 then (.error c'.unexpected, c') else (.ok (), c') := ite_run
  rw [hrun]
  by_cases hdigit : c.byte?.any Byte.isDigit
  · have hle := c.bump.offset_le_skipWhile Byte.isDigit
    have hlt : c.offset < (c.bump.skipWhile Byte.isDigit).offset := hle
    rw [if_pos hdigit, skipWhile_of_any hdigit]
    exact if_neg (by omega)
  · rw [if_neg hdigit, skipWhile_of_not_any hdigit]
    exact if_pos (Nat.sub_self _)

theorem follows_skipFraction : Follows skipFraction Place.skipFraction := by
  rw [Place.skipFraction_eq]
  refine .onByte follows_someDigits .stay fun c => ?_
  have hpoint : c.byte? = some Byte.point ↔ c.byte?.any (· == Byte.point) := by
    cases c.byte? <;> simp
  simp only [← hpoint]
  exact ite_run

theorem follows_skipExponent : Follows skipExponent Place.skipExponent := by
  rw [Place.skipExponent_eq]
  exact .onByte ((follows_skipIf _).bind follows_someDigits) .stay fun c => ite_run

theorem follows_skipNumber : Follows skipNumber Place.skipNumber := by
  rw [Place.skipNumber_eq]
  simp only [bind_assoc]
  exact (follows_skipIf _).bind
    (follows_someDigits.bind (follows_skipFraction.bind follows_skipExponent))

theorem follows_skipWord (word : Bytes) : Follows (skipWord word) (Place.skipWord word) := by
  induction word with
  | nil => exact .stay
  | cons w ws ih =>
    rw [Place.skipWord_cons_eq]
    refine .onByte ih .stuck fun c => ?_
    rw [skipWord]
    cases hb : c.byte? with
    | none => exact bind_of_error (expectMore_of_end hb)
    | some b =>
      rw [bind_of_ok (expectMore_of_byte? hb), ite_run]
      simp only [Option.any_some, beq_iff_eq]
      rfl

theorem mirrors_stringRest (c : Cursor) :
    Mirrors c.doc (fun _ => ()) id c.stringRest (Place.stringTail c.offset c.place.rest) := by
  fun_induction stringRest c with
  | case1 c hb =>
    rw [rest_of_end hb]
    exact .atEnd _ _ hb
  | case2 c hb =>
    rw [rest_of_byte? hb, Place.stringTail.eq_def]
    exact ⟨rfl, rfl, rfl⟩
  | case3 c hend hb =>
    rw [rest_of_byte? hb, rest_of_end hend]
    exact .atEnd _ _ hend
  | case4 c b hb' hb _ ih =>
    rw [rest_of_byte? hb, rest_of_byte? hb']
    exact ih
  | case5 c b hb hquote hbackslash ih =>
    rw [rest_of_byte? hb, Place.stringTail.eq_def]
    simp only [hquote, hbackslash, if_false]
    exact ih

theorem follows_skipString : Follows skipString Place.skipString := by
  intro c
  have hrest := c.bump.mirrors_stringRest
  rw [bump_place] at hrest
  exact hrest

theorem matchBrackets_string {c : Cursor} (hb : c.byte? = some Byte.quote) (owed : Bytes) :
    Place.matchBrackets owed .outside c.offset c.place.rest =
      c.place.skipString >>= fun q => Place.matchBrackets owed .outside q.offset q.rest := by
  rw [Place.skipString, rest_of_byte? hb, Place.matchBrackets_quote, Place.matchBrackets_inside]
  rfl

theorem mirrors_bracketsRest (closers : Bytes) (c : Cursor) :
    Mirrors c.doc (fun _ => ()) id (bracketsRest closers c)
      (Place.matchBrackets closers .outside c.offset c.place.rest) := by
  fun_induction bracketsRest closers c with
  | case1 closers c hb =>
    rw [rest_of_end hb]
    exact .atEnd _ _ hb
  | case2 closers c hb ih =>
    rw [rest_of_byte? hb]
    exact ih
  | case3 closers c hb _ ih =>
    rw [rest_of_byte? hb]
    exact ih
  | case4 closers c b hb _ _ hcloser hwrong =>
    have hstuck := Place.matchBrackets_wrongCloser closers c.offset c.bump.place.rest hcloser hwrong
    rw [← rest_of_byte? hb] at hstuck
    rw [hstuck]
    exact .stuck _ _ c
  | case5 closers c b hb _ _ hcloser hfirst hlast =>
    obtain ⟨owed, rfl⟩ := List.head?_eq_some_iff.1 (Decidable.not_not.1 hfirst)
    obtain rfl : owed = [] := List.isEmpty_iff.1 hlast
    rw [rest_of_byte? hb, Place.matchBrackets_lastCloser _ _ hcloser]
    exact ⟨rfl, rfl, rfl⟩
  | case6 closers c b hb _ _ hcloser hfirst hmore ih =>
    obtain ⟨owed, rfl⟩ := List.head?_eq_some_iff.1 (Decidable.not_not.1 hfirst)
    rw [rest_of_byte? hb, Place.matchBrackets_closer _ _ hcloser (by simpa using hmore)]
    exact ih
  -- the cursor reads a string in one go, the matching of brackets goes on byte by byte
  | case7 closers c c' hstring hb _ _ _ ih =>
    have hscan := follows_skipString c
    rw [hstring] at hscan
    rw [matchBrackets_string hb]
    cases hq : c.place.skipString with
    | error q =>
      rw [hq] at hscan
      cases hscan.result_eq
    | ok q =>
      rw [hq] at hscan
      obtain ⟨hdoc, rfl, -⟩ := hscan
      rw [← hdoc]
      exact ih
  | case8 closers c fault c' hstring hb =>
    have hscan := follows_skipString c
    rw [hstring] at hscan
    rw [matchBrackets_string hb]
    cases hq : c.place.skipString with
    | error q =>
      rw [hq] at hscan
      exact ⟨hscan.doc_eq, hscan.place_eq, hscan.result_eq⟩
    | ok q =>
      rw [hq] at hscan
      cases hscan.result_eq
  | case9 closers c b hb hbrace hbracket hcloser hquote ih =>
    rw [rest_of_byte? hb, Place.matchBrackets_plain]
    · exact ih
    · exact ⟨hbrace, hbracket, fun h => hcloser (.inl h), fun h => hcloser (.inr h), hquote⟩

theorem follows_skipContainer : Follows skipContainer Place.skipContainer :=
  mirrors_bracketsRest []

theorem follows_skipLiteral : Follows skipLiteral fun p => Place.skipWord (Place.wordOf p.byte?) p := by
  intro c
  show Mirrors c.doc _ id (skipLiteral c) (Place.skipWord (Place.wordOf c.place.byte?) c.place)
  rw [byte?_place]
  exact follows_skipWord _ c

/-! ### Values -/

theorem classify_eq (c : Cursor) : classify c = (c.place.kind, c) := by
  rw [Place.kind, Place.kind?, byte?_place, fault_place, unexpected]
  cases hb : c.byte? with
  | none =>
    rw [classify, bind_of_error (expectMore_of_end hb), unexpected_of_end hb]
    rfl
  | some b =>
    rw [classify, bind_of_ok (expectMore_of_byte? hb), Option.bind_some]
    cases Kind.ofByte? b <;> rfl

theorem mirrors_skipKind {c : Cursor} {k : Kind} (hk : c.place.kind? = some k) :
    Mirrors c.doc (fun _ => ()) id (skipKind k c) c.place.skipValue := by
  rw [Place.skipValue, hk]
  cases k with
  | object => exact follows_skipContainer c
  | array => exact follows_skipContainer c
  | string => exact follows_skipString c
  | number => exact follows_skipNumber c
  | boolean => exact follows_skipLiteral c
  | null => exact follows_skipLiteral c

theorem mirrors_skipValue (c : Cursor) :
    Mirrors c.doc Place.offset id (skipValue c) c.place.skipValue := by
  have hclassify := c.classify_eq
  rw [Place.kind] at hclassify
  cases hk : c.place.kind? with
  | none =>
    rw [hk] at hclassify
    rw [skipValue, bind_of_error hclassify, Place.skipValue, hk]
    exact ⟨rfl, rfl, rfl⟩
  | some k =>
    rw [hk] at hclassify
    rw [skipValue, bind_of_ok hclassify, ← bind_pure c.place.skipValue]
    refine (mirrors_skipKind hk).bind fun q c' hdoc hplace => ?_
    exact ⟨hdoc, hplace, congrArg (fun p : Place => Except.ok p.offset) hplace⟩

theorem mirrors_readValue (c : Cursor) :
    Mirrors c.doc Prod.fst Prod.snd (readValue c) c.place.readValue := by
  have hread : c.place.readValue =
      c.place.skipValue >>= fun q => .ok (⟨c.offset, q.offset⟩, q) := by
    rw [Place.readValue]
    cases c.place.skipValue <;> rfl
  rw [hread]
  show Mirrors c.doc _ _ ((skipValue >>= fun stop => return (⟨c.offset, stop⟩ : Span)) c) _
  exact c.mirrors_skipValue.bind fun q c' hdoc hplace => ⟨hdoc, hplace, rfl⟩

end Cursor

end JsonSpan

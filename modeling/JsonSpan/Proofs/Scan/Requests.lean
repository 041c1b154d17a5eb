import JsonSpan.Proofs.Scan.Cursor

/-!
# Whatever is asked of a cursor

A cursor is asked for one thing after the other: to go past blanks, to tell the kind of a value, to go
past one or to read one. It goes on after a fault from where the fault left it, which may be in the
middle of a number, a word, a string or a container. Each request is answered as it is at the place of
the cursor (`Cursor.ask_eq`), so the cursor only ever goes from a place of its document to a later one
(`Cursor.Reaches`), and where it stands when a request fails is where the fault is
(`Cursor.history_coherent`). In particular no offset is ever reached that is larger than both the first
one and the length of the document.
-/

namespace JsonSpan

/-- What a cursor may be asked for. -/
inductive Cursor.Request where
  | blanks
  | kind
  | skip
  | read
  deriving DecidableEq, Repr

/-- What a cursor answers if nothing is wrong. -/
inductive Cursor.Reply where
  | done
  | kind (kind : Kind)
  | stop (offset : Nat)
  | span (span : Span)
  deriving DecidableEq, Repr

namespace Place

/-- The answer to a request at a place, and the place that is reached with it. -/
def serve (p : Place) : Cursor.Request → Except Fault Cursor.Reply × Place
  | .blanks => (.ok .done, p.skipBlanks)
  | .kind => (.kind <$> p.kind, p)
  | .skip => (mapBoth fault (fun q => .stop q.offset) p.skipValue, stopOf id p.skipValue)
  | .read => (mapBoth fault (fun r => .span r.1) p.readValue, stopOf Prod.snd p.readValue)

theorem stopOf_readValue (p : Place) : stopOf Prod.snd p.readValue = stopOf id p.skipValue := by
  rw [readValue]
  cases p.skipValue <;> rfl

theorem after_serve (p : Place) (request : Cursor.Request) : p.After (p.serve request).2 := by
  cases request with
  | blanks => exact after_skipBlanks p
  | kind => exact .refl p
  | skip => exact local_skipValue.after p
  | read =>
    show p.After (stopOf Prod.snd p.readValue)
    rw [stopOf_readValue]
    exact local_skipValue.after p

theorem fault_of_mapBoth {α β : Type} {give : β → α} {reached : β → Place} {x : Except Place β}
    {fault : Fault} (h : mapBoth Place.fault give x = .error fault) :
    fault = (stopOf reached x).fault := by
  cases x with
  | error q =>
    cases h
    rfl
  | ok b => cases h

section

variable {p q : Place} {request : Cursor.Request} {reply : Cursor.Reply}

theorem fault_of_serve {fault : Fault} (h : p.serve request = (.error fault, q)) :
    fault = q.fault := by
  cases request with
  | blanks => cases h
  | kind =>
    obtain ⟨hkind, rfl⟩ := Prod.mk.inj h
    rw [map_eq_error, kind] at hkind
    split at hkind <;> cases hkind
    rfl
  | skip =>
    obtain ⟨hskip, rfl⟩ := Prod.mk.inj h
    exact fault_of_mapBoth hskip
  | read =>
    obtain ⟨hread, rfl⟩ := Prod.mk.inj h
    exact fault_of_mapBoth hread

theorem past_of_serve_skip (h : p.serve .skip = (.ok reply, q)) :
    reply = .stop q.offset ∧ p.Past q := by
  obtain ⟨hskip, rfl⟩ := Prod.mk.inj h
  obtain ⟨stop, hscan, rfl⟩ := mapBoth_eq_ok.1 hskip
  rw [hscan]
  exact ⟨rfl, past_skipValue hscan⟩

theorem past_of_serve_read (h : p.serve .read = (.ok reply, q)) :
    reply = .span ⟨p.offset, q.offset⟩ ∧ p.Past q := by
  obtain ⟨hread, rfl⟩ := Prod.mk.inj h
  obtain ⟨⟨s, stop⟩, hscan, rfl⟩ := mapBoth_eq_ok.1 hread
  obtain ⟨hpast, hs⟩ := past_readValue hscan
  rw [hscan]
  exact ⟨congrArg Cursor.Reply.span hs, hpast⟩

end

end Place

namespace Cursor

/-- What a cursor does when it is asked for something. -/
def Request.move : Request → Move Reply
  | .blanks => do
    modify skipBlanks
    return .done
  | .kind => return .kind (← classify)
  | .skip => return .stop (← skipValue)
  | .read => return .span (← readValue)

/-- The answer to a request, and the cursor after it. -/
def ask (c : Cursor) (request : Request) : Except Fault Reply × Cursor :=
  request.move c

/-- A cursor after some requests, whatever they were answered. -/
def after (c : Cursor) (history : List Request) : Cursor :=
  history.foldl (fun c request => (c.ask request).2) c

/-- A cursor answers as its place does, and goes where this leads. -/
theorem ask_eq (c : Cursor) (request : Request) :
    (c.ask request).2.doc = c.doc ∧
      ((c.ask request).1, (c.ask request).2.place) = c.place.serve request := by
  cases request with
  | blanks =>
    obtain ⟨hdoc, hplace⟩ := c.place_skipWhile Byte.isBlank
    exact ⟨hdoc, congrArg (Prod.mk _) hplace⟩
  | kind =>
    have hclassify := c.classify_eq
    rw [ask, Request.move, Place.serve]
    cases hk : c.place.kind with
    | error fault =>
      rw [hk] at hclassify
      rw [bind_of_error hclassify]
      exact ⟨rfl, rfl⟩
    | ok k =>
      rw [hk] at hclassify
      rw [bind_of_ok hclassify]
      exact ⟨rfl, rfl⟩
  | skip =>
    obtain ⟨hdoc, hplace, hresult⟩ := c.mirrors_skipValue.map Reply.stop
    exact ⟨hdoc, Prod.ext hresult hplace⟩
  | read =>
    obtain ⟨hdoc, hplace, hresult⟩ := c.mirrors_readValue.map Reply.span
    exact ⟨hdoc, Prod.ext hresult hplace⟩

/-! ### Where a cursor gets to -/

/-- A cursor on the same document, at the same place or a later one. -/
structure Reaches (c c' : Cursor) : Prop where
  doc_eq : c'.doc = c.doc
  after : c.place.After c'.place

namespace Reaches

variable {c c' c'' : Cursor}

theorem refl (c : Cursor) : c.Reaches c :=
  ⟨rfl, .refl _⟩

theorem trans (h : c.Reaches c') (h' : c'.Reaches c'') : c.Reaches c'' :=
  ⟨h'.doc_eq.trans h.doc_eq, h.after.trans h'.after⟩

theorem offset_le (h : c.Reaches c') : c.offset ≤ c'.offset :=
  h.after.offset_le

theorem offset_le_add (h : c.Reaches c') : c'.offset ≤ c.offset + (c.doc.length - c.offset) := by
  obtain ⟨taken, hrest, hoffset⟩ := h.after
  have hlen := congrArg List.length hrest
  simp only [place, Place.ofOffset, List.length_drop, List.length_append] at hlen hoffset
  omega

theorem offset_le_length (h : c.Reaches c') (hc : c.offset ≤ c.doc.length) :
    c'.offset ≤ c.doc.length := by
  have hle := h.offset_le_add
  omega

theorem offset_eq (h : c.Reaches c') (hc : c.doc.length ≤ c.offset) : c'.offset = c.offset := by
  have hle := h.offset_le
  have hle' := h.offset_le_add
  omega

theorem inside_of_past (h : c.Reaches c') (hpast : c.place.Past c'.place) :
    c.offset < c'.offset ∧ c'.offset ≤ c.doc.length := by
  have hlt : c.offset < c'.offset := hpast.offset_lt
  have hle := h.offset_le_add
  omega

end Reaches

theorem reaches_ask (c : Cursor) (request : Request) : c.Reaches (c.ask request).2 := by
  obtain ⟨hdoc, hserve⟩ := c.ask_eq request
  refine ⟨hdoc, ?_⟩
  have hafter := c.place.after_serve request
  rw [← hserve] at hafter
  exact hafter

theorem reaches_after (c : Cursor) (history : List Request) : c.Reaches (c.after history) := by
  induction history generalizing c with
  | nil => exact .refl c
  | cons request history ih => exact (c.reaches_ask request).trans (ih (c.ask request).2)

theorem unexpected_cases (c : Cursor) :
    (c.unexpected = .truncated c.offset ∧ c.doc.length ≤ c.offset) ∨
      ∃ byte, c.unexpected = .badByte c.offset byte ∧ c.doc[c.offset]? = some byte := by
  rw [unexpected]
  cases hb : c.byte? with
  | none => exact .inl ⟨rfl, List.getElem?_eq_none_iff.1 hb⟩
  | some byte => exact .inr ⟨byte, rfl, hb⟩

/-! ### Histories -/

/-- What is known of a request to a cursor `c` that has come from `start`: of the answer, and of the
cursor `c'` after it. -/
structure Coherent (start c : Cursor) (request : Request) (answer : Except Fault Reply) (c' : Cursor) :
    Prop where
  doc_eq : c'.doc = start.doc
  /-- The answer is that of the place, and the cursor is where this leads. -/
  served : (answer, c'.place) = c.place.serve request
  /-- A cursor never goes back. -/
  forward : start.offset ≤ c.offset ∧ c.offset ≤ c'.offset
  /-- It does not leave the document, -/
  inside : start.offset ≤ start.doc.length → c'.offset ≤ start.doc.length
  /-- and from its end, or from beyond it, it goes nowhere. -/
  rests : start.doc.length ≤ start.offset → c'.offset = start.offset
  /-- A request fails with what stands at the cursor after it. -/
  fault : ∀ fault, answer = .error fault →
    (fault = .truncated c'.offset ∧ start.doc.length ≤ c'.offset) ∨
      ∃ byte, fault = .badByte c'.offset byte ∧ start.doc[c'.offset]? = some byte
  /-- A value that is skipped is not empty, and the cursor comes to stand at its end. -/
  skipped : request = .skip → ∀ reply, answer = .ok reply →
    reply = .stop c'.offset ∧ c.offset < c'.offset ∧ c'.offset ≤ start.doc.length
  /-- A value that is read covers what the cursor has gone past. -/
  read : request = .read → ∀ reply, answer = .ok reply →
    reply = .span ⟨c.offset, c'.offset⟩ ∧ c.offset < c'.offset ∧ c'.offset ≤ start.doc.length

/-- Whatever a cursor has been asked for before and whatever came of it, and wherever it started, within
its document or beyond the end: the next request takes it forward and not past the end, fails with what
stands where it leaves the cursor, and reads just what it takes the cursor past. -/
theorem history_coherent (doc : Bytes) (offset : Nat) (history : List Request) (request : Request) :
    let start : Cursor := ⟨doc, offset⟩
    let c := start.after history
    Coherent start c request (c.ask request).1 (c.ask request).2 := by
  intro start c
  have hc : start.Reaches c := start.reaches_after history
  have hask : c.Reaches (c.ask request).2 := c.reaches_ask request
  have hall := hc.trans hask
  obtain ⟨-, hserve⟩ := c.ask_eq request
  -- a value takes a byte at least, so a cursor that has come past one stood before the end
  have hpast (h : c.place.Past (c.ask request).2.place) :
      c.offset < (c.ask request).2.offset ∧ (c.ask request).2.offset ≤ doc.length := by
    have hinside := hask.inside_of_past h
    rw [hc.doc_eq] at hinside
    exact hinside
  exact {
    doc_eq := hall.doc_eq
    served := hserve
    forward := ⟨hc.offset_le, hask.offset_le⟩
    inside := hall.offset_le_length
    rests := hall.offset_eq
    fault := fun fault h => by
      rw [h] at hserve
      rw [Place.fault_of_serve hserve.symm, fault_place, ← hall.doc_eq]
      exact unexpected_cases _
    skipped := fun h reply hreply => by
      subst h
      rw [hreply] at hserve
      obtain ⟨rfl, h⟩ := Place.past_of_serve_skip hserve.symm
      exact ⟨rfl, hpast h⟩
    read := fun h reply hreply => by
      subst h
      rw [hreply] at hserve
      obtain ⟨rfl, h⟩ := Place.past_of_serve_read hserve.symm
      exact ⟨rfl, hpast h⟩ }

/-- After a minus sign without digits there is still a word to be read. -/
example :
    let c := Cursor.after ⟨utf8 "-true", 0⟩ [.blanks, .skip]
    c.offset = 1 ∧ (c.ask .read).1 = .ok (.span ⟨1, 5⟩) ∧
      (c.after [.read, .kind]).offset = 5 := by
  decide +kernel

end Cursor

end JsonSpan

import Mathlib.Data.Finset.Card
import Mathlib.Data.List.Induction
import Mathlib.Data.List.TakeWhile
import JsonSpan.Proofs.Session.Lines

/-!
# What a session remembers does not show

A session answers from what it remembers, and this is only ever what reading a text as a path gave
(`Session.Knows`). So after any history of calls, whatever failed in it, each query is answered as if
it were the first, and so is each line of an input; only how many paths are remembered tells of the
history, namely how many different texts of paths there were in it (`Session.history_invisible`).
-/

namespace JsonSpan

open Utf8 (isValid)

/-- The query on a line: its text less the white space at its ends, if anything is left. -/
def queryOf? (line : List Char) : Option String :=
  match Text.trimChars line with
  | [] => none
  | cs => some (String.ofList cs)

/-- The queries on lines that are UTF-8. -/
def queriesOf (lines : List Bytes) : List String :=
  lines.filterMap fun line => (Utf8.decode? line).bind queryOf?

/-- What is written for a query, by itself. -/
def queryLine (doc : Bytes) (text : String) : Bytes :=
  match query doc text with
  | .ok [] => utf8 "(no match)\n"
  | .ok bytes => bytes ++ utf8 "\n"
  | .error error => utf8 ("error: " ++ error.message ++ "\n")

namespace Session

/-- What a session may be asked to do. A run may stop after some of its lines, when what is to be
written is taken by nobody. -/
inductive Call where
  | eval (text : String)
  | run (style : SessionStyle) (input : Bytes)
  | stopped (style : SessionStyle) (input : Bytes) (count : Nat)

namespace Call

/-- The texts that a call has answered: of an input, the queries up to the first line that is not
UTF-8. -/
def queries : Call → List String
  | eval text => [text]
  | run _ input => queriesOf ((inputLines input).takeWhile isValid)
  | stopped _ input count => queriesOf (((inputLines input).take count).takeWhile isValid)

end Call

/-- A session after a call. -/
def after (s : Session) : Call → Session
  | .eval text => (s.eval text).2
  | .run style input => (s.run style input).2.2
  | .stopped style input count => (s.runLines style ((inputLines input).take count)).2.2

/-- A session on a document after some calls. -/
def afterCalls (doc : Bytes) (history : List Call) : Session :=
  history.foldl after (ofDocument doc)

/-! ### What is known -/

/-- A session on `doc` knows the paths among the texts that it was asked for, each of them once. -/
structure Knows (doc : Bytes) (texts : List String) (s : Session) : Prop where
  doc_eq : s.doc = doc
  parse_eq : ∀ entry ∈ s.known, Path.parse entry.1 = .ok entry.2
  nodup : (s.known.map Prod.fst).Nodup
  mem_iff : ∀ text, text ∈ s.known.map Prod.fst ↔ text ∈ texts ∧ (Path.parse text).isOk

variable {doc : Bytes} {texts : List String} {s : Session}

theorem knows_ofDocument (doc : Bytes) : Knows doc [] (ofDocument doc) where
  doc_eq := rfl
  parse_eq := List.forall_mem_nil _
  nodup := .nil
  mem_iff text := by simp [ofDocument]

theorem Knows.again (h : Knows doc texts s) {text : String}
    (hparse : (Path.parse text).isOk → text ∈ s.known.map Prod.fst) : Knows doc (texts ++ [text]) s where
  doc_eq := h.doc_eq
  parse_eq := h.parse_eq
  nodup := h.nodup
  mem_iff t := by
    rw [h.mem_iff, List.mem_append, List.mem_singleton]
    constructor
    · exact fun ⟨ht, hok⟩ => ⟨.inl ht, hok⟩
    · rintro ⟨ht | rfl, hok⟩
      · exact ⟨ht, hok⟩
      · exact (h.mem_iff t).1 (hparse hok)

theorem Knows.learn (h : Knows doc texts s) {text : String} {p : Path}
    (hnew : text ∉ s.known.map Prod.fst) (hp : Path.parse text = .ok p) :
    Knows doc (texts ++ [text]) { s with known := (text, p) :: s.known } where
  doc_eq := h.doc_eq
  parse_eq := List.forall_mem_cons.2 ⟨hp, h.parse_eq⟩
  nodup := List.nodup_cons.2 ⟨hnew, h.nodup⟩
  mem_iff t := by
    have hok : (Path.parse text).isOk := by rw [hp]; rfl
    rw [List.map_cons, List.mem_cons, h.mem_iff, List.mem_append, List.mem_singleton]
    constructor
    · rintro (rfl | ⟨ht, htok⟩)
      · exact ⟨.inr rfl, hok⟩
      · exact ⟨.inl ht, htok⟩
    · rintro ⟨ht | rfl, htok⟩
      · exact .inr ⟨ht, htok⟩
      · exact .inl rfl

theorem Knows.path (h : Knows doc texts s) (text : String) :
    (s.path text).1 = Path.parse text ∧ Knows doc (texts ++ [text]) (s.path text).2 := by
  unfold Session.path
  cases hl : s.known.lookup text with
  | some p =>
    obtain ⟨front, back, hsplit, -⟩ := List.lookup_eq_some_iff.1 hl
    have hmem : (text, p) ∈ s.known := by simp [hsplit]
    exact ⟨(h.parse_eq _ hmem).symm, h.again fun _ => List.mem_map_of_mem hmem⟩
  | none =>
    have hnew : text ∉ s.known.map Prod.fst := by
      intro hmem
      obtain ⟨entry, he, rfl⟩ := List.mem_map.1 hmem
      simpa using List.lookup_eq_none_iff.1 hl entry he
    cases hp : Path.parse text with
    | ok p => exact ⟨rfl, h.learn hnew hp⟩
    | error error => exact ⟨rfl, h.again fun hok => by simp [hp, Except.isOk, Except.toBool] at hok⟩

theorem Knows.eval (h : Knows doc texts s) (text : String) :
    (s.eval text).1 = query doc text ∧ Knows doc (texts ++ [text]) (s.eval text).2 := by
  obtain ⟨hpath, hknows⟩ := h.path text
  unfold Session.eval query
  rw [← hpath]
  cases hs : s.path text with
  | mk answer t =>
    rw [hs] at hknows
    cases answer with
    | ok p => exact ⟨congrArg p.answer hknows.doc_eq, hknows⟩
    | error error => exact ⟨rfl, hknows⟩

/-! ### The lines of an input -/

theorem answerLine_query (doc : Bytes) (text : String) :
    answerLine false (query doc text) = queryLine doc text := by
  unfold queryLine
  rcases query doc text with error | _ | ⟨b, bytes⟩
  · show utf8 "error:" ++ utf8 (" " ++ error.message) ++ [Byte.lineFeed] =
      utf8 ("error: " ++ error.message ++ "\n")
    rw [← utf8_append, ← String.append_assoc, utf8_append _ "\n"]
    rfl
  · rfl
  · rfl

theorem Knows.answerText (h : Knows doc texts s) (color : Bool) (line : List Char) :
    (s.answerText color line).1 =
        (queryOf? line).toList.flatMap (fun text => answerLine color (query doc text)) ∧
      Knows doc (texts ++ (queryOf? line).toList) (s.answerText color line).2 := by
  unfold Session.answerText queryOf?
  cases Text.trimChars line with
  | nil => exact ⟨rfl, by simpa using h⟩
  | cons c cs =>
    obtain ⟨hanswer, hknows⟩ := h.eval (String.ofList (c :: cs))
    refine ⟨?_, hknows⟩
    show answerLine color (s.eval (String.ofList (c :: cs))).1 = _
    rw [hanswer]
    exact (List.append_nil _).symm

theorem runLines_cons {line : Bytes} {cs : List Char} (hd : Utf8.decode? line = some cs) (s : Session)
    (style : SessionStyle) (lines : List Bytes) :
    s.runLines style (line :: lines) =
      let rest := (s.answerText style.color cs).2.runLines style lines
      ((if style.prompt then utf8 "> " else []) ++ (s.answerText style.color cs).1 ++ rest.1, rest.2) := by
  rw [runLines, hd]

theorem runLines_broken {line : Bytes} (hd : Utf8.decode? line = none) (s : Session)
    (style : SessionStyle) (lines : List Bytes) :
    s.runLines style (line :: lines) =
      (if style.prompt then utf8 "> " else [], some .notUtf8, s) := by
  rw [runLines, hd]

theorem queriesOf_cons {line : Bytes} {cs : List Char} (hd : Utf8.decode? line = some cs)
    (lines : List Bytes) : queriesOf (line :: lines) = (queryOf? cs).toList ++ queriesOf lines := by
  unfold queriesOf
  rw [List.filterMap_cons, hd]
  cases h : queryOf? cs <;> simp [h]

theorem queriesOf_append (lines more : List Bytes) :
    queriesOf (lines ++ more) = queriesOf lines ++ queriesOf more :=
  List.filterMap_append

theorem fault_runLines (s : Session) (style : SessionStyle) (lines : List Bytes) :
    (s.runLines style lines).2.1 = if lines.all isValid then none else some .notUtf8 := by
  induction lines generalizing s with
  | nil => rfl
  | cons line lines ih =>
    cases hd : Utf8.decode? line with
    | none => simp [runLines_broken hd, isValid, hd]
    | some cs => simp [runLines_cons hd, isValid, hd, ih]

/-- The lines of an input are answered, up to the first that is not UTF-8. -/
theorem Knows.runLines (h : Knows doc texts s) (style : SessionStyle) (lines : List Bytes) :
    Knows doc (texts ++ queriesOf (lines.takeWhile isValid)) (s.runLines style lines).2.2 := by
  induction lines generalizing s texts with
  | nil => simpa [queriesOf, Session.runLines] using h
  | cons line lines ih =>
    cases hd : Utf8.decode? line with
    | none => simpa [runLines_broken hd, isValid, hd, queriesOf] using h
    | some cs =>
      rw [List.takeWhile_cons_of_pos (by simp [isValid, hd]), queriesOf_cons hd, runLines_cons hd,
        ← List.append_assoc]
      exact ih (h.answerText style.color cs).2

theorem Knows.output_runLines (h : Knows doc texts s) (lines : List Bytes) :
    (s.runLines ⟨false, false⟩ lines).1 =
      (queriesOf (lines.takeWhile isValid)).flatMap (queryLine doc) := by
  induction lines generalizing s texts with
  | nil => rfl
  | cons line lines ih =>
    cases hd : Utf8.decode? line with
    | none => simp [runLines_broken hd, isValid, hd, queriesOf]
    | some cs =>
      obtain ⟨hline, hknows⟩ := h.answerText false cs
      rw [List.takeWhile_cons_of_pos (by simp [isValid, hd]), queriesOf_cons hd, runLines_cons hd,
        List.flatMap_append, ← ih hknows]
      simp only [hline, answerLine_query]
      rfl

/-! ### Histories -/

theorem Knows.after (h : Knows doc texts s) (call : Call) :
    Knows doc (texts ++ call.queries) (s.after call) := by
  cases call with
  | eval text => exact (h.eval text).2
  | run style input => exact h.runLines style (inputLines input)
  | stopped style input count => exact h.runLines style ((inputLines input).take count)

theorem knows_afterCalls (doc : Bytes) (history : List Call) :
    Knows doc (history.flatMap Call.queries) (afterCalls doc history) := by
  induction history using List.reverseRecOn with
  | nil => exact knows_ofDocument doc
  | append_singleton history call ih =>
    rw [afterCalls, List.foldl_append, List.flatMap_append, List.flatMap_singleton]
    exact ih.after call

/-- A session knows as many paths as there are different texts of paths among those asked for. -/
theorem Knows.size_eq (h : Knows doc texts s) :
    s.size = (texts.toFinset.filter fun text => (Path.parse text).isOk).card := by
  have hset : texts.toFinset.filter (fun text => (Path.parse text).isOk) =
      (s.known.map Prod.fst).toFinset := by
    ext text
    rw [Finset.mem_filter, List.mem_toFinset, List.mem_toFinset, h.mem_iff]
  rw [hset, List.toFinset_card_of_nodup h.nodup, List.length_map, Session.size]

/-- After any history a query is answered as if it were the first. So are the lines of an input that
is UTF-8; of another one, those before the first line that is not, where the run then ends with a
fault. What a session remembers shows in its size only, the number of different texts of paths that
it has answered. -/
theorem history_invisible (doc : Bytes) (history : List Call) :
    let s := afterCalls doc history
    (∀ text, (s.eval text).1 = query doc text) ∧
      (∀ input, isValid input →
        (s.run ⟨false, false⟩ input).1 = (queriesOf (inputLines input)).flatMap (queryLine doc) ∧
          (s.run ⟨false, false⟩ input).2.1 = none) ∧
      (∀ input before line rest, inputLines input = before ++ line :: rest →
        (∀ l ∈ before, isValid l) → ¬isValid line →
        (s.run ⟨false, false⟩ input).1 = (queriesOf before).flatMap (queryLine doc) ∧
          (s.run ⟨false, false⟩ input).2.1 = some .notUtf8) ∧
      s.size =
        ((history.flatMap Call.queries).toFinset.filter fun text => (Path.parse text).isOk).card := by
  intro s
  have hs : Knows doc (history.flatMap Call.queries) s := knows_afterCalls doc history
  refine ⟨fun text => (hs.eval text).1, ?valid, ?broken, hs.size_eq⟩
  case valid =>
    intro input hinput
    have hlines := (isValid_iff_lines input).1 hinput
    constructor
    · rw [run, hs.output_runLines, List.takeWhile_eq_self_iff.2 hlines]
    · rw [run, fault_runLines, if_pos (List.all_eq_true.2 hlines)]
  case broken =>
    intro input before line rest hlines hbefore hline
    constructor
    · rw [run, hs.output_runLines, hlines, List.takeWhile_append_of_pos hbefore,
        List.takeWhile_cons_of_neg hline, List.append_nil]
    · have hall : ¬(inputLines input).all isValid := by
        rw [List.all_eq_true, hlines]
        exact fun h => hline (h line (by simp))
      rw [run, fault_runLines, if_neg hall]

/-- A path, a text that is no path, and a run that gets to answer two lines. -/
theorem history_invisible_mixed :
    let doc := utf8 "\x7b\"a\":[1,2]\x7d"
    let history := [.eval "$.a", .eval "$[", .run ⟨true, true⟩ (utf8 " $.a\n$.b\n" ++ [0xff])]
    let s := afterCalls doc history
    (s.eval "$.a[*]").1 = .ok (utf8 "[1,2]") ∧
      (s.run ⟨false, false⟩ (utf8 "$.a[0]\n \r\n$.b")).1 = utf8 "1\n(no match)\n" ∧
      (s.run ⟨false, false⟩ (utf8 "$.a[0]\n" ++ [0xff, Byte.lineFeed] ++ utf8 "$.b")).1 = utf8 "1\n" ∧
      s.size = 2 := by
  intro doc history s
  obtain ⟨heval, hvalid, hbroken, hsize⟩ := history_invisible doc history
  refine ⟨?_, ?_, ?_, ?_⟩
  · exact (heval _).trans (by decide +kernel)
  · exact (hvalid _ (by decide +kernel)).1.trans (by decide +kernel)
  · refine (hbroken _ [utf8 "$.a[0]"] [0xff] [utf8 "$.b"] ?_ ?_ ?_).1.trans ?_ <;> decide +kernel
  · exact hsize.trans (by decide +kernel)

end Session

end JsonSpan

import JsonSpan.CommandLine.Outcome
import JsonSpan.Proofs.CommandLine.Reading
import JsonSpan.Proofs.CommandLine.Spans
import JsonSpan.Proofs.Query.Rendering
import JsonSpan.Proofs.Session.History

/-!
# The ways to ask agree

A query can be asked on the command line or as a line of a session. Both give the answer that it has
by itself (`front_ends_agree`). They tell by different means whether anything matched: the command
line looks at the matches, and a session at their bytes. It comes to the same, since no match is empty
(`query_eq_nil_iff`).
-/

namespace JsonSpan

open Utf8 (isValid)

/-- An answer is empty if and only if nothing matched. -/
theorem query_eq_nil_iff (doc : Bytes) (text : String) :
    query doc text = .ok [] ↔ ∃ p, Path.parse text = .ok p ∧ p.select doc = .ok [] := by
  unfold query
  cases Path.parse text with
  | error error => simp
  | ok p =>
    unfold Path.answer
    cases hselect : p.select doc with
    | error fault => simp [hselect]
    | ok spans => simpa [hselect] using renderMatches_eq_nil_iff hselect

/-! ### What is written -/

namespace Sink

theorem bytes_writeSpans (spans : List Span) :
    (unlimited.writeSpans spans).bytes = utf8 (Span.jsonArray spans) ++ [Byte.lineFeed] := by
  rw [writeSpans, write_eq rfl]
  rfl

theorem bytes_writeResult (doc : Bytes) (spans : List Span) :
    (unlimited.writeResult false doc spans).bytes =
      if spans = [] then [] else renderMatches doc spans ++ [Byte.lineFeed] := by
  rw [writeResult, write_eq rfl]
  show (resultPieces false doc spans).flatten = _
  cases spans with
  | nil => rfl
  | cons s more => simp [resultPieces, renderMatches]

end Sink

/-- What is printed of matches, the answer being their bytes. -/
def printed (switches : List Switch) (spans : List Span) (answer : Bytes) : Bytes :=
  (if .count ∈ switches then countLine spans else []) ++
    if .spans ∈ switches then utf8 (Span.jsonArray spans) ++ [Byte.lineFeed]
    else if .noDisplay ∈ switches ∨ answer = [] then []
    else answer ++ [Byte.lineFeed]

/-- Whether a query finds a document: in its file, or in the input if it names none. -/
def Surroundings.Provide (surroundings : Surroundings) (file : Option String) (doc : Bytes) : Prop :=
  match file with
  | none => surroundings.input = some doc
  | some _ => ∃ document, surroundings.document = .ok document ∧ document.bytes = doc

theorem Surroundings.Provide.document {surroundings : Surroundings} {request : QueryRequest} {doc : Bytes}
    (h : surroundings.Provide request.file doc) :
    ∃ document, request.document surroundings = some (.ok document) ∧ document.bytes = doc := by
  obtain ⟨path, file, count, spans, noDisplay⟩ := request
  cases file with
  | none =>
    refine ⟨.held doc, ?_, rfl⟩
    show surroundings.input.map _ = _
    rw [show surroundings.input = some doc from h]
    rfl
  | some name =>
    obtain ⟨document, hdocument, hbytes⟩ := h
    exact ⟨document, congrArg some hdocument, hbytes⟩

namespace QueryRequest

theorem output_ofSwitches {p : Path} {doc : Bytes} {spans : List Span} (h : p.select doc = .ok spans)
    (text : String) (file : Option String) (switches : List Switch) :
    (ofSwitches text file switches).output false doc spans =
      printed switches spans (renderMatches doc spans) := by
  have hempty := renderMatches_eq_nil_iff h
  unfold output printed ofSwitches
  dsimp only
  rw [Sink.bytes_writeSpans, Sink.bytes_writeResult]
  congr 1
  · simp
  · by_cases hspans : .spans ∈ switches
    · simp [hspans]
    · by_cases hnone : .noDisplay ∈ switches
      · simp [hspans, hnone]
      · simp [hspans, hnone, hempty]

/-- A query on the command line gives the answer that it has by itself. -/
theorem outcome_eq (request : QueryRequest) {text : String} (htext : request.path = some text)
    {surroundings : Surroundings} {doc : Bytes} (hdoc : surroundings.Provide request.file doc) :
    match query doc text with
    | .error _ => (request.outcome surroundings).code = 1 ∧ (request.outcome surroundings).output = []
    | .ok answer => ∃ p spans, Path.parse text = .ok p ∧ p.select doc = .ok spans ∧
        renderMatches doc spans = answer ∧
        request.outcome surroundings = .success (request.output surroundings.color doc spans) := by
  obtain ⟨document, hdocument, rfl⟩ := hdoc.document
  unfold query
  cases hparse : Path.parse text with
  | error error =>
    simp only [outcome, htext, hparse]
    exact ⟨rfl, rfl⟩
  | ok p =>
    unfold Path.answer
    cases hselect : p.select document.bytes with
    | error fault =>
      simp only [outcome, htext, hparse, hdocument, hselect]
      exact ⟨rfl, rfl⟩
    | ok spans =>
      simp only [outcome, htext, hparse, hdocument, hselect]
      exact ⟨p, spans, rfl, hselect, rfl, rfl⟩

end QueryRequest

/-! ### Lines of a session -/

theorem queryOf?_toList {text : String} (hne : text.toList ≠ [])
    (htrim : Text.trimChars text.toList = text.toList) : queryOf? text.toList = some text := by
  unfold queryOf?
  rw [htrim]
  split
  · next hnil => exact absurd hnil hne
  · exact congrArg some String.ofList_toList

/-- A line with a query is answered among the answers to the other lines. -/
theorem Session.Knows.run_line {doc : Bytes} {texts : List String} {s : Session}
    (h : Knows doc texts s) {text : String} (hne : text.toList ≠ [])
    (htrim : Text.trimChars text.toList = text.toList) {input : Bytes} {before after : List Bytes}
    (hlines : inputLines input = before ++ utf8 text :: after)
    (hbefore : ∀ line ∈ before, isValid line) :
    (s.run ⟨false, false⟩ input).1 =
      (s.runLines ⟨false, false⟩ before).1 ++ queryLine doc text ++
        (s.runLines ⟨false, false⟩ after).1 := by
  rw [run, h.output_runLines, h.output_runLines, h.output_runLines, hlines,
    List.takeWhile_append_of_pos hbefore, List.takeWhile_cons_of_pos (Utf8.isValid_utf8 text),
    List.takeWhile_eq_self_iff.2 hbefore, queriesOf_append, queriesOf_cons (Utf8.decode?_utf8 text),
    queryOf?_toList hne htrim]
  simp

theorem sessionOutcome_line {text : String} (hne : text.toList ≠ []) (hline : '\n' ∉ text.toList)
    (htrim : Text.trimChars text.toList = text.toList) {surroundings : Surroundings}
    (hstyle : surroundings.style = ⟨false, false⟩)
    (hinput : surroundings.input = some (utf8 text ++ [Byte.lineFeed])) {document : Document}
    (hdocument : surroundings.document = .ok document) :
    sessionOutcome surroundings = .success (queryLine document.bytes text) := by
  have hlines : inputLines (utf8 text ++ [Byte.lineFeed]) = [] ++ utf8 text :: [] :=
    inputLines_utf8 hline htrim []
  have houtput := (Session.knows_ofDocument document.bytes).run_line hne htrim hlines
    (List.forall_mem_nil _)
  have hfault : ((Session.ofDocument document.bytes).run ⟨false, false⟩
      (utf8 text ++ [Byte.lineFeed])).2.1 = none := by
    rw [Session.run, Session.fault_runLines, hlines]
    simp [Utf8.isValid_utf8]
  unfold sessionOutcome
  rw [hdocument, hstyle, hinput]
  dsimp only [Option.getD_some]
  generalize (Session.ofDocument document.bytes).run ⟨false, false⟩ _ = ran at houtput hfault
  obtain ⟨output, fault, s⟩ := ran
  cases hfault
  exact congrArg Outcome.success (houtput.trans (by simp [Session.runLines]))

/-! ### All of them -/

theorem isValue_of_root {text : String} (h : text.toList.head? = some '$') : isValue text := by
  have hne : text ≠ "" := by
    rintro rfl
    cases h
  have hcommand : Scope.program.subcommand? text = none := by
    unfold Scope.subcommand?
    split <;> first | rfl | cases h
  simp [isValue, hne, h, hcommand]

/-- Every way to ask for a path gives the answer that the path has by itself. On the command line an
error comes to the exit code 1 without output. An answer is printed with a line feed, unless it is
empty; the spans that are printed in its place, as a JSON array, are those of the matches, and the
bytes of the matches are the answer. A line of a session gets the answer, or a remark that it is
empty, or the error, whatever was asked before and on whatever other lines. -/
theorem front_ends_agree {text : String} (hroot : text.toList.head? = some '$')
    (hline : '\n' ∉ text.toList) (htrim : Text.trim text = text) (doc : Bytes) :
    (query doc text = .ok [] ↔ ∃ p, Path.parse text = .ok p ∧ p.select doc = .ok []) ∧
    (∀ args switches file surroundings, Gives args switches (text :: file.toList) →
      switches.Nodup → (∀ name ∈ file, isValue name) →
      surroundings.color = false → surroundings.Provide file doc →
      ∃ request, Request.ofArguments args = .ok request ∧
        match query doc text with
        | .error _ =>
          (request.outcome surroundings).code = 1 ∧ (request.outcome surroundings).output = []
        | .ok answer =>
          ∃ p spans, Path.parse text = .ok p ∧ p.select doc = .ok spans ∧
            renderMatches doc spans = answer ∧
            (∃ l : Layout, l.bytes = utf8 (Span.jsonArray spans) ∧
              l.tree = .array (spans.map Span.tree)) ∧
            request.outcome surroundings = .success (printed switches spans answer)) ∧
    (∀ history input before after, inputLines input = before ++ utf8 text :: after →
      (∀ line ∈ before, isValid line) →
      let s := Session.afterCalls doc history
      (s.run ⟨false, false⟩ input).1 =
        (s.runLines ⟨false, false⟩ before).1 ++ queryLine doc text ++
          (s.runLines ⟨false, false⟩ after).1) ∧
    (∀ rest, inputLines (utf8 text ++ Byte.lineFeed :: rest) = utf8 text :: inputLines rest) ∧
    (∀ file surroundings, file ≠ "" → file.toList.head? ≠ some '-' →
      surroundings.style = ⟨false, false⟩ → surroundings.Provide (some file) doc →
      surroundings.input = some (utf8 text ++ [Byte.lineFeed]) →
      ∃ request, Request.ofArguments ["repl", file] = .ok request ∧
        request.outcome surroundings = .success (queryLine doc text)) := by
  have hchars : Text.trimChars text.toList = text.toList := by
    simpa [Text.trim] using congrArg String.toList htrim
  have hne : text.toList ≠ [] := by
    intro hnil
    rw [hnil] at hroot
    cases hroot
  have hlines := inputLines_utf8 hline hchars
  refine ⟨query_eq_nil_iff doc text, ?command, ?line, hlines, ?session⟩
  case command =>
    intro args switches file surroundings hargs hswitches hfile hcolor hdoc
    refine ⟨_, Request.ofArguments_of_gives hargs hswitches (isValue_of_root hroot) hfile, ?_⟩
    have houtcome := QueryRequest.outcome_eq (.ofSwitches text file switches) rfl hdoc
    cases hquery : query doc text with
    | error error =>
      rw [hquery] at houtcome
      exact houtcome
    | ok answer =>
      rw [hquery] at houtcome
      obtain ⟨p, spans, hparse, hselect, rfl, hprinted⟩ := houtcome
      refine ⟨p, spans, hparse, hselect, rfl, Span.exists_layout_jsonArray spans, ?_⟩
      rw [hcolor, QueryRequest.output_ofSwitches hselect] at hprinted
      exact hprinted
  case line =>
    intro history input before after hinput hbefore
    exact (Session.knows_afterCalls doc history).run_line hne hchars hinput hbefore
  case session =>
    intro file surroundings hfile hhyphen hstyle hdoc hinput
    obtain ⟨document, hdocument, rfl⟩ := hdoc
    exact ⟨_, Request.ofArguments_session hfile hhyphen,
      sessionOutcome_line hne hline hchars hstyle hinput hdocument⟩

/-- A query with switches on both sides and a file, and the same query as the last line of an input
that has no line feed at its end. -/
theorem front_ends_agree_switches :
    let doc := utf8 "\x7b\"a\":[1,2]\x7d"
    let found : Surroundings := ⟨.ok (.ofFile doc), .ok (), "", none, ⟨false, false⟩, false⟩
    (∃ request, Request.ofArguments ["--count", "$.a[*]", "--spans", "a.json"] = .ok request ∧
      request.outcome found = .success (utf8 ("Found matches: 2\n" ++
        "[\x7b\"start\":6,\"end\":7\x7d,\x7b\"start\":8,\"end\":9\x7d]\n"))) ∧
      ((Session.ofDocument doc).run ⟨false, false⟩ (utf8 "$.b\n$.a[*]")).1 =
        utf8 "(no match)\n[1,2]\n" := by
  intro doc found
  obtain ⟨-, hcommand, hline, -⟩ :=
    @front_ends_agree "$.a[*]" (by decide) (by decide) (by decide) doc
  constructor
  · have hgives : Gives ["--count", "$.a[*]", "--spans", "a.json"] [.count, .spans]
        ["$.a[*]", "a.json"] :=
      .switch (s := .count) rfl (.value (.switch (s := .spans) rfl (.value .nil)))
    have houtcome := hcommand _ _ (some "a.json") found hgives (by decide) (by decide) rfl
      ⟨_, rfl, by decide +kernel⟩
    have hquery : query doc "$.a[*]" = .ok (utf8 "[1,2]") := by decide +kernel
    rw [hquery] at houtcome
    obtain ⟨request, hrequest, p, spans, hparse, hselect, -, -, hprinted⟩ := houtcome
    have hmatches : (Path.parse "$.a[*]").toOption.map (·.select doc) =
        some (.ok [⟨6, 7⟩, ⟨8, 9⟩]) := by
      decide +kernel
    rw [hparse] at hmatches
    cases hselect.symm.trans (Option.some.inj hmatches)
    exact ⟨request, hrequest, hprinted.trans (by decide +kernel)⟩
  · exact (hline [] _ [utf8 "$.b"] [] (by decide +kernel) (by decide +kernel)).trans
      (by decide +kernel)

end JsonSpan

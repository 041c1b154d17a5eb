import JsonSpan.CommandLine.Arguments
import Mathlib.Data.List.Nodup

/-!
# Reading the arguments of a query

Arguments that give switches and values in any order are read as the query that has them
(`Request.ofArguments_of_gives`).
-/

namespace JsonSpan

/-- Whether a switch is about what is printed of the matches. -/
def Switch.isForMatches : Switch → Bool
  | count | spans | noDisplay => true
  | _ => false

/-- Whether an argument is neither taken for a switch nor for a subcommand. -/
def isValue (arg : String) : Bool :=
  arg ≠ "" && arg.toList.head? ≠ some '-' && Scope.program.subcommand? arg = none

/-- Arguments that give switches, by their words, and values, in any order. -/
inductive Gives : List String → List Switch → List String → Prop
  | nil : Gives [] [] []
  | switch {s : Switch} {args : List String} {switches : List Switch} {values : List String} :
      s.isForMatches → Gives args switches values →
        Gives (("--" ++ s.word) :: args) (s :: switches) values
  | value {v : String} {args : List String} {switches : List Switch} {values : List String} :
      Gives args switches values → Gives (v :: args) switches (v :: values)

theorem Gives.isForMatches {args : List String} {switches : List Switch} {values : List String}
    (h : Gives args switches values) : ∀ s ∈ switches, s.isForMatches := by
  induction h with
  | nil => exact List.forall_mem_nil _
  | switch hs _ ih => exact List.forall_mem_cons.2 ⟨hs, ih⟩
  | value _ ih => exact ih

namespace Given

theorem switch_of_not_mem {s : Switch} (hs : s.isForMatches) {g : Given} (hg : s ∉ g.switches) :
    g.switch s = .ok { g with switches := s :: g.switches } := by
  have hnot : g.switches.contains s = false := by simpa using hg
  have hadd : g.switch s = if g.switches.contains s && !s.repeats then .error .misuse
      else .ok { g with switches := s :: g.switches } := by
    cases s <;> first | rfl | cases hs
  rw [hadd, hnot]
  rfl

theorem longSwitch_word {s : Switch} (hs : s.isForMatches) {g : Given} (hg : s ∉ g.switches) :
    g.longSwitch .program s.word.toList = .ok ⟨{ g with switches := s :: g.switches }, false⟩ := by
  have hword : s.word.toList.takeWhile (· != '=') = s.word.toList ∧
      s.word.toList.dropWhile (· != '=') = [] := by
    cases s <;> decide
  have hfind : Scope.program.switches.find? (·.word == s.word) = some s := by
    revert hs
    cases s <;> decide
  have hgiven : g.longSwitch .program s.word.toList = do return ⟨← g.switch s, false⟩ := by
    unfold longSwitch
    dsimp only
    rw [hword.1, hword.2, String.ofList_toList, hfind]
    cases s <;> first | rfl | cases hs
  rw [hgiven, switch_of_not_mem hs hg]
  rfl

theorem read_switch {s : Switch} (hs : s.isForMatches) {g : Given} (hg : s ∉ g.switches)
    (args : List String) :
    g.read .program false false (("--" ++ s.word) :: args) =
      Given.read .program { g with switches := s :: g.switches } false false args := by
  have hlong := longSwitch_word hs hg
  have htext : ("--" ++ s.word).toList = '-' :: '-' :: s.word.toList := String.toList_append
  obtain ⟨c, cs, hword⟩ : ∃ c cs, s.word.toList = c :: cs := by
    cases s <;> exact ⟨_, _, rfl⟩
  rw [hword] at hlong htext
  rw [read, htext]
  show (do
    let after ← g.longSwitch .program (c :: cs)
    after.given.read .program false after.awaiting args) = _
  rw [hlong]
  rfl

theorem value_of_accepts {scope : Scope} {v : String} {g : Given}
    (harity : g.values.length < scope.arity) (haccepts : accepts scope g.values.length v) :
    g.value scope v = .ok { g with values := g.values ++ [v] } := by
  rw [value, haccepts, Bool.and_true]
  exact if_pos (decide_eq_true harity)

theorem accepts_program (index : Nat) {v : String} (hv : v ≠ "") : accepts .program index v := by
  cases index with
  | zero => rfl
  | succ n => simpa [accepts] using hv

theorem read_value {scope : Scope} (hscope : scope ≠ .generate) {v : String}
    (hhyphen : v.toList.head? ≠ some '-') (hcommand : scope.subcommand? v = .none) {g : Given}
    (harity : g.values.length < scope.arity) (haccepts : accepts scope g.values.length v)
    (args : List String) :
    g.read scope false false (v :: args) =
      Given.read scope { g with values := g.values ++ [v] } false false args := by
  rw [read, if_neg Bool.false_ne_true]
  split
  · next htext => simp [htext] at hhyphen
  · next htext => simp [htext] at hhyphen
  · next htext => simp [htext] at hhyphen
  · rw [if_neg Bool.false_ne_true, hcommand]
    dsimp only
    rw [if_neg fun h => hscope h.1, value_of_accepts harity haccepts]
    rfl

/-- What the arguments give is put to what has been given already. -/
theorem read_of_gives {args : List String} {switches : List Switch} {values : List String}
    (h : Gives args switches values) (g : Given) (hswitches : (switches ++ g.switches).Nodup)
    (harity : g.values.length + values.length ≤ 2) (hvalues : ∀ v ∈ values, isValue v) :
    g.read .program false false args =
      Given.request
        { g with switches := switches.reverse ++ g.switches, values := g.values ++ values }
        .program := by
  induction h generalizing g with
  | nil => simp [read]
  | @switch s args switches values hs _ ih =>
    have hnot : s ∉ g.switches := fun hmem =>
      (List.nodup_cons.1 hswitches).1 (List.mem_append_right _ hmem)
    have hread := ih { g with switches := s :: g.switches } (List.nodup_middle.2 hswitches) harity hvalues
    rw [read_switch hs hnot, hread]
    simp
  | @value v args switches values _ ih =>
    obtain ⟨hv, hmore⟩ := List.forall_mem_cons.1 hvalues
    simp only [isValue, ne_eq, Bool.and_eq_true, decide_eq_true_eq] at hv
    obtain ⟨⟨hne, hhyphen⟩, hcommand⟩ := hv
    rw [List.length_cons] at harity
    have hfirst : g.values.length < Scope.program.arity := Nat.lt_of_lt_of_le (by omega) harity
    have hlength : (g.values ++ [v]).length + values.length ≤ 2 := by
      rw [List.length_append, List.length_singleton]
      omega
    have hread := ih { g with values := g.values ++ [v] } hswitches hlength hmore
    rw [read_value (by decide) hhyphen hcommand hfirst (accepts_program _ hne), hread]
    simp

end Given

/-- The query for a text, in a file if one is named, with some switches. -/
def QueryRequest.ofSwitches (text : String) (file : Option String) (switches : List Switch) :
    QueryRequest where
  path := some text
  file := file
  count := switches.contains .count
  spans := switches.contains .spans
  noDisplay := switches.contains .noDisplay

/-- Arguments with one or two values ask for a query. -/
theorem Request.ofArguments_of_gives {args : List String} {switches : List Switch} {text : String}
    {file : Option String} (h : Gives args switches (text :: file.toList))
    (hswitches : switches.Nodup) (htext : isValue text) (hfile : ∀ name ∈ file, isValue name) :
    Request.ofArguments args = .ok (.query (.ofSwitches text file switches)) := by
  have hread := Given.read_of_gives h .none (by simpa [Given.none] using hswitches)
    (by cases file <;> simp [Given.none]) (by simpa using ⟨htext, hfile⟩)
  have hquiet : Switch.quiet ∉ switches := fun hmem => Bool.noConfusion (h.isForMatches _ hmem)
  rw [Request.ofArguments, hread]
  cases file <;>
    simp [QueryRequest.ofSwitches, Given.request, Given.isConsistent, Given.none, hquiet]

theorem Request.ofArguments_session {file : String} (hne : file ≠ "")
    (hhyphen : file.toList.head? ≠ some '-') :
    Request.ofArguments ["repl", file] = .ok (.session file) := by
  have hread : Given.none.read .session false false [file] = .ok (.session file) := by
    rw [Given.read_value (by decide) hhyphen rfl (by decide) (by simpa [Given.accepts] using hne)]
    rfl
  show (do
    let request ← Given.none.read .session false false [file]
    if Given.none.isConsistent then return request else throw Exit.misuse) = _
  rw [hread]
  rfl

end JsonSpan

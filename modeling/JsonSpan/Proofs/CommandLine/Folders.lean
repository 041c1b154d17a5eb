import JsonSpan.CommandLine.Folder
import JsonSpan.Proofs.CommandLine.Agreement

/-!
# Runs in a folder

A file is found under the path it has in a folder (`Folder.Provides.of_file`), so a run of the program
in the folder answers a query about the file, or about the input, as it is answered by itself
(`Outcome.ofArguments_query`).
-/

namespace JsonSpan

namespace Folder

/-- A name that leads from a directory to something in it. -/
def IsName (name : String) : Prop :=
  name ≠ "" ∧ name ≠ "." ∧ name ≠ ".." ∧ name.utf8ByteSize ≤ nameLimit

variable {folder : Folder}

theorem follow_name {here names : List String} {name : String} (hname : IsName name)
    (hhere : folder.entry? here = some .directory) :
    folder.follow here (name :: names) = folder.follow (here ++ [name]) names := by
  obtain ⟨hempty, hpoint, hpoints, hshort⟩ := hname
  rw [follow, hhere]
  dsimp only
  rw [if_neg (Nat.not_lt_of_le hshort), if_neg (by simp [hempty, hpoint]), if_pos hpoints]

theorem follow_eq_ok {here names : List String} {entry : Entry} (hnames : ∀ name ∈ names, IsName name)
    (habove : ∀ before after, names = before ++ after → after ≠ [] →
      folder.entry? (here ++ before) = some .directory)
    (h : folder.entry? (here ++ names) = some entry) : folder.follow here names = .ok entry := by
  induction names generalizing here with
  | nil =>
    rw [List.append_nil] at h
    rw [follow, h]
  | cons name names ih =>
    obtain ⟨hname, hmore⟩ := List.forall_mem_cons.1 hnames
    have hhere := habove [] (name :: names) rfl (List.cons_ne_nil _ _)
    rw [List.append_nil] at hhere
    rw [follow_name hname hhere]
    refine ih hmore (fun before after hsplit hne => ?_) (by rwa [List.append_assoc])
    have := habove (name :: before) after (by rw [hsplit, List.cons_append]) hne
    rwa [List.append_assoc]

theorem entry?_above {before after : List String} {content : Bytes}
    (hfile : folder.files.lookup (before ++ after) = some content)
    (hfree : folder.files.lookup before = none) : folder.entry? before = some .directory := by
  obtain ⟨files, more, hfiles, -⟩ := List.lookup_eq_some_iff.1 hfile
  have hany : folder.files.any (before.isPrefixOf ·.1) := by
    rw [hfiles]
    simp
  unfold entry?
  rw [hfree, hany]
  simp

/-- A file is opened by its path. -/
theorem openDocument_file {path : String} {content : Bytes} (hinside : isOutside path = false)
    (hnames : ∀ name ∈ names path, IsName name)
    (hfile : folder.files.lookup (names path) = some content)
    (hfree : ∀ before after, names path = before ++ after → after ≠ [] →
      folder.files.lookup before = none) :
    folder.openDocument path = .ok (.ofFile content) := by
  have hne : path ≠ "" := by
    rintro rfl
    exact (hnames "" (by decide)).1 rfl
  have hentry : folder.entry? ([] ++ names path) = some (.file content) := by
    unfold entry?
    rw [List.nil_append, hfile]
  have hfollow : folder.follow [] (names path) = .ok (.file content) := by
    refine follow_eq_ok hnames (fun before after hsplit hafter => ?_) hentry
    rw [hsplit] at hfile
    exact entry?_above hfile (hfree before after hsplit hafter)
  rw [openDocument, if_neg (by simp [hne, hinside]), hfollow]

/-- What a query finds in a folder: the file that it names, or the input. -/
def Provides (folder : Folder) (input : Bytes) (file : Option String) (doc : Bytes) : Prop :=
  match file with
  | none => input = doc
  | some path => ∃ document, folder.openDocument path = .ok document ∧ document.bytes = doc

theorem Provides.surroundings {input doc : Bytes} {request : QueryRequest}
    (h : folder.Provides input request.file doc) :
    (folder.surroundings input (.query request)).Provide request.file doc := by
  obtain ⟨path, file, count, spans, noDisplay⟩ := request
  cases file with
  | none => exact congrArg some h
  | some path => exact h

theorem Provides.of_file {path : String} {content : Bytes} (hinside : isOutside path = false)
    (hnames : ∀ name ∈ names path, IsName name)
    (hfile : folder.files.lookup (names path) = some content)
    (hfree : ∀ before after, names path = before ++ after → after ≠ [] →
      folder.files.lookup before = none) (input : Bytes) :
    folder.Provides input (some path) content :=
  ⟨_, openDocument_file hinside hnames hfile hfree, Document.bytes_ofFile content⟩

end Folder

/-- The program in a folder answers a query about a file, or about the input, as it is answered by
itself. -/
theorem Outcome.ofArguments_query {args : List String} {switches : List Switch} {text : String}
    {file : Option String} (hargs : Gives args switches (text :: file.toList))
    (hswitches : switches.Nodup) (htext : isValue text) (hfile : ∀ path ∈ file, isValue path)
    {folder : Folder} {input doc : Bytes} (hdoc : folder.Provides input file doc) :
    match query doc text with
    | .error _ => (ofArguments folder input args).code = 1 ∧ (ofArguments folder input args).output = []
    | .ok answer => ∃ spans, renderMatches doc spans = answer ∧
        ofArguments folder input args = .success (printed switches spans answer) := by
  have hrun : ofArguments folder input args =
      (QueryRequest.ofSwitches text file switches).outcome
        (folder.surroundings input (.query (.ofSwitches text file switches))) := by
    rw [ofArguments, Request.ofArguments_of_gives hargs hswitches htext hfile]
    rfl
  have hfound : folder.Provides input (QueryRequest.ofSwitches text file switches).file doc := hdoc
  have houtcome := QueryRequest.outcome_eq (.ofSwitches text file switches) rfl hfound.surroundings
  rw [hrun]
  cases hquery : query doc text with
  | error error =>
    rw [hquery] at houtcome
    exact houtcome
  | ok answer =>
    rw [hquery] at houtcome
    obtain ⟨p, spans, hparse, hselect, rfl, hprinted⟩ := houtcome
    refine ⟨spans, rfl, hprinted.trans ?_⟩
    exact congrArg Outcome.success (QueryRequest.output_ofSwitches hselect text file switches)

end JsonSpan

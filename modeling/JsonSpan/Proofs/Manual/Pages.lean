import Mathlib.Data.List.Lex
import Mathlib.Data.List.Nodup
import Mathlib.Data.List.Sort
import Mathlib.Data.String.Basic
import JsonSpan.Manual

/-!
# The pages of a command tree

The pages are written from a stack of commands: the last one is taken off, its subcommands are put on,
and its page is written (`Command.written`). The stack runs empty, with one page for each command. A
page is named after the commands that lead to its own, so the paths are those of all ways from the root
(`Command.titles_eq`), sorted.

The hyphen that joins the names may stand in a name too. Then two commands can have one page, and only
then: the paths are all different if and only if the joined names are, as they are if no name below the
root has a hyphen in it (`Command.pages_distinct_iff`).
-/

namespace JsonSpan.Command

mutual

/-- The commands of a tree, each with the names that lead to it. -/
def nodes : Command → List (List String × Command)
  | mk name subcommands =>
    ([name], mk name subcommands) :: (nodesBelow subcommands).map (Prod.map (name :: ·) id)

/-- The commands of several trees, each with the names that lead to it. -/
def nodesBelow : List Command → List (List String × Command)
  | [] => []
  | c :: more => nodes c ++ nodesBelow more

end

/-- The names that lead to the commands of a tree. -/
def routes (c : Command) : List (List String) :=
  c.nodes.map Prod.fst

def commands (c : Command) : List Command :=
  c.nodes.map Prod.snd

/-- Names are not empty and hold no path separator, and no two subcommands of a command share one. -/
structure IsWellNamed (c : Command) : Prop where
  named : ∀ d ∈ c.commands, d.name ≠ ""
  flat : ∀ d ∈ c.commands, '/' ∉ d.name.toList
  unique : ∀ d ∈ c.commands, (d.subcommands.map name).Nodup

/-- The path of the page of the command that some names lead to. -/
def pagePath (directory : String) (route : List String) : String :=
  pathIn directory (pageFile ("-".intercalate route))

/-! ### Ways through a tree -/

theorem nodesBelow_eq (cs : List Command) : nodesBelow cs = cs.flatMap nodes := by
  induction cs with
  | nil => rfl
  | cons c more ih => rw [nodesBelow, ih, List.flatMap_cons]

theorem nodes_eq (c : Command) :
    c.nodes = ([c.name], c) :: (c.subcommands.flatMap nodes).map (Prod.map (c.name :: ·) id) := by
  obtain ⟨name, subcommands⟩ := c
  rw [nodes, nodesBelow_eq]
  rfl

theorem routes_eq (c : Command) :
    c.routes = [c.name] :: (c.subcommands.flatMap routes).map (c.name :: ·) := by
  rw [routes, nodes_eq, List.map_cons, List.map_map, ← Function.comp_def, List.map_flatMap,
    List.map_flatMap]
  simp only [routes, List.map_map, Function.comp_def, Prod.map_fst]

theorem commands_eq (c : Command) : c.commands = c :: c.subcommands.flatMap commands := by
  rw [commands, nodes_eq, List.map_cons, List.map_map, List.map_flatMap]
  simp only [Function.comp_def, Prod.map_snd, id_eq]
  rfl

/-- What holds of a command if it holds of its subcommands holds of every command. -/
@[elab_as_elim]
theorem tree_induction {motive : Command → Prop} (c : Command)
    (step : ∀ c : Command, (∀ d ∈ c.subcommands, motive d) → motive c) : motive c :=
  step c fun d _ => tree_induction d step
termination_by sizeOf c
decreasing_by
  obtain ⟨name, subcommands⟩ := c
  have hlt := List.sizeOf_lt_of_mem ‹d ∈ (mk name subcommands).subcommands›
  rw [mk.sizeOf_spec]
  exact Nat.lt_add_left _ hlt

theorem length_routes (c : Command) : c.routes.length = c.commands.length := by
  rw [routes, commands, List.length_map, List.length_map]

theorem exists_cons_of_mem_routes {c : Command} {route : List String} (h : route ∈ c.routes) :
    ∃ below, route = c.name :: below := by
  rw [routes_eq] at h
  rcases List.mem_cons.1 h with rfl | h
  · exact ⟨[], rfl⟩
  · obtain ⟨below, -, rfl⟩ := List.mem_map.1 h
    exact ⟨below, rfl⟩

namespace IsWellNamed

theorem subcommand {c d : Command} (h : c.IsWellNamed) (hd : d ∈ c.subcommands) : d.IsWellNamed := by
  have hmem : ∀ e ∈ d.commands, e ∈ c.commands := by
    intro e he
    rw [commands_eq]
    exact List.mem_cons_of_mem c (List.mem_flatMap.2 ⟨d, hd, he⟩)
  exact ⟨fun e he => h.named e (hmem e he), fun e he => h.flat e (hmem e he),
    fun e he => h.unique e (hmem e he)⟩

theorem unique_subcommands {c : Command} (h : c.IsWellNamed) : (c.subcommands.map name).Nodup :=
  h.unique c (by rw [commands_eq]; exact List.mem_cons_self)

theorem nodup_routes {c : Command} (h : c.IsWellNamed) : c.routes.Nodup := by
  induction c using tree_induction with
  | step c ih =>
    have hbelow : (c.subcommands.flatMap routes).Nodup := by
      refine List.nodup_flatMap.2 ⟨fun d hd => ih d hd (h.subcommand hd), ?_⟩
      refine (List.pairwise_map.1 h.unique_subcommands).imp fun {d e} hne route hd he => hne ?_
      obtain ⟨below, rfl⟩ := exists_cons_of_mem_routes hd
      obtain ⟨below', heq⟩ := exists_cons_of_mem_routes he
      exact (List.cons.inj heq).1
    rw [routes_eq, List.nodup_cons]
    refine ⟨fun hroot => ?_, hbelow.map (List.cons_injective : Function.Injective (c.name :: ·))⟩
    obtain ⟨route, hroute, heq⟩ := List.mem_map.1 hroot
    obtain ⟨d, -, hroute⟩ := List.mem_flatMap.1 hroute
    obtain ⟨below, rfl⟩ := exists_cons_of_mem_routes hroute
    cases heq

end IsWellNamed

/-! ### Titles -/

theorem titlesBelow_eq (title : String) (cs : List Command) :
    titlesBelow title cs = cs.flatMap fun c => titlesFrom (title ++ "-" ++ c.name) c := by
  induction cs with
  | nil => rfl
  | cons c more ih =>
    obtain ⟨name, subcommands⟩ := c
    rw [titlesBelow, ih, List.flatMap_cons]
    rfl

theorem titlesFrom_eq (title : String) (c : Command) :
    titlesFrom title c =
      title :: c.subcommands.flatMap fun d => titlesFrom (title ++ "-" ++ d.name) d := by
  obtain ⟨name, subcommands⟩ := c
  rw [titlesFrom, titlesBelow_eq]
  rfl

theorem titlesFrom_routes (c : Command) (before : String) :
    titlesFrom (before ++ c.name) c = c.routes.map fun route => before ++ "-".intercalate route := by
  induction c using tree_induction generalizing before with
  | step c ih =>
    rw [titlesFrom_eq, routes_eq, List.map_cons, String.intercalate_singleton, List.map_map,
      List.map_flatMap, List.cons.injEq]
    refine ⟨rfl, List.flatMap_congr fun d hd => ?_⟩
    rw [ih d hd]
    refine List.map_congr_left fun route hroute => ?_
    obtain ⟨below, rfl⟩ := exists_cons_of_mem_routes hroute
    simp only [Function.comp_apply, String.intercalate_cons_cons, String.append_assoc]

theorem titles_eq (c : Command) : c.titles = c.routes.map ("-".intercalate ·) := by
  have h := titlesFrom_routes c ""
  simp only [String.empty_append] at h
  exact h

/-! ### Distinct titles -/

theorem intercalate_injective {names names' : List String} (hne : names ≠ []) (hne' : names' ≠ [])
    (h : ∀ n ∈ names, '-' ∉ n.toList) (h' : ∀ n ∈ names', '-' ∉ n.toList)
    (heq : "-".intercalate names = "-".intercalate names') : names = names' := by
  have hsplit {ns : List String} (hns : ns ≠ []) (hhyphen : ∀ n ∈ ns, '-' ∉ n.toList) :
      ("-".intercalate ns).toList.splitOn '-' = ns.map String.toList := by
    rw [String.toList_intercalate]
    refine List.splitOn_intercalate '-' ?_ (by simpa using hns)
    exact List.forall_mem_map.2 hhyphen
  have hlists := hsplit hne h
  rw [heq, hsplit hne' h'] at hlists
  exact (List.map_injective_iff.2 fun a b hab => String.toList_inj.1 hab) hlists.symm

theorem name_of_mem_route {c : Command} {below : List String} (h : c.name :: below ∈ c.routes) :
    ∀ n ∈ below, ∃ d ∈ c.subcommands.flatMap commands, d.name = n := by
  induction c using tree_induction generalizing below with
  | step c ih =>
    rw [routes_eq] at h
    rcases List.mem_cons.1 h with hroot | h
    · cases hroot
      simp
    · obtain ⟨route, hroute, heq⟩ := List.mem_map.1 h
      obtain rfl : route = below := (List.cons.inj heq).2
      obtain ⟨d, hd, hroute⟩ := List.mem_flatMap.1 hroute
      obtain ⟨rest, rfl⟩ := exists_cons_of_mem_routes hroute
      have hmem : ∀ e ∈ d.commands, e ∈ c.subcommands.flatMap commands := fun e he =>
        List.mem_flatMap.2 ⟨d, hd, he⟩
      rw [commands_eq] at hmem
      refine List.forall_mem_cons.2 ⟨⟨d, hmem d List.mem_cons_self, rfl⟩, fun n hn => ?_⟩
      obtain ⟨e, he, hname⟩ := ih d hd hroute n hn
      exact ⟨e, hmem e (List.mem_cons_of_mem d he), hname⟩

/-- Routes are told apart by their titles, if no name below the root has a hyphen in it. -/
theorem route_eq_of_title_eq {c : Command}
    (h : ∀ d ∈ c.subcommands.flatMap commands, '-' ∉ d.name.toList) {route route' : List String}
    (hroute : route ∈ c.routes) (hroute' : route' ∈ c.routes)
    (heq : "-".intercalate route = "-".intercalate route') : route = route' := by
  obtain ⟨below, rfl⟩ := exists_cons_of_mem_routes hroute
  obtain ⟨below', rfl⟩ := exists_cons_of_mem_routes hroute'
  have hhyphen {names : List String} (hnames : c.name :: names ∈ c.routes) :
      ∀ n ∈ names, '-' ∉ n.toList := by
    intro n hn
    obtain ⟨d, hd, rfl⟩ := name_of_mem_route hnames n hn
    exact h d hd
  -- the title of the root is shorter than any other
  have hroot {names : List String} (hne : names ≠ []) :
      "-".intercalate [c.name] ≠ "-".intercalate (c.name :: names) := by
    intro htitle
    have hlength := congrArg String.length htitle
    rw [String.intercalate_singleton, String.intercalate_cons_of_ne_nil hne, String.length_append,
      String.length_append] at hlength
    have : "-".length = 1 := rfl
    omega
  by_cases hne : below = [] <;> by_cases hne' : below' = []
  · rw [hne, hne']
  · subst hne
    exact absurd heq (hroot hne')
  · subst hne'
    exact absurd heq.symm (hroot hne)
  · rw [String.intercalate_cons_of_ne_nil hne, String.intercalate_cons_of_ne_nil hne',
      String.append_right_inj] at heq
    rw [intercalate_injective hne hne' (hhyphen hroute) (hhyphen hroute') heq]

/-! ### Writing the pages -/

/-- The titles of the pages that are written for a stack of commands with their titles, the last one
in front: a command is taken off, and its subcommands are put on in their order. -/
def written (done : List String) : List (String × Command) → List String
  | [] => done
  | (title, c) :: stack =>
    written (done ++ [title])
      ((c.subcommands.map fun sub => (title ++ "-" ++ sub.name, sub)).reverse ++ stack)
termination_by stack => (stack.flatMap (·.2.commands)).length
decreasing_by
  have hpushed : ((c.subcommands.map fun sub => (title ++ "-" ++ sub.name, sub)).reverse.flatMap
      (·.2.commands)).length = (c.subcommands.flatMap commands).length := by
    rw [((List.reverse_perm _).flatMap_right _).length_eq, List.flatMap_map]
  have htaken : c.commands.length = (c.subcommands.flatMap commands).length + 1 := by
    rw [commands_eq, List.length_cons]
  rw [List.flatMap_append, List.length_append, hpushed, List.flatMap_cons, List.length_append, htaken]
  omega

/-- The paths of the pages that are written for a command, sorted. -/
def writtenPaths (c : Command) (directory : String) : List String :=
  ((written [] [(c.name, c)]).map fun title => pathIn directory (pageFile title)).mergeSort
    fun a b => decide (a ≤ b)

theorem written_perm (done : List String) (stack : List (String × Command)) :
    (written done stack).Perm (done ++ stack.flatMap fun x => titlesFrom x.1 x.2) := by
  fun_induction written done stack with
  | case1 done => simp
  | case2 done title c stack ih =>
    refine ih.trans ?_
    rw [List.flatMap_append, List.flatMap_cons, titlesFrom_eq, List.append_assoc, List.cons_append]
    refine List.Perm.append_left done (List.Perm.cons title ?_)
    rw [List.nil_append]
    refine List.Perm.append_right _ (((List.reverse_perm _).flatMap_right _).trans ?_)
    rw [List.flatMap_map]

theorem append_le_append_iff (before a b : String) : before ++ a ≤ before ++ b ↔ a ≤ b := by
  have hlt {x y : String} (h : x < y) : before ++ x < before ++ y := by
    rw [String.lt_iff_toList_lt] at h ⊢
    rw [String.toList_append, String.toList_append]
    exact List.append_left_lt h
  constructor
  · intro h
    by_contra hba
    exact h (hlt (String.not_le.1 hba))
  · intro h
    rcases eq_or_lt_of_le h with rfl | h
    · exact String.le_refl _
    · exact le_of_lt (hlt h)

theorem exists_pathIn_eq (directory : String) :
    ∃ before, ∀ file, pathIn directory file = before ++ file := by
  by_cases h : directory.isEmpty || directory.endsWith "/"
  · exact ⟨directory, fun file => if_pos h⟩
  · exact ⟨directory ++ "/", fun file => if_neg h⟩

theorem pathIn_pageFile_injective (directory : String) :
    Function.Injective fun title => pathIn directory (pageFile title) := by
  intro title title' h
  obtain ⟨before, hbefore⟩ := exists_pathIn_eq directory
  simp only [hbefore, pageFile, String.append_right_inj, String.append_left_inj] at h
  exact h

theorem pagePaths_eq (c : Command) (directory : String) :
    c.pagePaths directory = (c.routes.map (pagePath directory)).mergeSort fun a b => decide (a ≤ b) := by
  obtain ⟨before, hbefore⟩ := exists_pathIn_eq directory
  rw [pagePaths, titles_eq, List.map_mergeSort fun a _ b _ => ?_, List.map_map, List.map_map]
  · rfl
  · rw [hbefore, hbefore, decide_eq_decide, append_le_append_iff]

theorem writtenPaths_eq (c : Command) (directory : String) :
    c.writtenPaths directory = c.pagePaths directory := by
  have hwritten : (written [] [(c.name, c)]).Perm (c.routes.map ("-".intercalate ·)) := by
    have h := written_perm [] [(c.name, c)]
    rwa [List.nil_append, List.flatMap_singleton, ← titles, titles_eq] at h
  have hpaths := hwritten.map fun title => pathIn directory (pageFile title)
  rw [List.map_map] at hpaths
  rw [pagePaths_eq, writtenPaths]
  exact ((List.mergeSort_perm _ _).trans (hpaths.trans (List.mergeSort_perm _ _).symm)).eq_of_pairwise'
    (List.pairwise_mergeSort' (· ≤ ·) _) (List.pairwise_mergeSort' (· ≤ ·) _)

/-- Every command of a tree gets its page, and the paths are sorted. They are all different if and only
if no two commands have the same joined names, as is so if no name below the root has a hyphen in it. -/
theorem pages_distinct_iff (c : Command) (directory : String) (hc : c.IsWellNamed) :
    c.writtenPaths directory = c.pagePaths directory ∧
      (c.pagePaths directory).Pairwise (· ≤ ·) ∧
      (c.pagePaths directory).length = c.commands.length ∧
      (c.pagePaths directory).Perm (c.nodes.map fun node => pagePath directory node.1) ∧
      ((c.pagePaths directory).Nodup ↔ ∀ route ∈ c.routes, ∀ route' ∈ c.routes,
        "-".intercalate route = "-".intercalate route' → route = route') ∧
      ((∀ d ∈ c.subcommands.flatMap commands, '-' ∉ d.name.toList) →
        (c.pagePaths directory).Nodup) := by
  have hperm : (c.pagePaths directory).Perm (c.routes.map (pagePath directory)) := by
    rw [pagePaths_eq]
    exact List.mergeSort_perm _ _
  have hnodup : (c.pagePaths directory).Nodup ↔ ∀ route ∈ c.routes, ∀ route' ∈ c.routes,
      "-".intercalate route = "-".intercalate route' → route = route' := by
    have hpath (route route' : List String) : pagePath directory route = pagePath directory route' ↔
        "-".intercalate route = "-".intercalate route' :=
      (pathIn_pageFile_injective directory).eq_iff
    rw [hperm.nodup_iff, List.nodup_map_iff_inj_on hc.nodup_routes]
    simp only [hpath]
  refine ⟨writtenPaths_eq c directory, ?_, ?_, ?_, hnodup, fun hhyphen => ?_⟩
  · rw [pagePaths_eq]
    exact List.pairwise_mergeSort' (· ≤ ·) _
  · rw [hperm.length_eq, List.length_map, length_routes]
  · rwa [routes, List.map_map] at hperm
  · exact hnodup.2 fun route hroute route' hroute' => route_eq_of_title_eq hhyphen hroute hroute'

/-- The program with the commands `a-b` and `a b`, which have the same page. -/
def colliding : Command :=
  mk "r" [mk "a-b" [], mk "a" [mk "b" []]]

/-- The commands `a-b` and `a b` of one program share a page, as no two commands of another do. -/
theorem pages_distinct_iff_colliding :
    (colliding.IsWellNamed ∧ colliding.writtenPaths "d" = colliding.pagePaths "d" ∧
      (colliding.pagePaths "d").length = 4 ∧
      (colliding.pagePaths "d").Perm ["d/r.1", "d/r-a-b.1", "d/r-a.1", "d/r-a-b.1"] ∧
      ¬ (colliding.pagePaths "d").Nodup) ∧
    ((mk "jps" [mk "repl" [], mk "generate" [mk "shell" []]]).IsWellNamed ∧
      ((mk "jps" [mk "repl" [], mk "generate" [mk "shell" []]]).pagePaths "d").Nodup) := by
  have hcolliding : colliding.IsWellNamed :=
    ⟨by decide +kernel, by decide +kernel, by decide +kernel⟩
  have hdistinct : (mk "jps" [mk "repl" [], mk "generate" [mk "shell" []]]).IsWellNamed :=
    ⟨by decide +kernel, by decide +kernel, by decide +kernel⟩
  obtain ⟨hwritten, -, hlength, hperm, hiff, -⟩ := pages_distinct_iff colliding "d" hcolliding
  rw [show (colliding.nodes.map fun node => pagePath "d" node.1) =
    ["d/r.1", "d/r-a-b.1", "d/r-a.1", "d/r-a-b.1"] by decide +kernel] at hperm
  obtain ⟨-, -, -, -, -, hnodup⟩ := pages_distinct_iff _ "d" hdistinct
  refine ⟨⟨hcolliding, hwritten, hlength, hperm, fun h => ?_⟩, hdistinct, hnodup (by decide +kernel)⟩
  exact absurd (hiff.1 h ["r", "a-b"] (by decide +kernel) ["r", "a", "b"] (by decide +kernel)
    (by decide +kernel)) (by decide +kernel)

end JsonSpan.Command

import Mathlib.Data.List.Forall2
import JsonSpan.Proofs.Query.Framing

/-!
# Paths one after another

A path is evaluated in steps, each from all the values that the step before it led to. Where this
succeeds, going on from each value on its own does, and gives the same values in the same order
(`Segment.result_stepAll_eq_ok`); only which fault is met first may differ. And what is reached from
one value is what a path selects in the bytes of that value. So a path in two parts selects what the
second part selects in each match of the first (`Path.select_append`).
-/

namespace JsonSpan

/-! ### Lists of steps -/

section

variable {ε ε' α β γ : Type} {f : α → Except ε (List β)} {as : List α} {cs : List β}

theorem gather_cons_eq_ok {a : α} :
    gather f (a :: as) = .ok cs ↔
      ∃ xs ys, f a = .ok xs ∧ gather f as = .ok ys ∧ cs = xs ++ ys := by
  rw [gather, bind_eq_ok]
  constructor
  · rintro ⟨xs, hx, h⟩
    obtain ⟨ys, hy, h⟩ := bind_eq_ok.1 h
    exact ⟨xs, ys, hx, hy, (Except.ok.inj h).symm⟩
  · rintro ⟨xs, ys, hx, hy, rfl⟩
    exact ⟨xs, hx, bind_eq_ok.2 ⟨ys, hy, rfl⟩⟩

theorem gather_append_eq_ok {bs : List α} :
    gather f (as ++ bs) = .ok cs ↔
      ∃ xs ys, gather f as = .ok xs ∧ gather f bs = .ok ys ∧ cs = xs ++ ys := by
  induction as generalizing cs with
  | nil =>
    constructor
    · exact fun h => ⟨[], cs, rfl, h, rfl⟩
    · rintro ⟨xs, ys, hx, hy, rfl⟩
      cases hx
      exact hy
  | cons a as ih =>
    rw [List.cons_append, gather_cons_eq_ok]
    constructor
    · rintro ⟨ws, us, hw, hu, rfl⟩
      obtain ⟨xs, ys, hx, hy, rfl⟩ := ih.1 hu
      exact ⟨ws ++ xs, ys, gather_cons_eq_ok.2 ⟨ws, xs, hw, hx, rfl⟩, hy,
        (List.append_assoc ws xs ys).symm⟩
    · rintro ⟨xs, ys, hx, hy, rfl⟩
      obtain ⟨ws, us, hw, hu, rfl⟩ := gather_cons_eq_ok.1 hx
      exact ⟨ws, us ++ ys, hw, ih.2 ⟨us, ys, hu, hy, rfl⟩, List.append_assoc ws us ys⟩

/-- Two steps for each item in turn give what the first step for all items and then the second one
give. -/
theorem gather_bind_eq_ok {g : γ → Except ε (List α)} {items : List γ} :
    gather (fun c => g c >>= gather f) items = .ok cs ↔
      ∃ as, gather g items = .ok as ∧ gather f as = .ok cs := by
  induction items generalizing cs with
  | nil =>
    constructor
    · exact fun h => ⟨[], rfl, h⟩
    · rintro ⟨as, ha, h⟩
      cases ha
      exact h
  | cons c items ih =>
    rw [gather_cons_eq_ok]
    constructor
    · rintro ⟨xs, ys, hx, hy, rfl⟩
      obtain ⟨as, hg, hf⟩ := bind_eq_ok.1 hx
      obtain ⟨more, hg', hf'⟩ := ih.1 hy
      exact ⟨as ++ more, gather_cons_eq_ok.2 ⟨as, more, hg, hg', rfl⟩,
        gather_append_eq_ok.2 ⟨xs, ys, hf, hf', rfl⟩⟩
    · rintro ⟨bs, hb, h⟩
      obtain ⟨as, more, hg, hg', rfl⟩ := gather_cons_eq_ok.1 hb
      obtain ⟨xs, ys, hf, hf', rfl⟩ := gather_append_eq_ok.1 h
      exact ⟨xs, ys, bind_eq_ok.2 ⟨as, hg, hf⟩, ih.2 ⟨more, hg', hf'⟩, rfl⟩

theorem gather_eq_ok_congr {g : α → Except ε' (List β)}
    (h : ∀ a ∈ as, ∀ bs, f a = .ok bs ↔ g a = .ok bs) :
    gather f as = .ok cs ↔ gather g as = .ok cs := by
  induction as generalizing cs with
  | nil => simp [gather]
  | cons a as ih =>
    have hmore : ∀ ys, gather f as = .ok ys ↔ gather g as = .ok ys :=
      fun ys => ih fun b hb => h b (by simp [hb])
    simp only [gather_cons_eq_ok, h a (by simp), hmore]

theorem gather_mapBoth_eq_ok {e : α → ε → ε'} {move : α → β → γ} {cs : List γ} :
    gather (fun a => mapBoth (e a) (List.map (move a)) (f a)) as = .ok cs ↔
      ∃ parts, List.Forall₂ (fun a part => f a = .ok part) as parts ∧
        cs = (as.zip parts).flatMap fun (a, part) => part.map (move a) := by
  induction as generalizing cs with
  | nil =>
    constructor
    · intro h
      cases h
      exact ⟨[], .nil, rfl⟩
    · rintro ⟨parts, hparts, rfl⟩
      cases hparts
      rfl
  | cons a as ih =>
    rw [gather_cons_eq_ok]
    constructor
    · rintro ⟨xs, ys, hx, hy, rfl⟩
      obtain ⟨part, hpart, rfl⟩ := mapBoth_eq_ok.1 hx
      obtain ⟨parts, hparts, rfl⟩ := ih.1 hy
      exact ⟨part :: parts, .cons hpart hparts, rfl⟩
    · rintro ⟨_, hall, rfl⟩
      cases hall with
      | cons hpart hparts =>
        exact ⟨_, _, mapBoth_eq_ok.2 ⟨_, hpart, rfl⟩, ih.2 ⟨_, hparts, rfl⟩, rfl⟩

end

/-! ### Steps from several values -/

theorem Segment.result_stepAll_append (site : Site) (spans : List Span) (a b : List Segment) :
    (Segment.stepAll site spans (a ++ b)).result =
      (Segment.stepAll site spans a).result >>= fun reached =>
        (Segment.stepAll site reached b).result := by
  induction a generalizing spans with
  | nil =>
    rw [List.nil_append, Segment.result_stepAll_nil]
    rfl
  | cons segment more ih =>
    rw [List.cons_append, Segment.result_stepAll_cons, Segment.result_stepAll_cons]
    cases gather (fun s => (segment.step site s).result) spans with
    | error fault => rfl
    | ok reached => exact ih reached

theorem Segment.result_stepAll_eq_ok {site : Site} {spans vs : List Span} {segments : List Segment} :
    (Segment.stepAll site spans segments).result = .ok vs ↔
      gather (fun s => (Segment.stepAll site [s] segments).result) spans = .ok vs := by
  induction segments generalizing spans vs with
  | nil =>
    have hnil : gather (fun s => (Segment.stepAll site [s] []).result) spans = .ok spans := by
      induction spans with
      | nil => rfl
      | cons s spans ih =>
        exact gather_cons_eq_ok.2 ⟨[s], spans, Segment.result_stepAll_nil site [s], ih, rfl⟩
    rw [Segment.result_stepAll_nil, hnil]
  | cons segment more ih =>
    -- from one value, the segment leads to several, from which the others go on one by one
    have hone : ∀ s ∈ spans, ∀ bs, (Segment.stepAll site [s] (segment :: more)).result = .ok bs ↔
        ((segment.step site s).result >>=
          gather fun v => (Segment.stepAll site [v] more).result) = .ok bs := by
      intro s _ bs
      rw [Segment.result_stepAll_cons, gather_singleton, bind_eq_ok, bind_eq_ok]
      exact exists_congr fun reached => and_congr_right fun _ => ih
    rw [gather_eq_ok_congr hone, gather_bind_eq_ok, Segment.result_stepAll_cons, bind_eq_ok]
    exact exists_congr fun reached => and_congr_right fun _ => ih

/-- A path that does not ask for the root leads from several values to what it selects in the bytes of
each. -/
theorem Segment.result_stepAll_eq_parts {doc : Bytes} {root : Span} {vs spans : List Span} {p : Path}
    (hp : p.usesRoot = false) (hvs : ∀ v ∈ vs, v.IsExtent doc) :
    (Segment.stepAll ⟨doc, root⟩ vs p).result = .ok spans ↔
      ∃ parts, List.Forall₂ (fun v part => p.select (v.slice doc) = .ok part) vs parts ∧
        spans = (vs.zip parts).flatMap fun (v, part) => part.map (Span.shift v.start) := by
  have hslice : ∀ v ∈ vs, (Segment.stepAll ⟨doc, root⟩ [v] p).result =
      mapBoth (Fault.shift v.start) (List.map (Span.shift v.start)) (p.select (v.slice doc)) :=
    fun v hv => Segment.result_stepAll_slice (hvs v hv) p (by simp [hp])
  rw [Segment.result_stepAll_eq_ok, gather_congr hslice, gather_mapBoth_eq_ok]

theorem Path.select_eq_ok {p : Path} {doc : Bytes} {vs : List Span} :
    p.select doc = .ok vs ↔
      ∃ root, locateRoot doc = .ok root ∧ (Segment.stepAll ⟨doc, root⟩ [root] p).result = .ok vs := by
  rw [Path.select_eq, bind_eq_ok]

/-- Paths compose. Where the second one does not ask for the root, the two together select what the
second one selects in each match of the first, as a document of its own, moved to where the match
starts; and they succeed exactly if all of these do. To go on from all matches step by step comes to
the same as to go on from one after another, and what a filter says of a value is decided by the
bytes of the value. -/
theorem Path.select_append (a b : Path) (hb : b.usesRoot = false) (doc : Bytes) :
    (∀ spans, (a ++ b).select doc = .ok spans ↔
      ∃ vs parts, a.select doc = .ok vs ∧
        List.Forall₂ (fun v part => b.select (v.slice doc) = .ok part) vs parts ∧
        spans = (vs.zip parts).flatMap fun (v, part) => part.map (Span.shift v.start)) ∧
    (∀ root vs spans, (Segment.stepAll ⟨doc, root⟩ vs b).result = .ok spans ↔
      gather (fun v => (Segment.stepAll ⟨doc, root⟩ [v] b).result) vs = .ok spans) ∧
    ∀ condition : Condition, condition.usesRoot = false → ∀ root v, v.IsExtent doc →
      (condition.test ⟨doc, root⟩ v).result =
        mapBoth (Fault.shift v.start) id
          (condition.test ⟨v.slice doc, .whole (v.slice doc)⟩ (.whole (v.slice doc))).result := by
  refine ⟨fun spans => ?_, fun root vs spans => Segment.result_stepAll_eq_ok,
    fun condition hc root v hv => condition.result_test_slice hv (by simp [hc])⟩
  have hextent : ∀ {root vs}, locateRoot doc = .ok root →
      (Segment.stepAll ⟨doc, root⟩ [root] a).result = .ok vs → ∀ v ∈ vs, v.IsExtent doc := by
    intro root vs hroot hvs
    exact isExtent_of_stepAll (List.forall_mem_singleton.2 (isExtent_of_locateRoot hroot).1) hvs
  rw [Path.select_eq_ok]
  constructor
  · rintro ⟨root, hroot, h⟩
    rw [Segment.result_stepAll_append, bind_eq_ok] at h
    obtain ⟨vs, hvs, hspans⟩ := h
    obtain ⟨parts, hparts⟩ :=
      (Segment.result_stepAll_eq_parts hb (hextent hroot hvs)).1 hspans
    exact ⟨vs, parts, Path.select_eq_ok.2 ⟨root, hroot, hvs⟩, hparts⟩
  · rintro ⟨vs, parts, hselect, hparts⟩
    obtain ⟨root, hroot, hvs⟩ := Path.select_eq_ok.1 hselect
    refine ⟨root, hroot, ?_⟩
    rw [Segment.result_stepAll_append]
    exact bind_eq_ok.2 ⟨vs, hvs,
      (Segment.result_stepAll_eq_parts hb (hextent hroot hvs)).2 ⟨parts, hparts⟩⟩

theorem Path.select_append_nested :
    Path.select [.wildcard, .filter (.present (.current [.index 0]))] (utf8 " [[[1],2],[[3]]]") =
      .ok [⟨3, 6⟩, ⟨11, 14⟩] ∧
    gather (fun v => (Segment.stepAll ⟨utf8 " [[[1],2],[[3]]]", ⟨1, 16⟩⟩ [v]
      [.filter (.present (.current [.index 0]))]).result) [⟨2, 9⟩, ⟨10, 15⟩] =
      .ok [⟨3, 6⟩, ⟨11, 14⟩] ∧
    ((Condition.present (.current [.index 0])).test ⟨utf8 " [[[1],2],[[3]]]", ⟨1, 16⟩⟩
      ⟨11, 14⟩).result =
      mapBoth (Fault.shift 11) id
        ((Condition.present (.current [.index 0])).test ⟨utf8 "[3]", .whole (utf8 "[3]")⟩
          (.whole (utf8 "[3]"))).result := by
  obtain ⟨happend, hsteps, htest⟩ := select_append [.wildcard]
    [.filter (.present (.current [.index 0]))] rfl (utf8 " [[[1],2],[[3]]]")
  have hselect := (happend [⟨3, 6⟩, ⟨11, 14⟩]).2 ⟨[⟨2, 9⟩, ⟨10, 15⟩], [[⟨1, 4⟩], [⟨1, 4⟩]],
    by decide +kernel, .cons (by decide +kernel) (.cons (by decide +kernel) .nil), rfl⟩
  have hextent : Span.IsExtent (utf8 " [[[1],2],[[3]]]") ⟨11, 14⟩ := by
    rw [Span.IsExtent]
    decide +kernel
  exact ⟨hselect, (hsteps ⟨1, 16⟩ [⟨2, 9⟩, ⟨10, 15⟩] _).1 (by decide +kernel),
    htest _ rfl ⟨1, 16⟩ ⟨11, 14⟩ hextent⟩

end JsonSpan

import JsonSpan.Proofs.Delimiters.Outside

/-!
# Matching brackets and parentheses

When an opener has its closer in a text, whatever the text is: what stands between them is nested
(`Nested`), each closer in it closing the innermost opener. The matching of delimiters has an opener
on its stack exactly as long as it has met no such closer. An opener that is on the stack is not
closed, neither so far nor by what follows until the matching comes to a stop
(`Origin.not_isClosed`), and one that is not on the stack any more has been closed
(`isClosed_or_isOpen`).
-/

namespace JsonSpan

open Spelling DelimiterScan

/-! ### Nested texts -/

/-- The two ways to enclose a text. -/
inductive Enclosure where
  | bracket
  | parenthesis
  deriving DecidableEq, Repr

namespace Enclosure

def opener : Enclosure → Char
  | bracket => '['
  | parenthesis => '('

def closer : Enclosure → Char
  | bracket => ']'
  | parenthesis => ')'

end Enclosure

/-- What a delimiter encloses its text with; a filter does it with the parenthesis. -/
def Delimiter.enclosure (f : Delimiter) : Enclosure :=
  match f.kind with
  | .bracket => .bracket
  | .parenthesis | .filter => .parenthesis

/-- What directly encloses the next character. -/
def innermost (frames : List Delimiter) : Option Enclosure :=
  frames.head?.map (·.enclosure)

/-- A character of code that neither opens nor closes anything where it stands: no opener, and no
closer unless it has no opener there. Inside of brackets a parenthesis may close nothing, but a
bracket in parentheses closes too much. -/
def LetsPass (around : Option Enclosure) (c : Char) : Prop :=
  c ≠ '[' ∧ c ≠ '(' ∧ (c = ')' → around ≠ some .parenthesis) ∧ (c = ']' → around = none)

/-- A text, after another one, in which every opener has its closer and no closer closes anything
around it. -/
inductive Nested : Option Enclosure → List Char → List Char → Prop where
  | nil {around : Option Enclosure} {t : List Char} : Nested around t []
  | char {around : Option Enclosure} {t n : List Char} {c : Char} (h : Nested around t n)
    (hc : LetsPass around c) (ho : ¬ OpensLiteral (t ++ n) c) : Nested around t (n ++ [c])
  | literal {around : Option Enclosure} {t n body : List Char} {c : Char} (h : Nested around t n)
    (hc : OpensLiteral (t ++ n) c) (hb : Body c body) : Nested around t (n ++ (c :: body ++ [c]))
  | enclosed {around : Option Enclosure} {t n m : List Char} (d : Enclosure)
    (h : Nested around t n) (hm : Nested (some d) (t ++ (n ++ [d.opener])) m) :
    Nested around t (n ++ (d.opener :: m ++ [d.closer]))

/-- After `t` and an opener, the rest of a text has the closer of that opener. -/
def IsClosed (d : Enclosure) (t rest : List Char) : Prop :=
  ∃ n v, rest = n ++ d.closer :: v ∧ Nested (some d) (t ++ [d.opener]) n

theorem Enclosure.not_opensLiteral (d : Enclosure) {t : List Char} :
    ¬ OpensLiteral t d.opener ∧ ¬ OpensLiteral t d.closer := by
  constructor <;> intro h <;> cases d <;> exact absurd h.mem (by decide)

theorem Nested.endsInCode {around : Option Enclosure} {t n : List Char} (h : Nested around t n)
    (ht : EndsInCode t) : EndsInCode (t ++ n) := by
  induction h with
  | nil => rwa [List.append_nil]
  | char _ _ ho ih =>
    rw [← List.append_assoc]
    exact .char (ih ht) ho
  | literal _ hc hb ih =>
    rw [← List.append_assoc]
    exact .literal (ih ht) hc hb
  | @enclosed _ t n m d _ _ ih ihm =>
    have hopen := EndsInCode.char (ih ht) d.not_opensLiteral.1
    rw [List.append_assoc] at hopen
    have hclose := EndsInCode.char (ihm hopen) d.not_opensLiteral.2
    simpa using hclose

theorem Nested.of_concat {around : Option Enclosure} {t n : List Char} {c : Char}
    (h : Nested around t (n ++ [c])) (hc : c ∉ [']', ')', '"', '\'', '/']) : Nested around t n := by
  generalize hn : n ++ [c] = n' at h
  cases h with
  | nil => simp at hn
  | char h _ _ =>
    obtain ⟨rfl, _⟩ := List.append_inj' hn rfl
    exact h
  | @literal _ _ _ body d _ hd _ =>
    rw [← List.append_assoc] at hn
    obtain ⟨_, hlast⟩ := List.append_inj' hn rfl
    cases hlast
    exact absurd (List.mem_cons_of_mem _ (List.mem_cons_of_mem _ hd.mem)) hc
  | enclosed d _ _ =>
    rw [← List.append_assoc] at hn
    obtain ⟨_, hlast⟩ := List.append_inj' hn rfl
    cases hlast
    cases d <;> exact absurd (by decide) hc

theorem Nested.of_append {around : Option Enclosure} {t n m : List Char}
    (h : Nested around t (n ++ m)) (hm : ∀ c ∈ m, c ∉ [']', ')', '"', '\'', '/']) :
    Nested around t n := by
  induction m using List.reverseRecOn with
  | nil => rwa [List.append_nil] at h
  | append_singleton m c ih =>
    obtain ⟨hm', hc⟩ := List.forall_mem_append.1 hm
    rw [← List.append_assoc] at h
    exact ih (h.of_concat (hc c (by simp))) hm'

theorem Nested.not_endsIn {around : Option Enclosure} {t n : List Char} (h : Nested around t n) :
    ¬ EndsIn '[' n := by
  induction h with
  | nil => exact not_endsIn_nil
  | char _ hc _ ih =>
    rw [endsIn_concat]
    rintro (rfl | ⟨_, h⟩)
    · exact hc.1 rfl
    · exact ih h
  | literal _ hc _ _ =>
    rw [← List.append_assoc, endsIn_concat, hc.not_isSpace]
    rintro (h | ⟨h, _⟩)
    · exact hc.ne (by decide) h
    · cases h
  | enclosed d _ _ _ _ =>
    rw [← List.append_assoc, endsIn_concat]
    rintro (h | ⟨h, _⟩) <;> cases d <;> cases h

/-! ### Steps in code -/

/-- What opening a delimiter puts on the stack. A filter has the offset of its bracket, the others
their own. -/
inductive OpenedAt (t : List Char) (frames : List Delimiter) : Delimiter → Prop where
  | bracket : OpenedAt t frames ⟨.bracket, Utf8.size t⟩
  | parenthesis : OpenedAt t frames ⟨.parenthesis, Utf8.size t⟩
  | filter {opened : Nat} {more : List Delimiter} (hf : frames = ⟨.bracket, opened⟩ :: more)
    (hq : EndsIn '?' t) : OpenedAt t frames ⟨.filter, opened⟩

/-- What is open after a character of code. -/
inductive Nests (t : List Char) (frames : List Delimiter) (c : Char) : List Delimiter → Prop where
  | opens {f : Delimiter} (hc : c = f.enclosure.opener) (hf : OpenedAt t frames f) :
    Nests t frames c (f :: frames)
  | closes {f : Delimiter} {more : List Delimiter} (hf : frames = f :: more)
    (hc : c = f.enclosure.closer) : Nests t frames c more
  | passes (hc : LetsPass (innermost frames) c) : Nests t frames c frames

section

variable {t : List Char} {s : DelimiterScan} {c : Char}

/-- A character of code opens a delimiter, closes the innermost one, or does neither. -/
theorem nests_of_nest (h : Recalls t s.last) {frames : List Delimiter}
    (hn : s.nest (Utf8.size t) c = .ok frames) : Nests t s.frames c frames := by
  rw [nest.eq_def] at hn
  split at hn
  · cases hn
    exact .opens rfl .bracket
  · next opened more hframes =>
    rw [hframes]
    split at hn
    · next hlast =>
      cases hn
      exact .opens rfl (.filter rfl ((h.ends '?' (by decide)).1 hlast))
    · cases hn
      exact .opens rfl .parenthesis
  · next hframes =>
    cases hn
    exact .opens rfl .parenthesis
  · next opened more hframes =>
    cases hn
    rw [hframes]
    exact .passes (by simp [LetsPass, innermost, Delimiter.enclosure])
  · next f more hbracket hframes =>
    cases hn
    obtain ⟨kind, opened⟩ := f
    refine .closes hframes ?_
    cases kind with
    | bracket => exact absurd rfl (hbracket opened)
    | parenthesis => rfl
    | filter => rfl
  · next opened more hframes =>
    cases hn
    exact .closes hframes rfl
  · cases hn
  · next hopen' hleft' _ _ hright _ hclose =>
    cases hn
    refine .passes ⟨hopen', hleft', fun hc => ?_, fun hc => ?_⟩
    · rcases hframes : s.frames with _ | ⟨f, more⟩
      · simp [innermost]
      · exact absurd hframes (hright f more hc)
    · rcases hframes : s.frames with _ | ⟨f, more⟩
      · rfl
      · exact absurd hframes (hclose f more hc)

end

theorem nest_eq_error {s : DelimiterScan} {o : Nat} {c : Char} {e : PathError}
    (h : s.nest o c = .error e) : c = ']' ∧ s.frames ≠ [] ∧ e = unclosed s.frames := by
  rw [nest.eq_def] at h
  split at h
  · cases h
  · split at h <;> cases h
  · cases h
  · cases h
  · cases h
  · cases h
  · next hframes =>
    cases h
    rw [hframes]
    exact ⟨rfl, List.cons_ne_nil _ _, rfl⟩
  · cases h

section

variable {s : DelimiterScan} {c : Char} (o : Nat)

theorem nest_opener (d : Enclosure) :
    ∃ f : Delimiter, f.enclosure = d ∧ s.nest o d.opener = .ok (f :: s.frames) := by
  cases d with
  | bracket => exact ⟨⟨.bracket, o⟩, rfl, rfl⟩
  | parenthesis =>
    rw [nest.eq_def]
    simp only [Enclosure.opener]
    rcases s.frames with _ | ⟨⟨kind, opened⟩, more⟩
    · exact ⟨⟨.parenthesis, o⟩, rfl, rfl⟩
    · cases kind with
      | parenthesis | filter => exact ⟨⟨.parenthesis, o⟩, rfl, rfl⟩
      | bracket =>
        by_cases hlast : s.last.1 = '?'
        · exact ⟨⟨.filter, opened⟩, rfl, if_pos hlast⟩
        · exact ⟨⟨.parenthesis, o⟩, rfl, if_neg hlast⟩

theorem nest_closer {f : Delimiter} {more : List Delimiter} (hf : s.frames = f :: more) :
    s.nest o f.enclosure.closer = .ok more := by
  obtain ⟨kind, opened⟩ := f
  rw [nest.eq_def, hf]
  cases kind <;> rfl

theorem nest_passes (hc : LetsPass (innermost s.frames) c) : s.nest o c = .ok s.frames := by
  obtain ⟨hopen, hleft, hright, hclose⟩ := hc
  rw [nest.eq_def]
  split
  · exact absurd rfl hopen
  · exact absurd rfl hleft
  · exact absurd rfl hleft
  · next hframes => rw [hframes]
  · next f more hbracket hframes =>
    -- not a bracket, so a parenthesis, which it would close
    obtain ⟨kind, opened⟩ := f
    refine absurd ?_ (hright rfl)
    cases kind with
    | bracket => exact absurd rfl (hbracket opened)
    | parenthesis => rw [hframes]; rfl
    | filter => rw [hframes]; rfl
  · next hframes =>
    have hnone := hclose rfl
    rw [hframes] at hnone
    cases hnone
  · next hframes =>
    have hnone := hclose rfl
    rw [hframes] at hnone
    cases hnone
  · rfl

end

/-! ### Runs over nested texts -/

/-- The text ends in code, and this is open then. -/
def OpenAfter (t : List Char) (frames : List Delimiter) : Prop :=
  ∃ last, Reaches t ⟨frames, .code, last⟩

namespace OpenAfter

variable {t : List Char} {frames : List Delimiter}

theorem of_reaches {s : DelimiterScan} (h : Reaches t s) (hs : s.lexical = .code) :
    OpenAfter t s.frames := by
  obtain ⟨_, _, last⟩ := s
  cases hs
  exact ⟨last, h⟩

theorem endsInCode (h : OpenAfter t frames) : EndsInCode t := by
  obtain ⟨_, hreaches⟩ := h
  exact hreaches.endsInCode rfl

theorem of_nest {last : Char × Char} (h : Reaches t ⟨frames, .code, last⟩)
    {frames' : List Delimiter} {c : Char} (hc : ¬ OpensLiteral t c)
    (hn : (DelimiterScan.mk frames .code last).nest (Utf8.size t) c = .ok frames') :
    OpenAfter (t ++ [c]) frames' := by
  have hopened := opened_code (h.recalls rfl) hc
  refine of_reaches (s := ⟨frames', .code, if isSpace c then last else (c, last.1)⟩) ?_ rfl
  refine reaches_concat.2 ⟨_, h, ?_⟩
  rw [step]
  dsimp only
  rw [hn, hopened]
  rfl

theorem opener (h : OpenAfter t frames) (d : Enclosure) :
    ∃ f : Delimiter, f.enclosure = d ∧ OpenAfter (t ++ [d.opener]) (f :: frames) := by
  obtain ⟨last, hreaches⟩ := h
  obtain ⟨f, hf, hn⟩ := nest_opener (s := ⟨frames, .code, last⟩) (Utf8.size t) d
  exact ⟨f, hf, of_nest hreaches d.not_opensLiteral.1 hn⟩

theorem closer {f : Delimiter} (h : OpenAfter t (f :: frames)) :
    OpenAfter (t ++ [f.enclosure.closer]) frames := by
  obtain ⟨last, hreaches⟩ := h
  exact of_nest hreaches f.enclosure.not_opensLiteral.2 (nest_closer _ rfl)

theorem passes (h : OpenAfter t frames) {c : Char} (hc : LetsPass (innermost frames) c)
    (ho : ¬ OpensLiteral t c) : OpenAfter (t ++ [c]) frames := by
  obtain ⟨last, hreaches⟩ := h
  exact of_nest hreaches ho (nest_passes _ hc)

theorem literal (h : OpenAfter t frames) {c : Char} {body : List Char} (hc : OpensLiteral t c)
    (hb : Body c body) : OpenAfter (t ++ (c :: body ++ [c])) frames := by
  obtain ⟨last, hreaches⟩ := h
  exact ⟨_, hreaches.literal rfl hc hb⟩

end OpenAfter

theorem Nested.openAfter {around : Option Enclosure} {t n : List Char} (h : Nested around t n)
    {frames : List Delimiter} (ht : OpenAfter t frames) (ha : innermost frames = around) :
    OpenAfter (t ++ n) frames := by
  induction h generalizing frames with
  | nil => rwa [List.append_nil]
  | char _ hc ho ih =>
    subst ha
    rw [← List.append_assoc]
    exact (ih ht rfl).passes hc ho
  | literal _ hc hb ih =>
    rw [← List.append_assoc]
    exact (ih ht ha).literal hc hb
  | @enclosed _ t n m d _ _ ih ihm =>
    obtain ⟨f, rfl, hopen⟩ := (ih ht ha).opener d
    rw [List.append_assoc] at hopen
    have hinside := (ihm hopen rfl).closer
    simpa using hinside

/-! ### Where an open delimiter comes from -/

theorem nests_of_step {t : List Char} {s s' : DelimiterScan} {c : Char} (h : Reaches t s)
    (hstep : s.step (Utf8.size t) c = .ok s') :
    s.lexical = .code ∧ s'.lexical = s.opened c ∧ Nests t s.frames c s'.frames ∨
      ∃ close escaped, s.lexical = .literal close escaped ∧
        s'.lexical = continued close escaped c ∧ s'.frames = s.frames := by
  cases hs : s.lexical with
  | code =>
    rw [step, hs] at hstep
    obtain ⟨frames, hn, hs'⟩ := bind_eq_ok.1 hstep
    cases hs'
    exact .inl ⟨rfl, rfl, nests_of_nest (h.recalls hs) hn⟩
  | literal close escaped =>
    rw [step, hs] at hstep
    cases hstep
    exact .inr ⟨close, escaped, rfl, rfl, rfl⟩

/-- A delimiter was opened after a text, and has been open ever since. -/
structure Origin (f : Delimiter) (frames : List Delimiter) (t rest : List Char) : Prop where
  openAfter : OpenAfter t frames
  openedAt : OpenedAt t frames f
  stays : ∀ p, p <+: rest → ∀ s, Reaches (t ++ f.enclosure.opener :: p) s →
    (f :: frames) <:+ s.frames

theorem Origin.opened {f : Delimiter} {frames : List Delimiter} {t u : List Char}
    (h : Origin f frames t u) : OpenAfter (t ++ [f.enclosure.opener]) (f :: frames) := by
  obtain ⟨g, hg, hopen⟩ := h.openAfter.opener f.enclosure
  obtain ⟨last, hreaches⟩ := id hopen
  have hsuffix := h.stays [] (List.nil_prefix) _ hreaches
  rwa [hsuffix.eq_of_length (by simp)]

theorem Origin.concat {f : Delimiter} {frames : List Delimiter} {t u : List Char} {c : Char}
    (h : Origin f frames t u) {s : DelimiterScan}
    (hs : Reaches (t ++ f.enclosure.opener :: (u ++ [c])) s) (hf : (f :: frames) <:+ s.frames) :
    Origin f frames t (u ++ [c]) := by
  refine ⟨h.openAfter, h.openedAt, fun p hp s' hs' => ?_⟩
  rcases List.prefix_concat_iff.1 hp with rfl | hp
  · rwa [hs'.unique hs]
  · exact h.stays p hp s' hs'

theorem Reaches.origin {x : List Char} {s : DelimiterScan} (h : Reaches x s) {f : Delimiter}
    {frames : List Delimiter} (hf : (f :: frames) <:+ s.frames) :
    ∃ t u, x = t ++ f.enclosure.opener :: u ∧ Origin f frames t u := by
  induction x using List.reverseRecOn generalizing s with
  | nil =>
    cases h
    simp [start] at hf
  | append_singleton x c ih =>
    obtain ⟨s₀, hs₀, hstep⟩ := reaches_concat.1 h
    have hold (hf₀ : (f :: frames) <:+ s₀.frames) :
        ∃ t u, x ++ [c] = t ++ f.enclosure.opener :: u ∧ Origin f frames t u := by
      obtain ⟨t, u, rfl, horigin⟩ := ih hs₀ hf₀
      rw [List.append_assoc, List.cons_append] at h ⊢
      exact ⟨t, u ++ [c], rfl, horigin.concat h hf⟩
    rcases nests_of_step hs₀ hstep with ⟨hcode, _, hnests⟩ | ⟨_, _, _, _, hframes⟩
    · generalize hs : s.frames = frames' at hf hnests
      cases hnests with
      | @opens g hc hg =>
        rcases List.suffix_cons_iff.1 hf with heq | hf₀
        · cases heq
          refine ⟨x, [], by rw [hc], .of_reaches hs₀ hcode, hg, fun p hp s' hs' => ?_⟩
          rw [List.prefix_nil.1 hp, ← hc] at hs'
          rw [hs'.unique h, hs]
        · exact hold hf₀
      | closes hg _ => exact hold (hg ▸ hf.trans (List.suffix_cons _ _))
      | passes => exact hold hf
    · exact hold (hframes ▸ hf)

/-- The matching of delimiters goes no further than the first part of a text: nothing follows, or
the next character is refused. -/
def Stops (x y : List Char) : Prop :=
  ∀ c y', y = c :: y' → ∀ s, ¬ Reaches (x ++ [c]) s

/-- What is open where the matching stops is not closed by anything behind it. -/
theorem Origin.not_isClosed {f : Delimiter} {frames : List Delimiter} {t u y : List Char}
    (h : Origin f frames t u) (hstop : Stops (t ++ f.enclosure.opener :: u) y) :
    ¬ IsClosed f.enclosure t (u ++ y) := by
  rintro ⟨n, v, hrest, hn⟩
  have hinside : OpenAfter (t ++ [f.enclosure.opener] ++ n) (f :: frames) :=
    hn.openAfter h.opened rfl
  obtain ⟨last, hclosed⟩ := hinside.closer
  rw [List.append_assoc, List.append_assoc, List.singleton_append] at hclosed
  rw [List.append_cons] at hrest
  rcases List.append_eq_append_iff.1 hrest with ⟨y', hu, hy⟩ | ⟨u', hu, _⟩
  · cases y' with
    | nil =>
      rw [List.append_nil] at hu
      have hsuffix := h.stays u (List.prefix_refl u) _ (hu ▸ hclosed)
      exact absurd hsuffix.length_le (by simp)
    | cons c y' =>
      have hmore : Reaches (t ++ f.enclosure.opener :: u ++ [c] ++ y') ⟨frames, .code, last⟩ := by
        simpa [hu] using hclosed
      obtain ⟨s, hs, _⟩ := reaches_append.1 hmore
      exact hstop c (y' ++ v) hy s hs
  · have hsuffix := h.stays _ ⟨u', hu.symm⟩ _ hclosed
    exact absurd hsuffix.length_le (by simp)

/-! ### What is closed and what is open -/

/-- A text, after another one, that leaves delimiters open, with the nested texts between them. -/
inductive Spine (t : List Char) (base : List Delimiter) : List Delimiter → List Char → Prop where
  | base {n : List Char} (h : Nested (innermost base) t n) : Spine t base base n
  | inside {f : Delimiter} {frames : List Delimiter} {n m : List Char} (h : Spine t base frames n)
    (hm : Nested (some f.enclosure) (t ++ (n ++ [f.enclosure.opener])) m) :
    Spine t base (f :: frames) (n ++ f.enclosure.opener :: m)

namespace Spine

variable {t n : List Char} {base frames : List Delimiter}

theorem suffix (h : Spine t base frames n) : base <:+ frames := by
  induction h with
  | base => exact List.suffix_refl _
  | inside _ _ ih => exact ih.trans (List.suffix_cons _ _)

theorem append {r : List Char} (h : Spine t base frames n)
    (hr : ∀ t' n', t' ++ n' = t ++ n → Nested (innermost frames) t' n' →
      Nested (innermost frames) t' (n' ++ r)) : Spine t base frames (n ++ r) := by
  cases h with
  | base h => exact .base (hr t n rfl h)
  | @inside f frames n m h hm =>
    rw [List.append_assoc, List.cons_append]
    exact .inside h (hr _ m (by simp) hm)

theorem char (h : Spine t base frames n) {c : Char} (hc : LetsPass (innermost frames) c)
    (ho : ¬ OpensLiteral (t ++ n) c) : Spine t base frames (n ++ [c]) := by
  refine h.append fun t' n' heq hn => .char hn hc ?_
  rwa [heq]

theorem literal (h : Spine t base frames n) {c : Char} {body : List Char}
    (hc : OpensLiteral (t ++ n) c) (hb : Body c body) :
    Spine t base frames (n ++ (c :: body ++ [c])) := by
  refine h.append fun t' n' heq hn => .literal hn ?_ hb
  rwa [heq]

theorem opens (h : Spine t base frames n) (f : Delimiter) :
    Spine t base (f :: frames) (n ++ [f.enclosure.opener]) :=
  .inside h .nil

theorem closes {f : Delimiter} (h : Spine t base (f :: frames) n) :
    f :: frames = base ∧ Nested (some f.enclosure) t n ∨
      Spine t base frames (n ++ [f.enclosure.closer]) := by
  generalize hg : f :: frames = frames' at h
  cases h with
  | base h =>
    subst hg
    exact .inl ⟨rfl, h⟩
  | @inside g _ n m h hm =>
    cases hg
    have hmore : Spine t base frames (n ++ (f.enclosure.opener :: m ++ [f.enclosure.closer])) := by
      refine h.append fun t' n' heq hn => .enclosed _ hn ?_
      rwa [← List.append_assoc, heq, List.append_assoc]
    exact .inr (by simpa using hmore)

end Spine

/-- A text, after one that leaves delimiters open, closes the innermost of them, or leaves open what
the matching has on its stack. -/
theorem OpenAfter.spine {t u : List Char} {base : List Delimiter} (h : OpenAfter t base)
    {s : DelimiterScan} (hs : Reaches (t ++ u) s) :
    (∃ f more n v, base = f :: more ∧ u = n ++ f.enclosure.closer :: v ∧
      Nested (some f.enclosure) t n) ∨
    ∃ n r, u = n ++ r ∧ Spine t base s.frames n ∧ PartOfLiteral (t ++ n) s.lexical r := by
  induction u using List.reverseRecOn generalizing s with
  | nil =>
    obtain ⟨last, hreaches⟩ := h
    rw [List.append_nil] at hs
    cases hs.unique hreaches
    exact .inr ⟨[], [], rfl, .base .nil, .code⟩
  | append_singleton u c ih =>
    rw [← List.append_assoc] at hs
    obtain ⟨s₀, hs₀, hstep⟩ := reaches_concat.1 hs
    rcases ih hs₀ with ⟨f, more, n, v, hbase, rfl, hn⟩ | ⟨n, r, rfl, hspine, hpart⟩
    · exact .inl ⟨f, more, n, v ++ [c], hbase, by simp, hn⟩
    rcases nests_of_step hs₀ hstep with
      ⟨hcode, hopened, hnests⟩ | ⟨close, escaped, hliteral, hcont, hframes⟩
    · have hrecalls := hs₀.recalls hcode
      rw [hcode] at hpart
      cases hpart
      rw [List.append_nil] at hrecalls ⊢
      rw [hopened]
      generalize s₀.frames = frames₀, s.frames = frames at hspine hnests
      cases hnests with
      | @opens f hc _ =>
        subst hc
        rw [opened_code hrecalls f.enclosure.not_opensLiteral.1]
        exact .inr ⟨_, [], by simp, hspine.opens f, .code⟩
      | @closes f _ hf hc =>
        subst hf hc
        rw [opened_code hrecalls f.enclosure.not_opensLiteral.2]
        rcases hspine.closes with ⟨hbase, hn⟩ | hmore
        · exact .inl ⟨f, _, n, [], hbase.symm, rfl, hn⟩
        · exact .inr ⟨_, [], by simp, hmore, .code⟩
      | passes hc =>
        by_cases ho : OpensLiteral (t ++ n) c
        · rw [opened_literal hrecalls ho]
          exact .inr ⟨n, [c], rfl, hspine, .whole ho .nil⟩
        · rw [opened_code hrecalls ho]
          exact .inr ⟨_, [], by simp, hspine.char hc ho, .code⟩
    · rw [hliteral] at hpart
      rw [hcont, hframes]
      rcases hpart.continued c with ⟨escaped', hlexical, hmore⟩ | ⟨hlexical, ho, body, hb, hr⟩
      · rw [hlexical]
        exact .inr ⟨n, r ++ [c], by simp, hspine, hmore⟩
      · rw [hlexical, List.append_assoc, hr]
        exact .inr ⟨_, [], by simp, hspine.literal ho hb, .code⟩

/-- As far as the matching of delimiters has come, an opener in code has its closer, or is open. -/
theorem isClosed_or_isOpen {t u : List Char} {frames : List Delimiter} (h : OpenAfter t frames)
    (d : Enclosure) {s : DelimiterScan} (hs : Reaches (t ++ d.opener :: u) s) :
    IsClosed d t u ∨ ∃ f : Delimiter, f.enclosure = d ∧ (f :: frames) <:+ s.frames := by
  obtain ⟨f, rfl, hopen⟩ := h.opener d
  rw [List.append_cons] at hs
  rcases hopen.spine hs with ⟨_, _, n, v, heq, hu, hn⟩ | ⟨n, r, _, hspine, _⟩
  · cases heq
    exact .inl ⟨n, v, hu, hn⟩
  · exact .inr ⟨f, rfl, hspine.suffix⟩

theorem Origin.nested {f : Delimiter} {frames : List Delimiter} {t u : List Char}
    (h : Origin f frames t u) (hopen : OpenAfter (t ++ f.enclosure.opener :: u) (f :: frames)) :
    Nested (some f.enclosure) (t ++ [f.enclosure.opener]) u := by
  obtain ⟨last, hs⟩ := hopen
  rw [List.append_cons] at hs
  rcases h.opened.spine hs with ⟨_, _, n, v, heq, hu, hn⟩ | ⟨n, r, rfl, hspine, hpart⟩
  · cases heq
    have hnot := h.not_isClosed (y := []) nofun
    rw [List.append_nil] at hnot
    exact absurd ⟨n, v, hu, hn⟩ hnot
  · cases hpart
    rw [List.append_nil]
    cases hspine with
    | base h => exact h
    | inside hmore _ => exact absurd hmore.suffix.length_le (by simp)

/-- A delimiter is open as long as what is open inside of it. -/
theorem Origin.below {f g : Delimiter} {frames : List Delimiter} {t u v : List Char}
    (h : Origin f frames t u) (hg : Origin g (f :: frames) (t ++ f.enclosure.opener :: u) v) :
    Origin f frames t (u ++ g.enclosure.opener :: v) := by
  refine ⟨h.openAfter, h.openedAt, fun p hp s hs => ?_⟩
  rcases List.prefix_or_prefix_of_prefix hp (List.prefix_append u _) with hpu | ⟨p', rfl⟩
  · exact h.stays p hpu s hs
  · rw [List.prefix_append_right_inj, List.prefix_cons_iff] at hp
    rcases hp with rfl | ⟨p'', rfl, hp''⟩
    · rw [List.append_nil] at hs
      exact h.stays u (List.prefix_refl u) s hs
    · have hinside := hg.stays p'' hp'' s (by simpa using hs)
      exact (List.suffix_cons _ _).trans hinside

end JsonSpan

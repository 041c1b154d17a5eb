import JsonSpan.Proofs.Fallible
import JsonSpan.Proofs.Grammar.Tokens

/-!
# Selectors without conditions

The readers of unions and slices, and of what may stand alone between brackets. The reader of a
slice also takes the blanks after it, as it looks for a second colon, so what it leaves of them is
not said.
-/

namespace JsonSpan.Spelling

open Grammar Reader

/-! ### Meanings -/

theorem map_eq_ok {α β : Type} {f : α → β} {m : Meaning α} {b : β} :
    m.map f = .ok b ↔ ∃ a, m = .ok a ∧ f a = b := by
  cases m with
  | error fault => simp [Except.map]
  | ok a => simp [Except.map]

theorem inOrder_eq_ok {α : Type} {ms : List (Meaning α)} {as : List α} :
    inOrder ms = .ok as ↔ ms = as.map .ok := by
  induction ms generalizing as with
  | nil =>
    constructor
    · intro h
      cases h
      rfl
    · intro h
      rw [List.map_eq_nil_iff.1 h.symm]
      rfl
  | cons m ms ih =>
    rw [inOrder, bind_eq_ok]
    constructor
    · rintro ⟨a, rfl, h⟩
      obtain ⟨bs, hbs, h⟩ := bind_eq_ok.1 h
      cases h
      rw [ih.1 hbs]
      rfl
    · intro h
      obtain ⟨a, bs, rfl, rfl, hbs⟩ := List.map_eq_cons_iff.1 h.symm
      exact ⟨a, rfl, bind_eq_ok.2 ⟨bs, ih.2 hbs.symm, rfl⟩⟩

/-! ### Blanks and separators -/

theorem forall_head_blank {w more : List Char} {d : Char} {P : Char → Prop} (hw : Blank w)
    (hblank : ∀ c ∈ [' ', '\t', '\r', '\n'], P c) (hd : P d) :
    ∀ c ∈ (w ++ d :: more).head?, P c := by
  refine forall_head_append (fun c hc => hblank c (mem_blanks (hw c (List.mem_of_mem_head? hc)))) ?_
  rintro c hc
  cases hc
  exact hd

theorem reads_blanks_cons {w more : List Char} {d : Char} (hw : Blank w) (hd : isBlank d = false) :
    Reads blanks (w ++ d :: more) () (d :: more) :=
  reads_blanks hw fun c hc => by
    cases hc
    exact hd

/-- What is read between a sign and the next one, after the first part. -/
def another {α : Type} (sign : List Char) (part : Reader α) : Reader α := do
  blanks
  text sign
  blanks
  part

theorem reads_another {α : Type} {part : Reader α} {c : Char} {sign w w' cs rest : List Char} {a : α}
    (hw : Blank w) (hc : isBlank c = false) (hw' : Blank w') (h : Reads part cs a rest)
    (hcs : ∀ d ∈ cs.head?, isBlank d = false) :
    Reads (another (c :: sign) part) (w ++ (c :: sign ++ (w' ++ cs))) a rest :=
  (reads_blanks_cons hw hc).bind ((reads_text (c :: sign) (w' ++ cs)).bind
    ((reads_blanks hw' hcs).bind h))

theorem refuses_another {α : Type} {part : Reader α} {c d : Char} {sign w more : List Char}
    (hw : Blank w) (hd : isBlank d = false) (hne : d ≠ c) :
    Refuses (another (c :: sign) part) (w ++ d :: more) :=
  (reads_blanks_cons hw hd).refuses_bind (Refuses.bind (refuses_text (by simpa using hne)))

theorem takes_another {α : Type} {part : Reader α} {S : List Char → α → Prop} {sign : List Char}
    (h : Takes part S) : Takes (another sign part) fun t a => ∃ w w' u,
      t = w ++ sign ++ w' ++ u ∧ Blank w ∧ Blank w' ∧ S u a := by
  refine (takes_blanks.bind fun _ => (takes_text sign).bind fun _ => takes_blanks.bind fun _ =>
    h).mono ?_
  rintro _ a ⟨w, _, _, rfl, hw, _, _, _, rfl, rfl, w', u, _, rfl, hw', hu⟩
  exact ⟨w, w', u, by simp, hw, hw', hu⟩

/-! ### Slices -/

theorem reads_bound (which : Rule) {t rest : List Char} {b : Option Int64} (h : BoundText t b)
    (hr : NoInteger rest) : Reads (bound which) (t ++ rest) (b.map .ok) rest := by
  cases h with
  | none => exact ((refuses_integer hr).rule which).optional
  | some h => exact ((reads_integer h fun c hc => (hr c hc).2).rule which).optional

theorem takes_bound (which : Rule) :
    Takes (bound which) fun t o => ∀ b, optionally o = .ok b → BoundText t b := by
  refine (Takes.optional (takes_integer.rule which)).mono ?_
  rintro _ _ (⟨rfl, rfl⟩ | ⟨m, rfl, hm⟩) b hb
  · cases hb
    exact .none
  · obtain ⟨i, hi, rfl⟩ := map_eq_ok.1 hb
    exact .some (hm i hi)

theorem noInteger_blank {w : List Char} {d : Char} (hw : Blank w)
    (hd : d ≠ '-' ∧ d.isDigit = false) (more : List Char) : NoInteger (w ++ d :: more) :=
  forall_head_blank hw (by decide) hd

theorem reads_blanks_bound (which : Rule) (d : Char) (more : List Char) {w u v : List Char}
    {b : Option Int64} (hw : Blank w) (h : BoundText u b) (hv : Blank v)
    (hd : isBlank d = false ∧ d ≠ '-' ∧ d.isDigit = false) :
    ∃ cs v', Blank v' ∧ Reads blanks (w ++ (u ++ (v ++ d :: more))) () cs ∧
      Reads (bound which) cs (b.map .ok) (v' ++ d :: more) := by
  cases h with
  | none =>
    have hblank : Blank (w ++ v) := by
      intro c hc
      rcases List.mem_append.1 hc with hc | hc
      · exact hw c hc
      · exact hv c hc
    have hnone : Reads (bound which) ([] ++ d :: more) none (d :: more) :=
      reads_bound which .none fun c hc => by
        cases hc
        exact hd.2
    refine ⟨d :: more, [], by simp [Blank], ?_, hnone⟩
    rw [List.nil_append, ← List.append_assoc]
    exact reads_blanks_cons hblank hd.1
  | some h =>
    have hsome := reads_bound which (.some h) (noInteger_blank hv hd.2 more)
    exact ⟨_, v, hv, reads_blanks hw fun c hc => (isDigit_or_minus (h.starts.head _ c hc)).1, hsome⟩

theorem sliceMeaning_eq_ok {start stop step : Option (Meaning Int64)} {s : Segment} :
    sliceMeaning start stop step = .ok s ↔ ∃ a b c, optionally start = .ok a ∧
      optionally stop = .ok b ∧ optionally step = .ok c ∧ c ≠ some 0 ∧ s = .slice a b c := by
  rw [sliceMeaning]
  constructor
  · intro h
    obtain ⟨a, ha, h⟩ := bind_eq_ok.1 h
    obtain ⟨b, hb, h⟩ := bind_eq_ok.1 h
    obtain ⟨c, hc, h⟩ := bind_eq_ok.1 h
    split at h
    · cases h
    · next hzero =>
      cases h
      exact ⟨a, b, c, ha, hb, hc, hzero, rfl⟩
  · rintro ⟨a, b, c, ha, hb, hc, hzero, rfl⟩
    rw [ha, hb, hc]
    exact if_neg hzero

theorem optionally_map_ok {α : Type} (o : Option α) : optionally (o.map .ok) = .ok o := by
  cases o <;> rfl

theorem reads_slice {t w : List Char} {start stop step : Option Int64}
    (h : SliceText t start stop step) (hstep : step ≠ some 0) (hw : Blank w) (more : List Char) :
    ∃ w', Blank w' ∧ Reads slice (t ++ (w ++ ']' :: more)) (.ok (.slice start stop step))
      (w' ++ ']' :: more) := by
  have hmeaning : sliceMeaning (start.map .ok) (stop.map .ok) (step.map .ok) =
      .ok (.slice start stop step) :=
    sliceMeaning_eq_ok.2 ⟨start, stop, step, optionally_map_ok start, optionally_map_ok stop,
      optionally_map_ok step, hstep, rfl⟩
  rw [← hmeaning]
  cases h with
  | @two t u w₁ w₂ _ _ h hw₁ hw₂ h' =>
    obtain ⟨cs, v, hv, hblanks, hstop⟩ :=
      reads_blanks_bound .sliceEnd ']' more hw₂ h' hw (by decide)
    have hend : Refuses (text [':'] >>= fun _ => blanks >>= fun _ => bound .sliceStep)
        (']' :: more) := Refuses.bind (refuses_text (by simp))
    refine ⟨[], by simp [Blank], ?_⟩
    simp only [List.append_assoc, List.cons_append]
    exact Reads.rule _ ((reads_bound .sliceStart h (noInteger_blank hw₁ (by decide) _)).bind
      ((reads_blanks_cons hw₁ (by decide)).bind ((reads_text [':'] _).bind (hblanks.bind
        (hstop.bind ((reads_blanks_cons hv (by decide)).bind (hend.optional.bind
          (reads_pure _ _))))))))
  | @three t u v w₁ w₂ w₃ w₄ _ _ _ h hw₁ hw₂ h' hw₃ hw₄ h'' =>
    obtain ⟨cs, v₁, hv₁, hblanks, hstop⟩ := reads_blanks_bound .sliceEnd ':'
      (w₄ ++ (v ++ (w ++ ']' :: more))) hw₂ h' hw₃ (by decide)
    obtain ⟨cs', v₂, hv₂, hblanks', hstep'⟩ :=
      reads_blanks_bound .sliceStep ']' more hw₄ h'' hw (by decide)
    have hthird : Reads (text [':'] >>= fun _ => blanks >>= fun _ => bound .sliceStep) _ _ _ :=
      (reads_text [':'] _).bind (hblanks'.bind hstep')
    refine ⟨v₂, hv₂, ?_⟩
    simp only [List.append_assoc, List.cons_append]
    exact Reads.rule _ ((reads_bound .sliceStart h (noInteger_blank hw₁ (by decide) _)).bind
      ((reads_blanks_cons hw₁ (by decide)).bind ((reads_text [':'] _).bind (hblanks.bind
        (hstop.bind ((reads_blanks_cons hv₁ (by decide)).bind (hthird.optional.bind
          (reads_pure _ _))))))))

theorem refuses_slice {t w more : List Char} {b : Option Int64} {d : Char} (h : BoundText t b)
    (hw : Blank w) (hd : isBlank d = false ∧ d ≠ '-' ∧ d.isDigit = false) (hne : d ≠ ':') :
    Refuses slice (t ++ (w ++ d :: more)) :=
  Refuses.rule _ ((reads_bound .sliceStart h (noInteger_blank hw hd.2 more)).refuses_bind
    ((reads_blanks_cons hw hd.1).refuses_bind (Refuses.bind (refuses_text (by simpa using hne)))))

theorem takes_slice : Takes slice (Denotes fun t s => ∃ u w start stop step, t = u ++ w ∧ Blank w ∧
    SliceText u start stop step ∧ step ≠ some 0 ∧ s = .slice start stop step) := by
  have hstep := Takes.optional ((takes_text [':']).bind fun _ => takes_blanks.bind fun _ =>
    takes_bound .sliceStep)
  refine Takes.rule _ (((takes_bound .sliceStart).bind fun _ => takes_blanks.bind fun _ =>
    (takes_text [':']).bind fun _ => takes_blanks.bind fun _ => (takes_bound .sliceEnd).bind fun _ =>
      takes_blanks.bind fun _ => hstep.bind fun _ => takes_pure _).mono ?_)
  rintro _ _ ⟨t, _, _, rfl, ht, w₁, _, _, rfl, hw₁, _, _, _, rfl, rfl, w₂, _, _, rfl, hw₂, u, _, _, rfl,
    hu, w₃, _, _, rfl, hw₃, _, _, third, rfl, hthird, rfl, rfl⟩ s hs
  obtain ⟨start, stop, step, hstart, hstop, hstep, hzero, rfl⟩ := sliceMeaning_eq_ok.1 hs
  rcases hthird with ⟨rfl, rfl⟩ | ⟨o, rfl, _, _, _, rfl, rfl, w₄, v, _, rfl, hw₄, hv⟩
  · cases hstep
    exact ⟨_, w₃, start, stop, none, by simp, hw₃, .two (ht _ hstart) hw₁ hw₂ (hu _ hstop), hzero, rfl⟩
  · exact ⟨_, [], start, stop, step, by simp, by simp [Blank],
      .three (ht _ hstart) hw₁ hw₂ (hu _ hstop) hw₃ hw₄ (hv _ hstep), hzero, rfl⟩

theorem SliceText.trimmed {t : List Char} {start stop step : Option Int64}
    (h : SliceText t start stop step) : ∃ w u, t = w ++ u ∧ Blank w ∧ SliceText u start stop step ∧
      ∀ rest, ∀ c ∈ (u ++ rest).head?, isBlank c = false := by
  have hnil : Blank [] := by simp [Blank]
  cases h with
  | @two t u w w' start stop h hw hw' h' =>
    cases h with
    | none =>
      refine ⟨w, ':' :: w' ++ u, by simp, hw, .two .none hnil hw' h', fun rest c hc => ?_⟩
      cases hc
      rfl
    | some h =>
      refine ⟨[], _, rfl, hnil, .two (.some h) hw hw' h', fun rest c hc => ?_⟩
      simp only [List.append_eq, List.append_assoc] at hc
      exact (isDigit_or_minus (h.starts.head _ c hc)).1
  | @three t u v w₁ w₂ w₃ w₄ start stop step h h₁ h₂ h' h₃ h₄ h'' =>
    cases h with
    | none =>
      refine ⟨w₁, ':' :: w₂ ++ u ++ w₃ ++ ':' :: w₄ ++ v, by simp, h₁,
        .three .none hnil h₂ h' h₃ h₄ h'', fun rest c hc => ?_⟩
      cases hc
      rfl
    | some h =>
      refine ⟨[], _, rfl, hnil, .three (.some h) h₁ h₂ h' h₃ h₄ h'', fun rest c hc => ?_⟩
      simp only [List.append_eq, List.append_assoc] at hc
      exact (isDigit_or_minus (h.starts.head _ c hc)).1

/-! ### Unions -/

def member : Reader (Meaning Selector) :=
  or name index

theorem union_eq : union = Reader.rule .union (member >>= fun first => another [','] member >>=
    fun second => many (another [','] member) >>= fun more =>
      Pure.pure ((inOrder (first :: second :: more)).map .union)) := rfl

theorem reads_name {t : List Char} {s : String} (h : StringText t s) (rest : List Char) :
    Reads name (t ++ rest) (.ok (.name s)) rest :=
  Reads.rule _ ((reads_string h rest).bind (reads_pure _ rest))

theorem reads_index {t rest : List Char} {i : Int64} (h : IntegerText t i)
    (hr : ∀ c ∈ rest.head?, c.isDigit = false) : Reads index (t ++ rest) (.ok (.index i)) rest :=
  Reads.rule _ ((reads_integer h hr).bind (reads_pure _ rest))

theorem refuses_name {cs : List Char} (h : NoString cs) : Refuses name cs :=
  Refuses.rule _ (refuses_string h).bind

theorem refuses_index {cs : List Char} (h : NoInteger cs) : Refuses index cs :=
  Refuses.rule _ (refuses_integer h).bind

theorem IntegerText.noString {t : List Char} {i : Int64} (h : IntegerText t i) (rest : List Char) :
    NoString (t ++ rest) := by
  constructor
  · intro hq
    exact absurd (h.starts.head rest '"' hq) (by decide)
  · intro hq
    exact absurd (h.starts.head rest '\'' hq) (by decide)

theorem reads_member {t rest : List Char} {s : Selector} (h : MemberText t s)
    (hr : ∀ c ∈ rest.head?, c.isDigit = false) : Reads member (t ++ rest) (.ok s) rest := by
  cases h with
  | name h => exact (reads_name h rest).or_left
  | index h => exact (refuses_name (h.noString rest)).or_right (reads_index h hr)

theorem takes_name : Takes name (Denotes fun t s => ∃ n, StringText t n ∧ s = .name n) := by
  refine Takes.rule _ ((takes_string.bind fun _ => takes_pure _).mono ?_)
  rintro _ _ ⟨t, _, m, rfl, hm, rfl, rfl⟩ s hs
  obtain ⟨n, hn, rfl⟩ := map_eq_ok.1 hs
  exact ⟨n, by simpa using hm n hn, rfl⟩

theorem takes_index : Takes index (Denotes fun t s => ∃ i, IntegerText t i ∧ s = .index i) := by
  refine Takes.rule _ ((takes_integer.bind fun _ => takes_pure _).mono ?_)
  rintro _ _ ⟨t, _, m, rfl, hm, rfl, rfl⟩ s hs
  obtain ⟨i, hi, rfl⟩ := map_eq_ok.1 hs
  exact ⟨i, by simpa using hm i hi, rfl⟩

theorem takes_member : Takes member (Denotes MemberText) := by
  refine (takes_name.mono ?_).or (takes_index.mono ?_)
  · intro t m h s hs
    obtain ⟨n, hn, rfl⟩ := h s hs
    exact .name hn
  · intro t m h s hs
    obtain ⟨i, hi, rfl⟩ := h s hs
    exact .index hi

theorem MembersText.starts {t : List Char} {ss : List Selector} (h : MembersText t ss) :
    Starts (fun c => isBlank c = false ∧ c ≠ '?') t := by
  have hmember : ∀ {t : List Char} {s : Selector}, MemberText t s →
      Starts (fun c => isBlank c = false ∧ c ≠ '?') t := by
    intro t s h
    cases h with
    | name h =>
      refine h.starts.mono fun c hc => ?_
      rcases hc with rfl | rfl <;> decide
    | index h =>
      refine h.starts.mono fun c hc => ⟨(isDigit_or_minus hc).1, ?_⟩
      rintro rfl
      exact absurd hc (by decide)
  cases h with
  | one h => exact hmember h
  | cons h _ _ _ =>
    simp only [List.append_assoc]
    exact (hmember h).append _

theorem reads_members {t w : List Char} {ss : List Selector} (h : MembersText t ss)
    (hw : Blank w) (more : List Char) : ∃ first later mid, ss = first :: later ∧
      Reads member (t ++ (w ++ ']' :: more)) (.ok first) mid ∧
      mid.length ≤ (t ++ (w ++ ']' :: more)).length ∧
      ReadsMany (another [','] member) mid (later.map .ok) (w ++ ']' :: more) := by
  induction h with
  | @one t s h =>
    refine ⟨s, [], _, rfl, reads_member h (forall_head_blank hw (by decide) (by decide)), by simp, ?_⟩
    exact .stop (refuses_another hw (by decide) (by decide))
  | @cons t u w₁ w₂ s ss h hw₁ hw₂ h' ih =>
    obtain ⟨first, later, mid, rfl, hfirst, hlen, hlater⟩ := ih
    refine ⟨s, first :: later, w₁ ++ (',' :: (w₂ ++ (u ++ (w ++ ']' :: more)))), rfl, ?_, ?_, ?_⟩
    · simp only [List.append_assoc, List.cons_append]
      exact reads_member h (forall_head_blank hw₁ (by decide) (by decide))
    · simp only [List.length_append, List.length_cons] at hlen ⊢
      omega
    · refine .more (reads_another hw₁ (by decide) hw₂ hfirst fun c hc => (h'.starts.head _ c hc).1) ?_ hlater
      simp only [List.length_append, List.length_cons] at hlen ⊢
      omega

theorem reads_union {t w : List Char} {ss : List Selector} (h : MembersText t ss)
    (hlen : 2 ≤ ss.length) (hw : Blank w) (more : List Char) :
    Reads union (t ++ (w ++ ']' :: more)) (.ok (.union ss)) (w ++ ']' :: more) := by
  obtain ⟨first, later, mid, rfl, hfirst, _, hlater⟩ := reads_members h hw more
  have hpos : 0 < later.length := Nat.le_of_succ_le_succ hlen
  obtain ⟨second, later, rfl⟩ := List.exists_cons_of_length_pos hpos
  have hmeaning : (inOrder (.ok first :: .ok second :: later.map .ok)).map Segment.union =
      .ok (.union (first :: second :: later)) :=
    map_eq_ok.2 ⟨_, inOrder_eq_ok.2 rfl, rfl⟩
  rw [← hmeaning, union_eq]
  cases hlater with
  | more hsecond _ hrest =>
    exact Reads.rule _ (hfirst.bind (hsecond.bind (hrest.many.bind (reads_pure _ _))))

theorem refuses_member {cs : List Char} (h : NoString cs) (h' : NoInteger cs) :
    Refuses member cs :=
  (refuses_name h).or (refuses_index h')

theorem refuses_union {cs : List Char} (h : NoString cs) (h' : NoInteger cs) : Refuses union cs :=
  Refuses.rule _ (refuses_member h h').bind

theorem refuses_union_one {t w more : List Char} {s : Selector} {d : Char} (h : MemberText t s)
    (hw : Blank w) (hd : isBlank d = false ∧ d.isDigit = false ∧ d ≠ ',') :
    Refuses union (t ++ (w ++ d :: more)) :=
  Refuses.rule _ ((reads_member h (forall_head_blank hw (by decide) hd.2.1)).refuses_bind
    (refuses_another hw hd.1 hd.2.2).bind)

theorem membersText_of_items {t u : List Char} {s : Selector} {ms : List (Meaning Selector)}
    {ss : List Selector} (h : MemberText t s)
    (hm : Items (fun t a => ∃ w w' u, t = w ++ [','] ++ w' ++ u ∧ Blank w ∧ Blank w' ∧
      Denotes MemberText u a) u ms) (hms : ms = ss.map .ok) : MembersText (t ++ u) (s :: ss) := by
  induction hm generalizing t s ss with
  | nil =>
    rw [List.map_eq_nil_iff.1 hms.symm, List.append_nil]
    exact .one h
  | cons ha _ ih =>
    obtain ⟨w, w', v, rfl, hw, hw', hv⟩ := ha
    obtain ⟨s', ss', rfl, rfl, hss'⟩ := List.map_eq_cons_iff.1 hms.symm
    have := MembersText.cons h hw hw' (ih (hv s' rfl) hss'.symm)
    simpa using this

theorem takes_union :
    Takes union (Denotes fun t s => ∃ ss, MembersText t ss ∧ 2 ≤ ss.length ∧ s = .union ss) := by
  rw [union_eq]
  refine Takes.rule _ ((takes_member.bind fun _ => (takes_another takes_member).bind fun _ =>
    (takes_another takes_member).many.bind fun _ => takes_pure _).mono ?_)
  rintro _ _ ⟨t, _, m, rfl, hm, u, _, m', rfl, hm', v, _, ms, rfl, hms, rfl, rfl⟩ s hs
  obtain ⟨ss, hss, rfl⟩ := map_eq_ok.1 hs
  obtain ⟨a, as, rfl, rfl, has⟩ := List.map_eq_cons_iff.1 (inOrder_eq_ok.1 hss).symm
  refine ⟨a :: as, ?_, ?_, rfl⟩
  · have := membersText_of_items (hm a rfl) (.cons hm' hms) has.symm
    simpa using this
  · obtain ⟨b, bs, rfl, _⟩ := List.map_eq_cons_iff.1 has
    simp

end JsonSpan.Spelling

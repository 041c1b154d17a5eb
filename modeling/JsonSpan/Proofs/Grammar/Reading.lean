import JsonSpan.Path.Grammar

/-!
# What readers read

The result of a reader, apart from its note. `Reads r cs a rest` says that the reader takes what
stands before `rest` in `cs`, and gives `a`; `Refuses r cs` says that it fails there. Neither depends
on the offset. The equations below give the result of each way to put readers together; the lemmas
after them put readings together.
-/

namespace JsonSpan

theorem Utf8.size_append (t u : List Char) : Utf8.size (t ++ u) = Utf8.size t + Utf8.size u := by
  induction t with
  | nil => rw [List.nil_append, Utf8.size, Nat.zero_add]
  | cons c t ih => rw [List.cons_append, Utf8.size, Utf8.size, ih, Nat.add_assoc]

theorem Utf8.size_cons (c : Char) (t : List Char) : Utf8.size (c :: t) = c.utf8Size + Utf8.size t :=
  rfl

namespace Reader

variable {α β : Type}

/-! ### Results -/

@[simp] theorem result_pure (a : α) (p : TextPlace) :
    ((Pure.pure a : Reader α) p).result = some (a, p) := rfl

@[simp] theorem result_bind (r : Reader α) (f : α → Reader β) (p : TextPlace) :
    ((r >>= f) p).result = (r p).result.bind fun x => (f x.1 x.2).result := by
  show (bind r f p).result = _
  rw [bind]
  cases (r p).result <;> rfl

@[simp] theorem result_or (r s : Reader α) (p : TextPlace) :
    (or r s p).result = (r p).result.or (s p).result := by
  rw [or]
  cases h : (r p).result with
  | none => rfl
  | some x => exact h

@[simp] theorem result_rule (which : Rule) (r : Reader α) (p : TextPlace) :
    (rule which r p).result = (r p).result := by
  rw [rule]
  cases h : (r p).result with
  | none => rfl
  | some x => exact h

@[simp] theorem result_optional (r : Reader α) (p : TextPlace) :
    (optional r p).result =
      ((r p).result.map fun x => (some x.1, x.2)).or (some (none, p)) := by
  rw [optional, result_or]
  congr 1
  show ((r >>= fun a => Pure.pure (some a)) p).result = _
  rw [result_bind]
  cases (r p).result <;> rfl

@[simp] theorem result_withText (r : Reader α) (p : TextPlace) :
    (withText r p).result =
      (r p).result.map fun x => ((x.1, p.rest.take (p.rest.length - x.2.rest.length)), x.2) := rfl

@[simp] theorem result_fail (p : TextPlace) : ((fail : Reader α) p).result = none := rfl

@[simp] theorem result_char_cons (accept : Char → Bool) (offset : Nat) (c : Char) (cs : List Char) :
    (char accept ⟨offset, c :: cs⟩).result =
      if accept c then some (c, ⟨offset + c.utf8Size, cs⟩) else none := by
  show (if accept c then (⟨some (c, ⟨offset + c.utf8Size, cs⟩), id⟩ : Attempt Char)
    else ⟨none, id⟩).result = _
  split <;> rfl

@[simp] theorem result_char_nil (accept : Char → Bool) (offset : Nat) :
    (char accept ⟨offset, []⟩).result = none := rfl

@[simp] theorem result_taking (front : List Char → List Char) (p : TextPlace) :
    (taking front p).result =
      some (front p.rest, ⟨p.offset + Utf8.size (front p.rest), p.rest.drop (front p.rest).length⟩) :=
  rfl

/-! ### Readings -/

/-- The reader takes what stands before `rest`, and gives `a`. -/
def Reads (r : Reader α) (cs : List Char) (a : α) (rest : List Char) : Prop :=
  ∀ o, ∃ o', (r ⟨o, cs⟩).result = some (a, ⟨o', rest⟩)

/-- The reader fails. -/
def Refuses (r : Reader α) (cs : List Char) : Prop :=
  ∀ o, (r ⟨o, cs⟩).result = none

theorem reads_pure (a : α) (cs : List Char) : Reads (Pure.pure a) cs a cs :=
  fun o => ⟨o, rfl⟩

theorem Reads.bind {r : Reader α} {f : α → Reader β} {cs cs' rest : List Char} {a : α} {b : β}
    (h : Reads r cs a cs') (h' : Reads (f a) cs' b rest) : Reads (r >>= f) cs b rest := by
  intro o
  obtain ⟨o₁, h₁⟩ := h o
  obtain ⟨o₂, h₂⟩ := h' o₁
  exact ⟨o₂, by rw [result_bind, h₁, Option.bind_some, h₂]⟩

theorem Refuses.bind {r : Reader α} {f : α → Reader β} {cs : List Char} (h : Refuses r cs) :
    Refuses (r >>= f) cs := by
  intro o
  rw [result_bind, h o, Option.bind_none]

theorem Reads.refuses_bind {r : Reader α} {f : α → Reader β} {cs cs' : List Char} {a : α}
    (h : Reads r cs a cs') (h' : Refuses (f a) cs') : Refuses (r >>= f) cs := by
  intro o
  obtain ⟨o₁, h₁⟩ := h o
  rw [result_bind, h₁, Option.bind_some]
  exact h' o₁

theorem Reads.or_left {r s : Reader α} {cs rest : List Char} {a : α} (h : Reads r cs a rest) :
    Reads (or r s) cs a rest := by
  intro o
  obtain ⟨o₁, h₁⟩ := h o
  exact ⟨o₁, by rw [result_or, h₁, Option.some_or]⟩

theorem Refuses.or_right {r s : Reader α} {cs rest : List Char} {a : α} (h : Refuses r cs)
    (h' : Reads s cs a rest) : Reads (or r s) cs a rest := by
  intro o
  obtain ⟨o₁, h₁⟩ := h' o
  exact ⟨o₁, by rw [result_or, h o, Option.none_or, h₁]⟩

theorem Refuses.or {r s : Reader α} {cs : List Char} (h : Refuses r cs) (h' : Refuses s cs) :
    Refuses (or r s) cs := by
  intro o
  rw [result_or, h o, Option.none_or, h' o]

theorem Reads.rule {r : Reader α} {cs rest : List Char} {a : α} (which : Rule)
    (h : Reads r cs a rest) : Reads (rule which r) cs a rest := by
  intro o
  rw [result_rule]
  exact h o

theorem Refuses.rule {r : Reader α} {cs : List Char} (which : Rule) (h : Refuses r cs) :
    Refuses (rule which r) cs := by
  intro o
  rw [result_rule]
  exact h o

theorem Reads.optional {r : Reader α} {cs rest : List Char} {a : α} (h : Reads r cs a rest) :
    Reads (optional r) cs (some a) rest := by
  intro o
  obtain ⟨o₁, h₁⟩ := h o
  exact ⟨o₁, by rw [result_optional, h₁]; rfl⟩

theorem Refuses.optional {r : Reader α} {cs : List Char} (h : Refuses r cs) :
    Reads (optional r) cs none cs := by
  intro o
  exact ⟨o, by rw [result_optional, h o]; rfl⟩

theorem Reads.withText {r : Reader α} {t rest : List Char} {a : α} (h : Reads r (t ++ rest) a rest) :
    Reads (withText r) (t ++ rest) (a, t) rest := by
  intro o
  obtain ⟨o₁, h₁⟩ := h o
  refine ⟨o₁, ?_⟩
  rw [result_withText, h₁, Option.map_some]
  simp

theorem Refuses.withText {r : Reader α} {cs : List Char} (h : Refuses r cs) :
    Refuses (withText r) cs := by
  intro o
  rw [result_withText, h o, Option.map_none]

/-! ### Characters -/

theorem reads_char {accept : Char → Bool} {c : Char} (h : accept c) (rest : List Char) :
    Reads (char accept) (c :: rest) c rest :=
  fun o => ⟨o + c.utf8Size, by rw [result_char_cons, if_pos h]⟩

theorem refuses_char {accept : Char → Bool} {cs : List Char} (h : ∀ c ∈ cs.head?, accept c = false) :
    Refuses (char accept) cs := by
  intro o
  cases cs with
  | nil => rfl
  | cons c cs =>
    have hc : accept c = false := h c rfl
    rw [result_char_cons, hc]
    rfl

theorem reads_text (t rest : List Char) : Reads (text t) (t ++ rest) () rest := by
  induction t with
  | nil => exact reads_pure () rest
  | cons c t ih => exact (reads_char (beq_self_eq_true c) (t ++ rest)).bind ih

theorem refuses_text {t cs : List Char} {c : Char} (h : cs.head? ≠ some c) :
    Refuses (text (c :: t)) cs := by
  refine Refuses.bind (refuses_char fun d hd => ?_)
  rw [beq_eq_false_iff_ne]
  rintro rfl
  exact h hd

theorem reads_taking {front : List Char → List Char} {t rest : List Char}
    (h : front (t ++ rest) = t) : Reads (taking front) (t ++ rest) t rest := by
  intro o
  refine ⟨o + Utf8.size t, ?_⟩
  rw [result_taking]
  simp only [h, List.drop_left]

theorem reads_run {accept : Char → Bool} {t rest : List Char} (h : ∀ c ∈ t, accept c)
    (hr : ∀ c ∈ rest.head?, accept c = false) : Reads (run accept) (t ++ rest) t rest := by
  refine reads_taking ?_
  have hr' : rest.takeWhile accept = [] := by
    cases rest with
    | nil => rfl
    | cons c rest => exact List.takeWhile_cons_of_neg (by simp [hr c rfl])
  rw [List.takeWhile_append_of_pos h, hr', List.append_nil]

/-! ### Repetition -/

/-- What is read again and again: values one after the other, until the reader fails. -/
inductive ReadsMany (r : Reader α) : List Char → List α → List Char → Prop where
  | stop {cs : List Char} (h : Refuses r cs) : ReadsMany r cs [] cs
  | more {cs cs' rest : List Char} {a : α} {as : List α} (h : Reads r cs a cs')
    (hlt : cs'.length < cs.length) (h' : ReadsMany r cs' as rest) : ReadsMany r cs (a :: as) rest

theorem ReadsMany.upTo {r : Reader α} {cs rest : List Char} {as : List α}
    (h : ReadsMany r cs as rest) : ∀ n, cs.length ≤ n → Reads (upTo r n) cs as rest := by
  induction h with
  | stop h =>
    intro n _
    cases n with
    | zero => exact reads_pure [] _
    | succ n => exact (Refuses.bind h).or_right (reads_pure [] _)
  | more h hlt _ ih =>
    intro n hn
    cases n with
    | zero => omega
    | succ n =>
      refine Reads.or_left (Reads.bind h ?_)
      exact Reads.bind (ih n (by omega)) (reads_pure (_ :: _) _)

theorem ReadsMany.many {r : Reader α} {cs rest : List Char} {as : List α}
    (h : ReadsMany r cs as rest) : Reads (many r) cs as rest :=
  fun o => h.upTo cs.length (Nat.le_refl _) o

theorem reads_blanks {w rest : List Char} (h : ∀ c ∈ w, isBlank c)
    (hr : ∀ c ∈ rest.head?, isBlank c = false) : Reads blanks (w ++ rest) () rest :=
  (reads_run h hr).bind (reads_pure () rest)

/-! ### What was taken -/

/-- Whatever the reader gives, it took a text of it for which the relation holds. -/
def Takes (r : Reader α) (S : List Char → α → Prop) : Prop :=
  ∀ p a q, (r p).result = some (a, q) → ∃ t, p.rest = t ++ q.rest ∧ S t a

variable {S : List Char → α → Prop}

theorem Takes.mono {r : Reader α} {S' : List Char → α → Prop} (h : Takes r S)
    (hS : ∀ t a, S t a → S' t a) : Takes r S' := by
  intro p a q hr
  obtain ⟨t, ht, hs⟩ := h p a q hr
  exact ⟨t, ht, hS t a hs⟩

theorem takes_pure (a : α) : Takes (Pure.pure a) fun t b => t = [] ∧ b = a := by
  intro p b q h
  cases h
  exact ⟨[], rfl, rfl, rfl⟩

theorem takes_fail (S : List Char → α → Prop) : Takes fail S := by
  intro p a q h
  cases h

theorem Takes.bind {r : Reader α} {f : α → Reader β} {T : α → List Char → β → Prop}
    (h : Takes r S) (h' : ∀ a, Takes (f a) (T a)) :
    Takes (r >>= f) fun t b => ∃ u v a, t = u ++ v ∧ S u a ∧ T a v b := by
  intro p b q hr
  rw [result_bind, Option.bind_eq_some_iff] at hr
  obtain ⟨⟨a, p'⟩, ha, hb⟩ := hr
  obtain ⟨u, hu, hS⟩ := h p a p' ha
  obtain ⟨v, hv, hT⟩ := h' a p' b q hb
  exact ⟨u ++ v, by rw [hu, hv, List.append_assoc], u, v, a, rfl, hS, hT⟩

theorem Takes.or {r s : Reader α} (h : Takes r S) (h' : Takes s S) : Takes (or r s) S := by
  intro p a q hr
  rw [result_or, Option.or_eq_some_iff] at hr
  rcases hr with hr | ⟨_, hr⟩
  · exact h p a q hr
  · exact h' p a q hr

theorem Takes.rule {r : Reader α} (which : Rule) (h : Takes r S) : Takes (rule which r) S := by
  intro p a q hr
  rw [result_rule] at hr
  exact h p a q hr

theorem Takes.optional {r : Reader α} (h : Takes r S) :
    Takes (optional r) fun t o => o = none ∧ t = [] ∨ ∃ a, o = some a ∧ S t a := by
  intro p o q hr
  rw [result_optional, Option.or_eq_some_iff] at hr
  rcases hr with hr | ⟨_, hr⟩
  · obtain ⟨⟨a, q'⟩, ha, hq⟩ := Option.map_eq_some_iff.1 hr
    cases hq
    obtain ⟨t, ht, hS⟩ := h p a q' ha
    exact ⟨t, ht, .inr ⟨a, rfl, hS⟩⟩
  · cases hr
    exact ⟨[], rfl, .inl ⟨rfl, rfl⟩⟩

theorem Takes.withText {r : Reader α} (h : Takes r S) :
    Takes (withText r) fun t x => S t x.1 ∧ x.2 = t := by
  intro p x q hr
  rw [result_withText] at hr
  obtain ⟨⟨a, q'⟩, ha, hq⟩ := Option.map_eq_some_iff.1 hr
  cases hq
  obtain ⟨t, ht, hS⟩ := h p a q' ha
  refine ⟨t, ht, hS, ?_⟩
  simp [ht]

theorem takes_char (accept : Char → Bool) :
    Takes (char accept) fun t c => t = [c] ∧ accept c = true := by
  rintro ⟨o, cs⟩ c q h
  cases cs with
  | nil => cases h
  | cons d cs =>
    rw [result_char_cons] at h
    split at h
    · next hd =>
      cases h
      exact ⟨[c], rfl, rfl, hd⟩
    · cases h

theorem takes_text (t : List Char) : Takes (text t) fun u _ => u = t := by
  induction t with
  | nil => exact (takes_pure ()).mono fun _ _ h => h.1
  | cons c t ih =>
    refine ((takes_char (· == c)).bind fun _ => ih).mono ?_
    rintro _ _ ⟨u, v, d, rfl, ⟨rfl, hd⟩, rfl⟩
    rw [beq_iff_eq.1 hd]
    rfl

theorem takes_taking {front : List Char → List Char} {T : List Char → Prop}
    (h : ∀ cs, front cs <+: cs ∧ T (front cs)) : Takes (taking front) fun t cs => cs = t ∧ T t := by
  intro p cs q hr
  cases hr
  obtain ⟨hpre, hT⟩ := h p.rest
  refine ⟨front p.rest, ?_, rfl, hT⟩
  exact (List.prefix_iff_eq_append.1 hpre).symm

theorem takes_run (accept : Char → Bool) :
    Takes (run accept) fun t cs => cs = t ∧ ∀ c ∈ t, accept c :=
  takes_taking fun _ => ⟨List.takeWhile_prefix accept, List.all_eq_true.1 List.all_takeWhile⟩

theorem takes_atEnd : Takes atEnd fun t _ => t = [] := by
  intro p _ q h
  unfold atEnd at h
  split at h
  · cases h
    exact ⟨[], rfl, rfl⟩
  · cases h

theorem takes_blanks : Takes blanks fun t _ => ∀ c ∈ t, isBlank c := by
  refine ((takes_run isBlank).bind fun _ => takes_pure ()).mono ?_
  rintro _ _ ⟨u, v, _, rfl, ⟨rfl, h⟩, rfl, _⟩
  rw [List.append_nil]
  exact h

/-- The texts and values that a reader took one after the other. -/
inductive Items (S : List Char → α → Prop) : List Char → List α → Prop where
  | nil : Items S [] []
  | cons {t u : List Char} {a : α} {as : List α} (h : S t a) (h' : Items S u as) :
    Items S (t ++ u) (a :: as)

theorem Takes.upTo {r : Reader α} (h : Takes r S) : ∀ n, Takes (upTo r n) (Items S)
  | 0 => (takes_pure []).mono fun t as ⟨ht, ha⟩ => by
    subst ht ha
    exact .nil
  | n + 1 => by
    refine Takes.or (Takes.mono (Takes.bind h fun a => Takes.bind (h.upTo n) fun as =>
      takes_pure (a :: as)) ?_) ((takes_pure []).mono ?_)
    · rintro _ _ ⟨t, _, a, rfl, ha, u, _, as, rfl, has, rfl, rfl⟩
      rw [List.append_nil]
      exact .cons ha has
    · rintro t as ⟨rfl, rfl⟩
      exact .nil

theorem Takes.many {r : Reader α} (h : Takes r S) : Takes (many r) (Items S) :=
  fun p => h.upTo p.rest.length p

end Reader

end JsonSpan

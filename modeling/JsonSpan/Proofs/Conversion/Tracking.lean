import Mathlib.Data.List.Forall2
import JsonSpan.Proofs.Conversion.Parts
import JsonSpan.Proofs.Grammar.Reading

/-!
# Readers that go the same way

Two readers of different values go the same way through every text if they fail at the same places,
reach the same places otherwise, and make the same notes. `Tracks R r s` says so, and that a text that
both take, what the first one gives for it, and what the second one gives are related by `R`. However
readers are put together, this is kept.
-/

namespace JsonSpan

namespace Reader

variable {α α' β β' : Type}

/-- Two attempts at a place came to the same, with related values. -/
inductive SameWay (R : List Char → α → β → Prop) (p : TextPlace) : Attempt α → Attempt β → Prop where
  | failed (note : Furthest → Furthest) : SameWay R p ⟨none, note⟩ ⟨none, note⟩
  | read (note : Furthest → Furthest) {t : List Char} {a : α} {b : β} {q : TextPlace}
    (ht : p.rest = t ++ q.rest) (h : R t a b) : SameWay R p ⟨some (a, q), note⟩ ⟨some (b, q), note⟩

/-- The second reader goes the way of the first, and for a text that they take, their values are
related. -/
def Tracks (R : List Char → α → β → Prop) (r : Reader α) (s : Reader β) : Prop :=
  ∀ p, SameWay R p (r p) (s p)

/-- Values that are related one by one. -/
abbrev Each (R : List Char → α → β → Prop) (as : List α) (bs : List β) : Prop :=
  List.Forall₂ (fun a b => ∃ t, R t a b) as bs

variable {R : List Char → α → β → Prop} {Q : List Char → α' → β' → Prop} {r r' : Reader α}
  {s s' : Reader β}

theorem Tracks.mono {R' : List Char → α → β → Prop} (h : Tracks R r s)
    (hR : ∀ t a b, R t a b → R' t a b) : Tracks R' r s := by
  intro p
  have h := h p
  generalize r p = x, s p = y at h ⊢
  cases h with
  | failed note => exact .failed note
  | read note ht h => exact .read note ht (hR _ _ _ h)

theorem tracks_pure {a : α} {b : β} (h : R [] a b) : Tracks R (Pure.pure a) (Pure.pure b) :=
  fun _ => .read id rfl h

theorem tracks_fail : Tracks R fail fail :=
  fun _ => .failed id

theorem tracks_self {S : List Char → β → Prop} (h : Takes s S) :
    Tracks (fun t a b => a = b ∧ S t b) s s := by
  intro p
  have h := h p
  generalize s p = x at h ⊢
  obtain ⟨result, note⟩ := x
  cases result with
  | none => exact .failed note
  | some x =>
    obtain ⟨t, ht, hS⟩ := h x.1 x.2 rfl
    exact .read note ht ⟨rfl, hS⟩

theorem Tracks.bind {f : α → Reader α'} {g : β → Reader β'} (h : Tracks R r s)
    (h' : ∀ u a b, R u a b → Tracks (fun v => Q (u ++ v)) (f a) (g b)) :
    Tracks Q (r >>= f) (s >>= g) := by
  intro p
  have h := h p
  show SameWay Q p (Reader.bind r f p) (Reader.bind s g p)
  unfold Reader.bind
  generalize r p = x, s p = y at h ⊢
  cases h with
  | failed note => exact .failed note
  | @read note u a b q hu h =>
    have h' := h' u a b h q
    dsimp only
    generalize f a q = x, g b q = y at h' ⊢
    cases h' with
    | failed note' => exact .failed _
    | read note' hv h' => exact .read _ (by rw [hu, hv, List.append_assoc]) h'

theorem Tracks.or (h : Tracks R r s) (h' : Tracks R r' s') : Tracks R (or r r') (or s s') := by
  intro p
  have h := h p
  have h' := h' p
  unfold Reader.or
  generalize r p = x, s p = y at h ⊢
  generalize r' p = x', s' p = y' at h' ⊢
  cases h with
  | failed note =>
    cases h' with
    | failed note' => exact .failed _
    | read note' ht h' => exact .read _ ht h'
  | read note ht h => exact .read note ht h

theorem Tracks.rule (which : Rule) (h : Tracks R r s) : Tracks R (rule which r) (rule which s) := by
  intro p
  have h := h p
  unfold Reader.rule
  generalize r p = x, s p = y at h ⊢
  cases h with
  | failed note => exact .failed _
  | read note ht h => exact .read note ht h

theorem Tracks.map_left {f : α → α'} {Q : List Char → α' → β → Prop}
    (h : Tracks (fun t a => Q t (f a)) r s) : Tracks Q (r >>= fun a => Pure.pure (f a)) s := by
  intro p
  have h := h p
  show SameWay Q p (Reader.bind r _ p) (s p)
  unfold Reader.bind
  generalize r p = x, s p = y at h ⊢
  cases h with
  | failed note => exact .failed note
  | read note ht h => exact .read note ht h

theorem Tracks.map_right {g : β → β'} {Q : List Char → α → β' → Prop}
    (h : Tracks (fun t a b => Q t a (g b)) r s) : Tracks Q r (s >>= fun b => Pure.pure (g b)) := by
  intro p
  have h := h p
  show SameWay Q p (r p) (Reader.bind s _ p)
  unfold Reader.bind
  generalize r p = x, s p = y at h ⊢
  cases h with
  | failed note => exact .failed note
  | read note ht h => exact .read note ht h

theorem Tracks.withText_left (h : Tracks R r s) :
    Tracks (fun t x b => x.2 = t ∧ R t x.1 b) (withText r) s := by
  intro p
  have h := h p
  unfold withText
  generalize r p = x, s p = y at h ⊢
  cases h with
  | failed note => exact .failed note
  | read note ht h => exact .read note ht ⟨by simp [ht], h⟩

theorem Tracks.withText_right (h : Tracks R r s) :
    Tracks (fun t a y => y.2 = t ∧ R t a y.1) r (withText s) := by
  intro p
  have h := h p
  unfold withText
  generalize r p = x, s p = y at h ⊢
  cases h with
  | failed note => exact .failed note
  | read note ht h => exact .read note ht ⟨by simp [ht], h⟩

theorem Tracks.optional (h : Tracks R r s) :
    Tracks (fun t a b => (a = none ∧ b = none ∧ t = []) ∨ ∃ x y, a = some x ∧ b = some y ∧ R t x y)
      (optional r) (optional s) :=
  .or (.map_left (.map_right (h.mono fun _ a b h => .inr ⟨a, b, rfl, rfl, h⟩)))
    (tracks_pure (.inl ⟨rfl, rfl, rfl⟩))

theorem Tracks.upTo (h : Tracks R r s) : ∀ n, Tracks (fun _ => Each R) (upTo r n) (upTo s n)
  | 0 => tracks_pure .nil
  | n + 1 => .or (.bind h fun u _ _ hR => .map_left (.map_right ((h.upTo n).mono fun _ _ _ hRs =>
      .cons ⟨u, hR⟩ hRs))) (tracks_pure .nil)

theorem Tracks.many (h : Tracks R r s) : Tracks (fun _ => Each R) (many r) (many s) :=
  fun p => h.upTo p.rest.length p

end Reader

/-! ### Readers of parts -/

namespace Parts

open Reader

variable {α β : Type} {R : List Char → List Part → β → Prop} {r : Reader (List Part)} {s : Reader β}

theorem tracks_plain {S : List Char → β → Prop} (h : Takes s S) :
    Tracks (fun t xs b => xs = [] ∧ S t b) (plain s) s :=
  .map_left ((tracks_self h).mono fun _ _ _ h => ⟨rfl, h.2⟩)

theorem tracks_inRow_nil {b : β} (h : R [] [] b) : Tracks R (inRow []) (Pure.pure b) :=
  tracks_pure h

theorem tracks_inRow {rs : List (Reader (List Part))} {k : α → Reader β} {s : Reader α}
    {Q : List Char → List Part → α → Prop} (h : Tracks Q r s)
    (h' : ∀ u xs a, Q u xs a → Tracks (fun v ys => R (u ++ v) (xs ++ ys)) (inRow rs) (k a)) :
    Tracks R (inRow (r :: rs)) (s >>= k) :=
  .bind h fun u xs a hQ => .map_left (h' u xs a hQ)

theorem tracks_inRow_plain {rs : List (Reader (List Part))} {k : α → Reader β} {s : Reader α}
    {S : List Char → α → Prop} (h : Takes s S)
    (h' : ∀ u a, S u a → Tracks (fun v => R (u ++ v)) (inRow rs) (k a)) :
    Tracks R (inRow (plain s :: rs)) (s >>= k) := by
  refine tracks_inRow (tracks_plain h) ?_
  rintro u _ a ⟨rfl, hS⟩
  exact h' u a hS

theorem tracks_inRow_last (h : Tracks R r s) : Tracks R (inRow [r]) s := by
  show Tracks R (r >>= fun xs => Pure.pure (xs ++ [])) s
  refine .map_left (h.mono fun t xs b hR => ?_)
  rwa [List.append_nil]

theorem tracks_part (kind : PartKind) (h : Tracks R r s) :
    Tracks (fun t xs b => ∃ inner, xs = [.mk kind t inner] ∧ R t inner b) (part kind r) s := by
  refine .map_left (h.withText_left.mono ?_)
  rintro t ⟨inner, _⟩ b ⟨rfl, hR⟩
  exact ⟨inner, rfl, hR⟩

theorem tracks_ruled (which : Rule) (h : Tracks R r s) :
    Tracks (fun t xs b => ∃ inner, xs = [.mk (.rule which) t inner] ∧ R t inner b) (ruled which r)
      (rule which s) :=
  .rule which (tracks_part (.rule which) h)

theorem tracks_perhaps (h : Tracks R r s) :
    Tracks (fun t xs o => (xs = [] ∧ o = none ∧ t = []) ∨ ∃ b, o = some b ∧ R t xs b) (perhaps r)
      (optional s) := by
  refine .map_left (h.optional.mono ?_)
  rintro t _ _ (⟨rfl, rfl, rfl⟩ | ⟨xs, b, rfl, rfl, hR⟩)
  · exact .inl ⟨rfl, rfl, rfl⟩
  · exact .inr ⟨b, rfl, hR⟩

theorem tracks_repeated (h : Tracks R r s) :
    Tracks (fun _ xs bs => ∃ xss, xs = List.flatten xss ∧ Each R xss bs) (repeated r) (many s) :=
  .map_left (h.many.mono fun _ xss _ hR => ⟨xss, rfl, hR⟩)

end Parts

end JsonSpan

import Mathlib.Control.Monad.Basic

/-!
# Computations that may fail

What is said of computations that give a value or an error, whatever these are. A sequence of two
gives a value if both do (`bind_eq_ok`), two sequences agree if they do step by step
(`bind_eq_mapBoth`), and a sequence fails only as its parts do (`FailsOnly.bind`).
-/

namespace JsonSpan

section

variable {ε ε' α α' β β' : Type}

theorem exists_eq_ok {m : Except ε α} (h : m.isOk) : ∃ a, m = .ok a := by
  cases m with
  | error fault => cases h
  | ok a => exact ⟨a, rfl⟩

theorem bind_eq_ok {m : Except ε α} {f : α → Except ε β} {b : β} :
    (m >>= f) = .ok b ↔ ∃ a, m = .ok a ∧ f a = .ok b := by
  cases m with
  | error fault =>
    constructor
    · intro h
      cases h
    · rintro ⟨a, h, _⟩
      cases h
  | ok a =>
    constructor
    · exact fun h => ⟨a, rfl, h⟩
    · rintro ⟨_, ⟨⟩, h⟩
      exact h

theorem bind_eq_error {m : Except ε α} {f : α → Except ε β} {e : ε} :
    (m >>= f) = .error e ↔ m = .error e ∨ ∃ a, m = .ok a ∧ f a = .error e := by
  cases m with
  | error fault =>
    constructor
    · rintro ⟨⟩
      exact .inl rfl
    · rintro (⟨⟨⟩⟩ | ⟨_, h, _⟩)
      · rfl
      · cases h
  | ok a =>
    constructor
    · exact fun h => .inr ⟨a, rfl, h⟩
    · rintro (h | ⟨_, ⟨⟩, h⟩)
      · cases h
      · exact h

theorem map_eq_ok {m : Except ε α} {f : α → β} {b : β} :
    (f <$> m) = .ok b ↔ ∃ a, m = .ok a ∧ f a = b := by
  cases m with
  | error fault =>
    constructor
    · intro h
      cases h
    · rintro ⟨a, h, _⟩
      cases h
  | ok a =>
    constructor
    · intro h
      exact ⟨a, rfl, Except.ok.inj h⟩
    · rintro ⟨_, ⟨⟩, rfl⟩
      rfl

theorem map_eq_error {m : Except ε α} {f : α → β} {e : ε} :
    (f <$> m) = .error e ↔ m = .error e := by
  cases m with
  | error fault =>
    constructor
    · rintro ⟨⟩
      rfl
    · rintro ⟨⟩
      rfl
  | ok a => exact ⟨nofun, nofun⟩

/-! ### Both results mapped -/

/-- A computation with its value and its error mapped. -/
def mapBoth (e : ε → ε') (g : α → α') : Except ε α → Except ε' α'
  | .ok a => .ok (g a)
  | .error x => .error (e x)

@[simp] theorem mapBoth_ok (e : ε → ε') (g : α → α') (a : α) : mapBoth e g (.ok a) = .ok (g a) := rfl

@[simp] theorem mapBoth_error (e : ε → ε') (g : α → α') (x : ε) :
    mapBoth e g (.error x : Except ε α) = .error (e x) := rfl

theorem mapBoth_eq_ok {e : ε → ε'} {g : α → α'} {x : Except ε α} {a' : α'} :
    mapBoth e g x = .ok a' ↔ ∃ a, x = .ok a ∧ a' = g a := by
  cases x with
  | error x => simp
  | ok a => simp [eq_comm]

theorem bind_eq_mapBoth {e : ε → ε'} {g : α → α'} {h : β → β'} {x : Except ε α} {x' : Except ε' α'}
    {k : α → Except ε β} {k' : α' → Except ε' β'} (hx : x' = mapBoth e g x)
    (hk : ∀ a, x = .ok a → k' (g a) = mapBoth e h (k a)) :
    (x' >>= k') = mapBoth e h (x >>= k) := by
  subst hx
  cases x with
  | error x => rfl
  | ok a => exact hk a rfl

/-! ### Errors -/

/-- If a computation fails, its error is of a kind. -/
def FailsOnly (P : ε → Prop) (x : Except ε α) : Prop :=
  ∀ fault, x = .error fault → P fault

namespace FailsOnly

variable {P Q : ε → Prop}

theorem ok (a : α) : FailsOnly P (.ok a : Except ε α) := by
  intro fault h
  cases h

theorem mono {x : Except ε α} (h : ∀ fault, P fault → Q fault) (hx : FailsOnly P x) :
    FailsOnly Q x :=
  fun fault hf => h fault (hx fault hf)

theorem bind {x : Except ε α} {k : α → Except ε β} (hx : FailsOnly P x)
    (hk : ∀ a, x = .ok a → FailsOnly P (k a)) : FailsOnly P (x >>= k) := by
  intro fault h
  cases x with
  | error e =>
    cases h
    exact hx fault rfl
  | ok a => exact hk a rfl fault h

theorem map {x : Except ε α} {g : α → β} (hx : FailsOnly P x) : FailsOnly P (x.map g) := by
  intro fault h
  cases x with
  | error e =>
    cases h
    exact hx fault rfl
  | ok a => cases h

end FailsOnly

end

end JsonSpan

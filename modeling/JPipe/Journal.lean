/-!
# Computations with a journal

A computation returns a value and keeps a journal of what it did on the way: the
entries of one computation come before those of the next. The value does not depend on
the journal, so what a program returns and what it does besides are read from one
definition, each without the other.

The results of two computations in a row may live in different universes, as those of
a writer monad cannot.
-/

universe u v

/-- A value, and the entries of the journal it was computed with. -/
structure Journal (ε : Type) (α : Type u) where
  value : α
  entries : List ε

namespace Journal

variable {ε δ : Type} {α : Type u} {β : Type v}

/-- One computation after another. -/
def bind (first : Journal ε α) (second : α → Journal ε β) : Journal ε β where
  value := (second first.value).value
  entries := first.entries ++ (second first.value).entries

/-- An entry by itself. -/
def note (entry : ε) : Journal ε PUnit where
  value := ⟨⟩
  entries := [entry]

/-- The same computation with its entries read as others. -/
def relabel (read : ε → δ) (computation : Journal ε α) : Journal δ α where
  value := computation.value
  entries := computation.entries.map read

instance : Monad (Journal ε) where
  pure value := ⟨value, []⟩
  bind := bind
  map f computation := ⟨f computation.value, computation.entries⟩

@[simp] theorem pure_value (value : α) : (pure value : Journal ε α).value = value := rfl

@[simp] theorem bind_value (first : Journal ε α) (second : α → Journal ε β) :
    (first.bind second).value = (second first.value).value := rfl

@[simp] theorem map_value {α β : Type u} (f : α → β) (computation : Journal ε α) :
    (f <$> computation).value = f computation.value := rfl

/-- The `do` of the monad is one computation after another. -/
@[simp] theorem monad_bind {α β : Type u} (first : Journal ε α) (second : α → Journal ε β) :
    first >>= second = first.bind second := rfl

end Journal

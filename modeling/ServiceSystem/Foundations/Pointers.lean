import Mathlib.Tactic.Common

namespace ServiceSystem.Foundations

/-- A `std::unique_ptr`: what it owns, and whether it has been dereferenced while null. -/
structure UniquePtr (α : Type) where
  target : Option α
  trapped : Bool

namespace UniquePtr

variable {α β : Type}

def null : UniquePtr α := ⟨none, false⟩

def make (a : α) : UniquePtr α := ⟨some a, false⟩

/-- The assignment of what `make_unique` gives. -/
def reset (p : UniquePtr α) (a : α) : UniquePtr α := { p with target := some a }

/-- A use of what the pointer owns. There is no telling what comes of the use of a null one:
it is given as `stray`. -/
def deref (p : UniquePtr α) (stray : β) (f : α → β × α) : β × UniquePtr α :=
  match p.target with
  | some a => ((f a).1, { p with target := some (f a).2 })
  | none => (stray, { p with trapped := true })

@[simp] theorem reset_deref (p : UniquePtr α) (a : α) (stray : β) (f : α → β × α) :
    (p.reset a).deref stray f = ((f a).1, { p with target := some (f a).2 }) := rfl

/-- No use of the pointer so far was one of a null pointer, and none can be. -/
def Sound (Q : α → Prop) (p : UniquePtr α) : Prop :=
  p.trapped = false ∧ ∃ a, p.target = some a ∧ Q a

variable {Q : α → Prop} {p : UniquePtr α}

theorem Sound.deref (h : p.Sound Q) (stray : β) {f : α → β × α} (hf : ∀ a, Q a → Q (f a).2) :
    (p.deref stray f).2.Sound Q := by
  obtain ⟨ht, a, ha, hQ⟩ := h
  simp only [UniquePtr.deref, ha]
  exact ⟨ht, _, rfl, hf a hQ⟩

theorem sound_make {a : α} (h : Q a) : (make a).Sound Q := ⟨rfl, a, rfl, h⟩

theorem Sound.mono {R : α → Prop} (h : p.Sound Q) (hQR : ∀ a, Q a → R a) : p.Sound R :=
  ⟨h.1, h.2.imp fun _ ha ↦ ⟨ha.1, hQR _ ha.2⟩⟩

end UniquePtr

end ServiceSystem.Foundations

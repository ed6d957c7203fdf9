/-! Computations that may stop: what is known of their steps where they do not. -/
set_option autoImplicit false
namespace FileQuery

variable {α β ε ε' : Type}

@[simp] theorem mapError_ok (cause : ε → ε') (a : α) :
    (Except.ok a : Except ε α).mapError cause = .ok a := rfl

@[simp] theorem mapError_error (cause : ε → ε') (e : ε) :
    (Except.error e : Except ε α).mapError cause = .error (cause e) := rfl

theorem of_bind_eq_ok {x : Except ε α} {f : α → Except ε β} {b : β} (done : x >>= f = .ok b) :
    ∃ a, x = .ok a ∧ f a = .ok b := by
  cases x with
  | error e => cases done
  | ok a => exact ⟨a, rfl, done⟩

theorem mapM_eq_ok {f : α → Except ε β} {g : α → β} {l : List α} (each : ∀ a ∈ l, f a = .ok (g a)) :
    l.mapM f = .ok (l.map g) := by
  induction l with
  | nil => rfl
  | cons a l ih =>
      obtain ⟨own, rest⟩ := List.forall_mem_cons.mp each
      rw [List.mapM_cons, own, ih rest]
      rfl

theorem each_of_mapM_eq_ok {f : α → Except ε β} {l : List α} {out : List β}
    (done : l.mapM f = .ok out) : ∀ a ∈ l, ∃ b, f a = .ok b := by
  induction l generalizing out with
  | nil => exact nofun
  | cons a l ih =>
      rw [List.mapM_cons] at done
      obtain ⟨b, first, done⟩ := of_bind_eq_ok done
      obtain ⟨bs, behind, -⟩ := of_bind_eq_ok done
      exact List.forall_mem_cons.mpr ⟨⟨b, first⟩, ih behind⟩

end FileQuery

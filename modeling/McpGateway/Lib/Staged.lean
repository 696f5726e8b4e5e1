/-!
# Computations that throw and keep their state

What a computation did to the state before it threw stays done. A triple says
what holds when it returns and what holds when it throws.
-/

namespace McpGateway.Staged

abbrev Throwing (σ ε : Type) := ExceptT ε (StateM σ)

/-- From the state `s`, the computation returns a value and a state with `Q`, or
throws in a state with `E`. -/
def Triple {σ ε α : Type} (x : Throwing σ ε α) (s : σ) (Q : α → σ → Prop) (E : ε → σ → Prop) : Prop :=
  match x.run.run s with
  | (.ok a, s') => Q a s'
  | (.error e, s') => E e s'

section
variable {σ ε α β : Type} {x : Throwing σ ε α} {s : σ} {Q Q' : α → σ → Prop} {E E' : ε → σ → Prop}

theorem Triple.pure {a : α} (h : Q a s) : Triple (pure a : Throwing σ ε α) s Q E := h

theorem Triple.throw {e : ε} (h : E e s) : Triple (throw e : Throwing σ ε α) s Q E := h

theorem Triple.modifies {f : σ → σ} {Q : Unit → σ → Prop} (h : Q () (f s)) :
    Triple (modify f : Throwing σ ε Unit) s Q E := h

theorem Triple.get_bind {f : σ → Throwing σ ε α} (h : Triple (f s) s Q E) :
    Triple (get >>= f) s Q E := h

theorem Triple.modify_bind {g : σ → σ} {f : Unit → Throwing σ ε α} (h : Triple (f ()) (g s) Q E) :
    Triple (modify g >>= f) s Q E := h

theorem Triple.mono (h : Triple x s Q E) (hq : ∀ a s', Q a s' → Q' a s')
    (he : ∀ e s', E e s' → E' e s') : Triple x s Q' E' := by
  unfold Triple at h ⊢
  split
  · next a s' hrun =>
    rw [hrun] at h
    exact hq a s' h
  · next e s' hrun =>
    rw [hrun] at h
    exact he e s' h

theorem run_bind (x : Throwing σ ε α) (f : α → Throwing σ ε β) (s : σ) :
    (x >>= f).run.run s = match x.run.run s with
      | (.ok a, s') => (f a).run.run s'
      | (.error e, s') => (.error e, s') := by
  unfold ExceptT.run StateT.run
  simp only [bind, ExceptT.bind, ExceptT.mk, StateT.bind, ExceptT.bindCont]
  cases x s with
  | mk result s' => cases result <;> rfl

theorem Triple.bind {f : α → Throwing σ ε β} {R : β → σ → Prop} (hx : Triple x s Q E)
    (hf : ∀ a s', Q a s' → Triple (f a) s' R E) : Triple (x >>= f) s R E := by
  unfold Triple at hx ⊢
  rw [run_bind]
  split at hx
  · next a s' hrun => exact hf a s' hx
  · next e s' hrun => exact hx

theorem run_tryCatch (x : Throwing σ ε α) (handler : ε → Throwing σ ε α) (s : σ) :
    (tryCatch x handler).run.run s = match x.run.run s with
      | (.ok a, s') => (.ok a, s')
      | (.error e, s') => (handler e).run.run s' := by
  unfold ExceptT.run StateT.run
  simp only [tryCatch, tryCatchThe, MonadExceptOf.tryCatch, ExceptT.tryCatch, ExceptT.mk, bind,
    StateT.bind]
  cases x s with
  | mk result s' => cases result <;> rfl

theorem Triple.caught {handler : ε → Throwing σ ε α} (hx : Triple x s Q E')
    (hh : ∀ e s', E' e s' → Triple (handler e) s' Q E) :
    Triple (tryCatch x handler) s Q E := by
  unfold Triple at hx ⊢
  rw [run_tryCatch]
  split at hx
  · next a s' _ => exact hx
  · next e s' _ => exact hh e s' hx

theorem Triple.returned {a : α} {s' : σ} (h : Triple x s Q E)
    (hrun : x.run.run s = (.ok a, s')) : Q a s' := by
  unfold Triple at h
  rw [hrun] at h
  exact h

theorem Triple.threw {e : ε} {s' : σ} (h : Triple x s Q E)
    (hrun : x.run.run s = (.error e, s')) : E e s' := by
  unfold Triple at h
  rw [hrun] at h
  exact h

end

end McpGateway.Staged

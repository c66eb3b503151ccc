import SchemaCompiler.Workspace

namespace SchemaCompiler.Work

variable {α β : Type} {w : Workspace}

theorem bind_apply (x : Work α) (f : α → Work β) (w : Workspace) :
    (x >>= f) w = match x w with
      | .ok a w' => f a w'
      | .error e w' => .error e w' := by
  change EStateM.bind x f w = _
  unfold EStateM.bind
  cases x w <;> rfl

theorem bind_of_error {x : Work α} {e : Failure} {w' : Workspace} (h : x w = .error e w')
    (f : α → Work β) : (x >>= f) w = .error e w' := by
  rw [bind_apply, h]

theorem ok_of_bind {x : Work α} {f : α → Work β} {b : β} {w' : Workspace} (h : (x >>= f) w = .ok b w') :
    ∃ a v, x w = .ok a v ∧ f a v = .ok b w' := by
  rw [bind_apply] at h
  cases hx : x w with
  | ok a v =>
    rw [hx] at h
    exact ⟨a, v, rfl, h⟩
  | error e v =>
    rw [hx] at h
    cases h

theorem ok_of_ofExcept {x : Except Failure α} {a : α} {w' : Workspace} (h : ofExcept x w = .ok a w') :
    x = .ok a ∧ w' = w := by
  cases x with
  | ok b =>
    cases h
    exact ⟨rfl, rfl⟩
  | error e => cases h

theorem error_of_map {x : Work α} {f : α → β} {e : Failure} {w' : Workspace}
    (h : (x >>= fun a => pure (f a)) w = .error e w') : x w = .error e w' := by
  rw [bind_apply] at h
  cases hx : x w with
  | ok a w1 =>
    rw [hx] at h
    cases h
  | error f w1 =>
    rw [hx] at h
    cases h
    rfl

theorem get_bind_apply (f : Workspace → Work α) (w : Workspace) : (get >>= f) w = f w w := rfl

theorem pure_bind_apply (a : α) (f : α → Work β) (w : Workspace) : (pure a >>= f) w = f a w := rfl

theorem ofExcept_bind_apply (a : α) (f : α → Work β) (w : Workspace) :
    (ofExcept (.ok a) >>= f) w = f a w := rfl

def after (x : Work α) (w : Workspace) : Workspace :=
  match x w with
  | .ok _ w' | .error _ w' => w'

def outcome (x : Work α) (w : Workspace) : Except Failure α :=
  match x w with
  | .ok a _ => .ok a
  | .error e _ => .error e

theorem after_of_ok {x : Work α} {a : α} {w' : Workspace} (h : x w = .ok a w') : x.after w = w' := by
  rw [after, h]

theorem after_of_error {x : Work α} {e : Failure} {w' : Workspace} (h : x w = .error e w') :
    x.after w = w' := by
  rw [after, h]

theorem ok_of_outcome {x : Work α} (h : (x.outcome w).isOk = true) : ∃ a w', x w = .ok a w' := by
  unfold outcome at h
  cases hx : x w with
  | ok a w' => exact ⟨a, w', rfl⟩
  | error e w' =>
    rw [hx] at h
    cases h

theorem error_of_outcome {x : Work α} {e : Failure} (h : x.outcome w = .error e) :
    ∃ w', x w = .error e w' := by
  unfold outcome at h
  cases hx : x w with
  | ok a w' =>
    rw [hx] at h
    cases h
  | error f w' =>
    rw [hx] at h
    cases h
    exact ⟨w', rfl⟩

def Ends (x : Work α) (w : Workspace) (Q : α → Workspace → Prop) (E : Failure → Workspace → Prop) :
    Prop :=
  match x w with
  | .ok a w' => Q a w'
  | .error e w' => E e w'

namespace Ends

variable {Q R : α → Workspace → Prop} {E F : Failure → Workspace → Prop}

theorem bind {x : Work α} {f : α → Work β} {S : β → Workspace → Prop}
    (h : Ends x w (fun a w' => Ends (f a) w' S E) E) : Ends (x >>= f) w S E := by
  unfold Ends at h ⊢
  rw [bind_apply]
  cases hx : x w with
  | ok a w' =>
    rw [hx] at h
    exact h
  | error e w' =>
    rw [hx] at h
    exact h

theorem ofExcept {x : Except Failure α} (hok : ∀ a, x = .ok a → Q a w)
    (herror : ∀ e, x = .error e → E e w) : Ends (ofExcept x) w Q E := by
  cases x with
  | ok a => exact hok a rfl
  | error e => exact herror e rfl

theorem imp {x : Work α} (h : Ends x w Q E) (hQ : ∀ a w', Q a w' → R a w')
    (hE : ∀ e w', E e w' → F e w') : Ends x w R F := by
  unfold Ends at h ⊢
  cases hx : x w with
  | ok a w' =>
    rw [hx] at h
    exact hQ a w' h
  | error e w' =>
    rw [hx] at h
    exact hE e w' h

end Ends

def Yields (x : Work α) (P : α → Prop) : Prop := ∀ w a w', x w = .ok a w' → P a

namespace Yields

variable {P : α → Prop}

theorem pure {a : α} (h : P a) : Yields (pure a) P := by
  intro w b w' hb
  cases hb
  exact h

theorem throw {e : Failure} : Yields (throw e : Work α) P := by
  intro w b w' hb
  cases hb

theorem any (x : Work α) : Yields x fun _ => True := fun _ _ _ _ => trivial

theorem bind {x : Work α} {f : α → Work β} {R : β → Prop} (h : Yields x P)
    (k : ∀ a, P a → Yields (f a) R) : Yields (x >>= f) R := by
  intro w b w' hb
  rw [bind_apply] at hb
  cases hx : x w with
  | ok a w1 =>
    rw [hx] at hb
    exact k a (h w a w1 hx) w1 b w' hb
  | error e w1 =>
    rw [hx] at hb
    cases hb

theorem ofExcept {x : Except Failure α} (h : ∀ a, x = .ok a → P a) : Yields (ofExcept x) P := by
  cases x with
  | ok a => exact pure (h a rfl)
  | error e => exact throw

theorem bind_congr {x : Work α} {f g : α → Work β} (h : Yields x P) (k : ∀ a, P a → f a = g a) :
    x >>= f = x >>= g := by
  funext w
  rw [bind_apply, bind_apply]
  cases hx : x w with
  | ok a w' => exact congrFun (k a (h w a w' hx)) w'
  | error e w' => rfl

end Yields

end SchemaCompiler.Work

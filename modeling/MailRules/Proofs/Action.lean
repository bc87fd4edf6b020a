import MailRules.Action

/-! Operations carried out.

`exec` is an operation as a function on stages, with one equation for each way to build one.
`Ends` forgets what was said: the operation answers, and leaves a state. A sequence that ends has
a state between its parts (`ends_bind`), and a loop that ends has one after each of its
`Rounds`, so whatever each part keeps, the whole keeps. A sequence that fails does so in its first
part, or in its second after the first has ended (`fails_bind`). `Answers` is for operations that
cannot fail, and `Guarded` for those that fail in some ways only. -/
namespace MailRules.Action

variable {σ τ α β : Type}

/-- An operation as a function: its answer and the stage it leaves. -/
def exec (a : Action σ α) (s : Stage σ) : Except Fault α × Stage σ := (ExceptT.run a).run s

theorem run_eq_exec (a : Action σ α) (s : σ) :
    a.run s =
      ((a.exec ⟨s, []⟩).1, (a.exec ⟨s, []⟩).2.state, (a.exec ⟨s, []⟩).2.notices) := rfl

@[simp] theorem exec_pure (x : α) (s : Stage σ) : exec (pure x : Action σ α) s = (.ok x, s) := rfl

theorem exec_bind (a : Action σ α) (f : α → Action σ β) (s : Stage σ) :
    exec (a >>= f) s = match exec a s with
      | (.ok x, t) => exec (f x) t
      | (.error e, t) => (.error e, t) := by
  show (StateT.run (ExceptT.run a >>= ExceptT.bindCont f) s : Except Fault β × Stage σ) = _
  show (match exec a s with | (x, t) => StateT.run (ExceptT.bindCont f x) t) = _
  cases exec a s with
  | mk x t => cases x <;> rfl

@[simp] theorem exec_get (s : Stage σ) : exec get s = (.ok s.state, s) := rfl

theorem exec_get_bind (f : σ → Action σ β) (s : σ) (notices : List Notice) :
    exec (get >>= f) ⟨s, notices⟩ = exec (f s) ⟨s, notices⟩ := rfl

theorem run_get_bind (f : σ → Action σ β) (s : σ) : (get >>= f).run s = (f s).run s := by
  rw [run_eq_exec, exec_get_bind, ← run_eq_exec]

@[simp] theorem exec_set (x : σ) (s : Stage σ) : exec (set x) s = (.ok (), { s with state := x }) :=
  rfl

@[simp] theorem exec_modify (f : σ → σ) (s : Stage σ) :
    exec (modify f) s = (.ok (), { s with state := f s.state }) := rfl

@[simp] theorem exec_say (more : List Notice) (s : Stage σ) :
    exec (say more) s = (.ok (), { s with notices := s.notices ++ more }) := rfl

@[simp] theorem exec_debug (text : String) (s : Stage σ) :
    exec (debug text) s = (.ok (), { s with notices := s.notices ++ [.debug text] }) := rfl

@[simp] theorem exec_fail (e : Fault) (s : Stage σ) :
    exec (fail e : Action σ α) s = (.error e, s) := rfl

@[simp] theorem exec_ofExcept (r : Except Fault α) (s : Stage σ) :
    exec (ofExcept r) s = (r, s) := by
  cases r <;> rfl

/-- A failure that is caught goes on from where it left off. -/
theorem exec_tryCatch (a : Action σ α) (f : Fault → Action σ α) (s : Stage σ) :
    exec (tryCatch a f) s = match exec a s with
      | (.ok x, t) => (.ok x, t)
      | (.error e, t) => exec (f e) t := by
  have hrun : exec a s = StateT.run a s := rfl
  rw [hrun]
  simp only [exec, tryCatch, tryCatchThe, MonadExceptOf.tryCatch, ExceptT.tryCatch, ExceptT.run_mk,
    StateT.run_bind]
  cases StateT.run a s with
  | mk answer t => cases answer <;> rfl

theorem exec_discard (a : Action σ α) (s : Stage σ) :
    exec (discard a) s = ((exec a s).1.map fun _ => ⟨⟩, (exec a s).2) := by
  show exec ((fun _ => PUnit.unit) <$> a) s = _
  rw [← bind_pure_comp, exec_bind]
  cases exec a s with
  | mk r t => cases r <;> rfl

/-- A failure is answered. -/
theorem exec_attempt (a : Action σ α) (s : Stage σ) :
    exec (attempt a) s = (.ok (exec a s).1, (exec a s).2) := rfl

theorem exec_on (part : τ → σ) (put : τ → σ → τ) (a : Action σ α) (s : Stage τ) :
    exec (on part put a) s =
      ((a.run (part s.state)).1,
        ⟨put s.state (a.run (part s.state)).2.1, s.notices ++ (a.run (part s.state)).2.2⟩) := by
  simp only [on, exec_bind, exec_get, exec_set, exec_say, exec_ofExcept]

/-! ### Operations that end -/

/-- The operation answers `x` from the state `s` and leaves the state `t`. -/
def Ends (a : Action σ α) (s : σ) (x : α) (t : σ) : Prop :=
  ∃ before after, exec a ⟨s, before⟩ = (.ok x, ⟨t, after⟩)

theorem ends_run {a : Action σ α} {s : σ} {x : α} (h : (a.run s).1 = .ok x) :
    Ends a s x (a.run s).2.1 := by
  refine ⟨[], (a.run s).2.2, ?_⟩
  rw [run_eq_exec] at h ⊢
  exact Prod.ext h rfl

theorem ends_pure {x y : α} {s t : σ} (h : Ends (pure x : Action σ α) s y t) : y = x ∧ t = s := by
  obtain ⟨_, _, h⟩ := h
  cases h
  exact ⟨rfl, rfl⟩

theorem ends_bind {a : Action σ α} {f : α → Action σ β} {s t : σ} {y : β}
    (h : Ends (a >>= f) s y t) : ∃ x r, Ends a s x r ∧ Ends (f x) r y t := by
  obtain ⟨before, after, h⟩ := h
  rw [exec_bind] at h
  cases ha : exec a ⟨s, before⟩ with
  | mk answer stage =>
    rw [ha] at h
    cases answer with
    | error e => cases h
    | ok x => exact ⟨x, stage.state, ⟨before, stage.notices, ha⟩, ⟨stage.notices, after, h⟩⟩

theorem ends_map {a : Action σ α} {f : α → β} {s t : σ} {y : β} (h : Ends (f <$> a) s y t) :
    ∃ x, Ends a s x t ∧ y = f x := by
  have hbind : Ends (a >>= fun x => pure (f x)) s y t := by
    rwa [← bind_pure_comp] at h
  obtain ⟨x, r, ha, hf⟩ := ends_bind hbind
  obtain ⟨rfl, rfl⟩ := ends_pure hf
  exact ⟨x, ha, rfl⟩

theorem ends_discard {a : Action σ α} {s t : σ} {u : PUnit} (h : Ends (discard a) s u t) :
    ∃ x, Ends a s x t := by
  obtain ⟨x, ha, -⟩ := ends_map (show Ends ((fun _ => PUnit.unit) <$> a) s u t from h)
  exact ⟨x, ha⟩

theorem ends_get {s x t : σ} (h : Ends get s x t) : x = s ∧ t = s := by
  obtain ⟨_, _, h⟩ := h
  cases h
  exact ⟨rfl, rfl⟩

theorem ends_set {x s t : σ} {u : Unit} (h : Ends (set x) s u t) : t = x := by
  obtain ⟨_, _, h⟩ := h
  cases h
  rfl

theorem ends_modify {f : σ → σ} {s t : σ} {u : Unit} (h : Ends (modify f) s u t) : t = f s := by
  obtain ⟨_, _, h⟩ := h
  cases h
  rfl

theorem ends_say {more : List Notice} {s t : σ} {u : Unit} (h : Ends (say more) s u t) : t = s := by
  obtain ⟨_, _, h⟩ := h
  cases h
  rfl

theorem ends_debug {text : String} {s t : σ} {u : Unit} (h : Ends (debug text) s u t) : t = s :=
  ends_say h

theorem not_ends_fail {e : Fault} {s t : σ} {x : α} : ¬ Ends (fail e : Action σ α) s x t := by
  rintro ⟨_, _, h⟩
  cases h

theorem ends_ofExcept {r : Except Fault α} {s t : σ} {x : α} (h : Ends (ofExcept r) s x t) :
    r = .ok x ∧ t = s := by
  obtain ⟨_, _, h⟩ := h
  rw [exec_ofExcept] at h
  cases h
  exact ⟨rfl, rfl⟩

/-- An operation on a part ends as it does when it is run on the part alone. -/
theorem ends_on_run {part : τ → σ} {put : τ → σ → τ} {a : Action σ α} {s t : τ} {x : α}
    (h : Ends (on part put a) s x t) :
    (a.run (part s)).1 = .ok x ∧ t = put s (a.run (part s)).2.1 := by
  obtain ⟨before, after, h⟩ := h
  rw [exec_on, Prod.mk.injEq, Stage.mk.injEq] at h
  obtain ⟨hx, ht, -⟩ := h
  exact ⟨hx, ht.symm⟩

/-- An operation on a part ends with the part as it leaves it. -/
theorem ends_on {part : τ → σ} {put : τ → σ → τ} {a : Action σ α} {s t : τ} {x : α}
    (h : Ends (on part put a) s x t) : ∃ p, Ends a (part s) x p ∧ t = put s p :=
  ⟨_, ends_run (ends_on_run h).1, (ends_on_run h).2⟩

/-! ### Operations that fail -/

/-- The operation fails with `e` from the state `s` and leaves the state `t`. -/
def Fails (a : Action σ α) (s : σ) (e : Fault) (t : σ) : Prop :=
  ∃ before after, exec a ⟨s, before⟩ = (.error e, ⟨t, after⟩)

theorem fails_run {a : Action σ α} {s : σ} {e : Fault} (h : (a.run s).1 = .error e) :
    Fails a s e (a.run s).2.1 := by
  refine ⟨[], (a.run s).2.2, ?_⟩
  rw [run_eq_exec] at h ⊢
  exact Prod.ext h rfl

theorem fails_bind {a : Action σ α} {f : α → Action σ β} {s t : σ} {e : Fault}
    (h : Fails (a >>= f) s e t) : Fails a s e t ∨ ∃ x r, Ends a s x r ∧ Fails (f x) r e t := by
  obtain ⟨before, after, h⟩ := h
  rw [exec_bind] at h
  cases ha : exec a ⟨s, before⟩ with
  | mk answer stage =>
    rw [ha] at h
    cases answer with
    | error e' =>
      cases h
      exact .inl ⟨before, after, ha⟩
    | ok x => exact .inr ⟨x, stage.state, ⟨before, stage.notices, ha⟩, ⟨stage.notices, after, h⟩⟩

theorem fails_ofExcept {r : Except Fault α} {s t : σ} {e : Fault} (h : Fails (ofExcept r) s e t) :
    r = .error e ∧ t = s := by
  obtain ⟨_, _, h⟩ := h
  rw [exec_ofExcept] at h
  cases h
  exact ⟨rfl, rfl⟩

theorem fails_on_run {part : τ → σ} {put : τ → σ → τ} {a : Action σ α} {s t : τ} {e : Fault}
    (h : Fails (on part put a) s e t) :
    (a.run (part s)).1 = .error e ∧ t = put s (a.run (part s)).2.1 := by
  obtain ⟨before, after, h⟩ := h
  rw [exec_on, Prod.mk.injEq, Stage.mk.injEq] at h
  obtain ⟨he, ht, -⟩ := h
  exact ⟨he, ht.symm⟩

theorem fails_on {part : τ → σ} {put : τ → σ → τ} {a : Action σ α} {s t : τ} {e : Fault}
    (h : Fails (on part put a) s e t) : ∃ p, Fails a (part s) e p ∧ t = put s p :=
  ⟨_, fails_run (fails_on_run h).1, (fails_on_run h).2⟩

/-! ### Operations that cannot fail -/

/-- The operation answers `x` from the state `s` and leaves the state `t`, whatever has been said
before. -/
def Answers (a : Action σ α) (s : σ) (x : α) (t : σ) : Prop :=
  ∀ before, ∃ after, exec a ⟨s, before⟩ = (.ok x, ⟨t, after⟩)

theorem Answers.eq_of_ends {a : Action σ α} {s t u : σ} {x y : α} (ha : Answers a s x t)
    (h : Ends a s y u) : y = x ∧ u = t := by
  obtain ⟨before, _, h⟩ := h
  obtain ⟨_, ha⟩ := ha before
  rw [ha] at h
  cases h
  exact ⟨rfl, rfl⟩

theorem Answers.not_fails {a : Action σ α} {s t u : σ} {x : α} {e : Fault} (ha : Answers a s x t) :
    ¬ Fails a s e u := by
  rintro ⟨before, _, h⟩
  obtain ⟨_, ha⟩ := ha before
  rw [ha] at h
  cases h

theorem Answers.ends {a : Action σ α} {s t : σ} {x : α} (h : Answers a s x t) : Ends a s x t :=
  ⟨[], h []⟩

theorem Answers.bind {a : Action σ α} {f : α → Action σ β} {s r t : σ} {x : α} {y : β}
    (ha : Answers a s x r) (hf : Answers (f x) r y t) : Answers (a >>= f) s y t := by
  intro before
  obtain ⟨said, ha⟩ := ha before
  obtain ⟨after, hf⟩ := hf said
  refine ⟨after, ?_⟩
  rw [exec_bind, ha]
  exact hf

theorem Answers.discard {a : Action σ α} {s t : σ} {x : α} (h : Answers a s x t) :
    Answers (discard a) s ⟨⟩ t := by
  intro before
  obtain ⟨after, h⟩ := h before
  refine ⟨after, ?_⟩
  rw [exec_discard, h]
  rfl

theorem Answers.map {a : Action σ α} {f : α → β} {s t : σ} {x : α} (h : Answers a s x t) :
    Answers (f <$> a) s (f x) t := by
  intro before
  obtain ⟨after, h⟩ := h before
  refine ⟨after, ?_⟩
  rw [← bind_pure_comp, exec_bind, h]
  rfl

theorem answers_pure (x : α) (s : σ) : Answers (pure x : Action σ α) s x s := fun _ => ⟨_, rfl⟩

theorem answers_get (s : σ) : Answers get s s s := fun _ => ⟨_, rfl⟩

theorem answers_set (x s : σ) : Answers (set x) s () x := fun _ => ⟨_, rfl⟩

theorem answers_modify (f : σ → σ) (s : σ) : Answers (modify f) s () (f s) := fun _ => ⟨_, rfl⟩

theorem answers_debug (text : String) (s : σ) : Answers (debug text) s () s := fun _ => ⟨_, rfl⟩

/-- An operation on a part answers as it does when it is run on the part alone. -/
theorem answers_on_run {part : τ → σ} {put : τ → σ → τ} {a : Action σ α} {s : τ} {x : α}
    (h : (a.run (part s)).1 = .ok x) :
    Answers (on part put a) s x (put s (a.run (part s)).2.1) := by
  intro before
  refine ⟨before ++ (a.run (part s)).2.2, ?_⟩
  rw [exec_on, h]

theorem Answers.on {part : τ → σ} {put : τ → σ → τ} {a : Action σ α} {s : τ} {x : α} {p : σ}
    (ha : Answers a (part s) x p) : Answers (on part put a) s x (put s p) := by
  intro before
  obtain ⟨after, ha⟩ := ha []
  refine ⟨before ++ after, ?_⟩
  rw [exec_on, run_eq_exec, ha]

/-- What an operation on a part comes to is answered, be it a failure. -/
theorem answers_attempt_on (part : τ → σ) (put : τ → σ → τ) (a : Action σ α) (s : τ) :
    Answers (attempt (on part put a)) s (a.run (part s)).1 (put s (a.run (part s)).2.1) := by
  intro before
  refine ⟨before ++ (a.run (part s)).2.2, ?_⟩
  rw [exec_attempt, exec_on]

theorem Answers.run {a : Action σ α} {s t : σ} {x : α} (h : Answers a s x t) :
    (a.run s).1 = .ok x ∧ (a.run s).2.1 = t := by
  obtain ⟨after, h⟩ := h []
  rw [run_eq_exec, h]
  exact ⟨rfl, rfl⟩

theorem Answers.attempt_on {part : τ → σ} {put : τ → σ → τ} {a : Action σ α} {s : τ} {x : α}
    {p : σ} (h : Answers a (part s) x p) :
    Answers (attempt (Action.on part put a)) s (.ok x) (put s p) := by
  have ha := answers_attempt_on part put a s
  rwa [h.run.1, h.run.2] at ha

/-! ### Operations that leave a part of the state alone -/

section Spares

variable {γ : Type} {view : τ → γ}

/-- What is seen of the state stays the same, whether the operation answers or fails. -/
def Spares (view : τ → γ) (a : Action τ α) : Prop :=
  ∀ stage, view (exec a stage).2.state = view stage.state

theorem spares_pure (x : α) : Spares view (pure x : Action τ α) := fun _ => rfl

theorem spares_say (more : List Notice) : Spares view (say more : Action τ Unit) := fun _ => rfl

theorem spares_fail (f : Fault) : Spares view (fail f : Action τ α) := fun _ => rfl

theorem spares_ofExcept (r : Except Fault α) : Spares view (ofExcept r : Action τ α) :=
  fun stage => by rw [exec_ofExcept]

theorem spares_get : Spares view (get : Action τ τ) := fun _ => rfl

theorem spares_on (part : τ → σ) (put : τ → σ → τ) (a : Action σ α)
    (h : ∀ s p, view (put s p) = view s) : Spares view (on part put a) :=
  fun stage => by rw [exec_on]; exact h _ _

theorem Spares.bind {a : Action τ α} {f : α → Action τ β} (ha : Spares view a)
    (hf : ∀ x, Spares view (f x)) : Spares view (a >>= f) := by
  intro stage
  have hfirst := ha stage
  rw [exec_bind]
  cases h : exec a stage with
  | mk answer t =>
    rw [h] at hfirst
    cases answer with
    | error e => exact hfirst
    | ok x => exact (hf x t).trans hfirst

end Spares

/-! ### Operations that do not see a change -/

section Blind

variable {f : σ → σ}

/-- What `f` changes is not seen: with the change, and whatever was said before, the operation
answers the same, and leaves the same but for the change. -/
def Blind (f : σ → σ) (a : Action σ α) : Prop :=
  ∀ s before before', (exec a ⟨f s, before'⟩).1 = (exec a ⟨s, before⟩).1 ∧
    (exec a ⟨f s, before'⟩).2.state = f (exec a ⟨s, before⟩).2.state

theorem blind_pure (x : α) : Blind f (pure x : Action σ α) := fun _ _ _ => ⟨rfl, rfl⟩

theorem blind_fail (e : Fault) : Blind f (fail e : Action σ α) := fun _ _ _ => ⟨rfl, rfl⟩

theorem blind_debug (text : String) : Blind f (debug text : Action σ Unit) :=
  fun _ _ _ => ⟨rfl, rfl⟩

theorem blind_ofExcept (r : Except Fault α) : Blind f (ofExcept r : Action σ α) := fun _ _ _ => by
  rw [exec_ofExcept, exec_ofExcept]
  exact ⟨rfl, rfl⟩

/-- An operation on a part does not see a change of the part that it does not see there. -/
theorem Blind.on {part : τ → σ} {put : τ → σ → τ} {g : τ → τ} {a : Action σ α} (ha : Blind f a)
    (hpart : ∀ s, part (g s) = f (part s)) (hput : ∀ s x, put (g s) (f x) = g (put s x)) :
    Blind g (on part put a) := by
  intro s before before'
  obtain ⟨hanswer, hstate⟩ := ha (part s) [] []
  rw [exec_on, exec_on, run_eq_exec, run_eq_exec, hpart]
  exact ⟨hanswer, (congrArg (put (g s)) hstate).trans (hput _ _)⟩

/-- On a part, nothing that was said before counts. -/
theorem blind_on (part : τ → σ) (put : τ → σ → τ) (a : Action σ α) : Blind id (on part put a) :=
  fun _ _ _ => by rw [exec_on, exec_on]; exact ⟨rfl, rfl⟩

theorem blind_modify {g : σ → σ} (h : ∀ s, g (f s) = f (g s)) : Blind f (modify g) :=
  fun s _ _ => ⟨rfl, h s⟩

theorem Blind.bind {a : Action σ α} {g : α → Action σ β} (ha : Blind f a)
    (hg : ∀ x, Blind f (g x)) : Blind f (a >>= g) := by
  intro s before before'
  obtain ⟨hanswer, hstate⟩ := ha s before before'
  rw [exec_bind, exec_bind]
  cases hone : exec a ⟨s, before⟩ with
  | mk answer stage =>
    cases hother : exec a ⟨f s, before'⟩ with
    | mk answer' stage' =>
      rw [hone, hother] at hanswer hstate
      obtain rfl : answer' = answer := hanswer
      obtain ⟨t, said⟩ := stage'
      obtain rfl : t = f stage.state := hstate
      cases answer' with
      | error e => exact ⟨rfl, rfl⟩
      | ok x => exact hg x _ _ _

/-- What is asked of the state is asked of something that the change leaves alone. -/
theorem blind_get_bind {g : σ → Action σ β} (hsame : ∀ s, g (f s) = g s)
    (hg : ∀ s, Blind f (g s)) : Blind f (get >>= g) := by
  intro s before before'
  rw [exec_get_bind, exec_get_bind, hsame]
  exact hg s s before before'

theorem Blind.map {a : Action σ α} {g : α → β} (ha : Blind f a) : Blind f (g <$> a) := by
  rw [← bind_pure_comp]
  exact ha.bind fun x => blind_pure _

theorem Blind.discard {a : Action σ α} (ha : Blind f a) : Blind f (discard a) := ha.map

theorem blind_forIn {g : α → PUnit → Action σ (ForInStep PUnit)} (hg : ∀ x u, Blind f (g x u))
    (l : List α) (u : PUnit) : Blind f (forIn l u g) := by
  induction l generalizing u with
  | nil => exact blind_pure _
  | cons x rest ih =>
    rw [List.forIn_cons]
    refine (hg x u).bind fun next => ?_
    cases next with
    | done v => exact blind_pure v
    | yield v => exact ih v

/-- With the change, an operation that ends ends with the change. -/
theorem Blind.eq_of_ends {a : Action σ α} {s t u : σ} {x y : α} (ha : Blind f a)
    (h : Ends a s x t) (h' : Ends a (f s) y u) : y = x ∧ u = f t := by
  obtain ⟨before, _, h⟩ := h
  obtain ⟨before', _, h'⟩ := h'
  obtain ⟨hanswer, hstate⟩ := ha s before before'
  rw [h, h'] at hanswer hstate
  cases hanswer
  exact ⟨rfl, hstate⟩

end Blind

/-! ### Operations that fail in some ways only -/

section Guarded

variable {I : σ → Prop} {P : Fault → Prop}

/-- From a state of `I` the operation leaves one of `I`, and it fails only as `P` allows. -/
def Guarded (I : σ → Prop) (P : Fault → Prop) (a : Action σ α) : Prop :=
  ∀ stage, I stage.state → I (exec a stage).2.state ∧ ∀ e, (exec a stage).1 = .error e → P e

theorem guarded_pure (x : α) : Guarded I P (pure x : Action σ α) := fun _ h => ⟨h, nofun⟩

theorem guarded_modify {f : σ → σ} (h : ∀ s, I s → I (f s)) : Guarded I P (modify f) :=
  fun _ hs => ⟨h _ hs, nofun⟩

theorem guarded_debug (text : String) : Guarded I P (debug text : Action σ Unit) :=
  fun _ h => ⟨h, nofun⟩

theorem guarded_fail {e : Fault} (he : P e) : Guarded I P (fail e : Action σ α) :=
  fun _ h => ⟨h, fun _ heq => Except.error.inj heq ▸ he⟩

theorem guarded_ofExcept {r : Except Fault α} (h : ∀ e, r = .error e → P e) :
    Guarded I P (ofExcept r : Action σ α) := fun stage hs => by
  rw [exec_ofExcept]
  exact ⟨hs, h⟩

/-- What the first part answers may count for the second. -/
theorem Guarded.bind {a : Action σ α} {f : α → Action σ β} (ha : Guarded I P a)
    (hf : ∀ s x t, Ends a s x t → Guarded I P (f x)) : Guarded I P (a >>= f) := by
  intro stage hs
  obtain ⟨hkept, hfails⟩ := ha stage hs
  rw [exec_bind]
  cases h : exec a stage with
  | mk answer t =>
    rw [h] at hkept hfails
    cases answer with
    | error e => exact ⟨hkept, fun _ heq => hfails _ (congrArg Except.error (Except.error.inj heq))⟩
    | ok x => exact hf stage.state x t.state ⟨stage.notices, t.notices, h⟩ t hkept

theorem guarded_get_bind {f : σ → Action σ β} (hf : ∀ s, I s → Guarded I P (f s)) :
    Guarded I P (get >>= f) := by
  intro stage hs
  exact hf stage.state hs stage hs

theorem Guarded.map {a : Action σ α} {f : α → β} (ha : Guarded I P a) : Guarded I P (f <$> a) := by
  rw [← bind_pure_comp]
  exact ha.bind fun _ _ _ _ => guarded_pure _

theorem Guarded.discard {a : Action σ α} (ha : Guarded I P a) : Guarded I P (discard a) := ha.map

/-- An operation on a part is guarded as it is on the part alone. -/
theorem Guarded.on {J : τ → Prop} {part : τ → σ} {put : τ → σ → τ} {a : Action σ α}
    (ha : Guarded I P a) (hpart : ∀ s, J s → I (part s)) (hput : ∀ s p, J s → I p → J (put s p)) :
    Guarded J P (on part put a) := by
  intro stage hs
  obtain ⟨hkept, hfails⟩ := ha ⟨part stage.state, []⟩ (hpart _ hs)
  rw [exec_on]
  exact ⟨hput _ _ hs hkept, hfails⟩

theorem guarded_forIn {g : α → PUnit → Action σ (ForInStep PUnit)} {l : List α}
    (hg : ∀ x ∈ l, ∀ u, Guarded I P (g x u)) (u : PUnit) : Guarded I P (forIn l u g) := by
  induction l generalizing u with
  | nil => exact guarded_pure _
  | cons x rest ih =>
    rw [List.forall_mem_cons] at hg
    rw [List.forIn_cons]
    refine (hg.1 u).bind fun _ next _ _ => ?_
    cases next with
    | done v => exact guarded_pure v
    | yield v => exact ih hg.2 v

end Guarded

/-! ### Loops -/

/-- The rounds of a loop, each of which makes a step from one state to the next. -/
inductive Rounds (step : α → σ → σ → Prop) : List α → σ → σ → Prop
  | nil (s : σ) : Rounds step [] s s
  | cons {x : α} {rest : List α} {s r t : σ} :
      step x s r → Rounds step rest r t → Rounds step (x :: rest) s t

/-- A loop that ends has made its rounds, if every round that ends makes a step and goes on. -/
theorem ends_forIn {step : α → σ → σ → Prop} {g : α → PUnit → Action σ (ForInStep PUnit)}
    (hg : ∀ x u s next t, Ends (g x u) s next t → next = .yield ⟨⟩ ∧ step x s t) {l : List α}
    {u v : PUnit} {s t : σ} (h : Ends (forIn l u g) s v t) : Rounds step l s t := by
  induction l generalizing u s with
  | nil =>
    obtain ⟨-, rfl⟩ := ends_pure h
    exact .nil _
  | cons x rest ih =>
    rw [List.forIn_cons] at h
    obtain ⟨next, r, hround, hrest⟩ := ends_bind h
    obtain ⟨rfl, hstep⟩ := hg x u s next r hround
    exact .cons hstep (ih hrest)

/-- What every step keeps, the rounds keep. -/
theorem Rounds.keeps {step : α → σ → σ → Prop} {P : σ → Prop} {l : List α} {s t : σ}
    (h : Rounds step l s t) (hstep : ∀ x s t, step x s t → P s → P t) (hs : P s) : P t := by
  induction h with
  | nil => exact hs
  | cons hx _ ih => exact ih (hstep _ _ _ hx hs)

/-- A loop answers if every round does, from the states that the rounds keep to. -/
theorem answers_forIn {P : σ → Prop} {g : α → PUnit → Action σ (ForInStep PUnit)} {l : List α}
    (hg : ∀ x ∈ l, ∀ u s, P s → ∃ t, Answers (g x u) s (.yield ⟨⟩) t ∧ P t) {u : PUnit} {s : σ}
    (hs : P s) : ∃ t, Answers (forIn l u g) s ⟨⟩ t := by
  induction l generalizing u s with
  | nil => exact ⟨s, answers_pure _ s⟩
  | cons x rest ih =>
    rw [List.forall_mem_cons] at hg
    obtain ⟨r, hround, hr⟩ := hg.1 u s hs
    obtain ⟨t, hrest⟩ := ih hg.2 (u := ⟨⟩) hr
    refine ⟨t, ?_⟩
    rw [List.forIn_cons]
    exact hround.bind hrest

end MailRules.Action

import Mathlib.Data.Nat.Notation

/-! # Runs of a labelled transition function

`next s a` is the state after action `a`, or `none` when `a` cannot happen in `s`.
-/

namespace FalconLink.Run

variable {σ Λ : Type*}

/-- The state after a sequence of actions that can all happen in turn. -/
def run (next : σ → Λ → Option σ) : σ → List Λ → Option σ
  | s, [] => some s
  | s, a :: as => (next s a).bind fun t => run next t as

/-- Every action of the run satisfies `P` in the state in which it happens. -/
def Along (next : σ → Λ → Option σ) (P : σ → Λ → Prop) : σ → List Λ → Prop
  | _, [] => True
  | s, a :: as => P s a ∧ ∀ t, next s a = some t → Along next P t as

/-- Every state that the run reaches satisfies `G`. -/
def Always (next : σ → Λ → Option σ) (G : σ → Prop) : σ → List Λ → Prop
  | s, [] => G s
  | s, a :: as => G s ∧ ∀ t, next s a = some t → Always next G t as

variable {next : σ → Λ → Option σ} {P : σ → Λ → Prop}

/-- An action with a guard happens when the guard holds. -/
theorem of_guard {c : Prop} [Decidable c] {t u : σ}
    (h : (if c then some t else none) = some u) : c ∧ u = t := by
  obtain ⟨hc, heq⟩ := Option.ite_none_right_eq_some.mp h
  exact ⟨hc, (Option.some.inj heq).symm⟩

theorem along_cons {s t : σ} {a : Λ} (as : List Λ) (h : next s a = some t) :
    Along next P s (a :: as) ↔ P s a ∧ Along next P t as := by
  simp [Along, h]

theorem along_stuck {s : σ} {a : Λ} (as : List Λ) (h : next s a = none) :
    Along next P s (a :: as) ↔ P s a := by
  simp [Along, h]

instance decidableAlong [∀ s a, Decidable (P s a)] :
    (s : σ) → (as : List Λ) → Decidable (Along next P s as)
  | _, [] => isTrue trivial
  | s, a :: as =>
      match h : next s a with
      | none => decidable_of_iff _ (along_stuck as h).symm
      | some t =>
          have := decidableAlong t as
          decidable_of_iff _ (along_cons as h).symm

theorem run_cons {s t : σ} {a : Λ} (as : List Λ) (h : next s a = some t) :
    run next s (a :: as) = run next t as := by
  simp [run, h]

/-- A run that ends starts with an action that happens. -/
theorem exists_of_run_cons {s t : σ} {a : Λ} {as : List Λ} (h : run next s (a :: as) = some t) :
    ∃ u, next s a = some u ∧ run next u as = some t :=
  Option.bind_eq_some_iff.mp h

/-- The invariant rule: what every permitted action preserves holds after every run made of
permitted actions. -/
theorem invariant {I : σ → Prop} (step : ∀ s a t, I s → P s a → next s a = some t → I t)
    {s t : σ} {as : List Λ} (hs : I s) (hP : Along next P s as) (hrun : run next s as = some t) :
    I t := by
  induction as generalizing s with
  | nil =>
      obtain rfl := Option.some.inj hrun
      exact hs
  | cons a as ih =>
      obtain ⟨u, h, hrun⟩ := exists_of_run_cons hrun
      exact ih (step s a u hs hP.1 h) (hP.2 u h) hrun

/-- The invariant rule for runs without a condition on their actions. -/
theorem invariant' {I : σ → Prop} (step : ∀ s a t, I s → next s a = some t → I t)
    {s t : σ} {as : List Λ} (hs : I s) (hrun : run next s as = some t) : I t := by
  have halong : Along next (fun _ _ => True) s as := by
    clear hs hrun
    induction as generalizing s with
    | nil => trivial
    | cons a as ih => exact ⟨trivial, fun t _ => ih⟩
  exact invariant (P := fun _ _ => True) (fun s a t hI _ h => step s a t hI h) hs halong hrun

/-- A condition that does not look at the states. -/
theorem along_forall {Q : Λ → Prop} {s t : σ} {as : List Λ} (hrun : run next s as = some t) :
    Along next (fun _ a => Q a) s as ↔ ∀ a ∈ as, Q a := by
  induction as generalizing s with
  | nil => simp [Along]
  | cons a as ih =>
      obtain ⟨u, h, hrun⟩ := exists_of_run_cons hrun
      rw [along_cons as h, ih hrun, List.forall_mem_cons]

/-- A condition on the actions of a run gives another one with the help of an invariant. -/
theorem Along.imp {I : σ → Prop} {Q : σ → Λ → Prop}
    (keep : ∀ s a t, I s → P s a → next s a = some t → I t)
    (imp : ∀ s a t, I s → P s a → next s a = some t → Q s a) {s t : σ} {as : List Λ} (hs : I s)
    (hP : Along next P s as) (hrun : run next s as = some t) : Along next Q s as := by
  induction as generalizing s with
  | nil => trivial
  | cons a as ih =>
      obtain ⟨u, h, hrun⟩ := exists_of_run_cons hrun
      rw [along_cons as h] at hP ⊢
      exact ⟨imp s a u hs hP.1 h, ih (keep s a u hs hP.1 h) hP.2 hrun⟩

/-- When an action keeps `G` exactly if it satisfies `P`, a run keeps `G` exactly if all of its
actions do. -/
theorem along_iff {I G : σ → Prop}
    (step : ∀ s a t, I s → next s a = some t → I t ∧ (G t ↔ G s ∧ P s a)) {s t : σ} {as : List Λ}
    (hs : I s) (hrun : run next s as = some t) : G t ↔ G s ∧ Along next P s as := by
  induction as generalizing s with
  | nil =>
      obtain rfl := Option.some.inj hrun
      simp [Along]
  | cons a as ih =>
      obtain ⟨u, h, hrun⟩ := exists_of_run_cons hrun
      rcases step s a u hs h with ⟨hu, hstep⟩
      rw [along_cons as h, ih hu hrun, hstep, and_assoc]

theorem Always.head {G : σ → Prop} {s : σ} {as : List Λ} (h : Always next G s as) : G s := by
  cases as with
  | nil => exact h
  | cons a as => exact h.1

theorem Always.last {G : σ → Prop} {s t : σ} {as : List Λ} (h : Always next G s as)
    (hrun : run next s as = some t) : G t := by
  induction as generalizing s with
  | nil =>
      obtain rfl := Option.some.inj hrun
      exact h
  | cons a as ih =>
      obtain ⟨u, hnext, hrun⟩ := exists_of_run_cons hrun
      exact ih (h.2 u hnext) hrun

/-- When permitted actions keep an invariant that implies `G`, and only they lead to states with
`G`, a run stays in `G` exactly if all of its actions are permitted. -/
theorem always_iff {I G : σ → Prop} (hG : ∀ s, I s → G s)
    (keep : ∀ s a t, I s → P s a → next s a = some t → I t)
    (only : ∀ s a t, I s → next s a = some t → G t → P s a) {s t : σ} {as : List Λ}
    (hs : I s) (hrun : run next s as = some t) : Always next G s as ↔ Along next P s as := by
  induction as generalizing s with
  | nil => simp [Always, Along, hG s hs]
  | cons a as ih =>
      obtain ⟨u, h, hrun⟩ := exists_of_run_cons hrun
      rw [along_cons as h]
      constructor
      · intro halways
        have hrest := halways.2 u h
        have hP := only s a u hs h hrest.head
        exact ⟨hP, (ih (keep s a u hs hP h) hrun).mp hrest⟩
      · intro halong
        refine ⟨hG s hs, fun v hv => ?_⟩
        obtain rfl := Option.some.inj (h.symm.trans hv)
        exact (ih (keep s a u hs halong.1 h) hrun).mpr halong.2

/-- When every permitted action lowers a rank, a run is no longer than the rank at its start. -/
theorem length_le {I : σ → Prop} {rank : σ → ℕ}
    (lower : ∀ s a t, I s → P s a → next s a = some t → I t ∧ rank t < rank s) {s t : σ}
    {as : List Λ} (hs : I s) (hP : Along next P s as) (hrun : run next s as = some t) :
    as.length ≤ rank s := by
  induction as generalizing s with
  | nil => exact Nat.zero_le _
  | cons a as ih =>
      obtain ⟨u, h, hrun⟩ := exists_of_run_cons hrun
      rcases lower s a u hs hP.1 h with ⟨hu, hlower⟩
      have hrest := ih hu (hP.2 u h) hrun
      rw [List.length_cons]
      omega

/-! ## What a run leaves behind -/

/-- What the actions of a run produce, one after the other. -/
def collect {β : Type*} (next : σ → Λ → Option σ) (produce : σ → Λ → List β) : σ → List Λ → List β
  | _, [] => []
  | s, a :: as => produce s a ++ ((next s a).map fun t => collect next produce t as).getD []

/-- The invariant rule for the state together with what has been produced so far. -/
theorem collect_invariant {β : Type*} {produce : σ → Λ → List β} {I : σ → List β → Prop}
    (step : ∀ s a t bs, I s bs → P s a → next s a = some t → I t (bs ++ produce s a)) {s t : σ}
    {as : List Λ} {bs : List β} (hs : I s bs) (hP : Along next P s as)
    (hrun : run next s as = some t) : I t (bs ++ collect next produce s as) := by
  induction as generalizing s bs with
  | nil =>
      obtain rfl := Option.some.inj hrun
      simpa [collect] using hs
  | cons a as ih =>
      obtain ⟨u, h, hrun⟩ := exists_of_run_cons hrun
      have hrest := ih (step s a u bs hs hP.1 h) (hP.2 u h) hrun
      simpa [collect, h] using hrest

end FalconLink.Run

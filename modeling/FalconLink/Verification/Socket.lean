import FalconLink.Model.Socket

/-! # Ownership of descriptors -/

namespace FalconLink.Sockets

/-- Every descriptor that a `Socket` holds is open and held by no other one, and nothing was
closed that was not open. -/
structure Owned (w : World) : Prop where
  held_open : ∀ self fd, w.sockfd self = some fd → fd ≠ -1 → fd ∈ w.opened
  exclusive : ∀ self other fd, w.sockfd self = some fd → w.sockfd other = some fd → fd ≠ -1 →
    self = other
  strayCloses : w.strayCloses = 0

/-- A move assignment is permitted on a `Socket` that holds nothing. -/
def AssignsToEmpty (w : World) : Op → Prop
  | .moveAssign self _ => w.sockfd self = some (-1)
  | _ => True

instance (w : World) (op : Op) : Decidable (AssignsToEmpty w op) := by
  cases op <;> unfold AssignsToEmpty <;> infer_instance

variable {w : World} {self rhs : SocketId} {fd : ℤ}

theorem owned_init (opened : List ℤ) : Owned (World.init opened) where
  held_open _ _ h := by cases h
  exclusive _ _ _ h := by cases h
  strayCloses := rfl

/-! ## The operations -/

/-- A descriptor that was just opened has one holder. -/
theorem Owned.openFd (h : Owned w) (hfree : w.Free fd) :
    Owned ((w.openFd fd).setSockfd self (some fd)) where
  held_open other held hheld hvalid := by
    by_cases hother : other = self
    · subst hother
      have : fd = held := by simpa [World.setSockfd] using hheld
      simp [World.setSockfd, World.openFd, this]
    · have hold : w.sockfd other = some held := by
        simpa [World.setSockfd, World.openFd, hother] using hheld
      exact List.mem_cons_of_mem fd (h.held_open other held hold hvalid)
  exclusive a b held ha hb hvalid := by
    have hnot := fun other => mt (h.held_open other fd · (by have := hfree.1; omega)) hfree.2
    have := h.exclusive a b held
    simp only [World.setSockfd, World.openFd, Function.update_apply] at ha hb
    grind
  strayCloses := h.strayCloses

/-- A descriptor that is moved has one holder again. -/
theorem Owned.move (h : Owned w) (hrhs : w.sockfd rhs = some fd) :
    Owned ((w.setSockfd self (some fd)).setSockfd rhs (some (-1))) where
  held_open other held hheld hvalid := by
    have := h.held_open other held
    have := h.held_open rhs fd hrhs
    simp only [World.setSockfd, Function.update_apply] at hheld ⊢
    grind
  exclusive a b held ha hb hvalid := by
    have := h.exclusive a b held
    have := h.exclusive a rhs held
    have := h.exclusive b rhs held
    simp only [World.setSockfd, Function.update_apply] at ha hb
    grind
  strayCloses := h.strayCloses

/-- The only holder of a descriptor can close it when it lets go of it. -/
theorem Owned.destroy (h : Owned w) (hself : w.sockfd self = some fd) :
    Owned ((if fd ≠ -1 then w.close fd else w).setSockfd self none) := by
  by_cases hvalid : fd ≠ -1
  · rw [if_pos hvalid, World.close, if_pos (h.held_open self fd hself hvalid)]
    constructor
    · intro other held hheld hne
      have := h.held_open other held
      have := h.exclusive other self fd
      simp only [World.setSockfd, Function.update_apply, List.mem_filter, decide_eq_true_eq]
        at hheld ⊢
      grind
    · intro a b held ha hb hne
      have := h.exclusive a b held
      simp only [World.setSockfd, Function.update_apply] at ha hb
      grind
    · exact h.strayCloses
  · rw [if_neg hvalid]
    constructor
    · intro other held hheld hne
      have := h.held_open other held
      simp only [World.setSockfd, Function.update_apply] at hheld ⊢
      grind
    · intro a b held ha hb hne
      have := h.exclusive a b held
      simp only [World.setSockfd, Function.update_apply] at ha hb
      grind
    · exact h.strayCloses

/-- The assignment closes the old descriptor of `self` and leaves its number in `rhs`. -/
theorem not_owned_moveAssign {w' : World} (h : Owned w) (hself : w.sockfd self = some fd)
    (hvalid : fd ≠ -1) (hassign : w.moveAssign self rhs = some w') : ¬Owned w' := by
  intro hafter
  cases hrhs : w.sockfd rhs with
  | none => simp [World.moveAssign, hself, hrhs] at hassign
  | some rhsSockfd =>
      have hclose : w.close fd = { w with opened := w.opened.filter (· ≠ fd) } :=
        if_pos (h.held_open self fd hself hvalid)
      simp only [World.moveAssign, hself, hrhs, ne_eq, hvalid, not_false_eq_true, if_true, hclose,
        Option.some.injEq] at hassign
      have hheld : w'.sockfd rhs = some fd := by simp [← hassign, World.setSockfd]
      have hopen := hafter.held_open rhs fd hheld hvalid
      simp [← hassign, World.setSockfd] at hopen

theorem Owned.next {w' : World} {op : Op} (h : Owned w) (hop : AssignsToEmpty w op)
    (hnext : next w op = some w') : Owned w' := by
  cases op with
  | construct self result =>
      simp only [Sockets.next, World.construct] at hnext
      split at hnext
      · split at hnext
        · exact Option.some.inj hnext ▸ h
        · split at hnext
          next hfree => exact Option.some.inj hnext ▸ h.openFd hfree
          next => cases hnext
      · cases hnext
  | wrap self fd =>
      simp only [Sockets.next, World.wrap] at hnext
      split at hnext
      · split at hnext
        next hfree => exact Option.some.inj hnext ▸ h.openFd hfree
        next => cases hnext
      · cases hnext
  | moveConstruct self rhs =>
      simp only [Sockets.next] at hnext
      split at hnext
      · obtain ⟨fd, hrhs, rfl⟩ := Option.map_eq_some_iff.mp hnext
        exact h.move hrhs
      · cases hnext
  | moveAssign self rhs =>
      simp only [AssignsToEmpty] at hop
      simp only [Sockets.next] at hnext
      split at hnext
      · cases hrhs : w.sockfd rhs with
        | none => simp [World.moveAssign, hop, hrhs] at hnext
        | some fd =>
            simp only [World.moveAssign, hop, hrhs, ne_eq, not_true_eq_false, if_false] at hnext
            exact Option.some.inj hnext ▸ h.move hrhs
      · cases hnext
  | destroy self =>
      obtain ⟨fd, hself, rfl⟩ := Option.map_eq_some_iff.mp hnext
      exact h.destroy hself

theorem assignsToEmpty_of_owned {w' : World} {op : Op} (h : Owned w)
    (hnext : next w op = some w') (hafter : Owned w') : AssignsToEmpty w op := by
  cases op with
  | moveAssign self rhs =>
      simp only [Sockets.next] at hnext
      split at hnext
      · cases hself : w.sockfd self with
        | none => simp [World.moveAssign, hself] at hnext
        | some fd =>
            by_contra hnot
            have hvalid : fd ≠ -1 := by
              rintro rfl
              exact hnot hself
            exact not_owned_moveAssign h hself hvalid hnext hafter
      · cases hnext
  | _ => trivial

/-! ## Runs -/

/-- Descriptors have one owner in all states of a run exactly when every assignment of the run
is to a `Socket` that holds nothing. -/
theorem always_owned_iff {opened : List ℤ} {ops : List Op}
    (hrun : Run.run next (World.init opened) ops = some w) :
    Run.Always next Owned (World.init opened) ops ↔
      Run.Along next AssignsToEmpty (World.init opened) ops := by
  refine Run.always_iff (fun _ h => h) ?_ ?_ (owned_init opened) hrun
  · intro w op w' h hop hnext
    exact h.next hop hnext
  · intro w op w' h hnext hafter
    exact assignsToEmpty_of_owned h hnext hafter

theorem always_owned_moves :
    Run.Always next Owned (World.init [0])
      [.construct 0 3, .moveConstruct 1 0, .wrap 2 4, .moveAssign 0 2, .destroy 1, .destroy 0] := by
  have hsome : (Run.run next (World.init [0])
      [.construct 0 3, .moveConstruct 1 0, .wrap 2 4, .moveAssign 0 2, .destroy 1,
        .destroy 0]).isSome := by decide
  exact (always_owned_iff (Option.some_get hsome).symm).mpr (by decide +kernel)

/-- The assignment closes 3 and leaves it in the second object, whose destructor then closes
the third object's descriptor. -/
theorem moveAssign_strayCloses :
    ¬∀ opened ops w, Run.run next (World.init opened) ops = some w → Owned w := by
  intro h
  have hsome : (Run.run next (World.init [])
      [.construct 0 3, .construct 1 4, .moveAssign 0 1, .construct 2 3, .destroy 1,
        .destroy 2]).isSome := by decide
  have hstray : (Run.run next (World.init [])
      [.construct 0 3, .construct 1 4, .moveAssign 0 1, .construct 2 3, .destroy 1,
        .destroy 2]).map World.strayCloses = some 1 := by decide
  have howned := h [] _ _ (Option.some_get hsome).symm
  rw [← Option.some_get hsome, Option.map_some, howned.strayCloses] at hstray
  exact absurd hstray (by decide)

end FalconLink.Sockets

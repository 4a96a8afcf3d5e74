import FalconLink.Verification.EventLoop.Draining

/-! # Echoes

The server sends back to each client what has arrived from it. Between a client and the server no
byte is lost, repeated, reordered or given to another client.
-/

namespace FalconLink.Echo

open EventLoop

variable {C : Type} [DecidableEq C] {pollSize : ℕ}

/-! ## The callback -/

/-- What a callback on a connection with empty buffers does when no `::send` fails. -/
inductive Handled (user : User C) (conn : C) (results : List RecvResult) : User C × Bool → Prop where
  | exit (connection : Connection) (hending : ending results = some true) :
      Handled user conn results (user.set conn connection [], true)
  | echo (hending : ending results = some false) :
      Handled user conn results (user.set conn .empty (received results), false)

theorem handled {conn : C} {results : List RecvResult} {sends : List SendResult} {user : User C}
    {out : User C × Bool} (hempty : user.conns conn = .empty) (hsends : .failed ∉ sends)
    (h : handle conn results sends user = some out) : Handled user conn results out := by
  rw [handle, hempty, Connection.recv_eq] at h
  cases hending : ending results with
  | none =>
      rw [hending] at h
      cases h
  | some exit =>
      rw [hending] at h
      cases exit with
      | true =>
          obtain rfl := Option.some.inj h
          exact .exit _ hending
      | false =>
          simp only [Option.map_some, Bool.false_eq_true, if_false, Nat.zero_add] at h
          split at h
          · split at h
            · rename_i hreturned
              obtain rfl := Option.some.inj h
              obtain ⟨haccepted, hconn⟩ := Connection.send_complete hreturned hsends
              rw [haccepted, hconn]
              exact .echo hending
            · cases h
          · rename_i hnone
            obtain rfl := Option.some.inj h
            have hnil : received results = [] := List.eq_nil_of_length_eq_zero (not_not.mp hnone)
            rw [hnil]
            have hecho := @Handled.echo C _ user conn results hending
            rwa [hnil] at hecho

/-- The callback of a connection leaves the other ones alone. -/
theorem handle_other {conn other : C} {results : List RecvResult} {sends : List SendResult}
    {user : User C} {out : User C × Bool} (hne : other ≠ conn)
    (h : handle conn results sends user = some out) :
    out.1.conns other = user.conns other ∧ out.1.accepted other = user.accepted other := by
  have hset : ∀ connection accepted, (user.set conn connection accepted).conns other =
      user.conns other ∧ (user.set conn connection accepted).accepted other =
        user.accepted other :=
    fun _ _ => ⟨Function.update_of_ne hne .., Function.update_of_ne hne ..⟩
  rw [handle] at h
  split at h
  · cases h
  · split at h
    · exact (Option.some.inj h) ▸ hset _ _
    · split at h
      · dsimp only at h
        split at h
        · exact (Option.some.inj h) ▸ hset _ _
        · cases h
      · exact (Option.some.inj h) ▸ hset _ _

/-! ## The server -/

/-- The bytes that the callbacks of a connection have read, without those of a callback that has
found the end of the stream. -/
def given (s : EventLoop.State C (User C)) (conn : C) : Bytes :=
  ((s.calls conn).filter fun results => ending results = some false).flatMap received

/-- What is known of a connection. -/
structure EchoInv (s : EventLoop.State C (User C)) (conn : C) : Prop where
  empty : s.status conn ≠ .deleted → s.user.conns conn = .empty
  accepted : s.user.accepted conn = given s conn
  arrived : s.user.accepted conn <+: s.arrived conn

section

variable {s s' : EventLoop.State C (User C)} {event : Event C} {conn : C}

theorem given_of_live (hinv : Inv s) (hlive : s.status conn ≠ .deleted) :
    given s conn = (s.calls conn).flatMap received := by
  rw [given, List.filter_eq_self.mpr]
  intro results hmem
  exact decide_eq_true (hinv.returned conn hlive results hmem)

omit [DecidableEq C] in
/-- A step that leaves the connection as it is. -/
theorem EchoInv.other (h : EchoInv s conn) (hconn : s'.user.conns conn = s.user.conns conn)
    (haccepted : s'.user.accepted conn = s.user.accepted conn)
    (hcalls : s'.calls conn = s.calls conn)
    (hstatus : s'.status conn = .deleted ↔ s.status conn = .deleted)
    (harrived : s.arrived conn <+: s'.arrived conn) : EchoInv s' conn where
  empty hlive := hconn.trans (h.empty (hstatus.not.mp hlive))
  accepted := by
    rw [haccepted, given, hcalls]
    exact h.accepted
  arrived := haccepted ▸ h.arrived.trans harrived

/-- A callback adds to the bytes given what it has read, unless it has found an exit. -/
theorem given_returned {results : List RecvResult} {sends : List SendResult} {deleted : Bool}
    (h : Returned (callback C) s s' conn results sends deleted) :
    given s' conn = given s conn ++
      if ending results = some false then received results else [] := by
  rw [given, given, h.calls, Function.update_self, List.filter_append, List.flatMap_append]
  by_cases hending : ending results = some false <;> simp [hending]

/-- A callback has read everything, and sends it back. -/
theorem EchoInv.echoed (h : EchoInv s conn) (hinv : Inv s) (hinv' : Inv s')
    {results : List RecvResult} {sends : List SendResult} {deleted : Bool}
    (hreturned : Returned (callback C) s s' conn results sends deleted)
    (huser : s'.user = s.user.set conn .empty (received results))
    (hending : ending results = some false) (hkept : deleted = false) : EchoInv s' conn := by
  have hadded := (hinv.running conn results (by rw [hreturned.phase]; rfl)).1
  have hlive : s'.status conn ≠ .deleted := by
    rw [hreturned.status, hkept]
    simp [hadded]
  have haccepted : s'.user.accepted conn = given s' conn := by
    rw [huser, given_returned hreturned, if_pos hending, ← h.accepted]
    exact Function.update_self ..
  refine ⟨fun _ => ?_, haccepted, ?_⟩
  · rw [huser]
    exact Function.update_self ..
  · rw [haccepted, given_of_live hinv' hlive, hinv'.conserved conn]
    exact List.prefix_append _ _

/-- A callback has found the end of the stream. -/
theorem EchoInv.exited (h : EchoInv s conn) {results : List RecvResult} {sends : List SendResult}
    {deleted : Bool} (hreturned : Returned (callback C) s s' conn results sends deleted)
    (harrived : s.arrived conn <+: s'.arrived conn) {connection : Connection}
    (huser : s'.user = s.user.set conn connection []) (hending : ending results = some true)
    (hdeleted : deleted = true) : EchoInv s' conn := by
  have hstatus : s'.status conn = .deleted := by
    rw [hreturned.status, hdeleted]
    exact Function.update_self ..
  have hsame : s'.user.accepted conn = s.user.accepted conn := by
    rw [huser, User.set]
    simp
  refine ⟨fun hlive => absurd hstatus hlive, ?_, ?_⟩
  · rw [hsame, h.accepted, given_returned hreturned]
    simp [hending]
  · rw [hsame]
    exact h.arrived.trans harrived

theorem EchoInv.step (h : EchoInv s conn) (hinv : Inv s) (hsends : Sends conn s event)
    (hstep : Step pollSize (callback C) s event s') : EchoInv s' conn := by
  have hinv' := hinv.step hstep
  have harrived := hstep.arrived_grows conn
  rcases hstep.returned_or with
    ⟨conn', results, sends, deleted, rfl, hreturned⟩ | ⟨huser, hcalls, hstatus⟩
  · by_cases heq : conn = conn'
    · subst heq
      have hadded := (hinv.running conn results (by rw [hreturned.phase]; rfl)).1
      have hempty := h.empty (by rw [hadded]; decide)
      have hcases := handled hempty (hreturned.sends hsends) hreturned.run
      generalize hout : (s'.user, deleted) = out at hcases
      cases hcases with
      | exit connection hending =>
          obtain ⟨huser, hdeleted⟩ := Prod.mk.inj hout
          exact h.exited hreturned harrived huser hending hdeleted
      | echo hending =>
          obtain ⟨huser, hkept⟩ := Prod.mk.inj hout
          exact h.echoed hinv hinv' hreturned huser hending hkept
    · obtain ⟨hcalls, hstatus⟩ := hreturned.frame heq
      obtain ⟨hconn, haccepted⟩ := handle_other heq hreturned.run
      exact h.other hconn haccepted hcalls (by rw [hstatus]) harrived
  · exact h.other (by rw [huser]) (by rw [huser]) (by rw [hcalls]) (hstatus conn) harrived

end

omit [DecidableEq C] in
theorem echoInv_initial (conn : C) : EchoInv (EventLoop.initial C (User.initial C)) conn :=
  ⟨fun _ => rfl, rfl, List.prefix_rfl⟩

/-- On a connection whose `send`s do not fail for good, the server has sent what its callbacks have
read there, and nothing of what a callback has read together with the end of the stream. When the
loop waits, this is all that has arrived. -/
theorem echoes_arrivals (hsize : 0 < pollSize) {events : List (Event C)}
    {s : EventLoop.State C (User C)} (conn : C)
    (hsends : Run.Along (EventLoop.next pollSize (callback C)) (Sends conn)
      (EventLoop.initial C (User.initial C)) events)
    (hrun : Run.run (EventLoop.next pollSize (callback C))
      (EventLoop.initial C (User.initial C)) events = some s) :
    s.user.accepted conn = given s conn ∧ s.user.accepted conn <+: s.arrived conn ∧
      (Waits pollSize s → s.status conn = .added → s.user.accepted conn = s.arrived conn) := by
  have hboth : Inv s ∧ EchoInv s conn :=
    Run.invariant (I := fun s => Inv s ∧ EchoInv s conn)
      (fun s event t h hsends hnext =>
        ⟨h.1.step (.of_next hnext), h.2.step h.1 hsends (.of_next hnext)⟩)
      ⟨inv_initial C _, echoInv_initial conn⟩ hsends hrun
  refine ⟨hboth.2.accepted, hboth.2.arrived, fun hwaits hadded => ?_⟩
  rw [hboth.2.accepted, given_of_live hboth.1 (by rw [hadded]; decide)]
  exact (hboth.1.drained hsize hwaits hadded).2

theorem echoes_arrivals_abc :
    ∃ s, Run.run (EventLoop.next 1 (callback Bool)) (EventLoop.initial Bool (User.initial Bool))
        arrivals = some s ∧ s.user.accepted true = ascii "abc" :=
  have hrun := rfl
  ⟨_, hrun, (@echoes_arrivals Bool _ 1 (by decide) arrivals _ true (by decide) hrun).2.2 rfl rfl⟩

end FalconLink.Echo

import FalconLink.Verification.Echo.Server

/-! # Clients and the echo server -/

namespace FalconLink.Echo

open EventLoop

variable {C : Type} [DecidableEq C] {pollSize : ℕ} {s s' : System C} {event : SystemEvent C} {conn : C}

/-- In the event, no `::send` of the server on the connection fails for good. -/
def ServerSends (conn : C) (s : System C) : SystemEvent C → Prop
  | .server event => Sends conn s.server event
  | _ => True

instance (conn : C) (s : System C) : (event : SystemEvent C) → Decidable (ServerSends conn s event)
  | .server event => inferInstanceAs (Decidable (Sends conn s.server event))
  | .read _ _ => isTrue trivial
  | .send _ _ => isTrue trivial
  | .recv _ _ => isTrue trivial
  | .write _ _ => isTrue trivial
  | .kill _ => isTrue trivial

/-- What has arrived at the server and has not been sent back. -/
def System.unechoed (s : System C) (conn : C) : Bytes :=
  (s.server.arrived conn).drop (s.server.user.accepted conn).length

structure SystemInv (s : System C) (conn : C) : Prop where
  server : Inv s.server
  echo : EchoInv s.server conn
  sent : s.server.arrived conn <+: s.sent conn
  received : s.received conn <+: s.server.user.accepted conn
  waiting : ∀ n, s.clients conn = .receiving n →
    (s.received conn).length + n ≤ (s.sent conn).length

theorem systemInv_initial (conn : C) : SystemInv (System.initial C) conn where
  server := inv_initial C _
  echo := echoInv_initial conn
  sent := List.prefix_rfl
  received := List.prefix_rfl
  waiting _ h := by cases h

/-- What a client has received it has sent before. -/
theorem SystemInv.received_sent (h : SystemInv s conn) : s.received conn <+: s.sent conn :=
  h.received.trans (h.echo.arrived.trans h.sent)

theorem SystemInv.conserved (h : SystemInv s conn) : s.sent conn =
    s.received conn ++ s.toClient conn ++ s.unechoed conn ++ s.toServer conn := by
  have hclient := List.prefix_iff_eq_append.mp h.received
  have hserver := List.prefix_iff_eq_append.mp h.echo.arrived
  have hsent := List.prefix_iff_eq_append.mp h.sent
  rw [System.toClient, System.unechoed, System.toServer, hclient, hserver, hsent]

/-! ## Steps -/

theorem drop_append_take {whole front : Bytes} (h : front <+: whole) (count : ℕ) :
    front ++ (whole.drop front.length).take count <+: whole := by
  obtain ⟨back, rfl⟩ := h
  rw [List.drop_left]
  exact (List.prefix_append_right_inj front).mpr (List.take_prefix count back)

theorem EchoInv.accepted_grows {s s' : EventLoop.State C (User C)} {event : Event C}
    (h : EchoInv s conn) (hinv : Inv s) (hsends : Sends conn s event)
    (hstep : Step pollSize (callback C) s event s') :
    s.user.accepted conn <+: s'.user.accepted conn := by
  have hafter := h.step hinv hsends hstep
  rw [h.accepted, hafter.accepted]
  rcases hstep.returned_or with ⟨conn', _, _, _, -, hreturned⟩ | ⟨-, hcalls, -⟩
  · by_cases heq : conn = conn'
    · subst heq
      rw [given_returned hreturned]
      exact List.prefix_append _ _
    · rw [given, given, (hreturned.frame heq).1]
  · rw [given, given, hcalls]

/-- What a step of the server sees of a client's bytes, the client has sent. -/
theorem arrived_sent {t : EventLoop.State C (User C)} {event : Event C}
    (hsent : s.server.arrived conn <+: s.sent conn) (hdelivers : s.Delivers event)
    (hstep : Step pollSize (callback C) s.server event t) : t.arrived conn <+: s.sent conn := by
  cases hstep with
  | @arrive conn' bytes =>
      rw [notify_arrived]
      change Function.update s.server.arrived conn' (s.server.arrived conn' ++ bytes) conn <+: _
      by_cases heq : conn = conn'
      · subst heq
        rw [Function.update_self]
        obtain ⟨later, hlater⟩ : bytes <+: s.toServer conn := hdelivers
        refine ⟨later, ?_⟩
        rw [List.append_assoc, hlater]
        exact List.prefix_iff_eq_append.mp hsent
      · rw [Function.update_of_ne heq]
        exact hsent
  | finish => simpa [setSocket] using hsent
  | addConnection =>
      simp only [EventLoop.addConnection]
      split <;> simpa using hsent
  | poll | invoke | recvOn | recvLast | keep | delete => exact hsent

/-- Another client takes a step. -/
theorem SystemInv.other (h : SystemInv s conn) (hserver : s'.server = s.server)
    (hclients : s'.clients conn = s.clients conn) (hsent : s'.sent conn = s.sent conn)
    (hreceived : s'.received conn = s.received conn) : SystemInv s' conn where
  server := hserver ▸ h.server
  echo := hserver ▸ h.echo
  sent := by
    rw [hserver, hsent]
    exact h.sent
  received := by
    rw [hserver, hreceived]
    exact h.received
  waiting n hn := by
    rw [hreceived, hsent]
    exact h.waiting n (hclients ▸ hn)

/-- The client is not in `recv` after the step. -/
theorem SystemInv.setClient (h : SystemInv s conn) {client : Client}
    (hclient : ∀ n, client ≠ .receiving n) : SystemInv (s.setClient conn client) conn :=
  { h with waiting := fun n hn => absurd ((Function.update_self ..).symm.trans hn) (hclient n) }

theorem SystemInv.step (h : SystemInv s conn) (hsends : ServerSends conn s event)
    (hnext : System.next pollSize s event = some s') : SystemInv s' conn := by
  cases event with
  | server event =>
      rw [System.next] at hnext
      split at hnext
      · rename_i hdelivers
        obtain ⟨t, hserver, rfl⟩ := Option.map_eq_some_iff.mp hnext
        have hstep := Step.of_next hserver
        exact { h with
          server := h.server.step hstep
          echo := h.echo.step h.server hsends hstep
          sent := arrived_sent (s := s) h.sent hdelivers hstep
          received := h.received.trans (h.echo.accepted_grows h.server hsends hstep) }
      · cases hnext
  | read conn' buf =>
      rw [System.next] at hnext
      split at hnext
      · obtain ⟨-, rfl⟩ := Run.of_guard hnext
        by_cases heq : conn = conn'
        · subst heq
          have hset : SystemInv (s.setClient conn (.sending buf)) conn := h.setClient (by simp)
          exact { hset with }
        · exact h.other rfl (Function.update_of_ne heq ..) rfl rfl
      · cases hnext
  | send conn' count =>
      rw [System.next] at hnext
      split at hnext
      · rename_i buf hclient
        obtain ⟨hcount, rfl⟩ := Run.of_guard hnext
        by_cases heq : conn = conn'
        · subst heq
          refine { h with sent := ?_, waiting := fun n hn => ?_ }
          · change _ <+: Function.update s.sent conn (s.sent conn ++ buf.take count) conn
            rw [Function.update_self]
            exact h.sent.trans (List.prefix_append _ _)
          · obtain rfl := Client.receiving.inj ((Function.update_self ..).symm.trans hn)
            have hle := h.received_sent.length_le
            change _ ≤ (Function.update s.sent conn (s.sent conn ++ buf.take count) conn).length
            rw [Function.update_self, List.length_append, List.length_take_of_le hcount]
            exact Nat.add_le_add_right hle count
        · exact h.other rfl (Function.update_of_ne heq ..) (Function.update_of_ne heq ..) rfl
      · cases hnext
  | recv conn' count =>
      rw [System.next] at hnext
      split at hnext
      · obtain ⟨-, rfl⟩ := Run.of_guard hnext
        by_cases heq : conn = conn'
        · subst heq
          have hset : SystemInv (s.setClient conn (.writing ((s.toClient conn).take count))) conn :=
            h.setClient (by simp)
          refine { hset with
            received := ?_
            waiting := fun n hn => by cases (Function.update_self ..).symm.trans hn }
          change Function.update s.received conn _ conn <+: _
          rw [Function.update_self]
          exact drop_append_take h.received count
        · exact h.other rfl (Function.update_of_ne heq ..) rfl (Function.update_of_ne heq ..)
      · cases hnext
  | write conn' count =>
      rw [System.next] at hnext
      split at hnext
      · obtain ⟨-, rfl⟩ := Run.of_guard hnext
        by_cases heq : conn = conn'
        · subst heq
          have hset : SystemInv (s.setClient conn .reading) conn := h.setClient (by simp)
          exact { hset with }
        · exact h.other rfl (Function.update_of_ne heq ..) rfl rfl
      · cases hnext
  | kill conn' =>
      obtain rfl := Option.some.inj hnext
      by_cases heq : conn = conn'
      · subst heq
        exact h.setClient (by simp)
      · exact h.other rfl (Function.update_of_ne heq ..) rfl rfl

theorem systemInv_run {events : List (SystemEvent C)}
    (hsends : Run.Along (System.next pollSize) (ServerSends conn) (System.initial C) events)
    (hrun : Run.run (System.next pollSize) (System.initial C) events = some s) : SystemInv s conn :=
  Run.invariant (I := fun s => SystemInv s conn)
    (fun _ _ _ h hsends hnext => h.step hsends hnext) (systemInv_initial conn) hsends hrun

/-- When the server waits, an added connection has no echo to come. -/
theorem SystemInv.unechoed (h : SystemInv s conn) (hsize : 0 < pollSize)
    (hwaits : Waits pollSize s.server) (hadded : s.server.status conn = .added) :
    s.unechoed conn = [] := by
  have hechoed : s.server.user.accepted conn = s.server.arrived conn := by
    rw [h.echo.accepted, given_of_live h.server (by rw [hadded]; decide)]
    exact (h.server.drained hsize hwaits hadded).2
  rw [System.unechoed, hechoed, List.drop_length]

/-- What a client has sent is what it has received, followed by what is on its way back, by what
the server has not echoed and by what is on its way to the server, as long as no `::send` of the
server to this client fails for good. When the server waits, has added the connection, and nothing
is on its way, a client that waits for an echo has everything back, and has just sent nothing. -/
theorem conversation (hsize : 0 < pollSize) {events : List (SystemEvent C)} (conn : C)
    (hsends : Run.Along (System.next pollSize) (ServerSends conn) (System.initial C) events)
    (hrun : Run.run (System.next pollSize) (System.initial C) events = some s) :
    s.sent conn = s.received conn ++ s.toClient conn ++ s.unechoed conn ++ s.toServer conn ∧
      (Waits pollSize s.server → s.server.status conn = .added →
        s.unechoed conn = [] ∧
        ∀ n, s.clients conn = .receiving n → s.toServer conn = [] → s.toClient conn = [] →
          s.received conn = s.sent conn ∧ n = 0) := by
  have hinv := systemInv_run hsends hrun
  have hconserved := hinv.conserved
  refine ⟨hconserved, fun hwaits hadded => ?_⟩
  have hnone := hinv.unechoed hsize hwaits hadded
  refine ⟨hnone, fun n hclient hserver hback => ?_⟩
  rw [hnone, hserver, hback, List.append_nil, List.append_nil, List.append_nil] at hconserved
  have hwaiting := hinv.waiting n hclient
  rw [hconserved] at hwaiting
  exact ⟨hconserved.symm, by omega⟩

/-- A client sends `ab`, the server echoes it, and the client receives the first byte of it. -/
def dialogue : List (SystemEvent Bool) :=
  [.read true (ascii "ab"), .send true 2, .server (.addConnection true),
    .server (.arrive true (ascii "ab")), .server .poll, .server .invoke,
    .server (.recv (.chunk ⟨ascii "ab", by decide, by decide⟩)), .server (.recv .again),
    .server (.handle [.accepted 0, .accepted 0]), .recv true 1]

theorem conversation_dialogue :
    ∃ s, Run.run (System.next 1) (System.initial Bool) dialogue = some s ∧
      s.toClient true = ascii "b" ∧
      s.sent true =
        s.received true ++ s.toClient true ++ s.unechoed true ++ s.toServer true :=
  have hrun := rfl
  ⟨_, hrun, rfl, (@conversation Bool _ 1 _ (by decide) dialogue true (by decide) hrun).1⟩

/-! ## Screens -/

namespace Client

/-- `count` is the length of all that the client has to hand on. -/
def HasAll (count : ℕ) : Client → Prop
  | sending buf | writing buf => count = buf.length
  | _ => True

instance (count : ℕ) : (client : Client) → Decidable (client.HasAll count)
  | sending buf => inferInstanceAs (Decidable (count = buf.length))
  | writing buf => inferInstanceAs (Decidable (count = buf.length))
  | reading => isTrue trivial
  | receiving _ => isTrue trivial
  | killed => isTrue trivial

/-- What has been typed and is not sent yet. -/
def unsent : Client → Bytes
  | sending buf => buf
  | _ => []

/-- What has been received and is not shown yet. -/
def unshown : Client → Bytes
  | writing buf => buf
  | _ => []

end Client

/-- The client of the connection transfers all that it has with each `send` and each `write`. -/
def Whole (conn : C) (s : System C) : SystemEvent C → Prop
  | .send other count | .write other count => other = conn → (s.clients other).HasAll count
  | _ => True

instance (conn : C) (s : System C) : (event : SystemEvent C) → Decidable (Whole conn s event)
  | .send other count =>
      inferInstanceAs (Decidable (other = conn → (s.clients other).HasAll count))
  | .write other count =>
      inferInstanceAs (Decidable (other = conn → (s.clients other).HasAll count))
  | .server _ => isTrue trivial
  | .read _ _ => isTrue trivial
  | .recv _ _ => isTrue trivial
  | .kill _ => isTrue trivial

structure ScreenInv (s : System C) (conn : C) : Prop where
  sent : s.sent conn <+: s.typed conn
  shown : s.shown conn <+: s.received conn
  unsent : s.clients conn ≠ .killed → s.typed conn = s.sent conn ++ (s.clients conn).unsent
  unshown : s.clients conn ≠ .killed → s.received conn = s.shown conn ++ (s.clients conn).unshown

omit [DecidableEq C] in
theorem screenInv_initial (conn : C) : ScreenInv (System.initial C) conn :=
  ⟨List.prefix_rfl, List.prefix_rfl, fun _ => rfl, fun _ => rfl⟩

omit [DecidableEq C] in
/-- A step that is not one of the client. -/
theorem ScreenInv.other (h : ScreenInv s conn) (hclients : s'.clients conn = s.clients conn)
    (hbytes : s'.typed conn = s.typed conn ∧ s'.sent conn = s.sent conn ∧
      s'.received conn = s.received conn ∧ s'.shown conn = s.shown conn) : ScreenInv s' conn := by
  obtain ⟨htyped, hsent, hreceived, hshown⟩ := hbytes
  constructor
  · rw [hsent, htyped]
    exact h.sent
  · rw [hshown, hreceived]
    exact h.shown
  · rw [hclients, hsent, htyped]
    exact h.unsent
  · rw [hclients, hshown, hreceived]
    exact h.unshown

omit [DecidableEq C] in
/-- The client goes on, and what it has typed, sent, received and shown grows. -/
theorem ScreenInv.advance (h : ScreenInv s conn) (client : Client)
    (typed sent received shown : Bytes) (hlive : s.clients conn ≠ .killed)
    (htyped : (s.clients conn).unsent ++ typed = sent ++ client.unsent)
    (hshown : (s.clients conn).unshown ++ received = shown ++ client.unshown)
    (hclient : s'.clients conn = client)
    (hbytes : s'.typed conn = s.typed conn ++ typed ∧ s'.sent conn = s.sent conn ++ sent ∧
      s'.received conn = s.received conn ++ received ∧ s'.shown conn = s.shown conn ++ shown) :
    ScreenInv s' conn := by
  obtain ⟨htyped', hsent', hreceived', hshown'⟩ := hbytes
  have htypedAll : s'.typed conn = s'.sent conn ++ client.unsent := by
    rw [htyped', hsent', h.unsent hlive, List.append_assoc, htyped, List.append_assoc]
  have hshownAll : s'.received conn = s'.shown conn ++ client.unshown := by
    rw [hreceived', hshown', h.unshown hlive, List.append_assoc, hshown, List.append_assoc]
  refine ⟨?_, ?_, fun _ => hclient ▸ htypedAll, fun _ => hclient ▸ hshownAll⟩
  · rw [htypedAll]
    exact List.prefix_append _ _
  · rw [hshownAll]
    exact List.prefix_append _ _

theorem ScreenInv.step (h : ScreenInv s conn) (hwhole : Whole conn s event)
    (hnext : System.next pollSize s event = some s') : ScreenInv s' conn := by
  cases event with
  | server event =>
      rw [System.next] at hnext
      split at hnext
      · obtain ⟨t, -, rfl⟩ := Option.map_eq_some_iff.mp hnext
        exact h.other rfl ⟨rfl, rfl, rfl, rfl⟩
      · cases hnext
  | read conn' buf =>
      rw [System.next] at hnext
      split at hnext
      · rename_i hclient
        obtain ⟨-, rfl⟩ := Run.of_guard hnext
        by_cases heq : conn = conn'
        · subst heq
          refine h.advance (.sending buf) buf [] [] [] (by simp [hclient]) ?_ ?_
            (Function.update_self ..) (by simp [System.setClient])
          · rw [hclient]
            rfl
          · rw [hclient]
            rfl
        · exact h.other (Function.update_of_ne heq ..) (by simp [System.setClient, heq])
      · cases hnext
  | send conn' count =>
      rw [System.next] at hnext
      split at hnext
      · rename_i buf hclient
        obtain ⟨-, rfl⟩ := Run.of_guard hnext
        by_cases heq : conn = conn'
        · subst heq
          have hall : buf.take count = buf := by
            have hcount := hwhole rfl
            rw [hclient, Client.HasAll] at hcount
            rw [hcount, List.take_length]
          rw [hall]
          refine h.advance (.receiving count) [] buf [] [] (by simp [hclient]) ?_ ?_
            (Function.update_self ..) (by simp [System.setClient])
          · rw [hclient]
            rfl
          · rw [hclient]
            rfl
        · exact h.other (Function.update_of_ne heq ..) (by simp [System.setClient, heq])
      · cases hnext
  | recv conn' count =>
      rw [System.next] at hnext
      split at hnext
      · rename_i n hclient
        obtain ⟨-, rfl⟩ := Run.of_guard hnext
        by_cases heq : conn = conn'
        · subst heq
          refine h.advance (.writing ((s.toClient conn).take count)) [] []
            ((s.toClient conn).take count) [] (by simp [hclient]) ?_ ?_ (Function.update_self ..)
            (by simp [System.setClient])
          · rw [hclient]
            rfl
          · rw [hclient]
            rfl
        · exact h.other (Function.update_of_ne heq ..) (by simp [System.setClient, heq])
      · cases hnext
  | write conn' count =>
      rw [System.next] at hnext
      split at hnext
      · rename_i buf hclient
        obtain ⟨-, rfl⟩ := Run.of_guard hnext
        by_cases heq : conn = conn'
        · subst heq
          have hall : buf.take count = buf := by
            have hcount := hwhole rfl
            rw [hclient, Client.HasAll] at hcount
            rw [hcount, List.take_length]
          rw [hall]
          refine h.advance .reading [] [] [] buf (by simp [hclient]) ?_ ?_ (Function.update_self ..)
            (by simp [System.setClient])
          · rw [hclient]
            rfl
          · rw [hclient]
            simp [Client.unshown]
        · exact h.other (Function.update_of_ne heq ..) (by simp [System.setClient, heq])
      · cases hnext
  | kill conn' =>
      obtain rfl := Option.some.inj hnext
      by_cases heq : conn = conn'
      · subst heq
        have hkilled : (s.setClient conn .killed).clients conn = .killed := Function.update_self ..
        exact ⟨h.sent, h.shown, fun hlive => absurd hkilled hlive,
          fun hlive => absurd hkilled hlive⟩
      · exact h.other (Function.update_of_ne heq ..) ⟨rfl, rfl, rfl, rfl⟩

/-- The screen of a client that transfers all it has, and to which no `::send` of the server fails
for good, shows nothing but what was typed there, in order. When the server waits, has added the
connection, and nothing is on its way, a client at its keyboard shows it all. -/
theorem screens (hsize : 0 < pollSize) {events : List (SystemEvent C)} (conn : C)
    (hsends : Run.Along (System.next pollSize) (ServerSends conn) (System.initial C) events)
    (hwhole : Run.Along (System.next pollSize) (Whole conn) (System.initial C) events)
    (hrun : Run.run (System.next pollSize) (System.initial C) events = some s) :
    s.shown conn <+: s.typed conn ∧
      (Waits pollSize s.server → s.server.status conn = .added → s.clients conn = .reading →
        s.toServer conn = [] → s.toClient conn = [] → s.shown conn = s.typed conn) := by
  have hinv := systemInv_run hsends hrun
  have hscreen : ScreenInv s conn :=
    Run.invariant (I := fun s => ScreenInv s conn)
      (fun _ _ _ h hwhole hnext => h.step hwhole hnext) (screenInv_initial conn) hwhole hrun
  refine ⟨(hscreen.shown.trans hinv.received_sent).trans hscreen.sent,
    fun hwaits hadded hclient hserver hback => ?_⟩
  have hlive : s.clients conn ≠ .killed := by simp [hclient]
  have htyped := hscreen.unsent hlive
  have hshown := hscreen.unshown hlive
  rw [hclient] at htyped hshown
  simp only [Client.unsent, Client.unshown, List.append_nil] at htyped hshown
  have hconserved := hinv.conserved
  rw [hinv.unechoed hsize hwaits hadded, hserver, hback] at hconserved
  simp only [List.append_nil] at hconserved
  rw [htyped, hconserved, hshown]

/-- A client sends `ab`, receives the echo and shows it. -/
def roundTrip : List (SystemEvent Bool) :=
  [.read true (ascii "ab"), .send true 2, .server (.addConnection true),
    .server (.arrive true (ascii "ab")), .server .poll, .server .invoke,
    .server (.recv (.chunk ⟨ascii "ab", by decide, by decide⟩)), .server (.recv .again),
    .server (.handle [.accepted 2]), .recv true 2, .write true 2]

theorem screens_roundTrip :
    ∃ s, Run.run (System.next 1) (System.initial Bool) roundTrip = some s ∧
      s.shown true = ascii "ab" ∧ s.shown true = s.typed true :=
  have hrun := rfl
  ⟨_, hrun, rfl, (@screens Bool _ 1 _ (by decide) roundTrip true (by decide) (by decide) hrun).2
    rfl rfl rfl rfl rfl⟩

end FalconLink.Echo

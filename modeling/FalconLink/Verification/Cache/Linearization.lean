import FalconLink.Foundation.Linearization
import FalconLink.Verification.Cache.Lru
import FalconLink.Verification.Cache.Shared

/-! # Calls of a shared cache one at a time

When lookups relink one at a time, the calls of all threads answer as if each one was performed at one
moment between its call and its return.
-/

namespace FalconLink.SharedCache

open Cache Linearization

/-! ## When a call takes effect -/

/-- What a call answers on keyed data ordered by last use, and the data after it. -/
def perform (capacity : ℕ) :
    (call : Call) → List (Bytes × Bytes) → call.Result × List (Bytes × Bytes)
  | .tryLoad resourceUrl destination, l =>
      match Recency.load resourceUrl l with
      | (some data, l') => ((true, destination ++ data), l')
      | (none, l') => ((false, destination), l')
  | .tryInsert resourceUrl source, l => Recency.insert List.length capacity resourceUrl source l

/-- A lookup takes effect when it does not find its key, or when its node is back in the list. -/
def takesEffect (c : Cache) : Instr → Bool
  | .find key => (c.mapping.lookup key).isNone
  | .getTimeUTC => true
  | _ => false

variable {T : Type} [DecidableEq T]

/-- An insertion takes effect when it gets the mutex. -/
def marks (s : State T) : Event T → List (Mark T Call Call.Result)
  | .call _ _ => []
  | .acquire t =>
      match s.threads t with
      | .waiting (.tryInsert resourceUrl source) => [.effect t (.tryInsert resourceUrl source)]
      | _ => []
  | .step t =>
      match s.threads t with
      | .inside (.tryLoad resourceUrl destination) _ (.call i _) =>
          if takesEffect s.cache i then [.effect t (.tryLoad resourceUrl destination)] else []
      | _ => []
  | .release t =>
      match s.threads t with
      | .inside call _ (.ret out) => [.returned t call out]
      | _ => []

/-! ## One call alone -/

section Alone

variable {c : Cache} {es : List Entry}

theorem perform_hit {front back : List Entry} {e : Entry} (capacity : ℕ) (destination : Bytes)
    (h : c.Represents (front ++ e :: back)) :
    perform capacity (.tryLoad e.key destination) ((front ++ e :: back).map Entry.item) =
      ((true, destination ++ e.data), (front ++ back ++ [e]).map Entry.item) := by
  have hfront : ∀ e' ∈ front, e'.key ≠ e.key := by
    intro e' he' hkey
    have heq := h.key_injective (List.mem_append_left _ he') (by simp) hkey
    have hnodup := h.addr_nodup
    rw [List.map_append, List.nodup_append] at hnodup
    exact hnodup.2.2 _ (List.mem_map_of_mem he') _ (by simp) (congrArg Entry.addr heq)
  rw [perform, load_item_of_mem hfront]

theorem perform_miss {resourceUrl : Bytes} (capacity : ℕ) (destination : Bytes)
    (h : c.Represents es) (hmiss : c.mapping.lookup resourceUrl = none) :
    perform capacity (.tryLoad resourceUrl destination) (es.map Entry.item) =
      ((false, destination), es.map Entry.item) := by
  rw [perform, load_item_of_notMem (h.lookup_eq_none.mp hmiss)]

/-- An insertion that is not interrupted is performed. -/
theorem tryInsert_performs (h : c.Represents es) (resourceUrl source : Bytes) :
    ∃ out c' es', (tryInsert resourceUrl source).run exec c = .ok (out, c') ∧ c'.Represents es' ∧
      c'.capacity = c.capacity ∧
      (out, es'.map Entry.item) =
        perform c.capacity.toNat (.tryInsert resourceUrl source) (es.map Entry.item) := by
  rcases tryInsert_simulates h resourceUrl source with ⟨answer, c', es', hsim⟩
  rcases tryInsert_returns h resourceUrl source with ⟨out, c'', -, hrun, -⟩
  have hcode : (Op.tryInsert resourceUrl source).code.run exec c = .ok ((some out, []), c'') := by
    rw [Op.code, Prog.run_bind_ok hrun]
    rfl
  obtain ⟨rfl, rfl⟩ := Prod.mk.inj (Except.ok.inj (hsim.run_eq.symm.trans hcode))
  have hout := (Prod.mk.inj hsim.answer_eq).1
  refine ⟨out, c', es', hrun, hsim.represents, hsim.capacity_eq, ?_⟩
  exact Prod.ext (Option.some.inj hout) hsim.items_eq

end Alone

/-! ## Threads and their marks -/

/-- The node holds this data under this key. Its time stamp can change at any moment. -/
def Stores (es : List Entry) (node : Addr) (key data : Bytes) : Prop :=
  ∃ e ∈ es, e.addr = node ∧ e.key = key ∧ e.data = data

/-- What is left of a lookup that has not taken effect and whose node is not on the move. -/
inductive Searching (es : List Entry) (resourceUrl destination : Bytes) : Code (Bool × Bytes) → Prop where
  | start : Searching es resourceUrl destination (tryLoad resourceUrl destination)
  | found {node data} (h : Stores es node resourceUrl data) :
      Searching es resourceUrl destination (loadHit node destination)
  | loaded {node data} (h : Stores es node resourceUrl data) :
      Searching es resourceUrl destination (refresh node (destination ++ data))

/-- What is left of a lookup that has taken effect, and its answer. -/
inductive Answering (stored : Addr → Prop) : Bool × Bytes → Code (Bool × Bytes) → Prop where
  | stamping {node} (h : stored node) (time : ℕ) (destination : Bytes) :
      Answering stored (true, destination)
        (.call (.writeLastAccess (some node) time) fun _ => .ret (true, destination))
  | done (out : Bool × Bytes) : Answering stored out (.ret out)

/-- What is left of a lookup whose node is on the move. -/
def Bringing (c : Cache) (es : List Entry) (L : Links Addr) (resourceUrl destination : Bytes)
    (rest : Code (Bool × Bytes)) : Prop :=
  ∃ front node back L' data, Stores es node resourceUrl data ∧
    es.map Entry.addr = front ++ node :: back ∧
    Relinks c.Allocated rest L
      (updateTimestamp node >>= fun _ => .ret (true, destination ++ data)) L' ∧
    L'.Chain (header :: (front ++ back ++ [node]) ++ [tailer])

abbrev Answer : Type :=
  Σ call : Call, call.Result

/-- The answers that a thread has got are what its calls have returned, and that of its present
call when it has taken effect. -/
def Thread.Explained (c : Cache) (es : List Entry) (L : Links Addr) (got given : List Answer) :
    Thread → Prop
  | .idle | .waiting _ => got = given
  | .inside (.tryLoad resourceUrl destination) false rest =>
      (Searching es resourceUrl destination rest ∧ got = given) ∨
        ∃ out, Answering (· ∈ es.map Entry.addr) out rest ∧
          got = given ++ [⟨.tryLoad resourceUrl destination, out⟩]
  | .inside (.tryLoad resourceUrl destination) true rest =>
      Bringing c es L resourceUrl destination rest ∧ got = given
  | .inside (.tryInsert _ _) _ _ => False

section Threads

variable {c c' : Cache} {es es' : List Entry} {L L' : Links Addr}

theorem Stores.mem {node : Addr} {key data : Bytes} (h : Stores es node key data) :
    node ∈ es.map Entry.addr := by
  rcases h with ⟨e, he, rfl, -, -⟩
  exact List.mem_map_of_mem he

theorem Thread.Explained.looking {got given : List Answer} {thread : Thread}
    (h : thread.Explained c es L got given) : thread.Looking c es L := by
  cases thread with
  | idle => trivial
  | waiting call => trivial
  | inside call relinking rest =>
      cases call with
      | tryInsert resourceUrl source => exact h
      | tryLoad resourceUrl destination =>
          cases relinking with
          | true =>
              rcases h.1 with ⟨front, node, back, L', data, -, hes, hrelinks, hL'⟩
              exact ⟨front, node, back, L', destination ++ data, hes, hrelinks, hL'⟩
          | false =>
              rcases h with ⟨hsearching, -⟩ | ⟨out, hanswering, -⟩
              · cases hsearching with
                | start => exact .start resourceUrl destination
                | found h => exact .found h.mem destination
                | loaded h => exact .loaded h.mem _
              · cases hanswering with
                | stamping h time destination => exact .stamping h time destination
                | done out => exact .done out

theorem Stores.mono {node : Addr} {key data : Bytes}
    (hsame : ∀ e ∈ es, Stores es' e.addr e.key e.data) (h : Stores es node key data) :
    Stores es' node key data := by
  rcases h with ⟨e, he, rfl, rfl, rfl⟩
  exact hsame e he

/-- Threads that do not relink do not care about time stamps and the order of the list. -/
theorem Thread.Explained.mono {got given : List Answer} {thread : Thread}
    (h : thread.Explained c es L got given) (hsame : ∀ e ∈ es, Stores es' e.addr e.key e.data)
    (hbringing : ∀ resourceUrl destination rest, thread.Relinking →
      Bringing c es L resourceUrl destination rest →
      Bringing c' es' L' resourceUrl destination rest) :
    thread.Explained c' es' L' got given := by
  cases thread with
  | idle => exact h
  | waiting call => exact h
  | inside call relinking rest =>
      cases call with
      | tryInsert resourceUrl source => exact h
      | tryLoad resourceUrl destination =>
          cases relinking with
          | true => exact ⟨hbringing _ _ _ rfl h.1, h.2⟩
          | false =>
              rcases h with ⟨hsearching, hgot⟩ | ⟨out, hanswering, hgot⟩
              · refine Or.inl ⟨?_, hgot⟩
                cases hsearching with
                | start => exact .start
                | found h => exact .found (h.mono hsame)
                | loaded h => exact .loaded (h.mono hsame)
              · refine Or.inr ⟨out, ?_, hgot⟩
                cases hanswering with
                | done out => exact .done out
                | stamping h time destination =>
                    rcases List.mem_map.mp h with ⟨e, he, rfl⟩
                    exact .stamping (hsame e he).mem time destination

/-- The next step of a lookup on the move is an access to a link field, or its node is back in
the list and it reads the clock. -/
theorem Bringing.relinks_or_stamps {resourceUrl destination : Bytes} {rest : Code (Bool × Bytes)}
    (hrep : c.Represents es) (h : Bringing c es L resourceUrl destination rest) :
    (∃ i, ∃ k : i.Answer → Code (Bool × Bytes), ∃ r M, rest = .call i k ∧
        LinkAccess c.Allocated i L r M ∧ Bringing c es M resourceUrl destination (k r)) ∨
      ∃ front e back, es = front ++ e :: back ∧ e.key = resourceUrl ∧
        L.Chain (route (front ++ back ++ [e])) ∧
        rest = (updateTimestamp e.addr >>= fun _ => .ret (true, destination ++ e.data)) := by
  rcases h with ⟨front, node, back, L', data, hstores, hes, hrelinks, hL'⟩
  cases hrelinks with
  | refl =>
      rcases List.map_eq_append_iff.mp hes with ⟨es₁, es₂, rfl, rfl, htail⟩
      rcases List.map_eq_cons_iff.mp htail with ⟨e, es₃, rfl, rfl, rfl⟩
      rcases hstores with ⟨e', he', haddr, rfl, rfl⟩
      obtain rfl := hrep.addr_injective he' (by simp) haddr
      exact Or.inr ⟨es₁, e', es₃, rfl, rfl, by simpa [route] using hL', rfl⟩
  | step haccess hrest =>
      exact Or.inl ⟨_, _, _, _, rfl, haccess, front, node, back, L', data, hstores, hes, hrest, hL'⟩

theorem bringing_refresh (h : c.Represents es) {node : Addr} {resourceUrl data : Bytes}
    (hstores : Stores es node resourceUrl data) (destination : Bytes) :
    Bringing c es c.links resourceUrl destination (refresh node (destination ++ data)) := by
  rcases hstores with ⟨e, he, rfl, rfl, rfl⟩
  rcases List.append_of_mem he with ⟨front, back, rfl⟩
  rcases relinks_toTail h with ⟨L', hrelinks, hL'⟩
  refine ⟨front.map Entry.addr, e.addr, back.map Entry.addr, L', e.data, ⟨e, he, rfl, rfl, rfl⟩,
    by simp, ?_, by simpa [route] using hL'⟩
  exact hrelinks fun _ => updateTimestamp e.addr >>= fun _ => .ret (true, destination ++ e.data)

end Threads

/-! ## The state and the marks -/

section

variable {capacity : UInt64} {s s' : State T} {t : T} {ms : List (Mark T Call Call.Result)}
  {c c' : Cache} {es es' : List Entry} {L L' : Links Addr}

/-- What the calls of thread `t` answer one at a time. -/
def got (capacity : UInt64) (ms : List (Mark T Call Call.Result)) (t : T) : List Answer :=
  answers (perform capacity.toNat) t (effects ms) []

/-- The keyed data after the calls that have taken effect. -/
def items (capacity : UInt64) (ms : List (Mark T Call Call.Result)) : List (Bytes × Bytes) :=
  after (perform capacity.toNat) (effects ms) []

/-- No thread holds the mutex exclusively. -/
structure LookedUp (capacity : UInt64) (s : State T) (ms : List (Mark T Call Call.Result))
    (c : Cache) (es : List Entry) (L : Links Addr) : Prop where
  lookups : Lookups s c es L
  capacity_eq : c.capacity = capacity
  items_eq : es.map Entry.item = items capacity ms
  explained : ∀ t, (s.threads t).Explained c es L (got capacity ms t) (returns t ms)

/-- Thread `t` holds the mutex exclusively, and what it will return has taken effect. -/
structure Inserted (capacity : UInt64) (s : State T) (ms : List (Mark T Call Call.Result))
    (t : T) : Prop where
  held : s.mutex = ⟨[], some t⟩
  alone : ∀ u, (s.threads u).Inside → u = t
  others : ∀ u ≠ t, got capacity ms u = returns u ms
  answers : ∃ resourceUrl source relinking rest out c es,
    s.threads t = .inside (.tryInsert resourceUrl source) relinking rest ∧
      rest.run exec s.cache = .ok (out, c) ∧ c.Represents es ∧ c.capacity = capacity ∧
      es.map Entry.item = items capacity ms ∧
      got capacity ms t = returns t ms ++ [⟨.tryInsert resourceUrl source, out⟩]

def Explains (capacity : UInt64) (s : State T) (ms : List (Mark T Call Call.Result)) : Prop :=
  (∃ c es L, LookedUp capacity s ms c es L) ∨ ∃ t, Inserted capacity s ms t

theorem got_effect (ms : List (Mark T Call Call.Result)) (t : T) (call : Call) :
    got capacity (ms ++ [.effect t call]) t =
      got capacity ms t ++ [⟨call, (perform capacity.toNat call (items capacity ms)).1⟩] :=
  answers_effect _ ms t call []

omit [DecidableEq T] in
theorem items_effect (ms : List (Mark T Call Call.Result)) (t : T) (call : Call) :
    items capacity (ms ++ [.effect t call]) =
      (perform capacity.toNat call (items capacity ms)).2 :=
  after_effect _ ms t call []

/-- A mark of one thread is none of the others. -/
structure Apart (capacity : UInt64) (ms ms' : List (Mark T Call Call.Result)) (t : T) : Prop where
  got : ∀ u ≠ t, got capacity ms' u = got capacity ms u
  returns : ∀ u ≠ t, returns u ms' = returns u ms

theorem Apart.refl (capacity : UInt64) (ms : List (Mark T Call Call.Result)) (t : T) :
    Apart capacity ms (ms ++ []) t := by
  rw [List.append_nil]
  exact ⟨fun _ _ => rfl, fun _ _ => rfl⟩

theorem Apart.effect (capacity : UInt64) (ms : List (Mark T Call Call.Result)) (t : T) (call : Call) :
    Apart capacity ms (ms ++ [.effect t call]) t where
  got _ hut := answers_effect_of_ne _ ms hut.symm call []
  returns u _ := returns_effect u t ms call

theorem Apart.returned (capacity : UInt64) (ms : List (Mark T Call Call.Result)) (t : T) (call : Call)
    (out : call.Result) : Apart capacity ms (ms ++ [.returned t call out]) t where
  got u _ := by rw [SharedCache.got, effects_returned, SharedCache.got]
  returns _ hut := returns_returned_of_ne ms hut.symm call out

theorem Thread.explained_of_outside {answered given : List Answer} {thread : Thread}
    (hout : ¬thread.Inside) : thread.Explained c es L answered given ↔ answered = given := by
  cases thread with
  | idle => rfl
  | waiting call => rfl
  | inside call relinking rest => exact absurd trivial hout

/-- One thread has changed and may have left a mark. -/
theorem LookedUp.become {thread : Thread} {cache : Cache} {mutex : SharedMutex T}
    {ms' : List (Mark T Call Call.Result)} (h : LookedUp capacity s ms c es L)
    (hlookups : Lookups (SharedCache.become s t thread cache mutex) c' es' L')
    (hcapacity : c'.capacity = c.capacity) (hitems : es'.map Entry.item = items capacity ms')
    (hapart : Apart capacity ms ms' t)
    (hthread : thread.Explained c' es' L' (got capacity ms' t) (returns t ms'))
    (hothers : ∀ u ≠ t, ∀ answered given, (s.threads u).Explained c es L answered given →
      (s.threads u).Explained c' es' L' answered given) :
    LookedUp capacity (SharedCache.become s t thread cache mutex) ms' c' es' L' where
  lookups := hlookups
  capacity_eq := hcapacity.trans h.capacity_eq
  items_eq := hitems
  explained u := by
    by_cases hut : u = t
    · subst hut
      rw [SharedCache.become, setThread_self]
      exact hthread
    · rw [SharedCache.become, setThread_of_ne _ _ hut, hapart.got u hut, hapart.returns u hut]
      exact hothers u hut _ _ (h.explained u)

/-! ## One event -/

theorem explains_call {call : Call} (hs : Explains capacity s ms)
    (h : next s (.call t call) = some s') : Explains capacity s' (ms ++ marks s (.call t call)) := by
  rcases next_call h with ⟨hidle, rfl⟩
  rcases hs with ⟨c, es, L, hs⟩ | ⟨w, hs⟩
  · refine Or.inl ⟨c, es, L, ?_⟩
    have hlookups : Lookups (become s t (.waiting call) s.cache s.mutex) c es L := by
      apply hs.lookups.stay
      · simp [hidle, Thread.Relinking]
      · simp [Thread.Relinking]
      · exact hs.lookups.free
      · exact fun u _ hu => hu
      · exact fun hno => hno.elim
      · trivial
    refine hs.become hlookups rfl ?_ (Apart.refl capacity ms t) ?_ fun u _ _ _ hu => hu
    · rw [marks, List.append_nil]
      exact hs.items_eq
    · rw [marks, List.append_nil]
      have hgot := hs.explained t
      rw [hidle] at hgot
      exact hgot
  · rcases hs.answers with ⟨resourceUrl, source, relinking, rest, out, c, es, hw, hanswers⟩
    have hwt : w ≠ t := by
      intro heq
      rw [heq, hidle] at hw
      cases hw
    rw [marks, List.append_nil]
    refine Or.inr ⟨w, hs.held, fun u hu => ?_, hs.others, resourceUrl, source, relinking, rest,
      out, c, es, ?_, hanswers⟩
    · by_cases hut : u = t
      · subst hut
        simp [Thread.Inside] at hu
      · rw [setThread_of_ne s _ hut] at hu
        exact hs.alone u hu
    · rw [setThread_of_ne s _ hwt, hw]

theorem explains_acquire (hs : Explains capacity s ms) (h : next s (.acquire t) = some s') :
    Explains capacity s' (ms ++ marks s (.acquire t)) := by
  rcases next_acquire h with ⟨call, mutex, hwaiting, hmutex, rfl⟩
  rcases hs with ⟨c, es, L, hs⟩ | ⟨w, hs⟩
  · have hgot := hs.explained t
    rw [hwaiting] at hgot
    cases call with
    | tryLoad resourceUrl destination =>
        have hmarks : marks s (.acquire t) = [] := by simp [marks, hwaiting]
        simp only [acquire, SharedMutex.lockShared, hs.lookups.free, Option.isNone_none, ite_true,
          Option.some.injEq] at hmutex
        subst hmutex
        refine Or.inl ⟨c, es, L, ?_⟩
        have hlookups : Lookups (become s t
            (.inside (.tryLoad resourceUrl destination) false (tryLoad resourceUrl destination))
            s.cache ⟨t :: s.mutex.readers, none⟩) c es L := by
          apply hs.lookups.stay
          · simp [hwaiting, Thread.Relinking]
          · simp [Thread.Relinking]
          · rfl
          · exact fun u _ hu => List.mem_cons_of_mem t hu
          · exact fun _ => List.mem_cons_self
          · exact Waits.start resourceUrl destination
        rw [hmarks]
        refine hs.become hlookups rfl ?_ (Apart.refl capacity ms t) ?_ fun u _ _ _ hu => hu
        · rw [List.append_nil]
          exact hs.items_eq
        · rw [List.append_nil]
          exact Or.inl ⟨.start, hgot⟩
    | tryInsert resourceUrl source =>
        have hmarks : marks s (.acquire t) = [.effect t (.tryInsert resourceUrl source)] := by
          simp [marks, hwaiting]
        simp only [acquire, SharedMutex.lock, hs.lookups.free, Option.isNone_none, Bool.true_and,
          Option.ite_none_right_eq_some, List.isEmpty_iff, Option.some.injEq] at hmutex
        rcases hmutex with ⟨hreaders, rfl⟩
        have hcache : s.cache = c := by
          rw [hs.lookups.cache_eq,
            hs.lookups.settled fun u hu => hs.lookups.not_inside hreaders u hu.inside,
            withLinks_links]
        rcases tryInsert_performs hs.lookups.represents resourceUrl source with
          ⟨out, c', es', hrun, hrep, hcapacity, hperform⟩
        rw [hs.capacity_eq, hs.items_eq] at hperform
        rw [hmarks]
        have hapart := Apart.effect capacity ms t (.tryInsert resourceUrl source)
        refine Or.inr ⟨t, by simp [setThread, hreaders], fun u hu => ?_, fun u hut => ?_,
          resourceUrl, source, false, tryInsert resourceUrl source, out, c', es',
          by simp [Call.code], ?_, hrep, hcapacity.trans hs.capacity_eq, ?_, ?_⟩
        · by_contra hut
          rw [setThread_of_ne _ _ hut] at hu
          exact hs.lookups.not_inside hreaders u hu
        · rw [hapart.got u hut, hapart.returns u hut]
          exact (Thread.explained_of_outside (hs.lookups.not_inside hreaders u)).mp (hs.explained u)
        · simpa [setThread, hcache] using hrun
        · rw [items_effect, ← hperform]
        · rw [got_effect, returns_effect, ← hperform]
          exact congrArg (· ++ _) hgot
  · cases call with
    | tryLoad resourceUrl destination =>
        simp [acquire, SharedMutex.lockShared, hs.held] at hmutex
    | tryInsert resourceUrl source =>
        simp [acquire, SharedMutex.lock, hs.held] at hmutex

/-- A lookup that goes on without a mark, and neither relinks nor starts to. -/
theorem LookedUp.pass {call : Call} {rest rest' : Code call.Result}
    (h : LookedUp capacity s ms c es L)
    (hthread : s.threads t = .inside call false rest)
    (hexplained : (Thread.inside call false rest').Explained c es L (got capacity ms t)
      (returns t ms)) :
    Explains capacity (setThread s t (.inside call false rest')) ms := by
  have hreading := h.lookups.reading t (by simp [hthread, Thread.Inside])
  have hlookups :
      Lookups (SharedCache.become s t (.inside call false rest') s.cache s.mutex) c es L := by
    apply h.lookups.stay
    · simp [hthread, Thread.Relinking]
    · simp [Thread.Relinking]
    · exact h.lookups.free
    · exact fun u _ hu => hu
    · exact fun _ => hreading
    · exact hexplained.looking
  exact Or.inl ⟨c, es, L, h.become hlookups rfl h.items_eq ⟨fun _ _ => rfl, fun _ _ => rfl⟩
    hexplained fun u _ _ _ hu => hu⟩

/-- A lookup whose node is on the move, or is about to be, while no other one is. -/
theorem explains_bringing {resourceUrl destination : Bytes} {relinking : Bool} {i : Instr}
    {k : i.Answer → Code (Bool × Bytes)} (hs : LookedUp capacity s ms c es L)
    (hthread : s.threads t = .inside (.tryLoad resourceUrl destination) relinking (.call i k))
    (hbringing : Bringing c es L resourceUrl destination (.call i k))
    (hgot : got capacity ms t = returns t ms) (hothers : ∀ u ≠ t, ¬(s.threads u).Relinking)
    (hstep : ∀ r cache, exec i s.cache = .ok (r, cache) →
      s' = setThread { s with cache } t
        (.inside (.tryLoad resourceUrl destination) (relinksAfter relinking (.call i k)) (k r))) :
    Explains capacity s' (ms ++ marks s (.step t)) := by
  have hreading := hs.lookups.reading t (by simp [hthread, Thread.Inside])
  rcases hbringing.relinks_or_stamps hs.lookups.represents with
    ⟨i', k', r, M, heq, haccess, hrest⟩ | ⟨front, e, back, rfl, rfl, hL, heq⟩
  · cases heq
    have hafter := relinksAfter_of_linkAccess (k := k) haccess relinking
    have hmarks : marks s (.step t) = [] := by
      simp only [marks, hthread]
      cases haccess <;> rfl
    rw [hstep r (c.withLinks M) (hs.lookups.cache_eq ▸ haccess.exec_eq), hafter, hmarks]
    have hexplained : (Thread.inside (.tryLoad resourceUrl destination) true (k r)).Explained c es M
        (got capacity ms t) (returns t ms) := ⟨hrest, hgot⟩
    have hlookups : Lookups (become s t
        (.inside (.tryLoad resourceUrl destination) true (k r)) (c.withLinks M) s.mutex) c es M := by
      apply hs.lookups.become hs.lookups.free hs.lookups.represents rfl
      · exact fun _ hno => absurd rfl hno
      · exact fun _ => hothers
      · exact fun u _ hu => hu
      · exact fun _ => hreading
      · exact hexplained.looking
      · exact fun u hut hu => hu.mono (fun _ ha => ha) fun _ hrel => absurd hrel (hothers u hut)
    rw [List.append_nil]
    refine Or.inl ⟨c, es, M, hs.become hlookups rfl hs.items_eq ⟨fun _ _ => rfl, fun _ _ => rfl⟩
      hexplained fun u hut _ _ hu => ?_⟩
    exact hu.mono (fun e he => ⟨e, he, rfl, rfl, rfl⟩) fun _ _ _ hrel => absurd hrel (hothers u hut)
  · cases heq
    have hmarks : marks s (.step t) = [.effect t (.tryLoad e.key destination)] := by
      simp [marks, hthread, takesEffect]
    have hperform := perform_hit capacity.toNat destination hs.lookups.represents
    rw [hs.items_eq] at hperform
    rw [hstep _ _ rfl, hmarks]
    have hperm := move_perm front back e
    let moved : Cache := { c.withLinks L with clock := fun n => c.clock (n + 1) }
    have hrep : moved.Represents (front ++ back ++ [e]) :=
      (hs.lookups.represents.withLinks hperm hL).tick fun n => c.clock (n + 1)
    have hsame : ∀ e' ∈ front ++ e :: back,
        Stores (front ++ back ++ [e]) e'.addr e'.key e'.data :=
      fun e' he' => ⟨e', hperm.mem_iff.mpr he', rfl, rfl, rfl⟩
    have hexplained : (Thread.inside (.tryLoad e.key destination) false
        (.call (.writeLastAccess (some e.addr) (s.cache.clock 0))
          fun _ => .ret (true, destination ++ e.data))).Explained moved (front ++ back ++ [e])
        moved.links (got capacity (ms ++ [.effect t (.tryLoad e.key destination)]) t)
        (returns t (ms ++ [.effect t (.tryLoad e.key destination)])) := by
      refine Or.inr ⟨_, .stamping (by simp) _ _, ?_⟩
      rw [got_effect, returns_effect, hperform, hgot]
    have hlookups : Lookups (become s t (.inside (.tryLoad e.key destination) false
        (.call (.writeLastAccess (some e.addr) (s.cache.clock 0))
          fun _ => .ret (true, destination ++ e.data)))
        { s.cache with clock := fun n => s.cache.clock (n + 1) } s.mutex) moved
        (front ++ back ++ [e]) moved.links := by
      apply hs.lookups.become hs.lookups.free hrep
      · rw [withLinks_links, hs.lookups.cache_eq]
        rfl
      · exact fun _ _ => rfl
      · exact fun hno => absurd hno (by simp [Thread.Relinking])
      · exact fun u _ hu => hu
      · exact fun _ => hreading
      · exact hexplained.looking
      · intro u hut hu
        refine hu.mono (fun a ha => ?_) fun _ hrel => absurd hrel (hothers u hut)
        exact (hperm.map Entry.addr).mem_iff.mpr ha
    refine Or.inl ⟨moved, front ++ back ++ [e], moved.links, hs.become hlookups rfl ?_
      (Apart.effect capacity ms t _) hexplained fun u hut _ _ hu => ?_⟩
    · rw [items_effect, hperform]
    · exact hu.mono hsame fun _ _ _ hrel => absurd hrel (hothers u hut)

/-- A lookup that has not taken effect and whose node is not on the move. -/
theorem explains_searching {resourceUrl destination : Bytes} {i : Instr}
    {k : i.Answer → Code (Bool × Bytes)} (hs : LookedUp capacity s ms c es L)
    (hthread : s.threads t = .inside (.tryLoad resourceUrl destination) false (.call i k))
    (hsearching : Searching es resourceUrl destination (.call i k))
    (hgot : got capacity ms t = returns t ms) (horderly : Orderly s (.step t))
    (hstep : ∀ r cache, exec i s.cache = .ok (r, cache) →
      s' = setThread { s with cache } t
        (.inside (.tryLoad resourceUrl destination) (relinksAfter false (.call i k)) (k r))) :
    Explains capacity s' (ms ++ marks s (.step t)) := by
  generalize hrest : (Prog.call i k : Code (Bool × Bytes)) = rest at hsearching
  cases hsearching with
  | start =>
      cases hrest
      rw [hstep _ s.cache rfl]
      cases hfind : s.cache.mapping.lookup resourceUrl with
      | none =>
          have hmarks : marks s (.step t) = [.effect t (.tryLoad resourceUrl destination)] := by
            simp [marks, hthread, takesEffect, hfind]
          have hmiss : c.mapping.lookup resourceUrl = none := by
            rw [hs.lookups.cache_eq] at hfind
            exact hfind
          have hperform :=
            perform_miss capacity.toNat destination hs.lookups.represents hmiss
          rw [hs.items_eq] at hperform
          have hreading := hs.lookups.reading t (by simp [hthread, Thread.Inside])
          have hlookups : Lookups (become s t (.inside (.tryLoad resourceUrl destination) false
              (.ret (false, destination))) s.cache s.mutex) c es L := by
            apply hs.lookups.stay
            · simp [hthread, Thread.Relinking]
            · simp [Thread.Relinking]
            · exact hs.lookups.free
            · exact fun u _ hu => hu
            · exact fun _ => hreading
            · exact Waits.done _
          rw [hmarks]
          refine Or.inl ⟨c, es, L, hs.become hlookups rfl ?_ (Apart.effect capacity ms t _)
            (Or.inr ⟨_, .done _, ?_⟩) fun u _ _ _ hu => hu⟩
          · rw [items_effect, hperform]
            exact hs.items_eq
          · rw [got_effect, returns_effect, hperform, hgot]
      | some node =>
          have hmarks : marks s (.step t) = [] := by simp [marks, hthread, takesEffect, hfind]
          rw [hs.lookups.cache_eq] at hfind
          rcases (hs.lookups.represents.mapped resourceUrl node).mp hfind with
            ⟨e, he, hkey, haddr⟩
          rw [hmarks, List.append_nil]
          exact hs.pass hthread (Or.inl ⟨.found ⟨e, he, haddr, hkey, rfl⟩, hgot⟩)
  | found h =>
      rcases h with ⟨e, he, rfl, rfl, rfl⟩
      rcases hs.lookups.represents.node he with ⟨n, hn, -, hdata, -⟩
      cases hrest
      have hmarks : marks s (.step t) = [] := by simp [marks, hthread, takesEffect]
      have hread : exec (.readData (some e.addr)) s.cache = .ok (e.data, s.cache) := by
        simp [exec, deref, hs.lookups.cache_eq, withLinks, hn, hdata, Except.map]
      rw [hstep e.data s.cache hread, hmarks, List.append_nil]
      exact hs.pass hthread (Or.inl ⟨.loaded ⟨e, he, rfl, rfl, rfl⟩, hgot⟩)
  | loaded h =>
      cases hrest
      have hnone : ∀ u, ¬(s.threads u).Relinking := by
        simp only [Orderly, hthread] at horderly
        exact horderly rfl trivial
      have hbringing := bringing_refresh hs.lookups.represents h destination
      rw [← hs.lookups.settled hnone] at hbringing
      exact explains_bringing hs hthread hbringing hgot (fun u _ => hnone u) hstep

/-- A lookup that has taken effect. -/
theorem explains_answering {resourceUrl destination : Bytes} {i : Instr}
    {k : i.Answer → Code (Bool × Bytes)} {out : Bool × Bytes} (hs : LookedUp capacity s ms c es L)
    (hthread : s.threads t = .inside (.tryLoad resourceUrl destination) false (.call i k))
    (hanswering : Answering (· ∈ es.map Entry.addr) out (.call i k))
    (hgot : got capacity ms t = returns t ms ++ [⟨.tryLoad resourceUrl destination, out⟩])
    (hstep : ∀ r cache, exec i s.cache = .ok (r, cache) →
      s' = setThread { s with cache } t
        (.inside (.tryLoad resourceUrl destination) (relinksAfter false (.call i k)) (k r))) :
    Explains capacity s' (ms ++ marks s (.step t)) := by
  have hreading := hs.lookups.reading t (by simp [hthread, Thread.Inside])
  generalize hrest : (Prog.call i k : Code (Bool × Bytes)) = rest at hanswering
  cases hanswering with
  | done out => cases hrest
  | stamping h time data =>
      rcases List.mem_map.mp h with ⟨e, he, rfl⟩
      rcases hs.lookups.represents.node he with ⟨n, hn, -⟩
      cases hrest
      rcases List.append_of_mem he with ⟨front, back, rfl⟩
      have hmarks : marks s (.step t) = [] := by simp [marks, hthread, takesEffect]
      have hwrite : exec (.writeLastAccess (some e.addr) time) s.cache =
          .ok ((), s.cache.stamp e.addr time) := by
        simp [exec, deref, hs.lookups.cache_eq, withLinks, hn, Except.map, stamp]
      rw [hstep () _ hwrite, hmarks, List.append_nil]
      have hsame : ∀ e' ∈ front ++ e :: back,
          Stores (front ++ { e with time } :: back) e'.addr e'.key e'.data := by
        intro e' he'
        rcases List.mem_append.mp he' with hfront | hback
        · exact ⟨e', List.mem_append_left _ hfront, rfl, rfl, rfl⟩
        · rcases List.mem_cons.mp hback with rfl | hback
          · exact ⟨{ e' with time }, by simp, rfl, rfl, rfl⟩
          · exact ⟨e', by simp [hback], rfl, rfl, rfl⟩
      have halloc : (c.stamp e.addr time).Allocated = c.Allocated :=
        funext fun a => propext (allocated_stamp c e.addr a time)
      have hlookups : Lookups (become s t (.inside (.tryLoad resourceUrl destination) false
          (.ret (true, data))) (s.cache.stamp e.addr time) s.mutex) (c.stamp e.addr time)
          (front ++ { e with time } :: back) L := by
        apply hs.lookups.become hs.lookups.free (hs.lookups.represents.stamp time)
        · rw [hs.lookups.cache_eq, stamp_withLinks]
        · intro hothers _
          rw [links_stamp]
          apply hs.lookups.settled
          intro u
          by_cases hut : u = t
          · simp [hut, hthread, Thread.Relinking]
          · exact hothers u hut
        · exact fun hno => absurd hno (by simp [Thread.Relinking])
        · exact fun u _ hu => hu
        · exact fun _ => hreading
        · exact Waits.done _
        · intro u _ hu
          refine hu.mono (by simp) fun rest _ hmoving => ?_
          rw [Moving, halloc]
          simpa [Moving] using hmoving
      refine Or.inl ⟨_, _, L, hs.become hlookups rfl ?_ ⟨fun _ _ => rfl, fun _ _ => rfl⟩
        (Or.inr ⟨_, .done _, hgot⟩) fun u _ _ _ hu => ?_⟩
      · rw [← hs.items_eq]
        simp [Entry.item]
      · refine hu.mono hsame fun _ _ rest _ hbringing => ?_
        rcases hbringing with ⟨front', node, back', L', data', hstores, hes, hrelinks, hL'⟩
        refine ⟨front', node, back', L', data', hstores.mono hsame, ?_, halloc ▸ hrelinks, hL'⟩
        rw [← hes]
        simp

theorem explains_inserting (hs : Inserted capacity s ms t) (h : next s (.step t) = some s') :
    Inserted capacity s' (ms ++ marks s (.step t)) t := by
  rcases hs.answers with
    ⟨resourceUrl, source, relinking, rest, out, c, es, hthread, hrun, hanswers⟩
  have hmarks : marks s (.step t) = [] := by simp [marks, hthread]
  rcases next_step h with ⟨call, relinking', i, k, hthread', hstep⟩
  rw [hthread] at hthread'
  cases hthread'
  rcases Prog.exists_step hrun with ⟨r, cache, hexec, hrest⟩
  rw [hstep r cache hexec, hmarks, List.append_nil]
  refine ⟨hs.held, fun u hu => ?_, hs.others, resourceUrl, source, _, k r, out, c, es,
    setThread_self .., hrest, hanswers⟩
  by_contra hut
  rw [setThread_of_ne _ _ hut] at hu
  exact hut (hs.alone u hu)

theorem explains_step (hs : Explains capacity s ms) (horderly : Orderly s (.step t))
    (h : next s (.step t) = some s') : Explains capacity s' (ms ++ marks s (.step t)) := by
  rcases hs with ⟨c, es, L, hs⟩ | ⟨w, hs⟩
  · rcases next_step h with ⟨call, relinking, i, k, hthread, hstep⟩
    have hexplained := hs.explained t
    rw [hthread] at hexplained
    cases call with
    | tryInsert resourceUrl source => exact hexplained.elim
    | tryLoad resourceUrl destination =>
        cases relinking with
        | false =>
            rcases hexplained with ⟨hsearching, hgot⟩ | ⟨out, hanswering, hgot⟩
            · exact explains_searching hs hthread hsearching hgot horderly hstep
            · exact explains_answering hs hthread hanswering hgot hstep
        | true =>
            refine explains_bringing hs hthread hexplained.1 hexplained.2 (fun u hut hu => ?_) hstep
            exact hut (hs.lookups.single u t hu (by simp [hthread, Thread.Relinking]))
  · rcases next_step h with ⟨call, relinking, i, k, hthread, -⟩
    obtain rfl := hs.alone t (by simp [hthread, Thread.Inside])
    exact Or.inr ⟨t, explains_inserting hs h⟩

theorem explains_release (hs : Explains capacity s ms) (h : next s (.release t) = some s') :
    Explains capacity s' (ms ++ marks s (.release t)) := by
  rcases next_release h with ⟨call, relinking, out, hthread, rfl⟩
  have hmarks : marks s (.release t) = [.returned t call out] := by simp [marks, hthread]
  have hapart := Apart.returned capacity ms t call out
  rcases hs with ⟨c, es, L, hs⟩ | ⟨w, hs⟩
  · have hexplained := hs.explained t
    rw [hthread] at hexplained
    cases call with
    | tryInsert resourceUrl source => exact hexplained.elim
    | tryLoad resourceUrl destination =>
        cases relinking with
        | true =>
            rcases hexplained.1.relinks_or_stamps hs.lookups.represents with
              ⟨i, k, r, M, hno, -⟩ | ⟨_, _, _, -, -, -, hno⟩
            · cases hno
            · cases hno
        | false =>
            rcases hexplained with ⟨hsearching, -⟩ | ⟨out', hanswering, hgot⟩
            · generalize hrest : (Prog.ret out : Code (Bool × Bytes)) = rest at hsearching
              cases hsearching with
              | start => cases hrest
              | found h => cases hrest
              | loaded h => cases hrest
            · cases hanswering
              have hlookups : Lookups (become s t .idle s.cache (s.mutex.unlockShared t)) c es L := by
                apply hs.lookups.stay
                · simp [hthread, Thread.Relinking]
                · simp [Thread.Relinking]
                · exact hs.lookups.free
                · exact fun u hut hu => (List.mem_erase_of_ne hut).mpr hu
                · exact fun hno => hno.elim
                · trivial
              rw [hmarks]
              refine Or.inl ⟨c, es, L, hs.become hlookups rfl ?_ hapart ?_ fun u _ _ _ hu => hu⟩
              · rw [items, effects_returned]
                exact hs.items_eq
              · change got capacity _ t = returns t _
                rw [got, effects_returned, returns_returned]
                exact hgot
  · rcases hs.answers with
      ⟨resourceUrl, source, relinking', rest, out', c, es, hw, hrun, hrep, hcapacity, hitems, hgot⟩
    obtain rfl := hs.alone t (by simp [hthread, Thread.Inside])
    rw [hthread] at hw
    cases hw
    rw [Prog.run_ret] at hrun
    obtain ⟨rfl, rfl⟩ := Prod.mk.inj (Except.ok.inj hrun)
    have hout : ∀ u, ¬((setThread { s with
        mutex := release s.mutex t (.tryInsert resourceUrl source) } t .idle).threads u).Inside := by
      intro u hu
      by_cases hut : u = t
      · subst hut
        simp [Thread.Inside] at hu
      · rw [setThread_of_ne _ _ hut] at hu
        exact hut (hs.alone u hu)
    have hlookups : Lookups (setThread { s with
        mutex := release s.mutex t (.tryInsert resourceUrl source) } t .idle) s.cache es
        s.cache.links :=
      Lookups.of_outside (by simp [setThread, release, SharedMutex.unlock]) hrep hout
    rw [hmarks]
    refine Or.inl ⟨_, es, _, hlookups, hcapacity, ?_, fun u => ?_⟩
    · rw [items, effects_returned]
      exact hitems
    · apply (Thread.explained_of_outside (hout u)).mpr
      by_cases hut : u = t
      · subst hut
        rw [got, effects_returned, returns_returned]
        exact hgot
      · rw [hapart.got u hut, hapart.returns u hut]
        exact hs.others u hut

theorem explains_next {event : Event T} (hs : Explains capacity s ms) (horderly : Orderly s event)
    (h : next s event = some s') : Explains capacity s' (ms ++ marks s event) := by
  cases event with
  | call t call => exact explains_call hs h
  | acquire t => exact explains_acquire hs h
  | step t => exact explains_step hs horderly h
  | release t => exact explains_release hs h

theorem explains_initial (capacity : UInt64) (clock : ℕ → ℕ) :
    Explains capacity (initial T capacity clock) [] := by
  have hlookups : Lookups (initial T capacity clock) _ [] _ :=
    Lookups.of_outside rfl (represents_new capacity clock) (by simp [initial, Thread.Inside])
  exact Or.inl ⟨_, [], _, hlookups, rfl, rfl, fun _ => rfl⟩

/-- What a thread has got but not returned is the answer of the call it is in. -/
theorem Explains.current (hs : Explains capacity s ms) (t : T) :
    ∃ current, got capacity ms t = returns t ms ++ current ∧ current.length ≤ 1 ∧
      (s.threads t = .idle → current = []) := by
  rcases hs with ⟨c, es, L, hs⟩ | ⟨w, hs⟩
  · have hexplained := hs.explained t
    cases hthread : s.threads t with
    | idle =>
        rw [hthread] at hexplained
        exact ⟨[], hexplained.trans (List.append_nil _).symm, by simp, fun _ => rfl⟩
    | waiting call =>
        rw [hthread] at hexplained
        exact ⟨[], hexplained.trans (List.append_nil _).symm, by simp, fun _ => rfl⟩
    | inside call relinking rest =>
        rw [hthread] at hexplained
        cases call with
        | tryInsert resourceUrl source => exact hexplained.elim
        | tryLoad resourceUrl destination =>
            cases relinking with
            | true =>
                exact ⟨[], hexplained.2.trans (List.append_nil _).symm, by simp, fun _ => rfl⟩
            | false =>
                rcases hexplained with ⟨-, hgot⟩ | ⟨out, -, hgot⟩
                · exact ⟨[], hgot.trans (List.append_nil _).symm, by simp, fun _ => rfl⟩
                · exact ⟨_, hgot, le_rfl, fun hno => by cases hno⟩
  · by_cases hwt : t = w
    · subst hwt
      rcases hs.answers with ⟨_, _, _, _, _, _, _, hthread, -, -, -, -, hgot⟩
      refine ⟨_, hgot, le_rfl, fun hidle => ?_⟩
      rw [hthread] at hidle
      cases hidle
    · exact ⟨[], (hs.others t hwt).trans (List.append_nil _).symm, by simp, fun _ => rfl⟩

theorem Explains.holds (hs : Explains capacity s ms) (hquiet : Quiescent s) :
    ∃ nodes, s.cache.Holds nodes (items capacity ms) := by
  rcases hs with ⟨c, es, L, hs⟩ | ⟨w, hs⟩
  · have hL : L = c.links :=
      hs.lookups.settled fun t ht => by simp [hquiet t, Thread.Relinking] at ht
    rw [hs.lookups.cache_eq, hL, withLinks_links, ← hs.items_eq]
    exact ⟨_, hs.lookups.represents.holds⟩
  · rcases hs.answers with ⟨_, _, _, _, _, _, _, hthread, -⟩
    rw [hquiet w] at hthread
    cases hthread

end

/-! ## Runs -/

/-- When lookups relink one at a time, every call of every thread answers as the reference does when
the calls are performed one at a time, each at a moment between its call and its return. When no
call is in progress, the cache holds the list of the reference. -/
theorem linearized_of_orderly {capacity : UInt64} {clock : ℕ → ℕ} {events : List (Event T)}
    {s : State T} (horderly : Run.Along next Orderly (initial T capacity clock) events)
    (hrun : Run.run next (initial T capacity clock) events = some s) :
    Linearized (perform capacity.toNat) [] (fun t => s.threads t = .idle)
        (Run.collect next marks (initial T capacity clock) events) ∧
      (Quiescent s → ∃ nodes, s.cache.Holds nodes (after (perform capacity.toNat)
        (effects (Run.collect next marks (initial T capacity clock) events)) [])) := by
  have hexplains : Explains capacity s
      ([] ++ Run.collect next marks (initial T capacity clock) events) :=
    Run.collect_invariant (fun _ _ _ _ hs hP h => explains_next hs hP h)
      (explains_initial capacity clock) horderly hrun
  exact ⟨hexplains.current, hexplains.holds⟩

theorem linearized_of_orderly_inTurn :
    ∃ s, Run.run next (initial Bool 10 id) inTurn = some s ∧
      Linearized (perform 10) [] (fun t => s.threads t = .idle)
        (Run.collect next marks (initial Bool 10 id) inTurn) := by
  have hsome : (Run.run next (initial Bool 10 id) inTurn).isSome := by decide
  exact ⟨_, (Option.some_get hsome).symm,
    (linearized_of_orderly (by decide +kernel) (Option.some_get hsome).symm).1⟩

end FalconLink.SharedCache

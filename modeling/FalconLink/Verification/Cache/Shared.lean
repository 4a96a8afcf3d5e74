import FalconLink.Model.SharedCache
import FalconLink.Verification.Cache.Insertion
import Mathlib.Data.Fintype.Basic

/-! # The list of a shared cache -/

namespace FalconLink.SharedCache

open Cache

variable {T : Type} [DecidableEq T]

/-- Following `next` from `header` to `tailer` visits exactly the nodes of the map, each once,
and `prev` is the inverse of `next` on the way. -/
def Intact (c : Cache) : Prop :=
  ∃ nodes, c.links.Chain (header :: nodes ++ [tailer]) ∧ (header :: nodes ++ [tailer]).Nodup ∧
    ∀ a, a ∈ nodes ↔ ∃ key, c.mapping.lookup key = some a

theorem Represents.intact {c : Cache} {es : List Entry} (h : c.Represents es) : Intact c := by
  refine ⟨es.map Entry.addr, h.chain, h.nodup, fun a => ?_⟩
  simp only [List.mem_map, h.mapped]
  constructor
  · intro hmem
    rcases hmem with ⟨e, he, haddr⟩
    exact ⟨e.key, e, he, rfl, haddr⟩
  · intro hmem
    rcases hmem with ⟨key, e, he, -, haddr⟩
    exact ⟨e, he, haddr⟩

/-! ## The steps of a thread -/

def Thread.Inside : Thread → Prop
  | .inside _ _ _ => True
  | _ => False

def Thread.Relinking : Thread → Prop
  | .inside _ relinking _ => relinking = true
  | _ => False

section Steps

variable {s s' : State T} {t : T}

theorem next_call {call : Call} (h : next s (.call t call) = some s') :
    s.threads t = .idle ∧ s' = setThread s t (.waiting call) := by
  simp only [next] at h
  split at h
  · exact ⟨by assumption, (Option.some.inj h).symm⟩
  · cases h

theorem next_acquire (h : next s (.acquire t) = some s') :
    ∃ call mutex, s.threads t = .waiting call ∧ acquire s.mutex t call = some mutex ∧
      s' = setThread { s with mutex } t (.inside call false call.code) := by
  simp only [next] at h
  split at h
  · rcases Option.map_eq_some_iff.mp h with ⟨mutex, hmutex, heq⟩
    exact ⟨_, mutex, by assumption, hmutex, heq.symm⟩
  · cases h

/-- A step of a thread is the next access of its call. -/
theorem next_step (h : next s (.step t) = some s') :
    ∃ call relinking i, ∃ k : i.Answer → Code call.Result,
      s.threads t = .inside call relinking (.call i k) ∧
        ∀ r cache, exec i s.cache = .ok (r, cache) →
          s' = setThread { s with cache } t
            (.inside call (relinksAfter relinking (.call i k)) (k r)) := by
  simp only [next] at h
  split at h
  · rename_i call relinking rest hthread
    cases rest with
    | ret out => cases h
    | fail fault => cases h
    | call i k =>
        refine ⟨call, relinking, i, k, hthread, fun r cache hexec => ?_⟩
        simp only [Prog.step, hexec, Except.map, Option.map_some, Option.some.injEq] at h
        exact h.symm
  · cases h

theorem next_release (h : next s (.release t) = some s') :
    ∃ call relinking out, s.threads t = .inside call relinking (.ret out) ∧
      s' = setThread { s with mutex := release s.mutex t call } t .idle := by
  simp only [next] at h
  split at h
  · exact ⟨_, _, _, by assumption, (Option.some.inj h).symm⟩
  · cases h

@[simp] theorem setThread_self (s : State T) (t : T) (thread : Thread) :
    (setThread s t thread).threads t = thread := by
  simp [setThread]

theorem setThread_of_ne (s : State T) {t u : T} (thread : Thread) (h : u ≠ t) :
    (setThread s t thread).threads u = s.threads u := by
  simp [setThread, Function.update_of_ne h]

end Steps

/-- A call makes its first access to a link field only while no other call is relinking. -/
def Orderly (s : State T) : Event T → Prop
  | .step t =>
      match s.threads t with
      | .inside _ relinking rest =>
          linksNext rest = true → relinking = false → ∀ u, ¬(s.threads u).Relinking
      | _ => True
  | _ => True

instance decidableRelinking : (thread : Thread) → Decidable thread.Relinking
  | .inside _ relinking _ => inferInstanceAs (Decidable (relinking = true))
  | .idle => isFalse id
  | .waiting _ => isFalse id

instance decidableOrderly [Fintype T] (s : State T) : (event : Event T) → Decidable (Orderly s event)
  | .step t =>
      match h : s.threads t with
      | .inside _ relinking rest => decidable_of_iff
          (linksNext rest = true → relinking = false → ∀ u, ¬(s.threads u).Relinking)
          (by simp [Orderly, h])
      | .idle => isTrue (by simp [Orderly, h])
      | .waiting _ => isTrue (by simp [Orderly, h])
  | .call _ _ => isTrue trivial
  | .acquire _ => isTrue trivial
  | .release _ => isTrue trivial

/-! ## Lookups under the shared lock -/

/-- What is left of a lookup whose node is not on the move. `stored` are the nodes of the
cache. -/
inductive Waits (stored : Addr → Prop) : Code (Bool × Bytes) → Prop where
  | start (resourceUrl destination : Bytes) : Waits stored (tryLoad resourceUrl destination)
  | found {node : Addr} (h : stored node) (destination : Bytes) :
      Waits stored (loadHit node destination)
  | loaded {node : Addr} (h : stored node) (destination : Bytes) :
      Waits stored (refresh node destination)
  | stamping {node : Addr} (h : stored node) (time : ℕ) (destination : Bytes) :
      Waits stored (.call (.writeLastAccess (some node) time) fun _ => .ret (true, destination))
  | done (out : Bool × Bytes) : Waits stored (.ret out)

/-- What is left of a lookup whose node is on the move: once it has made its accesses to link
fields, the node is the last one on the chain. -/
def Moving (c : Cache) (es : List Entry) (L : Links Addr) (rest : Code (Bool × Bytes)) : Prop :=
  ∃ front node back L' destination, es.map Entry.addr = front ++ node :: back ∧
    Relinks c.Allocated rest L
      (updateTimestamp node >>= fun _ => .ret (true, destination)) L' ∧
    L'.Chain (header :: (front ++ back ++ [node]) ++ [tailer])

/-- A thread between the accesses of a lookup, when the cache `c` has entries `es` and the link
fields are `L`. -/
def Thread.Looking (c : Cache) (es : List Entry) (L : Links Addr) : Thread → Prop
  | .inside (.tryLoad _ _) false rest => Waits (· ∈ es.map Entry.addr) rest
  | .inside (.tryLoad _ _) true rest => Moving c es L rest
  | .inside (.tryInsert _ _) _ _ => False
  | _ => True

/-- The state while no thread holds the mutex exclusively: the cache is `c` with entries `es`,
except for its link fields `L`, which one lookup at a time may be changing. -/
structure Lookups (s : State T) (c : Cache) (es : List Entry) (L : Links Addr) : Prop where
  free : s.mutex.writer = none
  represents : c.Represents es
  cache_eq : s.cache = c.withLinks L
  settled : (∀ t, ¬(s.threads t).Relinking) → L = c.links
  single : ∀ t u, (s.threads t).Relinking → (s.threads u).Relinking → t = u
  reading : ∀ t, (s.threads t).Inside → t ∈ s.mutex.readers
  looking : ∀ t, (s.threads t).Looking c es L

/-- The state while thread `t` holds the mutex exclusively: it is the only one inside, and its
call will return and leave a cache that represents some entries. -/
structure Inserting (s : State T) (t : T) : Prop where
  held : s.mutex = ⟨[], some t⟩
  alone : ∀ u, (s.threads u).Inside → u = t
  returns : ∃ resourceUrl source relinking rest out c es,
    s.threads t = .inside (.tryInsert resourceUrl source) relinking rest ∧
      rest.run exec s.cache = .ok (out, c) ∧ c.Represents es

/-- What holds in every state reached by orderly runs. -/
def Inv (s : State T) : Prop :=
  (∃ c es L, Lookups s c es L) ∨ ∃ t, Inserting s t

/-! ## One thread changes -/

/-- `s` after thread `t` has become `thread` and the cache and the mutex have changed. -/
def become (s : State T) (t : T) (thread : Thread) (cache : Cache) (mutex : SharedMutex T) :
    State T :=
  setThread { s with cache, mutex } t thread

section

variable {s s' : State T} {t : T} {c c' : Cache} {es es' : List Entry} {L L' : Links Addr}

theorem Thread.Looking.mono {thread : Thread} (h : thread.Looking c es L)
    (hstored : es.map Entry.addr ⊆ es'.map Entry.addr)
    (hmoving : ∀ rest, thread.Relinking → Moving c es L rest → Moving c' es' L' rest) :
    thread.Looking c' es' L' := by
  cases thread with
  | idle => trivial
  | waiting call => trivial
  | inside call relinking rest =>
      cases call with
      | tryInsert resourceUrl source => exact h
      | tryLoad resourceUrl destination =>
          cases relinking with
          | true => exact hmoving rest rfl h
          | false =>
              cases h with
              | start resourceUrl destination => exact .start resourceUrl destination
              | found h destination => exact .found (hstored h) destination
              | loaded h destination => exact .loaded (hstored h) destination
              | stamping h time destination => exact .stamping (hstored h) time destination
              | done out => exact .done out

/-- What has to be seen to when one thread changes while lookups are going on. -/
theorem Lookups.become {thread : Thread} {cache : Cache} {mutex : SharedMutex T}
    (h : Lookups s c es L) (hfree : mutex.writer = none) (hrep : c'.Represents es')
    (hcache : cache = c'.withLinks L')
    (hsettled : (∀ u ≠ t, ¬(s.threads u).Relinking) → ¬thread.Relinking → L' = c'.links)
    (hsingle : thread.Relinking → ∀ u ≠ t, ¬(s.threads u).Relinking)
    (hreaders : ∀ u ≠ t, u ∈ s.mutex.readers → u ∈ mutex.readers)
    (hreading : thread.Inside → t ∈ mutex.readers) (hthread : thread.Looking c' es' L')
    (hothers : ∀ u ≠ t, (s.threads u).Looking c es L → (s.threads u).Looking c' es' L') :
    Lookups (SharedCache.become s t thread cache mutex) c' es' L' where
  free := hfree
  represents := hrep
  cache_eq := hcache
  settled hno := by
    refine hsettled (fun u hut => ?_) (by simpa [SharedCache.become] using hno t)
    simpa [SharedCache.become, setThread_of_ne _ _ hut] using hno u
  single u v hu hv := by
    by_cases hut : u = t
    · by_cases hvt : v = t
      · rw [hut, hvt]
      · rw [SharedCache.become, setThread_of_ne _ _ hvt] at hv
        rw [SharedCache.become, hut, setThread_self] at hu
        exact absurd hv (hsingle hu v hvt)
    · rw [SharedCache.become, setThread_of_ne _ _ hut] at hu
      by_cases hvt : v = t
      · rw [SharedCache.become, hvt, setThread_self] at hv
        exact absurd hu (hsingle hv u hut)
      · rw [SharedCache.become, setThread_of_ne _ _ hvt] at hv
        exact h.single u v hu hv
  reading u hu := by
    by_cases hut : u = t
    · subst hut
      rw [SharedCache.become, setThread_self] at hu
      exact hreading hu
    · rw [SharedCache.become, setThread_of_ne _ _ hut] at hu
      exact hreaders u hut (h.reading u hu)
  looking u := by
    by_cases hut : u = t
    · subst hut
      rwa [SharedCache.become, setThread_self]
    · rw [SharedCache.become, setThread_of_ne _ _ hut]
      exact hothers u hut (h.looking u)

/-- A thread that was not relinking and does not start to leaves the cache to the others. -/
theorem Lookups.stay {thread : Thread} {mutex : SharedMutex T} (h : Lookups s c es L)
    (hbefore : ¬(s.threads t).Relinking) (hafter : ¬thread.Relinking)
    (hfree : mutex.writer = none) (hreaders : ∀ u ≠ t, u ∈ s.mutex.readers → u ∈ mutex.readers)
    (hreading : thread.Inside → t ∈ mutex.readers) (hthread : thread.Looking c es L) :
    Lookups (SharedCache.become s t thread s.cache mutex) c es L := by
  apply h.become hfree h.represents h.cache_eq
  · intro hothers _
    apply h.settled
    intro u
    by_cases hut : u = t
    · rwa [hut]
    · exact hothers u hut
  · exact fun hrelinking => absurd hrelinking hafter
  · exact hreaders
  · exact hreading
  · exact hthread
  · exact fun u _ hu => hu

omit [DecidableEq T] in
theorem Lookups.not_inside (h : Lookups s c es L) (hreaders : s.mutex.readers = []) (u : T) :
    ¬(s.threads u).Inside := by
  intro hu
  have hmem := h.reading u hu
  rw [hreaders] at hmem
  cases hmem

theorem Thread.Relinking.inside {thread : Thread} (h : thread.Relinking) : thread.Inside := by
  cases thread with
  | idle => exact h
  | waiting call => exact h
  | inside call relinking rest => trivial

omit [DecidableEq T] in
theorem Lookups.of_outside (hfree : s.mutex.writer = none) (hrep : s.cache.Represents es)
    (hout : ∀ u, ¬(s.threads u).Inside) : Lookups s s.cache es s.cache.links where
  free := hfree
  represents := hrep
  cache_eq := (withLinks_links s.cache).symm
  settled _ := rfl
  single u _ hu _ := absurd hu.inside (hout u)
  reading u hu := absurd hu (hout u)
  looking u := by
    have hu := hout u
    cases hthread : s.threads u with
    | idle => trivial
    | waiting call => trivial
    | inside call relinking rest => simp [hthread, Thread.Inside] at hu

/-! ## One event -/

theorem inv_call {call : Call} (hs : Inv s) (h : next s (.call t call) = some s') : Inv s' := by
  rcases next_call h with ⟨hidle, rfl⟩
  rcases hs with ⟨c, es, L, hs⟩ | ⟨w, hs⟩
  · refine Or.inl ⟨c, es, L, ?_⟩
    apply hs.stay
    · simp [hidle, Thread.Relinking]
    · simp [Thread.Relinking]
    · exact hs.free
    · exact fun u _ hu => hu
    · exact fun hno => hno.elim
    · trivial
  · rcases hs.returns with ⟨resourceUrl, source, relinking, rest, out, c, es, hw, hrun, hrep⟩
    have hwt : w ≠ t := by
      intro heq
      rw [heq, hidle] at hw
      cases hw
    refine Or.inr ⟨w, hs.held, fun u hu => ?_, resourceUrl, source, relinking, rest, out, c, es, ?_,
      hrun, hrep⟩
    · by_cases hut : u = t
      · subst hut
        simp [Thread.Inside] at hu
      · rw [setThread_of_ne s _ hut] at hu
        exact hs.alone u hu
    · rw [setThread_of_ne s _ hwt, hw]

theorem tryInsert_returns (h : c.Represents es) (resourceUrl source : Bytes) :
    ∃ out c' es', (tryInsert resourceUrl source).run exec c = .ok (out, c') ∧
      c'.Represents es' := by
  cases hlookup : c.mapping.lookup resourceUrl with
  | some a => exact ⟨false, c, es, tryInsert_present source hlookup, h⟩
  | none =>
      by_cases hlarge : c.capacity.toNat < source.length
      · exact ⟨false, c, es, tryInsert_large hlookup hlarge, h⟩
      · rcases tryInsert_new h hlookup (Nat.le_of_not_lt hlarge) with ⟨c', es', a, hrun, hrep, -⟩
        exact ⟨true, c', _, hrun, hrep⟩

theorem inv_acquire (hs : Inv s) (h : next s (.acquire t) = some s') : Inv s' := by
  rcases next_acquire h with ⟨call, mutex, hwaiting, hmutex, rfl⟩
  rcases hs with ⟨c, es, L, hs⟩ | ⟨w, hs⟩
  · cases call with
    | tryLoad resourceUrl destination =>
        simp only [acquire, SharedMutex.lockShared, hs.free, Option.isNone_none, ite_true,
          Option.some.injEq] at hmutex
        subst hmutex
        refine Or.inl ⟨c, es, L, ?_⟩
        apply hs.stay
        · simp [hwaiting, Thread.Relinking]
        · simp [Thread.Relinking]
        · rfl
        · exact fun u _ hu => List.mem_cons_of_mem t hu
        · exact fun _ => List.mem_cons_self
        · exact Waits.start resourceUrl destination
    | tryInsert resourceUrl source =>
        simp only [acquire, SharedMutex.lock, hs.free, Option.isNone_none, Bool.true_and,
          Option.ite_none_right_eq_some, List.isEmpty_iff, Option.some.injEq] at hmutex
        rcases hmutex with ⟨hreaders, rfl⟩
        have hcache : s.cache = c := by
          rw [hs.cache_eq, hs.settled fun u hu => hs.not_inside hreaders u hu.inside,
            withLinks_links]
        rcases tryInsert_returns hs.represents resourceUrl source with ⟨out, c', es', hrun, hrep⟩
        refine Or.inr ⟨t, by simp [setThread, hreaders], fun u hu => ?_, resourceUrl, source,
          false, tryInsert resourceUrl source, out, c', es', by simp [Call.code], ?_, hrep⟩
        · by_contra hut
          rw [setThread_of_ne _ _ hut] at hu
          exact hs.not_inside hreaders u hu
        · simpa [setThread, hcache] using hrun
  · cases call with
    | tryLoad resourceUrl destination =>
        simp [acquire, SharedMutex.lockShared, hs.held] at hmutex
    | tryInsert resourceUrl source =>
        simp [acquire, SharedMutex.lock, hs.held] at hmutex

/-- The next step of a lookup on the move is an access to a link field, or its node is back in
the list and it reads the clock. -/
theorem Moving.relinks_or_stamps {rest : Code (Bool × Bytes)} (h : Moving c es L rest) :
    (∃ i, ∃ k : i.Answer → Code (Bool × Bytes), ∃ r M, rest = .call i k ∧
        LinkAccess c.Allocated i L r M ∧ Moving c es M (k r)) ∨
      ∃ front e back destination, es = front ++ e :: back ∧ L.Chain (route (front ++ back ++ [e])) ∧
        rest = (updateTimestamp e.addr >>= fun _ => .ret (true, destination)) := by
  rcases h with ⟨front, node, back, L', destination, hes, hrelinks, hL'⟩
  cases hrelinks with
  | refl =>
      rcases List.map_eq_append_iff.mp hes with ⟨es₁, es₂, rfl, rfl, htail⟩
      rcases List.map_eq_cons_iff.mp htail with ⟨e, es₃, rfl, rfl, rfl⟩
      exact Or.inr ⟨es₁, e, es₃, destination, rfl, by simpa [route] using hL', rfl⟩
  | step haccess hrest =>
      exact Or.inl ⟨_, _, _, _, rfl, haccess, front, node, back, L', destination, hes, hrest, hL'⟩

theorem moving_refresh (h : c.Represents es) {node : Addr} (hnode : node ∈ es.map Entry.addr)
    (destination : Bytes) : Moving c es c.links (refresh node destination) := by
  rcases List.mem_map.mp hnode with ⟨e, he, rfl⟩
  rcases List.append_of_mem he with ⟨front, back, rfl⟩
  rcases relinks_toTail h with ⟨L', hrelinks, hL'⟩
  refine ⟨front.map Entry.addr, e.addr, back.map Entry.addr, L', destination, by simp, ?_,
    by simpa [route] using hL'⟩
  exact hrelinks fun _ => updateTimestamp e.addr >>= fun _ => .ret (true, destination)

theorem relinksAfter_of_linkAccess {α : Type} {allocated : Addr → Prop} {i : Instr}
    {r : i.Answer} {k : i.Answer → Code α} (h : LinkAccess allocated i L r L') (b : Bool) :
    relinksAfter b (.call i k) = true := by
  cases h <;> simp [relinksAfter, onLink]

/-- A lookup whose node is on the move, or is about to be, while no other one is. -/
theorem step_moving {resourceUrl destination : Bytes} {relinking : Bool} {i : Instr}
    {k : i.Answer → Code (Bool × Bytes)} (hs : Lookups s c es L)
    (hthread : s.threads t = .inside (.tryLoad resourceUrl destination) relinking (.call i k))
    (hmoving : Moving c es L (.call i k)) (hothers : ∀ u ≠ t, ¬(s.threads u).Relinking)
    (hstep : ∀ r cache, exec i s.cache = .ok (r, cache) →
      s' = setThread { s with cache } t
        (.inside (.tryLoad resourceUrl destination) (relinksAfter relinking (.call i k)) (k r))) :
    ∃ c es L, Lookups s' c es L := by
  have hreading := hs.reading t (by simp [hthread, Thread.Inside])
  rcases hmoving.relinks_or_stamps with
    ⟨i', k', r, M, heq, haccess, hrest⟩ | ⟨front, e, back, destination', rfl, hL, heq⟩
  · cases heq
    have hafter := relinksAfter_of_linkAccess (k := k) haccess relinking
    rw [hstep r (c.withLinks M) (hs.cache_eq ▸ haccess.exec_eq), hafter]
    refine ⟨c, es, M, ?_⟩
    apply hs.become hs.free hs.represents rfl
    · exact fun _ hno => absurd rfl hno
    · exact fun _ => hothers
    · exact fun u _ hu => hu
    · exact fun _ => hreading
    · exact hrest
    · exact fun u hut hu => hu.mono (fun _ ha => ha) fun _ hrel => absurd hrel (hothers u hut)
  · cases heq
    rw [hstep _ _ rfl]
    have hperm := move_perm front back e
    let moved : Cache := { c.withLinks L with clock := fun n => c.clock (n + 1) }
    have hrep : moved.Represents (front ++ back ++ [e]) :=
      (hs.represents.withLinks hperm hL).tick fun n => c.clock (n + 1)
    refine ⟨moved, front ++ back ++ [e], moved.links, ?_⟩
    apply hs.become (t := t) hs.free hrep
    · rw [withLinks_links, hs.cache_eq]
      rfl
    · exact fun _ _ => rfl
    · exact fun hno => absurd hno (by simp [Thread.Relinking, relinksAfter])
    · exact fun u _ hu => hu
    · exact fun _ => hreading
    · exact Waits.stamping (by simp) _ destination'
    · intro u hut hu
      refine hu.mono (fun a ha => ?_) fun _ hrel => absurd hrel (hothers u hut)
      exact (hperm.map Entry.addr).mem_iff.mpr ha

theorem next_step_inserting (hs : Inserting s t) (h : next s (.step t) = some s') :
    Inserting s' t := by
  rcases hs.returns with ⟨resourceUrl, source, relinking, rest, out, c, es, hthread, hrun, hrep⟩
  rcases next_step h with ⟨call, relinking', i, k, hthread', hstep⟩
  rw [hthread] at hthread'
  cases hthread'
  rcases Prog.exists_step hrun with ⟨r, cache, hexec, hrest⟩
  rw [hstep r cache hexec]
  refine ⟨hs.held, fun u hu => ?_, resourceUrl, source, _, k r, out, c, es,
    setThread_self .., hrest, hrep⟩
  by_contra hut
  rw [setThread_of_ne _ _ hut] at hu
  exact hut (hs.alone u hu)

/-- A lookup whose node is not on the move. -/
theorem step_waiting {resourceUrl destination : Bytes} {i : Instr}
    {k : i.Answer → Code (Bool × Bytes)} (hs : Lookups s c es L)
    (hthread : s.threads t = .inside (.tryLoad resourceUrl destination) false (.call i k))
    (horderly : Orderly s (.step t))
    (hstep : ∀ r cache, exec i s.cache = .ok (r, cache) →
      s' = setThread { s with cache } t
        (.inside (.tryLoad resourceUrl destination) (relinksAfter false (.call i k)) (k r))) :
    ∃ c es L, Lookups s' c es L := by
  have hwaits : Waits (· ∈ es.map Entry.addr) (.call i k) := by
    have hlooking := hs.looking t
    rwa [hthread] at hlooking
  have hbefore : ¬(s.threads t).Relinking := by simp [hthread, Thread.Relinking]
  have hreading := hs.reading t (by simp [hthread, Thread.Inside])
  have hnode : ∀ a ∈ es.map Entry.addr, ∃ e n, e ∈ es ∧ e.addr = a ∧
      s.cache.nodes a = some n := by
    intro a ha
    rcases List.mem_map.mp ha with ⟨e, he, rfl⟩
    rcases hs.represents.node he with ⟨n, hn, -⟩
    exact ⟨e, { n with prev := L.prev e.addr, next := L.next e.addr }, he, rfl,
      by simp [hs.cache_eq, withLinks, hn]⟩
  generalize hrest : (Prog.call i k : Code (Bool × Bytes)) = rest at hwaits
  cases hwaits with
  | done out => cases hrest
  | start resourceUrl destination =>
      cases hrest
      rw [hstep _ s.cache rfl]
      refine ⟨c, es, L, ?_⟩
      apply hs.stay hbefore
      · simp [Thread.Relinking, relinksAfter, onLink]
      · exact hs.free
      · exact fun u _ hu => hu
      · exact fun _ => hreading
      · cases hfind : s.cache.mapping.lookup resourceUrl with
        | none => exact Waits.done (false, destination)
        | some node =>
            rw [hs.cache_eq] at hfind
            rcases (hs.represents.mapped resourceUrl node).mp hfind with ⟨e, he, -, haddr⟩
            exact Waits.found (haddr ▸ List.mem_map_of_mem he) destination
  | found h destination =>
      rcases hnode _ h with ⟨e, n, he, rfl, hn⟩
      cases hrest
      rw [hstep n.data s.cache (by simp [exec, deref, hn, Except.map])]
      refine ⟨c, es, L, ?_⟩
      apply hs.stay hbefore
      · simp [Thread.Relinking, relinksAfter, onLink]
      · exact hs.free
      · exact fun u _ hu => hu
      · exact fun _ => hreading
      · exact Waits.loaded h _
  | loaded h destination =>
      cases hrest
      have hnone : ∀ u, ¬(s.threads u).Relinking := by
        simp only [Orderly, hthread] at horderly
        exact horderly rfl trivial
      have hmoving := moving_refresh hs.represents h destination
      rw [← hs.settled hnone] at hmoving
      exact step_moving hs hthread hmoving (fun u _ => hnone u) hstep
  | stamping h time destination =>
      rcases hnode _ h with ⟨e, n, he, rfl, hn⟩
      cases hrest
      rcases List.append_of_mem he with ⟨front, back, rfl⟩
      rw [hstep () (s.cache.stamp e.addr time)
        (by simp [exec, deref, hn, Except.map, stamp])]
      refine ⟨c.stamp e.addr time, front ++ { e with time } :: back, L, ?_⟩
      apply hs.become hs.free (hs.represents.stamp time)
      · rw [hs.cache_eq, stamp_withLinks]
      · intro hothers _
        rw [links_stamp]
        apply hs.settled
        intro u
        by_cases hut : u = t
        · rwa [hut]
        · exact hothers u hut
      · exact fun hno => absurd hno (by simp [Thread.Relinking, relinksAfter, onLink])
      · exact fun u _ hu => hu
      · exact fun _ => hreading
      · exact Waits.done _
      · intro u _ hu
        have halloc : (c.stamp e.addr time).Allocated = c.Allocated :=
          funext fun a => propext (allocated_stamp c e.addr a time)
        refine hu.mono (by simp) fun rest _ hmoving => ?_
        rw [Moving, halloc]
        simpa [Moving] using hmoving

theorem inv_release (hs : Inv s) (h : next s (.release t) = some s') : Inv s' := by
  rcases next_release h with ⟨call, relinking, out, hthread, rfl⟩
  rcases hs with ⟨c, es, L, hs⟩ | ⟨w, hs⟩
  · have hlooking := hs.looking t
    rw [hthread] at hlooking
    cases call with
    | tryInsert resourceUrl source => exact hlooking.elim
    | tryLoad resourceUrl destination =>
        cases relinking with
        | true =>
            rcases hlooking.relinks_or_stamps with ⟨i, k, r, M, hno, -⟩ | ⟨_, _, _, _, -, -, hno⟩
            · cases hno
            · cases hno
        | false =>
            refine Or.inl ⟨c, es, L, ?_⟩
            apply hs.stay
            · simp [hthread, Thread.Relinking]
            · simp [Thread.Relinking]
            · exact hs.free
            · exact fun u hut hu => (List.mem_erase_of_ne hut).mpr hu
            · exact fun hno => hno.elim
            · trivial
  · rcases hs.returns with ⟨resourceUrl, source, relinking', rest, out', c, es, hw, hrun, hrep⟩
    obtain rfl := hs.alone t (by simp [hthread, Thread.Inside])
    rw [hthread] at hw
    cases hw
    rw [Prog.run_ret] at hrun
    obtain ⟨-, rfl⟩ := Prod.mk.inj (Except.ok.inj hrun)
    refine Or.inl ⟨_, es, _, Lookups.of_outside ?_ hrep fun u hu => ?_⟩
    · simp [setThread, release, SharedMutex.unlock]
    · by_cases hut : u = t
      · subst hut
        simp [Thread.Inside] at hu
      · rw [setThread_of_ne _ _ hut] at hu
        exact hut (hs.alone u hu)

theorem inv_step (hs : Inv s) (horderly : Orderly s (.step t)) (h : next s (.step t) = some s') :
    Inv s' := by
  rcases hs with ⟨c, es, L, hs⟩ | ⟨w, hs⟩
  · rcases next_step h with ⟨call, relinking, i, k, hthread, hstep⟩
    have hlooking := hs.looking t
    rw [hthread] at hlooking
    cases call with
    | tryInsert resourceUrl source => exact hlooking.elim
    | tryLoad resourceUrl destination =>
        cases relinking with
        | false => exact Or.inl (step_waiting hs hthread horderly hstep)
        | true =>
            refine Or.inl (step_moving hs hthread hlooking (fun u hut hu => ?_) hstep)
            exact hut (hs.single u t hu (by simp [hthread, Thread.Relinking]))
  · rcases next_step h with ⟨call, relinking, i, k, hthread, -⟩
    obtain rfl := hs.alone t (by simp [hthread, Thread.Inside])
    exact Or.inr ⟨t, next_step_inserting hs h⟩

theorem inv_next {event : Event T} (hs : Inv s) (horderly : Orderly s event)
    (h : next s event = some s') : Inv s' := by
  cases event with
  | call t call => exact inv_call hs h
  | acquire t => exact inv_acquire hs h
  | step t => exact inv_step hs horderly h
  | release t => exact inv_release hs h

omit [DecidableEq T] in
theorem inv_initial (capacity : UInt64) (clock : ℕ → ℕ) : Inv (initial T capacity clock) :=
  Or.inl ⟨_, [], _, Lookups.of_outside rfl (represents_new capacity clock)
    (by simp [initial, Thread.Inside])⟩

omit [DecidableEq T] in
theorem Inv.intact (hs : Inv s) (hquiet : Quiescent s) : Intact s.cache := by
  rcases hs with ⟨c, es, L, hs⟩ | ⟨w, hs⟩
  · have hL : L = c.links := hs.settled fun t ht => by simp [hquiet t, Thread.Relinking] at ht
    rw [hs.cache_eq, hL, withLinks_links]
    exact Represents.intact hs.represents
  · rcases hs.returns with ⟨_, _, _, _, _, _, _, hthread, -⟩
    rw [hquiet w] at hthread
    cases hthread

end

/-! ## Runs -/

/-- When lookups relink one at a time, the list is intact whenever no call is in progress. -/
theorem intact_of_orderly {capacity : UInt64} {clock : ℕ → ℕ} {events : List (Event T)}
    {s : State T} (horderly : Run.Along next Orderly (initial T capacity clock) events)
    (hrun : Run.run next (initial T capacity clock) events = some s) (hquiet : Quiescent s) :
    Intact s.cache :=
  Inv.intact (Run.invariant (fun _ _ _ hs hP h => inv_next hs hP h)
    (inv_initial capacity clock) horderly hrun) hquiet

/-- A call that thread `t` makes in `n` accesses without interruption. -/
def alone (t : Bool) (call : Call) (n : ℕ) : List (Event Bool) :=
  [.call t call, .acquire t] ++ List.replicate n (.step t) ++ [.release t]

/-- Two insertions, one after the other, and two lookups of the inserted keys under way. -/
def storeTwoThenLookUp : List (Event Bool) :=
  alone false (.tryInsert (ascii "a") []) 13 ++ alone false (.tryInsert (ascii "b") []) 16 ++
    [.call false (.tryLoad (ascii "a") []), .call true (.tryLoad (ascii "b") []),
      .acquire false, .acquire true]

/-- Both lookups have read their data before the first one relinks, and the second one relinks
when the first one has. -/
def inTurn : List (Event Bool) :=
  storeTwoThenLookUp ++ List.replicate 2 (.step true) ++ List.replicate 12 (.step false) ++
    List.replicate 11 (.step true) ++ [.step false, .release true, .release false]

/-- Both lookups read the links of their nodes before either has written any. -/
def crossing : List (Event Bool) :=
  storeTwoThenLookUp ++ List.replicate 4 (.step false) ++ List.replicate 4 (.step true) ++
    List.replicate 2 (.step false) ++ List.replicate 2 (.step true) ++
    List.replicate 7 (.step false) ++ List.replicate 7 (.step true) ++
    [.release false, .release true]

theorem intact_of_orderly_inTurn :
    ∃ s, Run.run next (initial Bool 10 id) inTurn = some s ∧ Intact s.cache := by
  have hsome : (Run.run next (initial Bool 10 id) inTurn).isSome := by decide
  refine ⟨_, (Option.some_get hsome).symm, intact_of_orderly (by decide +kernel)
    (Option.some_get hsome).symm fun t => ?_⟩
  cases t <;> rfl

/-- Lookups of neighbouring nodes, each holding the mutex in shared mode, can lose a node: the
list goes from `header` straight to the second node and from there to `tailer`. -/
theorem crossing_loses_node :
    ∃ s, Run.run next (initial Bool 10 id) crossing = some s ∧ Quiescent s ∧ ¬Intact s.cache := by
  have hsome : (Run.run next (initial Bool 10 id) crossing).isSome := by decide
  refine ⟨_, (Option.some_get hsome).symm, fun t => by cases t <;> rfl, ?_⟩
  have hmemory : (Run.run next (initial Bool 10 id) crossing).map (fun s =>
      (s.cache.links.next header, s.cache.links.next 3, s.cache.mapping.lookup (ascii "a"))) =
        some (some 3, some tailer, some 2) := by decide
  rw [← Option.some_get hsome, Option.map_some, Option.some.injEq, Prod.mk.injEq,
    Prod.mk.injEq] at hmemory
  generalize (Run.run next (initial Bool 10 id) crossing).get hsome = s at hmemory
  rcases hmemory with ⟨hheader, hsecond, hfirst⟩
  have hnext : [header, 3, tailer].IsChain (s.cache.links.next · = some ·) := by
    simp [hheader, hsecond]
  intro hintact
  rcases hintact with ⟨nodes, hchain, hnodup, hmem⟩
  have htailer : tailer ∉ nodes := by
    rw [List.nodup_append] at hnodup
    exact fun hin => hnodup.2.2 _ (List.mem_cons_of_mem header hin) _ (by simp) rfl
  have hnodes : nodes = [3] := Links.Chain.unique hchain.nextChain hnext htailer (by decide)
  have hlost := (hmem 2).mpr ⟨ascii "a", hfirst⟩
  rw [hnodes] at hlost
  exact absurd hlost (by decide)

end FalconLink.SharedCache

import FalconLink.Model.Cache
import Mathlib.Algebra.BigOperators.Group.List.Basic
import Mathlib.Algebra.GroupWithZero.Nat

/-! # The list of entries that a cache represents -/

namespace FalconLink.Cache

/-! ## Link fields apart from the rest of the memory -/

def links (c : Cache) : Links Addr where
  prev a := (c.nodes a).bind CacheNode.prev
  next a := (c.nodes a).bind CacheNode.next

/-- The same nodes under other link fields. -/
def withLinks (c : Cache) (L : Links Addr) : Cache :=
  { c with nodes := fun a => (c.nodes a).map fun n => { n with prev := L.prev a, next := L.next a } }

/-- What a node stores besides its links. -/
def payload (c : Cache) (a : Addr) : Option (Bytes × Bytes × ℕ) :=
  (c.nodes a).map fun n => (n.identifier, n.data, n.lastAccess)

def Allocated (c : Cache) (a : Addr) : Prop :=
  (c.nodes a).isSome

@[simp] theorem withLinks_links (c : Cache) : c.withLinks c.links = c := by
  have hnodes : (fun a => (c.nodes a).map fun n =>
      { n with prev := c.links.prev a, next := c.links.next a }) = c.nodes := by
    funext a
    cases h : c.nodes a <;> simp [links, h]
  simp [withLinks, hnodes]

@[simp] theorem payload_withLinks (c : Cache) (L : Links Addr) (a : Addr) :
    (c.withLinks L).payload a = c.payload a := by
  simp [payload, withLinks, Function.comp_def]

@[simp] theorem allocated_withLinks (c : Cache) (L : Links Addr) (a : Addr) :
    (c.withLinks L).Allocated a ↔ c.Allocated a := by
  simp [Allocated, withLinks]

theorem chain_withLinks {c : Cache} {L : Links Addr} {xs : List Addr} (h : L.Chain xs)
    (halloc : ∀ a ∈ xs, c.Allocated a) : (c.withLinks L).links.Chain xs := by
  refine h.congr (fun a ha => ?_) (fun b hb => ?_)
  · obtain ⟨n, hn⟩ := Option.isSome_iff_exists.mp (halloc a (List.dropLast_subset _ ha))
    simp [links, withLinks, hn]
  · obtain ⟨n, hn⟩ := Option.isSome_iff_exists.mp (halloc b (List.mem_of_mem_tail hb))
    simp [links, withLinks, hn]

section Accesses

variable {c : Cache} {L : Links Addr} {a : Addr}

theorem exec_readPrev (h : c.Allocated a) :
    exec (.readPrev (some a)) (c.withLinks L) = .ok (L.prev a, c.withLinks L) := by
  obtain ⟨n, hn⟩ := Option.isSome_iff_exists.mp h
  simp [exec, deref, withLinks, hn, Except.map]

theorem exec_readNext (h : c.Allocated a) :
    exec (.readNext (some a)) (c.withLinks L) = .ok (L.next a, c.withLinks L) := by
  obtain ⟨n, hn⟩ := Option.isSome_iff_exists.mp h
  simp [exec, deref, withLinks, hn, Except.map]

theorem exec_writePrev (h : c.Allocated a) (v : Ptr) :
    exec (.writePrev (some a) v) (c.withLinks L) = .ok ((), c.withLinks (L.setPrev a v)) := by
  obtain ⟨n, hn⟩ := Option.isSome_iff_exists.mp h
  have hnodes : (c.withLinks L).setNode a (some { n with prev := v, next := L.next a }) =
      c.withLinks (L.setPrev a v) := by
    simp only [setNode, withLinks, Links.setPrev]
    congr 1
    funext b
    by_cases hb : b = a
    · subst hb
      simp [hn]
    · simp [Function.update_of_ne hb]
  simp [exec, deref, withLinks, hn, Except.map] at hnodes ⊢
  exact hnodes

theorem exec_writeNext (h : c.Allocated a) (v : Ptr) :
    exec (.writeNext (some a) v) (c.withLinks L) = .ok ((), c.withLinks (L.setNext a v)) := by
  obtain ⟨n, hn⟩ := Option.isSome_iff_exists.mp h
  have hnodes : (c.withLinks L).setNode a (some { n with prev := L.prev a, next := v }) =
      c.withLinks (L.setNext a v) := by
    simp only [setNode, withLinks, Links.setNext]
    congr 1
    funext b
    by_cases hb : b = a
    · subst hb
      simp [hn]
    · simp [Function.update_of_ne hb]
  simp [exec, deref, withLinks, hn, Except.map] at hnodes ⊢
  exact hnodes

end Accesses

/-! ## List surgery -/

/-- One access to a link field of an allocated node. -/
inductive LinkAccess (allocated : Addr → Prop) :
    (i : Instr) → Links Addr → i.Answer → Links Addr → Prop where
  | readPrev {L : Links Addr} {a : Addr} (h : allocated a) :
      LinkAccess allocated (.readPrev (some a)) L (L.prev a) L
  | readNext {L : Links Addr} {a : Addr} (h : allocated a) :
      LinkAccess allocated (.readNext (some a)) L (L.next a) L
  | writePrev {L : Links Addr} {a : Addr} (h : allocated a) (v : Ptr) :
      LinkAccess allocated (.writePrev (some a) v) L () (L.setPrev a v)
  | writeNext {L : Links Addr} {a : Addr} (h : allocated a) (v : Ptr) :
      LinkAccess allocated (.writeNext (some a) v) L () (L.setNext a v)

/-- The program `p`, started on the links `L`, accesses nothing but link fields until `q` is
left to run on the links `L'`. -/
inductive Relinks {α : Type} (allocated : Addr → Prop) :
    Code α → Links Addr → Code α → Links Addr → Prop where
  | refl (p : Code α) (L : Links Addr) : Relinks allocated p L p L
  | step {i : Instr} {next : i.Answer → Code α} {r : i.Answer} {L M L' : Links Addr}
      {q : Code α} (h : LinkAccess allocated i L r M) (hrest : Relinks allocated (next r) M q L') :
      Relinks allocated (.call i next) L q L'

theorem LinkAccess.exec_eq {c : Cache} {i : Instr} {L M : Links Addr} {r : i.Answer}
    (h : LinkAccess c.Allocated i L r M) :
    exec i (c.withLinks L) = .ok (r, c.withLinks M) := by
  cases h with
  | readPrev h => exact exec_readPrev h
  | readNext h => exact exec_readNext h
  | writePrev h v => exact exec_writePrev h v
  | writeNext h v => exact exec_writeNext h v

theorem Relinks.run_eq {α : Type} {c : Cache} {p q : Code α} {L L' : Links Addr}
    (h : Relinks c.Allocated p L q L') :
    p.run exec (c.withLinks L) = q.run exec (c.withLinks L') := by
  induction h with
  | refl p L => rfl
  | step haccess _ ih => rw [Prog.run_call_ok haccess.exec_eq, ih]

theorem Relinks.trans {α : Type} {allocated : Addr → Prop} {p q r : Code α}
    {L M N : Links Addr} (h : Relinks allocated p L q M) (h' : Relinks allocated q M r N) :
    Relinks allocated p L r N := by
  induction h with
  | refl p L => exact h'
  | step haccess _ ih => exact .step haccess (ih h')

section Surgery

variable {β : Type} {allocated : Addr → Prop} {L : Links Addr} {p n q : Addr}

/-- `removeFromList` unlinks a node from between its neighbours. -/
theorem relinks_removeFromList (hp : allocated p) (hn : allocated n) (hq : allocated q)
    (hpn : L.Adj p n) (hnq : L.Adj n q) (k : Unit → Code β) :
    Relinks allocated (removeFromList n >>= k) L (k ()) (L.unlink p q) := by
  have hprev : L.prev n = some p := hpn.2
  have hnext : L.next n = some q := hnq.1
  apply Relinks.step (.readPrev hn)
  apply Relinks.step (.readNext hn)
  rw [hprev, hnext]
  apply Relinks.step (.writeNext hp _)
  apply Relinks.step (.writePrev hq _)
  exact Relinks.refl (k ()) _

/-- `appendToTail` links a node in before the sentinel `tailer`. -/
theorem relinks_appendToTail (hp : allocated p) (hn : allocated n) (ht : allocated tailer)
    (hprev : L.prev tailer = some p) (k : Unit → Code β) :
    Relinks allocated (appendToTail n >>= k) L (k ()) (L.relink p n tailer) := by
  apply Relinks.step (.readPrev ht)
  rw [hprev]
  apply Relinks.step (.writeNext hp _)
  apply Relinks.step (.writePrev ht _)
  apply Relinks.step (.writePrev hn _)
  apply Relinks.step (.writeNext hn _)
  exact Relinks.refl (k ()) _

end Surgery

/-! ## Represented entries -/

/-- A node of the list, as the cache sees it from outside. -/
structure Entry where
  addr : Addr
  key : Bytes
  data : Bytes
  time : ℕ

/-- The addresses met on the way from `header` to `tailer`. -/
def route (es : List Entry) : List Addr :=
  header :: es.map Entry.addr ++ [tailer]

/-- The cache holds exactly the entries `es`, least recently used first: list, hash map and
byte counter agree. -/
structure Represents (c : Cache) (es : List Entry) : Prop where
  chain : c.links.Chain (route es)
  nodup : (route es).Nodup
  sentinels : c.Allocated header ∧ c.Allocated tailer
  stored : ∀ e ∈ es, c.payload e.addr = some (e.key, e.data, e.time)
  mapped : ∀ key a, c.mapping.lookup key = some a ↔ ∃ e ∈ es, e.key = key ∧ e.addr = a
  occupied : c.occupancy.toNat = (es.map fun e => e.data.length).sum
  within : c.occupancy.toNat ≤ c.capacity.toNat
  bounded : ∀ a, c.Allocated a → a < c.fresh

theorem addr_mem_route {es : List Entry} {e : Entry} (he : e ∈ es) : e.addr ∈ route es := by
  simp [route, List.mem_map_of_mem he]

theorem represents_new (capacity : UInt64) (clock : ℕ → ℕ) :
    Represents (new capacity clock) [] where
  chain := by simp [Links.Chain, route, Links.Adj, links, new, header, tailer]
  nodup := by decide
  sentinels := by simp [Allocated, new, header, tailer]
  stored := by simp
  mapped := by simp [new]
  occupied := by simp [new]
  within := by simp [new]
  bounded := by
    intro a ha
    simp only [Allocated, new] at ha
    show a < 2
    by_cases h₀ : a = header
    · rw [h₀]; decide
    · by_cases h₁ : a = tailer
      · rw [h₁]; decide
      · simp [h₀, h₁] at ha

namespace Represents

variable {c : Cache} {es : List Entry}

theorem node (h : Represents c es) {e : Entry} (he : e ∈ es) :
    ∃ n, c.nodes e.addr = some n ∧ n.identifier = e.key ∧ n.data = e.data ∧
      n.lastAccess = e.time := by
  simpa [payload] using h.stored e he

theorem allocated (h : Represents c es) {a : Addr} (ha : a ∈ route es) : c.Allocated a := by
  simp only [route, List.cons_append, List.mem_cons, List.mem_append, List.mem_map,
    List.not_mem_nil, or_false] at ha
  rcases ha with rfl | ⟨e, he, rfl⟩ | rfl
  · exact h.sentinels.1
  · rcases h.node he with ⟨n, hn, -⟩
    simp [Allocated, hn]
  · exact h.sentinels.2

theorem addr_nodup (h : Represents c es) : (es.map Entry.addr).Nodup := by
  have hroute := h.nodup
  simp only [route, List.cons_append, List.nodup_cons, List.nodup_append] at hroute
  exact hroute.2.1

theorem addr_injective (h : Represents c es) {e e' : Entry} (he : e ∈ es) (he' : e' ∈ es)
    (haddr : e.addr = e'.addr) : e = e' :=
  List.inj_on_of_nodup_map h.addr_nodup he he' haddr

theorem key_injective (h : Represents c es) {e e' : Entry} (he : e ∈ es) (he' : e' ∈ es)
    (hkey : e.key = e'.key) : e = e' := by
  have h₁ := (h.mapped e.key e.addr).mpr ⟨e, he, rfl, rfl⟩
  have h₂ := (h.mapped e.key e'.addr).mpr ⟨e', he', hkey.symm, rfl⟩
  rw [h₁] at h₂
  exact h.addr_injective he he' (Option.some.inj h₂)

theorem lookup_eq_none (h : Represents c es) {key : Bytes} :
    c.mapping.lookup key = none ↔ ∀ e ∈ es, e.key ≠ key := by
  constructor
  · intro hnone e he hkey
    have hsome := (h.mapped key e.addr).mpr ⟨e, he, hkey, rfl⟩
    rw [hnone] at hsome
    cases hsome
  · intro hne
    cases hlookup : c.mapping.lookup key with
    | none => rfl
    | some a =>
        obtain ⟨e, he, hkey, -⟩ := (h.mapped key a).mp hlookup
        exact absurd hkey (hne e he)

/-- Reordering the entries is a matter of link fields only. -/
theorem withLinks (h : Represents c es) {es' : List Entry} (hperm : es'.Perm es)
    {L : Links Addr} (hL : L.Chain (route es')) : Represents (c.withLinks L) es' := by
  have hroute : (route es').Perm (route es) :=
    ((hperm.map Entry.addr).append_right [tailer]).cons header
  refine ⟨chain_withLinks hL fun a ha => h.allocated (hroute.mem_iff.mp ha),
    hroute.nodup_iff.mpr h.nodup, by simpa using h.sentinels, ?_, ?_, ?_, h.within, ?_⟩
  · intro e he
    rw [payload_withLinks]
    exact h.stored e (hperm.mem_iff.mp he)
  · intro key a
    rw [show (c.withLinks L).mapping = c.mapping from rfl, h.mapped key a]
    simp only [hperm.mem_iff]
  · rw [show (c.withLinks L).occupancy = c.occupancy from rfl, h.occupied]
    exact ((hperm.map _).sum_eq).symm
  · intro a ha
    exact h.bounded a (by simpa using ha)

end Represents

/-! ## Time stamps -/

def stamp (c : Cache) (a : Addr) (t : ℕ) : Cache :=
  c.setNode a ((c.nodes a).map fun n => { n with lastAccess := t })

theorem run_updateTimestamp {c : Cache} {a : Addr} (h : c.Allocated a) :
    (updateTimestamp a).run exec c =
      .ok ((), { c.stamp a (c.clock 0) with clock := fun n => c.clock (n + 1) }) := by
  obtain ⟨n, hn⟩ := Option.isSome_iff_exists.mp h
  simp only [updateTimestamp, access, Prog.op_bind]
  rw [Prog.run_call_ok (r := c.clock 0) rfl]
  simp [Prog.op, Prog.run, exec, deref, hn, Except.map, stamp, setNode]

theorem links_stamp (c : Cache) (a : Addr) (t : ℕ) : (c.stamp a t).links = c.links := by
  unfold links
  congr 1 <;>
    · funext b
      by_cases hb : b = a
      · subst hb
        cases hn : c.nodes b <;> simp [stamp, setNode, hn]
      · simp [stamp, setNode, Function.update_of_ne hb]

theorem stamp_withLinks (c : Cache) (L : Links Addr) (a : Addr) (t : ℕ) :
    (c.withLinks L).stamp a t = (c.stamp a t).withLinks L := by
  simp only [stamp, setNode, withLinks, Cache.mk.injEq, true_and, and_true]
  funext b
  by_cases hb : b = a
  · subst hb
    cases hn : c.nodes b <;> simp
  · simp [Function.update_of_ne hb]

theorem payload_stamp_self {c : Cache} {a : Addr} {key data : Bytes} {s : ℕ} (t : ℕ)
    (h : c.payload a = some (key, data, s)) : (c.stamp a t).payload a = some (key, data, t) := by
  simp only [payload, Option.map_eq_some_iff, Prod.mk.injEq] at h
  obtain ⟨n, hn, rfl, rfl, rfl⟩ := h
  simp [payload, stamp, setNode, hn]

theorem payload_stamp_of_ne {c : Cache} {a b : Addr} (t : ℕ) (h : b ≠ a) :
    (c.stamp a t).payload b = c.payload b := by
  simp [payload, stamp, setNode, Function.update_of_ne h]

theorem allocated_stamp (c : Cache) (a b : Addr) (t : ℕ) :
    (c.stamp a t).Allocated b ↔ c.Allocated b := by
  by_cases hb : b = a
  · subst hb
    simp [Allocated, stamp, setNode]
  · simp [Allocated, stamp, setNode, Function.update_of_ne hb]

/-- Reading the clock changes none of the entries. -/
theorem Represents.tick {c : Cache} {es : List Entry} (h : Represents c es) (clock : ℕ → ℕ) :
    Represents { c with clock := clock } es :=
  ⟨h.chain, h.nodup, h.sentinels, h.stored, h.mapped, h.occupied, h.within, h.bounded⟩

theorem Represents.stamp {c : Cache} {front back : List Entry} {e : Entry}
    (h : Represents c (front ++ e :: back)) (t : ℕ) :
    Represents (c.stamp e.addr t) (front ++ { e with time := t } :: back) := by
  have hroute : route (front ++ { e with time := t } :: back) = route (front ++ e :: back) := by
    simp [route]
  have hother : ∀ e' ∈ front ++ back, (c.stamp e.addr t).payload e'.addr =
      some (e'.key, e'.data, e'.time) := by
    intro e' he'
    have hnodup := h.addr_nodup
    rw [List.map_append, List.map_cons, List.nodup_middle, ← List.map_append] at hnodup
    have hne : e'.addr ≠ e.addr :=
      ne_of_mem_of_not_mem (List.mem_map_of_mem he') (List.nodup_cons.mp hnodup).1
    refine (payload_stamp_of_ne t hne).trans (h.stored e' ?_)
    rw [List.mem_append] at he' ⊢
    exact he'.imp_right (List.mem_cons_of_mem e)
  refine ⟨?_, hroute ▸ h.nodup, ?_, ?_, ?_, ?_, h.within, ?_⟩
  · rw [hroute]
    exact (links_stamp c e.addr t) ▸ h.chain
  · exact ⟨(allocated_stamp ..).mpr h.sentinels.1, (allocated_stamp ..).mpr h.sentinels.2⟩
  · intro e' he'
    rcases List.mem_append.mp he' with he' | he'
    · exact hother e' (List.mem_append_left _ he')
    · rcases List.mem_cons.mp he' with rfl | he'
      · exact payload_stamp_self t (h.stored e (by simp))
      · exact hother e' (List.mem_append_right _ he')
  · intro key a
    rw [show (c.stamp e.addr t).mapping = c.mapping from rfl, h.mapped key a]
    simp only [List.mem_append, List.mem_cons, or_and_right, exists_or, exists_eq_left]
  · rw [show (c.stamp e.addr t).occupancy = c.occupancy from rfl, h.occupied]
    simp
  · intro a ha
    exact h.bounded a ((allocated_stamp ..).mp ha)

end FalconLink.Cache

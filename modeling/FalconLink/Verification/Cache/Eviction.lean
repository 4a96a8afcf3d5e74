import FalconLink.Verification.Cache.Lookup
import FalconLink.Foundation.Recency
import Mathlib.Logic.Relation

/-! # Evictions -/

namespace FalconLink.Cache

section

variable {c : Cache}

theorem chain_setNode {a : Addr} {n : Option CacheNode} {xs : List Addr} (h : c.links.Chain xs)
    (ha : a ∉ xs) : (c.setNode a n).links.Chain xs := by
  refine h.congr (fun b hb => ?_) (fun b hb => ?_)
  · have hne : b ≠ a := ne_of_mem_of_not_mem (List.dropLast_subset _ hb) ha
    simp [links, setNode, Function.update_of_ne hne]
  · have hne : b ≠ a := ne_of_mem_of_not_mem (List.mem_of_mem_tail hb) ha
    simp [links, setNode, Function.update_of_ne hne]

theorem payload_setNode_of_ne {a b : Addr} (n : Option CacheNode) (h : b ≠ a) :
    (c.setNode a n).payload b = c.payload b := by
  simp [payload, setNode, Function.update_of_ne h]

theorem allocated_setNode_of_ne {a b : Addr} (n : Option CacheNode) (h : b ≠ a) :
    (c.setNode a n).Allocated b ↔ c.Allocated b := by
  simp [Allocated, setNode, Function.update_of_ne h]

/-- Forgetting an entry that is already off the list. -/
theorem Represents.forget {e : Entry} {es : List Entry} (h : Represents c (e :: es))
    {L : Links Addr} (hL : L.Chain (route es)) :
    Represents { (c.withLinks L).setNode e.addr none with
      mapping := c.mapping.erase e.key
      occupancy := c.occupancy - UInt64.ofNat e.data.length } es := by
  obtain ⟨hnodup, hnotMem, hsub⟩ := route_remove [] h.nodup
  have hne : ∀ a ∈ route es, a ≠ e.addr := fun a ha => ne_of_mem_of_not_mem ha hnotMem
  have halloc : ∀ a ∈ route es, ((c.withLinks L).setNode e.addr none).Allocated a := by
    intro a ha
    rw [allocated_setNode_of_ne _ (hne a ha), allocated_withLinks]
    exact h.allocated (hsub ha)
  have hsum : c.occupancy.toNat = e.data.length + (es.map fun e => e.data.length).sum := by
    simpa using h.occupied
  have hsize : (UInt64.ofNat e.data.length).toNat = e.data.length :=
    UInt64.toNat_ofNat_of_lt' (by have := c.occupancy.toNat_lt; simp only [UInt64.size]; omega)
  have hocc : (c.occupancy - UInt64.ofNat e.data.length).toNat =
      c.occupancy.toNat - e.data.length := by
    rw [UInt64.toNat_sub_of_le _ _ (UInt64.le_iff_toNat_le.mpr (by omega)), hsize]
  refine ⟨?_, hnodup, ⟨halloc header (by simp [route]), halloc tailer (by simp [route])⟩, ?_, ?_,
    ?_, ?_, ?_⟩
  · exact chain_setNode (chain_withLinks hL fun a ha => h.allocated (hsub ha)) hnotMem
  · intro e' he'
    have hmem : e'.addr ∈ route es := addr_mem_route he'
    exact (payload_setNode_of_ne none (hne _ hmem)).trans
      ((payload_withLinks c L _).trans (h.stored e' (List.mem_cons_of_mem e he')))
  · intro key a
    by_cases hkey : key = e.key
    · subst hkey
      simp only [AList.lookup_erase, reduceCtorEq, false_iff, not_exists, not_and]
      intro e' he' hkey'
      have heq := h.key_injective (List.mem_cons_of_mem e he') List.mem_cons_self hkey'
      have hmem : e'.addr ∈ route es := addr_mem_route he'
      exact absurd (congrArg Entry.addr heq) (hne _ hmem)
    · simp only [AList.lookup_erase_ne hkey, h.mapped key a, List.mem_cons]
      constructor
      · rintro ⟨e', rfl | he', hkey', haddr⟩
        · exact absurd hkey'.symm hkey
        · exact ⟨e', he', hkey', haddr⟩
      · rintro ⟨e', he', hrest⟩
        exact ⟨e', Or.inr he', hrest⟩
  · show (c.occupancy - UInt64.ofNat e.data.length).toNat = _
    omega
  · show (c.occupancy - UInt64.ofNat e.data.length).toNat ≤ c.capacity.toNat
    have := h.within
    omega
  · intro a ha
    apply h.bounded a
    by_cases hae : a = e.addr
    · exact hae ▸ h.allocated (by simp [route])
    · rwa [show ({ (c.withLinks L).setNode e.addr none with
        mapping := c.mapping.erase e.key
        occupancy := c.occupancy - UInt64.ofNat e.data.length } : Cache).Allocated a ↔
          ((c.withLinks L).setNode e.addr none).Allocated a from Iff.rfl,
        allocated_setNode_of_ne _ hae, allocated_withLinks] at ha

/-- `evictOne` evicts the least recently used entry; its `assert` holds. -/
theorem evictOne_spec {e : Entry} {es : List Entry} (h : Represents c (e :: es)) :
    ∃ c', evictOne.run exec c = .ok ((), c') ∧ Represents c' es ∧
      c'.capacity = c.capacity ∧ c'.payload header = c.payload header ∧ c'.clock = c.clock := by
  obtain ⟨L, hremove, hL⟩ := removeFromList_spec [] h
  have hheader : header ≠ e.addr :=
    ne_of_mem_of_not_mem (b := e.addr) (by simp [route]) (route_remove [] h.nodup).2.1
  refine ⟨_, ?_, h.forget hL, rfl,
    (payload_setNode_of_ne none hheader).trans (payload_withLinks c L header), rfl⟩
  have hnext : exec (.readNext (some header)) c = .ok (some e.addr, c) := by
    have hfirst : c.links.next header = some e.addr := (List.isChain_cons_cons.mp h.chain).1.1
    simpa [hfirst] using exec_readNext (L := c.links) h.sentinels.1
  rcases h.node List.mem_cons_self with ⟨n, hn, hid, hdata, -⟩
  have hfind : c.mapping.lookup e.key = some e.addr :=
    (h.mapped e.key e.addr).mpr ⟨e, List.mem_cons_self, rfl, rfl⟩
  simp only [evictOne, access, Prog.op_bind]
  rw [Prog.run_call_ok hnext,
    Prog.run_call_ok (r := e.data) (t := c) (by simp [exec, deref, hn, hdata, Except.map]),
    Prog.run_call_ok (r := e.key) (t := c) (by simp [exec, deref, hn, hid, Except.map]),
    Prog.run_call_ok (r := some e.addr) (t := c) (by simp [exec, hfind])]
  simp only
  have hrun := (hremove fun _ => .call (.erase e.key) fun _ => .call .getOccupancy fun occupancy =>
    access (.setOccupancy (occupancy - UInt64.ofNat e.data.length))).run_eq
  rw [withLinks_links] at hrun
  refine hrun.trans ?_
  rw [Prog.run_call_ok (r := ()) (by
    simp only [exec, show (c.withLinks L).mapping = c.mapping from rfl, hfind]; rfl)]
  rfl

/-- The key and data of an entry. -/
def Entry.item (e : Entry) : Bytes × Bytes :=
  (e.key, e.data)

theorem Represents.mapping_isEmpty {es : List Entry} (h : Represents c es) :
    c.mapping.entries.isEmpty = es.isEmpty := by
  cases es with
  | nil =>
      have hkeys : ∀ key, key ∉ c.mapping := by
        intro key
        rw [← AList.lookup_eq_none, h.lookup_eq_none]
        simp
      cases hentries : c.mapping.entries with
      | nil => rfl
      | cons s rest =>
          refine absurd ?_ (hkeys s.1)
          rw [AList.mem_keys, AList.keys, hentries]
          simp [List.keys]
  | cons e es =>
      have hfind : c.mapping.lookup e.key = some e.addr :=
        (h.mapped e.key e.addr).mpr ⟨e, List.mem_cons_self, rfl, rfl⟩
      cases hentries : c.mapping.entries with
      | nil => simp [AList.lookup, hentries] at hfind
      | cons s rest => rfl

/-- The subtraction in the loop condition does not wrap, so the condition says that there is
an entry left and too little room. -/
theorem needsEviction_spec {es : List Entry} (h : Represents c es) (need : ℕ) :
    (needsEviction need).run exec c =
      .ok (!es.isEmpty && decide (c.capacity.toNat < c.occupancy.toNat + need), c) := by
  have hsub : (c.capacity - c.occupancy).toNat = c.capacity.toNat - c.occupancy.toNat :=
    UInt64.toNat_sub_of_le _ _ (UInt64.le_iff_toNat_le.mpr h.within)
  have hiff : (c.capacity - c.occupancy).toNat < need ↔
      c.capacity.toNat < c.occupancy.toNat + need := by
    have := h.within
    omega
  simp only [needsEviction, access, Prog.op_bind]
  rw [Prog.run_call_ok (r := c.mapping.entries.isEmpty) (t := c) rfl,
    Prog.run_call_ok (r := c.capacity) (t := c) rfl,
    Prog.run_call_ok (r := c.occupancy) (t := c) rfl, h.mapping_isEmpty]
  simp [hiff]

/-- One round of the eviction loop: its condition holds and `evictOne` returns. -/
def Round (need : ℕ) (c c' : Cache) : Prop :=
  (needsEviction need).run exec c = .ok (true, c) ∧ evictOne.run exec c = .ok ((), c')

/-- What has become of the entries `es` after some rounds. -/
structure Evicted (need : ℕ) (c : Cache) (es : List Entry) (c' : Cache) (es' : List Entry) :
    Prop where
  represents : Represents c' es'
  recent : es' <:+ es
  room : Recency.makeRoom List.length c.capacity.toNat need (es'.map Entry.item) =
    Recency.makeRoom List.length c.capacity.toNat need (es.map Entry.item)
  capacity : c'.capacity = c.capacity
  header : c'.payload header = c.payload header
  clock : c'.clock = c.clock

theorem Represents.total_eq {es : List Entry} (h : Represents c es) :
    Recency.total List.length (es.map Entry.item) = c.occupancy.toNat := by
  rw [h.occupied]
  simp [Recency.total, Entry.item, Function.comp_def]

/-- A round is taken from a cache with a least recently used entry, and evicts it. -/
theorem Represents.round {c' : Cache} {es : List Entry} {need : ℕ} (h : Represents c es)
    (hround : Round need c c') : ∃ rest, Evicted need c es c' rest := by
  have hcond := hround.1
  rw [needsEviction_spec h need] at hcond
  cases es with
  | nil => simp at hcond
  | cons e rest =>
      have hfull : c.capacity.toNat < c.occupancy.toNat + need := by simpa using hcond
      rcases evictOne_spec h with ⟨c₁, hrun, hrep, hcap, hheader, hclock⟩
      have heq := hround.2
      rw [hrun] at heq
      rw [← (Prod.mk.inj (Except.ok.inj heq)).2]
      refine ⟨rest, hrep, List.suffix_cons e rest, ?_, hcap, hheader, hclock⟩
      rw [List.map_cons, Recency.makeRoom, if_neg]
      rw [← List.map_cons, h.total_eq]
      omega

theorem Represents.rounds {c' : Cache} {es : List Entry} {need : ℕ} (h : Represents c es)
    (hrounds : Relation.ReflTransGen (Round need) c c') : ∃ es', Evicted need c es c' es' := by
  induction hrounds with
  | refl => exact ⟨es, h, List.suffix_rfl, rfl, rfl, rfl, rfl⟩
  | tail _ hround ih =>
      rcases ih with ⟨es₁, h₁⟩
      rcases h₁.represents.round hround with ⟨es₂, h₂⟩
      have hroom := h₂.room
      rw [h₁.capacity, h₁.room] at hroom
      exact ⟨es₂, h₂.represents, h₂.recent.trans h₁.recent, hroom, h₂.capacity.trans h₁.capacity,
        h₂.header.trans h₁.header, h₂.clock.trans h₁.clock⟩

/-- The loop ends: after finitely many rounds its condition is false, and that is the state in
which `evictWhile` returns. -/
theorem evictWhile_ends (need : ℕ) :
    ∀ {es : List Entry} {c : Cache} {rounds : ℕ}, Represents c es → es.length ≤ rounds →
      ∃ c', Relation.ReflTransGen (Round need) c c' ∧
        (needsEviction need).run exec c' = .ok (false, c') ∧
        (evictWhile need rounds).run exec c = .ok ((), c') := by
  intro es
  induction es with
  | nil =>
      intro c rounds h _
      have hcond : (needsEviction need).run exec c = .ok (false, c) := by
        simpa using needsEviction_spec h need
      refine ⟨c, .refl, hcond, ?_⟩
      cases rounds with
      | zero => rfl
      | succ rounds =>
          rw [evictWhile, Prog.run_bind_ok hcond]
          rfl
  | cons e es ih =>
      intro c rounds h hrounds
      obtain ⟨rounds, rfl⟩ : ∃ n, rounds = n + 1 := ⟨rounds - 1, by simp at hrounds; omega⟩
      have hcond := needsEviction_spec h need
      by_cases hroom : c.capacity.toNat < c.occupancy.toNat + need
      · simp only [hroom, List.isEmpty_cons, Bool.not_false, decide_true, Bool.and_self] at hcond
        rcases evictOne_spec h with ⟨c₁, hevict, h₁, -⟩
        rcases ih h₁ (by simpa using hrounds) with ⟨c₂, hsteps, hstop, hrun⟩
        refine ⟨c₂, .head ⟨hcond, hevict⟩ hsteps, hstop, ?_⟩
        rw [evictWhile, Prog.run_bind_ok hcond, if_pos rfl, Prog.run_bind_ok hevict, hrun]
      · simp only [hroom, decide_false, Bool.and_false] at hcond
        refine ⟨c, .refl, hcond, ?_⟩
        rw [evictWhile, Prog.run_bind_ok hcond]
        rfl

/-- The loop evicts what `makeRoom` drops. -/
theorem evictWhile_spec (need : ℕ) {es : List Entry} {rounds : ℕ} (h : Represents c es)
    (hrounds : es.length ≤ rounds) :
    ∃ c' es', (evictWhile need rounds).run exec c = .ok ((), c') ∧ Represents c' es' ∧
      es' <:+ es ∧
      es'.map Entry.item =
        Recency.makeRoom List.length c.capacity.toNat need (es.map Entry.item) ∧
      c'.capacity = c.capacity ∧ c'.payload header = c.payload header ∧
      c'.clock = c.clock := by
  rcases evictWhile_ends need h hrounds with ⟨c', hsteps, hstop, hrun⟩
  rcases h.rounds hsteps with ⟨es', hevicted⟩
  refine ⟨c', es', hrun, hevicted.represents, hevicted.recent, ?_, hevicted.capacity,
    hevicted.header, hevicted.clock⟩
  rw [needsEviction_spec hevicted.represents] at hstop
  rw [← hevicted.room]
  cases es' with
  | nil => rfl
  | cons e rest =>
      have hroom : ¬c'.capacity.toNat < c'.occupancy.toNat + need := by simpa using hstop
      rw [List.map_cons, Recency.makeRoom, if_pos]
      rw [← List.map_cons, hevicted.represents.total_eq, ← hevicted.capacity]
      omega

end

end FalconLink.Cache

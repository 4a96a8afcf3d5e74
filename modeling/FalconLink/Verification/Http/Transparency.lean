import FalconLink.Verification.Cache.Insertion
import FalconLink.Verification.Http.Handler

/-! # The handler on top of the cache

What is known of the entries of the cache is kept by every access of every handler, so it can
be used however the accesses of several handlers follow each other.
-/

namespace FalconLink.Http

open Cache

/-! ## Caches with known entries -/

/-- The cache is well formed, and `P` holds of the key and the data of every entry. -/
def Holding (P : Bytes → Bytes → Prop) (c : Cache) : Prop :=
  ∃ es, c.Represents es ∧ ∀ e ∈ es, P e.key e.data

/-- Every cached entry holds the contents of the file it is named after. -/
def Faithful (env : Env) : Cache → Prop :=
  Holding fun path data => env.fs path = .regular data

/-- The data that the cache has for a path. -/
def cachedData (c : Cache) (path : Bytes) : Option Bytes :=
  (c.mapping.lookup path).bind fun a => (c.payload a).map fun (_, data, _) => data

theorem holding_new (P : Bytes → Bytes → Prop) (capacity : UInt64) (clock : ℕ → ℕ) :
    Holding P (Cache.new capacity clock) :=
  ⟨[], represents_new capacity clock, by simp⟩

section

variable {P : Bytes → Bytes → Prop} {c : Cache} {path : Bytes}

/-- A lookup misses, or it appends the data of an entry. -/
theorem Holding.tryLoad (h : Holding P c) (path destination : Bytes) :
    (cachedData c path = none ∧
      (Cache.tryLoad path destination).run Cache.exec c = .ok ((false, destination), c)) ∨
      ∃ data c', cachedData c path = some data ∧ P path data ∧ Holding P c' ∧
        (Cache.tryLoad path destination).run Cache.exec c =
          .ok ((true, destination ++ data), c') := by
  rcases h with ⟨es, hrep, hes⟩
  cases hlookup : c.mapping.lookup path with
  | none => exact Or.inl ⟨by simp [cachedData, hlookup], tryLoad_miss hlookup destination⟩
  | some a =>
      rcases (hrep.mapped path a).mp hlookup with ⟨e, he, rfl, rfl⟩
      have hdata : cachedData c e.key = some e.data := by
        rw [cachedData, hlookup, Option.bind_some, hrep.stored e he]
        rfl
      rcases List.append_of_mem he with ⟨front, back, rfl⟩
      rcases tryLoad_hit hrep destination with ⟨c', hrun, hrep', -⟩
      refine Or.inr ⟨e.data, c', hdata, hes e he, ⟨_, hrep', fun e' he' => ?_⟩, hrun⟩
      simp only [List.mem_append, List.mem_singleton] at he'
      rcases he' with (he' | he') | rfl
      · exact hes e' (List.mem_append_left _ he')
      · exact hes e' (List.mem_append_right _ (List.mem_cons_of_mem e he'))
      · exact hes e he

/-- Whatever becomes of an insertion, the property is kept. -/
theorem Holding.tryInsert (h : Holding P c) {data : Bytes} (hdata : P path data) :
    ∃ inserted c', (Cache.tryInsert path data).run Cache.exec c = .ok (inserted, c') ∧
      Holding P c' := by
  rcases h with ⟨es, hrep, hes⟩
  cases hlookup : c.mapping.lookup path with
  | some a => exact ⟨false, c, tryInsert_present data hlookup, es, hrep, hes⟩
  | none =>
      by_cases hlarge : c.capacity.toNat < data.length
      · exact ⟨false, c, tryInsert_large hlookup hlarge, es, hrep, hes⟩
      · rcases tryInsert_new hrep hlookup (Nat.le_of_not_lt hlarge) with
          ⟨c', es', a, hrun, hrep', hsuffix, -⟩
        refine ⟨true, c', hrun, _, hrep', fun e he => ?_⟩
        rcases List.mem_append.mp he with he | he
        · exact hes e (hsuffix.subset he)
        · rw [List.mem_singleton.mp he]
          exact hdata

end

/-! ## Programs among others -/

/-- The program keeps `P` and ends with a result that satisfies `post`, when the entries satisfy
`P` at each of its accesses, whatever happens to the cache between them. -/
def Ensures {α : Type} (env : Env) (P : Bytes → Bytes → Prop) (post : α → Prop) : Code α → Prop
  | .ret a => post a
  | .fail _ => False
  | .call i next => ∀ c, Holding P c →
      ∃ r c', exec env i c = .ok (r, c') ∧ Holding P c' ∧ Ensures env P post (next r)

section

variable {α β : Type} {env : Env} {P : Bytes → Bytes → Prop} {post : α → Prop}

/-- An access that only reads the surroundings. -/
theorem Ensures.read {i : Instr} {next : i.Answer → Code α} (r : i.Answer)
    (hexec : ∀ c, exec env i c = .ok (r, c)) (hnext : Ensures env P post (next r)) :
    Ensures env P post (.call i next) :=
  fun c hc => ⟨r, c, hexec c, hc, hnext⟩

theorem Ensures.mono {p : Code α} {post' : α → Prop} (hp : Ensures env P post p)
    (himp : ∀ a, post a → post' a) : Ensures env P post' p := by
  induction p with
  | ret a => exact himp a hp
  | fail fault => exact hp
  | call i next ih =>
      intro c hc
      rcases hp c hc with ⟨r, c', hexec, hc', hnext⟩
      exact ⟨r, c', hexec, hc', ih r hnext⟩

theorem Ensures.bind {p : Code α} {f : α → Code β} {post' : β → Prop}
    (hp : Ensures env P post p) (hf : ∀ a, post a → Ensures env P post' (f a)) :
    Ensures env P post' (p >>= f) := by
  induction p with
  | ret a => exact hf a hp
  | fail fault => exact hp.elim
  | call i next ih =>
      intro c hc
      rcases hp c hc with ⟨r, c', hexec, hc', hnext⟩
      exact ⟨r, c', hexec, hc', ih r hnext⟩

/-- Run without interruption, the program returns. -/
theorem Ensures.run {p : Code α} (hp : Ensures env P post p) :
    ∀ {c : Cache}, Holding P c →
      ∃ a c', p.run (exec env) c = .ok (a, c') ∧ Holding P c' ∧ post a := by
  induction p with
  | ret a =>
      intro c hc
      exact ⟨a, c, rfl, hc, hp⟩
  | fail fault => exact hp.elim
  | call i next ih =>
      intro c hc
      rcases hp c hc with ⟨r, c₁, hexec, hc₁, hnext⟩
      rcases ih r hnext hc₁ with ⟨a, c₂, hrun, hc₂, ha⟩
      exact ⟨a, c₂, by rw [Prog.run_call_ok hexec, hrun], hc₂, ha⟩

end

/-! ## The handler -/

section

variable {env : Env} {P : Bytes → Bytes → Prop} {path contents : Bytes}

/-- The body of a static answer: the file, or what the cache holds under its name. -/
theorem ensures_fetch (hfs : env.fs path = .regular contents) (hP : P path contents) :
    Ensures env P (P path) (fetch path) := by
  intro c hc
  rcases hc.tryLoad path [] with ⟨-, hmiss⟩ | ⟨data, c', -, hdata, hc', hhit⟩
  · refine ⟨(false, []), c, hmiss, hc, ?_⟩
    refine Ensures.read contents (fun c => ?_) ?_
    · simp [exec, execWith, loadFile_regular hfs, Except.map]
    · intro c hc
      rcases hc.tryInsert hP with ⟨inserted, c', hrun, hc'⟩
      exact ⟨inserted, c', hrun, hc', hP⟩
  · exact ⟨(true, [] ++ data), c', hhit, hc', hdata⟩

theorem ensures_make200Response (hfs : env.fs path = .regular contents) (shouldClose : Bool) :
    Ensures env P (· = Response.ofFile path shouldClose contents.length)
      (Response.make200Response shouldClose (some path)) := by
  rw [Response.make_some]
  refine Ensures.read true (fun c => ?_) ?_
  · simp [exec, execWith, isFileExists, hfs, Except.map]
  · refine Ensures.read contents.length (fun c => ?_) rfl
    simp [exec, execWith, getFileSize_regular hfs, Except.map]

theorem ensures_isFileExists (there : Bool) {next : Bool → Code Reply} {post : Reply → Prop}
    (hthere : isFileExists env.fs path = .ok there) (hnext : Ensures env P post (next there)) :
    Ensures env P post (.call (.isFileExists path) next) :=
  Ensures.read there (fun c => by simp [exec, execWith, hthere, Except.map]) hnext

/-- The answer is the one of the server without a cache, or it differs from it in the body of a
regular file, which is what the cache holds under the name of the file. -/
def Variant (env : Env) (P : Bytes → Bytes → Prop) (t : Target) (reply reply' : Reply) : Prop :=
  reply' = reply ∨ ∃ path shouldClose contents body, t = .static path .get shouldClose ∧
    env.fs path = .regular contents ∧ P path body ∧ reply' = { reply with body }

theorem ensures_dynamic {program : Bytes} {arguments : List Bytes} {shouldClose : Bool}
    {reply : Reply} (h : outcome env (.dynamic program arguments shouldClose) = .ok reply) :
    Ensures env P (· = reply) (answer (.dynamic program arguments shouldClose)) := by
  have hrun : ∀ output, env.run program arguments = .ok output →
      Ensures env P (· = Reply.mk (Response.ofOutput shouldClose output) output shouldClose)
        (.call (.run program arguments) fun output =>
          .ret ⟨Response.ofOutput shouldClose output, output, shouldClose⟩) := by
    intro output houtput
    exact Ensures.read output (fun c => by simp [exec, execWith, houtput, Except.map]) rfl
  simp only [outcome] at h
  cases hfs : env.fs program with
  | absent =>
      simp only [hfs, Except.ok.injEq] at h
      exact ensures_isFileExists false (by simp [isFileExists, hfs]) h
  | statError => simp [hfs] at h
  | regular contents =>
      simp only [hfs, Except.map] at h
      split at h
      · cases h
      · rename_i output houtput
        obtain rfl := Except.ok.inj h
        exact ensures_isFileExists true (by simp [isFileExists, hfs]) (hrun output houtput)
  | directory =>
      simp only [hfs, Except.map] at h
      split at h
      · cases h
      · rename_i output houtput
        obtain rfl := Except.ok.inj h
        exact ensures_isFileExists true (by simp [isFileExists, hfs]) (hrun output houtput)

theorem ensures_static {method : Method} {shouldClose : Bool} {reply : Reply}
    (hP : ∀ contents, env.fs path = .regular contents → P path contents)
    (h : outcome env (.static path method shouldClose) = .ok reply) :
    Ensures env P (Variant env P (.static path method shouldClose) reply)
      (answer (.static path method shouldClose)) := by
  simp only [outcome] at h
  cases hfs : env.fs path with
  | absent =>
      simp only [hfs, Except.ok.injEq] at h
      exact ensures_isFileExists false (by simp [isFileExists, hfs]) (Or.inl h)
  | statError => simp [hfs] at h
  | directory => simp [hfs] at h
  | regular contents =>
      simp only [hfs, Except.ok.injEq] at h
      refine ensures_isFileExists true (by simp [isFileExists, hfs]) ?_
      refine (ensures_make200Response hfs shouldClose).bind fun response hresponse => ?_
      by_cases hget : method = .get
      · subst hget
        simp only [if_true] at h ⊢
        refine (ensures_fetch hfs (hP contents hfs)).bind fun body hbody => ?_
        exact Or.inr ⟨path, shouldClose, contents, body, rfl, hfs, hbody, by rw [← h, hresponse]⟩
      · simp only [hget, if_false] at h ⊢
        exact Or.inl (hresponse ▸ h)

/-- When the server without a cache answers a frame, so does the handler, whatever other
handlers do to the cache meanwhile. -/
theorem ensures_respond {requestOp : Bytes} {reply : Reply}
    (hP : ∀ path contents, env.fs path = .regular contents → P path contents)
    (h : uncached env requestOp = .ok reply) :
    Ensures env P (Variant env P (target env.httpResourceDir requestOp) reply)
      (respond env.httpResourceDir requestOp) := by
  rw [uncached_eq] at h
  rw [respond_eq]
  cases htarget : target env.httpResourceDir requestOp with
  | malformed =>
      rw [htarget] at h
      exact Or.inl (Except.ok.inj h)
  | dynamic program arguments shouldClose =>
      rw [htarget] at h
      exact (ensures_dynamic h).mono fun a ha => Or.inl ha
  | static path method shouldClose => exact ensures_static (hP path) (htarget ▸ h)

/-- On caches that hold what is in the files the answers are the same. -/
theorem ensures_uncached {requestOp : Bytes} {reply : Reply}
    (h : uncached env requestOp = .ok reply) :
    Ensures env (fun path data => env.fs path = .regular data) (· = reply)
      (respond env.httpResourceDir requestOp) := by
  refine (ensures_respond (fun _ _ hfs => hfs) h).mono fun reply' hvariant => ?_
  rcases hvariant with heq | ⟨path, shouldClose, _, body, htarget, -, hbody, rfl⟩
  · exact heq
  · rw [uncached_eq, htarget, outcome, hbody] at h
    obtain rfl := Except.ok.inj h
    rfl

/-! ## Handlers that throw -/

/-- The program throws `fault` before it has asked the cache for anything. -/
inductive Fails {α : Type} (env : Env) (fault : Fault) : Code α → Prop where
  | thrown : Fails env fault (.fail fault)
  | throws {i : Instr} {next : i.Answer → Code α}
      (h : ∀ (σ : Type) (cacheExec : Prog.Exec Call Call.Result Fault σ) (s : σ),
        execWith env cacheExec i s = .error fault) : Fails env fault (.call i next)
  | read {i : Instr} {next : i.Answer → Code α} (r : i.Answer)
      (h : ∀ (σ : Type) (cacheExec : Prog.Exec Call Call.Result Fault σ) (s : σ),
        execWith env cacheExec i s = .ok (r, s))
      (hnext : Fails env fault (next r)) : Fails env fault (.call i next)

theorem Fails.bind {α β : Type} {fault : Fault} {p : Code α} (hp : Fails env fault p)
    (f : α → Code β) : Fails env fault (p >>= f) := by
  induction hp with
  | thrown => exact .thrown
  | throws h => exact .throws h
  | read r h _ ih => exact .read r h ih

theorem Fails.run {α σ : Type} {cacheExec : Prog.Exec Call Call.Result Fault σ} {fault : Fault}
    {p : Code α} (hp : Fails env fault p) (s : σ) :
    p.run (execWith env cacheExec) s = .error fault := by
  induction hp with
  | thrown => rfl
  | throws h => simp [Prog.run, h]
  | read r h _ ih => rw [Prog.run_call_ok (h σ cacheExec s), ih]

theorem fails_isFileExists (there : Bool) {fault : Fault} {next : Bool → Code Reply}
    (hthere : isFileExists env.fs path = .ok there) (hnext : Fails env fault (next there)) :
    Fails env fault (.call (.isFileExists path) next) :=
  .read there (fun _ _ _ => by simp [execWith, hthere, Except.map]) hnext

theorem fails_stat {next : Bool → Code Reply} (h : env.fs path = .statError) :
    Fails env .filesystemError (.call (.isFileExists path) next) :=
  .throws fun _ _ _ => by simp [execWith, isFileExists, h, Except.map]

theorem fails_run {fault : Fault} {program : Bytes} {arguments : List Bytes}
    {next : Bytes → Code Reply} (h : env.run program arguments = .error fault) :
    Fails env fault (.call (.run program arguments) next) :=
  .throws fun _ _ _ => by simp [execWith, h, Except.map]

/-- The response of a directory asks for its size. -/
theorem fails_make200Response (h : env.fs path = .directory) (shouldClose : Bool) :
    Fails env .filesystemError (Response.make200Response shouldClose (some path)) := by
  rw [Response.make_some]
  refine .read true (fun _ _ _ => by simp [execWith, isFileExists, h, Except.map]) (.throws ?_)
  intro σ cacheExec s
  simp [execWith, getFileSize_directory h, Except.map]

/-- An exception does not depend on the cache. -/
theorem fails_respond {requestOp : Bytes} {fault : Fault}
    (h : uncached env requestOp = .error fault) :
    Fails env fault (respond env.httpResourceDir requestOp) := by
  rw [uncached_eq] at h
  rw [respond_eq]
  cases htarget : target env.httpResourceDir requestOp with
  | malformed => simp [htarget, outcome] at h
  | dynamic program arguments shouldClose =>
      rw [htarget] at h
      cases hfs : env.fs program with
      | absent => simp [outcome, hfs] at h
      | statError =>
          simp only [outcome, hfs, Except.error.injEq] at h
          exact h ▸ fails_stat hfs
      | regular contents =>
          cases hrun : env.run program arguments with
          | ok output => simp [outcome, hfs, hrun, Except.map] at h
          | error fault' =>
              simp only [outcome, hfs, hrun, Except.map, Except.error.injEq] at h
              exact fails_isFileExists true (by simp [isFileExists, hfs]) (fails_run (h ▸ hrun))
      | directory =>
          cases hrun : env.run program arguments with
          | ok output => simp [outcome, hfs, hrun, Except.map] at h
          | error fault' =>
              simp only [outcome, hfs, hrun, Except.map, Except.error.injEq] at h
              exact fails_isFileExists true (by simp [isFileExists, hfs]) (fails_run (h ▸ hrun))
  | static path method shouldClose =>
      rw [htarget] at h
      cases hfs : env.fs path with
      | absent => simp [outcome, hfs] at h
      | regular contents => simp [outcome, hfs] at h
      | statError =>
          simp only [outcome, hfs, Except.error.injEq] at h
          exact h ▸ fails_stat hfs
      | directory =>
          simp only [outcome, hfs, Except.error.injEq] at h
          refine fails_isFileExists true (by simp [isFileExists, hfs]) ?_
          exact h ▸ (fails_make200Response hfs shouldClose).bind _

theorem run_respond_error {σ : Type} {cacheExec : Prog.Exec Call Call.Result Fault σ}
    {requestOp : Bytes} {fault : Fault} (h : uncached env requestOp = .error fault) (s : σ) :
    (respond env.httpResourceDir requestOp).run (execWith env cacheExec) s = .error fault :=
  (fails_respond h).run s

end

end FalconLink.Http

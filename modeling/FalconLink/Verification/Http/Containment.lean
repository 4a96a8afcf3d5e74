import FalconLink.Verification.Cache.Lookup
import FalconLink.Verification.FilePaths
import FalconLink.Verification.Http.Handler

/-! # Requests and the served directory -/

namespace FalconLink.Http

open Paths FilePaths

/-! ## Files and programs in the served directory -/

/-- Files are loaded from below the served directory, and programs are run from below its
`cgi-bin`. -/
def Inside (cwd : Place) (httpResourceDir : Bytes) : Instr → Prop
  | .loadFile filePath _ => Below (resolve cwd httpResourceDir) (resolve cwd filePath)
  | .run cgiProgramPath _ =>
      Below (resolve cwd httpResourceDir ++ [cgiBin]) (resolve cwd cgiProgramPath)
  | _ => True

/-- Whatever the files, the programs and the cache are, all accesses for the request are inside. -/
def StaysInside (cwd : Place) (httpResourceDir requestOp : Bytes) : Prop :=
  ∀ (env : Env) (cache : Cache), env.httpResourceDir = httpResourceDir →
    ∀ i ∈ (respond httpResourceDir requestOp).trace (exec env) cache, Inside cwd httpResourceDir i

/-- The text `more` after the directory leads below `inside`: as many steps as it goes up from the
directory, without its detours, so many names of the way to the directory does it repeat, and
then it names `inside` and something more. -/
def LeadsBelow (cwd : Place) (dir : Bytes) (inside : Place) (more : Bytes) : Prop :=
  let way := direct (continuation cwd (cString dir) (seenAfter dir more))
  ∃ rest, rest ≠ [] ∧
    way.names = (resolve cwd dir).drop ((resolve cwd dir).length - way.ups) ++ inside ++ rest

/-- A static file is only loaded for GET. A program ends at an `&`, which can already stand in the
name of the directory. -/
def Confined (cwd : Place) (httpResourceDir requestOp : Bytes) : Prop :=
  let url := (Request.parse requestOp).getResourceUrl
  let program := (Cgier.parseCgier (httpResourceDir ++ url)).cgiProgramPath
  if isCgiRequest (httpResourceDir ++ url) then
    if httpResourceDir.length ≤ program.length then
      LeadsBelow cwd httpResourceDir [cgiBin] (program.drop httpResourceDir.length)
    else Below (resolve cwd httpResourceDir ++ [cgiBin]) (resolve cwd program)
  else (Request.parse requestOp).method = .get → LeadsBelow cwd httpResourceDir [] url

theorem below_resolve_iff (cwd : Place) (dir : Bytes) (inside : Place) (more : Bytes) :
    Below (resolve cwd dir ++ inside) (resolve cwd (dir ++ more)) ↔
      LeadsBelow cwd dir inside more := by
  rw [resolve_append, below_walk_iff]
  rfl

/-- The program is a beginning of the full path. -/
theorem cgiProgramPath_initial (path : Bytes) : (Cgier.parseCgier path).cgiProgramPath <+: path := by
  unfold Cgier.parseCgier
  split
  · exact List.nil_prefix
  · dsimp only
    split
    · exact List.take_prefix _ _
    · exact List.prefix_rfl

/-! ## The accesses for a target -/

section

variable {cwd : Place} {dir : Bytes}

theorem only_answer_dynamic {program : Bytes} {arguments : List Bytes} (shouldClose : Bool)
    (h : Below (resolve cwd dir ++ [cgiBin]) (resolve cwd program)) :
    (answer (.dynamic program arguments shouldClose)).Only (Inside cwd dir) := by
  refine ⟨trivial, fun there => ?_⟩
  cases there with
  | false => trivial
  | true => exact ⟨h, fun _ => trivial⟩

theorem only_answer_static {path : Bytes} {method : Method} (shouldClose : Bool)
    (h : method = .get → Below (resolve cwd dir) (resolve cwd path)) :
    (answer (.static path method shouldClose)).Only (Inside cwd dir) := by
  have hmake : (Response.make200Response shouldClose (some path)).Only (Inside cwd dir) := by
    rw [Response.make_some]
    refine ⟨trivial, fun there => ?_⟩
    cases there with
    | false => trivial
    | true => exact ⟨trivial, fun _ => trivial⟩
  refine ⟨trivial, fun there => ?_⟩
  cases there with
  | false => trivial
  | true =>
      refine hmake.bind fun response => ?_
      split
      next hget =>
        refine Prog.Only.bind ⟨trivial, fun loaded => ?_⟩ fun _ => trivial
        obtain ⟨cached, cacheBuf⟩ := loaded
        cases cached with
        | true => trivial
        | false => exact ⟨h hget, fun _ => ⟨trivial, fun _ => trivial⟩⟩
      next => trivial

/-- Files everywhere, and programs without output. -/
def everywhere (dir : Bytes) : Env :=
  ⟨dir, fun _ => .regular [], fun _ _ => .ok []⟩

theorem exec_isFileExists_everywhere (path : Bytes) (cache : Cache) :
    exec (everywhere dir) (.isFileExists path) cache = .ok (true, cache) := rfl

theorem run_mem_trace (program : Bytes) (arguments : List Bytes) (shouldClose : Bool)
    (cache : Cache) : .run program arguments ∈
      (answer (.dynamic program arguments shouldClose)).trace (exec (everywhere dir)) cache :=
  Prog.mem_trace_next (exec_isFileExists_everywhere program cache) (Prog.mem_trace_head _ _ _)

theorem loadFile_mem_trace (path : Bytes) (shouldClose : Bool) : .loadFile path [] ∈
    (answer (.static path .get shouldClose)).trace (exec (everywhere dir)) (Cache.new 0 id) := by
  have hmiss : exec (everywhere dir) (.cache (.tryLoad path [])) (Cache.new 0 id) =
      .ok ((false, []), Cache.new 0 id) := Cache.tryLoad_miss rfl []
  have hsize : exec (everywhere dir) (.getFileSize path) (Cache.new 0 id) =
      .ok (0, Cache.new 0 id) := rfl
  refine Prog.mem_trace_next (exec_isFileExists_everywhere path _) ?_
  simp only [if_true, Response.make_some, Prog.call_bind]
  refine Prog.mem_trace_next (exec_isFileExists_everywhere path _) ?_
  refine Prog.mem_trace_next hsize ?_
  exact Prog.mem_trace_next hmiss (Prog.mem_trace_head _ _ _)

end

theorem staysInside_of_only {cwd : Place} {dir requestOp : Bytes}
    (h : (answer (target dir requestOp)).Only (Inside cwd dir)) : StaysInside cwd dir requestOp := by
  intro env cache hdir i hi
  rw [respond_eq] at hi
  exact h.trace cache i hi

theorem StaysInside.of_cgi {cwd : Place} {dir requestOp : Bytes} (h : StaysInside cwd dir requestOp)
    (hvalid : (Request.parse requestOp).isValid = true)
    (hcgi : isCgiRequest (dir ++ (Request.parse requestOp).getResourceUrl) = true) :
    Below (resolve cwd dir ++ [cgiBin]) (resolve cwd
      (Cgier.parseCgier (dir ++ (Request.parse requestOp).getResourceUrl)).cgiProgramPath) := by
  rw [StaysInside, respond_eq, target_of_cgi hvalid hcgi] at h
  exact h (everywhere dir) (Cache.new 0 id) rfl _ (run_mem_trace _ _ _ _)

theorem StaysInside.of_static {cwd : Place} {dir requestOp : Bytes}
    (h : StaysInside cwd dir requestOp) (hvalid : (Request.parse requestOp).isValid = true)
    (hstatic : isCgiRequest (dir ++ (Request.parse requestOp).getResourceUrl) = false)
    (hget : (Request.parse requestOp).method = .get) :
    Below (resolve cwd dir) (resolve cwd (dir ++ (Request.parse requestOp).getResourceUrl)) := by
  rw [StaysInside, respond_eq, target_of_static hvalid hstatic, hget] at h
  exact h (everywhere dir) (Cache.new 0 id) rfl _ (loadFile_mem_trace _ _)

theorem confined_of_cgi {cwd : Place} {dir requestOp : Bytes}
    (hcgi : isCgiRequest (dir ++ (Request.parse requestOp).getResourceUrl) = true) :
    Confined cwd dir requestOp ↔ Below (resolve cwd dir ++ [cgiBin]) (resolve cwd
      (Cgier.parseCgier (dir ++ (Request.parse requestOp).getResourceUrl)).cgiProgramPath) := by
  have hinitial := cgiProgramPath_initial (dir ++ (Request.parse requestOp).getResourceUrl)
  simp only [Confined, hcgi, if_true]
  generalize (Cgier.parseCgier (dir ++ (Request.parse requestOp).getResourceUrl)).cgiProgramPath =
    program at hinitial ⊢
  split
  next hlen =>
    obtain ⟨more, rfl⟩ :=
      List.prefix_of_prefix_length_le (List.prefix_append dir _) hinitial hlen
    rw [below_resolve_iff, List.drop_left]
  next => rfl

/-- The accesses for a valid request stay inside the served directory exactly when its url leads
back to where it left the directory, and for a program on to `cgi-bin`. -/
theorem staysInside_iff (cwd : Place) (httpResourceDir requestOp : Bytes)
    (hvalid : (Request.parse requestOp).isValid = true) :
    StaysInside cwd httpResourceDir requestOp ↔ Confined cwd httpResourceDir requestOp := by
  by_cases hcgi : isCgiRequest (httpResourceDir ++ (Request.parse requestOp).getResourceUrl) = true
  · have htarget := target_of_cgi hvalid hcgi
    rw [confined_of_cgi hcgi]
    constructor
    · exact fun hstays => hstays.of_cgi hvalid hcgi
    · intro hbelow
      apply staysInside_of_only
      rw [htarget]
      exact only_answer_dynamic _ hbelow
  · have hstatic := Bool.eq_false_iff.mpr hcgi
    have htarget := target_of_static hvalid hstatic
    have hconfined : Confined cwd httpResourceDir requestOp ↔
        ((Request.parse requestOp).method = .get → Below (resolve cwd httpResourceDir)
          (resolve cwd (httpResourceDir ++ (Request.parse requestOp).getResourceUrl))) := by
      have hbelow := below_resolve_iff cwd httpResourceDir []
        (Request.parse requestOp).getResourceUrl
      rw [List.append_nil] at hbelow
      simp only [Confined, hstatic, Bool.false_eq_true, if_false, hbelow]
    rw [hconfined]
    constructor
    · exact fun hstays hget => hstays.of_static hvalid hstatic hget
    · intro hbelow
      apply staysInside_of_only
      rw [htarget]
      exact only_answer_static _ hbelow

def getInside : Bytes :=
  ascii "GET /a/../b.html HTTP/1.1\r\n\r\n"

theorem staysInside_iff_inside : StaysInside [] (ascii "/srv/www") getInside := by
  refine (staysInside_iff [] (ascii "/srv/www") getInside (by decide)).mpr ?_
  have hstatic : isCgiRequest (ascii "/srv/www" ++ (Request.parse getInside).getResourceUrl) =
      false := by decide
  simp only [Confined, hstatic, Bool.false_eq_true, if_false]
  exact fun _ => ⟨[ascii "b.html"], by decide, by decide⟩

def getAbove : Bytes :=
  ascii "GET /../passwd HTTP/1.1\r\n\r\n"

/-- A valid request for the file `/srv/passwd`. -/
theorem not_staysInside_above :
    ¬∀ (cwd : Place) (httpResourceDir requestOp : Bytes),
      (Request.parse requestOp).isValid = true → StaysInside cwd httpResourceDir requestOp := by
  intro h
  have hbelow := (h [] (ascii "/srv/www") getAbove (by decide)).of_static (by decide) (by decide)
    (by decide)
  exact absurd hbelow (by decide)

end FalconLink.Http

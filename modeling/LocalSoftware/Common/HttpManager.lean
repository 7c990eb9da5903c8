import LocalSoftware.Common.HttpMessage
import LocalSoftware.Library.Separated

/-!
# Static files and endpoints

`HTTPManager` of `http_manager.h`, `http_manager.cpp` and `http_manager.t.cpp`. The file system is
the environment's: `is_directory`, `canonical`, `exists` and reading a file are arbitrary
functions, where `canonical` returns an absolute normalised path or throws. A request is answered
with a response and the effects it has on the way: the accesses counted by `VisitStats` and the
file whose contents are sent.

`assurePath_eq_ok_iff` says which paths `assure_path` lets through, and
`assurePath_below_iff_and_served_below_iff` compares them with the paths below the base directory.
-/

set_option autoImplicit false

namespace LocalSoftware.Http

open Library

/-- A path as `fs::canonical` returns it: absolute, no empty component, no `.` and no `..`. -/
structure AbsPath where
  components : List Str
  normal : ∀ c ∈ components, c ≠ [] ∧ '/' ∉ c ∧ c ≠ ['.'] ∧ c ≠ ['.', '.']

/-- The root directory. -/
def rootPath : AbsPath := ⟨[], by simp⟩

namespace AbsPath

/-- `path::string` of an absolute normalised path. -/
def string (p : AbsPath) : Str :=
  if p.components = [] then ['/'] else joined '/' p.components

/-- `p` is `base` or lies below it, component by component. -/
def Below (base p : AbsPath) : Prop := base.components <+: p.components

instance (base p : AbsPath) : Decidable (base.Below p) :=
  inferInstanceAs (Decidable (base.components <+: p.components))

/-- `p` leaves `base` for a sibling whose name continues the name of `base`, as `/srv/www2`
does for `/srv/www`. -/
def Namesake (base p : AbsPath) : Prop := Overhangs base.components p.components

/-- `path::extension` of the last component. -/
def extension (p : AbsPath) : Str :=
  match (p.components.getLast?.getD []).reverse.span (· ≠ '.') with
  | (_, []) => []
  | (_, [_]) => []
  | (ext, _ :: _ :: _) => '.' :: ext.reverse

theorem not_mem_slash (p : AbsPath) : ∀ c ∈ p.components, '/' ∉ c := fun c hc => (p.normal c hc).2.1

end AbsPath

/-- The file system as a request sees it. A path that was not made canonical is a string. -/
structure FileSystem where
  isDirectory : Str → Except Fault Bool
  canonical : Str → Except Fault AbsPath
  exists' : AbsPath → Except Fault Bool
  /-- Opening a file and reading all of it; `none` when it cannot be opened. -/
  contents : AbsPath → Except Fault (Option Str)

/-- `fs::path::operator/=` on POSIX: an absolute right-hand side replaces the left one. -/
def appendPath (p q : Str) : Str :=
  if q.head? = some '/' then q
  else if p = [] ∨ p.getLast? = some '/' then p ++ q
  else p ++ '/' :: q

/-- `HTTPManager::Handler`. -/
abbrev Handler := Request → Except Fault Response

/-- What a request does besides being answered. -/
inductive Effect where
  /-- `VisitStats::add_access`. -/
  | addAccess (service endpoint : Str)
  /-- The contents of the file are put into the response. -/
  | serve (file : AbsPath)

/-- `HTTPManager`. -/
structure HttpManager where
  service : Str
  basePath : AbsPath
  handlers : Str → Option (Verb → Option Handler)

namespace HttpManager

/-- `HTTPManager::HTTPManager`. -/
def create (fs : FileSystem) (baseDir name : Str) : Except Fault HttpManager := do
  let basePath ← fs.canonical baseDir
  return { service := basePath.string ++ ':' :: name, basePath, handlers := fun _ => none }

/-- `add_endpoint`. -/
def addEndpoint (m : HttpManager) (endpoint : Str) (handler : Handler) (verb : Verb := .get) :
    HttpManager :=
  { m with
    handlers := Function.update m.handlers endpoint
      (some (Function.update ((m.handlers endpoint).getD fun _ => none) verb (some handler))) }

/-- The part of a target before its query. -/
def stripQuery (target : Str) : Str := target.takeWhile (· ≠ '?')

/-- The path that `assure_path` asks the file system about: the target below the base directory,
or `index.html` in it where it is a directory. -/
def requestPath (m : HttpManager) (fs : FileSystem) (target : Str) : Except Fault Str := do
  let path := if target.head? = some '/'
    then appendPath m.basePath.string target.tail else appendPath m.basePath.string target
  if ← fs.isDirectory path then return appendPath path "index.html".toList
  return path

/-- `assure_path`. -/
def assurePath (m : HttpManager) (fs : FileSystem) (target : Str) : Except Fault AbsPath := do
  let canonicalPath ← fs.canonical (← m.requestPath fs target)
  let base := m.basePath.string
  let path := canonicalPath.string
  -- the prefix is one of characters, not of path components
  if path.length < base.length ∨ path.take base.length ≠ base then
    throw (.runtimeError "Invalid path accessed")
  return canonicalPath

/-- `endpoint_serviceable`. -/
def endpointServiceable (m : HttpManager) (fs : FileSystem) (endpoint : Str) : Bool :=
  let endpoint := stripQuery endpoint
  if (m.handlers endpoint).isSome then true
  else
    match (do fs.exists' (← m.assurePath fs endpoint) : Except Fault Bool) with
    | .ok b => b
    | .error _ => false

/-- `get_mime_type`. -/
def getMimeType (path : AbsPath) : Str :=
  let ext := path.extension
  if ext = ".html".toList ∨ ext = ".htm".toList then "text/html".toList
  else if ext = ".css".toList then "text/css".toList
  else if ext = ".js".toList then "application/javascript".toList
  else if ext = ".json".toList then "application/json".toList
  else if ext = ".png".toList then "image/png".toList
  else if ext = ".jpg".toList ∨ ext = ".jpeg".toList then "image/jpeg".toList
  else if ext = ".gif".toList then "image/gif".toList
  else if ext = ".svg".toList then "image/svg+xml".toList
  else if ext = ".txt".toList then "text/plain".toList
  else if ext = ".pdf".toList then "application/pdf".toList
  else "application/octet-stream".toList

/-- `prepare_response`. -/
def prepareResponse (headers : Fields) (status : Status) (body : Str := []) (version : Nat := 11) :
    Except Fault Response :=
  Response.preparePayload
    { status, version, body, fields := headers.foldl (fun fs h => Fields.set fs h.1 h.2) [] }

/-- `get_response_headers`. -/
def getResponseHeaders (req : Request) : Fields :=
  (Field.server, "AIO-Landing".toList) ::
    match req.fields.find Field.connection with
    | some value => [(Field.connection, value)]
    | none => []

/-- `error_response`. -/
def errorResponse (req : Request) (status : Status) (message : Str) : Except Fault Response :=
  prepareResponse (getResponseHeaders req ++ [(Field.contentType, "text/plain".toList)])
    status message

/-- The body of the `try` block of `handle_request`; `none` when the file cannot be opened. -/
def serveFile (m : HttpManager) (fs : FileSystem) (req : Request) (target : Str) :
    Except Fault (Option (List Effect × Response)) := do
  let canonicalPath ← m.assurePath fs target
  match ← fs.contents canonicalPath with
  | none => return none
  | some content =>
    let headers := getResponseHeaders req ++ [(Field.contentType, getMimeType canonicalPath)]
    let response ← prepareResponse headers .ok content
    return some ([.serve canonicalPath, .addAccess m.service canonicalPath.string], response)

/-- `handle_request`. -/
def handleRequest (m : HttpManager) (fs : FileSystem) (req : Request) :
    List Effect × Except Fault Response :=
  let target := stripQuery req.target
  match m.handlers target with
  | some methods =>
    ([.addAccess m.service target],
      match methods req.method with
      | some handler => handler req
      | none => prepareResponse (getResponseHeaders req) .methodNotAllowed)
  | none =>
    match m.serveFile fs req target with
    | .ok (some (effects, response)) => (effects, .ok response)
    | .ok none => ([], errorResponse req .notFound "Not Found".toList)
    -- the `catch` block
    | .error _ => ([], errorResponse req .notFound "Not Found".toList)

/-- `handle_request_with_pred`. The predicate gets `skip`; it returns its response, `skip` and what
else it changes. -/
def handleRequestWithPred {M : Type → Type} [Monad M] [MonadLiftT (Except Fault) M] {σ : Type}
    (m : HttpManager) (fs : FileSystem) (req : Request)
    (pred : Request → Bool → M (Option Response × Bool × σ)) : M (Option Response × σ) := do
  let (resp, skip, s) ← pred req true
  if resp.isSome ∨ (resp.isNone ∧ ¬ skip) then return (resp, s)
  let resp ← (m.handleRequest fs req).2
  return (some resp, s)

/-! ## Confinement to the base directory -/

/-- The file that a target denotes: its path below the base directory, made canonical. -/
def Resolves (m : HttpManager) (fs : FileSystem) (target : Str) (p : AbsPath) : Prop :=
  ∃ path, m.requestPath fs target = .ok path ∧ fs.canonical path = .ok p

end HttpManager

namespace AbsPath

theorem joined_ne_slash (p : AbsPath) : joined '/' p.components ≠ ['/'] := by
  cases hp : p.components with
  | nil => simp
  | cons c cs =>
    have hc : c ≠ [] := (p.normal c (by simp [hp])).1
    simp [hc]

/-- The comparison of strings that `assure_path` makes. It lets a namesake pass. -/
theorem string_prefix_iff (base p : AbsPath) :
    base.string <+: p.string ↔ base.Below p ∨ base.Namesake p := by
  have hjoined := joined_prefix_iff base.not_mem_slash p.not_mem_slash
  unfold Below Namesake
  by_cases hb : base.components = []
  · have hslash : ['/'] <+: p.string := by
      unfold string
      cases p.components with
      | nil => exact List.prefix_rfl
      | cons c cs => exact ⟨_, rfl⟩
    have hbase : base.string = ['/'] := if_pos hb
    rw [hbase, hb]
    exact iff_of_true hslash (Or.inl List.nil_prefix)
  · by_cases hp : p.components = []
    · have hlong : ¬ joined '/' base.components <+: ['/'] := by
        intro h
        rcases List.prefix_cons_iff.mp h with h | ⟨t, ht, h⟩
        · cases hc : base.components with
          | nil => exact hb hc
          | cons c cs => simp [hc] at h
        · rw [List.prefix_nil.mp h] at ht
          exact base.joined_ne_slash ht
      have hshort : ¬ joined '/' base.components <+: joined '/' p.components := by
        rw [hp, joined_nil]
        exact fun h => hlong (h.trans List.nil_prefix)
      have hbase : base.string = joined '/' base.components := if_neg hb
      have hpath : p.string = ['/'] := if_pos hp
      rw [hbase, hpath, ← hjoined]
      exact iff_of_false hlong hshort
    · simpa only [string, hb, hp, if_false] using hjoined

theorem Namesake.not_below {base p : AbsPath} (h : base.Namesake p) : ¬ base.Below p :=
  h.not_prefix

end AbsPath

theorem take_length_eq_iff_prefix {base path : Str} :
    ¬ (path.length < base.length ∨ path.take base.length ≠ base) ↔ base <+: path := by
  rw [List.prefix_iff_eq_take]
  constructor
  · intro h
    push Not at h
    exact h.2.symm
  · intro h
    have hlen := congrArg List.length h
    rw [List.length_take] at hlen
    push Not
    exact ⟨by omega, h.symm⟩

namespace HttpManager

variable {m : HttpManager} {fs : FileSystem} {target : Str} {p : AbsPath}

/-- The paths that `assure_path` returns. -/
theorem assurePath_eq_ok_iff :
    m.assurePath fs target = .ok p ↔
      m.Resolves fs target p ∧ (m.basePath.Below p ∨ m.basePath.Namesake p) := by
  rw [← AbsPath.string_prefix_iff, ← take_length_eq_iff_prefix]
  unfold assurePath Resolves
  cases hr : m.requestPath fs target with
  | error e => simp [bind, Except.bind]
  | ok path =>
    cases hc : fs.canonical path with
    | error e => simp [bind, Except.bind, hc]
    | ok q =>
      simp only [bind, Except.bind, hc, Except.ok.injEq, exists_eq_left']
      split
      · rename_i h
        simp only [throw, throwThe, MonadExceptOf.throw, reduceCtorEq, false_iff, not_and, not_not]
        rintro rfl
        exact h
      · rename_i h
        simp only [pure, Except.pure, Except.ok.injEq]
        constructor
        · rintro rfl
          exact ⟨rfl, h⟩
        · exact fun hq => hq.1

/-- What the `try` block serves, and when. -/
theorem serveFile_eq_ok_some_iff {req : Request} {effects : List Effect} {response : Response} :
    m.serveFile fs req target = .ok (some (effects, response)) ↔
      ∃ p content, m.assurePath fs target = .ok p ∧ fs.contents p = .ok (some content) ∧
        effects = [.serve p, .addAccess m.service p.string] ∧
        prepareResponse (getResponseHeaders req ++ [(Field.contentType, getMimeType p)]) .ok
          content = .ok response := by
  unfold serveFile
  cases ha : m.assurePath fs target with
  | error e => simp [bind, Except.bind]
  | ok q =>
    simp only [bind, Except.bind, Except.ok.injEq, exists_and_left, exists_eq_left']
    cases hc : fs.contents q with
    | error e => simp
    | ok content? =>
      cases content? with
      | none => simp [pure, Except.pure]
      | some content =>
        simp only [Except.ok.injEq, Option.some.injEq, exists_eq_left']
        cases prepareResponse (getResponseHeaders req ++ [(Field.contentType, getMimeType q)])
          .ok content with
        | error e => simp
        | ok r =>
          simp [pure, Except.pure, eq_comm]

theorem prepareResponse_isOk {headers : Fields} {status : Status} {body : Str} {version : Nat}
    (h : status.bodiless = false) :
    ∃ response, prepareResponse headers status body version = .ok response :=
  ⟨_, Response.preparePayload_ok h⟩

theorem handleRequest_endpoint {req : Request} {methods : Verb → Option Handler}
    (h : m.handlers (stripQuery req.target) = some methods) :
    m.handleRequest fs req =
      ([.addAccess m.service (stripQuery req.target)],
        match methods req.method with
        | some handler => handler req
        | none => prepareResponse (getResponseHeaders req) .methodNotAllowed) := by
  simp only [handleRequest, h]

theorem handleRequest_file {req : Request} (h : m.handlers (stripQuery req.target) = none) :
    m.handleRequest fs req =
      match m.serveFile fs req (stripQuery req.target) with
      | .ok (some (effects, response)) => (effects, .ok response)
      | .ok none => ([], errorResponse req .notFound "Not Found".toList)
      | .error _ => ([], errorResponse req .notFound "Not Found".toList) := by
  simp only [handleRequest, h]

/-- A file is served exactly when no endpoint takes the request, `assure_path` returns the file
and it can be read. -/
theorem serve_mem_handleRequest_iff {req : Request} :
    Effect.serve p ∈ (m.handleRequest fs req).1 ↔
      m.handlers (stripQuery req.target) = none ∧
        m.assurePath fs (stripQuery req.target) = .ok p ∧
        ∃ content, fs.contents p = .ok (some content) := by
  cases hh : m.handlers (stripQuery req.target) with
  | some methods => simp [handleRequest_endpoint hh]
  | none =>
    rw [handleRequest_file hh]
    simp only [true_and]
    constructor
    · intro h
      cases hs : m.serveFile fs req (stripQuery req.target) with
      | error e => simp [hs] at h
      | ok served? =>
        cases served? with
        | none => simp [hs] at h
        | some served =>
          obtain ⟨q, content, ha, hc, heff, -⟩ := serveFile_eq_ok_some_iff.mp hs
          simp only [hs, heff, List.mem_cons, Effect.serve.injEq, reduceCtorEq, List.not_mem_nil,
            or_false] at h
          subst h
          exact ⟨ha, content, hc⟩
    · rintro ⟨ha, content, hc⟩
      obtain ⟨response, hr⟩ := @prepareResponse_isOk
        (getResponseHeaders req ++ [(Field.contentType, getMimeType p)]) .ok content 11 rfl
      have hs := serveFile_eq_ok_some_iff.mpr ⟨p, content, ha, hc, rfl, hr⟩
      simp [hs]

/-- Without endpoints every request gets a response, whatever the file system does. -/
theorem handleRequest_isOk (h : ∀ endpoint, m.handlers endpoint = none) (req : Request) :
    ∃ response, (m.handleRequest fs req).2 = .ok response := by
  have herr : ∃ response, errorResponse req .notFound "Not Found".toList = .ok response :=
    prepareResponse_isOk rfl
  rw [handleRequest_file (h _)]
  split
  · exact ⟨_, rfl⟩
  · exact herr
  · exact herr

/-- `assure_path` confines its result, and `handle_request` the files it serves, exactly as long
as a target does not resolve to a namesake of the base directory. -/
theorem assurePath_below_iff_and_served_below_iff (m : HttpManager) (fs : FileSystem) :
    (∀ target, (∀ p, m.assurePath fs target = .ok p → m.basePath.Below p) ↔
        ¬ ∃ p, m.Resolves fs target p ∧ m.basePath.Namesake p) ∧
      ∀ req : Request, (∀ p, Effect.serve p ∈ (m.handleRequest fs req).1 → m.basePath.Below p) ↔
        ¬ ∃ p, m.Resolves fs (stripQuery req.target) p ∧ m.basePath.Namesake p ∧
          m.handlers (stripQuery req.target) = none ∧
          ∃ content, fs.contents p = .ok (some content) := by
  refine ⟨fun target => ?_, fun req => ?_⟩
  · constructor
    · rintro h ⟨p, hres, hname⟩
      exact hname.not_below (h p (assurePath_eq_ok_iff.mpr ⟨hres, Or.inr hname⟩))
    · intro h p hp
      obtain ⟨hres, hbelow | hname⟩ := assurePath_eq_ok_iff.mp hp
      · exact hbelow
      · exact absurd ⟨p, hres, hname⟩ h
  · constructor
    · rintro h ⟨p, hres, hname, hnone, hread⟩
      have hok := assurePath_eq_ok_iff.mpr ⟨hres, Or.inr hname⟩
      exact hname.not_below (h p (serve_mem_handleRequest_iff.mpr ⟨hnone, hok, hread⟩))
    · intro h p hp
      obtain ⟨hnone, hok, hread⟩ := serve_mem_handleRequest_iff.mp hp
      obtain ⟨hres, hbelow | hname⟩ := assurePath_eq_ok_iff.mp hok
      · exact hbelow
      · exact absurd ⟨p, hres, hname, hnone, hread⟩ h

/-- The directory `/srv/www`. -/
def wwwDirectory : AbsPath := ⟨["srv".toList, "www".toList], by decide⟩

/-- A file of the directory `/srv/www2`. -/
def siblingFile : AbsPath := ⟨["srv".toList, "www2".toList, "key".toList], by decide⟩

/-- A file system in which `/srv/www/../www2/key` leads to `siblingFile`. -/
def siblingFileSystem : FileSystem where
  isDirectory _ := .ok false
  canonical path :=
    if path = "/srv/www".toList then .ok wwwDirectory
    else if path = "/srv/www/../www2/key".toList then .ok siblingFile
    else .error .filesystemError
  exists' _ := .ok true
  contents _ := .ok (some "secret".toList)

/-- A manager of `/srv/www` serves a file of `/srv/www2`. -/
theorem sibling_served :
    ∃ m, HttpManager.create siblingFileSystem "/srv/www".toList "http".toList = .ok m ∧
      m.assurePath siblingFileSystem "/../www2/key".toList = .ok siblingFile ∧
      Effect.serve siblingFile ∈ (m.handleRequest siblingFileSystem
        { method := .get, target := "/../www2/key".toList }).1 ∧
      ¬ m.basePath.Below siblingFile := by
  refine ⟨_, rfl, rfl, ?_, by decide⟩
  exact serve_mem_handleRequest_iff.mpr ⟨rfl, rfl, _, rfl⟩

end HttpManager

end LocalSoftware.Http

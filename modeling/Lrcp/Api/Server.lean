import Lrcp.Api.Isolation
import Lrcp.Store.Additive
import Lrcp.Store.Delivery

namespace Lrcp.Api

open Lrcp.Framework
open Lrcp.Otlp (Libs PyError)
open Lrcp.Store (World Op Call Guard Thread Retains service materialize compactParquetFiles
  cleanupMaterializedWalFiles lifespan)

/-- The headers that authentication reads. -/
structure Headers where
  xApiKey : Option String
  authorization : Option String

/-- The requests that change something. -/
inductive Command
  | createProject (project : ProjectCreate)
  | runMaterializer
  | runCompaction
  | runWalCleanup

/-- The table of projects, and the threads at work on the data directory. -/
structure Server where
  control : Control
  pool : Pool Op PyError Unit World Thread

/-- A thread is given a call. -/
def Server.dispatch (B : Server) (t : Thread) (p : Call Unit) : Server :=
  { B with pool := ⟨Function.update B.pool.thread t (some p), B.pool.state⟩ }

section Steps

variable (keys : Keys) (settings : Settings) (libs : Libs) (limits : Thread → Store.Settings) (app : Nat)
  (Allowed : Guard) (Stop : World → Prop)

/-- What a request of a caller with this identity does. -/
inductive Serves (auth : AuthIdentity) : Command → Server → Server → Prop
  | createProject {B} (project : ProjectCreate) :
      Serves auth (.createProject project) B
        { B with control := (createProject keys auth project B.control).2 }
  | runMaterializer {B : Server} (t : Thread) (ht : t.process ≠ app) (hidle : B.pool.thread t = none) :
      Serves auth .runMaterializer B (B.dispatch t (materialize libs (limits t) t).discard)
  | runCompaction {B : Server} (t : Thread) (ht : t.process ≠ app) (hidle : B.pool.thread t = none)
      (hadmin : auth.isAdmin = true) :
      Serves auth .runCompaction B (B.dispatch t (compactParquetFiles t 20).discard)
  | runWalCleanup {B : Server} (t : Thread) (ht : t.process ≠ app) (hidle : B.pool.thread t = none)
      (hadmin : auth.isAdmin = true) :
      Serves auth .runWalCleanup B (B.dispatch t (cleanupMaterializedWalFiles t).discard)

/-- What goes on without a request: the application starts, the threads run and are killed, and the
gateway is at work. -/
def running : System Op PyError Unit World Thread :=
  { service libs limits app Allowed Stop with start := fun t p _ => t.process = app ∧ p = lifespan.discard }

/-- A step of the server, with the headers of the request if it is one. -/
inductive Server.Step : Option Headers → Server → Server → Prop
  | request {B B'} (headers : Headers) (auth : AuthIdentity) (command : Command)
      (hauth : getAuthIdentity keys settings B.control.projects headers.xApiKey headers.authorization = .ok auth)
      (h : Serves keys libs limits app auth command B B') : Step (some headers) B B'
  | background {B : Server} (t : Thread) (ht : t.process ≠ app) (hidle : B.pool.thread t = none) :
      Step none B (B.dispatch t (materialize libs (limits t) t).discard)
  | run {B : Server} {X} (h : (running libs limits app Allowed Stop).Step B.pool X) :
      Step none B { B with pool := X }

/-- The runs, the requests of which all have headers in `P`. -/
def Server.Reach (P : Headers → Prop) : Server → Server → Prop :=
  Relation.ReflTransGen fun B B' => ∃ headers, (∀ h ∈ headers, P h) ∧
    Server.Step keys settings libs limits app Allowed Stop headers B B'

/-- The request has the key of the administrator. -/
def Presents (headers : Headers) : Prop :=
  ∃ key token, settings.apiKey = some key ∧ key ≠ "" ∧
    presentedToken headers.xApiKey headers.authorization = some token ∧ strip token = key

end Steps

section Runs

variable {keys : Keys} {settings : Settings} {libs : Libs} {limits : Thread → Store.Settings} {app : Nat}
  {Allowed : Guard} {Stop : World → Prop} {B B' : Server} {auth : AuthIdentity} {headers : Headers}
  {projects more : List ProjectRow} {xApiKey authorization : Option String} {P : Headers → Prop}

theorem running_step {X Y : Pool Op PyError Unit World Thread}
    (h : (running libs limits app Allowed Stop).Step X Y) :
    (Store.service libs limits app Allowed Stop).Step X Y := by
  cases h with
  | start t hi hp =>
    apply System.Step.start t hi
    simp only [Store.service, if_pos hp.1]
    exact hp.2
  | run t hi hp => exact .run t hi hp
  | finish t hi => exact .finish t hi
  | kill t hi hs => exact .kill t hi hs
  | env hs => exact .env hs

/-- The threads run while no request comes in. -/
theorem Server.reach_running {X : Pool Op PyError Unit World Thread}
    (h : (running libs limits app Allowed Stop).Reach B.pool X) :
    Server.Reach keys settings libs limits app Allowed Stop P B { B with pool := X } := by
  induction h with
  | refl => exact .refl
  | tail _ hstep ih => exact ih.tail ⟨none, fun h hh => (by cases hh), .run hstep⟩

/-- Every run of the server is one of the processes that share the data directory. -/
theorem Server.Reach.service (hsize : ∀ t, 0 < (limits t).materializeBatchSize)
    (h : Server.Reach keys settings libs limits app Allowed Stop P B B') :
    (Store.service libs limits app Allowed Stop).Reach B.pool B'.pool := by
  have hdispatch : ∀ {B : Server} {t : Thread} {α : Type} {p : Call α}, t.process ≠ app →
      B.pool.thread t = none → Store.IsCall libs t (limits t) p →
      (Store.service libs limits app Allowed Stop).Reach B.pool (B.dispatch t p.discard).pool :=
    fun ht hidle hp => Store.reach_called ht hidle hp .refl
  induction h with
  | refl => exact .refl
  | tail _ hstep ih =>
    apply ih.trans
    obtain ⟨headers, -, hstep⟩ := hstep
    cases hstep with
    | request headers auth command hauth hserves =>
      cases hserves with
      | createProject project => exact .refl
      | runMaterializer t ht hidle => exact hdispatch ht hidle (.materialize (hsize t))
      | runCompaction t ht hidle hadmin => exact hdispatch ht hidle (.compact 20)
      | runWalCleanup t ht hidle hadmin => exact hdispatch ht hidle .cleanup
    | background t ht hidle => exact hdispatch ht hidle (.materialize (hsize t))
    | run hrun => exact .single (running_step hrun)

theorem verifyProjectCredential_append {token id : String}
    (h : verifyProjectCredential keys projects token = some id) :
    verifyProjectCredential keys (projects ++ more) token = some id := by
  unfold verifyProjectCredential at h ⊢
  split_ifs at h ⊢
  obtain ⟨row, hrow, hsame⟩ := Option.map_eq_some_iff.mp h
  rw [List.find?_append, hrow]
  exact congrArg some hsame

/-- The token of the request, without the white space around it. -/
def strippedToken (xApiKey authorization : Option String) : Option String :=
  (presentedToken xApiKey authorization).map strip

/-- A token is the administrator's key, or the key of a project, or refused; without one, everything is
open or nothing. -/
theorem getAuthIdentity_eq : getAuthIdentity keys settings projects xApiKey authorization =
    if given (strippedToken xApiKey authorization) then
      if strippedToken xApiKey authorization = settings.apiKey then .ok ⟨true, none⟩
      else if given ((strippedToken xApiKey authorization).bind (verifyProjectCredential keys projects)) then
        .ok ⟨false, (strippedToken xApiKey authorization).bind (verifyProjectCredential keys projects)⟩
      else .error ⟨401, "Invalid or missing API key"⟩
    else if settings.requireAuth ∨ given settings.apiKey then .error ⟨401, "Invalid or missing API key"⟩
    else .ok ⟨true, none⟩ := by
  unfold getAuthIdentity strippedToken
  have hnone : given none = false := rfl
  cases presentedToken xApiKey authorization with
  | none =>
    by_cases hclosed : settings.requireAuth = true ∨ given settings.apiKey = true
    · rcases hclosed with hclosed | hclosed <;> simp [hnone, hclosed]
    · push Not at hclosed
      simp [hnone, hclosed]
  | some token =>
    by_cases hempty : strip token = ""
    · have hstripped : given (some (strip token)) = false := by simp [given, hempty]
      by_cases hclosed : settings.requireAuth = true ∨ given settings.apiKey = true
      · rcases hclosed with hclosed | hclosed
        · by_cases htoken : given (some token) = true <;> simp [hnone, hclosed, hstripped, htoken]
        · by_cases htoken : given (some token) = true <;> simp [hnone, hclosed, hstripped, htoken]
      · push Not at hclosed
        by_cases htoken : given (some token) = true <;> simp [hnone, hclosed, hstripped, htoken]
    · have hstripped : given (some (strip token)) = true := given_some.mpr hempty
      have htoken : given (some token) = true := by
        rw [given_some]
        intro heq
        rw [heq] at hempty
        exact hempty (by decide)
      by_cases hadmin : some (strip token) = settings.apiKey
      · simp [hstripped, htoken, ← hadmin]
      · simp [hstripped, htoken, hadmin]

/-- The identity of a caller who is known does not change when projects are added. -/
theorem getAuthIdentity_append
    (h : getAuthIdentity keys settings projects xApiKey authorization = .ok auth) :
    getAuthIdentity keys settings (projects ++ more) xApiKey authorization = .ok auth := by
  rw [getAuthIdentity_eq] at h ⊢
  by_cases hgiven : given (strippedToken xApiKey authorization) = true
  · rw [if_pos hgiven] at h ⊢
    by_cases hadmin : strippedToken xApiKey authorization = settings.apiKey
    · rw [if_pos hadmin] at h ⊢
      exact h
    · rw [if_neg hadmin] at h ⊢
      by_cases hproject : given ((strippedToken xApiKey authorization).bind
          (verifyProjectCredential keys projects)) = true
      · have hsame : (strippedToken xApiKey authorization).bind (verifyProjectCredential keys (projects ++ more)) =
            (strippedToken xApiKey authorization).bind (verifyProjectCredential keys projects) := by
          obtain ⟨id, hid⟩ := Option.isSome_iff_exists.mp (Option.isSome_of_any hproject)
          obtain ⟨token, htoken, hverify⟩ := Option.bind_eq_some_iff.mp hid
          rw [hid, htoken]
          exact verifyProjectCredential_append hverify
        rw [hsame, if_pos hproject]
        rw [if_pos hproject] at h
        exact h
      · rw [if_neg hproject] at h
        cases h
  · rw [if_neg hgiven] at h ⊢
    exact h

theorem createProject_extends (auth : AuthIdentity) (project : ProjectCreate) (control : Control) :
    control.projects <+: (createProject keys auth project control).2.projects := by
  cases hcreated : (createProject keys auth project control).1 with
  | error e =>
    rw [createProject_error hcreated]
  | ok created =>
    obtain ⟨-, -, -, createdAt, hprojects⟩ := createProject_ok hcreated
    rw [hprojects]
    exact List.prefix_append _ _

theorem createProject_nodup {control : Control} (project : ProjectCreate)
    (h : (control.projects.map ProjectRow.id).Nodup) :
    ((createProject keys auth project control).2.projects.map ProjectRow.id).Nodup := by
  cases hcreated : (createProject keys auth project control).1 with
  | error e =>
    rw [createProject_error hcreated]
    exact h
  | ok created =>
    obtain ⟨-, -, hnew, createdAt, hprojects⟩ := createProject_ok hcreated
    rw [hprojects, List.map_append, List.nodup_append]
    refine ⟨h, by simp, fun id hid id' hid' => ?_⟩
    obtain ⟨row, hrow, rfl⟩ := List.mem_map.mp hid
    rw [List.map_singleton, List.mem_singleton] at hid'
    exact hid' ▸ hnew row hrow

/-- A caller who is no administrator creates nothing. -/
theorem createProject_refused {control : Control} (project : ProjectCreate) (h : auth.isAdmin = false) :
    (createProject keys auth project control).2 = control := by
  unfold createProject
  split_ifs
  · rfl
  · rfl

/-- What the administrator may do takes the key of the administrator. -/
theorem presents_of_isAdmin (hclosed : settings.requireAuth = true ∨ given settings.apiKey = true)
    (hauth : getAuthIdentity keys settings projects headers.xApiKey headers.authorization = .ok auth)
    (hadmin : auth.isAdmin = true) : Presents settings headers := by
  rw [getAuthIdentity_eq] at hauth
  split_ifs at hauth with hgiven hkey
  · obtain ⟨token, htoken, hstrip⟩ := Option.map_eq_some_iff.mp
      (Option.eq_some_iff_get_eq.mpr ⟨Option.isSome_of_any hgiven, rfl⟩)
    refine ⟨strip token, token, ?_, ?_, htoken, rfl⟩
    · rw [← hkey, strippedToken, htoken, Option.map_some]
    · rw [strippedToken, htoken, Option.map_some, given_some] at hgiven
      exact hgiven
  · rw [← Except.ok.inj hauth] at hadmin
    cases hadmin

/-- A request of a caller who is no administrator starts `materialize` at most. -/
theorem Serves.unprivileged {command : Command} (hadmin : auth.isAdmin = false)
    (h : Serves keys libs limits app auth command B B') :
    B' = B ∨ ∃ t, B' = B.dispatch t (materialize libs (limits t) t).discard := by
  cases h with
  | createProject project =>
    left
    rw [createProject_refused project hadmin]
  | runMaterializer t ht hidle => exact .inr ⟨t, rfl⟩
  | runCompaction t ht hidle hyes => exact absurd hyes (by rw [hadmin]; exact Bool.false_ne_true)
  | runWalCleanup t ht hidle hyes => exact absurd hyes (by rw [hadmin]; exact Bool.false_ne_true)

/-- Projects are added at most, no two of them have the same id, and who is known stays the same. -/
theorem identity_kept (h : Server.Reach keys settings libs limits app Allowed Stop P B B') :
    B.control.projects <+: B'.control.projects ∧
    ((B.control.projects.map ProjectRow.id).Nodup → (B'.control.projects.map ProjectRow.id).Nodup) ∧
    ∀ xApiKey authorization auth,
      getAuthIdentity keys settings B.control.projects xApiKey authorization = .ok auth →
      getAuthIdentity keys settings B'.control.projects xApiKey authorization = .ok auth := by
  have hruns : B.control.projects <+: B'.control.projects ∧
      ((B.control.projects.map ProjectRow.id).Nodup → (B'.control.projects.map ProjectRow.id).Nodup) := by
    induction h with
    | refl => exact ⟨List.prefix_rfl, id⟩
    | tail _ hstep ih =>
      obtain ⟨headers, -, hstep⟩ := hstep
      cases hstep with
      | request headers auth command hauth hserves =>
        cases hserves with
        | createProject project =>
          exact ⟨ih.1.trans (createProject_extends _ _ _), fun hnodup => createProject_nodup _ (ih.2 hnodup)⟩
        | runMaterializer t ht hidle => exact ih
        | runCompaction t ht hidle hadmin => exact ih
        | runWalCleanup t ht hidle hadmin => exact ih
      | background t ht hidle => exact ih
      | run hrun => exact ih
  refine ⟨hruns.1, hruns.2, fun xApiKey authorization auth hauth => ?_⟩
  obtain ⟨more, hmore⟩ := hruns.1
  rw [← hmore]
  exact getAuthIdentity_append hauth

/-- As long as nobody presents the key of the administrator, nothing is taken away and no project is
added, whatever requests are made. -/
theorem unprivileged_retains (hclosed : settings.requireAuth = true ∨ given settings.apiKey = true)
    (hauto : ∀ t, (limits t).autoCleanupWal = false) (hidle : ∀ t, B.pool.thread t = none)
    (h : Server.Reach keys settings libs limits app Allowed Stop (fun headers => ¬Presents settings headers) B B') :
    B'.control = B.control ∧ Retains B.pool.state B'.pool.state := by
  have hdispatch : ∀ {B : Server} (t : Thread), Confined Op.additive B.pool →
      Confined Op.additive (B.dispatch t (materialize libs (limits t) t).discard).pool := by
    intro B t hconfined
    apply hconfined.update
    exact (Store.additive_materialize t (hauto t)).bind fun _ => .ret _
  suffices hruns : B'.control = B.control ∧ Retains B.pool.state B'.pool.state ∧
      Confined Op.additive B'.pool from ⟨hruns.1, hruns.2.1⟩
  induction h with
  | refl =>
    refine ⟨rfl, .refl _, fun t p hp => ?_⟩
    rw [hidle t] at hp
    cases hp
  | tail _ hstep ih =>
    obtain ⟨hcontrol, hretains, hconfined⟩ := ih
    obtain ⟨headers, hheaders, hstep⟩ := hstep
    cases hstep with
    | request headers auth command hauth hserves =>
      have hadmin : auth.isAdmin = false := by
        rw [Bool.eq_false_iff]
        exact fun hyes => hheaders headers rfl (presents_of_isAdmin hclosed hauth hyes)
      rcases hserves.unprivileged hadmin with rfl | ⟨t, rfl⟩
      · exact ⟨hcontrol, hretains, hconfined⟩
      · exact ⟨hcontrol, hretains, hdispatch t hconfined⟩
    | background t ht hidle => exact ⟨hcontrol, hretains, hdispatch t hconfined⟩
    | run hrun =>
      have hstep := hconfined.step (R := Retains) .refl (fun t p w hp => ?_) (fun t β o w r w' ho hstep => ?_)
        (fun w w' (henv : Store.Extended w w') => henv.retains) (fun t w w' hkill => ?_) hrun
      · exact ⟨hcontrol, hretains.trans hstep.1, hstep.2⟩
      · rw [hp.2]
        exact Store.additive_lifespan.bind fun _ => .ret _
      · simp only [running, service] at hstep
        split_ifs at hstep
        · exact ho.retains hstep
        · exact ho.retains hstep
      · rw [hkill.2]
        exact Store.crash_retains w t

end Runs

/-- A server with one project, and a segment that waits to be materialized. -/
def shopServer : Server := ⟨⟨[shopProject], 0⟩, ⟨fun _ => none, Store.sealedSegment⟩⟩

theorem identity_kept_shop : ∃ B' : Server, B'.control.projects.length = 2 ∧
    getAuthIdentity sampleKeys ⟨some "admin", true⟩ B'.control.projects (some "k") none =
      .ok ⟨false, some "shop"⟩ := by
  have hstep : Server.Step sampleKeys ⟨some "admin", true⟩ Store.sampleLibs (fun _ => {}) 0
      (Store.Op.releases Store.Flushed) Store.Flushed (some ⟨some "admin", none⟩) shopServer
      { shopServer with control :=
        (createProject sampleKeys ⟨true, none⟩ ⟨"bank", "Bank", none⟩ shopServer.control).2 } :=
    .request ⟨some "admin", none⟩ ⟨true, none⟩ (.createProject ⟨"bank", "Bank", none⟩) (by decide +kernel)
      (.createProject _)
  have hreach : Server.Reach sampleKeys ⟨some "admin", true⟩ Store.sampleLibs (fun _ => {}) 0
      (Store.Op.releases Store.Flushed) Store.Flushed (fun _ => True) shopServer _ :=
    .single ⟨_, fun _ _ => trivial, hstep⟩
  refine ⟨_, ?_, (identity_kept hreach).2.2 (some "k") none ⟨false, some "shop"⟩ (by decide +kernel)⟩
  decide +kernel

theorem unprivileged_retains_shop : ∃ B' : Server, B'.pool.thread ⟨1, 0⟩ = some (.ret ()) ∧
    B'.control = shopServer.control ∧ Retains Store.sealedSegment B'.pool.state := by
  obtain ⟨w, hrun, -, -⟩ := Store.sealedCall_runs
  have hcall : Server.Step sampleKeys ⟨some "admin", true⟩ Store.sampleLibs (fun _ => {}) 0
      (Store.Op.releases Store.Flushed) Store.Flushed (some ⟨some "k", none⟩) shopServer
      (shopServer.dispatch ⟨1, 0⟩ (materialize Store.sampleLibs {} ⟨1, 0⟩).discard) :=
    .request ⟨some "k", none⟩ ⟨false, some "shop"⟩ .runMaterializer (by decide +kernel)
      (.runMaterializer ⟨1, 0⟩ (by decide) rfl)
  have hserved := System.reach_during (System.during_runs
    (S := running Store.sampleLibs (fun _ => {}) 0 (Store.Op.releases Store.Flushed) Store.Flushed)
    (t := fun _ => none) (i := ⟨1, 0⟩) hrun)
  have hpresents : ¬Presents ⟨some "admin", true⟩ ⟨some "k", none⟩ := by
    intro h
    obtain ⟨key, token, hkey, -, htoken, hstrip⟩ := h
    obtain rfl := Option.some.inj hkey
    obtain rfl : "k" = token := Option.some.inj htoken
    revert hstrip
    decide
  have hretains := @unprivileged_retains sampleKeys ⟨some "admin", true⟩ Store.sampleLibs (fun _ => {}) 0
    (Store.Op.releases Store.Flushed) Store.Flushed shopServer _ (.inl rfl) (fun _ => rfl) (fun _ => rfl)
    (.head ⟨_, fun h hh => Option.some.inj hh ▸ hpresents, hcall⟩ (Server.reach_running hserved))
  exact ⟨_, by simp, hretains⟩

end Lrcp.Api

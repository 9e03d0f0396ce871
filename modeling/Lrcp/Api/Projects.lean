import Mathlib.Data.List.DropRight
import Mathlib.Data.Set.Function
import Mathlib.Data.String.Basic

namespace Lrcp.Api

/-- The settings that authentication reads. -/
structure Settings where
  apiKey : Option String
  requireAuth : Bool

structure AuthIdentity where
  isAdmin : Bool
  projectId : Option String
  deriving DecidableEq

structure HttpException where
  statusCode : Nat
  detail : String
  deriving DecidableEq

/-- A row of `projects`, in the order of insertion. -/
structure ProjectRow where
  id : String
  name : String
  apiKeyHash : Option String
  createdAt : String
  deriving DecidableEq

structure ProjectCreate where
  id : String
  name : String
  apiKey : Option String

structure ProjectCreated where
  id : String
  name : String
  apiKey : String
  deriving DecidableEq

/-- What issuing and checking keys takes from its surroundings: the hexadecimal
SHA-256 of a text, the random tokens in the order they are drawn, and the clock. -/
structure Keys where
  sha256 : String → String
  tokenUrlsafe : Nat → String
  currentTimestamp : Nat → String

/-- The table of projects, and how many keys have been drawn. -/
structure Control where
  projects : List ProjectRow
  drawn : Nat

/-- The characters that `str.isspace` holds for. -/
def isSpace (c : Char) : Bool :=
  c.toNat ∈ [0x09, 0x0A, 0x0B, 0x0C, 0x0D, 0x1C, 0x1D, 0x1E, 0x1F, 0x20, 0x85, 0xA0, 0x1680, 0x2000,
    0x2001, 0x2002, 0x2003, 0x2004, 0x2005, 0x2006, 0x2007, 0x2008, 0x2009, 0x200A, 0x2028, 0x2029,
    0x202F, 0x205F, 0x3000]

/-- `str.strip` -/
def strip (s : String) : String := .ofList ((s.toList.dropWhile isSpace).rdropWhile isSpace)

/-- The truth value of an optional text. -/
def given (s : Option String) : Bool := s.any (· ≠ "")

/-- `ProjectCreate` admits the request. -/
def ProjectCreate.admitted (project : ProjectCreate) : Bool :=
  1 ≤ project.id.length ∧ project.id.length ≤ 64 ∧ 1 ≤ project.name.length ∧
    project.name.length ≤ 200 ∧ project.apiKey.all (·.length ≤ 128)

variable (keys : Keys)

/-- `generate_api_key` -/
def generateApiKey (drawn : Nat) : String := "lrcp_" ++ keys.tokenUrlsafe drawn

/-- `project.api_key.strip() if project.api_key else generate_api_key()` -/
def rawKey (drawn : Nat) (project : ProjectCreate) : String :=
  match project.apiKey with
  | some key => if key ≠ "" then strip key else generateApiKey keys drawn
  | none => generateApiKey keys drawn

/-- `create_project`: the answer, and the table after it. -/
def createProject (auth : AuthIdentity) (project : ProjectCreate) (control : Control) :
    Except HttpException ProjectCreated × Control :=
  if project.admitted = false then (.error ⟨422, "Unprocessable Entity"⟩, control)
  else if auth.isAdmin = false then (.error ⟨403, "Admin authorization required"⟩, control)
  else
    let key := rawKey keys control.drawn project
    let drawn := if given project.apiKey then control.drawn else control.drawn + 1
    if control.projects.any (·.id = project.id) then
      (.error ⟨409, "project already exists"⟩, ⟨control.projects, drawn⟩)
    else
      (.ok ⟨project.id, project.name, key⟩, ⟨control.projects ++ [⟨project.id, project.name,
        some (keys.sha256 key), keys.currentTimestamp control.projects.length⟩], drawn⟩)

/-- `verify_project_credential` -/
def verifyProjectCredential (projects : List ProjectRow) (token : String) : Option String :=
  if token = "" ∨ strip token = "" then none
  else
    (projects.find? fun row => row.apiKeyHash.any fun storedHash =>
      storedHash ≠ "" ∧ keys.sha256 (strip token) = storedHash).map ProjectRow.id

/-- The token that a request presents, before it is stripped. -/
def presentedToken (xApiKey authorization : Option String) : Option String :=
  if given xApiKey then xApiKey
  else
    match authorization with
    | some value =>
      if "Bearer ".toList.isPrefixOf value.toList then some (strip (.ofList (value.toList.drop 7)))
      else xApiKey
    | none => xApiKey

/-- `get_auth_identity` -/
def getAuthIdentity (settings : Settings) (projects : List ProjectRow)
    (xApiKey authorization : Option String) : Except HttpException AuthIdentity :=
  let token := presentedToken xApiKey authorization
  if settings.requireAuth = false ∧ given settings.apiKey = false ∧ given token = false then
    .ok ⟨true, none⟩
  else
    let token := if given token then token.map strip else token
    if given settings.apiKey ∧ given token ∧ token = settings.apiKey then .ok ⟨true, none⟩
    else
      let matchedProject := if given token then token.bind (verifyProjectCredential keys projects) else none
      if given matchedProject then .ok ⟨false, matchedProject⟩
      else if settings.requireAuth ∨ given token ∨ given settings.apiKey then
        .error ⟨401, "Invalid or missing API key"⟩
      else .ok ⟨true, none⟩

/-- The requests to create projects, one after the other: the answers with status
201, and the table in the end. -/
def createProjects : List (AuthIdentity × ProjectCreate) → Control → List ProjectCreated × Control
  | [], control => ([], control)
  | (auth, project) :: requests, control =>
    match createProject keys auth project control with
    | (.error _, control') => createProjects requests control'
    | (.ok created, control') =>
      let rest := createProjects requests control'
      (created :: rest.1, rest.2)

/-- The key from the answer is resolved to the project, in either header. -/
def Resolved (settings : Settings) (projects : List ProjectRow) (created : ProjectCreated) : Prop :=
  getAuthIdentity keys settings projects (some created.apiKey) none = .ok ⟨false, some created.id⟩ ∧
    getAuthIdentity keys settings projects none (some ("Bearer " ++ created.apiKey)) =
      .ok ⟨false, some created.id⟩

/-- What is relied on: digests are not empty, and tokens have no white space. -/
structure Keys.Regular : Prop where
  digest : ∀ s, keys.sha256 s ≠ ""
  token : ∀ n, ∀ c ∈ (keys.tokenUrlsafe n).toList, isSpace c = false

section Strip

variable {keys : Keys} {s : String}

/-- A text whose first and last characters are not white space is stripped already. -/
theorem strip_eq (cs : List Char) (hs : s.toList = cs) (hfirst : ∀ c ∈ cs.head?, isSpace c = false)
    (hlast : ∀ c ∈ cs.getLast?, isSpace c = false) : strip s = s := by
  have hdrop : cs.dropWhile isSpace = cs := by
    cases cs with
    | nil => rfl
    | cons c cs =>
      rw [List.dropWhile_cons_of_neg]
      simpa using hfirst c rfl
  have hrdrop : cs.rdropWhile isSpace = cs := by
    rw [List.rdropWhile_eq_self_iff]
    intro hne hspace
    rw [hlast _ (List.getLast?_eq_some_getLast hne)] at hspace
    cases hspace
  rw [strip, hs, hdrop, hrdrop, ← hs, String.ofList_toList]

theorem strip_strip (s : String) : strip (strip s) = strip s := by
  have hfirst : ∀ c ∈ (s.toList.dropWhile isSpace).head?, isSpace c = false := by
    intro c hc
    have hnot := List.head?_dropWhile_not isSpace s.toList
    rw [Option.mem_def.mp hc] at hnot
    simpa using hnot
  apply strip_eq ((s.toList.dropWhile isSpace).rdropWhile isSpace)
  · rw [strip, String.toList_ofList]
  · intro c hc
    obtain ⟨t, ht⟩ := List.rdropWhile_prefix isSpace (s.toList.dropWhile isSpace)
    apply hfirst
    rw [← ht, Option.mem_def, List.head?_append, Option.mem_def.mp hc]
    rfl
  · intro c hc
    obtain ⟨hne, rfl⟩ := List.mem_getLast?_eq_getLast hc
    simpa using List.rdropWhile_last_not isSpace _ hne

theorem strip_generateApiKey (h : keys.Regular) (n : Nat) :
    strip (generateApiKey keys n) = generateApiKey keys n := by
  have hlrcp : "lrcp_".toList = ['l', 'r', 'c', 'p', '_'] := rfl
  apply strip_eq (['l', 'r', 'c', 'p', '_'] ++ (keys.tokenUrlsafe n).toList)
  · rw [generateApiKey, String.toList_append, hlrcp]
  · intro c hc
    obtain rfl : 'l' = c := Option.some.inj hc
    decide
  · intro c hc
    cases htoken : (keys.tokenUrlsafe n).toList with
    | nil =>
      rw [htoken] at hc
      obtain rfl : '_' = c := Option.some.inj hc
      decide
    | cons d ds =>
      rw [List.getLast?_append_of_ne_nil _ (by rw [htoken]; exact List.cons_ne_nil d ds)] at hc
      exact h.token n c (List.mem_of_getLast? hc)

theorem strip_rawKey (h : keys.Regular) (n : Nat) (project : ProjectCreate) :
    strip (rawKey keys n project) = rawKey keys n project := by
  unfold rawKey
  split
  · split_ifs
    · exact strip_strip _
    · exact strip_generateApiKey h n
  · exact strip_generateApiKey h n

end Strip

section Issuing

variable {keys : Keys} {auth : AuthIdentity} {project : ProjectCreate} {control : Control}
  {created : ProjectCreated}

theorem createProject_error {e : HttpException}
    (h : (createProject keys auth project control).1 = .error e) :
    (createProject keys auth project control).2.projects = control.projects := by
  revert h
  unfold createProject
  dsimp only
  split_ifs <;> simp

/-- What is known of a created project: the row behind it has the digest of the key in the
answer, and its identifier is new. -/
theorem createProject_ok (h : (createProject keys auth project control).1 = .ok created) :
    created = ⟨project.id, project.name, rawKey keys control.drawn project⟩ ∧ project.id ≠ "" ∧
      (∀ row ∈ control.projects, row.id ≠ project.id) ∧
      ∃ createdAt, (createProject keys auth project control).2.projects = control.projects ++
        [⟨project.id, project.name, some (keys.sha256 (rawKey keys control.drawn project)),
          createdAt⟩] := by
  have hid (hadmitted : ¬ project.admitted = false) : project.id ≠ "" := by
    intro hempty
    apply hadmitted
    simp [ProjectCreate.admitted, hempty]
  by_cases hadmitted : project.admitted = false
  · simp [createProject, hadmitted] at h
  by_cases hadmin : auth.isAdmin = false
  · simp [createProject, hadmitted, hadmin] at h
  by_cases hexists : control.projects.any (·.id = project.id)
  · simp only [createProject, if_neg hadmitted, if_neg hadmin, if_pos hexists] at h
    cases h
  · simp only [createProject, if_neg hadmitted, if_neg hadmin, if_neg hexists] at h ⊢
    refine ⟨(Except.ok.inj h).symm, hid hadmitted, ?_, _, rfl⟩
    simpa using hexists

variable (keys) in
/-- The table holds exactly the created projects, in their order. -/
structure Issued (created : List ProjectCreated) (projects : List ProjectRow) : Prop where
  rows : projects.map (fun row => (row.id, row.apiKeyHash)) =
    created.map fun project => (project.id, some (keys.sha256 project.apiKey))
  ids : (created.map ProjectCreated.id).Nodup
  id : ∀ project ∈ created, project.id ≠ ""
  key : ∀ project ∈ created, strip project.apiKey = project.apiKey

theorem Issued.id_mem {issued : List ProjectCreated} {projects : List ProjectRow}
    (h : Issued keys issued projects) {project : ProjectCreated} (hproject : project ∈ issued) :
    ∃ row ∈ projects, row.id = project.id := by
  have hmem := List.mem_map_of_mem (f := fun project : ProjectCreated =>
    (project.id, some (keys.sha256 project.apiKey))) hproject
  rw [← h.rows] at hmem
  obtain ⟨row, hrow, heq⟩ := List.mem_map.mp hmem
  exact ⟨row, hrow, congrArg Prod.fst heq⟩

theorem Issued.createProject (hkeys : keys.Regular) {issued : List ProjectCreated}
    (h : Issued keys issued control.projects)
    (hcreated : (createProject keys auth project control).1 = .ok created) :
    Issued keys (issued ++ [created]) (createProject keys auth project control).2.projects := by
  obtain ⟨rfl, hid, hnew, createdAt, hprojects⟩ := createProject_ok hcreated
  rw [hprojects]
  refine ⟨?_, ?_, ?_, ?_⟩
  · rw [List.map_append, List.map_append, h.rows]
    rfl
  · rw [List.map_append, List.nodup_append]
    refine ⟨h.ids, by simp, ?_⟩
    intro id hmem id' hmem'
    obtain ⟨project', hproject', rfl⟩ := List.mem_map.mp hmem
    obtain ⟨row, hrow, hrowId⟩ := h.id_mem hproject'
    rw [List.mem_singleton.mp hmem', ← hrowId]
    exact hnew row hrow
  · intro project' hproject'
    rcases List.mem_append.mp hproject' with hold | hlast
    · exact h.id project' hold
    · rw [List.mem_singleton.mp hlast]
      exact hid
  · intro project' hproject'
    rcases List.mem_append.mp hproject' with hold | hlast
    · exact h.key project' hold
    · rw [List.mem_singleton.mp hlast]
      exact strip_rawKey hkeys _ project

theorem createProjects_append (requests requests' : List (AuthIdentity × ProjectCreate))
    (control : Control) :
    createProjects keys (requests ++ requests') control =
      ((createProjects keys requests control).1 ++
        (createProjects keys requests' (createProjects keys requests control).2).1,
      (createProjects keys requests' (createProjects keys requests control).2).2) := by
  induction requests generalizing control with
  | nil => rfl
  | cons request requests ih =>
    obtain ⟨auth, project⟩ := request
    rw [List.cons_append, createProjects, createProjects]
    split <;> rw [ih]
    rfl

theorem Issued.createProjects (hkeys : keys.Regular) (requests : List (AuthIdentity × ProjectCreate))
    {issued : List ProjectCreated} {control : Control} (h : Issued keys issued control.projects) :
    Issued keys (issued ++ (createProjects keys requests control).1)
      (createProjects keys requests control).2.projects := by
  induction requests generalizing issued control with
  | nil =>
    rw [Api.createProjects, List.append_nil]
    exact h
  | cons request requests ih =>
    obtain ⟨auth, project⟩ := request
    rw [Api.createProjects]
    split
    · next e control' heq =>
      apply ih
      have hprojects := createProject_error (congrArg Prod.fst heq)
      rw [heq] at hprojects
      rwa [hprojects]
    · next created control' heq =>
      have hstep := h.createProject hkeys (congrArg Prod.fst heq)
      rw [heq] at hstep
      have hrest := ih hstep
      rwa [List.append_assoc] at hrest

end Issuing

section Resolving

variable {keys : Keys} {settings : Settings} {projects : List ProjectRow} {key : String}

theorem presentedToken_bearer (key : String) :
    presentedToken none (some ("Bearer " ++ key)) = some (strip key) := by
  have hbearer : "Bearer ".toList = ['B', 'e', 'a', 'r', 'e', 'r', ' '] := rfl
  have hdrop : String.ofList (("Bearer " ++ key).toList.drop 7) = key := by
    rw [String.toList_append, hbearer]
    exact String.ofList_toList
  have hpre : "Bearer ".toList.isPrefixOf ("Bearer " ++ key).toList = true := by
    rw [String.toList_append]
    exact List.isPrefixOf_iff_prefix.mpr (List.prefix_append _ _)
  have hnone : given none = false := rfl
  simp only [presentedToken, hnone, Bool.false_eq_true, if_false, hpre, if_true, hdrop]

theorem presentedToken_header (key : String) : presentedToken (some key) none = some key := by
  unfold presentedToken
  split_ifs <;> rfl

theorem given_some {s : String} : given (some s) = true ↔ s ≠ "" := by
  simp [given]

theorem getAuthIdentity_empty {xApiKey authorization : Option String} {id : String}
    (h : presentedToken xApiKey authorization = some "") :
    getAuthIdentity keys settings projects xApiKey authorization ≠ .ok ⟨false, some id⟩ := by
  have hempty : given (some "") = false := rfl
  have hnone : given none = false := rfl
  simp only [getAuthIdentity, h, hempty, hnone, Bool.false_eq_true, if_false, false_and, and_false]
  split_ifs <;> simp

/-- A stripped token is the administrator's key or is looked up among the projects. -/
theorem getAuthIdentity_token {xApiKey authorization : Option String} {id : String}
    (h : presentedToken xApiKey authorization = some key) (hkey : key ≠ "")
    (hstrip : strip key = key) :
    getAuthIdentity keys settings projects xApiKey authorization = .ok ⟨false, some id⟩ ↔
      settings.apiKey ≠ some key ∧ id ≠ "" ∧
        verifyProjectCredential keys projects key = some id := by
  have hgiven : given (some key) = true := given_some.mpr hkey
  simp only [getAuthIdentity, h, hgiven, hstrip, Option.map_some, Option.bind_some, if_true,
    Bool.true_eq_false, and_false, if_false, true_and, true_or, or_true]
  by_cases hadmin : settings.apiKey = some key
  · simp [hadmin, hgiven]
  · have hne : ¬ (given settings.apiKey = true ∧ some key = settings.apiKey) := by
      intro hboth
      exact hadmin hboth.2.symm
    rw [if_neg hne]
    cases hverify : verifyProjectCredential keys projects key with
    | none =>
      have hnone : given none = false := rfl
      simp [hnone]
    | some id' =>
      by_cases hid : id' = ""
      · subst hid
        have hempty : given (some "") = false := rfl
        simp only [hempty, Bool.false_eq_true, if_false]
        constructor
        · intro himpossible
          cases himpossible
        · intro hright
          exact absurd (Option.some.inj hright.2.2).symm hright.2.1
      · rw [if_pos (given_some.mpr hid)]
        constructor
        · intro heq
          have hsame : some id' = some id := congrArg AuthIdentity.projectId (Except.ok.inj heq)
          obtain rfl := Option.some.inj hsame
          exact ⟨hadmin, hid, rfl⟩
        · intro hright
          rw [hright.2.2]

/-- The credential of a key is the first project that was issued a key of the same digest. -/
theorem Issued.verify_eq (hkeys : keys.Regular) {issued : List ProjectCreated}
    (h : Issued keys issued projects) (hkey : key ≠ "") (hstrip : strip key = key) :
    verifyProjectCredential keys projects key =
      (issued.find? fun project => keys.sha256 key = keys.sha256 project.apiKey).map
        ProjectCreated.id := by
  let hasKey := fun row : String × Option String => row.2.any fun storedHash =>
    decide (storedHash ≠ "" ∧ keys.sha256 key = storedHash)
  have hrows := congrArg (fun rows => (rows.find? hasKey).map Prod.fst) h.rows
  simp only [List.find?_map, Option.map_map] at hrows
  have hverify : ¬ (key = "" ∨ strip key = "") := by
    rw [hstrip]
    simpa using hkey
  rw [verifyProjectCredential, if_neg hverify, hstrip]
  have hissued : (hasKey ∘ fun project : ProjectCreated =>
      (project.id, some (keys.sha256 project.apiKey))) =
      fun project => decide (keys.sha256 key = keys.sha256 project.apiKey) := by
    funext project
    simp [hasKey, hkeys.digest]
  rw [hissued] at hrows
  exact hrows

/-- A key can be told from the administrator's key and from those issued before it. -/
structure Distinguished (settings : Settings) (earlier : List ProjectCreated) (key : String) :
    Prop where
  present : key ≠ ""
  admin : settings.apiKey ≠ some key
  fresh : ∀ project ∈ earlier, project.apiKey ≠ key

theorem Issued.resolved_iff (hkeys : keys.Regular) {earlier later : List ProjectCreated}
    {project : ProjectCreated} (h : Issued keys (earlier ++ project :: later) projects)
    (hinj : Set.InjOn keys.sha256 {key | ∃ issued ∈ earlier ++ project :: later, issued.apiKey = key}) :
    Resolved keys settings projects project ↔ Distinguished settings earlier project.apiKey := by
  have hmem : project ∈ earlier ++ project :: later := by simp
  have hstrip := h.key project hmem
  have hbearer := presentedToken_bearer project.apiKey
  rw [hstrip] at hbearer
  have hheader := presentedToken_header project.apiKey
  by_cases hkey : project.apiKey = ""
  · constructor
    · intro hresolved
      rw [hkey] at hheader
      exact absurd hresolved.1 (hkey ▸ getAuthIdentity_empty hheader)
    · intro hdistinguished
      exact absurd hkey hdistinguished.present
  have hsame : ∀ issued ∈ earlier, keys.sha256 project.apiKey = keys.sha256 issued.apiKey ↔
      issued.apiKey = project.apiKey := by
    intro issued hissued
    constructor
    · intro hdigest
      exact (hinj ⟨project, hmem, rfl⟩ ⟨issued, List.mem_append_left _ hissued, rfl⟩ hdigest).symm
    · intro heq
      rw [heq]
  have hfind : verifyProjectCredential keys projects project.apiKey = some project.id ↔
      ∀ issued ∈ earlier, issued.apiKey ≠ project.apiKey := by
    rw [h.verify_eq hkeys hkey hstrip, List.find?_append]
    cases hfirst : earlier.find? fun issued =>
        keys.sha256 project.apiKey = keys.sha256 issued.apiKey with
    | none =>
      rw [Option.none_or, List.find?_cons_of_pos (by simp)]
      refine iff_of_true rfl ?_
      intro issued hissued heq
      have hnone := List.find?_eq_none.mp hfirst issued hissued
      exact hnone (decide_eq_true ((hsame issued hissued).mpr heq))
    | some first =>
      have hfirstMem := List.mem_of_find?_eq_some hfirst
      rw [Option.some_or, Option.map_some]
      refine iff_of_false ?_ ?_
      · -- the identifiers of all projects differ
        intro heq
        have hids := h.ids
        rw [List.map_append, List.nodup_append] at hids
        exact hids.2.2 _ (List.mem_map_of_mem hfirstMem) _ (List.mem_map_of_mem List.mem_cons_self)
          (Option.some.inj heq)
      · intro hnone
        have hdigest := List.find?_some hfirst
        exact hnone first hfirstMem ((hsame first hfirstMem).mp (of_decide_eq_true hdigest))
  have hid := h.id project hmem
  rw [Resolved, getAuthIdentity_token hheader hkey hstrip, getAuthIdentity_token hbearer hkey hstrip,
    and_self, hfind]
  constructor
  · intro hright
    exact ⟨hkey, hright.1, hright.2.2⟩
  · intro hdistinguished
    exact ⟨hdistinguished.admin, hid, hdistinguished.fresh⟩

end Resolving

variable {keys : Keys} {settings : Settings}

/-- The key in the answer to a request is resolved to the created project, whatever is
created before and after, exactly when it can be told from the earlier keys. -/
theorem apiKey_resolved (hkeys : keys.Regular) (drawn : Nat)
    (requests requests' : List (AuthIdentity × ProjectCreate)) (auth : AuthIdentity)
    (project : ProjectCreate) (created : ProjectCreated)
    (hinj : Set.InjOn keys.sha256 {key | ∃ issued ∈ (createProjects keys
      (requests ++ (auth, project) :: requests') ⟨[], drawn⟩).1, issued.apiKey = key})
    (hcreated : (createProject keys auth project
      (createProjects keys requests ⟨[], drawn⟩).2).1 = .ok created) :
    Resolved keys settings (createProjects keys
      (requests ++ (auth, project) :: requests') ⟨[], drawn⟩).2.projects created ↔
    Distinguished settings (createProjects keys requests ⟨[], drawn⟩).1
      (rawKey keys (createProjects keys requests ⟨[], drawn⟩).2.drawn project) := by
  have hempty : Issued keys [] (Control.mk [] drawn).projects := ⟨rfl, by simp, by simp, by simp⟩
  have hissued := hempty.createProjects hkeys (requests ++ (auth, project) :: requests')
  rw [List.nil_append] at hissued
  have hkey : created.apiKey = rawKey keys (createProjects keys requests ⟨[], drawn⟩).2.drawn project := by
    rw [(createProject_ok hcreated).1]
  have hsplit : ∃ later, (createProjects keys
      (requests ++ (auth, project) :: requests') ⟨[], drawn⟩).1 =
      (createProjects keys requests ⟨[], drawn⟩).1 ++ created :: later := by
    rw [createProjects_append]
    simp only [createProjects]
    split
    · next heq =>
      rw [heq] at hcreated
      cases hcreated
    · next heq =>
      rw [heq] at hcreated
      obtain rfl := Except.ok.inj hcreated
      exact ⟨_, rfl⟩
  obtain ⟨later, hlater⟩ := hsplit
  rw [hlater] at hissued hinj
  rw [← hkey]
  exact hissued.resolved_iff hkeys hinj

/-- The digests of the empty text, of `j` and of `k`. -/
def sampleKeys : Keys where
  sha256 s := if s = "" then "e3b0c44298fc1c149afbf4c8996fb92427ae41e4649b934ca495991b7852b855"
    else if s = "j" then "189f40034be7a199f1fa9891668ee3ab6049f82d38c68be70f596eab2e1857b7"
    else if s = "k" then "8254c329a92850f6d539dd376f4816ee2764517da5e0235514af433164480d7a"
    else "ffffffffffffffffffffffffffffffffffffffffffffffffffffffffffffffff"
  tokenUrlsafe _ := "3tK9xQ0vJm5cYbR2dLwZ8nHfUaPgE1sT6iVo4CkXyWM"
  currentTimestamp _ := "2025-01-01 00:00:00"

theorem sampleKeys_regular : sampleKeys.Regular := by
  refine ⟨?_, ?_⟩
  · intro s
    simp only [sampleKeys]
    split_ifs <;> decide
  · intro n
    have htoken : ((sampleKeys.tokenUrlsafe 0).toList.all fun c => !isSpace c) = true := by
      decide +kernel
    intro c hc
    simpa using List.all_eq_true.mp htoken c hc

/-- A second project, beside an administrator's key. -/
theorem apiKey_resolved_second : Resolved sampleKeys ⟨some "admin", true⟩ (createProjects sampleKeys
    ([(⟨true, none⟩, ⟨"cafe", "Cafe", some "j"⟩)] ++ (⟨true, none⟩, ⟨"shop", "Shop", some " k "⟩) :: [])
      ⟨[], 0⟩).2.projects ⟨"shop", "Shop", "k"⟩ := by
  have hearlier : (createProjects sampleKeys [(⟨true, none⟩, ⟨"cafe", "Cafe", some "j"⟩)] ⟨[], 0⟩).1 =
      [⟨"cafe", "Cafe", "j"⟩] := by decide +kernel
  have hcreated : (createProjects sampleKeys ([(⟨true, none⟩, ⟨"cafe", "Cafe", some "j"⟩)] ++
      (⟨true, none⟩, ⟨"shop", "Shop", some " k "⟩) :: []) ⟨[], 0⟩).1 =
      [⟨"cafe", "Cafe", "j"⟩, ⟨"shop", "Shop", "k"⟩] := by decide +kernel
  refine (apiKey_resolved sampleKeys_regular 0 [(⟨true, none⟩, ⟨"cafe", "Cafe", some "j"⟩)] []
    ⟨true, none⟩ ⟨"shop", "Shop", some " k "⟩ ⟨"shop", "Shop", "k"⟩ ?_ (by decide +kernel)).mpr ?_
  · have hdigests : ∀ a ∈ ["j", "k"], ∀ b ∈ ["j", "k"], sampleKeys.sha256 a = sampleKeys.sha256 b → a = b := by
      decide +kernel
    have hkeys : ∀ key, (∃ issued ∈ [ProjectCreated.mk "cafe" "Cafe" "j", ⟨"shop", "Shop", "k"⟩],
        issued.apiKey = key) → key ∈ ["j", "k"] := by
      intro key hkey
      simpa [eq_comm] using hkey
    rw [hcreated]
    exact fun key hkey key' hkey' hdigest => hdigests key (hkeys key hkey) key' (hkeys key' hkey') hdigest
  · rw [hearlier]
    refine ⟨by decide +kernel, by decide +kernel, fun project hproject => ?_⟩
    rw [List.mem_singleton.mp hproject]
    decide +kernel

/-- A key of white space is stripped to nothing, and nothing is accepted. -/
theorem not_apiKey_resolved :
    ¬ ∀ (keys : Keys) (settings : Settings) (requests : List (AuthIdentity × ProjectCreate)),
      keys.Regular → Set.InjOn keys.sha256
        {key | ∃ issued ∈ (createProjects keys requests ⟨[], 0⟩).1, issued.apiKey = key} →
      ∀ created ∈ (createProjects keys requests ⟨[], 0⟩).1,
        Resolved keys settings (createProjects keys requests ⟨[], 0⟩).2.projects created := by
  intro hall
  have hcreated : (createProjects sampleKeys
      [(⟨true, none⟩, ⟨"shop", "Shop", some "   "⟩)] ⟨[], 0⟩).1 = [⟨"shop", "Shop", ""⟩] := by
    decide +kernel
  have hresolved := hall sampleKeys ⟨some "admin", true⟩
    [(⟨true, none⟩, ⟨"shop", "Shop", some "   "⟩)] sampleKeys_regular
  rw [hcreated] at hresolved
  have hheader := (hresolved (by
    intro key hkey key' hkey' hdigest
    obtain ⟨issued, hissued, rfl⟩ := hkey
    obtain ⟨issued', hissued', rfl⟩ := hkey'
    rw [List.mem_singleton.mp hissued, List.mem_singleton.mp hissued']) _ List.mem_cons_self).1
  revert hheader
  decide +kernel

end Lrcp.Api

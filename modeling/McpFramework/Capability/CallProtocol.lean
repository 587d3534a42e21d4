import McpFramework.Auth.SessionHeader
import McpFramework.Capability.QueryFilter
import McpFramework.Lib.Transition

/-!
# Capability — CallProtocol

A tool call from its arrival to its audit record (`call_tool` in
`capability/handler.rs`), any number of them at once, cut at their awaits: the
caller's credential is looked up, the validator is asked, the registry is asked
twice, and the tool runs.

Between two sections of a call the registry may change, and a lookup of the
credential may answer something else. The token store, the validator and the
tools are answers of the step: nothing is assumed of them.
-/

namespace McpFramework.CallProtocol

open Lib

/-! ## Records -/

inductive ContentBlock where
  | text (text : String)
  | image
  | resource
  | audio
  | resourceLink
  | other

structure CallToolResult where
  content : List ContentBlock
  isError : Option Bool

inductive CallToolResponse where
  | complete (result : CallToolResult)
  | inputRequired
  | task
  | other

inductive ToolCallOutcome where
  | success (isError : Bool) (contentSummary : Option String)
  | mcpError (code : Int) (message : String)

structure ToolCallRecord where
  toolName : String
  arguments : Option JsonObject
  sessionId : String
  source : ToolCallSource
  outcome : ToolCallOutcome

/-- The characters that fit into `n` bytes, as `floor_char_boundary` cuts them. -/
def takeBytes : Nat → List Char → List Char
  | _, [] => []
  | n, c :: text => if c.utf8Size ≤ n then c :: takeBytes (n - c.utf8Size) text else []

def byteLength (text : List Char) : Nat := (text.map Char.utf8Size).sum

/-- A text up to 256 bytes, anything else by its kind. -/
def summarizeBlock : ContentBlock → List Char
  | .text text =>
    if byteLength text.toList > 256 then takeBytes 256 text.toList ++ "...".toList
    else text.toList
  | .image => "<image>".toList
  | .resource => "<resource>".toList
  | .audio => "<audio>".toList
  | .resourceLink => "<resource_link>".toList
  | .other => "<content>".toList

def summarizeContent (content : List ContentBlock) : Option String :=
  if content.isEmpty then none
  else some (String.ofList ("; ".toList.intercalate (content.map summarizeBlock)))

def outcomeOf : Except McpError CallToolResponse → ToolCallOutcome
  | .ok (.complete result) =>
    .success (result.isError.getD false) (summarizeContent result.content)
  | .ok .inputRequired => .success false (some "<input_required>")
  | .ok .task => .success false (some "<task>")
  | .ok .other => .success false (some "<pending>")
  | .error error => .mcpError error.code error.message

/-! ## Calls -/

/-- The parts of a request with the query of its URI. -/
structure CallParts extends Parts where
  query : Option String

/-- What a validator is told. -/
structure CallInfo where
  sessionId : String
  token : Option StoredToken
  request : Option CallParts

/-- What a tool of the registry is told. -/
structure ToolCallContext where
  sessionId : String
  token : Option StoredToken
  request : Option CallParts

/-- Which of the optional parts of a `HandlerContext` are there. -/
structure HandlerContext where
  accessValidator : Bool
  toolCallLogger : Bool

/-- What a step is answered from outside, where it asks. -/
structure Answers where
  storedToken : Option StoredToken
  decision : AccessDecision
  registryResult : Except McpError CallToolResult
  innerResult : Except McpError CallToolResponse

/-- The credential and the request, resolved once for the validator and the tool. -/
abbrev Identity := Option StoredToken × Option CallParts

inductive Pc where
  | idle
  | enrich
  | validate (token : Option StoredToken)
  | query (identity : Option Identity)
  | contains (identity : Option Identity)
  | resolve
  | callRegistry (identity : Identity)
  | callInner
  | finish (result : Except McpError CallToolResponse) (source : ToolCallSource)
  | done (result : Except McpError CallToolResponse)

/-- Ghost: a tool that has run, and what it was told. -/
structure Ran where
  toolName : String
  arguments : Option JsonObject
  source : ToolCallSource
  context : Option ToolCallContext
  result : Except McpError CallToolResponse

/-- What arrives; there are no request parts without HTTP. -/
structure Call where
  request : CallToolRequest
  parts : Option CallParts

/-- `lookups` to `ran` are ghost: how often the token store was asked, what the
validator has allowed, and what has run. -/
structure Task extends Call where
  pc : Pc
  lookups : Nat
  allowed : Option CallInfo
  ran : List Ran

/-- The registry has a handler's number under each name. -/
structure State where
  registry : HashMap String Nat
  tasks : Nat → Task
  log : List (Nat × ToolCallRecord)

inductive Label where
  | addTool (name : String) (handler : Nat)
  | removeTool (name : String)
  | call (t : Nat) (call : Call)
  /-- Task `t` runs its next section. -/
  | run (t : Nat) (answers : Answers)

def Task.idle : Task := ⟨⟨⟨"", none⟩, none⟩, .idle, 0, none, []⟩

def init : State := ⟨HashMap.empty, fun _ => .idle, []⟩

namespace Call

def sessionId (call : Call) : String := resolveSessionId (call.parts.map (·.toParts))

/-- The credential a request carries of its own. -/
def ownToken (call : Call) : Option StoredToken := call.parts.bind (·.requestToken)

/-- The record of a call that ran. -/
def record (call : Call) (result : Except McpError CallToolResponse) (source : ToolCallSource) :
    ToolCallRecord :=
  ⟨call.request.name, call.request.arguments, call.sessionId, source, outcomeOf result⟩

end Call

namespace Task

/-- `resolve_token`: the task's own credential, or what the store answers. -/
def resolveToken (task : Task) (storedToken : Option StoredToken) : Task × Option StoredToken :=
  match task.ownToken with
  | some token => (task, some token)
  | none => ({ task with lookups := task.lookups + 1 }, storedToken)

def goto (task : Task) (pc : Pc) : Task := { task with pc := pc }

def refuse (task : Task) (message : String) : Task :=
  task.goto (.done (.error (ToolHandler.invalidRequest message)))

/-- A tool runs. -/
def runTool (task : Task) (source : ToolCallSource) (context : Option ToolCallContext)
    (result : Except McpError CallToolResponse) : Task :=
  { task with
    pc := .finish result source
    ran := ⟨task.request.name, task.request.arguments, source, context, result⟩ :: task.ran }

end Task

section Sections

variable (context : HandlerContext)

/-- The next section of a task, with the record it sends to the logger. -/
def runSection (registry : HashMap String Nat) (task : Task) (answers : Answers) :
    Option (Task × Option ToolCallRecord) :=
  match task.pc with
  | .idle => none
  | .enrich =>
    if context.accessValidator then
      let r := task.resolveToken answers.storedToken
      some (r.1.goto (.validate r.2), none)
    else some (task.goto (.query none), none)
  | .validate token =>
    match answers.decision with
    | .deny reason =>
      some (task.refuse ("Access denied for tool '" ++ task.request.name ++ "': " ++ reason), none)
    | .allow =>
      some ({ task with
          pc := .query (some (token, task.parts))
          allowed := some ⟨task.sessionId, token, task.parts⟩ }, none)
  | .query identity =>
    if (resolveQueryFilter (task.parts.bind (·.query))).contains task.request.name then
      some (task.refuse ("Tool '" ++ task.request.name ++ "' is not available"), none)
    else some (task.goto (.contains identity), none)
  | .contains identity =>
    if registry.containsKey task.request.name then
      match identity with
      | some identity => some (task.goto (.callRegistry identity), none)
      | none => some (task.goto .resolve, none)
    else some (task.goto .callInner, none)
  | .resolve =>
    let r := task.resolveToken answers.storedToken
    some (r.1.goto (.callRegistry (r.2, task.parts)), none)
  | .callRegistry identity =>
    -- The tool may be gone since the registry was asked for it.
    if registry.containsKey task.request.name then
      some (task.runTool .registry (some ⟨task.sessionId, identity.1, identity.2⟩)
        (answers.registryResult.map .complete), none)
    else some (task.goto .callInner, none)
  | .callInner => some (task.runTool .inner none answers.innerResult, none)
  | .finish result source =>
    some (task.goto (.done result),
      if context.toolCallLogger then some (task.record result source) else none)
  | .done _ => none

def step (st : State) : Label → Option State
  | .addTool name handler => some { st with registry := st.registry.insert name handler }
  | .removeTool name => some { st with registry := st.registry.remove name }
  | .call t call =>
    match (st.tasks t).pc with
    | .idle =>
      some { st with
        tasks := Function.update st.tasks t
          { Task.idle with toCall := call, pc := .enrich } }
    | _ => none
  | .run t answers =>
    (runSection context st.registry (st.tasks t) answers).map fun r =>
      { st with
        tasks := Function.update st.tasks t r.1
        log := st.log ++ (r.2.map fun record => (t, record)).toList }

def system : System State Label := ⟨step context⟩

end Sections

/-- What the logger was sent for a task. -/
def State.logOf (st : State) (t : Nat) : List ToolCallRecord :=
  (st.log.filter fun e => decide (e.1 = t)).map (·.2)

/-! ## Accounts -/

def Pc.isDone : Pc → Bool
  | .done _ => true
  | _ => false

/-- A credential that a request carries of its own is the one that is used. -/
def Own (call : Call) (token : Option StoredToken) : Prop :=
  ∀ own, call.ownToken = some own → token = some own

def Shown (call : Call) : Prop :=
  call.request.name ∉ resolveQueryFilter (call.parts.bind (·.query))

/-- The credential, session and request are the call's. -/
def Told (call : Call) (sessionId : String) (token : Option StoredToken)
    (request : Option CallParts) : Prop :=
  sessionId = call.sessionId ∧ request = call.parts ∧ Own call token

/-- What ran, ran with the call's name, arguments and session, not hidden, and on
the very credential the validator allowed. -/
structure Proper (validated : Bool) (call : Call) (allowed : Option CallInfo) (r : Ran) :
    Prop where
  toolName : r.toolName = call.request.name
  arguments : r.arguments = call.request.arguments
  shown : Shown call
  context : r.context.isSome = decide (r.source = .registry)
  told : ∀ c ∈ r.context, Told call c.sessionId c.token c.request
  allowed : validated = true → ∃ info, allowed = some info ∧
    ∀ c ∈ r.context, c = ⟨info.sessionId, info.token, info.request⟩

/-- What the logger is to have been sent for a task. -/
def Task.owed (task : Task) (logs : Bool) : List ToolCallRecord :=
  if logs && task.pc.isDone then task.ran.map fun r => task.record r.result r.source else []

/-- **The account of a call**: its credential was looked up once at most, at most
one tool ran, the client got that tool's answer, and once the call is over the
logger has been sent one record for what ran and none where nothing did. -/
structure Accounted (context : HandlerContext) (task : Task) (log : List ToolCallRecord) :
    Prop where
  lookups : task.lookups ≤ 1
  once : task.ran.length ≤ 1
  proper : ∀ r ∈ task.ran, Proper context.accessValidator task.toCall task.allowed r
  told : ∀ info ∈ task.allowed, Told task.toCall info.sessionId info.token info.request
  answered : ∀ result, task.pc = .done result → ∀ r ∈ task.ran, r.result = result
  logged : log = task.owed context.toolCallLogger

/-! ## Stages -/

/-- The identity a call goes on with is the one its validator allowed. -/
structure Agreed (validated : Bool) (call : Call) (allowed : Option CallInfo) (lookups : Nat)
    (identity : Option Identity) : Prop where
  allowed : validated = true → ∃ token, identity = some (token, call.parts) ∧
    allowed = some ⟨call.sessionId, token, call.parts⟩
  unresolved : identity = none → lookups = 0
  own : ∀ id ∈ identity, id.2 = call.parts ∧ Own call id.1

/-- What holds of a task between two sections. -/
def Stage (validated : Bool) (task : Task) : Pc → Prop
  | .idle => task.ran = [] ∧ task.allowed = none ∧ task.lookups = 0
  | .enrich => task.ran = [] ∧ task.allowed = none ∧ task.lookups = 0
  | .validate token => task.ran = [] ∧ task.allowed = none ∧ Own task.toCall token
  | .query identity =>
    task.ran = [] ∧ Agreed validated task.toCall task.allowed task.lookups identity
  | .contains identity =>
    task.ran = [] ∧ Agreed validated task.toCall task.allowed task.lookups identity ∧
      Shown task.toCall
  | .resolve =>
    task.ran = [] ∧ Agreed validated task.toCall task.allowed task.lookups none ∧
      Shown task.toCall
  | .callRegistry identity =>
    task.ran = [] ∧ Agreed validated task.toCall task.allowed task.lookups (some identity) ∧
      Shown task.toCall
  | .callInner =>
    task.ran = [] ∧ (validated = true → task.allowed.isSome = true) ∧ Shown task.toCall
  | .finish result source =>
    ∃ r, task.ran = [r] ∧ r.result = result ∧ r.source = source ∧
      Proper validated task.toCall task.allowed r
  | .done result =>
    task.ran = [] ∨ ∃ r, task.ran = [r] ∧ r.result = result ∧
      Proper validated task.toCall task.allowed r

structure Inv (context : HandlerContext) (task : Task) (log : List ToolCallRecord) : Prop where
  lookups : task.lookups ≤ 1
  told : ∀ info ∈ task.allowed, Told task.toCall info.sessionId info.token info.request
  stage : Stage context.accessValidator task task.pc
  logged : log = task.owed context.toolCallLogger

section Invariant

variable {context : HandlerContext} {task task' : Task} {log : List ToolCallRecord}
  {registry : HashMap String Nat} {answers : Answers} {sent : Option ToolCallRecord} {pc : Pc}

theorem owed_of_isDone_eq_false (h : task.pc.isDone = false) (logs : Bool) :
    task.owed logs = [] := by
  rw [Task.owed, h, Bool.and_false]
  rfl

theorem Inv.unlogged (h : Inv context task log) (hpc : task.pc.isDone = false) : log = [] :=
  h.logged.trans (owed_of_isDone_eq_false hpc _)

/-- Before its first section a task has done nothing. -/
theorem Inv.start (hran : task.ran = []) (hallowed : task.allowed = none)
    (hlookups : task.lookups = 0) (hpc : task.pc = .idle ∨ task.pc = .enrich) :
    Inv context task [] where
  lookups := by omega
  told := fun info hinfo => by
    rw [hallowed] at hinfo
    cases hinfo
  stage := by
    rcases hpc with hpc | hpc
    · rw [hpc]
      exact ⟨hran, hallowed, hlookups⟩
    · rw [hpc]
      exact ⟨hran, hallowed, hlookups⟩
  logged := by
    refine (owed_of_isDone_eq_false ?_ _).symm
    rcases hpc with hpc | hpc
    · rw [hpc]
      rfl
    · rw [hpc]
      rfl

/-- A task moves on, with nothing logged. -/
theorem Inv.goto (h : Inv context task log) (hpc : task.pc.isDone = false)
    (hnext : pc.isDone = false) (hstage : Stage context.accessValidator task pc) :
    Inv context (task.goto pc) log where
  lookups := h.lookups
  told := h.told
  stage := by
    show Stage context.accessValidator (task.goto pc) pc
    cases pc <;> exact hstage
  logged := (h.unlogged hpc).trans (owed_of_isDone_eq_false hnext _).symm

/-- A refusal runs nothing and logs nothing. -/
theorem Inv.refuse (h : Inv context task log) (hpc : task.pc.isDone = false)
    (hran : task.ran = []) (message : String) : Inv context (task.refuse message) log where
  lookups := h.lookups
  told := h.told
  stage := Or.inl hran
  logged := by
    rw [h.unlogged hpc, Task.owed, show (task.refuse message).ran = [] from hran]
    simp

theorem own_resolveToken (task : Task) (storedToken : Option StoredToken) :
    Own task.toCall (task.resolveToken storedToken).2 := by
  intro own hown
  rw [Task.resolveToken, hown]

/-- A lookup changes nothing but how many there were. -/
theorem resolveToken_eq (task : Task) (storedToken : Option StoredToken) :
    ∃ n ≤ task.lookups + 1, (task.resolveToken storedToken).1 = { task with lookups := n } := by
  unfold Task.resolveToken
  split
  · exact ⟨task.lookups, by omega, rfl⟩
  · exact ⟨task.lookups + 1, by omega, rfl⟩

/-- A task looks its credential up and moves on. -/
theorem Inv.resolveToken (h : Inv context task log) (hzero : task.lookups = 0)
    (hpc : task.pc.isDone = false) (hnext : pc.isDone = false)
    (hstage : ∀ n, Stage context.accessValidator { task with lookups := n } pc) :
    Inv context ((task.resolveToken answers.storedToken).1.goto pc) log := by
  obtain ⟨n, hn, heq⟩ := resolveToken_eq task answers.storedToken
  rw [heq]
  refine ⟨?_, h.told, ?_, ?_⟩
  · show n ≤ 1
    omega
  · show Stage context.accessValidator _ pc
    have hn := hstage n
    cases pc <;> exact hn
  · exact (h.unlogged hpc).trans (owed_of_isDone_eq_false hnext _).symm

/-- A tool runs as the call was checked. -/
theorem Inv.runTool (h : Inv context task log) (hpc : task.pc.isDone = false)
    (hran : task.ran = []) {source : ToolCallSource} {told : Option ToolCallContext}
    {result : Except McpError CallToolResponse}
    (hproper : Proper context.accessValidator task.toCall task.allowed
      ⟨task.request.name, task.request.arguments, source, told, result⟩) :
    Inv context (task.runTool source told result) log where
  lookups := h.lookups
  told := h.told
  stage := by
    refine ⟨_, ?_, rfl, rfl, hproper⟩
    show _ :: task.ran = _
    rw [hran]
  logged := (h.unlogged hpc).trans (owed_of_isDone_eq_false rfl _).symm

/-- **A section keeps the account.** -/
theorem Inv.runSection (h : Inv context task log)
    (hs : runSection context registry task answers = some (task', sent)) :
    Inv context task' (log ++ sent.toList) := by
  have hstage := h.stage
  unfold CallProtocol.runSection at hs
  split at hs
  · cases hs
  · next hpc =>
    have hdone : task.pc.isDone = false := by rw [hpc]; rfl
    rw [hpc] at hstage
    obtain ⟨hran, hallowed, hzero⟩ := hstage
    split at hs
    · cases hs
      rw [Option.toList_none, List.append_nil]
      exact h.resolveToken hzero hdone rfl fun _ => ⟨hran, hallowed, own_resolveToken task _⟩
    · next hnone =>
      cases hs
      rw [Option.toList_none, List.append_nil]
      refine h.goto hdone rfl ⟨hran, ?_, fun _ => hzero, ?_⟩
      · exact fun hvalidated => absurd hvalidated hnone
      · exact fun id hid => by cases hid
  · next token hpc =>
    have hdone : task.pc.isDone = false := by rw [hpc]; rfl
    rw [hpc] at hstage
    obtain ⟨hran, hallowed, hown⟩ := hstage
    split at hs
    · cases hs
      rw [Option.toList_none, List.append_nil]
      exact h.refuse hdone hran _
    · cases hs
      rw [Option.toList_none, List.append_nil]
      refine ⟨h.lookups, fun info hinfo => ?_, ⟨hran, ?_, fun hid => ?_, fun id hid => ?_⟩, ?_⟩
      · cases hinfo
        exact ⟨rfl, rfl, hown⟩
      · exact fun _ => ⟨token, rfl, rfl⟩
      · cases hid
      · cases hid
        exact ⟨rfl, hown⟩
      · exact (h.unlogged hdone).trans (owed_of_isDone_eq_false rfl _).symm
  · next identity hpc =>
    have hdone : task.pc.isDone = false := by rw [hpc]; rfl
    rw [hpc] at hstage
    obtain ⟨hran, hagreed⟩ := hstage
    split at hs
    · cases hs
      rw [Option.toList_none, List.append_nil]
      exact h.refuse hdone hran _
    · next hshown =>
      cases hs
      rw [Option.toList_none, List.append_nil]
      refine h.goto hdone rfl ⟨hran, hagreed, fun hmem => hshown ?_⟩
      exact List.contains_iff_mem.mpr hmem
  · next identity hpc =>
    have hdone : task.pc.isDone = false := by rw [hpc]; rfl
    rw [hpc] at hstage
    obtain ⟨hran, hagreed, hshown⟩ := hstage
    split at hs
    · split at hs
      · cases hs
        rw [Option.toList_none, List.append_nil]
        exact h.goto hdone rfl ⟨hran, hagreed, hshown⟩
      · cases hs
        rw [Option.toList_none, List.append_nil]
        exact h.goto hdone rfl ⟨hran, hagreed, hshown⟩
    · cases hs
      rw [Option.toList_none, List.append_nil]
      refine h.goto hdone rfl ⟨hran, fun hvalidated => ?_, hshown⟩
      obtain ⟨token, -, hallowed⟩ := hagreed.allowed hvalidated
      rw [hallowed]
      rfl
  · next hpc =>
    have hdone : task.pc.isDone = false := by rw [hpc]; rfl
    rw [hpc] at hstage
    obtain ⟨hran, hagreed, hshown⟩ := hstage
    cases hs
    rw [Option.toList_none, List.append_nil]
    refine h.resolveToken (hagreed.unresolved rfl) hdone rfl fun n => ⟨hran, ?_, hshown⟩
    refine ⟨fun hvalidated => ?_, fun hid => (by cases hid), fun id hid => ?_⟩
    · obtain ⟨token, hidentity, -⟩ := hagreed.allowed hvalidated
      cases hidentity
    · cases hid
      exact ⟨rfl, own_resolveToken task _⟩
  · next identity hpc =>
    have hdone : task.pc.isDone = false := by rw [hpc]; rfl
    rw [hpc] at hstage
    obtain ⟨hran, hagreed, hshown⟩ := hstage
    obtain ⟨hparts, hown⟩ := hagreed.own identity rfl
    split at hs
    · cases hs
      rw [Option.toList_none, List.append_nil]
      refine h.runTool hdone hran ⟨rfl, rfl, hshown, rfl, fun c hc => ?_, fun hvalidated => ?_⟩
      · cases hc
        exact ⟨rfl, hparts, hown⟩
      · obtain ⟨token, hidentity, hallowed⟩ := hagreed.allowed hvalidated
        cases hidentity
        refine ⟨_, hallowed, fun c hc => ?_⟩
        cases hc
        rfl
    · cases hs
      rw [Option.toList_none, List.append_nil]
      refine h.goto hdone rfl ⟨hran, fun hvalidated => ?_, hshown⟩
      obtain ⟨token, -, hallowed⟩ := hagreed.allowed hvalidated
      rw [hallowed]
      rfl
  · next hpc =>
    have hdone : task.pc.isDone = false := by rw [hpc]; rfl
    rw [hpc] at hstage
    obtain ⟨hran, hallowed, hshown⟩ := hstage
    cases hs
    rw [Option.toList_none, List.append_nil]
    refine h.runTool hdone hran ⟨rfl, rfl, hshown, rfl, fun c hc => (by cases hc), ?_⟩
    intro hvalidated
    obtain ⟨info, hinfo⟩ := Option.isSome_iff_exists.mp (hallowed hvalidated)
    exact ⟨info, hinfo, fun c hc => by cases hc⟩
  · next result source hpc =>
    have hdone : task.pc.isDone = false := by rw [hpc]; rfl
    rw [hpc] at hstage
    obtain ⟨r, hran, hresult, hsource, hproper⟩ := hstage
    cases hs
    refine ⟨h.lookups, h.told, Or.inr ⟨r, hran, hresult, hproper⟩, ?_⟩
    rw [h.unlogged hdone, List.nil_append, Task.owed,
      show (task.goto (.done result)).ran = [r] from hran, ← hresult, ← hsource]
    cases context.toolCallLogger <;> rfl
  · cases hs

theorem Inv.accounted (h : Inv context task log) : Accounted context task log := by
  have hran : task.ran = [] ∨ ∃ r, task.ran = [r] ∧
      Proper context.accessValidator task.toCall task.allowed r ∧
      ∀ result, task.pc = .done result → r.result = result := by
    have hstage := h.stage
    cases hpc : task.pc with
    | finish result source =>
      rw [hpc] at hstage
      obtain ⟨r, hran, -, -, hproper⟩ := hstage
      exact Or.inr ⟨r, hran, hproper, fun _ hd => by cases hd⟩
    | done result =>
      rw [hpc] at hstage
      rcases hstage with hnil | ⟨r, hran, hresult, hproper⟩
      · exact Or.inl hnil
      · exact Or.inr ⟨r, hran, hproper, fun _ hd => by cases hd; exact hresult⟩
    | _ =>
      rw [hpc] at hstage
      exact Or.inl hstage.1
  refine ⟨h.lookups, ?_, fun r hr => ?_, h.told, fun result hd r hr => ?_, h.logged⟩
  · rcases hran with hnil | ⟨r, hr, -⟩
    · simp [hnil]
    · simp [hr]
  · rcases hran with hnil | ⟨r', hr', hproper, -⟩
    · rw [hnil] at hr
      cases hr
    · rw [hr', List.mem_singleton] at hr
      exact hr ▸ hproper
  · rcases hran with hnil | ⟨r', hr', -, hanswer⟩
    · rw [hnil] at hr
      cases hr
    · rw [hr', List.mem_singleton] at hr
      exact hr ▸ hanswer result hd

end Invariant

/-! ## Runs -/

section Runs

variable {context : HandlerContext} {st st' : State} {l : Label}

theorem logOf_append (st : State) (log : List (Nat × ToolCallRecord)) (t u : Nat)
    (sent : Option ToolCallRecord) :
    State.logOf ⟨st.registry, st.tasks, log ++ (sent.map fun record => (t, record)).toList⟩ u =
      State.logOf ⟨st.registry, st.tasks, log⟩ u ++ if u = t then sent.toList else [] := by
  unfold State.logOf
  rw [List.filter_append, List.map_append]
  refine congrArg _ ?_
  cases sent with
  | none => simp
  | some record =>
    by_cases h : u = t
    · simp [h]
    · simp [h, Ne.symm h]

theorem inv_step (h : ∀ t, Inv context (st.tasks t) (st.logOf t))
    (hs : step context st l = some st') : ∀ t, Inv context (st'.tasks t) (st'.logOf t) := by
  cases l with
  | addTool name handler =>
    cases hs
    exact h
  | removeTool name =>
    cases hs
    exact h
  | call t call =>
    simp only [step] at hs
    split at hs
    · next hpc =>
      cases hs
      have hlog : st.logOf t = [] := (h t).unlogged (by rw [hpc]; rfl)
      intro u
      by_cases hut : u = t
      · subst hut
        show Inv context (Function.update st.tasks u _ u) (st.logOf u)
        rw [Function.update_self, hlog]
        exact Inv.start rfl rfl rfl (Or.inr rfl)
      · show Inv context (Function.update st.tasks t _ u) (st.logOf u)
        rw [Function.update_of_ne hut]
        exact h u
    · cases hs
  | run t answers =>
    simp only [step, Option.map_eq_some_iff] at hs
    obtain ⟨⟨task', sent⟩, hrun, rfl⟩ := hs
    intro u
    have hlog := logOf_append st st.log t u sent
    by_cases hut : u = t
    · subst hut
      show Inv context (Function.update st.tasks u task' u) _
      rw [Function.update_self]
      show Inv context task' (State.logOf ⟨st.registry, st.tasks, _⟩ u)
      rw [hlog, if_pos rfl]
      exact (h u).runSection hrun
    · show Inv context (Function.update st.tasks t task' u) _
      rw [Function.update_of_ne hut]
      show Inv context (st.tasks u) (State.logOf ⟨st.registry, st.tasks, _⟩ u)
      rw [hlog, if_neg hut, List.append_nil]
      exact h u

/-- **Every call is accounted for** in every run, however the registry changes and
whatever the token store, the validator and the tools answer. -/
theorem every_call_accounted (context : HandlerContext) {st : State}
    (hr : (system context).Reach (fun _ _ => True) init st) (t : Nat) :
    Accounted context (st.tasks t) (st.logOf t) := by
  have hinit : ∀ t, Inv context (init.tasks t) (init.logOf t) :=
    fun _ => Inv.start rfl rfl rfl (Or.inl rfl)
  have hinv : ∀ t, Inv context (st.tasks t) (st.logOf t) :=
    hr.invariant hinit fun _ _ _ h _ hs => inv_step h hs
  exact (hinv t).accounted

/-- What a step is answered where everything goes well. -/
def obliging : Answers :=
  { storedToken := some ⟨"token", none, none⟩, decision := .allow
    registryResult := .ok ⟨[.text "done"], none⟩, innerResult := .ok .inputRequired }

/-- A tool is removed between the check that it is there and the call. -/
def removedMeanwhile : List Label :=
  [.addTool "x" 0, .call 0 ⟨⟨"x", none⟩, none⟩, .run 0 obliging, .run 0 obliging,
    .run 0 obliging, .run 0 obliging, .removeTool "x", .run 0 obliging, .run 0 obliging,
    .run 0 obliging]

theorem removed_meanwhile_accounted :
    ∃ st : State, (st.log.map fun e => decide (e.2.source = .inner)) = [true] ∧
      (st.tasks 0).ran.length = 1 ∧ Accounted ⟨true, true⟩ (st.tasks 0) (st.logOf 0) := by
  obtain ⟨st, hr, hp⟩ := System.exists_reach_of_run (S := system ⟨true, true⟩)
    (G := fun _ _ => True) (s := init) (w := removedMeanwhile)
    (p := fun st => decide ((st.log.map fun e => decide (e.2.source = .inner)) = [true] ∧
      (st.tasks 0).ran.length = 1)) (by decide +kernel)
  obtain ⟨hlog, hran⟩ := of_decide_eq_true hp
  exact ⟨st, hlog, hran, every_call_accounted ⟨true, true⟩ hr 0⟩

end Runs

end McpFramework.CallProtocol

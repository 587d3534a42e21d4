import McpFramework.Auth.OpaqueProtocol
import McpFramework.Auth.TokenSessions

/-!
# Auth — StoreProtocol

The token store with its opaque tokens (`auth/store.rs`), and the two handlers of
`auth/proxy.rs` that join them, on any number of instances over one backend.

An operation on tokens runs in the token half and one on opaque tokens in the
other; the halves share the mutation lock of each instance and the clock. What
concerns both is here: `remove_token`, `purge_expired`, `load_persisted`, the login
that stores a token and then mints opaque ones, and the refresh grant that
resolves an opaque token, gets the token of its session and mints new ones.

Keys are listed, and maps iterated over, in any order, so the label brings it.
-/

namespace McpFramework

/-- A record that is not expired, or can be refreshed. -/
def PersistedToken.live (clock : Clock) (p : PersistedToken) : Bool :=
  !TokenStore.purgeable clock.now (p.intoStored clock)

namespace StoreProtocol

open Lib
open TokenProtocol (Answer)

/-! ## Data -/

inductive Op where
  | getToken (sessionId : String)
  | peekToken (sessionId : String)
  | storeToken (sessionId : String) (token : StoredToken)
  | removeToken (sessionId : String)
  | purgeExpired
  | loadPersisted
  | storeMapping (sessionId : String) (accessTtl : Nat)
  | removeMapping (sessionId : String)
  | resolve (kind : OpaqueKind) (token : String)
  | login (sessionId : String) (token : StoredToken) (expiresIn : Option Nat)
  | refreshGrant (refreshToken : String)

/-- The second half of a boot: the mappings still to be read, the sessions that
have a token in memory, and the mappings to index. -/
structure Boot where
  keys : List String
  validSessions : List String
  entries : List (String × PersistedOpaqueMapping)
deriving DecidableEq

/-- A mapping the boot drops, because its session has no token in memory
(`orphan`) or because it has expired. -/
structure Dropped where
  sessionId : String
  mapping : PersistedOpaqueMapping
  orphan : Bool
deriving DecidableEq

/-- In some phases a task runs an operation of one half, and goes on when that is
done. A refresh grant names the opaque token it presents. -/
inductive Pc where
  | idle
  | token
  | loginToken (sessionId : String) (expiresIn : Option Nat)
  | grantResolve (refreshToken : String)
  | grantToken (refreshToken sessionId : String)
  | mint (sessionId : String) (accessTtl : Nat) (grant : Option String)
  | storeMapping (grant : Option String)
  | removeMapping
  | resolve (kind : OpaqueKind) (token : String)
  | removeToken (sessionId : String)
  | removeTokenMapping
  | removeTokenRecord
  | purgeLock
  | purgeScan
  | purgeMemory (expiredKeys : List String)
  | purgeIndex (expiredKeys : List String)
  | purgeToken (expiredKeys : List String) (drops : List (OpaqueKind × String))
  | purgeMapping (key : String) (expiredKeys : List String) (drops : List (OpaqueKind × String))
  | purgeInverse (drops : List (OpaqueKind × String))
  | loadLock
  | loadKeys
  | loadTokens (keys : List String) (entries : List (String × StoredToken))
  | loadDropToken (key : String) (keys : List String) (entries : List (String × StoredToken))
  | loadMappingKeys
  | loadSnapshot (keys : List String)
  | loadMappings (boot : Boot)
  | loadDropMapping (dropped : Dropped) (boot : Boot)
  | loadDropInverse (kind : OpaqueKind) (mapping : PersistedOpaqueMapping) (boot : Boot)
  | granted (refreshToken : String)
  | done
deriving DecidableEq

/-- The half whose operation a phase runs. A `remove_token` whose mapping is being
removed is in the middle of an operation of both. -/
inductive Half where
  | neither
  | tokens
  | opaques
  | both
deriving DecidableEq

def Pc.half : Pc → Half
  | .token => .tokens
  | .loginToken _ _ => .tokens
  | .grantToken _ _ => .tokens
  | .removeToken _ => .tokens
  | .removeTokenRecord => .tokens
  | .grantResolve _ => .opaques
  | .storeMapping _ => .opaques
  | .removeMapping => .opaques
  | .resolve _ _ => .opaques
  | .removeTokenMapping => .both
  | _ => .neither

structure Task where
  inst : Nat
  pc : Pc

/-- Ghost: what a resolve answered. -/
structure Resolved where
  kind : OpaqueKind
  token : String
  sessionId : Option String
deriving DecidableEq

/-- Ghost: a refresh grant that has found its opaque token on an instance. -/
structure Holder where
  task : Nat
  inst : Nat
  refreshToken : String
deriving DecidableEq

/-- `sessionIds` are the sessions there may be entries of. The rest is ghost: the
tasks called, the opaque tokens made up, the session each of them was put into an
index for, the answers of the resolves, the refresh grants that have found their
token and have not updated the index (`holders`) and those that have (`spent`),
whether a purge has deleted the record or the mapping of a session with a live
record, and whether a boot has dropped such a mapping as an orphan. -/
structure State where
  tokens : TokenSessions.State
  opaques : OpaqueProtocol.State
  tasks : Nat → Task
  sessionIds : List String
  called : List Nat
  generated : List String
  minted : OpaqueKind → String → Option String
  answers : List Resolved
  holders : List Holder
  spent : List Holder
  purgedLive : Bool
  orphanedLive : Bool

inductive Label where
  /-- `d` passes, after which the system clocks read `unix`. -/
  | tick (d unix : Nat)
  | call (t inst : Nat) (op : Op)
  /-- Task `t` runs its next section. -/
  | run (t : Nat) (answer : Answer)
  /-- The token endpoint answers task `t`. -/
  | reply (t : Nat) (response : Option TokenResponse)
  /-- Task `t` gets the keys it lists or iterates over. -/
  | list (t : Nat) (keys : List String)
  /-- Task `t` makes up opaque tokens. -/
  | mint (t : Nat) (opaqueAccess opaqueRefresh : String)
  | lapse (sessionId : String)
  | lapseMapping (sessionId : String)
  | lapseInverse (kind : OpaqueKind) (token : String)

/-- An empty backend, and instances with nothing in memory. -/
def init (clock : Clock) (refreshConfig : Bool) : State :=
  { tokens := TokenSessions.init clock refreshConfig fun _ => none
    opaques := OpaqueProtocol.init clock
    tasks := fun _ => { inst := 0, pc := .idle }
    sessionIds := []
    called := []
    generated := []
    minted := fun _ _ => none
    answers := [], holders := [], spent := [], purgedLive := false, orphanedLive := false }

namespace State

def goto (st : State) (t : Nat) (pc : Pc) : State :=
  { st with tasks := Function.update st.tasks t { st.tasks t with pc := pc } }

/-- The instance a task runs on, by its number. -/
def on (st : State) (t : Nat) : Nat := (st.tasks t).inst

def clock (st : State) : Clock := st.tokens.clock

/-! ### The halves -/

/-- The tokens in the memory of a task's instance. -/
def memory (st : State) (t : Nat) : HashMap String StoredToken :=
  (st.tokens.instances (st.on t)).tokens

def index (st : State) (t : Nat) : OpaqueIndex := (st.opaques.instances (st.on t)).index

/-- The persisted token record of a session. -/
def record (st : State) (sessionId : String) : Option PersistedToken :=
  (st.tokens.sessions sessionId).record

/-- The persisted opaque mapping of a session. -/
def mapping (st : State) (sessionId : String) : Option PersistedOpaqueMapping :=
  st.opaques.forward sessionId

/-- The mutation lock of a task's instance. Both halves have it. -/
def mutationLock (st : State) (t : Nat) : Option Nat :=
  (st.tokens.instances (st.on t)).mutationLock

def lockTokens (st : State) (t : Nat) (lock : Option Nat) : State :=
  { st with
    tokens := { st.tokens with
      instances := Function.update st.tokens.instances (st.on t)
        { st.tokens.instances (st.on t) with mutationLock := lock } } }

def lockOpaques (st : State) (t : Nat) (lock : Option Nat) : State :=
  { st with
    opaques := { st.opaques with
      instances := Function.update st.opaques.instances (st.on t)
        { st.opaques.instances (st.on t) with mutationLock := lock } } }

def setMutation (st : State) (t : Nat) (lock : Option Nat) : State :=
  (st.lockTokens t lock).lockOpaques t lock

/-- Task `t` has run a section of the token half. -/
def putTokens (st : State) (t : Nat) (tokens : TokenSessions.State) : State :=
  { st with tokens := tokens }.lockOpaques t (tokens.instances (st.on t)).mutationLock

/-- Task `t` has run a section of the opaque half. -/
def putOpaques (st : State) (t : Nat) (opaques : OpaqueProtocol.State) : State :=
  { st with opaques := opaques }.lockTokens t (opaques.instances (st.on t)).mutationLock

def named (st : State) (sessionId : String) : State :=
  { st with sessionIds := st.sessionIds.insert sessionId }

/-- Task `t` starts an operation of the token half. -/
def startTokens (st : State) (t : Nat) (sessionId : String) (op : TokenProtocol.Op) : State :=
  { st with
    tokens := st.tokens.setTask t { inst := st.on t, pc := .on sessionId op.start } }.named
    sessionId

/-- Task `t` starts an operation of the opaque half at `pc`, which ends `prior`. -/
def startAt (st : State) (t : Nat) (pc : OpaqueProtocol.Pc) (prior : List OpaqueProtocol.Issue) :
    State :=
  { st with
    opaques := st.opaques.setTask t { inst := st.on t, pc := pc, prior := prior, barred := [] } }

def startOpaques (st : State) (t : Nat) (op : OpaqueProtocol.Op) : State :=
  st.startAt t op.start (op.prior st.opaques)

/-- The result of the operation of the token half, when it is done. -/
def tokenResult (st : State) (t : Nat) : Option (Option StoredToken) :=
  match (st.tokens.tasks t).pc with
  | .on _ (.done result) => some result
  | _ => none

/-- The result of the operation of the opaque half, when it is done. -/
def opaqueResult (st : State) (t : Nat) : Option (Option String) :=
  match (st.opaques.tasks t).pc with
  | .done result => some result
  | _ => none

def setMemory (st : State) (t : Nat) (tokens : HashMap String StoredToken)
    (refreshLocks : HashMap String Nat) : State :=
  { st with
    tokens := { st.tokens with
      instances := Function.update st.tokens.instances (st.on t)
        { st.tokens.instances (st.on t) with tokens := tokens, refreshLocks := refreshLocks } } }

def setIndex (st : State) (t : Nat) (index : OpaqueIndex) : State :=
  { st with
    opaques := { st.opaques with
      instances := Function.update st.opaques.instances (st.on t)
        { st.opaques.instances (st.on t) with index := index } } }

/-- The backend deletes what it is asked to, if it answers. -/
def deleteRecord (st : State) (answer : Answer) (sessionId : String) : State :=
  if answer = .ok then { st with tokens := st.tokens.deleteRecord sessionId } else st

def deleteMapping (st : State) (answer : Answer) (sessionId : String) : State :=
  if answer = .ok then { st with opaques := st.opaques.setForward sessionId none } else st

def deleteInverse (st : State) (answer : Answer) (kind : OpaqueKind) (token : String) : State :=
  if answer = .ok then { st with opaques := st.opaques.setInverse kind token none } else st

def live (st : State) (sessionId : String) : Bool :=
  (st.record sessionId).any (PersistedToken.live st.clock)

def tokenKeys (st : State) : List String :=
  st.sessionIds.filter fun sessionId => (st.record sessionId).isSome

def mappingKeys (st : State) : List String :=
  st.sessionIds.filter fun sessionId => (st.mapping sessionId).isSome

end State

/-! ## The sections -/

section Sections

/-- The opaque half has an answer type of its own. -/
def toOpaque : Answer → OpaqueProtocol.Answer
  | .ok => .ok
  | .err => .err

def runTokens (st : State) (t : Nat) (answer : Answer) : Option State :=
  (TokenSessions.runSection st.tokens t answer).map (st.putTokens t)

/-- What tokens are minted for, with a pair for a session more. -/
def mintedWith (minted : OpaqueKind → String → Option String)
    (sessionId opaqueAccess opaqueRefresh : String) : OpaqueKind → String → Option String
  | .access, token => if token = opaqueAccess then some sessionId else minted .access token
  | .refresh, token => if token = opaqueRefresh then some sessionId else minted .refresh token

/-- A rotation puts its tokens into the index. -/
def publish (minted : OpaqueKind → String → Option String) :
    OpaqueProtocol.Pc → OpaqueKind → String → Option String
  | .storeIndex sessionId mapping =>
    mintedWith minted sessionId mapping.opaqueAccess mapping.opaqueRefresh
  | _ => minted

def runOpaques (st : State) (t : Nat) (answer : Answer) : Option State :=
  let st' := { st with minted := publish st.minted (st.opaques.tasks t).pc }
  (OpaqueProtocol.runSection st.opaques t (toOpaque answer)).map (st'.putOpaques t)

/-- The end of `purge_expired` and `load_persisted`. -/
def finish (st : State) (t : Nat) : State := (st.setMutation t none).goto t .done

/-- The lifetime of an opaque access token, from the `expires_in` of the upstream
one. -/
def opaqueAccessTtl (expiresIn : Option Nat) : Nat :=
  match expiresIn with
  | some secs => min (Duration.fromSecs secs) OPAQUE_ACCESS_TTL
  | none => OPAQUE_ACCESS_TTL

/-- The seconds a token has left. -/
def expiresIn (clock : Clock) (token : StoredToken) : Option Nat :=
  token.expiresAt.map fun expiresAt => (expiresAt - clock.now) / Duration.fromSecs 1

/-- A resolve has answered. -/
def answered (st : State) (kind : OpaqueKind) (token : String) (sessionId : Option String) :
    State :=
  { st with answers := ⟨kind, token, sessionId⟩ :: st.answers }

def release (st : State) (t : Nat) : State :=
  { st with holders := st.holders.filter fun h => decide (h.task ≠ t) }

/-- A section of a refresh grant that looks for its opaque token. -/
def grantSection (st : State) (t : Nat) (refreshToken : String) (answer : Answer) :
    Option State :=
  match st.opaqueResult t with
  | some none => some ((answered st .refresh refreshToken none).goto t .done)
  | some (some sessionId) =>
    some (((answered st .refresh refreshToken (some sessionId)).startTokens t sessionId .get).goto t
      (.grantToken refreshToken sessionId))
  | none =>
    (runOpaques st t answer).map fun st' =>
      match st'.opaqueResult t with
      | some (some _) => { st' with holders := ⟨t, st.on t, refreshToken⟩ :: st'.holders }
      | _ => st'

/-- A section of a rotation; the one that updates the index ends what a refresh
grant holds. -/
def storeSection (st : State) (t : Nat) (grant : Option String) (answer : Answer) :
    Option State :=
  match st.opaqueResult t with
  | some _ =>
    some (st.goto t
      (match grant with
        | some refreshToken => .granted refreshToken
        | none => .done))
  | none =>
    (runOpaques st t answer).map fun st' =>
      match (st.opaques.tasks t).pc, grant with
      | .storeIndex _ _, some refreshToken =>
        { release st' t with spent := ⟨t, st.on t, refreshToken⟩ :: st'.spent }
      | _, _ => st'

/-- The index without some sessions, and the inverse entries of their mappings. -/
def removeSessions (index : OpaqueIndex) (sessionIds : List String) :
    OpaqueIndex × List (OpaqueKind × String) :=
  sessionIds.foldl (fun (index, drops) sessionId =>
    match index.removeSession sessionId with
    | (index, some mapping) =>
      (index, drops ++ [(.access, mapping.opaqueAccess), (.refresh, mapping.opaqueRefresh)])
    | (index, none) => (index, drops)) (index, [])

/-- The sections of `purge_expired` after the scan. -/
def purgeSection (st : State) (t : Nat) (answer : Answer) : Option State :=
  match (st.tasks t).pc with
  | .purgeMemory expiredKeys =>
    let inst := st.tokens.instances (st.on t)
    some ((st.setMemory t (inst.tokens.removeAll expiredKeys)
      (inst.refreshLocks.removeAll expiredKeys)).goto t (.purgeIndex expiredKeys))
  | .purgeIndex expiredKeys =>
    let r := removeSessions (st.index t) expiredKeys
    some ((st.setIndex t r.1).goto t (.purgeToken expiredKeys r.2))
  | .purgeToken [] drops => some (st.goto t (.purgeInverse drops))
  | .purgeToken (key :: expiredKeys) drops =>
    some { (st.deleteRecord answer key).goto t (.purgeMapping key expiredKeys drops) with
      purgedLive := st.purgedLive || decide (answer = .ok) && st.live key }
  | .purgeMapping key expiredKeys drops =>
    some { (st.deleteMapping answer key).goto t (.purgeToken expiredKeys drops) with
      purgedLive := st.purgedLive ||
        decide (answer = .ok) && (st.mapping key).isSome && st.live key }
  | .purgeInverse [] => some (finish st t)
  | .purgeInverse ((kind, token) :: drops) =>
    some ((st.deleteInverse answer kind token).goto t (.purgeInverse drops))
  | _ => none

/-- The sections of `load_persisted` that read and drop tokens. -/
def loadTokenSection (st : State) (t : Nat) (answer : Answer) : Option State :=
  match (st.tasks t).pc with
  | .loadTokens [] entries =>
    let inst := st.tokens.instances (st.on t)
    let tokens := entries.foldl (fun tokens e => tokens.insert e.1 e.2) inst.tokens
    some ((st.setMemory t tokens inst.refreshLocks).goto t .loadMappingKeys)
  | .loadTokens (key :: keys) entries =>
    match answer, st.record key with
    | .err, _ => some (finish st t)
    | .ok, none => some (st.goto t (.loadTokens keys entries))
    | .ok, some p =>
      let token := p.intoStored st.clock
      if TokenStore.purgeable st.clock.now token then
        some (st.goto t (.loadDropToken key keys entries))
      else some (st.goto t (.loadTokens keys (entries ++ [(key, token)])))
  | .loadDropToken key keys entries =>
    some ((st.deleteRecord answer key).goto t (.loadTokens keys entries))
  | _ => none

/-- The sections of `load_persisted` that read and drop opaque mappings. -/
def loadMappingSection (st : State) (t : Nat) (answer : Answer) : Option State :=
  match (st.tasks t).pc with
  | .loadSnapshot keys => some (st.goto t (.loadMappings ⟨keys, (st.memory t).keys, []⟩))
  | .loadMappings ⟨[], _, entries⟩ =>
    let index := entries.foldl (fun index e => index.insert st.clock e.1 e.2) (st.index t)
    some (finish (st.setIndex t index) t)
  | .loadMappings ⟨sessionId :: keys, validSessions, entries⟩ =>
    let boot : Boot := ⟨keys, validSessions, entries⟩
    match answer, st.mapping sessionId with
    | .err, _ => some (finish st t)
    | .ok, none => some (st.goto t (.loadMappings boot))
    | .ok, some mapping =>
      if sessionId ∉ validSessions then
        -- Orphaned mapping: drop it and its inverse entries so they don't leak.
        some (st.goto t (.loadDropMapping ⟨sessionId, mapping, true⟩ boot))
      else if remainingUntilUnixMillis st.clock mapping.refreshExpiresAtUnixMs = 0 then
        some (st.goto t (.loadDropMapping ⟨sessionId, mapping, false⟩ boot))
      else
        some (st.goto t (.loadMappings { boot with entries := entries ++ [(sessionId, mapping)] }))
  | .loadDropMapping dropped boot =>
    some
      { (st.deleteMapping answer dropped.sessionId).goto t
          (.loadDropInverse .access dropped.mapping boot) with
        orphanedLive := st.orphanedLive ||
          decide (answer = .ok) && dropped.orphan && (st.mapping dropped.sessionId).isSome &&
            st.live dropped.sessionId }
  | .loadDropInverse kind mapping boot =>
    some ((st.deleteInverse answer kind (mapping.token kind)).goto t
      (match kind with
        | .access => .loadDropInverse .refresh mapping boot
        | .refresh => .loadMappings boot))
  | _ => none

/-- A task waits for the mutation lock. -/
def lockSection (st : State) (t : Nat) (pc : Pc) : Option State :=
  match st.mutationLock t with
  | none => some ((st.setMutation t (some t)).goto t pc)
  | some _ => none

def runSection (st : State) (t : Nat) (answer : Answer) : Option State :=
  match (st.tasks t).pc with
  | .token => runTokens st t answer
  | .loginToken sessionId expiresIn =>
    match st.tokenResult t with
    | some _ => some (st.goto t (.mint sessionId (opaqueAccessTtl expiresIn) none))
    | none => runTokens st t answer
  | .grantResolve refreshToken => grantSection st t refreshToken answer
  | .grantToken refreshToken sessionId =>
    match st.tokenResult t with
    | some (some token) =>
      let accessTtl := opaqueAccessTtl (expiresIn st.clock token)
      some (st.goto t (.mint sessionId accessTtl (some refreshToken)))
    | some none => some (((release st t).startOpaques t (.remove sessionId)).goto t .removeMapping)
    | none => runTokens st t answer
  | .storeMapping grant => storeSection st t grant answer
  | .removeMapping => runOpaques st t answer
  | .resolve kind token =>
    match st.opaqueResult t with
    | some result => some ((answered st kind token result).goto t .done)
    | none => runOpaques st t answer
  | .removeToken sessionId =>
    if (st.tokens.tasks t).pc = .on sessionId .removeBackend then
      some ((st.startAt t (.removeIndex sessionId) (st.opaques.prior sessionId)).goto t
        .removeTokenMapping)
    else runTokens st t answer
  | .removeTokenMapping =>
    (runOpaques st t answer).map fun st' =>
      match st'.opaqueResult t with
      | some _ => (st'.setMutation t (some t)).goto t .removeTokenRecord
      | none => st'
  | .removeTokenRecord => runTokens st t answer
  | .purgeLock => lockSection st t .purgeScan
  | .loadLock => lockSection st t .loadKeys
  -- Listing fails.
  | .loadKeys => if answer = .err then some (finish st t) else none
  | .loadMappingKeys => if answer = .err then some (finish st t) else none
  | .purgeMemory _ => purgeSection st t answer
  | .purgeIndex _ => purgeSection st t answer
  | .purgeToken _ _ => purgeSection st t answer
  | .purgeMapping _ _ _ => purgeSection st t answer
  | .purgeInverse _ => purgeSection st t answer
  | .loadTokens _ _ => loadTokenSection st t answer
  | .loadDropToken _ _ _ => loadTokenSection st t answer
  | .loadSnapshot _ => loadMappingSection st t answer
  | .loadMappings _ => loadMappingSection st t answer
  | .loadDropMapping _ _ => loadMappingSection st t answer
  | .loadDropInverse _ _ _ => loadMappingSection st t answer
  | .idle => none
  | .mint _ _ _ => none
  | .purgeScan => none
  | .granted _ => none
  | .done => none

/-- The keys of a listing or of an iteration, in the order they come in. -/
def listSection (st : State) (t : Nat) (keys : List String) : Option State :=
  match (st.tasks t).pc with
  | .purgeScan =>
    if keys.Perm (TokenStore.expiredKeys (st.memory t) st.clock.now) then
      if keys.isEmpty then some (finish st t) else some (st.goto t (.purgeMemory keys))
    else none
  | .loadKeys => if keys.Perm st.tokenKeys then some (st.goto t (.loadTokens keys [])) else none
  | .loadMappingKeys =>
    if keys.Perm st.mappingKeys then some (st.goto t (.loadSnapshot keys)) else none
  | _ => none

/-- Opaque tokens are fresh. -/
def mintSection (st : State) (t : Nat) (opaqueAccess opaqueRefresh : String) : Option State :=
  match (st.tasks t).pc with
  | .mint sessionId accessTtl grant =>
    if opaqueAccess ≠ opaqueRefresh ∧ opaqueAccess ∉ st.generated ∧
        opaqueRefresh ∉ st.generated then
      let st' := { st with generated := opaqueAccess :: opaqueRefresh :: st.generated }
      some (((st'.named sessionId).startOpaques t
        (.store sessionId opaqueAccess opaqueRefresh accessTtl)).goto t (.storeMapping grant))
    else none
  | _ => none

/-- A call, on its task's instance. -/
def Op.begin (st : State) (t : Nat) : Op → State
  | .getToken sessionId => (st.startTokens t sessionId .get).goto t .token
  | .peekToken sessionId => (st.startTokens t sessionId .peek).goto t .token
  | .storeToken sessionId token => (st.startTokens t sessionId (.store token)).goto t .token
  | .removeToken sessionId =>
    (st.startTokens t sessionId .remove).goto t (.removeToken sessionId)
  | .purgeExpired => st.goto t .purgeLock
  | .loadPersisted => st.goto t .loadLock
  | .storeMapping sessionId accessTtl => st.goto t (.mint sessionId accessTtl none)
  | .removeMapping sessionId => (st.startOpaques t (.remove sessionId)).goto t .removeMapping
  | .resolve kind token => (st.startOpaques t (.resolve kind token)).goto t (.resolve kind token)
  | .login sessionId token expiresIn =>
    (st.startTokens t sessionId (.store token)).goto t (.loginToken sessionId expiresIn)
  | .refreshGrant refreshToken =>
    (st.startOpaques t (.resolve .refresh refreshToken)).goto t (.grantResolve refreshToken)

def step (st : State) : Label → Option State
  | .tick d unix =>
    let clock : Clock := ⟨st.clock.now + d, unix⟩
    some { st with tokens := { st.tokens with clock := clock }
                   opaques := { st.opaques with clock := clock } }
  | .call t inst op =>
    match (st.tasks t).pc with
    | .idle => some (op.begin
        { st with tasks := Function.update st.tasks t { inst := inst, pc := .idle }
                  called := t :: st.called } t)
    | _ => none
  | .run t answer => runSection st t answer
  | .reply t response =>
    if (st.tasks t).pc.half = .tokens then
      (TokenSessions.replySection st.tokens t response).map (st.putTokens t)
    else none
  | .list t keys => listSection st t keys
  | .mint t opaqueAccess opaqueRefresh => mintSection st t opaqueAccess opaqueRefresh
  | .lapse sessionId =>
    match st.record sessionId with
    | some p =>
      if p.refreshToken.isNone then some { st with tokens := st.tokens.deleteRecord sessionId }
      else none
    | none => none
  | .lapseMapping sessionId => some { st with opaques := st.opaques.setForward sessionId none }
  | .lapseInverse kind token =>
    some { st with opaques := st.opaques.setInverse kind token none }

def system : System State Label := ⟨step⟩

/-- Every run. -/
def anyStep : State → Label → Prop := fun _ _ => True

instance (st : State) (l : Label) : Decidable (anyStep st l) := inferInstanceAs (Decidable True)

/-- Sections of one task that all go well. -/
def runs (t sections : Nat) : List Label := List.replicate sections (.run t .ok)

/-- A `store_token` from its call to its return. -/
def wholeStore (t inst : Nat) (sessionId : String) (token : StoredToken) : List Label :=
  .call t inst (.storeToken sessionId token) :: runs t 3

/-- A login from its call to its return. -/
def wholeLogin (t inst : Nat) (sessionId : String) (token : StoredToken)
    (opaqueAccess opaqueRefresh : String) : List Label :=
  .call t inst (.login sessionId token none) :: runs t 4 ++
    .mint t opaqueAccess opaqueRefresh :: runs t 6

end Sections

theorem tokenResult_eq_some {st : State} {t : Nat} {result : Option StoredToken}
    (h : st.tokenResult t = some result) :
    ∃ sessionId, (st.tokens.tasks t).pc = .on sessionId (.done result) := by
  unfold State.tokenResult at h
  split at h
  · rename_i s r hpc
    exact ⟨s, by rw [hpc, Option.some.inj h]⟩
  · cases h

theorem opaqueResult_eq_some {st : State} {t : Nat} {result : Option String}
    (h : st.opaqueResult t = some result) : (st.opaques.tasks t).pc = .done result := by
  unfold State.opaqueResult at h
  split at h
  · rename_i r hpc
    rw [hpc, Option.some.inj h]
  · cases h

end StoreProtocol
end McpFramework

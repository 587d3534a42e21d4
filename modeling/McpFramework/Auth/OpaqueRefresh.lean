import McpFramework.Auth.OpaqueIsolation
import McpFramework.Auth.StoreMutex

/-!
# Auth — OpaqueRefresh

An opaque refresh token is good for one refresh grant: the grant ends with a
rotation, which takes the token out of the index. The grant has looked the token
up long before, though, and holds no lock in between. So two grants can both find
it; and a mapping that was read from the backend before the rotation brings it
back.
-/

namespace McpFramework.StoreProtocol

open Lib
open OpaqueProtocol (Minted)
open TokenProtocol (Answer)

/-! ## The condition -/

section Condition

/-- The token a refresh grant finds in its next section, in the index or in the
mapping it has read. -/
def State.finding (st : State) (t : Nat) : Option String :=
  match (st.tasks t).pc, (st.opaques.tasks t).pc with
  | .grantResolve refreshToken, .lookup kind token =>
    if ((st.index t).toSession kind token).any fun b => decide (b.expiresAt > st.opaques.clock.now)
    then some refreshToken
    else none
  | .grantResolve refreshToken, .hydrate _ _ => some refreshToken
  | _, _ => none

/-- The refresh tokens of the mappings that the next section takes over from the
backend. -/
def State.rereading (st : State) (t : Nat) : List String :=
  match (st.tasks t).pc with
  | .loadMappings ⟨[], _, entries⟩ => entries.map fun e => e.2.opaqueRefresh
  | _ =>
    match (st.opaques.tasks t).pc with
    | .hydrate _ mapping => [mapping.opaqueRefresh]
    | _ => []

/-- Refresh grants of one token on one instance. -/
def among (grants : List Holder) (inst : Nat) (refreshToken : String) : Bool :=
  grants.any fun h => decide (h.inst = inst ∧ h.refreshToken = refreshToken)

/-- No refresh grant finds a token that another one of its instance has found and
not rotated, and no token that was rotated gets back into the index. -/
def uncontended (st : State) : Label → Bool
  | .run t _ =>
    (st.finding t).all (fun refreshToken => !among st.holders (st.on t) refreshToken) &&
      (st.rereading t).all fun refreshToken => !among st.spent (st.on t) refreshToken
  | _ => true

end Condition

/-! ## The grants -/

section Ledger

variable {minted minted' : Minted} {holders holders' spent spent' : List Holder}

/-- Of the grants of a token on an instance one at most is under way, and then none
is through; or one at most is through. -/
structure Ledger (minted : Minted) (holders spent : List Holder) : Prop where
  known : ∀ g, g ∈ holders ∨ g ∈ spent → ∃ s, minted .refresh g.refreshToken = some s
  held : ∀ g ∈ holders, ∀ g' ∈ holders, g.inst = g'.inst → g.refreshToken = g'.refreshToken →
    g.task = g'.task
  apart : ∀ g ∈ holders, ∀ g' ∈ spent, g.inst = g'.inst → g.refreshToken ≠ g'.refreshToken
  once : ∀ g ∈ spent, ∀ g' ∈ spent, g.inst = g'.inst → g.refreshToken = g'.refreshToken →
    g.task = g'.task

theorem Ledger.mono (h : Ledger minted holders spent)
    (hm : ∀ kind token s, minted kind token = some s → minted' kind token = some s) :
    Ledger minted' holders spent :=
  ⟨fun g hg => (h.known g hg).imp fun s hs => hm _ _ s hs, h.held, h.apart, h.once⟩

theorem ne_of_among {grants : List Holder} {inst : Nat} {r : String}
    (h : among grants inst r = false) {g : Holder} (hg : g ∈ grants) (hinst : g.inst = inst) :
    g.refreshToken ≠ r := fun htoken => by
  have hnone := List.any_eq_false.mp h g hg
  exact hnone (decide_eq_true ⟨hinst, htoken⟩)

/-- A grant finds its token. -/
theorem Ledger.find (h : Ledger minted holders spent) {g : Holder} {s : String}
    (hknown : minted .refresh g.refreshToken = some s)
    (hfree : among holders g.inst g.refreshToken = false)
    (hunspent : ∀ g' ∈ spent, g'.inst = g.inst → g'.refreshToken ≠ g.refreshToken) :
    Ledger minted (g :: holders) spent where
  known := fun g' hg' => by
    rcases hg' with hg' | hg'
    · rcases List.mem_cons.mp hg' with rfl | hg'
      · exact ⟨s, hknown⟩
      · exact h.known g' (.inl hg')
    · exact h.known g' (.inr hg')
  held := fun g₁ hg₁ g₂ hg₂ hinst htoken => by
    rcases List.mem_cons.mp hg₁ with rfl | hold₁ <;> rcases List.mem_cons.mp hg₂ with rfl | hold₂
    · rfl
    · exact absurd htoken.symm (ne_of_among hfree hold₂ hinst.symm)
    · exact absurd htoken (ne_of_among hfree hold₁ hinst)
    · exact h.held g₁ hold₁ g₂ hold₂ hinst htoken
  apart := fun g₁ hg₁ g₂ hg₂ hinst => by
    rcases List.mem_cons.mp hg₁ with rfl | hg₁
    · exact (hunspent g₂ hg₂ hinst.symm).symm
    · exact h.apart g₁ hg₁ g₂ hg₂ hinst
  once := h.once

/-- The grants of a task end. -/
theorem Ledger.release (h : Ledger minted holders spent) (t : Nat) :
    Ledger minted (holders.filter fun g => decide (g.task ≠ t)) spent where
  known := fun g hg => h.known g (hg.imp_left fun hg => (List.mem_filter.mp hg).1)
  held := fun g hg g' hg' => h.held g (List.mem_filter.mp hg).1 g' (List.mem_filter.mp hg').1
  apart := fun g hg => h.apart g (List.mem_filter.mp hg).1
  once := h.once

/-- A grant rotates its token away. -/
theorem Ledger.rotate (h : Ledger minted holders spent) {g : Holder} (hg : g ∈ holders) :
    Ledger minted (holders.filter fun g' => decide (g'.task ≠ g.task)) (g :: spent) where
  known := fun g' hg' => by
    rcases hg' with hg' | hg'
    · exact h.known g' (.inl (List.mem_filter.mp hg').1)
    · rcases List.mem_cons.mp hg' with rfl | hg'
      · exact h.known g' (.inl hg)
      · exact h.known g' (.inr hg')
  held := (h.release g.task).held
  apart := fun g₁ hg₁ g₂ hg₂ hinst htoken => by
    obtain ⟨hold₁, hother⟩ := List.mem_filter.mp hg₁
    rcases List.mem_cons.mp hg₂ with rfl | hold₂
    · exact of_decide_eq_true hother (h.held g₁ hold₁ g₂ hg hinst htoken)
    · exact h.apart g₁ hold₁ g₂ hold₂ hinst htoken
  once := fun g₁ hg₁ g₂ hg₂ hinst htoken => by
    rcases List.mem_cons.mp hg₁ with rfl | hold₁ <;> rcases List.mem_cons.mp hg₂ with rfl | hold₂
    · rfl
    · exact absurd htoken (h.apart g₁ hg g₂ hold₂ hinst)
    · exact absurd htoken.symm (h.apart g₂ hg g₁ hold₁ hinst.symm)
    · exact h.once g₁ hold₁ g₂ hold₂ hinst htoken

end Ledger

/-! ## The invariant -/

/-- A rotation that has not updated the index is one of the session. -/
def Rotates (sessionId : String) : OpaqueProtocol.Pc → Prop
  | .storeLock s _ _ _ => s = sessionId
  | .storeIndex s _ => s = sessionId
  | _ => False

theorem rotates_cases {s : String} {pc : OpaqueProtocol.Pc} (h : Rotates s pc) :
    (∃ a r ttl, pc = .storeLock s a r ttl) ∨ ∃ m, pc = .storeIndex s m := by
  cases pc with
  | storeLock s' a r ttl =>
    cases h
    exact .inl ⟨a, r, ttl, rfl⟩
  | storeIndex s' m =>
    cases h
    exact .inr ⟨m, rfl⟩
  | _ => cases h

/-- What a task in a phase has of its refresh grant, `grant` being the grant of a
token. -/
def Claims (minted : Minted) (holders spent : List Holder) (grant : String → Holder)
    (pc : OpaqueProtocol.Pc) : Pc → Prop
  | .grantResolve r => ∀ s, pc = .done (some s) → grant r ∈ holders
  | .grantToken r _ => grant r ∈ holders
  | .mint _ _ (some r) => grant r ∈ holders
  | .storeMapping (some r) =>
    pc.carried = [] ∧ grant r ∈ spent ∨
      ∃ s, Rotates s pc ∧ minted .refresh r = some s ∧ grant r ∈ holders
  | .granted r => grant r ∈ spent
  | _ => True

/-- The refresh grants of a task. -/
def State.grant (st : State) (t : Nat) (refreshToken : String) : Holder :=
  ⟨t, st.on t, refreshToken⟩

/-- Tokens that were rotated are in the index no more. -/
def Gone (spent : List Holder) (opaques : OpaqueProtocol.State) : Prop :=
  ∀ g ∈ spent, (opaques.instances g.inst).index.toSession .refresh g.refreshToken = none

structure SingleUse (st : State) : Prop where
  consistent : ∀ i, (st.opaques.instances i).index.Consistent
  gone : Gone st.spent st.opaques
  ledger : Ledger st.minted st.holders st.spent
  claims : ∀ t, Claims st.minted st.holders st.spent (st.grant t) (st.opaques.tasks t).pc
    (st.tasks t).pc

section SingleUse

variable {minted minted' : Minted} {st mid st' : State} {t : Nat} {pc : Pc} {answer : Answer}
  {l : Label}

theorem singleUse_init (clock : Clock) (refreshConfig : Bool) :
    SingleUse (init clock refreshConfig) where
  consistent := fun _ => OpaqueIndex.consistent_empty
  gone := fun _ h => by cases h
  ledger := ⟨fun _ h => (by rcases h with h | h <;> cases h), fun _ h => (by cases h),
    fun _ h => (by cases h), fun _ h => (by cases h)⟩
  claims := fun _ => trivial

theorem Claims.mono {holders holders' spent spent' : List Holder} {grant : String → Holder}
    {pc' : OpaqueProtocol.Pc}
    (hm : ∀ kind token s, minted kind token = some s → minted' kind token = some s)
    (hholders : ∀ r, grant r ∈ holders → grant r ∈ holders')
    (hspent : ∀ r, grant r ∈ spent → grant r ∈ spent')
    (h : Claims minted holders spent grant pc' pc) :
    Claims minted' holders' spent' grant pc' pc := by
  cases pc with
  | grantResolve r => exact fun s hs => hholders r (h s hs)
  | grantToken r s => exact hholders r h
  | mint s ttl grant =>
    cases grant with
    | none => trivial
    | some r => exact hholders r h
  | storeMapping grant =>
    cases grant with
    | none => trivial
    | some r =>
      rcases h with ⟨hcarried, hg⟩ | ⟨s, hs, hr, hg⟩
      · exact .inl ⟨hcarried, hspent r hg⟩
      · exact .inr ⟨s, hs, hm _ _ s hr, hholders r hg⟩
  | granted r => exact hspent r h
  | _ => trivial

/-- A step of one task, which leaves the grants of the others as they are. -/
theorem SingleUse.turn (h : SingleUse st)
    (hconsistent : ∀ i, (st'.opaques.instances i).index.Consistent)
    (hgone : Gone st'.spent st'.opaques) (hledger : Ledger st'.minted st'.holders st'.spent)
    (hm : ∀ kind token s, st.minted kind token = some s → st'.minted kind token = some s)
    (hholders : ∀ g ∈ st.holders, g.task ≠ t → g ∈ st'.holders)
    (hspent : ∀ g ∈ st.spent, g ∈ st'.spent) (htasks : ∀ u, u ≠ t → st'.tasks u = st.tasks u)
    (hopaques : ∀ u, u ≠ t → st'.opaques.tasks u = st.opaques.tasks u)
    (hself : Claims st'.minted st'.holders st'.spent (st'.grant t) (st'.opaques.tasks t).pc
      (st'.tasks t).pc) : SingleUse st' := by
  refine ⟨hconsistent, hgone, hledger, fun u => ?_⟩
  by_cases hu : u = t
  · rw [hu]
    exact hself
  · have hgrant : st'.grant u = st.grant u := by
      funext r
      rw [State.grant, State.on, htasks u hu]
      rfl
    rw [hgrant, htasks u hu, hopaques u hu]
    exact (h.claims u).mono hm (fun r hg => hholders _ hg hu) fun r hg => hspent _ hg

/-! ### Sections that do not touch the index -/

/-- Neither the indexes nor the refresh grants change, nor do the other tasks. -/
structure Untouched (st st' : State) (t : Nat) : Prop where
  index : ∀ i, (st'.opaques.instances i).index = (st.opaques.instances i).index
  opaques : st'.opaques.tasks = st.opaques.tasks
  minted : st'.minted = st.minted
  holders : st'.holders = st.holders
  spent : st'.spent = st.spent
  tasks : ∀ u, u ≠ t → st'.tasks u = st.tasks u
  on : st'.on t = st.on t

theorem Untouched.refl (st : State) (t : Nat) : Untouched st st t :=
  ⟨fun _ => rfl, rfl, rfl, rfl, rfl, fun _ _ => rfl, rfl⟩

theorem Untouched.congr (h : Untouched st mid t) (hopaques : st'.opaques = mid.opaques)
    (hminted : st'.minted = mid.minted) (hholders : st'.holders = mid.holders)
    (hspent : st'.spent = mid.spent) (htasks : st'.tasks = mid.tasks) : Untouched st st' t := by
  refine ⟨?_, ?_, hminted.trans h.minted, hholders.trans h.holders, hspent.trans h.spent, ?_, ?_⟩
  · rw [hopaques]
    exact h.index
  · rw [hopaques]
    exact h.opaques
  · rw [htasks]
    exact h.tasks
  · rw [State.on, htasks]
    exact h.on

theorem Untouched.goto (h : Untouched st mid t) (pc : Pc) : Untouched st (mid.goto t pc) t := by
  refine ⟨h.index, h.opaques, h.minted, h.holders, h.spent, fun u hu => ?_, ?_⟩
  · exact (Function.update_of_ne hu ..).trans (h.tasks u hu)
  · rw [← h.on]
    simp [State.on, State.goto]

theorem Untouched.lockOpaques (h : Untouched st mid t) (lock : Option Nat) :
    Untouched st (mid.lockOpaques t lock) t := by
  refine ⟨fun i => ?_, h.opaques, h.minted, h.holders, h.spent, h.tasks, h.on⟩
  rw [← h.index i]
  by_cases hi : i = mid.on t
  · subst hi
    simp [State.lockOpaques]
  · simp [State.lockOpaques, hi]

theorem Untouched.setMutation (h : Untouched st mid t) (lock : Option Nat) :
    Untouched st (mid.setMutation t lock) t := by
  have hlocked : Untouched st (mid.lockTokens t lock) t := h.congr rfl rfl rfl rfl rfl
  exact hlocked.lockOpaques lock

theorem Untouched.putTokens (h : Untouched st mid t) (tokens : TokenSessions.State) :
    Untouched st (mid.putTokens t tokens) t := by
  have htokens : Untouched st { mid with tokens := tokens } t := h.congr rfl rfl rfl rfl rfl
  exact htokens.lockOpaques _

theorem runTokens_untouched (hs : runTokens st t answer = some st') : Untouched st st' t := by
  obtain ⟨tokens, -, rfl⟩ := Option.map_eq_some_iff.mp hs
  exact (Untouched.refl st t).putTokens tokens

theorem Untouched.startTokens (h : Untouched st mid t) (s : String) (op : TokenProtocol.Op) :
    Untouched st (mid.startTokens t s op) t := h.congr rfl rfl rfl rfl rfl

theorem Untouched.deleteRecord (h : Untouched st mid t) (answer : Answer) (s : String) :
    Untouched st (mid.deleteRecord answer s) t := by
  unfold State.deleteRecord
  split
  · exact h.congr rfl rfl rfl rfl rfl
  · exact h

theorem Untouched.deleteMapping (h : Untouched st mid t) (answer : Answer) (s : String) :
    Untouched st (mid.deleteMapping answer s) t := by
  unfold State.deleteMapping
  split
  · exact ⟨h.index, h.opaques, h.minted, h.holders, h.spent, h.tasks, h.on⟩
  · exact h

theorem Untouched.deleteInverse (h : Untouched st mid t) (answer : Answer) (kind : OpaqueKind)
    (token : String) : Untouched st (mid.deleteInverse answer kind token) t := by
  unfold State.deleteInverse
  split
  · exact ⟨h.index, h.opaques, h.minted, h.holders, h.spent, h.tasks, h.on⟩
  · exact h

theorem SingleUse.untouched (h : SingleUse st) (hun : Untouched st st' t)
    (hclaims : Claims st.minted st.holders st.spent (st.grant t) (st.opaques.tasks t).pc
      (st'.tasks t).pc) : SingleUse st' := by
  refine h.turn (t := t) (fun i => ?_) (fun g hg => ?_) ?_ (fun kind token s hs => ?_)
    (fun g hg _ => ?_) (fun g hg => ?_) hun.tasks (fun u _ => by rw [hun.opaques]) ?_
  · rw [hun.index i]
    exact h.consistent i
  · rw [hun.spent] at hg
    rw [hun.index]
    exact h.gone g hg
  · rw [hun.minted, hun.holders, hun.spent]
    exact h.ledger
  · rwa [hun.minted]
  · rwa [hun.holders]
  · rwa [hun.spent]
  · have hgrant : st'.grant t = st.grant t := by
      funext r
      rw [State.grant, hun.on]
      rfl
    rw [hun.minted, hun.holders, hun.spent, hgrant, hun.opaques]
    exact hclaims

/-- The task stays in its phase. -/
theorem SingleUse.stay (h : SingleUse st) (hun : Untouched st st' t)
    (hpc : (st'.tasks t).pc = (st.tasks t).pc) : SingleUse st' := by
  refine h.untouched hun ?_
  rw [hpc]
  exact h.claims t

theorem SingleUse.goto (h : SingleUse st) (hun : Untouched st mid t)
    (hclaims : Claims st.minted st.holders st.spent (st.grant t) (st.opaques.tasks t).pc pc) :
    SingleUse (mid.goto t pc) := by
  refine h.untouched (hun.goto pc) ?_
  simpa [State.goto] using hclaims

theorem SingleUse.finish (h : SingleUse st) (t : Nat) : SingleUse (finish st t) :=
  h.goto ((Untouched.refl st t).setMutation none) trivial

/-! ### Sections that do -/

theorem SingleUse.setIndex (h : SingleUse st) {index : OpaqueIndex} (hcons : index.Consistent)
    (hgone : ∀ g ∈ st.spent, g.inst = st.on t →
      index.toSession .refresh g.refreshToken = none) : SingleUse (st.setIndex t index) := by
  refine h.turn (t := t) (fun i => ?_) (fun g hg => ?_) h.ledger (fun _ _ _ hs => hs)
    (fun _ hg _ => hg) (fun _ hg => hg) (fun _ _ => rfl) (fun _ _ => rfl) (h.claims t)
  · by_cases hi : i = st.on t
    · subst hi
      simpa [State.setIndex] using hcons
    · simpa [State.setIndex, hi] using h.consistent i
  · by_cases hi : g.inst = st.on t
    · simpa [State.setIndex, hi] using hgone g hg hi
    · simpa [State.setIndex, hi] using h.gone g hg

/-- A task starts an operation of the opaque half. -/
theorem SingleUse.startAt (h : SingleUse st) {pc' : OpaqueProtocol.Pc}
    {prior : List OpaqueProtocol.Issue}
    (hclaims : Claims st.minted st.holders st.spent (st.grant t) pc' pc) :
    SingleUse ((st.startAt t pc' prior).goto t pc) := by
  refine h.turn (t := t) h.consistent h.gone h.ledger (fun _ _ _ hs => hs) (fun _ hg _ => hg)
    (fun _ hg => hg) (fun u hu => Function.update_of_ne hu ..)
    (fun u hu => Function.update_of_ne hu ..) ?_
  have hgrant : ((st.startAt t pc' prior).goto t pc).grant t = st.grant t := by
    funext r
    simp [State.grant, State.on, State.goto, State.startAt]
  rw [hgrant]
  simpa [State.goto, State.startAt, OpaqueProtocol.State.setTask] using hclaims

/-- A rotation takes its session's refresh token out of the index, and puts in one
that nobody has had. -/
theorem SingleUse.rotated_away (h : SingleUse st) (hI : Isolated st) {s r : String}
    {m : PersistedOpaqueMapping} (hpc : (st.opaques.tasks t).pc = .storeIndex s m)
    (hr : st.minted .refresh r = some s) :
    (((st.opaques.inst t).index.removeSession s).1.insert st.opaques.clock s m).toSession
      .refresh r = none := by
  cases hb : (((st.opaques.inst t).index.removeSession s).1.insert st.opaques.clock s
      m).toSession .refresh r with
  | none => rfl
  | some b =>
    rcases OpaqueIndex.toSession_of_insert hb with ⟨-, htoken⟩ | hold
    · have hunminted := hI.pending.unminted t _ (mem_carried_of_storeIndex hpc .refresh) .refresh
      rw [htoken, hr] at hunminted
      cases hunminted
    · obtain ⟨hne, hidx⟩ := OpaqueIndex.of_removeSession (h.consistent _) hold
      have hminted := hI.provenance.index _ .refresh r b hidx
      rw [hr] at hminted
      exact absurd (Option.some.inj hminted).symm hne

/-- A token that is gone stays gone through a section of the opaque half, but for
the mapping of a resolve. -/
theorem SingleUse.gone_next (h : SingleUse st) (hI : Isolated st)
    (hon : (st.opaques.tasks t).inst = st.on t)
    (hreread : ∀ s m, (st.opaques.tasks t).pc = .hydrate s m →
      among st.spent (st.on t) m.opaqueRefresh = false) {pc' : OpaqueProtocol.Pc}
    {index : OpaqueIndex} (hnext : OpaqueProtocol.Next st.opaques t pc' index) :
    index.Consistent ∧
      ∀ g ∈ st.spent, g.inst = st.on t → index.toSession .refresh g.refreshToken = none := by
  have hcons : (st.opaques.inst t).index.Consistent := h.consistent _
  have hgone : ∀ g ∈ st.spent, g.inst = st.on t →
      (st.opaques.inst t).index.toSession .refresh g.refreshToken = none := fun g hg hinst => by
    rw [OpaqueProtocol.State.inst, hon, ← hinst]
    exact h.gone g hg
  have hthins : ∀ {idx : OpaqueIndex}, (st.opaques.inst t).index.Thins idx → idx.Consistent ∧
      ∀ g ∈ st.spent, g.inst = st.on t → idx.toSession .refresh g.refreshToken = none :=
    fun {idx} hthins => ⟨hthins.consistent hcons, fun g hg hinst => by
      cases hb : idx.toSession .refresh g.refreshToken with
      | none => rfl
      | some b =>
        have hold := hthins.toSession _ _ b hb
        rw [hgone g hg hinst] at hold
        cases hold⟩
  have hinsert : ∀ {idx : OpaqueIndex} {s : String} {m : PersistedOpaqueMapping},
      (st.opaques.inst t).index.Thins idx →
      (∀ g ∈ st.spent, g.inst = st.on t → g.refreshToken ≠ m.opaqueRefresh) →
      (idx.insert st.opaques.clock s m).Consistent ∧ ∀ g ∈ st.spent, g.inst = st.on t →
        (idx.insert st.opaques.clock s m).toSession .refresh g.refreshToken = none :=
    fun {idx s m} hold hnew => ⟨(hthins hold).1.insert _ s m, fun g hg hinst => by
      cases hb : (idx.insert st.opaques.clock s m).toSession .refresh g.refreshToken with
      | none => rfl
      | some b =>
        rcases OpaqueIndex.toSession_of_insert hb with ⟨-, htoken⟩ | hidx
        · exact absurd htoken.symm (hnew g hg hinst)
        · rw [(hthins hold).2 g hg hinst] at hidx
          cases hidx⟩
  cases hnext with
  | on _ _ hindex => exact hthins hindex
  | lock => exact hthins (.refl _)
  | seek => exact hthins (.refl _)
  | find => exact hthins (.refl _)
  | read => exact hthins (.refl _)
  | @rotate s m _ hpc =>
    -- A rotation's tokens are not minted yet, and one that is gone has been.
    refine hinsert (OpaqueIndex.thins_removeSession _ s) fun g hg _ htoken => ?_
    obtain ⟨s', hs'⟩ := h.ledger.known g (.inr hg)
    have hunminted := hI.pending.unminted t _ (mem_carried_of_storeIndex hpc .refresh) .refresh
    rw [show m.token .refresh = g.refreshToken from htoken.symm, hs'] at hunminted
    cases hunminted
  | @hydrate s m hpc =>
    exact hinsert (.refl _) fun g hg hinst => ne_of_among (hreread s m hpc) hg hinst

/-- What a section of the opaque half does to the rest. -/
structure Ran (st mid : State) (t : Nat) (answer : Answer) : Prop where
  section_eq : OpaqueProtocol.runSection st.opaques t (toOpaque answer) = some mid.opaques
  minted : mid.minted = publish st.minted (st.opaques.tasks t).pc
  tasks : mid.tasks = st.tasks
  holders : mid.holders = st.holders
  spent : mid.spent = st.spent

theorem ran_of_runOpaques (hs : runOpaques st t answer = some mid) : Ran st mid t answer := by
  obtain ⟨opaques, hr, rfl⟩ := Option.map_eq_some_iff.mp hs
  exact ⟨hr, rfl, rfl, rfl, rfl⟩

theorem Ran.grant_eq (h : Ran st mid t answer) : mid.grant t = st.grant t := by
  funext r
  rw [State.grant, State.on, h.tasks]
  rfl

/-- A task runs a section of the opaque half; the grants that are through with it are
those of tokens that are gone. -/
theorem SingleUse.opaqueSection (h : SingleUse st) (hI : Isolated st)
    (hon : (st.opaques.tasks t).inst = st.on t)
    (hreread : ∀ s m, (st.opaques.tasks t).pc = .hydrate s m →
      among st.spent (st.on t) m.opaqueRefresh = false) (hran : Ran st mid t answer)
    {holders spent : List Holder} (hledger : Ledger mid.minted holders spent)
    (hholders : ∀ g ∈ st.holders, g.task ≠ t → g ∈ holders) (hspent : ∀ g ∈ st.spent, g ∈ spent)
    (hnew : ∀ g ∈ spent, g ∈ st.spent ∨
      (mid.opaques.instances g.inst).index.toSession .refresh g.refreshToken = none)
    (hself : Claims mid.minted holders spent (st.grant t) (mid.opaques.tasks t).pc
      (st.tasks t).pc) : SingleUse { mid with holders := holders, spent := spent } := by
  have hlocal := OpaqueProtocol.runSection_local hran.section_eq
  have hnext := OpaqueProtocol.runSection_next hran.section_eq
  rw [hon] at hnext
  obtain ⟨hcons, hgone⟩ := h.gone_next hI hon hreread hnext
  refine h.turn (fun i => ?_) (fun g hg => ?_) hledger (fun kind token s hs => ?_) hholders hspent
    (fun u _ => congrFun hran.tasks u) hlocal.tasks ?_
  · by_cases hi : i = st.on t
    · rw [hi]
      exact hcons
    · rw [hlocal.instances i (by rwa [hon])]
      exact h.consistent i
  · rcases hnew g hg with hold | hnone
    · by_cases hi : g.inst = st.on t
      · rw [hi]
        exact hgone g hold hi
      · rw [hlocal.instances g.inst (by rwa [hon])]
        exact h.gone g hold
    · exact hnone
  · rw [hran.minted]
    exact hI.publish_mono t kind token s hs
  · have hgrant : State.grant { mid with holders := holders, spent := spent } t = st.grant t :=
      hran.grant_eq
    rw [hgrant]
    simpa only [hran.tasks] using hself

/-- A section that leaves the refresh grants as they are. -/
theorem SingleUse.runOpaques (h : SingleUse st) (hI : Isolated st)
    (hon : (st.opaques.tasks t).inst = st.on t)
    (hreread : ∀ s m, (st.opaques.tasks t).pc = .hydrate s m →
      among st.spent (st.on t) m.opaqueRefresh = false) (hran : Ran st mid t answer)
    (hself : Claims mid.minted st.holders st.spent (st.grant t) (mid.opaques.tasks t).pc
      (st.tasks t).pc) : SingleUse mid := by
  have hledger : Ledger mid.minted mid.holders mid.spent := by
    rw [hran.minted, hran.holders, hran.spent]
    exact h.ledger.mono (hI.publish_mono t)
  refine h.opaqueSection hI hon hreread hran hledger (fun g hg _ => ?_) (fun g hg => ?_)
    (fun g hg => ?_) ?_
  · rwa [hran.holders]
  · rwa [hran.spent]
  · rw [← hran.spent]
    exact .inl hg
  · rw [hran.holders, hran.spent]
    exact hself

/-! ### The steps -/

/-- What the condition says of a mapping that a resolve has read. -/
theorem reread_of_uncontended (hhalf : (st.tasks t).pc.half ≠ .neither)
    (hg : uncontended st (.run t answer) = true) (s : String) (m : PersistedOpaqueMapping)
    (hpc : (st.opaques.tasks t).pc = .hydrate s m) :
    among st.spent (st.on t) m.opaqueRefresh = false := by
  have hmem : m.opaqueRefresh ∈ st.rereading t := by
    unfold State.rereading
    split
    · rename_i hphase
      rw [hphase] at hhalf
      exact absurd rfl hhalf
    · rw [hpc]
      exact List.mem_singleton_self _
  simp only [uncontended, Bool.and_eq_true, List.all_eq_true, Bool.not_eq_true'] at hg
  exact hg.2 _ hmem

/-- What the condition says of a token that a refresh grant finds. -/
theorem free_of_uncontended {r : String} (hfind : st.finding t = some r)
    (hg : uncontended st (.run t answer) = true) : among st.holders (st.on t) r = false := by
  simp only [uncontended, Bool.and_eq_true, hfind, Option.all_some, Bool.not_eq_true'] at hg
  exact hg.1

/-- A refresh grant that has an answer has found its token, and nobody else has. -/
theorem SingleUse.found (h : SingleUse st) (hI : Isolated st)
    (hon : (st.opaques.tasks t).inst = st.on t) {r s : String}
    (hpc : (st.tasks t).pc = .grantResolve r) (hg : uncontended st (.run t answer) = true)
    {index : OpaqueIndex} (hnext : OpaqueProtocol.Next st.opaques t (.done (some s)) index) :
    among st.holders (st.on t) r = false ∧
      ∀ g ∈ st.spent, g.inst = st.on t → g.refreshToken ≠ r := by
  have hphase := hI.phase t
  rw [hpc] at hphase
  cases hnext with
  | on _ hplain => cases hplain
  | seek _ hsought => cases hsought
  | @find kind token b hnested hb hlive =>
    rw [hnested] at hphase
    obtain ⟨rfl, rfl⟩ := hphase
    rw [OpaqueProtocol.State.inst, hon] at hb
    have hfind : st.finding t = some token := by
      have hindex : (st.index t).toSession .refresh token = some b := hb
      simp [State.finding, hpc, hnested, hindex, hlive]
    refine ⟨free_of_uncontended hfind hg, fun g hg' hinst htoken => ?_⟩
    have hnone := h.gone g hg'
    rw [hinst, htoken, hb] at hnone
    cases hnone
  | @hydrate _ m hnested =>
    rw [hnested] at hphase
    have hfind : st.finding t = some r := by simp [State.finding, hpc, hnested]
    have hreread := reread_of_uncontended (by rw [hpc]; exact Half.noConfusion) hg s m hnested
    rw [show m.opaqueRefresh = r from hphase.2] at hreread
    exact ⟨free_of_uncontended hfind hg, fun g hg' hinst => ne_of_among hreread hg' hinst⟩

theorem SingleUse.grantSection (h : SingleUse st) (hI : Isolated st) (hI' : Isolated st')
    (hon : (st.opaques.tasks t).inst = st.on t) {r : String}
    (hpc : (st.tasks t).pc = .grantResolve r) (hg : uncontended st (.run t answer) = true)
    (hs : grantSection st t r answer = some st') : SingleUse st' := by
  have hclaims := h.claims t
  rw [hpc] at hclaims
  have hreread := reread_of_uncontended (by rw [hpc]; exact Half.noConfusion) hg
  unfold StoreProtocol.grantSection at hs
  split at hs
  · cases hs
    have hanswered : Untouched st (answered st .refresh r none) t :=
      (Untouched.refl st t).congr rfl rfl rfl rfl rfl
    exact h.goto hanswered trivial
  · rename_i s hresult
    cases hs
    have hanswered : Untouched st (answered st .refresh r (some s)) t :=
      (Untouched.refl st t).congr rfl rfl rfl rfl rfl
    exact h.goto (hanswered.startTokens s .get) (hclaims s (opaqueResult_eq_some hresult))
  · obtain ⟨mid, hmid, rfl⟩ := Option.map_eq_some_iff.mp hs
    have hran := ran_of_runOpaques hmid
    have hmidpc : (mid.tasks t).pc = .grantResolve r := by rw [hran.tasks, hpc]
    split at hI'
    · -- The grant has found its token.
      rename_i s hresult
      have hdone := opaqueResult_eq_some hresult
      have hnext := OpaqueProtocol.runSection_next hran.section_eq
      rw [hdone] at hnext
      obtain ⟨hfree, hunspent⟩ := h.found hI hon hpc hg hnext
      have hminted := hI'.phase t
      simp only [hmidpc, hdone] at hminted
      have hledger : Ledger mid.minted (st.grant t r :: mid.holders) mid.spent := by
        rw [hran.holders, hran.spent]
        refine Ledger.find (h.ledger.mono fun kind token s hs => ?_) hminted hfree hunspent
        rw [hran.minted]
        exact hI.publish_mono t kind token s hs
      refine h.opaqueSection hI hon hreread hran hledger (fun g hg _ => ?_) (fun g hg => ?_)
        (fun g hg => ?_) ?_
      · rw [hran.holders]
        exact List.mem_cons_of_mem _ hg
      · rwa [hran.spent]
      · rw [← hran.spent]
        exact .inl hg
      · rw [hpc]
        exact fun _ _ => List.mem_cons_self ..
    · rename_i hresult
      refine h.runOpaques hI hon hreread hran ?_
      rw [hpc]
      intro s hdone
      exact absurd (by unfold State.opaqueResult; rw [hdone]) (hresult s)

/-- A rotation that does not update the index goes on, one way or the other. -/
theorem Claims.section {holders spent : List Holder} {grant : String → Holder} {r : String}
    {pc' : OpaqueProtocol.Pc} {index : OpaqueIndex}
    (h : Claims minted holders spent grant (st.opaques.tasks t).pc (.storeMapping (some r)))
    (hindex : ∀ s m, (st.opaques.tasks t).pc ≠ .storeIndex s m)
    (hnext : OpaqueProtocol.Next st.opaques t pc' index) :
    Claims minted holders spent grant pc' (.storeMapping (some r)) := by
  rcases h with ⟨hcarried, hg⟩ | ⟨s, hs, hr, hg⟩
  · rcases hnext.carried with hnil | ⟨s, a, r', ttl, hpc, -⟩
    · exact .inl ⟨hnil, hg⟩
    · rw [hpc] at hcarried
      cases hcarried
  · right
    rcases rotates_cases hs with ⟨a, r', ttl, hpc⟩ | ⟨m, hpc⟩
    · obtain ⟨m, rfl⟩ := hnext.locked hpc
      exact ⟨s, rfl, hr, hg⟩
    · exact absurd hpc (hindex s m)

theorem SingleUse.storeSection (h : SingleUse st) (hI : Isolated st)
    (hon : (st.opaques.tasks t).inst = st.on t) {grant : Option String}
    (hpc : (st.tasks t).pc = .storeMapping grant) (hg : uncontended st (.run t answer) = true)
    (hs : storeSection st t grant answer = some st') : SingleUse st' := by
  have hclaims := h.claims t
  rw [hpc] at hclaims
  have hreread := reread_of_uncontended (by rw [hpc]; exact Half.noConfusion) hg
  unfold StoreProtocol.storeSection at hs
  split at hs
  · rename_i result hresult
    cases hs
    refine h.goto (.refl st t) ?_
    cases grant with
    | none => trivial
    | some r =>
      rw [opaqueResult_eq_some hresult] at hclaims
      rcases hclaims with ⟨-, hgranted⟩ | ⟨s, hs, -⟩
      · exact hgranted
      · cases hs
  · obtain ⟨mid, hmid, hst'⟩ := Option.map_eq_some_iff.mp hs
    have hran := ran_of_runOpaques hmid
    have hnext := OpaqueProtocol.runSection_next hran.section_eq
    by_cases hrotates : ∃ s m r, (st.opaques.tasks t).pc = .storeIndex s m ∧ grant = some r
    · -- The rotation of a refresh grant spends the token as it updates the index.
      obtain ⟨s, m, r, hindex, rfl⟩ := hrotates
      rw [hindex] at hclaims
      rcases hclaims with ⟨hcarried, -⟩ | ⟨s', rfl, hr, hheld⟩
      · cases hcarried
      have hledger : Ledger mid.minted (mid.holders.filter fun g => decide (g.task ≠ t))
          (st.grant t r :: mid.spent) := by
        rw [hran.holders, hran.spent]
        refine Ledger.mono (h.ledger.rotate hheld) fun kind token s hs => ?_
        rw [hran.minted]
        exact hI.publish_mono t kind token s hs
      obtain ⟨hcarried, hidx⟩ := hnext.rotated hindex
      have hrotated : SingleUse { mid with
          holders := mid.holders.filter fun g => decide (g.task ≠ t)
          spent := st.grant t r :: mid.spent } := by
        refine h.opaqueSection hI hon hreread hran hledger (fun g hg hother => ?_)
          (fun g hg => ?_) (fun g hg => ?_) ?_
        · rw [hran.holders]
          exact List.mem_filter.mpr ⟨hg, decide_eq_true hother⟩
        · rw [hran.spent]
          exact List.mem_cons_of_mem _ hg
        · rcases List.mem_cons.mp hg with rfl | hg
          · right
            have hgone := h.rotated_away hI hindex hr
            rw [← hidx, hon] at hgone
            exact hgone
          · rw [← hran.spent]
            exact .inl hg
        · rw [hpc]
          exact .inl ⟨hcarried, List.mem_cons_self ..⟩
      simp only [hindex] at hst'
      rw [← hst']
      exact hrotated
    · have hmid' : mid = st' := by
        rw [← hst']
        split
        · exact absurd ⟨_, _, _, ‹_›, rfl⟩ hrotates
        · rfl
      rw [← hmid']
      refine h.runOpaques hI hon hreread hran ?_
      rw [hpc]
      cases grant with
      | none => trivial
      | some r =>
        refine Claims.section (hclaims.mono ?_ (fun _ hr => hr) fun _ hr => hr)
          (fun s m hindex => hrotates ⟨s, m, r, hindex, rfl⟩) hnext
        rw [hran.minted]
        exact hI.publish_mono t

theorem SingleUse.purgeSection (h : SingleUse st) (hs : purgeSection st t answer = some st') :
    SingleUse st' := by
  have hrefl := Untouched.refl st t
  unfold StoreProtocol.purgeSection at hs
  split at hs <;> cases hs
  · have hmemory : ∀ tokens locks, Untouched st (st.setMemory t tokens locks) t :=
      fun _ _ => hrefl.congr rfl rfl rfl rfl rfl
    exact h.goto (hmemory _ _) trivial
  · rename_i expiredKeys hpc
    have hthins := thins_removeSessions (st.index t) expiredKeys
    have hindex : SingleUse (st.setIndex t (removeSessions (st.index t) expiredKeys).1) := by
      refine h.setIndex (hthins.consistent (h.consistent _)) fun g hg hinst => ?_
      cases hb : (removeSessions (st.index t) expiredKeys).1.toSession .refresh g.refreshToken with
      | none => rfl
      | some b =>
        have hnone := h.gone g hg
        rw [hinst] at hnone
        rw [show (st.opaques.instances (st.on t)).index = st.index t from rfl,
          hthins.toSession _ _ b hb] at hnone
        cases hnone
    exact hindex.goto (.refl _ t) trivial
  · exact h.goto hrefl trivial
  · rename_i key expiredKeys drops hpc
    have hgoto := (hrefl.deleteRecord answer key).goto (.purgeMapping key expiredKeys drops)
    exact h.untouched (hgoto.congr rfl rfl rfl rfl rfl) (by simp [State.goto, Claims])
  · rename_i key expiredKeys drops hpc
    have hgoto := (hrefl.deleteMapping answer key).goto (.purgeToken expiredKeys drops)
    exact h.untouched (hgoto.congr rfl rfl rfl rfl rfl) (by simp [State.goto, Claims])
  · exact h.finish t
  · exact h.goto (hrefl.deleteInverse answer _ _) trivial

theorem SingleUse.loadTokenSection (h : SingleUse st)
    (hs : loadTokenSection st t answer = some st') : SingleUse st' := by
  have hrefl := Untouched.refl st t
  unfold StoreProtocol.loadTokenSection at hs
  split at hs
  · cases hs
    have hmemory : ∀ tokens locks, Untouched st (st.setMemory t tokens locks) t :=
      fun _ _ => hrefl.congr rfl rfl rfl rfl rfl
    exact h.goto (hmemory _ _) trivial
  · split at hs
    · cases hs
      exact h.finish t
    · cases hs
      exact h.goto hrefl trivial
    · simp only at hs
      split at hs <;> cases hs <;> exact h.goto hrefl trivial
  · cases hs
    exact h.goto (hrefl.deleteRecord answer _) trivial
  · cases hs

theorem SingleUse.loadMappingSection (h : SingleUse st)
    (hg : uncontended st (.run t answer) = true)
    (hs : loadMappingSection st t answer = some st') : SingleUse st' := by
  have hrefl := Untouched.refl st t
  unfold StoreProtocol.loadMappingSection at hs
  split at hs
  · cases hs
    exact h.goto hrefl trivial
  · rename_i valid entries hpc
    cases hs
    -- By the condition a boot has read no mapping with a token that is gone.
    have hfresh : ∀ e ∈ entries, among st.spent (st.on t) e.2.opaqueRefresh = false :=
      fun e he => by
        have hmem : e.2.opaqueRefresh ∈ st.rereading t := by
          simp only [State.rereading, hpc, List.mem_map]
          exact ⟨e, he, rfl⟩
        simp only [uncontended, Bool.and_eq_true, List.all_eq_true, Bool.not_eq_true'] at hg
        exact hg.2 _ hmem
    have hindex : SingleUse (st.setIndex t
        (entries.foldl (fun index e => index.insert st.clock e.1 e.2) (st.index t))) := by
      refine h.setIndex ((h.consistent _).inserted _ entries) fun g hg' hinst => ?_
      cases hb : (entries.foldl (fun index e => index.insert st.clock e.1 e.2)
          (st.index t)).toSession .refresh g.refreshToken with
      | none => rfl
      | some b =>
        rcases OpaqueIndex.toSession_of_inserted hb with ⟨e, he, -, htoken⟩ | hold
        · exact absurd htoken.symm (ne_of_among (hfresh e he) hg' hinst)
        · have hnone := h.gone g hg'
          rw [hinst] at hnone
          exact absurd (hold.symm.trans hnone) (by simp)
    exact hindex.finish t
  · simp only at hs
    split at hs
    · cases hs
      exact h.finish t
    · cases hs
      exact h.goto hrefl trivial
    · split at hs
      · cases hs
        exact h.goto hrefl trivial
      · split at hs <;> cases hs <;> exact h.goto hrefl trivial
  · rename_i dropped boot hpc
    cases hs
    have hgoto := (hrefl.deleteMapping answer dropped.sessionId).goto
      (.loadDropInverse .access dropped.mapping boot)
    exact h.untouched (hgoto.congr rfl rfl rfl rfl rfl) (by simp [State.goto, Claims])
  · rename_i kind m boot hpc
    cases hs
    refine h.goto (hrefl.deleteInverse answer kind (m.token kind)) ?_
    cases kind <;> trivial
  · cases hs

theorem SingleUse.lockSection (h : SingleUse st) (hs : lockSection st t pc = some st')
    (hclaims : Claims st.minted st.holders st.spent (st.grant t) (st.opaques.tasks t).pc pc) :
    SingleUse st' := by
  unfold StoreProtocol.lockSection at hs
  split at hs <;> cases hs
  exact h.goto ((Untouched.refl st t).setMutation (some t)) hclaims

theorem SingleUse.runTokens (h : SingleUse st) (hs : runTokens st t answer = some st') :
    SingleUse st' := by
  refine h.stay (runTokens_untouched hs) ?_
  obtain ⟨tokens, -, rfl⟩ := Option.map_eq_some_iff.mp hs
  rfl

/-- The upstream token is gone, and the grant fails. -/
theorem SingleUse.giveUp (h : SingleUse st) (s : String) :
    SingleUse (((release st t).startOpaques t (.remove s)).goto t .removeMapping) := by
  refine h.turn (t := t) h.consistent h.gone (h.ledger.release t) (fun _ _ _ hs => hs)
    (fun g hg hother => List.mem_filter.mpr ⟨hg, decide_eq_true hother⟩) (fun _ hg => hg)
    (fun u hu => Function.update_of_ne hu ..) (fun u hu => Function.update_of_ne hu ..) ?_
  simp [State.goto, Claims]

theorem SingleUse.run (h : SingleUse st) (hI : Isolated st) (hI' : Isolated st')
    (hex : Exclusive st) (hg : uncontended st (.run t answer) = true)
    (hs : runSection st t answer = some st') : SingleUse st' := by
  have hrefl := Untouched.refl st t
  have hclaims := h.claims t
  have hon : (st.tasks t).pc.half = .opaques → (st.opaques.tasks t).inst = st.on t :=
    fun hhalf => (placed_opaques hhalf).mp (hex.placed t)
  cases hpc : (st.tasks t).pc with
  | idle => simp [runSection, hpc] at hs
  | mint s ttl grant => simp [runSection, hpc] at hs
  | purgeScan => simp [runSection, hpc] at hs
  | granted r => simp [runSection, hpc] at hs
  | done => simp [runSection, hpc] at hs
  | token | removeTokenRecord =>
    simp only [runSection, hpc] at hs
    exact h.runTokens hs
  | loginToken s expires =>
    simp only [runSection, hpc] at hs
    split at hs
    · cases hs
      exact h.goto hrefl trivial
    · exact h.runTokens hs
  | grantResolve r =>
    simp only [runSection, hpc] at hs
    exact h.grantSection hI hI' (hon (by rw [hpc]; rfl)) hpc hg hs
  | grantToken r s =>
    rw [hpc] at hclaims
    simp only [runSection, hpc] at hs
    split at hs
    · cases hs
      exact h.goto hrefl hclaims
    · cases hs
      exact h.giveUp s
    · exact h.runTokens hs
  | storeMapping grant =>
    simp only [runSection, hpc] at hs
    exact h.storeSection hI (hon (by rw [hpc]; rfl)) hpc hg hs
  | removeMapping =>
    simp only [runSection, hpc] at hs
    refine h.runOpaques hI (hon (by rw [hpc]; rfl))
      (reread_of_uncontended (by rw [hpc]; exact Half.noConfusion) hg) (ran_of_runOpaques hs) ?_
    rw [hpc]
    trivial
  | resolve kind token =>
    simp only [runSection, hpc] at hs
    split at hs
    · rename_i result hresult
      cases hs
      have hanswered : Untouched st (answered st kind token result) t :=
        hrefl.congr rfl rfl rfl rfl rfl
      exact h.goto hanswered trivial
    · refine h.runOpaques hI (hon (by rw [hpc]; rfl))
        (reread_of_uncontended (by rw [hpc]; exact Half.noConfusion) hg) (ran_of_runOpaques hs) ?_
      rw [hpc]
      trivial
  | removeToken s =>
    simp only [runSection, hpc] at hs
    split at hs
    · cases hs
      exact h.startAt trivial
    · exact h.runTokens hs
  | removeTokenMapping =>
    simp only [runSection, hpc] at hs
    obtain ⟨mid, hmid, rfl⟩ := Option.map_eq_some_iff.mp hs
    have hboth : (st.tasks t).pc.half = .both := by rw [hpc]; rfl
    have hrun : SingleUse mid := by
      refine h.runOpaques hI ((placed_both hboth).mp (hex.placed t)).2.1
        (reread_of_uncontended (by rw [hpc]; exact Half.noConfusion) hg)
        (ran_of_runOpaques hmid) ?_
      rw [hpc]
      trivial
    split
    · exact hrun.goto ((Untouched.refl mid t).setMutation (some t)) trivial
    · exact hrun
  | purgeLock | loadLock =>
    simp only [runSection, hpc] at hs
    exact h.lockSection hs trivial
  | loadKeys | loadMappingKeys =>
    simp only [runSection, hpc] at hs
    split at hs <;> cases hs
    exact h.finish t
  | purgeMemory keys | purgeIndex keys | purgeToken keys drops | purgeMapping key keys drops
  | purgeInverse drops =>
    simp only [runSection, hpc] at hs
    exact h.purgeSection hs
  | loadTokens keys entries | loadDropToken key keys entries =>
    simp only [runSection, hpc] at hs
    exact h.loadTokenSection hs
  | loadSnapshot keys | loadMappings boot | loadDropMapping dropped boot
  | loadDropInverse kind m boot =>
    simp only [runSection, hpc] at hs
    exact h.loadMappingSection hg hs

theorem SingleUse.listSection (h : SingleUse st) {keys : List String}
    (hs : listSection st t keys = some st') : SingleUse st' := by
  have hrefl := Untouched.refl st t
  unfold StoreProtocol.listSection at hs
  split at hs
  · split at hs
    · split at hs <;> cases hs
      · exact h.finish t
      · exact h.goto hrefl trivial
    · cases hs
  · split at hs <;> cases hs
    exact h.goto hrefl trivial
  · split at hs <;> cases hs
    exact h.goto hrefl trivial
  · cases hs

/-- The rotation of a grant is one of the session its token is of. -/
theorem SingleUse.mintSection (h : SingleUse st) (hI : Isolated st) {a r : String}
    (hs : mintSection st t a r = some st') : SingleUse st' := by
  have hclaims := h.claims t
  have hphase := hI.phase t
  simp only [StoreProtocol.mintSection] at hs
  split at hs
  · rename_i s ttl grant hpc
    rw [hpc] at hclaims hphase
    split at hs <;> cases hs
    have hgenerated : SingleUse
        ({ st with generated := a :: r :: st.generated }.named s) :=
      ⟨h.consistent, h.gone, h.ledger, h.claims⟩
    refine hgenerated.startAt ?_
    cases grant with
    | none => trivial
    | some r' => exact .inr ⟨s, rfl, hphase, hclaims⟩
  · cases hs

theorem SingleUse.begin (h : SingleUse st) (op : Op) : SingleUse (op.begin st t) := by
  have hrefl := Untouched.refl st t
  cases op with
  | getToken s => exact h.goto (hrefl.startTokens s .get) trivial
  | peekToken s => exact h.goto (hrefl.startTokens s .peek) trivial
  | storeToken s token => exact h.goto (hrefl.startTokens s (.store token)) trivial
  | removeToken s => exact h.goto (hrefl.startTokens s .remove) trivial
  | purgeExpired => exact h.goto hrefl trivial
  | loadPersisted => exact h.goto hrefl trivial
  | storeMapping s ttl => exact h.goto hrefl trivial
  | removeMapping s => exact h.startAt trivial
  | resolve kind token => exact h.startAt trivial
  | login s token expires => exact h.goto (hrefl.startTokens s (.store token)) trivial
  | refreshGrant r => exact h.startAt fun _ hdone => by cases hdone

theorem SingleUse.step (h : SingleUse st) (hI : Isolated st) (hex : Exclusive st)
    (hg : uncontended st l = true) (hs : step st l = some st') : SingleUse st' := by
  cases l with
  | tick d unix =>
    cases hs
    exact ⟨h.consistent, h.gone, h.ledger, h.claims⟩
  | call t inst op =>
    simp only [StoreProtocol.step] at hs
    split at hs <;> cases hs
    have hidle : SingleUse
        { st with tasks := Function.update st.tasks t { inst := inst, pc := .idle }
                  called := t :: st.called } := by
      refine h.turn (t := t) h.consistent h.gone h.ledger (fun _ _ _ hs => hs) (fun _ hg _ => hg)
        (fun _ hg => hg) (fun u hu => Function.update_of_ne hu ..) (fun _ _ => rfl) ?_
      simp [Claims]
    exact hidle.begin op
  | run t answer => exact h.run hI (hI.step hs) hex hg hs
  | reply t response =>
    simp only [StoreProtocol.step, Option.ite_none_right_eq_some] at hs
    obtain ⟨tokens, -, rfl⟩ := Option.map_eq_some_iff.mp hs.2
    exact h.stay ((Untouched.refl st t).putTokens tokens) rfl
  | list t keys => exact h.listSection hs
  | mint t a r => exact h.mintSection hI hs
  | lapse s =>
    simp only [StoreProtocol.step] at hs
    split at hs
    · split at hs <;> cases hs
      exact ⟨h.consistent, h.gone, h.ledger, h.claims⟩
    · cases hs
  | lapseMapping s | lapseInverse kind token =>
    cases hs
    exact ⟨h.consistent, h.gone, h.ledger, h.claims⟩

end SingleUse

/-! ## Every run -/

/-- No two refresh grants of a token succeed on an instance. -/
def GrantedOnce (st : State) : Prop :=
  ∀ t u r, (st.tasks t).pc = .granted r → (st.tasks u).pc = .granted r → st.on t = st.on u → t = u

/-- **A refresh token is good for one grant** in every run in which no grant finds a
token that another has found and not rotated, and no rotated token gets back into
the index. -/
theorem refresh_token_single_use (clock : Clock) (refreshConfig : Bool) (st : State)
    (hr : system.Reach (fun st l => uncontended st l = true) (init clock refreshConfig) st) :
    GrantedOnce st := by
  have hinv := hr.invariant (I := fun st => SingleUse st ∧ Isolated st ∧ Exclusive st)
    ⟨singleUse_init clock refreshConfig, isolated_init clock refreshConfig,
      exclusive_init clock refreshConfig⟩
    fun _ _ _ ⟨h, hI, hex⟩ hg hs => ⟨h.step hI hex hg hs, hI.step hs, hex.step hs⟩
  have hgranted : ∀ t r, (st.tasks t).pc = .granted r → st.grant t r ∈ st.spent :=
    fun t r ht => by
      have hclaims := hinv.1.claims t
      rw [ht] at hclaims
      exact hclaims
  intro t u r ht hu hon
  exact hinv.1.ledger.once _ (hgranted t r ht) _ (hgranted u r hu) hon rfl

/-- A refresh grant from its call to its return. -/
def wholeGrant (t inst : Nat) (refreshToken opaqueAccess opaqueRefresh : String) : List Label :=
  .call t inst (.refreshGrant refreshToken) :: runs t 4 ++
    .mint t opaqueAccess opaqueRefresh :: runs t 8

/-- A login and a refresh grant, after which another grant of the token fails. -/
theorem rotated_token_refused :
    ∃ st : State, (st.tasks 1).pc = .granted "r" ∧ (st.tasks 2).pc = .done ∧ GrantedOnce st := by
  obtain ⟨st, hr, hp⟩ := System.exists_reach_of_run (S := system)
    (G := fun st l => uncontended st l = true) (s := init ⟨0, 0⟩ false)
    (w := wholeLogin 0 0 "s" ⟨"t", none, none⟩ "a" "r" ++ wholeGrant 1 0 "r" "a1" "r1" ++
      .call 2 0 (.refreshGrant "r") :: runs 2 3)
    (p := fun st => decide ((st.tasks 1).pc = .granted "r" ∧ (st.tasks 2).pc = .done))
    (by decide +kernel)
  obtain ⟨hgranted, hrefused⟩ := of_decide_eq_true hp
  exact ⟨st, hgranted, hrefused, refresh_token_single_use _ _ st hr⟩

/-- Two grants look the token up before either of them rotates it, and both succeed. -/
theorem refresh_token_granted_twice :
    ¬ ∀ (clock : Clock) (refreshConfig : Bool) (st : State),
      system.Reach anyStep (init clock refreshConfig) st → GrantedOnce st := by
  intro h
  obtain ⟨st, hr, hp⟩ := System.exists_reach_of_run (S := system) (G := anyStep)
    (s := init ⟨0, 0⟩ false)
    (w := wholeLogin 0 0 "s" ⟨"t", none, none⟩ "a" "r" ++
      .call 1 0 (.refreshGrant "r") :: runs 1 1 ++ .call 2 0 (.refreshGrant "r") :: runs 2 1 ++
        runs 1 3 ++ runs 2 3 ++ .mint 1 "a1" "r1" :: .mint 2 "a2" "r2" :: runs 1 8 ++ runs 2 8)
    (p := fun st => decide ((st.tasks 1).pc = .granted "r" ∧ (st.tasks 2).pc = .granted "r" ∧
      st.on 1 = st.on 2))
    (by decide +kernel)
  obtain ⟨h₁, h₂, hon⟩ := of_decide_eq_true hp
  exact absurd (h _ _ st hr 1 2 "r" h₁ h₂ hon) (by decide)

end McpFramework.StoreProtocol

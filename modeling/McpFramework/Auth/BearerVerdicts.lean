import McpFramework.Auth.UnknownBearer
import McpFramework.Lib.History

/-!
# Auth — BearerVerdicts

What the verdicts on unknown bearers rest on. A refused client is no bad token:
the latch closes with the first such answer, and from then on nobody that has not
passed it asks again.
-/

namespace McpFramework.UnknownBearer

open Lib

/-! ## What a result rests on -/

/-- The authorization server tells the client that it may not introspect. -/
def Event.refuses : Event → Bool
  | .answered _ clock answer => decide (introspected clock answer = .notPermitted)
  | _ => false

def refused (events : List Event) : Bool := events.any Event.refuses

def Event.isWarned : Event → Bool
  | .warned => true
  | _ => false

def warnings (events : List Event) : Nat := events.countP Event.isWarned

/-- Whose event it is. -/
def Event.caller? : Event → Option Nat
  | .keysRefused t _ _ => some t
  | .passed t => some t
  | .sent t _ _ => some t
  | .answered t _ _ => some t
  | _ => none

/-- The authorization server was asked about the token, and this is what its answer
comes to. -/
def Asked (events : List Event) (t : Nat) (token : String) (verdict : TokenIntrospection) : Prop :=
  (∃ request, Event.sent t token request ∈ events) ∧
    ∃ clock answer, Event.answered t clock answer ∈ events ∧ introspected clock answer = verdict

/-- A rejection that is about the token, and not about what the keys can tell. -/
def aboutToken : JwksRejection → Bool
  | .notAJwt => false
  | .unavailable _ => false
  | _ => true

/-- A rejection by the keys with which the matter ends. -/
def Final (d : Deployment) (rejection : JwksRejection) : Prop :=
  mayFallBack rejection = false ∨ allowsIntrospection d.validation = false

/-- What an introspection rests on. -/
def Introspected (d : Deployment) (events : List Event) (t : Nat) (token : String) :
    TokenIntrospection → Prop
  | .notPermitted => refused events = true
  | .unavailable why => d.refreshConfig = none ∨ Asked events t token (.unavailable why)
  | verdict => Asked events t token verdict

/-- What a result rests on. -/
def Rests {Key : Type} (d : Deployment) (lib : JwtLibrary Key) (events : List Event) (t : Nat)
    (token : String) : Except BearerRejection ValidatedBearer → Prop
  | .ok bearer =>
    (allowsJwks d.validation = true ∧ ∃ jwt, Vouched d lib events token jwt ∧
      bearer = { expiresAt := jwt.expiresAt, subject := jwt.subject, source := .jwks }) ∨
    (allowsIntrospection d.validation = true ∧ Asked events t token (.active bearer.expiresAt) ∧
      bearer.subject = none ∧ bearer.source = .introspection)
  | .error .policyReject => d.validation = .reject
  | .error (.tokenInvalid why) =>
    (∃ rejection, .keysRefused t token rejection ∈ events ∧ aboutToken rejection = true ∧
      Final d rejection ∧ why = display rejection) ∨
    Asked events t token .inactive
  | .error .opaqueUnverifiable =>
    .keysRefused t token .notAJwt ∈ events ∧
      (allowsIntrospection d.validation = false ∨ refused events = true)
  | .error .introspectionNotPermitted => refused events = true
  | .error (.issuerUnreachable _) =>
    (∃ why, .keysRefused t token (.unavailable why) ∈ events ∧
      allowsIntrospection d.validation = false) ∨
    d.refreshConfig = none ∨ ∃ why, Asked events t token (.unavailable why)

/-- Nothing has come of the call of `t`. -/
structure Unheard (events : List Event) (t : Nat) : Prop where
  refused : ∀ token rejection, .keysRefused t token rejection ∉ events
  sent : ∀ token request, .sent t token request ∉ events

/-- The keys have left the token open, for the reason in `fallback`, or were not
asked. -/
structure LeftOpen (d : Deployment) (events : List Event) (t : Nat) (token : String)
    (fallback : Option JwksRejection) : Prop where
  allowed : allowsIntrospection d.validation = true
  notAsked : fallback = none → allowsJwks d.validation = false
  refused : ∀ rejection, fallback = some rejection → .keysRefused t token rejection ∈ events
  mayFallBack : ∀ token rejection, .keysRefused t token rejection ∈ events →
    UnknownBearer.mayFallBack rejection = true

/-- What a caller rests on, where it is; `task` is its validation at the keys. -/
def CallerSound {Key : Type} (d : Deployment) (lib : JwtLibrary Key) (events : List Event)
    (task : JwksProtocol.Pc Key) (t : Nat) : Pc → Prop
  | .idle => Unheard events t
  | .validating token =>
    Unheard events t ∧ allowsJwks d.validation = true ∧ TaskSound d lib events token task
  | .readLatch token fallback =>
    LeftOpen d events t token fallback ∧ ∀ token request, .sent t token request ∉ events
  | .readConfig token fallback =>
    LeftOpen d events t token fallback ∧ (∀ token request, .sent t token request ∉ events) ∧
      .passed t ∈ events
  | .waiting token fallback =>
    LeftOpen d events t token fallback ∧ ∃ request, .sent t token request ∈ events
  | .done token result => Rests d lib events t token result
  | .dropped => True

/-- What comes before an event. -/
def Grounds (d : Deployment) (earlier : List Event) : Event → Prop
  | .keysRefused t _ _ => Unheard earlier t
  | .passed _ => refused earlier = false
  | .sent t token request =>
    .passed t ∈ earlier ∧ (∀ token request, .sent t token request ∉ earlier) ∧
      (∃ fallback, LeftOpen d earlier t token fallback) ∧
      ∃ config, d.refreshConfig = some config ∧ request = introspectionRequest config token
  | _ => True

section Results

variable {Key : Type} {d : Deployment} {lib : JwtLibrary Key} {events events' : List Event}
  {t : Nat} {token : String} {fallback : Option JwksRejection} {task task' : JwksProtocol.Pc Key}
  {pc : Pc} {e : Event}

theorem refused_mono (hsub : events ⊆ events') (h : refused events = true) :
    refused events' = true := by
  obtain ⟨e, he, hrefuses⟩ := List.any_eq_true.mp h
  exact List.any_eq_true.mpr ⟨e, hsub he, hrefuses⟩

theorem Asked.mono {verdict : TokenIntrospection} (hsub : events ⊆ events')
    (h : Asked events t token verdict) : Asked events' t token verdict := by
  obtain ⟨⟨request, hsent⟩, clock, answer, hanswered, hverdict⟩ := h
  exact ⟨⟨request, hsub hsent⟩, clock, answer, hsub hanswered, hverdict⟩

theorem Rests.mono {result : Except BearerRejection ValidatedBearer} (hsub : events ⊆ events')
    (h : Rests d lib events t token result) : Rests d lib events' t token result := by
  cases result with
  | ok bearer =>
    rcases h with ⟨hallowed, jwt, hvouched, rfl⟩ | ⟨hallowed, hasked, hbearer⟩
    · exact Or.inl ⟨hallowed, jwt, hvouched.mono hsub, rfl⟩
    · exact Or.inr ⟨hallowed, hasked.mono hsub, hbearer⟩
  | error rejection =>
    cases rejection with
    | policyReject => exact h
    | tokenInvalid why =>
      rcases h with ⟨rejection, hmem, hrest⟩ | hasked
      · exact Or.inl ⟨rejection, hsub hmem, hrest⟩
      · exact Or.inr (hasked.mono hsub)
    | opaqueUnverifiable => exact ⟨hsub h.1, h.2.imp_right (refused_mono hsub)⟩
    | introspectionNotPermitted => exact refused_mono hsub h
    | issuerUnreachable why =>
      rcases h with ⟨why', hmem, hallowed⟩ | hnone | ⟨why', hasked⟩
      · exact Or.inl ⟨why', hsub hmem, hallowed⟩
      · exact Or.inr (Or.inl hnone)
      · exact Or.inr (Or.inr ⟨why', hasked.mono hsub⟩)

/-- What the introspection of an open token settles rests on it. -/
theorem LeftOpen.settle (h : LeftOpen d events t token fallback) (verdict : TokenIntrospection)
    (hverdict : Introspected d events t token verdict) :
    Rests d lib events t token (settle fallback verdict) := by
  cases verdict with
  | active expiresAt => exact Or.inr ⟨h.allowed, hverdict, rfl, rfl⟩
  | inactive => exact Or.inr hverdict
  | notPermitted =>
    simp only [UnknownBearer.settle]
    split
    · exact ⟨h.refused _ rfl, Or.inr hverdict⟩
    · exact hverdict
  | unavailable why =>
    have hrests : d.refreshConfig = none ∨ ∃ why, Asked events t token (.unavailable why) :=
      hverdict.imp_right fun hasked => ⟨why, hasked⟩
    simp only [UnknownBearer.settle]
    split <;> exact Or.inr hrests

/-- What the keys refuse for good rests on their refusal. -/
theorem rests_of_final {rejection : JwksRejection} (hfinal : Final d rejection)
    (hmem : .keysRefused t token rejection ∈ events) :
    Rests d lib events t token (.error (bearerRejectionFromJwks rejection)) := by
  cases rejection with
  | notAJwt => exact ⟨hmem, Or.inl (hfinal.resolve_left fun h => nomatch h)⟩
  | unsupportedAlgorithm alg => exact Or.inl ⟨_, hmem, rfl, hfinal, rfl⟩
  | unknownKey => exact Or.inl ⟨_, hmem, rfl, hfinal, rfl⟩
  | unavailable why => exact Or.inl ⟨why, hmem, hfinal.resolve_left fun h => nomatch h⟩
  | invalid why => exact Or.inl ⟨_, hmem, rfl, hfinal, rfl⟩

/-- A log that has grown by nothing of caller `t`. -/
structure Apart (events events' : List Event) (t : Nat) : Prop where
  sub : events ⊆ events'
  new : ∀ e ∈ events', e.caller? = some t → e ∈ events

theorem Unheard.apart (hapart : Apart events events' t) (h : Unheard events t) :
    Unheard events' t :=
  ⟨fun token rejection hmem => h.refused token rejection (hapart.new _ hmem rfl),
    fun token request hmem => h.sent token request (hapart.new _ hmem rfl)⟩

/-- What the keys have left open stays so, unless they refuse it. -/
theorem LeftOpen.mono (hsub : events ⊆ events')
    (hnew : ∀ token rejection, .keysRefused t token rejection ∈ events' →
      .keysRefused t token rejection ∈ events)
    (h : LeftOpen d events t token fallback) : LeftOpen d events' t token fallback where
  allowed := h.allowed
  notAsked := h.notAsked
  refused := fun rejection hrejection => hsub (h.refused rejection hrejection)
  mayFallBack := fun token rejection hmem => h.mayFallBack token rejection (hnew _ _ hmem)

theorem LeftOpen.apart (hapart : Apart events events' t) (h : LeftOpen d events t token fallback) :
    LeftOpen d events' t token fallback :=
  h.mono hapart.sub fun _ _ hmem => hapart.new _ hmem rfl

theorem notSent_apart (hapart : Apart events events' t)
    (h : ∀ token request, .sent t token request ∉ events) (token : String)
    (request : IntrospectionRequest) : .sent t token request ∉ events' :=
  fun hmem => h token request (hapart.new _ hmem rfl)

/-- A caller does not notice what the others do. -/
theorem CallerSound.apart (hapart : Apart events events' t)
    (htask : ∀ token, TaskSound d lib events token task → TaskSound d lib events' token task')
    (h : CallerSound d lib events task t pc) : CallerSound d lib events' task' t pc := by
  cases pc with
  | idle => exact Unheard.apart hapart h
  | validating token =>
    obtain ⟨hunheard, hallowed, hsound⟩ := h
    exact ⟨hunheard.apart hapart, hallowed, htask token hsound⟩
  | readLatch token fallback => exact ⟨h.1.apart hapart, notSent_apart hapart h.2⟩
  | readConfig token fallback =>
    obtain ⟨hopen, hnotSent, hpassed⟩ := h
    exact ⟨hopen.apart hapart, notSent_apart hapart hnotSent, hapart.sub hpassed⟩
  | waiting token fallback =>
    obtain ⟨hopen, request, hsent⟩ := h
    exact ⟨hopen.apart hapart, request, hapart.sub hsent⟩
  | done token result => exact Rests.mono hapart.sub h
  | dropped => trivial

end Results

/-! ## The runs -/

/-- The latch is closed with the first refusal, which is the one warned of. -/
def Latched {Key : Type} (st : State Key) : Prop :=
  refused st.events = st.introspectionNotPermitted ∧
    warnings st.events = st.introspectionNotPermitted.toNat

structure Inv {Key : Type} (d : Deployment) (lib : JwtLibrary Key) (st : State Key) : Prop where
  keys : KeysSound lib st.events st.keys
  callers : ∀ t, CallerSound d lib st.events (st.keys.tasks t) t (st.callers t)
  latched : Latched st
  explained : History.Explained (Grounds d) st.events

section Runs

variable {Key : Type} {d : Deployment} {lib : JwtLibrary Key} {st st' : State Key} {t : Nat}
  {token : String} {pc : Pc} {e : Event}

theorem inv_init (clock : Clock) : Inv d lib (init clock : State Key) where
  keys := ⟨fun _ _ h => (by cases h), fun _ _ _ _ _ h => (by cases h)⟩
  callers := fun _ => ⟨fun _ _ h => (by cases h), fun _ _ h => (by cases h)⟩
  latched := ⟨rfl, rfl⟩
  explained := trivial

/-! ### The latch -/

/-- An event that is no answer leaves the latch. -/
theorem Latched.happens (h : Latched st) (hrefuses : e.refuses = false)
    (hwarned : e.isWarned = false) : Latched (st.happens e) := by
  refine ⟨?_, ?_⟩
  · show refused (e :: st.events) = st.introspectionNotPermitted
    rw [refused, List.any_cons, hrefuses, Bool.false_or]
    exact h.1
  · show warnings (e :: st.events) = st.introspectionNotPermitted.toNat
    rw [warnings, List.countP_cons_of_neg (by rw [hwarned]; exact Bool.false_ne_true)]
    exact h.2

/-- The first refusal closes the latch, and every later one finds it closed. -/
theorem Latched.refuse (h : Latched st) (hrefuses : e.refuses = true)
    (hwarned : e.isWarned = false) : Latched (latch (st.happens e)) := by
  have hcount : warnings (e :: st.events) = st.introspectionNotPermitted.toNat := by
    rw [warnings, List.countP_cons_of_neg (by rw [hwarned]; exact Bool.false_ne_true)]
    exact h.2
  cases hflag : st.introspectionNotPermitted with
  | true =>
    have hlatch : latch (st.happens e) = st.happens e := if_pos hflag
    rw [hlatch]
    refine ⟨?_, hcount⟩
    show refused (e :: st.events) = st.introspectionNotPermitted
    rw [refused, List.any_cons, hrefuses, hflag, Bool.true_or]
  | false =>
    have hlatch : latch (st.happens e) =
        { st.happens e with introspectionNotPermitted := true }.happens .warned :=
      if_neg (ne_true_of_eq_false hflag)
    rw [hlatch]
    refine ⟨?_, ?_⟩
    · show refused (.warned :: e :: st.events) = true
      rw [refused, List.any_cons, List.any_cons, hrefuses, Bool.true_or, Bool.or_true]
    · show warnings (.warned :: e :: st.events) = 1
      rw [hflag] at hcount
      rw [warnings, List.countP_cons_of_pos rfl]
      exact congrArg (· + 1) hcount

/-! ### Moves -/

theorem Inv.goto (h : Inv d lib st) (pc : Pc)
    (hpc : CallerSound d lib st.events (st.keys.tasks t) t pc) : Inv d lib (st.goto t pc) where
  keys := h.keys
  callers := forall_update_iff.mpr ⟨hpc, fun u _ => h.callers u⟩
  latched := h.latched
  explained := h.explained

theorem KeysSound.mono {events events' : List Event} {ks : JwksProtocol.State Key}
    (hsub : events ⊆ events') (h : KeysSound lib events ks) : KeysSound lib events' ks :=
  ⟨fun kid key hget => (h.cache kid key hget).mono hsub,
    fun t token alg kid keys hpc kid' key hget =>
      (h.recorded t token alg kid keys hpc kid' key hget).mono hsub⟩

/-- Something happens to caller `t`, and it moves; the events at the front are its
own, or of no caller. -/
theorem Inv.acts (h : Inv d lib st) (new : List Event)
    (hkeys : st'.keys = st.keys) (hcallers : st'.callers = Function.update st.callers t pc)
    (hevents : st'.events = new ++ st.events)
    (hown : ∀ e ∈ new, ∀ u, e.caller? = some u → u = t)
    (hlatched : Latched st') (hexplained : History.Explained (Grounds d) st'.events)
    (hpc : CallerSound d lib st'.events (st.keys.tasks t) t pc) : Inv d lib st' where
  keys := by
    rw [hkeys, hevents]
    exact h.keys.mono (List.subset_append_right new st.events)
  callers := by
    rw [hkeys, hcallers]
    refine forall_update_iff.mpr ⟨hpc, fun u hu => ?_⟩
    rw [hevents]
    have hsub : st.events ⊆ new ++ st.events := List.subset_append_right new st.events
    have hapart : Apart st.events (new ++ st.events) u := by
      refine ⟨hsub, fun e hmem hcaller => ?_⟩
      rcases List.mem_append.mp hmem with hnew | hold
      · exact absurd (hown e hnew u hcaller) hu
      · exact hold
    exact (h.callers u).apart hapart fun _ => .mono hsub
  latched := hlatched
  explained := hexplained

/-- Something happens to caller `t` that is no answer, and it moves. -/
theorem Inv.happens (h : Inv d lib st) (pc : Pc) (hcaller : e.caller? = some t)
    (hrefuses : e.refuses = false) (hwarned : e.isWarned = false)
    (hgrounds : Grounds d st.events e)
    (hpc : CallerSound d lib (e :: st.events) (st.keys.tasks t) t pc) :
    Inv d lib ((st.happens e).goto t pc) := by
  have hown : ∀ e' ∈ [e], ∀ u, e'.caller? = some u → u = t := by
    intro e' hmem u hu
    obtain rfl := List.mem_singleton.mp hmem
    exact (Option.some.inj (hcaller.symm.trans hu)).symm
  exact h.acts [e] rfl rfl rfl hown (h.latched.happens hrefuses hwarned) ⟨hgrounds, h.explained⟩ hpc

/-- The keys move. -/
theorem Inv.keysMove (h : Inv d lib st) {ks : JwksProtocol.State Key} (new : List (List Jwk))
    (hkeeps : Keeps d lib st.events (new.map Event.published ++ st.events) st.keys ks) :
    Inv d lib { st with keys := ks, events := new.map Event.published ++ st.events } where
  keys := hkeeps.1
  callers := fun u => by
    have hapart : Apart st.events (new.map Event.published ++ st.events) u := by
      refine ⟨List.subset_append_right _ _, fun e hmem hcaller => ?_⟩
      rcases List.mem_append.mp hmem with hnew | hold
      · obtain ⟨jwks, -, rfl⟩ := List.mem_map.mp hnew
        cases hcaller
      · exact hold
    exact (h.callers u).apart hapart (hkeeps.2 u)
  latched := by
    have hrefuses : (new.map Event.published).any Event.refuses = false := by
      simp [Event.refuses]
    have hwarned : (new.map Event.published).countP Event.isWarned = 0 := by
      simp [List.countP_eq_zero, Event.isWarned]
    refine ⟨?_, ?_⟩
    · show refused (_ ++ st.events) = st.introspectionNotPermitted
      rw [refused, List.any_append, hrefuses, Bool.false_or]
      exact h.latched.1
    · show warnings (_ ++ st.events) = st.introspectionNotPermitted.toNat
      rw [warnings, List.countP_append, hwarned, Nat.zero_add]
      exact h.latched.2
  explained := h.explained.append fun e hmem _ => by
    obtain ⟨jwks, -, rfl⟩ := List.mem_map.mp hmem
    trivial

/-! ### Steps -/

/-- A validation begins at the keys. -/
theorem KeysSound.begin {events : List Event} {ks : JwksProtocol.State Key}
    {task : JwksProtocol.Pc Key} (h : KeysSound lib events ks)
    (hrecord : ∀ token alg kid keys, task ≠ .record token alg kid (.ok keys)) :
    KeysSound lib events (ks.goto t task) := by
  refine ⟨h.cache, fun u token' alg kid keys hu => ?_⟩
  have htasks : (ks.goto t task).tasks = Function.update ks.tasks t task := rfl
  rw [htasks] at hu
  by_cases hut : u = t
  · rw [hut, Function.update_self] at hu
    exact absurd hu (hrecord token' alg kid keys)
  · rw [Function.update_of_ne hut] at hu
    exact h.recorded u token' alg kid keys hu

/-- A call of the keys is a validation of its token. -/
theorem call_begins {ks ks' : JwksProtocol.State Key} (events : List Event)
    (hs : JwksProtocol.step d.jwks lib ks (.call t token) = some ks') :
    ∃ task, ks' = ks.goto t task ∧ TaskSound d lib events token task ∧
      ∀ token alg kid keys, task ≠ .record token alg kid (.ok keys) := by
  simp only [JwksProtocol.step] at hs
  split at hs
  · split at hs <;> cases hs
    · next alg kid hheader =>
      refine ⟨_, rfl, ⟨fun s hs => ?_, fun _ hpc => (by cases hpc)⟩,
        fun _ _ _ _ hpc => (by cases hpc)⟩
      obtain rfl := Option.some.inj hs
      exact ⟨rfl, hheader⟩
    · exact ⟨_, rfl, .ended rfl fun _ hpc => (by cases hpc), fun _ _ _ _ hpc => (by cases hpc)⟩
  · cases hs

/-- The keys are asked under a policy of the deployment. -/
theorem policy_isSome (h : allowsJwks d.validation = true) : d.policy.isSome = true := by
  cases hpolicy : d.policy with
  | none =>
    rw [Deployment.validation, hpolicy] at h
    cases h
  | some policy => rfl

/-- Every policy but `reject` asks someone. -/
theorem asks_someone (h : d.validation ≠ .reject) (hjwks : allowsJwks d.validation = false) :
    allowsIntrospection d.validation = true := by
  cases hpolicy : d.validation with
  | reject => exact absurd hpolicy h
  | introspection => rfl
  | jwksThenIntrospection => rfl
  | jwks =>
    rw [hpolicy] at hjwks
    cases hjwks

theorem Inv.startCall (h : Inv d lib st) (hidle : st.callers t = .idle)
    (hs : startCall d lib st t token = some st') : Inv d lib st' := by
  have hunheard : Unheard st.events t := by
    have hcaller := h.callers t
    rw [hidle] at hcaller
    exact hcaller
  rw [UnknownBearer.startCall] at hs
  split at hs
  · next hreject =>
    cases hs
    exact h.goto (.done token (.error .policyReject)) hreject
  next hreject =>
  split at hs
  · next hkeys =>
    obtain ⟨ks, hcall, hst⟩ := Option.map_eq_some_iff.mp hs
    cases hst
    obtain ⟨task, rfl, htask, hrecord⟩ := call_begins st.events hcall
    have htasks : (st.keys.goto t task).tasks = Function.update st.keys.tasks t task := rfl
    refine ⟨h.keys.begin hrecord, forall_update_iff.mpr ⟨⟨hunheard, hkeys.1, ?_⟩, fun u hu => ?_⟩,
      h.latched, h.explained⟩
    · show TaskSound d lib st.events token ((st.keys.goto t task).tasks t)
      rw [htasks, Function.update_self]
      exact htask
    · show CallerSound d lib st.events ((st.keys.goto t task).tasks u) u (st.callers u)
      rw [htasks, Function.update_of_ne hu]
      exact h.callers u
  next hkeys =>
  have hjwks : allowsJwks d.validation = false := by
    rw [Bool.eq_false_iff]
    exact fun hallowed => hkeys ⟨hallowed, policy_isSome hallowed⟩
  have hallowed := asks_someone hreject hjwks
  rw [if_pos hallowed] at hs
  cases hs
  refine h.goto (.readLatch token none) ⟨⟨hallowed, fun _ => hjwks, ?_, ?_⟩, hunheard.sent⟩
  · exact fun _ hrejection => nomatch hrejection
  · exact fun token rejection hmem => absurd hmem (hunheard.refused token rejection)

theorem Inv.run (h : Inv d lib st) (hs : runSection d st t = some st') : Inv d lib st' := by
  have hcaller := h.callers t
  cases hpc : st.callers t with
  | idle => simp [runSection, hpc] at hs
  | waiting token fallback => simp [runSection, hpc] at hs
  | done token result => simp [runSection, hpc] at hs
  | dropped => simp [runSection, hpc] at hs
  | validating token =>
    rw [hpc] at hcaller
    obtain ⟨hunheard, hallowed, htask⟩ := hcaller
    simp only [runSection, hpc] at hs
    split at hs
    · next jwt hdone =>
      cases hs
      exact h.goto (.done token (.ok _)) (Or.inl ⟨hallowed, jwt, htask.done jwt hdone, rfl⟩)
    · next rejection hdone =>
      have hmem : Event.keysRefused t token rejection ∈
          Event.keysRefused t token rejection :: st.events := List.mem_cons_self
      split at hs
      · next hfinal =>
        cases hs
        exact h.happens (.done token _) rfl rfl rfl hunheard (rests_of_final hfinal hmem)
      · next hopen =>
        cases hs
        have hopen' := not_or.mp hopen
        refine h.happens (.readLatch token (some rejection)) rfl rfl rfl hunheard
          ⟨⟨eq_true_of_ne_false hopen'.2, fun hnone => (by cases hnone), ?_, ?_⟩, ?_⟩
        · rintro _ ⟨⟩
          exact hmem
        · intro token' rejection' hmem'
          rcases List.mem_cons.mp hmem' with heq | hold
          · cases heq
            exact eq_true_of_ne_false hopen'.1
          · exact absurd hold (hunheard.refused token' rejection')
        · intro token' request hmem'
          exact hunheard.sent token' request
            ((List.mem_cons.mp hmem').resolve_left fun heq => nomatch heq)
    · cases hs
  | readLatch token fallback =>
    rw [hpc] at hcaller
    obtain ⟨hopen, hnotSent⟩ := hcaller
    simp only [runSection, hpc] at hs
    split at hs <;> cases hs
    · next hlatch =>
      have hrefused : refused st.events = true := h.latched.1.trans hlatch
      exact h.goto (.done token _) (hopen.settle .notPermitted hrefused)
    · next hlatch =>
      have hrefused : refused st.events = false := h.latched.1.trans (eq_false_of_ne_true hlatch)
      refine h.happens (.readConfig token fallback) rfl rfl rfl hrefused
        ⟨hopen.mono (List.subset_cons_self _ _) ?_, ?_, List.mem_cons_self⟩
      · exact fun _ _ hmem => (List.mem_cons.mp hmem).resolve_left fun heq => nomatch heq
      · exact fun token' request hmem =>
          hnotSent token' request ((List.mem_cons.mp hmem).resolve_left fun heq => nomatch heq)
  | readConfig token fallback =>
    rw [hpc] at hcaller
    obtain ⟨hopen, hnotSent, hpassed⟩ := hcaller
    simp only [runSection, hpc] at hs
    split at hs <;> cases hs
    · next hnone =>
      exact h.goto (.done token _)
        (hopen.settle (.unavailable _) (Or.inl hnone))
    · next config hconfig =>
      refine h.happens (.waiting token fallback) rfl rfl rfl
        ⟨hpassed, hnotSent, ⟨fallback, hopen⟩, config, hconfig, rfl⟩
        ⟨hopen.mono (List.subset_cons_self _ _) ?_, _, List.mem_cons_self⟩
      exact fun _ _ hmem => (List.mem_cons.mp hmem).resolve_left fun heq => nomatch heq

/-- What an answer comes to, once the refused client is known. -/
theorem introspected_of_asked {events : List Event} {verdict : TokenIntrospection}
    (hasked : Asked events t token verdict)
    (hrefused : verdict = .notPermitted → refused events = true) :
    Introspected d events t token verdict := by
  cases verdict with
  | active expiresAt => exact hasked
  | inactive => exact hasked
  | notPermitted => exact hrefused rfl
  | unavailable why => exact Or.inr hasked

/-- The latch moves nothing but itself. -/
theorem latch_frame (st : State Key) :
    (latch st).keys = st.keys ∧ (latch st).callers = st.callers ∧
      ∃ new, (latch st).events = new ++ st.events ∧ ∀ e ∈ new, e = .warned := by
  rw [latch]
  split
  · exact ⟨rfl, rfl, [], rfl, fun _ hmem => (by cases hmem)⟩
  · exact ⟨rfl, rfl, [.warned], rfl, fun _ hmem => List.mem_singleton.mp hmem⟩

/-- The state after an answer and the latch: the answer has happened, and perhaps
the warning. -/
theorem Latched.answered (h : Latched st) (clock : Clock) (answer : IntrospectionAnswer) :
    ∃ after : State Key,
      after = (if introspected clock answer = .notPermitted then
        latch (st.happens (.answered t clock answer)) else st.happens (.answered t clock answer)) ∧
      after.keys = st.keys ∧ after.callers = st.callers ∧ Latched after ∧
      ∃ new, after.events = new ++ .answered t clock answer :: st.events ∧
        ∀ e ∈ new, e = .warned := by
  refine ⟨_, rfl, ?_⟩
  split
  · next hrefuses =>
    obtain ⟨hkeys, hcallers, hnew⟩ := latch_frame (st.happens (.answered t clock answer))
    exact ⟨hkeys, hcallers, h.refuse (decide_eq_true hrefuses) rfl, hnew⟩
  · next haccepts =>
    exact ⟨rfl, rfl, h.happens (decide_eq_false haccepts) rfl, [], rfl,
      fun _ hmem => (by cases hmem)⟩

theorem Inv.answer (h : Inv d lib st) {answer : IntrospectionAnswer}
    (hs : answerSection st t answer = some st') : Inv d lib st' := by
  have hcaller := h.callers t
  rw [answerSection] at hs
  split at hs
  · next token fallback hpc =>
    rw [hpc] at hcaller
    obtain ⟨hopen, request, hsent⟩ := hcaller
    obtain ⟨after, hif, hkeys, hcallers, hlatched, new, hevents, hnew⟩ :=
      h.latched.answered (t := t) st.keys.clock answer
    simp only [← hif] at hs
    obtain rfl := Option.some.inj hs
    generalize st.keys.clock = clock at *
    have hsub : Event.answered t clock answer :: st.events ⊆ after.events := by
      rw [hevents]
      exact List.subset_append_right new _
    have hmem : Event.answered t clock answer ∈ after.events := hsub List.mem_cons_self
    have hasked : Asked after.events t token (introspected clock answer) :=
      ⟨⟨request, hsub (List.mem_cons_of_mem _ hsent)⟩, clock, answer, hmem, rfl⟩
    have hopen' : LeftOpen d after.events t token fallback := by
      refine hopen.mono (fun _ hmem => hsub (List.mem_cons_of_mem _ hmem)) fun _ _ hmem => ?_
      rw [hevents] at hmem
      rcases List.mem_append.mp hmem with hmem | hmem
      · cases hnew _ hmem
      · exact (List.mem_cons.mp hmem).resolve_left fun heq => nomatch heq
    have hrests : CallerSound d lib after.events (st.keys.tasks t) t
        (.done token (settle fallback (introspected clock answer))) :=
      hopen'.settle _ (introspected_of_asked hasked fun hrefuses =>
        List.any_eq_true.mpr ⟨_, hmem, decide_eq_true hrefuses⟩)
    show Inv d lib (after.finish t token _)
    refine h.acts (new ++ [.answered t clock answer]) hkeys ?_ ?_ ?_ hlatched ?_ hrests
    · exact congrArg (Function.update · t _) hcallers
    · rw [List.append_assoc]
      exact hevents
    · intro e hmem u hu
      rcases List.mem_append.mp hmem with hmem | hmem
      · rw [hnew e hmem] at hu
        cases hu
      · rw [List.mem_singleton.mp hmem] at hu
        exact (Option.some.inj hu).symm
    · show History.Explained (Grounds d) after.events
      rw [hevents]
      refine History.Explained.append ⟨trivial, h.explained⟩ fun e hmem _ => ?_
      rw [hnew e hmem]
      trivial
  · cases hs

theorem Inv.step (h : Inv d lib st) {l : Label} (hs : step d lib st l = some st') :
    Inv d lib st' := by
  cases l with
  | keys l =>
    have hmove : (∀ t token, l ≠ .call t token) → ∀ ks,
        JwksProtocol.step d.jwks lib st.keys l = some ks →
        Inv d lib { st with
          keys := ks, events := (publishes l).toList.map Event.published ++ st.events } :=
      fun hcall ks hks => h.keysMove (publishes l).toList (h.keys.step hcall hks)
    cases l with
    | call t token => cases hs
    | drop t => cases hs
    | tick time unix | run t | discovered t answer | fetched t answer =>
      simp only [UnknownBearer.step] at hs
      obtain ⟨ks, hks, rfl⟩ := Option.map_eq_some_iff.mp hs
      exact hmove (fun _ _ heq => (by cases heq)) ks hks
  | call t token =>
    simp only [UnknownBearer.step] at hs
    split at hs
    · next hidle => exact h.startCall hidle hs
    · cases hs
  | run t => exact h.run hs
  | answer t answer => exact h.answer hs
  | drop t =>
    have hdropped : ∀ st : State Key, Inv d lib st → Inv d lib (st.goto t .dropped) :=
      fun st h => h.goto (.dropped) trivial
    simp only [UnknownBearer.step] at hs
    split at hs <;> cases hs
    · refine hdropped _ ?_
      cases hks : JwksProtocol.step d.jwks lib st.keys (.drop t) with
      | none => exact h
      | some ks =>
        exact h.keysMove [] (h.keys.step (l := .drop t) (fun _ _ heq => (by cases heq)) hks)
    · exact hdropped st h

end Runs

/-! ## Every run -/

section Settled

variable {Key : Type} {d : Deployment} {lib : JwtLibrary Key} {st : State Key} {clock : Clock}
  {events earlier : List Event} {t : Nat} {token token' : String} {request : IntrospectionRequest}
  {rejection : JwksRejection}

theorem reach_inv (hr : (system d lib).Reach (fun _ _ => True) (init clock) st) : Inv d lib st :=
  hr.invariant (inv_init clock) fun _ _ _ h _ hs => h.step hs

/-- A token that the keys refused for good is never sent. -/
theorem mayFallBack_of_sent (h : History.Explained (Grounds d) events)
    (hsent : .sent t token request ∈ events) (hrefused : .keysRefused t token' rejection ∈ events) :
    mayFallBack rejection = true := by
  rcases History.before_or_after hsent hrefused with
    heq | ⟨earlier, hsuffix, hearlier⟩ | ⟨earlier, hsuffix, hearlier⟩
  · cases heq
  · obtain ⟨-, -, ⟨fallback, hopen⟩, -⟩ := h.of_suffix hsuffix
    exact hopen.mayFallBack token' rejection hearlier
  · have hunheard : Unheard earlier t := h.of_suffix hsuffix
    exact absurd hearlier (hunheard.sent token request)

/-- What the keys left open they were asked about, where they are asked at all. -/
theorem LeftOpen.asked {fallback : Option JwksRejection}
    (h : LeftOpen d events t token fallback) (hallowed : allowsJwks d.validation = true) :
    ∃ rejection, .keysRefused t token rejection ∈ events := by
  cases hfallback : fallback with
  | none =>
    have hnot := h.notAsked hfallback
    rw [hallowed] at hnot
    cases hnot
  | some rejection => exact ⟨rejection, h.refused rejection hfallback⟩

/-- **Every verdict on an unknown bearer has its grounds**, in every run: a bearer is
accepted on a published key or on an answer that it is active, and an outage or a
refused client is never reported as a bad token. A bearer is sent once, after the
keys where these are asked, never once they refused it for good, and by a caller
that found the latch open; the first refusal of the client is the one warned of. -/
theorem unknown_bearers_are_settled
    (hr : (system d lib).Reach (fun _ _ => True) (init clock) st) :
    (∀ t token result, st.callers t = .done token result →
      Rests d lib st.events t token result) ∧
    (∀ t token request earlier, .sent t token request :: earlier <:+ st.events →
      (∃ config, d.refreshConfig = some config ∧ request = introspectionRequest config token) ∧
      allowsIntrospection d.validation = true ∧
      (allowsJwks d.validation = true → ∃ rejection, .keysRefused t token rejection ∈ earlier) ∧
      (∀ token rejection, .keysRefused t token rejection ∈ st.events →
        mayFallBack rejection = true) ∧
      (∀ token request, .sent t token request ∉ earlier) ∧
      ∃ before, .passed t :: before <:+ earlier ∧ refused before = false) ∧
    warnings st.events = (refused st.events).toNat := by
  have h := reach_inv hr
  refine ⟨fun t token result hdone => ?_, fun t token request earlier hsuffix => ?_, ?_⟩
  · have hcaller := h.callers t
    rw [hdone] at hcaller
    exact hcaller
  · obtain ⟨hpassed, hnotSent, ⟨fallback, hopen⟩, hconfig⟩ := h.explained.of_suffix hsuffix
    obtain ⟨before, hbefore⟩ := History.exists_suffix hpassed
    have hearlier : earlier <:+ st.events := (List.suffix_cons _ earlier).trans hsuffix
    have hmem : Event.sent t token request ∈ st.events := hsuffix.mem List.mem_cons_self
    exact ⟨hconfig, hopen.allowed, hopen.asked,
      fun token' rejection hrefused => mayFallBack_of_sent h.explained hmem hrefused, hnotSent,
      before, hbefore, h.explained.of_suffix (hbefore.trans hearlier)⟩
  · rw [h.latched.2, h.latched.1]

end Settled

/-! ## A public client -/

/-- No credential is a JWT. -/
def opaqueOnly : JwtLibrary Unit :=
  { decodeHeader := fun _ => none
    decode := fun _ _ _ _ => .error "InvalidToken"
    fromJwk := fun _ => none }

def publicClient : Deployment :=
  { policy := some .jwksThenIntrospection, jwks := validator
    refreshConfig := some ⟨"mcp", none, "https://issuer/token/"⟩ }

/-- Callers 0 and 1 are past the latch when the client is refused, and caller 2 is
not. -/
def twoPassed : List Label :=
  [.call 0 "a", .run 0, .run 0, .call 1 "b", .run 1, .run 1, .run 0, .run 1, .call 2 "c", .run 2,
    .answer 0 (.status 403 "403 Forbidden"), .answer 1 (.status 403 "403 Forbidden"), .run 2]

def isOpaque : Pc → Bool
  | .done _ (.error .opaqueUnverifiable) => true
  | _ => false

def Event.isSent : Event → Bool
  | .sent _ _ _ => true
  | _ => false

theorem public_client_is_warned_of_once :
    ∃ st : State Unit, warnings st.events = (refused st.events).toNat ∧ warnings st.events = 1 ∧
      st.events.countP Event.isSent = 2 ∧ [0, 1, 2].all fun t => isOpaque (st.callers t) := by
  obtain ⟨st, hr, hp⟩ := System.exists_reach_of_run (S := system publicClient opaqueOnly)
    (G := fun _ _ => True) (s := init ⟨0, 0⟩) (w := twoPassed)
    (p := fun st => decide (warnings st.events = 1 ∧ st.events.countP Event.isSent = 2 ∧
      [0, 1, 2].all fun t => isOpaque (st.callers t)))
    (by decide +kernel)
  exact ⟨st, (unknown_bearers_are_settled hr).2.2, of_decide_eq_true hp⟩

end McpFramework.UnknownBearer

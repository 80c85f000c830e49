/-
The client context parameters of `AioClientArgsCreator._build_endpoint_resolver` (`args.py`). For s3 the settings of the
client are folded into `client_config.client_context_params` itself, a dict that belongs to the caller and that other
configs may hold.

`ArgsCreator` are botocore's computations on a client's own config.

- `resolver_spec`: what one client creation does.
- `clients_independent_iff`: in a sequence of client creations every dict stays as it was and every resolver gets
  parameters of its own config and service only, iff no creation for s3 folds settings into a non-empty dict that does
  not hold them already.
- `setting_surfaces`: an s3 setting of one client as an endpoint setting of another.
-/
import Mathlib.Data.Finmap
import AioBotocore.Async.Run
import AioBotocore.Heap

namespace AioBotocore.ClientContext

open Heap Async

/-! ## Model -/

abbrev Params (ν : Type) : Type := Finmap fun _ : String => ν

/-- `client_context_params` and what else a config says -/
structure ClientConfig (σ : Type) where
  clientContextParams : Option Ref
  other : σ

structure ArgsCreator (σ ν : Type) where
  computeS3Config : Option (ClientConfig σ) → Option (Params ν)
  /-- `config_kwargs['s3_disable_express_session_auth']` -/
  s3DisableExpressSessionAuth : Option (ClientConfig σ) → Option ν
  isS3Service : String → Bool

structure Creation (σ : Type) where
  hasRuleset : Bool
  clientConfig : Option (ClientConfig σ)
  serviceNameRaw : String

variable {σ ν : Type} [DecidableEq ν] (A : ArgsCreator σ ν)

/-- `client_config.client_context_params or {}`: an empty dict is replaced by a new one -/
def clientContext (clientConfig : Option (ClientConfig σ)) (s : Objects (Params ν)) : Ref × Objects (Params ν) :=
  match clientConfig.bind ClientConfig.clientContextParams with
  | some r => if deref r s = ∅ then alloc ∅ s else (r, s)
  | none => alloc ∅ s

/-- `_build_endpoint_resolver`: the dict that the resolver is given -/
def buildEndpointResolver (c : Creation σ) (s : Objects (Params ν)) : Option Ref × Objects (Params ν) :=
  if c.hasRuleset then
    let s3ConfigRaw := (A.computeS3Config c.clientConfig).getD ∅
    let (context, s) := clientContext c.clientConfig s
    if A.isS3Service c.serviceNameRaw then
      let s := write context (s3ConfigRaw ∪ ·) s
      match A.s3DisableExpressSessionAuth c.clientConfig with
      | some b => (some context, write context (Finmap.insert "disable_s3_express_session_auth" b) s)
      | none => (some context, s)
    else (some context, s)
  else (none, s)

/-- the dicts, and for each client created so far the dict that its resolver holds -/
structure St (ν : Type) where
  objects : Objects (Params ν)
  given : List (Option Ref)

def create (st : St ν) (c : Creation σ) : St ν :=
  let (context, s) := buildEndpointResolver A c st.objects
  ⟨s, st.given ++ [context]⟩

/-- the client context parameters of each client created so far -/
def parameters (st : St ν) : List (Option (Params ν)) := st.given.map fun context => context.map (deref · st.objects)

/-! ## One client -/

/-- what is folded in for s3 -/
def settings (c : Creation σ) : Params ν :=
  let s3ConfigRaw := (A.computeS3Config c.clientConfig).getD ∅
  match A.s3DisableExpressSessionAuth c.clientConfig with
  | some b => s3ConfigRaw.insert "disable_s3_express_session_auth" b
  | none => s3ConfigRaw

/-- the dict that the caller gave -/
def callersParams (c : Creation σ) (s : Objects (Params ν)) : Params ν :=
  match c.clientConfig.bind ClientConfig.clientContextParams with
  | some r => deref r s
  | none => ∅

/-- the parameters that the client's own config and service ask for -/
def own (s : Objects (Params ν)) (c : Creation σ) : Option (Params ν) :=
  if c.hasRuleset then
    if A.isS3Service c.serviceNameRaw then some (settings A c ∪ callersParams c s) else some (callersParams c s)
  else none

/-- folding changes no dict of the caller: none is given, it is empty, or it holds the settings already -/
def Quiet (s : Objects (Params ν)) (c : Creation σ) : Prop :=
  c.hasRuleset = true → A.isS3Service c.serviceNameRaw = true →
    callersParams c s = ∅ ∨ ∀ k v, (settings A c).lookup k = some v → (callersParams c s).lookup k = some v

omit [DecidableEq ν] in
theorem union_eq_right_iff (d e : Params ν) : d ∪ e = e ↔ ∀ k v, d.lookup k = some v → e.lookup k = some v := by
  constructor
  · intro h k v hk
    rw [← h, Finmap.lookup_union_left (Finmap.mem_of_lookup_eq_some hk), hk]
  · intro h
    apply Finmap.ext_lookup
    intro k
    by_cases hk : k ∈ d
    · obtain ⟨v, hv⟩ := Finmap.mem_iff.1 hk
      rw [Finmap.lookup_union_left hk, hv, h k v hv]
    · exact Finmap.lookup_union_right hk

/-- the two updates are one -/
theorem fold_eq {context : Ref} {s : Objects (Params ν)} (c : Creation σ)
    (hruleset : c.hasRuleset = true) (hs3 : A.isS3Service c.serviceNameRaw = true) (s₀ : Objects (Params ν))
    (hcontext : clientContext c.clientConfig s₀ = (context, s)) :
    ∃ s', buildEndpointResolver A c s₀ = (some context, s') ∧ s' = write context (settings A c ∪ ·) s := by
  unfold buildEndpointResolver settings
  rw [hcontext]
  simp only [hruleset, hs3, if_true]
  split
  · rename_i b hb
    refine ⟨_, rfl, ?_⟩
    apply List.ext_getElem?
    intro r
    by_cases hr : r = context
    · rw [hr, get_write_self, get_write_self, get_write_self, Option.map_map]
      congr 1
      funext d
      exact Finmap.insert_union
    · rw [get_write_of_ne hr, get_write_of_ne hr, get_write_of_ne hr]
  · exact ⟨_, rfl, rfl⟩

/-- the caller's dict existed in `s` -/
def Valid (s : Objects (Params ν)) (c : Creation σ) : Prop :=
  ∀ cfg r, c.clientConfig = some cfg → cfg.clientContextParams = some r → r < s.length

/-- the dict of the caller, or a new one -/
theorem clientContext_spec (c : Creation σ) {s₀ s : Objects (Params ν)} (hkeeps : Keeps s₀ s) (hvalid : Valid s₀ c) :
    (∃ r, clientContext c.clientConfig s = (r, s) ∧ r < s₀.length ∧ r < s.length ∧ deref r s = callersParams c s ∧
        callersParams c s ≠ ∅) ∨
      (clientContext c.clientConfig s = alloc ∅ s ∧ callersParams c s = ∅) := by
  unfold clientContext callersParams
  split
  · rename_i r hr
    obtain ⟨cfg, hcfg, hparams⟩ := Option.bind_eq_some_iff.1 hr
    have hlt := hvalid cfg r hcfg hparams
    split
    · rename_i hempty
      exact .inr ⟨rfl, hempty⟩
    · rename_i hne
      exact .inl ⟨r, rfl, hlt, hlt.trans_le hkeeps.length_le, rfl, hne⟩
  · exact .inr ⟨rfl, rfl⟩

/-- one client, created when the dicts of `s₀` are as they were -/
structure Resolved (s₀ s : Objects (Params ν)) (c : Creation σ) (context : Option Ref) (s' : Objects (Params ν)) :
    Prop where
  parameters : context.map (deref · s') = own A s c
  lt : ∀ r, context = some r → r < s'.length
  keeps_iff : Keeps s₀ s' ↔ Quiet A s c
  keeps : Quiet A s c → Keeps s s'

theorem folded_spec {s₀ s : Objects (Params ν)} (hkeeps : Keeps s₀ s) (c : Creation σ) (hvalid : Valid s₀ c)
    (hruleset : c.hasRuleset = true) (hs3 : A.isS3Service c.serviceNameRaw = true) :
    Resolved A s₀ s c (buildEndpointResolver A c s).1 (buildEndpointResolver A c s).2 := by
  have hown : own A s c = some (settings A c ∪ callersParams c s) := by simp [own, hruleset, hs3]
  rcases clientContext_spec c hkeeps hvalid with hold | hnew
  · obtain ⟨r, hctx, hlt₀, hlt, hderef, hne⟩ := hold
    obtain ⟨s', hbuild, hs'⟩ := fold_eq A c hruleset hs3 s hctx
    have hget : s[r]? = some (callersParams c s) := by
      rw [← hderef]
      exact get_eq_deref hlt
    have hquiet : settings A c ∪ callersParams c s = callersParams c s ↔ Quiet A s c := by
      rw [union_eq_right_iff]
      constructor
      · intro hsame _ _
        exact .inr hsame
      · intro h
        exact (h hruleset hs3).resolve_left hne
    rw [hbuild, hs']
    constructor
    · rw [hown, Option.map_some, deref_write _ hlt, hderef]
    · intro r' hr'
      rw [length_write, ← Option.some.inj hr']
      exact hlt
    · rw [hkeeps.write_iff hlt₀ hget, hquiet]
    · intro h
      rw [(Keeps.refl s).write_iff hlt hget]
      exact hquiet.2 h
  · obtain ⟨hctx, hempty⟩ := hnew
    have hlt : (alloc ∅ s).1 < (alloc (∅ : Params ν) s).2.length := by simp
    have hall : Keeps s (write (alloc ∅ s).1 (settings A c ∪ ·) (alloc ∅ s).2) :=
      (keeps_alloc ∅ s).write_new le_rfl _
    obtain ⟨s', hbuild, hs'⟩ := fold_eq A c hruleset hs3 s hctx
    have hfresh : deref (alloc ∅ s).1 (write (alloc ∅ s).1 (settings A c ∪ ·) (alloc ∅ s).2) =
        settings A c ∪ callersParams c s := by
      rw [deref_write _ hlt, deref_alloc, hempty]
    rw [hbuild, hs']
    constructor
    · rw [hown]
      exact congrArg some hfresh
    · intro r hr
      rw [length_write, ← Option.some.inj hr]
      exact hlt
    · exact ⟨fun _ _ _ => .inl hempty, fun _ => hkeeps.trans hall⟩
    · exact fun _ => hall

theorem unfolded_spec {s₀ s : Objects (Params ν)} (hkeeps : Keeps s₀ s) (c : Creation σ) (hvalid : Valid s₀ c)
    (hruleset : c.hasRuleset = true) (hs3 : ¬ A.isS3Service c.serviceNameRaw = true) :
    Resolved A s₀ s c (buildEndpointResolver A c s).1 (buildEndpointResolver A c s).2 := by
  have hbuild : buildEndpointResolver A c s =
      (some (clientContext c.clientConfig s).1, (clientContext c.clientConfig s).2) := by
    simp [buildEndpointResolver, hruleset, hs3]
  have hown : own A s c = some (callersParams c s) := by simp [own, hruleset, hs3]
  have hquiet : Quiet A s c := fun _ h => absurd h hs3
  rw [hbuild]
  rcases clientContext_spec c hkeeps hvalid with hold | hnew
  · obtain ⟨r, hctx, -, hlt, hderef, -⟩ := hold
    rw [hctx]
    constructor
    · rw [hown, Option.map_some, hderef]
    · intro r' hr'
      rw [← Option.some.inj hr']
      exact hlt
    · exact ⟨fun _ => hquiet, fun _ => hkeeps⟩
    · exact fun _ => Keeps.refl s
  · obtain ⟨hctx, hempty⟩ := hnew
    have hall : Keeps s (alloc (∅ : Params ν) s).2 := keeps_alloc ∅ s
    rw [hctx]
    constructor
    · rw [hown, Option.map_some, hempty, deref_alloc]
    · intro r hr
      rw [← Option.some.inj hr]
      simp
    · exact ⟨fun _ => hquiet, fun _ => hkeeps.trans hall⟩
    · exact fun _ => hall

/-- **One client**, created when the dicts of `s₀` are as they were: its resolver gets the parameters of its own config and
service, in a dict that exists; the dicts of `s₀` stay as they were iff the creation is `Quiet`, and then all dicts do. -/
theorem resolver_spec {s₀ s : Objects (Params ν)} (hkeeps : Keeps s₀ s) (c : Creation σ) (hvalid : Valid s₀ c) :
    Resolved A s₀ s c (buildEndpointResolver A c s).1 (buildEndpointResolver A c s).2 := by
  by_cases hruleset : c.hasRuleset = true
  · by_cases hs3 : A.isS3Service c.serviceNameRaw = true
    · exact folded_spec A hkeeps c hvalid hruleset hs3
    · exact unfolded_spec A hkeeps c hvalid hruleset hs3
  · have hbuild : buildEndpointResolver A c s = (none, s) := by simp [buildEndpointResolver, hruleset]
    have hquiet : Quiet A s c := fun h => absurd h hruleset
    rw [hbuild]
    constructor
    · simp [own, hruleset]
    · intro r hr
      cases hr
    · exact ⟨fun _ => hquiet, fun _ => hkeeps⟩
    · exact fun _ => Keeps.refl s

/-! ## Many clients -/

omit [DecidableEq ν] in
theorem callersParams_of_keeps {s₀ s : Objects (Params ν)} (h : Keeps s₀ s) {c : Creation σ} (hvalid : Valid s₀ c) :
    callersParams c s = callersParams c s₀ := by
  unfold callersParams
  split
  · rename_i r hr
    obtain ⟨cfg, hcfg, hparams⟩ := Option.bind_eq_some_iff.1 hr
    exact deref_of_keeps h (hvalid cfg r hcfg hparams)
  · rfl

omit [DecidableEq ν] in
theorem quiet_of_keeps {s₀ s : Objects (Params ν)} (h : Keeps s₀ s) {c : Creation σ} (hvalid : Valid s₀ c) :
    Quiet A s c ↔ Quiet A s₀ c := by
  unfold Quiet
  rw [callersParams_of_keeps h hvalid]

omit [DecidableEq ν] in
theorem own_of_keeps {s₀ s : Objects (Params ν)} (h : Keeps s₀ s) {c : Creation σ} (hvalid : Valid s₀ c) :
    own A s c = own A s₀ c := by
  unfold own
  rw [callersParams_of_keeps h hvalid]

/-- the dicts of the callers are as they were, and every resolver holds its client's own parameters -/
structure Inv (s₀ : Objects (Params ν)) (cs : List (Creation σ)) (st : St ν) : Prop where
  keeps : Keeps s₀ st.objects
  refs : ∀ r, some r ∈ st.given → r < st.objects.length
  own : parameters st = cs.map (own A s₀)

omit [DecidableEq ν] in
/-- resolvers keep what they hold while no dict changes -/
theorem parameters_of_keeps {st : St ν} {s' : Objects (Params ν)} (hrefs : ∀ r, some r ∈ st.given → r < st.objects.length)
    (h : Keeps st.objects s') :
    (st.given.map fun context => context.map (deref · s')) = parameters st := by
  apply List.map_congr_left
  intro context hmem
  cases context with
  | none => rfl
  | some r =>
    rw [Option.map_some, Option.map_some, deref_of_keeps h (hrefs r hmem)]

theorem create_inv {s₀ : Objects (Params ν)} {cs : List (Creation σ)} {st : St ν} (h : Inv A s₀ cs st) (c : Creation σ)
    (hvalid : Valid s₀ c) (hquiet : Quiet A s₀ c) : Inv A s₀ (cs ++ [c]) (create A st c) := by
  obtain ⟨hown, hlt, hkeeps₀, hkeeps⟩ := resolver_spec A h.keeps c hvalid
  have hq := (quiet_of_keeps A h.keeps hvalid).2 hquiet
  constructor
  · exact hkeeps₀.2 hq
  · intro r hr
    rcases List.mem_append.1 hr with hold | hnew
    · exact (h.refs r hold).trans_le (hkeeps hq).length_le
    · exact hlt r (List.mem_singleton.1 hnew).symm
  · rw [List.map_append, ← h.own, ← parameters_of_keeps h.refs (hkeeps hq)]
    rw [own_of_keeps A h.keeps hvalid] at hown
    simp [parameters, create, hown]

/-- **Clients and their configs.** For every sequence of client creations over dicts that the callers share: in every state
reached the callers' dicts are as they were and every resolver holds the parameters of its own client's config and service,
iff every creation is `Quiet`. -/
theorem clients_independent_iff (s₀ : Objects (Params ν)) (cs : List (Creation σ)) (hvalid : ∀ c ∈ cs, Valid s₀ c) :
    (∀ n, Keeps s₀ (run (create A) ⟨s₀, []⟩ (cs.take n)).objects ∧
        parameters (run (create A) ⟨s₀, []⟩ (cs.take n)) = (cs.take n).map (own A s₀)) ↔
      ∀ c ∈ cs, Quiet A s₀ c := by
  refine forall_take_iff_forall (I := Inv A s₀)
    (P := fun done st => Keeps s₀ st.objects ∧ parameters st = done.map (own A s₀)) ?_ ?_ ?_ ?_
  · refine ⟨Keeps.refl s₀, ?_, rfl⟩
    intro r hr
    cases hr
  · intro done st c hc hinv hquiet
    exact create_inv A hinv c (hvalid c hc) hquiet
  · intro done st hinv
    exact ⟨hinv.keeps, hinv.own⟩
  · intro done st c hc hinv hnot hP
    have hquiet := (resolver_spec A hinv.keeps c (hvalid c hc)).keeps_iff.1 hP.1
    exact hnot ((quiet_of_keeps A hinv.keeps (hvalid c hc)).1 hquiet)

/-! ## An instance -/

/-- configs with only an `s3` part -/
def s3Only : ArgsCreator (Option (Params ℕ)) ℕ where
  computeS3Config cfg := cfg.bind ClientConfig.other
  s3DisableExpressSessionAuth _ := none
  isS3Service name := name = "s3" || name = "s3-control"

/-- `{'UseArnRegion': 1}` -/
def shared : Params ℕ := Finmap.singleton "UseArnRegion" 1

/-- a client for s3 with `s3={'Accelerate': 1}` and then one for another service, with the same dict in their configs -/
def twoClients : List (Creation (Option (Params ℕ))) :=
  [⟨true, some ⟨some 0, some (Finmap.singleton "Accelerate" 1)⟩, "s3"⟩, ⟨true, some ⟨some 0, none⟩, "sqs"⟩]

theorem clients_independent_sqs :
    parameters (run (create s3Only) ⟨[shared], []⟩ [⟨true, some ⟨some 0, none⟩, "sqs"⟩]) = [some shared] := by
  refine ((clients_independent_iff s3Only [shared] [⟨true, some ⟨some 0, none⟩, "sqs"⟩] ?_).2 ?_ 1).2
  · intro c hc cfg r hcfg hr
    rw [List.mem_singleton.1 hc] at hcfg
    cases hcfg
    cases hr
    decide
  · intro c hc hruleset hs3
    rw [List.mem_singleton.1 hc] at hs3
    exact absurd hs3 (by decide)

/-- **A setting surfaces.** The second client's resolver gets the s3 setting of the first, which is now in the caller's
dict. -/
theorem setting_surfaces :
    ¬ ∀ (s₀ : Objects (Params ℕ)) (cs : List (Creation (Option (Params ℕ)))), (∀ c ∈ cs, Valid s₀ c) →
        ∀ n, Keeps s₀ (run (create s3Only) ⟨s₀, []⟩ (cs.take n)).objects ∧
          parameters (run (create s3Only) ⟨s₀, []⟩ (cs.take n)) = (cs.take n).map (own s3Only s₀) := by
  intro hall
  have hvalid : ∀ c ∈ twoClients, Valid [shared] c := by
    intro c hc cfg r hcfg hr
    simp only [twoClients, List.mem_cons, List.not_mem_nil, or_false] at hc
    rcases hc with rfl | rfl
    all_goals
      cases hcfg
      cases hr
      decide
  have hparams := (hall [shared] twoClients hvalid 2).2
  have hsecond := congrArg (fun l => (l[1]?.join).map fun d => d.lookup "Accelerate") hparams
  revert hsecond
  decide

end AioBotocore.ClientContext

/-
Which configuration a client gets: `AioSession._create_client` merges the session's default client config with the config
of the call by the `merge` of the default's class. `AioConfig` knows every option; botocore's `Config` does not know the
three of `AioConfig`.

`ConfigClass` is botocore's `Config`: what it accepts, and that its `merge` is its constructor on the options of the one
overridden by those of the other.

- `reads_explicit`: what client creation reads of a config is decided by its explicit options.
- `effective_config_iff`: for options that are valid together, no error is raised and no option is lost iff the default is
  not a plain config met by an explicit option of `AioConfig`.
- `plain_default_fails`: such a pair.
-/
import AioBotocore.Config.AioConfig

namespace AioBotocore.Config

open Heap

/-! ## Model -/

structure ConfigClass (ω ε : Type) extends Botocore ω ε where
  merge : Dict ω → Dict ω → Except ε (Dict ω)
  merge_error : ∀ {d d' e}, check (override (fun k => d.lookup k) fun k => d'.lookup k) = some e → merge d d' = .error e
  merge_ok : ∀ {d d'}, check (override (fun k => d.lookup k) fun k => d'.lookup k) = none →
    ∃ m, merge d d' = .ok m ∧ (fun k => m.lookup k) = override (fun k => d.lookup k) fun k => d'.lookup k
  /-- an unexpected keyword argument -/
  unknown : ∀ {o k}, k ∈ aioNames → o k ≠ none → check o ≠ none

/-- a plain config by the dict of its explicit options, or an `AioConfig` -/
inductive ClientConfig (ω : Type) where
  | plain (userProvidedOptions : Ref)
  | aio (config : AioConfig ω)
deriving DecidableEq, Repr

variable {ω ε : Type} (T : Types ω) (B : ConfigClass ω ε)

def ClientConfig.userProvidedOptions : ClientConfig ω → Ref
  | .plain r => r
  | .aio a => a.userProvidedOptions

/-- `default_client_config.merge(config)`, by the class of the default -/
def mergeConfigs (default config : ClientConfig ω) (s : Objects (Dict ω)) :
    Except (Err ε) (ClientConfig ω) × Objects (Dict ω) :=
  match default with
  | .plain r =>
    match B.merge (deref r s) (deref config.userProvidedOptions s) with
    | .ok opts => (.ok (.plain (alloc opts s).1), (alloc opts s).2)
    | .error e => (.error (.base e), s)
  | .aio a =>
    match mergeOptions T B.toBotocore a.userProvidedOptions config.userProvidedOptions s with
    | (.ok m, s') => (.ok (.aio m), s')
    | (.error e, s') => (.error e, s')

/-- the beginning of `_create_client` -/
def effectiveConfig (default config : Option (ClientConfig ω)) (s : Objects (Dict ω)) :
    Except (Err ε) (Option (ClientConfig ω)) × Objects (Dict ω) :=
  match config, default with
  | some c, some d =>
    match mergeConfigs T B d c s with
    | (.ok m, s') => (.ok (some m), s')
    | (.error e, s') => (.error e, s')
  | none, some d => (.ok (some d), s)
  | config, none => (.ok config, s)

/-- the explicit options of a config, if there is one -/
def explicit (s : Objects (Dict ω)) (config : Option (ClientConfig ω)) : String → Option (Val ω) :=
  match config with
  | some c => entries s c.userProvidedOptions
  | none => fun _ => none

/-- `connector_args` of the endpoint: those of an `AioConfig`, else a new dict with the default -/
def connectorArgsRead (s : Objects (Dict ω)) : Option (ClientConfig ω) → Dict ω
  | some (.aio a) => deref a.connectorArgs s
  | _ => withKeepalive ∅

def httpSessionClsRead : Option (ClientConfig ω) → Val ω
  | some (.aio a) => a.httpSessionCls
  | _ => defaultHttpSessionCls T

def warmUpLoaderCachesRead : Option (ClientConfig ω) → Val ω
  | some (.aio a) => a.warmUpLoaderCaches
  | _ => .bool false

/-! ## Configs in use -/

/-- a config as its constructor made it -/
def Made (s : Objects (Dict ω)) : ClientConfig ω → Prop
  | .plain r => r < s.length ∧ B.check (entries s r) = none
  | .aio a => Built T B.toBotocore s a

/-- client creation reads what these explicit options say, and the defaults for the others -/
structure Reads (s : Objects (Dict ω)) (config : Option (ClientConfig ω)) (o : String → Option (Val ω)) : Prop where
  explicit : ∀ k, explicit s config k = o k
  connectorArgs : connectorArgsRead s config = effectiveConnectorArgs s (o "connector_args")
  httpSessionCls : httpSessionClsRead T config = (o "http_session_cls").getD (defaultHttpSessionCls T)
  warmUpLoaderCaches : warmUpLoaderCachesRead config = (o "warm_up_loader_caches").getD (.bool false)

theorem plain_unknown {s : Objects (Dict ω)} {r : Ref} (h : B.check (entries s r) = none) {k : String}
    (hk : k ∈ aioNames) : entries s r k = none := by
  by_contra hne
  exact B.unknown hk hne h

theorem Made.valid {s : Objects (Dict ω)} {c : ClientConfig ω} (h : Made T B s c) :
    Valid s (entries s c.userProvidedOptions) := by
  cases c with
  | plain r =>
    intro d hd
    rw [ClientConfig.userProvidedOptions, plain_unknown B h.2 (by decide)] at hd
    cases hd
  | aio a => exact Built.valid h

theorem Made.options_lt {s : Objects (Dict ω)} {c : ClientConfig ω} (h : Made T B s c) :
    c.userProvidedOptions < s.length := by
  cases c with
  | plain r => exact h.1
  | aio a => exact Built.options_lt h

/-- **What is read of a config** is decided by its explicit options. -/
theorem reads_explicit {s : Objects (Dict ω)} {config : Option (ClientConfig ω)}
    (h : ∀ c, config = some c → Made T B s c) : Reads T s config (explicit s config) := by
  cases config with
  | none => exact ⟨fun _ => rfl, rfl, rfl, rfl⟩
  | some c =>
    have hmade := h c rfl
    cases c with
    | plain r =>
      have hargs : explicit s (some (.plain r)) "connector_args" = none := plain_unknown B hmade.2 (by decide)
      have hcls : explicit s (some (.plain r)) "http_session_cls" = none := plain_unknown B hmade.2 (by decide)
      have hwarm : explicit s (some (.plain r)) "warm_up_loader_caches" = none := plain_unknown B hmade.2 (by decide)
      refine ⟨fun _ => rfl, ?_, ?_, ?_⟩
      · rw [hargs]; rfl
      · rw [hcls]; rfl
      · rw [hwarm]; rfl
    | aio a => exact ⟨fun _ => rfl, hmade.args, hmade.cls, hmade.warmUp⟩

/-- the default is a plain config and the call's config sets an option that only `AioConfig` knows -/
def PlainMeetsAio (s : Objects (Dict ω)) (default config : Option (ClientConfig ω)) : Prop :=
  (∃ r, default = some (.plain r)) ∧ ∃ k ∈ aioNames, explicit s config k ≠ none

theorem plain_merge_ok {s : Objects (Dict ω)} {r : Ref} {c : ClientConfig ω} (hr : B.check (entries s r) = none)
    (hnot : ∀ k ∈ aioNames, entries s c.userProvidedOptions k = none)
    (hvalid : refusal T B.toBotocore (override (entries s r) (entries s c.userProvidedOptions)) s = none) :
    ∃ m s', mergeConfigs T B (.plain r) c s = (.ok m, s') ∧ Keeps s s' ∧ Made T B s' m ∧
      explicit s' (some m) = override (entries s r) (entries s c.userProvidedOptions) := by
  have hbase : B.check (override (entries s r) (entries s c.userProvidedOptions)) = none := by
    have hsame : (fun k => if k ∈ aioNames then none
        else override (entries s r) (entries s c.userProvidedOptions) k) =
          override (entries s r) (entries s c.userProvidedOptions) := by
      funext k
      split
      · rename_i hk
        simp [override, hnot k hk, plain_unknown B hr hk]
      · rfl
    unfold refusal at hvalid
    rw [hsame] at hvalid
    cases hcheck : B.check (override (entries s r) (entries s c.userProvidedOptions)) with
    | none => rfl
    | some e => simp [hcheck] at hvalid
  obtain ⟨opts, hopts, hlookup⟩ := B.merge_ok hbase
  have hentries : entries (alloc opts s).2 (alloc opts s).1 =
      override (entries s r) (entries s c.userProvidedOptions) := by
    unfold entries
    rw [deref_alloc]
    exact hlookup
  refine ⟨.plain (alloc opts s).1, (alloc opts s).2, ?_, keeps_alloc opts s, ⟨by simp, ?_⟩, hentries⟩
  · rw [mergeConfigs, hopts]
  · rw [hentries]
    exact hbase

theorem aio_merge_ok {s : Objects (Dict ω)} {a : AioConfig ω} {c : ClientConfig ω} (ha : Built T B.toBotocore s a)
    (hc : Made T B s c)
    (hvalid : refusal T B.toBotocore (override (options s a) (entries s c.userProvidedOptions)) s = none) :
    ∃ m s', mergeConfigs T B (.aio a) c s = (.ok m, s') ∧ Keeps s s' ∧ Made T B s' m ∧
      explicit s' (some m) = override (options s a) (entries s c.userProvidedOptions) := by
  obtain ⟨hkeeps, -, hok⟩ := mergeOptions_spec T B.toBotocore hc.options_lt ha.valid hc.valid
  obtain ⟨m, hm, hbuilt, hopts⟩ := hok hvalid
  refine ⟨.aio m, _, ?_, hkeeps, hbuilt, hopts⟩
  have hpair : mergeOptions T B.toBotocore a.userProvidedOptions c.userProvidedOptions s =
      (.ok m, (mergeOptions T B.toBotocore a.userProvidedOptions c.userProvidedOptions s).2) := Prod.ext hm rfl
  rw [mergeConfigs, hpair]

theorem plain_merge_error {s : Objects (Dict ω)} {r : Ref} {c : ClientConfig ω}
    (h : ∃ k ∈ aioNames, entries s c.userProvidedOptions k ≠ none) :
    ∃ e, mergeConfigs T B (.plain r) c s = (.error e, s) := by
  obtain ⟨k, hk, hne⟩ := h
  have hunion : override (entries s r) (entries s c.userProvidedOptions) k ≠ none := by
    obtain ⟨v, hv⟩ := Option.ne_none_iff_exists'.1 hne
    simp [override, hv]
  obtain ⟨e, he⟩ := Option.ne_none_iff_exists'.1 (B.unknown hk hunion)
  refine ⟨.base e, ?_⟩
  rw [mergeConfigs, B.merge_error he]

/-- a merge that succeeds leaves the union, and that is what is read -/
theorem effective_of_merge {s : Objects (Dict ω)} {d c : ClientConfig ω}
    (h : ∃ m s', mergeConfigs T B d c s = (.ok m, s') ∧ Keeps s s' ∧ Made T B s' m ∧
      explicit s' (some m) = override (explicit s (some d)) (explicit s (some c))) :
    ∃ m s', effectiveConfig T B (some d) (some c) s = (.ok m, s') ∧ Keeps s s' ∧
      Reads T s' m (override (explicit s (some d)) (explicit s (some c))) := by
  obtain ⟨m, s', hm, hkeeps, hmade, hopts⟩ := h
  refine ⟨some m, s', by simp [effectiveConfig, hm], hkeeps, ?_⟩
  rw [← hopts]
  apply reads_explicit T B
  intro c' hc'
  cases hc'
  exact hmade

/-- **The configuration of a client.** For every default and every config of the call, each absent, plain or an
`AioConfig`, with options that are valid together: creation raises nothing and reads every option as the call's config
sets it, else as the default sets it, else by its default, iff no plain default meets an explicit option of
`AioConfig`. -/
theorem effective_config_iff (s : Objects (Dict ω)) (default config : Option (ClientConfig ω))
    (hdefault : ∀ d, default = some d → Made T B s d) (hconfig : ∀ c, config = some c → Made T B s c)
    (hvalid : refusal T B.toBotocore (override (explicit s default) (explicit s config)) s = none) :
    (∃ m s', effectiveConfig T B default config s = (.ok m, s') ∧ Keeps s s' ∧
        Reads T s' m (override (explicit s default) (explicit s config))) ↔
      ¬ PlainMeetsAio s default config := by
  cases default with
  | none =>
    have hnot : ¬ PlainMeetsAio s none config := by
      intro h
      obtain ⟨⟨r, hr⟩, -⟩ := h
      cases hr
    have hopts : override (explicit s none) (explicit s config) = explicit s config := by
      funext k
      simp [override, explicit]
    refine ⟨fun _ => hnot, fun _ => ⟨config, s, ?_, Keeps.refl s, ?_⟩⟩
    · cases config <;> rfl
    · rw [hopts]
      exact reads_explicit T B hconfig
  | some d =>
    cases config with
    | none =>
      have hnot : ¬ PlainMeetsAio s (some d) none := by
        intro h
        obtain ⟨-, k, -, hne⟩ := h
        exact hne rfl
      have hopts : override (explicit s (some d)) (explicit s none) = explicit s (some d) := by
        funext k
        simp [override, explicit]
      refine ⟨fun _ => hnot, fun _ => ⟨some d, s, rfl, Keeps.refl s, ?_⟩⟩
      rw [hopts]
      exact reads_explicit T B hdefault
    | some c =>
      have hd := hdefault d rfl
      have hc := hconfig c rfl
      cases d with
      | aio a =>
        have hnot : ¬ PlainMeetsAio s (some (.aio a)) (some c) := by
          intro h
          obtain ⟨⟨r, hr⟩, -⟩ := h
          cases hr
        exact ⟨fun _ => hnot, fun _ => effective_of_merge T B (aio_merge_ok T B hd hc hvalid)⟩
      | plain r =>
        constructor
        · intro hok hmeets
          obtain ⟨m, s', hm, -⟩ := hok
          obtain ⟨e, he⟩ := plain_merge_error T B (s := s) (r := r) (c := c) hmeets.2
          simp [effectiveConfig, he] at hm
        · intro hnot
          apply effective_of_merge T B
          apply plain_merge_ok T B hd.2 _ hvalid
          intro k hk
          by_contra hne
          exact hnot ⟨⟨r, rfl⟩, k, hk, hne⟩

/-! ## An instance -/

theorem knowsRegion_unknown {o : String → Option (Val Bool)} {k : String} (hk : k ∈ aioNames) (ho : o k ≠ none) :
    knowsRegion.check o ≠ none := by
  have hany : (aioNames.any fun k => (o k).isSome) = true := by
    rw [List.any_eq_true]
    exact ⟨k, hk, Option.isSome_iff_ne_none.2 ho⟩
  simp only [knowsRegion, hany, if_true]
  exact Option.some_ne_none _

/-- `Config` with `knowsRegion` as its check -/
def regionConfig : ConfigClass Bool String where
  toBotocore := knowsRegion
  merge d d' :=
    match knowsRegion.check (override (fun k => d.lookup k) fun k => d'.lookup k) with
    | some e => .error e
    | none => .ok (d' ∪ d)
  merge_error := by
    intro d d' e h
    simp only [h]
  merge_ok := by
    intro d d' h
    refine ⟨d' ∪ d, by simp only [h], ?_⟩
    funext k
    exact lookup_union d' d k
  unknown := knowsRegion_unknown

/-- a dict with `max_pool_connections`, the options and the `connector_args` of a config for httpx -/
def dicts : Objects (Dict Bool) :=
  [AList.singleton "max_pool_connections" (.int 5), AList.singleton "http_session_cls" (.obj true),
    AList.singleton "keepalive_timeout" (.int 12)]

def httpxConfig : AioConfig Bool := ⟨1, 2, .obj true, .bool false⟩

theorem httpxConfig_made : Built twoBackends regionConfig.toBotocore dicts httpxConfig := by
  refine ⟨by decide, by decide, ?_, by decide, rfl, by decide, by decide⟩
  intro r hr
  cases hr

theorem effective_config_httpx :
    ∃ m s', effectiveConfig twoBackends regionConfig (some (.aio httpxConfig)) (some (.plain 0)) dicts = (.ok m, s') ∧
      Keeps dicts s' ∧
      Reads twoBackends s' m (override (explicit dicts (some (.aio httpxConfig))) (explicit dicts (some (.plain 0)))) := by
  refine (effective_config_iff twoBackends regionConfig dicts (some (.aio httpxConfig)) (some (.plain 0)) ?_ ?_
    (by decide)).2 ?_
  · intro d hd
    cases hd
    exact httpxConfig_made
  · intro c hc
    cases hc
    exact ⟨by decide, by decide⟩
  · intro hmeets
    obtain ⟨⟨r, hr⟩, -⟩ := hmeets
    cases hr

/-- **A plain default refuses the options of `AioConfig`**, although the two configs are valid together. -/
theorem plain_default_fails :
    ¬ ∀ (s : Objects (Dict Bool)) (default config : Option (ClientConfig Bool)),
        (∀ d, default = some d → Made twoBackends regionConfig s d) →
          (∀ c, config = some c → Made twoBackends regionConfig s c) →
          refusal twoBackends regionConfig.toBotocore (override (explicit s default) (explicit s config)) s = none →
          ∃ m s', effectiveConfig twoBackends regionConfig default config s = (.ok m, s') ∧ Keeps s s' ∧
            Reads twoBackends s' m (override (explicit s default) (explicit s config)) := by
  intro hall
  have hok := hall dicts (some (.plain 0)) (some (.aio httpxConfig)) ?_ ?_ (by decide)
  · obtain ⟨m, s', hm, -⟩ := hok
    have herr : (effectiveConfig twoBackends regionConfig (some (.plain 0)) (some (.aio httpxConfig)) dicts).1 =
        .error (.base "unexpected keyword argument") := rfl
    rw [hm] at herr
    cases herr
  · intro d hd
    cases hd
    exact ⟨by decide, by decide⟩
  · intro c hc
    cases hc
    exact httpxConfig_made

end AioBotocore.Config

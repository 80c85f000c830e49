/-
Model of `AioConfig` (`config.py`). Its explicit options are a dict, and `connector_args` is a dict that belongs to the
caller: dicts are objects behind references (`Heap`), so that a change to an operand's dict would show.

`Types` answers the type tests on objects of other libraries; `Botocore` is what botocore's `Config` accepts.

- `init_spec`: the constructor makes new objects only; what it raises is `refusal` of the explicit options.
- `merge_spec`: a merge is the constructor on the options of the one overridden by those of the other.
- `merge_laws`: in every program that makes dicts, configs and merges: right bias, the effective values, associativity,
  `AioConfig()` as neutral element, and nothing that existed is changed.
-/
import Mathlib.Data.List.AList
import AioBotocore.Async.Run
import AioBotocore.Heap

namespace AioBotocore.Config

open Heap Async

/-! ## Values -/

/-- what an option can be; `ω` are the objects of other libraries -/
inductive Val (ω : Type) where
  | none
  | bool (b : Bool)
  | int (n : ℤ)
  | dict (r : Ref)
  | obj (x : ω)
deriving DecidableEq, Repr

abbrev Dict (ω : Type) : Type := AList fun _ : String => Val ω

/-- `isinstance`, `issubclass` and truth of objects of other libraries -/
structure Types (ω : Type) where
  isFloat : ω → Bool
  isSSLContext : ω → Bool
  isAbstractResolver : ω → Bool
  isCallable : ω → Bool
  isHttpxSessionCls : ω → Bool
  truthy : ω → Bool
  aiohttpSession : ω

/-- what botocore's `Config` raises for the options it is given, which it takes by name -/
structure Botocore (ω ε : Type) where
  check : (String → Option (Val ω)) → Option ε

inductive Err (ε : Type) where
  | base (e : ε)
  | attributeError
  | paramValidation (report : String)
deriving DecidableEq, Repr

variable {ω ε : Type} (T : Types ω) (B : Botocore ω ε)

def isNone : Val ω → Bool
  | .none => true
  | _ => false

def isBool : Val ω → Bool
  | .bool _ => true
  | _ => false

/-- a `bool` is an `int` -/
def isInt : Val ω → Bool
  | .bool _ | .int _ => true
  | _ => false

def isFloat : Val ω → Bool
  | .obj x => T.isFloat x
  | _ => false

def isObj (test : ω → Bool) : Val ω → Bool
  | .obj x => test x
  | _ => false

/-! ## Model -/

structure AioConfig (ω : Type) where
  userProvidedOptions : Ref
  connectorArgs : Ref
  httpSessionCls : Val ω
  warmUpLoaderCaches : Val ω
deriving DecidableEq, Repr

def defaultKeepaliveTimeout : ℤ := 12

def defaultHttpSessionCls : Val ω := .obj T.aiohttpSession

def timeoutArgs : List String := ["keepalive_timeout", "write_timeout", "pool_timeout"]

/-- one round of the loop of `_validate_connector_args` -/
def checkConnectorArg (httpSessionCls : Val ω) (k : String) (v : Val ω) : Option String :=
  let httpx := isObj T.isHttpxSessionCls httpSessionCls
  if k = "use_dns_cache" then
    if httpx then some "Httpx does not support dns caching. https://github.com/encode/httpx/discussions/2211"
    else if isBool v then none
    else some (k ++ " value must be a boolean")
  else if k = "ttl_dns_cache" then
    if ¬ isNone v ∧ ¬ isInt v then some (k ++ " value must be an int or None") else none
  else if k ∈ timeoutArgs then
    if ¬ isNone v ∧ ¬ (isFloat T v ∨ isInt v) then some (k ++ " value must be a float/int or None") else none
  else if k = "force_close" then
    if httpx then some ("Httpx backend does not currently support " ++ k ++ ".")
    else if isBool v then none
    else some (k ++ " value must be a boolean")
  else if k = "ssl_context" then
    if isObj T.isSSLContext v then none else some (k ++ " must be an SSLContext instance")
  else if k = "resolver" then
    if httpx then some ("Httpx backend does not support " ++ k ++ ".")
    else if isObj T.isAbstractResolver v then none
    else some (k ++ " must be an instance of a AbstractResolver")
  else if k = "socket_factory" then
    if httpx then some ("Httpx backend does not support " ++ k ++ ".")
    else if ¬ isNone v ∧ ¬ isObj T.isCallable v then some (k ++ " must be a callable")
    else none
  else some ("invalid connector_arg:" ++ k)

/-- `_validate_connector_args` -/
def validateConnectorArgs (httpSessionCls : Val ω) : List (Sigma fun _ : String => Val ω) → Option String
  | [] => none
  | ⟨k, v⟩ :: l =>
    match checkConnectorArg T httpSessionCls k v with
    | some report => some report
    | none => validateConnectorArgs httpSessionCls l

/-- `copy.copy(connector_args) if connector_args else {}`; what is true but no dict has no `items` later -/
def copyConnectorArgs (s : Objects (Dict ω)) : Val ω → Option (Dict ω)
  | .dict r => some (deref r s)
  | .none => some ∅
  | .bool b => if b then none else some ∅
  | .int n => if n = 0 then some ∅ else none
  | .obj x => if T.truthy x then none else some ∅

/-- the option `name` alone, if it is given -/
def given (name : String) (kwargs : Dict ω) : Dict ω :=
  match kwargs.lookup name with
  | some v => AList.singleton name v
  | none => ∅

/-- `aio_options` -/
def aioOptions (kwargs : Dict ω) : Dict ω :=
  given "warm_up_loader_caches" kwargs ∪ given "http_session_cls" kwargs ∪ given "connector_args" kwargs

/-- `**kwargs` of the constructor: what is none of its named parameters -/
def baseOptions (kwargs : Dict ω) : Dict ω :=
  ((kwargs.erase "connector_args").erase "http_session_cls").erase "warm_up_loader_caches"

/-- botocore's constructor records the options it is given in a new dict; `aio_options` are added to it. -/
def record (kwargs : Dict ω) (s : Objects (Dict ω)) : Ref × Objects (Dict ω) :=
  let (options, s) := alloc (baseOptions kwargs) s
  (options, write options (aioOptions kwargs ∪ ·) s)

def fillKeepalive (selfArgs : Ref) (s : Objects (Dict ω)) : Objects (Dict ω) :=
  if "keepalive_timeout" ∈ deref selfArgs s then s
  else write selfArgs (AList.insert "keepalive_timeout" (.int defaultKeepaliveTimeout)) s

/-- `AioConfig(**kwargs)` -/
def init (kwargs : Dict ω) (s : Objects (Dict ω)) : Except (Err ε) (AioConfig ω) × Objects (Dict ω) :=
  let connectorArgs := (kwargs.lookup "connector_args").getD .none
  let httpSessionCls := (kwargs.lookup "http_session_cls").getD (defaultHttpSessionCls T)
  let warmUpLoaderCaches := (kwargs.lookup "warm_up_loader_caches").getD (.bool false)
  match B.check (fun k => (baseOptions kwargs).lookup k) with
  | some e => (.error (.base e), s)
  | none =>
    let (options, s) := record kwargs s
    match copyConnectorArgs T s connectorArgs with
    | none => (.error .attributeError, s)
    | some args =>
      let (selfArgs, s) := alloc args s
      match validateConnectorArgs T httpSessionCls args.entries with
      | some report => (.error (.paramValidation report), s)
      | none => (.ok ⟨options, selfArgs, httpSessionCls, warmUpLoaderCaches⟩, fillKeepalive selfArgs s)

/-- the body of `merge`, which reads the explicit options of the two configs -/
def mergeOptions (self other : Ref) (s : Objects (Dict ω)) : Except (Err ε) (AioConfig ω) × Objects (Dict ω) :=
  let (configOptions, s) := alloc (deref self s) s
  let s := write configOptions (deref other s ∪ ·) s
  init T B (deref configOptions s) s

/-- `merge` -/
def merge (self other : AioConfig ω) (s : Objects (Dict ω)) : Except (Err ε) (AioConfig ω) × Objects (Dict ω) :=
  mergeOptions T B self.userProvidedOptions other.userProvidedOptions s

/-! ## The constructor -/

/-- the explicit options of a config -/
def options (s : Objects (Dict ω)) (a : AioConfig ω) : String → Option (Val ω) :=
  fun k => (deref a.userProvidedOptions s).lookup k

def aioNames : List String := ["connector_args", "http_session_cls", "warm_up_loader_caches"]

theorem lookup_baseOptions (kwargs : Dict ω) (k : String) :
    (baseOptions kwargs).lookup k = if k ∈ aioNames then none else kwargs.lookup k := by
  unfold baseOptions aioNames
  by_cases h₁ : k = "connector_args"
  · subst h₁
    rw [AList.lookup_erase_ne (by decide), AList.lookup_erase_ne (by decide), AList.lookup_erase]
    simp
  by_cases h₂ : k = "http_session_cls"
  · subst h₂
    rw [AList.lookup_erase_ne (by decide), AList.lookup_erase]
    simp
  by_cases h₃ : k = "warm_up_loader_caches"
  · subst h₃
    rw [AList.lookup_erase]
    simp
  · rw [AList.lookup_erase_ne h₃, AList.lookup_erase_ne h₂, AList.lookup_erase_ne h₁]
    simp [h₁, h₂, h₃]

theorem lookup_union (d e : Dict ω) (k : String) : (d ∪ e).lookup k = (d.lookup k).or (e.lookup k) := by
  by_cases h : k ∈ d
  · rw [AList.lookup_union_left h]
    obtain ⟨v, hv⟩ := Option.isSome_iff_exists.1 (AList.lookup_isSome.2 h)
    rw [hv, Option.some_or]
  · rw [AList.lookup_union_right h, AList.lookup_eq_none.2 h, Option.none_or]

theorem lookup_given (name : String) (kwargs : Dict ω) (k : String) :
    (given name kwargs).lookup k = if k = name then kwargs.lookup k else none := by
  unfold given
  by_cases hk : k = name
  · subst hk
    rw [if_pos rfl]
    split
    · rename_i v hv
      rw [hv]
      exact AList.lookup_insert ∅
    · rename_i hv
      rw [hv]
      rfl
  · rw [if_neg hk]
    split
    · rw [← AList.insert_empty, AList.lookup_insert_ne hk, AList.lookup_empty]
    · rfl

/-- the recorded options are those given -/
theorem lookup_recorded (kwargs : Dict ω) (k : String) :
    (aioOptions kwargs ∪ baseOptions kwargs).lookup k = kwargs.lookup k := by
  rw [lookup_union, lookup_baseOptions, aioOptions, lookup_union, lookup_union, lookup_given, lookup_given, lookup_given]
  by_cases h₁ : k = "connector_args"
  · simp [h₁, aioNames]
  by_cases h₂ : k = "http_session_cls"
  · simp [h₂, aioNames]
  by_cases h₃ : k = "warm_up_loader_caches"
  · simp [h₃, aioNames]
  · simp [h₁, h₂, h₃, aioNames]

/-- what the constructor raises for these explicit options -/
def refusal (o : String → Option (Val ω)) (s : Objects (Dict ω)) : Option (Err ε) :=
  match B.check (fun k => if k ∈ aioNames then none else o k) with
  | some e => some (.base e)
  | none =>
    match copyConnectorArgs T s ((o "connector_args").getD .none) with
    | none => some .attributeError
    | some args =>
      (validateConnectorArgs T ((o "http_session_cls").getD (defaultHttpSessionCls T)) args.entries).map
        .paramValidation

def withKeepalive (args : Dict ω) : Dict ω :=
  if "keepalive_timeout" ∈ args then args
  else args.insert "keepalive_timeout" (.int defaultKeepaliveTimeout)

/-- the effective `connector_args` for an explicit or absent option -/
def effectiveConnectorArgs (s : Objects (Dict ω)) : Option (Val ω) → Dict ω
  | some (.dict r) => withKeepalive (deref r s)
  | _ => withKeepalive ∅

/-- the dict given as `connector_args` exists -/
def Valid (s : Objects (Dict ω)) (o : String → Option (Val ω)) : Prop :=
  ∀ r, o "connector_args" = some (.dict r) → r < s.length

/-- a config as the constructor leaves it, with its dicts as they are now -/
structure Built (s : Objects (Dict ω)) (a : AioConfig ω) : Prop where
  options_lt : a.userProvidedOptions < s.length
  args_lt : a.connectorArgs < s.length
  valid : Valid s (options s a)
  accepted : refusal T B (options s a) s = none
  args : deref a.connectorArgs s = effectiveConnectorArgs s (options s a "connector_args")
  cls : a.httpSessionCls = (options s a "http_session_cls").getD (defaultHttpSessionCls T)
  warmUp : a.warmUpLoaderCaches = (options s a "warm_up_loader_caches").getD (.bool false)

theorem options_of_keeps {s s' : Objects (Dict ω)} (h : Keeps s s') {a : AioConfig ω}
    (ha : a.userProvidedOptions < s.length) : options s' a = options s a := by
  unfold options
  rw [deref_of_keeps h ha]

theorem copyConnectorArgs_of_keeps {s s' : Objects (Dict ω)} (h : Keeps s s') {v : Val ω}
    (hv : ∀ r, v = .dict r → r < s.length) : copyConnectorArgs T s' v = copyConnectorArgs T s v := by
  cases v with
  | dict r => rw [copyConnectorArgs, copyConnectorArgs, deref_of_keeps h (hv r rfl)]
  | none => rfl
  | bool b => rfl
  | int n => rfl
  | obj x => rfl

theorem Valid.getD {s : Objects (Dict ω)} {o : String → Option (Val ω)} (h : Valid s o) :
    ∀ r, (o "connector_args").getD .none = .dict r → r < s.length := by
  intro r hr
  cases ho : o "connector_args" with
  | none => simp [ho] at hr
  | some v =>
    rw [ho, Option.getD_some] at hr
    exact h r (by rw [ho, hr])

theorem refusal_of_keeps {s s' : Objects (Dict ω)} (h : Keeps s s') {o : String → Option (Val ω)} (ho : Valid s o) :
    refusal T B o s' = refusal T B o s := by
  unfold refusal
  rw [copyConnectorArgs_of_keeps T h ho.getD]

theorem effectiveConnectorArgs_of_keeps {s s' : Objects (Dict ω)} (h : Keeps s s') {o : String → Option (Val ω)}
    (ho : Valid s o) :
    effectiveConnectorArgs s' (o "connector_args") = effectiveConnectorArgs s (o "connector_args") := by
  unfold effectiveConnectorArgs
  split
  · rename_i r hr
    rw [deref_of_keeps h (ho r hr)]
  · rfl

theorem Built.of_keeps {s s' : Objects (Dict ω)} (h : Keeps s s') {a : AioConfig ω} (ha : Built T B s a) :
    Built T B s' a := by
  have hopts := options_of_keeps h ha.options_lt
  have hlen := h.length_le
  constructor
  · exact ha.options_lt.trans_le hlen
  · exact ha.args_lt.trans_le hlen
  · intro r hr
    rw [hopts] at hr
    exact (ha.valid r hr).trans_le hlen
  · rw [hopts, refusal_of_keeps T B h ha.valid, ha.accepted]
  · rw [hopts, effectiveConnectorArgs_of_keeps h ha.valid, deref_of_keeps h ha.args_lt, ha.args]
  · rw [hopts, ha.cls]
  · rw [hopts, ha.warmUp]

theorem copyConnectorArgs_effective {s : Objects (Dict ω)} {o : Option (Val ω)} {args : Dict ω}
    (h : copyConnectorArgs T s (o.getD .none) = some args) : withKeepalive args = effectiveConnectorArgs s o := by
  cases o with
  | none => simp_all [copyConnectorArgs, effectiveConnectorArgs]
  | some v =>
    cases v <;> simp_all [copyConnectorArgs, effectiveConnectorArgs]

theorem record_spec (kwargs : Dict ω) (s : Objects (Dict ω)) :
    Keeps s (record kwargs s).2 ∧ (record kwargs s).1 < (record kwargs s).2.length ∧
      (fun k => (deref (record kwargs s).1 (record kwargs s).2).lookup k) = fun k => kwargs.lookup k := by
  obtain ⟨hkeeps, hderef, hlt⟩ := make_spec (baseOptions kwargs) (aioOptions kwargs ∪ ·) s
  refine ⟨hkeeps, hlt, funext fun k => ?_⟩
  rw [record, hderef, lookup_recorded]

theorem fillKeepalive_spec (args : Dict ω) (s : Objects (Dict ω)) :
    Keeps s (fillKeepalive (alloc args s).1 (alloc args s).2) ∧
      (alloc args s).1 < (fillKeepalive (alloc args s).1 (alloc args s).2).length ∧
      deref (alloc args s).1 (fillKeepalive (alloc args s).1 (alloc args s).2) = withKeepalive args := by
  unfold fillKeepalive withKeepalive
  rw [deref_alloc]
  split
  · exact ⟨keeps_alloc args s, by simp, deref_alloc args s⟩
  · obtain ⟨hkeeps, hderef, hlt⟩ :=
      make_spec args (AList.insert "keepalive_timeout" (.int defaultKeepaliveTimeout)) s
    exact ⟨hkeeps, hlt, hderef⟩

/-- the config that is made when nothing is refused -/
theorem built_of_args (kwargs : Dict ω) (s : Objects (Dict ω)) (hvalid : Valid s fun k => kwargs.lookup k)
    {args : Dict ω} (hargs : copyConnectorArgs T s ((kwargs.lookup "connector_args").getD .none) = some args)
    (hrefusal : refusal T B (fun k => kwargs.lookup k) s = none) {s' : Objects (Dict ω)} {a : AioConfig ω}
    (hs' : s' = fillKeepalive (alloc args (record kwargs s).2).1 (alloc args (record kwargs s).2).2)
    (ha : a = ⟨(record kwargs s).1, (alloc args (record kwargs s).2).1,
      (kwargs.lookup "http_session_cls").getD (defaultHttpSessionCls T),
      (kwargs.lookup "warm_up_loader_caches").getD (.bool false)⟩) :
    Keeps s s' ∧ Built T B s' a ∧ options s' a = fun k => kwargs.lookup k := by
  obtain ⟨hrec, hoptsLt, hopts⟩ := record_spec kwargs s
  obtain ⟨hkeep, hargsLt, hself⟩ := fillKeepalive_spec args (record kwargs s).2
  rw [← hs'] at hkeep hargsLt hself
  have hall : Keeps s s' := hrec.trans hkeep
  have hoptions : options s' a = fun k => kwargs.lookup k := by
    rw [ha, options_of_keeps hkeep hoptsLt]
    exact hopts
  refine ⟨hall, ?_, hoptions⟩
  constructor
  · rw [ha]
    exact hoptsLt.trans_le hkeep.length_le
  · rw [ha]
    exact hargsLt
  · intro r hr
    rw [hoptions] at hr
    exact (hvalid r hr).trans_le hall.length_le
  · rw [hoptions, refusal_of_keeps T B hall hvalid, hrefusal]
  · rw [hoptions, ha, hself, effectiveConnectorArgs_of_keeps hall hvalid]
    exact copyConnectorArgs_effective T hargs
  · rw [hoptions, ha]
  · rw [hoptions, ha]

/-- **The constructor** raises what the explicit options are refused for, or gives a config with these options; the
objects that existed stay as they are. -/
theorem init_spec (kwargs : Dict ω) (s : Objects (Dict ω)) (hvalid : Valid s fun k => kwargs.lookup k) :
    Keeps s (init T B kwargs s).2 ∧
      (∀ e, refusal T B (fun k => kwargs.lookup k) s = some e → (init T B kwargs s).1 = .error e) ∧
      (refusal T B (fun k => kwargs.lookup k) s = none →
        ∃ a, (init T B kwargs s).1 = .ok a ∧ Built T B (init T B kwargs s).2 a ∧
          options (init T B kwargs s).2 a = fun k => kwargs.lookup k) := by
  have hbase : (fun k => (baseOptions kwargs).lookup k) = fun k => if k ∈ aioNames then none else kwargs.lookup k :=
    funext (lookup_baseOptions kwargs)
  obtain ⟨hrec, -, -⟩ := record_spec kwargs s
  have hcopy := copyConnectorArgs_of_keeps T hrec hvalid.getD
  have hrefusal : refusal T B (fun k => kwargs.lookup k) s =
      match B.check (fun k => if k ∈ aioNames then none else kwargs.lookup k) with
      | some e => some (.base e)
      | none =>
        match copyConnectorArgs T s ((kwargs.lookup "connector_args").getD .none) with
        | none => some .attributeError
        | some args =>
          (validateConnectorArgs T ((kwargs.lookup "http_session_cls").getD (defaultHttpSessionCls T))
            args.entries).map .paramValidation := rfl
  unfold init
  rw [hbase]
  dsimp only
  rw [hcopy]
  cases hcheck : B.check (fun k => if k ∈ aioNames then none else kwargs.lookup k) with
  | some e =>
    simp only [hcheck] at hrefusal
    simp [hrefusal, Keeps.refl]
  | none =>
    cases hargs : copyConnectorArgs T s ((kwargs.lookup "connector_args").getD .none) with
    | none =>
      simp only [hcheck, hargs] at hrefusal
      simp [hrefusal, hrec]
    | some args =>
      simp only [hcheck, hargs] at hrefusal
      cases hval : validateConnectorArgs T ((kwargs.lookup "http_session_cls").getD (defaultHttpSessionCls T))
          args.entries with
      | some report =>
        rw [hval] at hrefusal
        have halloc : Keeps s ((record kwargs s).2 ++ [args]) := hrec.trans (keeps_alloc args _)
        simp [hrefusal, hval, halloc]
      | none =>
        rw [hval] at hrefusal
        obtain ⟨hkeeps, hbuilt, hoptions⟩ := built_of_args T B kwargs s hvalid hargs hrefusal rfl rfl
        simp only [hval]
        refine ⟨hkeeps, ?_, fun _ => ⟨_, rfl, hbuilt, hoptions⟩⟩
        intro e he
        rw [hrefusal] at he
        cases he

/-! ## Merging -/

/-- the second options override the first -/
def override (o o' : String → Option (Val ω)) : String → Option (Val ω) := fun k => (o' k).or (o k)

theorem override_assoc (o o' o'' : String → Option (Val ω)) :
    override (override o o') o'' = override o (override o' o'') := by
  funext k
  simp [override, Option.or_assoc]

theorem Valid.override {s : Objects (Dict ω)} {o o' : String → Option (Val ω)} (h : Valid s o) (h' : Valid s o') :
    Valid s (override o o') := by
  intro r hr
  cases ho : o' "connector_args" with
  | none =>
    rw [Config.override, ho, Option.none_or] at hr
    exact h r hr
  | some v =>
    rw [Config.override, ho, Option.some_or, ← ho] at hr
    exact h' r hr

/-- what the dict behind a reference says -/
def entries (s : Objects (Dict ω)) (r : Ref) : String → Option (Val ω) := fun k => (deref r s).lookup k

theorem mergeOptions_spec {s : Objects (Dict ω)} {r r' : Ref} (hr' : r' < s.length) (h : Valid s (entries s r))
    (h' : Valid s (entries s r')) :
    Keeps s (mergeOptions T B r r' s).2 ∧
      (∀ e, refusal T B (override (entries s r) (entries s r')) s = some e → (mergeOptions T B r r' s).1 = .error e) ∧
      (refusal T B (override (entries s r) (entries s r')) s = none →
        ∃ m, (mergeOptions T B r r' s).1 = .ok m ∧ Built T B (mergeOptions T B r r' s).2 m ∧
          options (mergeOptions T B r r' s).2 m = override (entries s r) (entries s r')) := by
  have hother : deref r' (alloc (deref r s) s).2 = deref r' s := deref_of_keeps (keeps_alloc _ s) hr'
  obtain ⟨hkeeps, hderef, -⟩ := make_spec (deref r s) (deref r' s ∪ ·) s
  have hkwargs : (fun k => (deref r' s ∪ deref r s).lookup k) = override (entries s r) (entries s r') := by
    funext k
    exact lookup_union _ _ k
  have hvalid : Valid s (override (entries s r) (entries s r')) := h.override h'
  unfold mergeOptions
  dsimp only
  rw [hother, hderef]
  generalize hs₁ : write (alloc (deref r s) s).1 (deref r' s ∪ ·) (alloc (deref r s) s).2 = s₁ at hkeeps ⊢
  have hvalid₁ : Valid s₁ (override (entries s r) (entries s r')) := by
    intro d hd
    exact (hvalid d hd).trans_le hkeeps.length_le
  have hinit := init_spec T B (deref r' s ∪ deref r s) s₁ (hkwargs ▸ hvalid₁)
  rw [hkwargs, refusal_of_keeps T B hkeeps hvalid] at hinit
  exact ⟨hkeeps.trans hinit.1, hinit.2⟩

theorem merge_spec {s : Objects (Dict ω)} {a b : AioConfig ω} (ha : Built T B s a) (hb : Built T B s b) :
    Keeps s (merge T B a b s).2 ∧
      (∀ e, refusal T B (override (options s a) (options s b)) s = some e → (merge T B a b s).1 = .error e) ∧
      (refusal T B (override (options s a) (options s b)) s = none →
        ∃ m, (merge T B a b s).1 = .ok m ∧ Built T B (merge T B a b s).2 m ∧
          options (merge T B a b s).2 m = override (options s a) (options s b)) :=
  mergeOptions_spec T B hb.options_lt ha.valid hb.valid

/-- the same explicit options and the same effective values -/
structure Same (s : Objects (Dict ω)) (x y : AioConfig ω) : Prop where
  options : ∀ k, options s x k = options s y k
  args : deref x.connectorArgs s = deref y.connectorArgs s
  cls : x.httpSessionCls = y.httpSessionCls
  warmUp : x.warmUpLoaderCaches = y.warmUpLoaderCaches

/-- the explicit options decide -/
theorem Built.same {s : Objects (Dict ω)} {x y : AioConfig ω} (hx : Built T B s x) (hy : Built T B s y)
    (h : Config.options s x = Config.options s y) : Same s x y := by
  constructor
  · intro k
    rw [h]
  · rw [hx.args, hy.args, h]
  · rw [hx.cls, hy.cls, h]
  · rw [hx.warmUp, hy.warmUp, h]

theorem merge_ok {s : Objects (Dict ω)} {a b m : AioConfig ω} (ha : Built T B s a) (hb : Built T B s b)
    (h : (merge T B a b s).1 = .ok m) :
    Built T B (merge T B a b s).2 m ∧
      options (merge T B a b s).2 m = override (options s a) (options s b) := by
  obtain ⟨-, herr, hok⟩ := merge_spec T B ha hb
  cases hrefusal : refusal T B (override (options s a) (options s b)) s with
  | some e =>
    rw [herr e hrefusal] at h
    cases h
  | none =>
    obtain ⟨m', hm', hbuilt, hopts⟩ := hok hrefusal
    rw [hm'] at h
    cases h
    exact ⟨hbuilt, hopts⟩

theorem merge_error_iff {s : Objects (Dict ω)} {a b : AioConfig ω} (ha : Built T B s a) (hb : Built T B s b)
    (e : Err ε) :
    (merge T B a b s).1 = .error e ↔ refusal T B (override (options s a) (options s b)) s = some e := by
  obtain ⟨-, herr, hok⟩ := merge_spec T B ha hb
  constructor
  · intro h
    cases hrefusal : refusal T B (override (options s a) (options s b)) s with
    | some e' =>
      rw [herr e' hrefusal] at h
      cases h
      rfl
    | none =>
      obtain ⟨m, hm, -⟩ := hok hrefusal
      rw [hm] at h
      cases h
  · exact herr e

theorem merge_assoc {s : Objects (Dict ω)} {a b c ab bc : AioConfig ω} (ha : Built T B s a) (hb : Built T B s b)
    (hc : Built T B s c) (hab : (merge T B a b s).1 = .ok ab)
    (hbc : (merge T B b c (merge T B a b s).2).1 = .ok bc) :
    let s₂ := (merge T B b c (merge T B a b s).2).2
    let left := merge T B ab c s₂
    let right := merge T B a bc left.2
    (∀ e, left.1 = .error e ↔ right.1 = .error e) ∧
      ∀ l r, left.1 = .ok l → right.1 = .ok r → Same right.2 l r := by
  intro s₂ left right
  have hk₁ : Keeps s (merge T B a b s).2 := (merge_spec T B ha hb).1
  have hb₁ := hb.of_keeps T B hk₁
  have hc₁ := hc.of_keeps T B hk₁
  obtain ⟨hab₁, habOpts⟩ := merge_ok T B ha hb hab
  obtain ⟨hbc₂, hbcOpts⟩ := merge_ok T B hb₁ hc₁ hbc
  have hk₂ : Keeps (merge T B a b s).2 s₂ := (merge_spec T B hb₁ hc₁).1
  have hab₂ := hab₁.of_keeps T B hk₂
  have hc₂ := hc₁.of_keeps T B hk₂
  have ha₂ := ha.of_keeps T B (hk₁.trans hk₂)
  have hk₃ : Keeps s₂ left.2 := (merge_spec T B hab₂ hc₂).1
  have ha₃ := ha₂.of_keeps T B hk₃
  have hbc₃ := hbc₂.of_keeps T B hk₃
  have hk₄ : Keeps left.2 right.2 := (merge_spec T B ha₃ hbc₃).1
  -- both sides are the constructor on the same options
  have hleft : override (options s₂ ab) (options s₂ c) =
      override (options s a) (override (options s b) (options s c)) := by
    rw [options_of_keeps hk₂ hab₁.options_lt, habOpts, options_of_keeps (hk₁.trans hk₂) hc.options_lt, override_assoc]
  have hright : override (options left.2 a) (options left.2 bc) =
      override (options s a) (override (options s b) (options s c)) := by
    rw [options_of_keeps (hk₁.trans (hk₂.trans hk₃)) ha.options_lt, options_of_keeps hk₃ hbc₂.options_lt, hbcOpts,
      options_of_keeps hk₁ hb.options_lt, options_of_keeps hk₁ hc.options_lt]
  constructor
  · intro e
    rw [merge_error_iff T B hab₂ hc₂, merge_error_iff T B ha₃ hbc₃, hright, ← hleft,
      refusal_of_keeps T B hk₃ (hab₂.valid.override hc₂.valid)]
  · intro l r hl hr
    obtain ⟨hlBuilt, hlOpts⟩ := merge_ok T B hab₂ hc₂ hl
    obtain ⟨hrBuilt, hrOpts⟩ := merge_ok T B ha₃ hbc₃ hr
    apply (hlBuilt.of_keeps T B hk₄).same T B hrBuilt
    rw [options_of_keeps hk₄ hlBuilt.options_lt, hlOpts, hleft, hrOpts, hright]

/-- merging with a config without explicit options changes nothing -/
theorem merge_neutral {s : Objects (Dict ω)} {a b x : AioConfig ω} (ha : Built T B s a) (hb : Built T B s b)
    (hx : Built T B s x) (h : override (options s a) (options s b) = options s x) :
    ∃ m, (merge T B a b s).1 = .ok m ∧ Same (merge T B a b s).2 m x := by
  obtain ⟨hkeeps, -, hok⟩ := merge_spec T B ha hb
  rw [h, hx.accepted] at hok
  obtain ⟨m, hm, hbuilt, hopts⟩ := hok rfl
  refine ⟨m, hm, hbuilt.same T B (hx.of_keeps T B hkeeps) ?_⟩
  rw [hopts, options_of_keeps hkeeps hx.options_lt]

/-! ## Programs -/

/-- the dicts and configs that a program has made -/
structure St (ω : Type) where
  objects : Objects (Dict ω)
  configs : List (AioConfig ω)

inductive Op (ω : Type) where
  | newDict (d : Dict ω)
  | construct (kwargs : Dict ω)
  | merge (i j : ℕ)

/-- a program has no reference to what has not been made -/
def validArgs (s : Objects (Dict ω)) (kwargs : Dict ω) : Bool :=
  match kwargs.lookup "connector_args" with
  | some (.dict r) => r < s.length
  | _ => true

/-- a call that may raise, and the config that it returns -/
def St.after (st : St ω) (res : Except (Err ε) (AioConfig ω) × Objects (Dict ω)) : St ω :=
  match res with
  | (.ok a, s) => ⟨s, st.configs ++ [a]⟩
  | (.error _, s) => ⟨s, st.configs⟩

def step (st : St ω) : Op ω → St ω
  | .newDict d => { st with objects := (alloc d st.objects).2 }
  | .construct kwargs => if validArgs st.objects kwargs then st.after (init T B kwargs st.objects) else st
  | .merge i j =>
    match st.configs[i]?, st.configs[j]? with
    | some a, some b => st.after (Config.merge T B a b st.objects)
    | _, _ => st

def Inv (st : St ω) : Prop := ∀ a ∈ st.configs, Built T B st.objects a

theorem valid_of_validArgs {s : Objects (Dict ω)} {kwargs : Dict ω} (h : validArgs s kwargs = true) :
    Valid s fun k => kwargs.lookup k := by
  intro r hr
  have hlookup : kwargs.lookup "connector_args" = some (.dict r) := hr
  rw [validArgs, hlookup] at h
  simpa using h

theorem after_inv {st : St ω} (h : Inv T B st) {res : Except (Err ε) (AioConfig ω) × Objects (Dict ω)}
    (hkeeps : Keeps st.objects res.2) (hok : ∀ a, res.1 = .ok a → Built T B res.2 a) : Inv T B (st.after res) := by
  obtain ⟨out, s⟩ := res
  have hold : ∀ a ∈ st.configs, Built T B s a := fun a ha => (h a ha).of_keeps T B hkeeps
  cases out with
  | error e => exact hold
  | ok a =>
    intro x hx
    rcases List.mem_append.1 hx with hx | hx
    · exact hold x hx
    · rw [List.mem_singleton.1 hx]
      exact hok a rfl

theorem step_inv (st : St ω) (o : Op ω) (h : Inv T B st) : Inv T B (step T B st o) := by
  cases o with
  | newDict d =>
    intro a ha
    exact (h a ha).of_keeps T B (keeps_alloc d st.objects)
  | construct kwargs =>
    rw [step]
    split
    · rename_i hvalid
      obtain ⟨hkeeps, herr, hok⟩ := init_spec T B kwargs st.objects (valid_of_validArgs hvalid)
      apply after_inv T B h hkeeps
      intro a ha
      cases hrefusal : refusal T B (fun k => kwargs.lookup k) st.objects with
      | some e =>
        rw [herr e hrefusal] at ha
        cases ha
      | none =>
        obtain ⟨a', ha', hbuilt, -⟩ := hok hrefusal
        rw [ha'] at ha
        cases ha
        exact hbuilt
    · exact h
  | merge i j =>
    rw [step]
    split
    · rename_i a b hi hj
      have ha := h a (List.mem_of_getElem? hi)
      have hb := h b (List.mem_of_getElem? hj)
      apply after_inv T B h (merge_spec T B ha hb).1
      intro m hm
      exact (merge_ok T B ha hb hm).1
    · exact h

theorem run_built {ops : List (Op ω)} {a : AioConfig ω} (ha : a ∈ (run (step T B) ⟨[], []⟩ ops).configs) :
    Built T B (run (step T B) ⟨[], []⟩ ops).objects a := by
  have hinit : Inv T B ⟨[], []⟩ := fun a ha => by cases ha
  exact run_inv (step_inv T B) hinit ops a ha

/-- **`merge` is a right-biased union.** For all configs of a program: a merge has the explicit options of the left one
overridden by those of the right one, its effective values are the last explicit ones or else the defaults, and it changes
no object that existed; it is associative, raising the same or giving the same; a config without explicit options is
neutral on both sides. -/
theorem merge_laws (ops : List (Op ω)) (a b c : AioConfig ω) (ha : a ∈ (run (step T B) ⟨[], []⟩ ops).configs)
    (hb : b ∈ (run (step T B) ⟨[], []⟩ ops).configs) (hc : c ∈ (run (step T B) ⟨[], []⟩ ops).configs) :
    let s := (run (step T B) ⟨[], []⟩ ops).objects
    (Keeps s (merge T B a b s).2 ∧
      ∀ m, (merge T B a b s).1 = .ok m →
        (∀ k, options (merge T B a b s).2 m k = (options s b k).or (options s a k)) ∧
          deref m.connectorArgs (merge T B a b s).2 =
            effectiveConnectorArgs s ((options s b "connector_args").or (options s a "connector_args")) ∧
          m.httpSessionCls =
            ((options s b "http_session_cls").or (options s a "http_session_cls")).getD (defaultHttpSessionCls T) ∧
          m.warmUpLoaderCaches =
            ((options s b "warm_up_loader_caches").or (options s a "warm_up_loader_caches")).getD (.bool false)) ∧
    (∀ ab bc, (merge T B a b s).1 = .ok ab → (merge T B b c (merge T B a b s).2).1 = .ok bc →
      let s₂ := (merge T B b c (merge T B a b s).2).2
      let left := merge T B ab c s₂
      let right := merge T B a bc left.2
      (∀ e, left.1 = .error e ↔ right.1 = .error e) ∧
        ∀ l r, left.1 = .ok l → right.1 = .ok r → Same right.2 l r) ∧
    ∀ n ∈ (run (step T B) ⟨[], []⟩ ops).configs, (∀ k, options s n k = none) →
      (∃ m, (merge T B a n s).1 = .ok m ∧ Same (merge T B a n s).2 m a) ∧
        ∃ m, (merge T B n a s).1 = .ok m ∧ Same (merge T B n a s).2 m a := by
  intro s
  have ha' : Built T B s a := run_built T B ha
  have hb' : Built T B s b := run_built T B hb
  have hc' : Built T B s c := run_built T B hc
  refine ⟨⟨(merge_spec T B ha' hb').1, ?_⟩, ?_, ?_⟩
  · intro m hm
    have hkeeps := (merge_spec T B ha' hb').1
    obtain ⟨hbuilt, hopts⟩ := merge_ok T B ha' hb' hm
    have hvalid := ha'.valid.override hb'.valid
    refine ⟨fun k => congrFun hopts k, ?_, ?_, ?_⟩
    · rw [hbuilt.args, hopts, effectiveConnectorArgs_of_keeps hkeeps hvalid]
      rfl
    · rw [hbuilt.cls, hopts]
      rfl
    · rw [hbuilt.warmUp, hopts]
      rfl
  · intro ab bc hab hbc
    exact merge_assoc T B ha' hb' hc' hab hbc
  · intro n hn hnone
    have hn' : Built T B s n := run_built T B hn
    constructor
    · apply merge_neutral T B ha' hn' ha'
      funext k
      simp [override, hnone k]
    · apply merge_neutral T B hn' ha' ha'
      funext k
      simp [override, hnone k]

/-! ## An instance -/

/-- two session classes, aiohttp's and httpx's -/
def twoBackends : Types Bool where
  isFloat _ := false
  isSSLContext _ := false
  isAbstractResolver _ := false
  isCallable _ := true
  isHttpxSessionCls x := x
  truthy _ := true
  aiohttpSession := false

/-- the options that the instance knows besides are accepted as they are -/
def knowsRegion : Botocore Bool String where
  check o := if aioNames.any fun k => (o k).isSome then some "unexpected keyword argument" else none

/-- `{'keepalive_timeout': 1}`, a config with these `connector_args`, one for httpx and one without options -/
def threeConfigs : List (Op Bool) :=
  [.newDict (AList.singleton "keepalive_timeout" (.int 1)), .construct (AList.singleton "connector_args" (.dict 0)),
    .construct (AList.singleton "http_session_cls" (.obj true)), .construct ∅]

theorem merge_laws_threeConfigs :
    let s := (run (step twoBackends knowsRegion) ⟨[], []⟩ threeConfigs).objects
    ∃ m, (merge twoBackends knowsRegion ⟨1, 2, .obj false, .bool false⟩ ⟨5, 6, .obj false, .bool false⟩ s).1 = .ok m ∧
      Same (merge twoBackends knowsRegion ⟨1, 2, .obj false, .bool false⟩ ⟨5, 6, .obj false, .bool false⟩ s).2 m
        ⟨1, 2, .obj false, .bool false⟩ :=
  ((merge_laws twoBackends knowsRegion threeConfigs ⟨1, 2, .obj false, .bool false⟩ ⟨3, 4, .obj true, .bool false⟩
    ⟨5, 6, .obj false, .bool false⟩ (by decide) (by decide) (by decide)).2.2 ⟨5, 6, .obj false, .bool false⟩ (by decide)
    (by intro k; rfl)).1

end AioBotocore.Config

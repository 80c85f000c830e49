/-
S3 Express sessions at work (`utils.py`: `AioIdentityCache.get_credentials`, `AioS3ExpressIdentityCache` and its
`build_refresh_callback`). A request for a bucket is signed with what `get_frozen_credentials` gives, of the object that
`get_credentials` has returned for the bucket. Such an object goes on to refresh itself, also when the cache has evicted it
and has made another one for its bucket.

The cache is the machine of `S3Express.IdentityCache`, where credentials are the numbers of objects, in the order of their
creation; each object is a machine of `Credentials.Refreshable`. `create_from_metadata` is botocore's.

- `step_moves`: everything one operation can do.
- `sessions_isolated`: what signs a request for a bucket is a session of that bucket.
-/
import Mathlib.Tactic
import AioBotocore.Async.Run
import AioBotocore.Credentials.Calls
import AioBotocore.Credentials.Expiry
import AioBotocore.S3Express.IdentityCache

namespace AioBotocore.S3Express.Sessions

open Async Function Lru
open AioBotocore.Credentials (ReadOnlyCredentials Metadata Base Cfg InFlight Unexpired seconds slowFailure)

variable {β : Type} [DecidableEq β]

/-! ## Model -/

/-- `Credentials` of a response of `create_session` -/
structure Session where
  accessKeyId : String
  secretAccessKey : String
  sessionToken : String
  /-- in microseconds -/
  expiration : ℤ
deriving DecidableEq, Repr

def Session.credentials (x : Session) : ReadOnlyCredentials :=
  ⟨some x.accessKeyId, some x.secretAccessKey, some x.sessionToken, none⟩

/-- what is relied on from botocore: an object made of a dict has the dict's fields and the timeouts that are passed -/
structure Setup where
  base : Base
  serializeIfNeeded : ℤ → String
  /-- `none` when it raises -/
  createFromMetadata : Metadata → ℕ → ℕ → Option Cfg
  creates : ∀ m advisory mandatory C, createFromMetadata m advisory mandatory = some C → ∃ t,
    C = ⟨.refreshable (m.get "access_key") (m.get "secret_key") (m.get "token") (m.get "account_id") t, advisory, mandatory⟩

/-- an object with the bucket of its `refresher` -/
structure Object (β : Type) where
  bucket : β
  cfg : Cfg
  st : Credentials.St

structure St (β : Type) where
  now : ℤ
  cache : S3Express.St β ℕ
  objects : List (Object β)
  /-- what `create_session` has answered, and for which bucket -/
  answers : List (β × Session)

inductive Op (β : Type) where
  | tick (d : ℕ)
  /-- `get_credentials` -/
  | get (k : ℕ) (bucket : β)
  /-- `k` takes the lock of its bucket -/
  | lock (k : ℕ)
  /-- `create_session` answers a call of `get_credentials` -/
  | answer (k : ℕ) (x : Session)
  /-- it raises, or the task is cancelled in it -/
  | fails (k : ℕ)
  /-- the task is cancelled at the lock -/
  | cancel (k : ℕ)
  /-- `get_frozen_credentials`, on what the `i`-th call of `get_credentials` to return has returned -/
  | freeze (i : ℕ)
  | resume (i : ℕ)
  /-- `create_session` answers the refresher -/
  | refreshed (i : ℕ) (x : Session)
  | refreshFails (i : ℕ) (text : String)
  | drop (i : ℕ)
deriving DecidableEq, Repr

variable (S : Setup)

/-- the dict that `refresher` returns -/
def metadata (x : Session) : Metadata :=
  [("access_key", some x.accessKeyId), ("secret_key", some x.secretAccessKey), ("token", some x.sessionToken),
    ("expiry_time", some (S.serializeIfNeeded x.expiration))]

/-- the object of the `i`-th return of `get_credentials` -/
def returned (s : St β) (i : ℕ) : Option ℕ := s.cache.rets[i]?.map fun r => r.2.2

def Object.step (x : Object β) (o : Credentials.Op) : Object β :=
  { x with st := Credentials.step S.base x.cfg x.st o }

def act (s : St β) (n : ℕ) (o : Credentials.Op) : St β :=
  { s with objects := s.objects.modify n fun x => x.step S o }

/-- an operation of the call that the `i`-th return is followed by -/
def call (s : St β) (i : ℕ) (o : Credentials.Op) : St β :=
  match returned s i with
  | none => s
  | some n => act S s n o

/-- `super().get_credentials`, from the answer of `create_session` on -/
def create (s : St β) (k : ℕ) (b : β) (x : Session) : St β :=
  let s := { s with answers := s.answers ++ [(b, x)] }
  match S.createFromMetadata (metadata S x) (seconds 45) (seconds 10) with
  | none => { s with cache := S3Express.step s.cache (.fails k) }
  | some C =>
    { s with cache := S3Express.step s.cache (.created k s.objects.length),
             objects := s.objects ++ [⟨b, C, Credentials.init C s.now⟩] }

/-- the refresher of the call returns -/
def refresh (s : St β) (i n : ℕ) (x : Session) : St β :=
  match s.objects[n]? with
  | none => s
  | some obj =>
    if InFlight obj.st i then
      act S { s with answers := s.answers ++ [(obj.bucket, x)] } n (.finish i (.returns (metadata S x)))
    else s

def step (s : St β) : Op β → St β
  | .tick d => { s with now := s.now + d, objects := s.objects.map fun x => x.step S (.tick d) }
  | .get k b => { s with cache := S3Express.step s.cache (.call k b) }
  | .lock k => { s with cache := S3Express.step s.cache (.run k) }
  | .answer k x =>
    match s.cache.pc k with
    | .creating b _ => create S s k b x
    | _ => s
  | .fails k => { s with cache := S3Express.step s.cache (.fails k) }
  | .cancel k => { s with cache := S3Express.step s.cache (.cancel k) }
  | .freeze i => call S s i (.call i)
  | .resume i => call S s i (.resume i)
  | .refreshed i x =>
    match returned s i with
    | none => s
    | some n => refresh S s i n x
  | .refreshFails i text => call S s i (.finish i (.raises text))
  | .drop i => call S s i (.cancel i)

def init (t0 : ℤ) : St β := ⟨t0, S3Express.init, [], []⟩

abbrev exec (t0 : ℤ) (ops : List (Op β)) : St β := run (step S) (init t0) ops

/-! ## What one operation does -/

/-- no object is made by this operation of the cache -/
def NotCreated (o : S3Express.Op β ℕ) : Prop := ∀ k n, o ≠ .created k n

/-- no dict is returned -/
def NotReturned (o : Credentials.Op) : Prop := ∀ k m, o ≠ .finish k (.returns m)

inductive Moves (s : St β) : Op β → St β → Prop
  | none (o : Op β) : Moves s o s
  | tick (d : ℕ) :
      Moves s (.tick d) { s with now := s.now + d, objects := s.objects.map fun x => x.step S (.tick d) }
  | cache {o : Op β} (o' : S3Express.Op β ℕ) (ho' : NotCreated o') :
      Moves s o { s with cache := S3Express.step s.cache o' }
  /-- an answer that no object can be made of -/
  | rejected {k b l x} (hk : s.cache.pc k = .creating b l) :
      Moves s (.answer k x)
        { s with cache := S3Express.step s.cache (.fails k), answers := s.answers ++ [(b, x)] }
  | created {k b l x C} (hk : s.cache.pc k = .creating b l)
      (hC : S.createFromMetadata (metadata S x) (seconds 45) (seconds 10) = some C) :
      Moves s (.answer k x)
        { s with cache := S3Express.step s.cache (.created k s.objects.length),
                 objects := s.objects ++ [⟨b, C, Credentials.init C s.now⟩], answers := s.answers ++ [(b, x)] }
  | plain {o : Op β} {i n : ℕ} (hi : returned s i = some n) (o' : Credentials.Op) (ho' : NotReturned o')
      (hfails : ∀ text, o' = .finish i (.raises text) → o = .refreshFails i text) (hcaller : o'.caller = some i) :
      Moves s o (act S s n o')
  | refreshed {i n : ℕ} {x : Session} {obj : Object β} (hi : returned s i = some n) (hobj : s.objects[n]? = some obj) :
      Moves s (.refreshed i x)
        (act S { s with answers := s.answers ++ [(obj.bucket, x)] } n (.finish i (.returns (metadata S x))))

variable {S}

theorem call_moves {s : St β} {o : Op β} {i : ℕ} (o' : Credentials.Op) (ho' : NotReturned o')
    (hfails : ∀ text, o' = .finish i (.raises text) → o = .refreshFails i text) (hcaller : o'.caller = some i) :
    Moves S s o (call S s i o') := by
  unfold call
  split
  · exact .none o
  · rename_i n hi
    exact .plain hi o' ho' hfails hcaller

theorem step_moves (s : St β) (o : Op β) : Moves S s o (step S s o) := by
  cases o with
  | tick d => exact .tick d
  | get k b => exact .cache _ (by simp [NotCreated])
  | lock k => exact .cache _ (by simp [NotCreated])
  | fails k => exact .cache _ (by simp [NotCreated])
  | cancel k => exact .cache _ (by simp [NotCreated])
  | answer k x =>
    simp only [step]
    split
    · rename_i b l hk
      unfold create
      dsimp only
      split
      · exact .rejected hk
      · rename_i C hC
        exact .created hk hC
    · exact .none _
  | freeze i => exact call_moves _ (by simp [NotReturned]) (by simp) rfl
  | resume i => exact call_moves _ (by simp [NotReturned]) (by simp) rfl
  | drop i => exact call_moves _ (by simp [NotReturned]) (by simp) rfl
  | refreshFails i text =>
    refine call_moves _ (by simp [NotReturned]) (fun text' h => ?_) rfl
    cases h
    rfl
  | refreshed i x =>
    simp only [step]
    split
    · exact .none _
    · rename_i n hi
      unfold refresh
      split
      · exact .none _
      · rename_i obj hobj
        split_ifs
        · exact .refreshed hi hobj
        · exact .none _

/-! ## The cache -/

/-- what is cached for a bucket, and what was returned for it, belongs to it -/
structure Belongs (P : β → ℕ → Prop) (c : S3Express.St β ℕ) : Prop where
  cached : ∀ b n, (b, n) ∈ c.credentials → P b n
  returned : ∀ k b n, (k, b, n) ∈ c.rets → P b n

variable {P Q : β → ℕ → Prop} {c : S3Express.St β ℕ}

omit [DecidableEq β] in
theorem Belongs.mono (h : Belongs P c) (hPQ : ∀ b n, P b n → Q b n) : Belongs Q c :=
  ⟨fun b n hn => hPQ b n (h.cached b n hn), fun k b n hn => hPQ b n (h.returned k b n hn)⟩

theorem mem_store {b b' : β} {n n' : ℕ} (h : (b', n') ∈ (store c b n).credentials) :
    (b', n') ∈ c.credentials ∨ b' = b ∧ n' = n := by
  rw [store_credentials] at h
  have hset : (b', n') ∈ Lru.set c.credentials b n := by
    split_ifs at h
    · exact List.mem_of_mem_tail h
    · exact h
  rcases mem_of_mem_set hset with hin | heq
  · exact .inl hin
  · exact .inr (Prod.mk.inj heq)

omit [DecidableEq β] in
theorem Belongs.ret (h : Belongs P c) {b : β} {n : ℕ} (hP : P b n) (k : ℕ) : Belongs P (S3Express.ret c k b n) := by
  refine ⟨h.cached, fun k' b' n' hmem => ?_⟩
  rcases List.mem_append.1 hmem with hmem | hmem
  · exact h.returned k' b' n' hmem
  · cases List.mem_singleton.1 hmem
    exact hP

/-- only a creation brings something new -/
theorem Belongs.step (h : Belongs P c) (o : S3Express.Op β ℕ)
    (hnew : ∀ k n b l, o = .created k n → c.pc k = .creating b l → P b n) : Belongs P (S3Express.step c o) := by
  have hmoves := S3Express.step_moves c o
  generalize S3Express.step c o = c' at hmoves
  cases hmoves with
  | none => exact h
  | @hit o k b n hk hn =>
    have hmoved : Belongs P { c with credentials := moveToEnd c.credentials b } :=
      ⟨fun b' n' hmem => h.cached b' n' (mem_of_mem_moveToEnd hmem), h.returned⟩
    exact hmoved.ret (h.cached b n (mem_of_get hn)) k
  | join => exact ⟨h.cached, h.returned⟩
  | newLock => exact ⟨h.cached, h.returned⟩
  | create => exact ⟨h.cached, h.returned⟩
  | @created k b l n hk =>
    have hP := hnew k n b l rfl hk
    have hstored : Belongs P (store { c with holder := update c.holder l .none } b n) := by
      refine ⟨fun b' n' hmem => ?_, ?_⟩
      · rcases mem_store hmem with hmem | ⟨rfl, rfl⟩
        · exact h.cached b' n' hmem
        · exact hP
      · rw [(store_creates _ b n).2]
        exact h.returned
    exact hstored.ret hP k
  | fails => exact ⟨h.cached, h.returned⟩
  | cancel => exact ⟨h.cached, h.returned⟩

/-! ## The objects -/

variable (S) in
/-- the object is a machine of its own, and all it has ever had are sessions of its bucket -/
structure Kept (answers : List (β × Session)) (x : Object β) : Prop where
  machine : Credentials.Inv S.base x.cfg x.st
  calls : Credentials.Calls x.st
  made : ∃ y, (x.bucket, y) ∈ answers ∧ x.cfg.ctor.attrs.frozen = some y.credentials
  results : ∀ m ∈ x.st.results, ∃ y, (x.bucket, y) ∈ answers ∧ m = metadata S y

variable {answers answers' : List (β × Session)} {x : Object β}

omit [DecidableEq β] in
theorem Kept.mono (h : Kept S answers x) (hsub : answers ⊆ answers') : Kept S answers' x := by
  obtain ⟨y, hy, hfrozen⟩ := h.made
  refine ⟨h.machine, h.calls, ⟨y, hsub hy, hfrozen⟩, fun m hm => ?_⟩
  obtain ⟨z, hz, hmz⟩ := h.results m hm
  exact ⟨z, hsub hz, hmz⟩

omit [DecidableEq β] in
theorem Kept.step (h : Kept S answers x) (o : Credentials.Op)
    (hreturns : ∀ k m, o = .finish k (.returns m) → ∃ y, (x.bucket, y) ∈ answers ∧ m = metadata S y) :
    Kept S answers (x.step S o) := by
  refine ⟨Credentials.step_inv _ _ _ o h.machine, Credentials.step_calls _ o h.calls, h.made, fun m hm => ?_⟩
  rcases Credentials.step_results hm with hm | ⟨k, rfl⟩
  · exact h.results m hm
  · exact hreturns k m rfl

omit [DecidableEq β] in
/-- what a call has returned is a session of the bucket -/
theorem Kept.returned (h : Kept S answers x) {i : ℕ} {v : Option ReadOnlyCredentials} (hv : x.st.pc i = .returned v) :
    ∃ y, (x.bucket, y) ∈ answers ∧ v = some y.credentials := by
  obtain ⟨r, hr, rfl⟩ := h.calls.returned i v hv
  obtain ⟨hvalue, hreceived, -⟩ := h.machine.data.rets r hr
  cases horigin : r.origin with
  | none =>
    obtain ⟨y, hy, hfrozen⟩ := h.made
    rw [horigin] at hvalue
    exact ⟨y, hy, hvalue.trans hfrozen⟩
  | some m =>
    obtain ⟨y, hy, rfl⟩ := h.results m (hreceived m horigin)
    rw [horigin] at hvalue
    exact ⟨y, hy, hvalue⟩

omit [DecidableEq β] in
/-- a new object -/
theorem kept_new {b : β} {y : Session} {C : Cfg} (hy : (b, y) ∈ answers)
    (hC : S.createFromMetadata (metadata S y) (seconds 45) (seconds 10) = some C) (t0 : ℤ) :
    Kept S answers ⟨b, C, Credentials.init C t0⟩ := by
  obtain ⟨t, rfl⟩ := S.creates _ _ _ _ hC
  exact ⟨Credentials.inv_init _ _ t0, Credentials.init_calls _ t0, ⟨y, hy, rfl⟩, fun m hm => by cases hm⟩

/-! ## Invariant -/

variable (S) in
structure Inv (s : St β) : Prop where
  cache : Belongs (fun b n => ∃ x : Object β, s.objects[n]? = some x ∧ x.bucket = b) s.cache
  objects : ∀ (n : ℕ) (x : Object β), s.objects[n]? = some x → Kept S s.answers x

omit [DecidableEq β] in
theorem inv_init (t0 : ℤ) : Inv S (init t0 : St β) := by
  refine ⟨⟨fun b n h => ?_, fun k b n h => ?_⟩, fun n x h => ?_⟩
  · cases h
  · cases h
  · cases h

omit [DecidableEq β] in
theorem act_objects (s : St β) (n : ℕ) (o : Credentials.Op) (j : ℕ) :
    (act S s n o).objects[j]? = (s.objects[j]?).map fun x => if n = j then x.step S o else x := by
  rw [act, List.getElem?_modify]
  rfl

omit [DecidableEq β] in
/-- the buckets of the objects are not touched -/
theorem bucket_of_map {s s' : St β} {f : ℕ → Object β → Object β}
    (hobjects : ∀ j, s'.objects[j]? = (s.objects[j]?).map (f j)) (hf : ∀ j x, (f j x).bucket = x.bucket) (b : β) (n : ℕ) :
    (∃ x, s.objects[n]? = some x ∧ x.bucket = b) → ∃ x, s'.objects[n]? = some x ∧ x.bucket = b := by
  rintro ⟨x, hx, hb⟩
  exact ⟨f n x, by rw [hobjects, hx, Option.map_some], (hf n x).trans hb⟩

omit [DecidableEq β] in
theorem mem_objects_append {l : List (Object β)} {x y : Object β} {n : ℕ} (h : (l ++ [x])[n]? = some y) :
    l[n]? = some y ∨ y = x := by
  by_cases hn : n < l.length
  · rw [List.getElem?_append_left hn] at h
    exact .inl h
  · rw [List.getElem?_append_right (by omega), List.getElem?_singleton] at h
    split_ifs at h
    exact .inr (Option.some.inj h).symm

omit [DecidableEq β] in
/-- an operation of one object, which may have to do with a new answer for it -/
theorem Inv.act {s : St β} (h : Inv S s) {n : ℕ} {o : Credentials.Op} {answers : List (β × Session)}
    (hsub : s.answers ⊆ answers)
    (hreturns : ∀ x, s.objects[n]? = some x → ∀ k m, o = .finish k (.returns m) →
      ∃ y, (x.bucket, y) ∈ answers ∧ m = metadata S y) : Inv S (act S { s with answers := answers } n o) := by
  have hobjects := act_objects (S := S) { s with answers := answers } n o
  refine ⟨h.cache.mono (bucket_of_map hobjects fun j x => by split_ifs <;> rfl), fun j x hx => ?_⟩
  rw [hobjects, Option.map_eq_some_iff] at hx
  obtain ⟨x', hx', rfl⟩ := hx
  have hkept : Kept S answers x' := (h.objects j x' hx').mono hsub
  split_ifs with hj
  · subst hj
    exact hkept.step o (hreturns x' hx')
  · exact hkept

theorem step_inv (s : St β) (o : Op β) (h : Inv S s) : Inv S (step S s o) := by
  have hmoves := step_moves (S := S) s o
  generalize step S s o = s' at hmoves
  cases hmoves with
  | none => exact h
  | tick d =>
    have hobjects (j : ℕ) : (s.objects.map fun x => x.step S (.tick d))[j]? =
        (s.objects[j]?).map fun x => x.step S (.tick d) := List.getElem?_map
    refine ⟨h.cache.mono (bucket_of_map (s := s) hobjects fun _ _ => rfl), fun j x hx => ?_⟩
    rw [hobjects, Option.map_eq_some_iff] at hx
    obtain ⟨x', hx', rfl⟩ := hx
    exact (h.objects j x' hx').step _ fun k m ho => by cases ho
  | cache o' ho' => exact ⟨h.cache.step o' fun k n b l ho => absurd ho (ho' k n), h.objects⟩
  | @rejected k b l x hk =>
    refine ⟨h.cache.step (.fails k) (fun k' n b' l' ho => by cases ho), fun n obj hobj => ?_⟩
    exact (h.objects n obj hobj).mono (List.subset_append_left _ _)
  | @created k b l x C hk hC =>
    let obj : Object β := ⟨b, C, Credentials.init C s.now⟩
    have hold : Belongs (fun b n => ∃ x : Object β, (s.objects ++ [obj])[n]? = some x ∧ x.bucket = b) s.cache := by
      refine h.cache.mono ?_
      rintro b' n ⟨x', hx', hb⟩
      obtain ⟨hn, -⟩ := List.getElem?_eq_some_iff.1 hx'
      exact ⟨x', by rwa [List.getElem?_append_left hn], hb⟩
    refine ⟨hold.step (.created k s.objects.length) (fun k' n b' l' ho hk' => ?_), fun n x' hx' => ?_⟩
    · cases ho
      rw [hk] at hk'
      cases hk'
      exact ⟨obj, List.getElem?_concat_length, rfl⟩
    · rcases mem_objects_append hx' with hx' | rfl
      · exact (h.objects n x' hx').mono (List.subset_append_left _ _)
      · exact kept_new (List.mem_append_right _ (List.mem_singleton_self _)) hC _
  | @plain o i n hi o' ho' hfails hcaller =>
    exact h.act (List.Subset.refl _) fun x hx k m ho => absurd ho (ho' k m)
  | @refreshed i n x obj hi hobj =>
    refine h.act (List.subset_append_left _ _) fun x' hx' k m ho => ?_
    rw [hobj] at hx'
    cases hx'
    cases ho
    exact ⟨x, List.mem_append_right _ (List.mem_singleton_self _), rfl⟩

theorem run_inv (t0 : ℤ) (ops : List (Op β)) : Inv S (exec S t0 ops) := Async.run_inv step_inv (inv_init t0) ops

/-! ## Expired sessions -/

/-- a refresh fails after the session that its object has has expired -/
def Late (s : St β) (o : Op β) : Prop :=
  ∃ i text n x, o = .refreshFails i text ∧ returned s i = some n ∧ s.objects[n]? = some x ∧
    slowFailure x.cfg x.st (.finish i (.raises text)) = true

variable (S) in
/-- the object has handed out no session that had expired -/
def Object.Unexpired (x : Object β) : Prop := ∀ r ∈ x.st.rets, Credentials.Unexpired S.base x.cfg r

omit [DecidableEq β] in
theorem Object.Unexpired.step (h : x.Unexpired S) (hinv : Credentials.Inv S.base x.cfg x.st) {o : Credentials.Op}
    (ho : slowFailure x.cfg x.st o = false) : (x.step S o).Unexpired S := by
  intro r hr
  rcases (mem_iff_drop (Credentials.step_rets S.base x.cfg x.st o) r).1 hr with hr | hr
  · exact h r hr
  · exact (Credentials.step_unexpired_iff hinv o).2 ho r hr

theorem step_unexpired (s : St β) (o : Op β)
    (h : Inv S s ∧ ∀ (n : ℕ) (x : Object β), s.objects[n]? = some x → x.Unexpired S) (hgood : ¬ Late s o) :
    Inv S (step S s o) ∧ ∀ (n : ℕ) (x : Object β), (step S s o).objects[n]? = some x → x.Unexpired S := by
  obtain ⟨hinv, hall⟩ := h
  refine ⟨step_inv s o hinv, ?_⟩
  have hmoves := step_moves (S := S) s o
  generalize step S s o = s' at hmoves
  cases hmoves with
  | none => exact hall
  | tick d =>
    intro j x hx
    rw [List.getElem?_map, Option.map_eq_some_iff] at hx
    obtain ⟨x', hx', rfl⟩ := hx
    exact (hall j x' hx').step (hinv.objects j x' hx').machine rfl
  | cache => exact hall
  | rejected => exact hall
  | created hk hC =>
    intro n x' hx'
    rcases mem_objects_append hx' with hx' | rfl
    · exact hall n x' hx'
    · intro r hr
      cases hr
  | @plain o i n hi o' ho' hfails hcaller =>
    intro j x hx
    rw [act_objects, Option.map_eq_some_iff] at hx
    obtain ⟨x', hx', rfl⟩ := hx
    split_ifs with hj
    · subst hj
      refine (hall n x' hx').step (hinv.objects n x' hx').machine ?_
      by_contra hslow
      rw [Bool.not_eq_false] at hslow
      cases o' with
      | finish k out =>
        cases hcaller
        cases out with
        | raises text => exact hgood ⟨i, text, n, x', hfails text rfl, hi, hx', hslow⟩
        | returns m => exact ho' i m rfl
      | _ => cases hslow
    · exact hall j x' hx'
  | @refreshed i n y obj hi hobj =>
    intro j x hx
    rw [act_objects, Option.map_eq_some_iff] at hx
    obtain ⟨x', hx', rfl⟩ := hx
    split_ifs with hj
    · exact (hall j x' hx').step (hinv.objects j x' hx').machine rfl
    · exact hall j x' hx'

/-- **Sessions.** For any calls for any buckets, in any interleaving and with any answers: an object in the cache belongs
to the bucket it is cached for; the object that `get_credentials` returns for a bucket belongs to it, and what
`get_frozen_credentials` gives for it is a session that `create_session` has answered for this very bucket; an object has
at most one refresh at a time; and a session that has expired is only handed out when a refresh has failed after it had. -/
theorem sessions_isolated (S : Setup) (t0 : ℤ) (ops : List (Op β)) :
    let s := exec S t0 ops
    (∀ b n, (b, n) ∈ s.cache.credentials → ∃ x : Object β, s.objects[n]? = some x ∧ x.bucket = b) ∧
      (∀ (i k : ℕ) (b : β) (n : ℕ), s.cache.rets[i]? = some (k, b, n) → ∃ x : Object β, s.objects[n]? = some x ∧
        x.bucket = b ∧ ∀ v, x.st.pc i = .returned v → ∃ y, (b, y) ∈ s.answers ∧ v = some y.credentials) ∧
      (∀ (n : ℕ) (x : Object β), s.objects[n]? = some x → ∀ i j, InFlight x.st i → InFlight x.st j → i = j) ∧
      (Along (step S) (fun s o => ¬ Late s o) (init t0) ops →
        ∀ (n : ℕ) (x : Object β), s.objects[n]? = some x → x.Unexpired S) := by
  intro s
  have h : Inv S s := run_inv t0 ops
  refine ⟨h.cache.cached, fun i k b n hi => ?_, fun n x hx i j hi hj => ?_, fun hgood => ?_⟩
  · obtain ⟨x, hx, hb⟩ := h.cache.returned k b n (List.mem_of_getElem? hi)
    refine ⟨x, hx, hb, fun v hv => ?_⟩
    rw [← hb]
    exact (h.objects n x hx).returned hv
  · exact Credentials.in_flight_unique (h.objects n x hx).machine hi hj
  · have hstart : Inv S (init t0 : St β) ∧
        ∀ (n : ℕ) (x : Object β), (init t0 : St β).objects[n]? = some x → x.Unexpired S :=
      ⟨inv_init t0, fun n x hx => by cases hx⟩
    exact (run_inv_of step_unexpired hstart hgood).2

/-! ## An instance -/

def hourly : Setup where
  base := Credentials.botocore fun v => if v = some "hour" then some (seconds 3600 : ℕ) else none
  serializeIfNeeded _ := "hour"
  createFromMetadata m advisory mandatory := some
    ⟨.refreshable (m.get "access_key") (m.get "secret_key") (m.get "token") (m.get "account_id") (some (seconds 3600 : ℕ)),
      advisory, mandatory⟩
  creates _ _ _ _ h := ⟨some (seconds 3600 : ℕ), (Option.some.inj h).symm⟩

def session (name : String) : Session := ⟨name, "secret", "token", seconds 3600⟩

/-- a session each for the buckets 7 and 8, and a request for 7 that comes 20 seconds before they expire -/
def advisory : List (Op ℕ) :=
  [.get 0 7, .lock 0, .get 1 8, .lock 1, .answer 1 (session "b"), .answer 0 (session "a"), .freeze 0, .freeze 1,
    .tick (seconds 3580), .get 2 7, .freeze 2, .refreshed 2 (session "c")]

/-- the last request is signed with a new session of its bucket -/
theorem sessions_isolated_advisory :
    let s := exec hourly 0 advisory
    ∃ x : Object ℕ, s.objects[1]? = some x ∧ x.bucket = 7 ∧ x.Unexpired hourly ∧
      x.st.pc 2 = .returned (some (session "c").credentials) := by
  have hgood : Along (step hourly) (fun s o => ¬ Late s o) (init 0) advisory := by
    refine along_of_forall _ fun o ho s => ?_
    rintro ⟨i, text, n, x, rfl, -⟩
    simp [advisory] at ho
  exact ⟨_, rfl, rfl, (sessions_isolated hourly 0 advisory).2.2.2 hgood 1 _ rfl, by decide⟩

end AioBotocore.S3Express.Sessions

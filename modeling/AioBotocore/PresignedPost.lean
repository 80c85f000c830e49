/-
Model of `generate_presigned_post` (`signers.py`): the client's method and `AioS3PostPresigner`'s. The caller's `Fields`
dict is copied; the caller's `Conditions` list is appended to; the policy gets a list of its own.

`Signing` are the parts that read no container of the caller: the request of a `CreateBucket` for the bucket, the
expiration date and the signer.

- `presign_spec`: the presigner signs what it is given and changes no list of its caller.
- `generate_spec`: one call signs the conditions that are in the caller's list, then its own two; `Fields` stays.
- `independent_iff`: in a sequence of calls with shared arguments every argument stays as it was and every policy holds the
  conditions that the caller wrote and the call's own two, iff no call is given a `Conditions` list (or it fails before
  its policy).
- `conditions_accumulate`: the second of two calls with the same list signs both buckets.
-/
import Mathlib.Data.Finmap
import AioBotocore.Async.Run
import AioBotocore.Heap

namespace AioBotocore.PresignedPost

open Heap Async

/-! ## Model -/

/-- `{name: value}`, `["starts-with", name, value]` or another condition -/
inductive Condition (γ : Type) where
  | field (name value : String)
  | startsWith (name value : String)
  | other (x : γ)
deriving DecidableEq, Repr

abbrev Fields : Type := Finmap fun _ : String => String

structure Policy (γ : Type) where
  expiration : String
  conditions : List (Condition γ)
deriving DecidableEq, Repr

/-- `ρ` are the prepared requests, `ε` the exceptions -/
structure Signing (γ ρ ε : Type) where
  prepare : String → Except ε ρ
  expireDate : ℤ → String
  url : ρ → String
  /-- the fields afterwards, and the conditions that the signer adds to the policy -/
  sign : ρ → Fields → Policy γ → Except ε (Fields × List (Condition γ))

structure Args where
  bucket : String
  key : String
  fields : Option Ref
  conditions : Option Ref
  expiresIn : ℤ
deriving DecidableEq, Repr

/-- the dicts and the lists of the program -/
structure Containers (γ : Type) where
  dicts : Objects Fields
  lists : Objects (List (Condition γ))

/-- what reached the signer, and what the call returned -/
inductive Outcome (γ ε : Type) where
  | failed (e : ε)
  | signed (fields : Fields) (policy : Policy γ) (result : Except ε (String × Fields))

variable {γ ρ ε : Type} (P : Signing γ ρ ε)

def filename : String := "$\x7bfilename\x7d"

/-- the condition on the key: with `${filename}` at its end, only what stands before it is fixed -/
def keyCondition (key : String) : Condition γ :=
  if filename.toList <:+ key.toList then
    .startsWith "$key" (String.ofList (key.toList.take (key.length - filename.length)))
  else .field "key" key

def append (list : Ref) (condition : Condition γ) : Objects (List (Condition γ)) → Objects (List (Condition γ)) :=
  write list (· ++ [condition])

/-- `AioS3PostPresigner.generate_presigned_post`; the policy's list is new and gets the conditions one by one -/
def presign (request : ρ) (fields conditions : Option Ref) (expiresIn : ℤ) (s : Containers γ) :
    Outcome γ ε × Containers γ :=
  let (fields, dicts) := match fields with
    | none => alloc ∅ s.dicts
    | some r => (r, s.dicts)
  let (conditions, lists) := match conditions with
    | none => alloc [] s.lists
    | some r => (r, s.lists)
  let written := deref conditions lists
  let (policyConditions, lists) := alloc [] lists
  let lists := written.foldl (fun lists condition => append policyConditions condition lists) lists
  let policy := ⟨P.expireDate expiresIn, deref policyConditions lists⟩
  match P.sign request (deref fields dicts) policy with
  | .error e => (.signed (deref fields dicts) policy (.error e), ⟨dicts, lists⟩)
  | .ok (fields', added) =>
    (.signed (deref fields dicts) policy (.ok (P.url request, fields')),
      ⟨write fields (fun _ => fields') dicts, write policyConditions (· ++ added) lists⟩)

/-- `{}` or `fields.copy()` -/
def fieldsOf (c : Args) (dicts : Objects Fields) : Ref × Objects Fields :=
  match c.fields with
  | none => alloc ∅ dicts
  | some r => alloc (deref r dicts) dicts

/-- `[]` or the list that was given -/
def conditionsOf (c : Args) (lists : Objects (List (Condition γ))) : Ref × Objects (List (Condition γ)) :=
  match c.conditions with
  | none => alloc [] lists
  | some r => (r, lists)

/-- `generate_presigned_post` of the client -/
def generatePresignedPost (c : Args) (s : Containers γ) : Outcome γ ε × Containers γ :=
  let (fields, dicts) := fieldsOf c s.dicts
  let (conditions, lists) := conditionsOf c s.lists
  match P.prepare c.bucket with
  | .error e => (.failed e, ⟨dicts, lists⟩)
  | .ok request =>
    let lists := append conditions (.field "bucket" c.bucket) lists
    let lists := append conditions (keyCondition c.key) lists
    let dicts := write fields (Finmap.insert "key" c.key) dicts
    presign P request (some fields) (some conditions) c.expiresIn ⟨dicts, lists⟩

structure St (γ ε : Type) where
  containers : Containers γ
  log : List (Outcome γ ε)

def step (st : St γ ε) (c : Args) : St γ ε :=
  let (outcome, s) := generatePresignedPost P c st.containers
  ⟨s, st.log ++ [outcome]⟩

/-! ## The presigner -/

/-- what reaches the signer, and what comes back -/
def signedOutcome (request : ρ) (fields : Fields) (conditions : List (Condition γ)) (expiresIn : ℤ) : Outcome γ ε :=
  let policy := ⟨P.expireDate expiresIn, conditions⟩
  .signed fields policy ((P.sign request fields policy).map fun r => (P.url request, r.1))

/-- the loop appends the whole list -/
theorem append_all (list : Ref) (written : List (Condition γ)) (lists : Objects (List (Condition γ))) :
    written.foldl (fun lists condition => append list condition lists) lists = write list (· ++ written) lists := by
  induction written generalizing lists with
  | nil => simp [write_id]
  | cons condition written ih =>
    rw [List.foldl_cons, ih, append, write_write]
    simp

/-- **The presigner** signs what it is given; of the caller's containers it changes the fields only. -/
theorem presign_spec (request : ρ) (fields conditions : Ref) (expiresIn : ℤ) (s : Containers γ) :
    (presign P request (some fields) (some conditions) expiresIn s).1 =
        signedOutcome P request (deref fields s.dicts) (deref conditions s.lists) expiresIn ∧
      Keeps s.lists (presign P request (some fields) (some conditions) expiresIn s).2.lists ∧
      ∃ f, (presign P request (some fields) (some conditions) expiresIn s).2.dicts = write fields f s.dicts := by
  obtain ⟨hkeeps, hpolicy, -⟩ := make_spec [] (· ++ deref conditions s.lists) s.lists
  have hlist : deref conditions s.lists = [] ++ deref conditions s.lists := rfl
  unfold presign signedOutcome
  simp only [append_all, hpolicy, ← hlist]
  split
  · rename_i e he
    refine ⟨by rw [he]; rfl, hkeeps, fun d => d, (write_id _ _).symm⟩
  · rename_i fields' added hsign
    refine ⟨by rw [hsign]; rfl, hkeeps.write_new le_rfl _, _, rfl⟩

/-! ## One call -/

def callersFields (s : Containers γ) (c : Args) : Fields :=
  match c.fields with
  | none => ∅
  | some r => deref r s.dicts

def callersConditions (s : Containers γ) (c : Args) : List (Condition γ) :=
  match c.conditions with
  | none => []
  | some r => deref r s.lists

/-- the outcome that a call's own arguments ask for: the conditions that the caller wrote, then the call's own two -/
def own (s : Containers γ) (c : Args) : Outcome γ ε :=
  match P.prepare c.bucket with
  | .error e => .failed e
  | .ok request =>
    signedOutcome P request ((callersFields s c).insert "key" c.key)
      (callersConditions s c ++ [.field "bucket" c.bucket, keyCondition c.key]) c.expiresIn

/-- no list of the caller is appended to -/
def Quiet (c : Args) : Prop := c.conditions = none ∨ ∃ e, P.prepare c.bucket = .error e

structure Valid (s : Containers γ) (c : Args) : Prop where
  fields : ∀ r, c.fields = some r → r < s.dicts.length
  conditions : ∀ r, c.conditions = some r → r < s.lists.length

/-- the two appends are one -/
theorem append_two (list : Ref) (x y : Condition γ) (lists : Objects (List (Condition γ))) :
    append list y (append list x lists) = write list (· ++ [x, y]) lists := by
  rw [append, append, write_write]
  simp

theorem fieldsOf_eq (s : Containers γ) (c : Args) : fieldsOf c s.dicts = alloc (callersFields s c) s.dicts := by
  unfold fieldsOf callersFields
  cases c.fields <;> rfl

/-- the two conditions are appended to a new list or, which shows, to the caller's -/
theorem append_spec {s₀ s : Containers γ} (hlists : Keeps s₀.lists s.lists) {c : Args} (hvalid : Valid s₀ c)
    (x y : Condition γ) :
    deref (conditionsOf c s.lists).1 (write (conditionsOf c s.lists).1 (· ++ [x, y]) (conditionsOf c s.lists).2) =
        callersConditions s c ++ [x, y] ∧
      (Keeps s₀.lists (write (conditionsOf c s.lists).1 (· ++ [x, y]) (conditionsOf c s.lists).2) ↔
        c.conditions = none) := by
  unfold conditionsOf callersConditions
  cases hc : c.conditions with
  | none =>
    obtain ⟨hkeeps, hderef, -⟩ := make_spec [] (· ++ [x, y]) s.lists
    exact ⟨hderef, fun _ => rfl, fun _ => hlists.trans hkeeps⟩
  | some r =>
    have hlt₀ := hvalid.conditions r hc
    have hlt := hlt₀.trans_le hlists.length_le
    refine ⟨deref_write _ hlt, ?_⟩
    rw [hlists.write_iff hlt₀ (get_eq_deref hlt)]
    simp

/-- **One call**, made when the lists of `s₀` are as they were: it signs what its arguments ask for, no dict of the caller
changes, and the lists of `s₀` stay iff the call is `Quiet`. -/
theorem generate_spec {s₀ s : Containers γ} (hlists : Keeps s₀.lists s.lists) (c : Args) (hvalid : Valid s₀ c) :
    (generatePresignedPost P c s).1 = own P s c ∧ Keeps s.dicts (generatePresignedPost P c s).2.dicts ∧
      (Keeps s₀.lists (generatePresignedPost P c s).2.lists ↔ Quiet P c) := by
  unfold generatePresignedPost own
  rw [fieldsOf_eq]
  cases hprepare : P.prepare c.bucket with
  | error e =>
    refine ⟨rfl, keeps_alloc _ _, fun _ => .inr ⟨e, hprepare⟩, fun _ => ?_⟩
    unfold conditionsOf
    cases c.conditions with
    | none => exact hlists.trans (keeps_alloc _ _)
    | some r => exact hlists
  | ok request =>
    have hquiet : Quiet P c ↔ c.conditions = none := by
      simp [Quiet, hprepare]
    obtain ⟨hdicts, hkey, -⟩ := make_spec (callersFields s c) (Finmap.insert "key" c.key) s.dicts
    obtain ⟨hwritten, hkeeps⟩ := append_spec hlists hvalid (.field "bucket" c.bucket) (keyCondition c.key)
    dsimp only
    rw [append_two, hquiet, ← hkeeps]
    generalize hd : write (alloc (callersFields s c) s.dicts).1 (Finmap.insert "key" c.key)
      (alloc (callersFields s c) s.dicts).2 = dicts at hdicts hkey ⊢
    have hlen : s₀.lists.length ≤ (write (conditionsOf c s.lists).1 (· ++ [.field "bucket" c.bucket, keyCondition c.key])
        (conditionsOf c s.lists).2).length := by
      rw [length_write, conditionsOf]
      split
      · exact hlists.length_le.trans (keeps_alloc [] s.lists).length_le
      · exact hlists.length_le
    generalize hl : write (conditionsOf c s.lists).1 (· ++ [.field "bucket" c.bucket, keyCondition c.key])
      (conditionsOf c s.lists).2 = lists at hwritten hkeeps hlen ⊢
    obtain ⟨hout, hpresign, f, hf⟩ := presign_spec P request (alloc (callersFields s c) s.dicts).1
      (conditionsOf c s.lists).1 c.expiresIn ⟨dicts, lists⟩
    refine ⟨?_, ?_, fun h => h.of_keeps hpresign hlen, fun h => h.trans hpresign⟩
    · rw [hout, hkey, hwritten]
    · rw [hf]
      exact hdicts.write_new le_rfl f

/-! ## Many calls -/

theorem callersFields_of_keeps {s₀ s : Containers γ} (h : Keeps s₀.dicts s.dicts) {c : Args} (hvalid : Valid s₀ c) :
    callersFields s c = callersFields s₀ c := by
  unfold callersFields
  split
  · rfl
  · rename_i r hr
    exact deref_of_keeps h (hvalid.fields r hr)

theorem callersConditions_of_keeps {s₀ s : Containers γ} (h : Keeps s₀.lists s.lists) {c : Args}
    (hvalid : Valid s₀ c) : callersConditions s c = callersConditions s₀ c := by
  unfold callersConditions
  split
  · rfl
  · rename_i r hr
    exact deref_of_keeps h (hvalid.conditions r hr)

/-- the containers of the callers are as they were, and every call had the outcome that its own arguments ask for -/
structure Inv (s₀ : Containers γ) (cs : List Args) (st : St γ ε) : Prop where
  dicts : Keeps s₀.dicts st.containers.dicts
  lists : Keeps s₀.lists st.containers.lists
  log : st.log = cs.map (own P s₀)

theorem step_inv {s₀ : Containers γ} {cs : List Args} {st : St γ ε} (h : Inv P s₀ cs st) (c : Args)
    (hvalid : Valid s₀ c) (hquiet : Quiet P c) : Inv P s₀ (cs ++ [c]) (step P st c) := by
  obtain ⟨hout, hdicts, hlists⟩ := generate_spec P h.lists c hvalid
  constructor
  · exact h.dicts.trans hdicts
  · exact hlists.2 hquiet
  · rw [own, callersFields_of_keeps h.dicts hvalid, callersConditions_of_keeps h.lists hvalid] at hout
    rw [List.map_append, ← h.log]
    simp only [step, hout]
    rfl

/-- **Presigned posts.** For every sequence of calls over containers that they may share: in every state reached the
arguments are as they were and every policy held the conditions that the caller wrote and the call's own two, iff each call
is `Quiet`. -/
theorem independent_iff (s₀ : Containers γ) (cs : List Args) (hvalid : ∀ c ∈ cs, Valid s₀ c) :
    (∀ n, Keeps s₀.dicts (run (step P) ⟨s₀, []⟩ (cs.take n)).containers.dicts ∧
        Keeps s₀.lists (run (step P) ⟨s₀, []⟩ (cs.take n)).containers.lists ∧
        (run (step P) ⟨s₀, []⟩ (cs.take n)).log = (cs.take n).map (own P s₀)) ↔
      ∀ c ∈ cs, Quiet P c := by
  refine forall_take_iff_forall (I := Inv P s₀)
    (P := fun done st => Keeps s₀.dicts st.containers.dicts ∧ Keeps s₀.lists st.containers.lists ∧
      st.log = done.map (own P s₀)) ?_ ?_ ?_ ?_
  · exact ⟨Keeps.refl _, Keeps.refl _, rfl⟩
  · intro done st c hc hinv hquiet
    exact step_inv P hinv c (hvalid c hc) hquiet
  · intro done st hinv
    exact ⟨hinv.dicts, hinv.lists, hinv.log⟩
  · intro done st c hc hinv hnot hP
    exact hnot ((generate_spec P hinv.lists c (hvalid c hc)).2.2.1 hP.2.1)

/-- what the policy of each call holds, whatever was appended before: the fields are never shared -/
theorem policy_conditions (s : Containers γ) (c : Args) (hvalid : Valid s c) {fields : Fields} {policy : Policy γ}
    {result : Except ε (String × Fields)}
    (h : (generatePresignedPost P c s).1 = .signed fields policy result) :
    fields = (callersFields s c).insert "key" c.key ∧
      policy.conditions = callersConditions s c ++ [.field "bucket" c.bucket, keyCondition c.key] := by
  rw [(generate_spec P (Keeps.refl s.lists) c hvalid).1] at h
  unfold own at h
  split at h
  · cases h
  · cases h
    exact ⟨rfl, rfl⟩

/-! ## An instance -/

/-- a signer that adds its algorithm -/
def sigV4 : Signing ℕ String String where
  prepare bucket := .ok bucket
  expireDate n := toString n
  url bucket := "https://" ++ bucket ++ ".s3.amazonaws.com"
  sign _ fields _ :=
    .ok (fields.insert "x-amz-algorithm" "AWS4-HMAC-SHA256", [.field "x-amz-algorithm" "AWS4-HMAC-SHA256"])

/-- no dict, and the list `[{'acl': 'public-read'}]` -/
def oneList : Containers ℕ := ⟨[], [[.field "acl" "public-read"]]⟩

theorem independent_without_conditions :
    (run (step sigV4) ⟨oneList, []⟩ [⟨"a", "k", none, none, 3600⟩, ⟨"b", "k", none, none, 3600⟩]).log =
      [⟨"a", "k", none, none, 3600⟩, ⟨"b", "k", none, none, 3600⟩].map (own sigV4 oneList) := by
  refine ((independent_iff sigV4 oneList [⟨"a", "k", none, none, 3600⟩, ⟨"b", "k", none, none, 3600⟩] ?_).2 ?_ 2).2.2
  · intro c hc
    simp only [List.mem_cons, List.not_mem_nil, or_false] at hc
    rcases hc with rfl | rfl
    all_goals
      constructor
      · intro r hr
        cases hr
      · intro r hr
        cases hr
  · intro c hc
    simp only [List.mem_cons, List.not_mem_nil, or_false] at hc
    rcases hc with rfl | rfl
    all_goals exact .inl rfl

/-- the conditions of the policy that reached the signer -/
def policyOf {γ ε : Type} : Outcome γ ε → List (Condition γ)
  | .failed _ => []
  | .signed _ policy _ => policy.conditions

/-- **Conditions accumulate.** The second of two calls with the same list signs the bucket and the key of the first as
well. -/
theorem conditions_accumulate :
    ¬ ∀ (s₀ : Containers ℕ) (cs : List Args), (∀ c ∈ cs, Valid s₀ c) →
        ∀ n, Keeps s₀.dicts (run (step sigV4) ⟨s₀, []⟩ (cs.take n)).containers.dicts ∧
          Keeps s₀.lists (run (step sigV4) ⟨s₀, []⟩ (cs.take n)).containers.lists ∧
          (run (step sigV4) ⟨s₀, []⟩ (cs.take n)).log = (cs.take n).map (own sigV4 s₀) := by
  intro hall
  have hvalid : ∀ c ∈ [(⟨"a", "k", none, some 0, 3600⟩ : Args), ⟨"b", "k", none, some 0, 3600⟩], Valid oneList c := by
    intro c hc
    simp only [List.mem_cons, List.not_mem_nil, or_false] at hc
    rcases hc with rfl | rfl
    all_goals
      constructor
      · intro r hr
        cases hr
      · intro r hr
        cases hr
        decide
  have hlog := (hall oneList _ hvalid 2).2.2
  have hpolicies := congrArg (List.map policyOf) hlog
  revert hpolicies
  decide

end AioBotocore.PresignedPost

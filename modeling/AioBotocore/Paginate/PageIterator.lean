/-
`AioPageIterator` of `paginate.py`, with the functions of botocore's `PageIterator` it calls: `_handle_first_request`,
`_truncate_response`, `_get_next_token`, `_inject_token_into_kwargs`.

The service is a function from the input tokens of a request to a page. `V` are the values a page holds and the code
does not look into, `K` the input tokens (each has an output token), `κ` the result keys but for the first, the primary
one. What JMESPath expressions find in a page are the fields of `Page`; they do not overlap, so the tokens are not
computed from the results. A resume token is what its text encodes.

- `AioPageIterator.anext`: the loop. Its requests, the pages it yields, and how it ends.
- `buildFullResult`: `build_full_result`.
- `runs`: iterators one after the other, each started from the resume token of the one before.
-/
import Mathlib.Tactic

namespace AioBotocore.Paginate

/-! ## Pages -/

/-- what a result key is; the service model fixes it -/
inductive Kind where
  | list
  | str
  | num
  | other
deriving DecidableEq, Repr

@[reducible] def Kind.Val (V : Type) : Kind → Type
  | .list => List V
  | .str => String
  | .num => ℤ
  | .other => V

/-- what is left of a value that the previous run had delivered -/
def Kind.emptyValue {V : Type} : (k : Kind) → Option (k.Val V) → Option (k.Val V)
  | .list, some _ => some ([] : List V)
  | .str, some _ => some ""
  | .num, some _ => some (0 : ℤ)
  | .other, _ => none
  | _, none => none

/-- `build_full_result` adds a value to the one it has -/
def Kind.add {V : Type} : (k : Kind) → Option (k.Val V) → Option (k.Val V) → Option (k.Val V)
  | _, existing, none => existing
  | _, none, some v => some v
  | .list, some (a : List V), some b => some (a ++ b : List V)
  | .str, some (a : String), some b => some (a ++ b : String)
  | .num, some (a : ℤ), some b => some (a + b : ℤ)
  | .other, some a, some _ => some a

/-- the values of a list result key; a key of another kind has none -/
def Kind.values {V : Type} : (k : Kind) → Option (k.Val V) → List V
  | .list, some (a : List V) => a
  | _, _ => []

structure Page (V K : Type) {κ : Type} (kind : κ → Kind) where
  primary : Option (List V)
  secondary : (k : κ) → Option ((kind k).Val V)
  nonAggregate : V
  outputToken : K → Option V
  moreResults : Option V

/-- the input tokens of a request -/
abbrev Request (V K : Type) : Type := K → Option V

/-- a `next_token` dict -/
abbrev Tokens (V K : Type) : Type := K → Option V

structure Resume (V K : Type) where
  tokens : Tokens V K
  botoTruncateAmount : Option ℕ

structure Cfg (V : Type) where
  truthy : V → Bool
  /-- the text `'None'` -/
  isNoneText : V → Bool
  /-- the operation has a `more_results` expression -/
  hasMoreResults : Bool

section Functions

variable {V K κ : Type} {kind : κ → Kind} (cfg : Cfg V)

def Page.items (p : Page V K kind) : List V := p.primary.getD []

/-- every input token is in `next_token`, so nothing of an earlier request stays -/
def injectTokenIntoKwargs (nextToken : Tokens V K) : Request V K :=
  fun k => (nextToken k).filter fun token => !cfg.isNoneText token

def parseStartingToken (r : Resume V K) : Tokens V K × ℕ := (r.tokens, r.botoTruncateAmount.getD 0)

def Page.handleFirstRequest (parsed : Page V K kind) (r : Resume V K) : Page V K kind × ℕ :=
  let startingTruncation := (parseStartingToken r).2
  ({ parsed with
    primary := parsed.primary.map fun allData => allData.drop startingTruncation
    secondary := fun k => (kind k).emptyValue (parsed.secondary k) }, startingTruncation)

def Page.truncateResponse (parsed : Page V K kind) (truncateAmount startingTruncation : ℕ) (nextToken : Tokens V K) :
    Page V K kind × Resume V K :=
  let amountToKeep := parsed.items.length - truncateAmount
  ({ parsed with primary := some (parsed.items.take amountToKeep) },
    ⟨nextToken, some (amountToKeep + startingTruncation)⟩)

/-- `none` is the empty dict -/
def Page.getNextToken (parsed : Page V K kind) : Option (Tokens V K) :=
  if cfg.hasMoreResults && !(parsed.moreResults.any cfg.truthy) then none
  else some fun k => (parsed.outputToken k).filter cfg.truthy

/-- the next token, unless all its values are `None` -/
def Page.following [Fintype K] (parsed : Page V K kind) : Option (Tokens V K) :=
  (parsed.getNextToken cfg).filter fun t => !decide (∀ k, (t k).isNone)

end Functions

/-! ## The loop -/

inductive Ending where
  | finished
  /-- `PaginationError`: the same next token twice -/
  | paginationError
  /-- still running -/
  | running
deriving DecidableEq, Repr

structure Iteration (V K : Type) {κ : Type} (kind : κ → Kind) where
  requests : List (Request V K)
  pages : List (Page V K kind)
  resumeToken : Option (Resume V K)
  nonAggregatePart : Option V
  ending : Ending

/-- a page is yielded before the rest of the iteration -/
def Iteration.after {V K κ : Type} {kind : κ → Kind} (o : Iteration V K kind) (request : Request V K) (page : Page V K kind)
    (nonAggregatePart : Option V) : Iteration V K kind :=
  { o with requests := request :: o.requests, pages := page :: o.pages,
           nonAggregatePart := nonAggregatePart <|> o.nonAggregatePart }

structure AioPageIterator (V K : Type) {κ : Type} (kind : κ → Kind) where
  cfg : Cfg V
  method : Request V K → Page V K kind
  maxItems : Option ℕ
  startingToken : Option (Resume V K)

/-- the variables of the loop -/
structure Loop (V K : Type) where
  currentKwargs : Request V K
  previousNextToken : Option (Tokens V K)
  nextToken : Tokens V K
  totalItems : ℕ
  firstRequest : Bool

namespace AioPageIterator

variable {V K κ : Type} {kind : κ → Kind}

def start (it : AioPageIterator V K kind) : Loop V K :=
  match it.startingToken with
  | none => ⟨fun _ => none, none, fun _ => none, 0, true⟩
  | some r => ⟨injectTokenIntoKwargs it.cfg (parseStartingToken r).1, none, (parseStartingToken r).1, 0, true⟩

/-- the response, and the starting truncation -/
def makeRequest (it : AioPageIterator V K kind) (s : Loop V K) : Page V K kind × ℕ :=
  match s.firstRequest, it.startingToken with
  | true, some r => (it.method s.currentKwargs).handleFirstRequest r
  | _, _ => (it.method s.currentKwargs, 0)

variable [Fintype K] [DecidableEq V]

/-- the loop of `__anext__`, for at most so many requests -/
def anext (it : AioPageIterator V K kind) : ℕ → Loop V K → Iteration V K kind
  | 0, _ => ⟨[], [], none, none, .running⟩
  | fuel + 1, s =>
    let response := it.makeRequest s
    let parsed := response.1
    let startingTruncation := response.2
    let nonAggregatePart := if s.firstRequest then some parsed.nonAggregate else none
    let numCurrentResponse := parsed.items.length
    let truncateAmount :=
      match it.maxItems with
      | none => 0
      | some maxItems => s.totalItems + numCurrentResponse - maxItems
    if 0 < truncateAmount then
      let truncated := parsed.truncateResponse truncateAmount startingTruncation s.nextToken
      ⟨[s.currentKwargs], [truncated.1], some truncated.2, nonAggregatePart, .finished⟩
    else
      let totalItems := s.totalItems + numCurrentResponse
      match parsed.following it.cfg with
      | none => ⟨[s.currentKwargs], [parsed], none, nonAggregatePart, .finished⟩
      | some nextToken =>
        if it.maxItems = some totalItems then
          ⟨[s.currentKwargs], [parsed], some ⟨nextToken, none⟩, nonAggregatePart, .finished⟩
        else if s.previousNextToken = some nextToken then
          ⟨[s.currentKwargs], [parsed], none, nonAggregatePart, .paginationError⟩
        else
          (it.anext fuel ⟨injectTokenIntoKwargs it.cfg nextToken, some nextToken, nextToken, totalItems, false⟩).after
            s.currentKwargs parsed nonAggregatePart

def iterate (it : AioPageIterator V K kind) (fuel : ℕ) : Iteration V K kind := it.anext fuel it.start

end AioPageIterator

/-! ## Full results -/

structure FullResult (V K : Type) {κ : Type} (kind : κ → Kind) where
  primary : Option (List V)
  secondary : (k : κ) → Option ((kind k).Val V)
  nonAggregatePart : Option V
  nextToken : Option (Resume V K)

section FullResults

variable {V K κ : Type} {kind : κ → Kind}

def FullResult.addPage (r : FullResult V K kind) (page : Page V K kind) : FullResult V K kind :=
  { r with primary := Kind.add .list r.primary page.primary,
           secondary := fun k => (kind k).add (r.secondary k) (page.secondary k) }

/-- `none` when the iteration raised -/
def buildFullResult (o : Iteration V K kind) : Option (FullResult V K kind) :=
  match o.ending with
  | .finished =>
    let r : FullResult V K kind := o.pages.foldl FullResult.addPage ⟨none, fun _ => none, none, none⟩
    some { r with nonAggregatePart := o.nonAggregatePart, nextToken := o.resumeToken }
  | _ => none

/-! ## Resumed runs -/

variable [Fintype K] [DecidableEq V]

/-- one iterator for each limit, until one leaves no resume token -/
def runs (cfg : Cfg V) (method : Request V K → Page V K kind) (fuel : ℕ) :
    Option (Resume V K) → List ℕ+ → List (Iteration V K kind)
  | _, [] => []
  | startingToken, m :: ms =>
    let o := AioPageIterator.iterate ⟨cfg, method, some m, startingToken⟩ fuel
    o :: match o.resumeToken with
      | none => []
      | some r => runs cfg method fuel (some r) ms

end FullResults

end AioBotocore.Paginate

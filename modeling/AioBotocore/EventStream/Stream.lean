/-
Model of `AioEventStream` (`eventstream.py`) and of the parsers' `_handle_event_stream` (`parsers.py`).

One raw generator decodes the chunks of the response; `get_initial_response` and every `async for` (each of which makes
an outer generator of its own) advance this one generator. It keeps its place when an outer generator is broken off.

`Framing.Decoder` is botocore's `EventStreamBuffer`; `EventParser` is what an event and the response parser offer.

- `anext_spec`, `getInitialResponse_spec`: what one call takes of the items still pending.
- `iteration_delivers`: for any cut of the bytes and any use of outer generators, also after `get_initial_response`, what
  was delivered and the outcomes of what is pending are, in order, the outcomes of the items of the whole byte string;
  an outer generator ends by itself only when nothing is pending.
- `chunking_irrelevant`: two cuts of the same bytes deliver the same.
- `handleEventStream_spec`: the JSON and CBOR parsers take the first message off the stream they return.
-/
import AioBotocore.Async.Run
import AioBotocore.EventStream.Framing

namespace AioBotocore.EventStream

open Framing Async

/-! ## Model -/

/-- what is read of an event (`to_response_dict`, `headers`) and what the response parser makes of it; `ξ` are the
exceptions, `π` the parsed responses -/
structure EventParser (μ π ξ : Type*) where
  statusCode : μ → ℕ
  eventType : μ → Option String
  parse : μ → Except ξ π
  isEmpty : π → Bool

inductive Err (π ξ : Type*) where
  | eventStreamError (parsedResponse : π) (operationName : String)
  | noInitialResponse
  | responseParserError (msg : String)
  | other (e : ξ)
deriving DecidableEq, Repr

/-- the raw event generator: suspended, or ended (by a return or by an exception) -/
inductive Raw (α : Type*) where
  | suspended (feed : Feed α)
  | ended
deriving DecidableEq, Repr

inductive RawOut (μ ξ : Type*) where
  | event (m : μ)
  | stop
  | raised (e : ξ)
deriving DecidableEq, Repr

variable {α μ π ξ : Type*} (D : Decoder α μ ξ) (P : EventParser μ π ξ) (operationName : String)
  (failure : Option ξ)

/-- `_create_raw_event_generator`, from one `yield` to the next. `failure` is the exception with which the content ends,
if it does not simply end. -/
def rawNext : Raw α → RawOut μ ξ × Raw α
  | .ended => (.stop, .ended)
  | .suspended feed =>
    match pull D feed with
    | .message m feed' => (.event m, .suspended feed')
    | .broken e => (.raised e, .ended)
    | .needMore =>
      match failure with
      | none => (.stop, .ended)
      | some e => (.raised e, .ended)

/-- the items the raw generator has still to yield -/
def Raw.pending : Raw α → List (Item μ ξ)
  | .suspended feed => items D failure feed.bytes
  | .ended => []

/-- the generator's next step takes the first pending item -/
inductive Takes (r : Raw α) : RawOut μ ξ × Raw α → Prop where
  | event (m : μ) (r' : Raw α) (h : r.pending D failure = .message m :: r'.pending D failure) : Takes r (.event m, r')
  | raised (e : ξ) (h : r.pending D failure = [.broken e]) : Takes r (.raised e, .ended)
  | stop (h : r.pending D failure = []) : Takes r (.stop, .ended)

theorem rawNext_takes (r : Raw α) : Takes D failure r (rawNext D failure r) := by
  cases r with
  | ended => exact .stop rfl
  | suspended feed =>
    have hdec := decode_bytes D feed
    simp only [rawNext]
    split
    · rename_i m feed' h
      rw [h] at hdec
      exact .event m _ (items_message failure hdec)
    · rename_i e h
      rw [h] at hdec
      exact .raised e (items_broken failure hdec)
    · rename_i h
      rw [h] at hdec
      have hpending : (Raw.suspended feed).pending D failure = failure.toList.map .broken :=
        items_needMore failure hdec
      split
      · exact .stop hpending
      · exact .raised _ hpending

/-- `_parse_event` -/
def parseEvent (m : μ) : Except (Err π ξ) π :=
  match P.parse m with
  | .error e => .error (.other e)
  | .ok parsedResponse =>
    if P.statusCode m = 200 then .ok parsedResponse
    else .error (.eventStreamError parsedResponse operationName)

inductive Out (μ π ξ : Type*) where
  | event (parsedEvent : π)
  | raised (e : Err π ξ)
  | stop
deriving DecidableEq, Repr

/-- `AioEventStream.__anext__` (an outer generator), from one `yield` to the next -/
def anext (r : Raw α) : Out μ π ξ × Raw α :=
  match _h : rawNext D failure r with
  | (.event m, r') =>
    match parseEvent P operationName m with
    | .ok parsedEvent => if P.isEmpty parsedEvent then anext r' else (.event parsedEvent, r')
    | .error e => (.raised e, r')
  | (.stop, r') => (.stop, r')
  | (.raised e, r') => (.raised (.other e), r')
termination_by (r.pending D failure).length
decreasing_by
  have htakes := rawNext_takes D failure r
  rw [‹rawNext D failure r = _›] at htakes
  cases htakes with
  | event _ _ h => simp [h]

theorem anext_event {r r' : Raw α} {m : μ} (h : rawNext D failure r = (.event m, r')) :
    anext D P operationName failure r =
      match parseEvent P operationName m with
      | .ok p => if P.isEmpty p then anext D P operationName failure r' else (.event p, r')
      | .error e => (.raised e, r') := by
  rw [anext]
  split <;> simp_all

theorem anext_stop {r r' : Raw α} (h : rawNext D failure r = (.stop, r')) :
    anext D P operationName failure r = (.stop, r') := by
  rw [anext]
  split <;> simp_all

theorem anext_raised {r r' : Raw α} {e : ξ} (h : rawNext D failure r = (.raised e, r')) :
    anext D P operationName failure r = (.raised (.other e), r') := by
  rw [anext]
  split <;> simp_all

/-- `get_initial_response` -/
def getInitialResponse (r : Raw α) : Except (Err π ξ) μ × Raw α :=
  match rawNext D failure r with
  | (.event m, r') =>
    if P.eventType m = some "initial-response" then (.ok m, r') else (.error .noInitialResponse, r')
  | (.stop, r') => (.error .noInitialResponse, r')
  | (.raised e, r') => (.error (.other e), r')

/-! ## What one call takes -/

/-- what an item is to the caller of the outer generator; nothing, if its parsed form is empty -/
def outcome : Item μ ξ → Option (Out μ π ξ)
  | .message m =>
    match parseEvent P operationName m with
    | .ok parsedEvent => if P.isEmpty parsedEvent then none else some (.event parsedEvent)
    | .error e => some (.raised e)
  | .broken e => some (.raised (.other e))

/-- the first item that is anything to the caller, and those after it -/
def nextItem : List (Item μ ξ) → Out μ π ξ × List (Item μ ξ)
  | [] => (.stop, [])
  | it :: l =>
    match outcome P operationName it with
    | some out => (out, l)
    | none => nextItem l

/-- **One step of an outer generator** takes the items up to the first that is anything to its caller. -/
theorem anext_spec (r : Raw α) :
    nextItem P operationName (r.pending D failure) =
      ((anext D P operationName failure r).1, (anext D P operationName failure r).2.pending D failure) := by
  have htakes := rawNext_takes D failure r
  induction r using anext.induct D P operationName failure with
  | case1 r m r' h p hparse hempty ih =>
    rw [h] at htakes
    cases htakes with
    | event _ _ hpending =>
      rw [hpending, nextItem, anext_event D P operationName failure h]
      simp [outcome, hparse, hempty, ih (rawNext_takes D failure r')]
  | case2 r m r' h p hparse hempty =>
    rw [h] at htakes
    cases htakes with
    | event _ _ hpending =>
      rw [hpending, nextItem, anext_event D P operationName failure h]
      simp [outcome, hparse, hempty]
  | case3 r m r' h e hparse =>
    rw [h] at htakes
    cases htakes with
    | event _ _ hpending =>
      rw [hpending, nextItem, anext_event D P operationName failure h]
      simp [outcome, hparse]
  | case4 r r' h =>
    rw [h] at htakes
    cases htakes with
    | stop hpending =>
      rw [hpending, nextItem, anext_stop D P operationName failure h]
      rfl
  | case5 r e r' h =>
    rw [h] at htakes
    cases htakes with
    | raised _ hpending =>
      rw [hpending, nextItem, anext_raised D P operationName failure h]
      rfl

theorem getInitialResponse_spec (r : Raw α) :
    (getInitialResponse D P failure r).2.pending D failure = (r.pending D failure).tail ∧
      ∀ m, (getInitialResponse D P failure r).1 = .ok m ↔
        (r.pending D failure).head? = some (.message m) ∧ P.eventType m = some "initial-response" := by
  have htakes := rawNext_takes D failure r
  unfold getInitialResponse
  split
  all_goals
    rename_i h
    rw [h] at htakes
  · cases htakes with
    | event m' r' hpending =>
      rw [hpending]
      split
      · rename_i htype
        refine ⟨rfl, fun m => ?_⟩
        simp only [Except.ok.injEq, List.head?_cons, Option.some.injEq, Item.message.injEq]
        exact ⟨fun hm => ⟨hm, hm ▸ htype⟩, fun hm => hm.1⟩
      · rename_i htype
        refine ⟨rfl, fun m => ?_⟩
        simp only [reduceCtorEq, List.head?_cons, Option.some.injEq, Item.message.injEq, false_iff, not_and]
        intro hm
        rw [← hm]
        exact htype
  · cases htakes with
    | stop hpending => rw [hpending]; simp [Raw.pending]
  · cases htakes with
    | raised e hpending => rw [hpending]; simp [Raw.pending]

/-! ## Loops over the stream -/

/-- what is delivered to the loop by a step of its generator -/
def delivered : Out μ π ξ → List (Out μ π ξ)
  | .stop => []
  | out => [out]

theorem nextItem_outcomes (l : List (Item μ ξ)) :
    l.filterMap (outcome P operationName) =
      delivered (nextItem P operationName l).1 ++
        (nextItem P operationName l).2.filterMap (outcome P operationName) := by
  induction l with
  | nil => rfl
  | cons it l ih =>
    rw [nextItem]
    cases hout : outcome P operationName it with
    | none => rw [List.filterMap_cons_none hout, ih]
    | some out =>
      have hdelivered : delivered out = [out] := by
        cases out with
        | stop => cases it <;> simp only [outcome] at hout <;> (try split at hout) <;> simp_all
        | _ => rfl
      rw [List.filterMap_cons_some hout, hdelivered]
      rfl

theorem nextItem_stop {l : List (Item μ ξ)} (h : (nextItem P operationName l).1 = .stop) :
    (nextItem P operationName l).2 = [] := by
  induction l with
  | nil => rfl
  | cons it l ih =>
    rw [nextItem] at h ⊢
    split at h
    · rename_i out hout
      cases it <;> simp only [outcome] at hout <;> (try split at hout) <;> simp_all
    · rename_i hout
      exact ih h

/-- the stream, the outer generators made so far (whether each is still running) and what they gave their loops -/
structure St (α μ π ξ : Type*) where
  raw : Raw α
  gens : List Bool
  log : List (Out μ π ξ)
deriving DecidableEq, Repr

inductive Op where
  | aiter
  | anext (g : ℕ)
  | aclose (g : ℕ)
deriving DecidableEq, Repr

def Out.running : Out μ π ξ → Bool
  | .event _ => true
  | _ => false

/-- `async for` makes a generator (`__aiter__`), asks it for events, and may drop it. A generator that has ended runs no
code any more. -/
def step (s : St α μ π ξ) : Op → St α μ π ξ
  | .aiter => { s with gens := s.gens ++ [true] }
  | .anext g =>
    if s.gens[g]? = some true then
      let (out, raw) := anext D P operationName failure s.raw
      ⟨raw, s.gens.set g out.running, s.log ++ [out]⟩
    else s
  | .aclose g => { s with gens := s.gens.set g false }

/-- a stream over a response that comes in these chunks; `initial`: its initial response has been asked for -/
def start (chunks : List (List α)) (initial : Bool) : St α μ π ξ :=
  let raw := .suspended ⟨[], chunks⟩
  ⟨if initial then (getInitialResponse D P failure raw).2 else raw, [], []⟩

/-- what the loops can get of a byte string -/
def available (b : List α) (initial : Bool) : List (Item μ ξ) :=
  if initial then (items D failure b).tail else items D failure b

theorem start_pending (chunks : List (List α)) (initial : Bool) :
    (start D P failure chunks initial : St α μ π ξ).raw.pending D failure =
      available D failure chunks.flatten initial := by
  cases initial with
  | false => rfl
  | true => exact (getInitialResponse_spec D P failure _).1

/-- nothing is lost or delivered twice, and a generator ends by itself when nothing is pending -/
structure Inv (avail : List (Item μ ξ)) (s : St α μ π ξ) : Prop where
  whole : s.log.flatMap delivered ++ (s.raw.pending D failure).filterMap (outcome P operationName) =
    avail.filterMap (outcome P operationName)
  stop : .stop ∈ s.log → s.raw.pending D failure = []

theorem step_inv (avail : List (Item μ ξ)) (s : St α μ π ξ) (o : Op) (h : Inv D P operationName failure avail s) :
    Inv D P operationName failure avail (step D P operationName failure s o) := by
  cases o with
  | aiter => exact ⟨h.whole, h.stop⟩
  | aclose g => exact ⟨h.whole, h.stop⟩
  | anext g =>
    rw [step]
    split
    · have hspec := anext_spec D P operationName failure s.raw
      have houtcomes := nextItem_outcomes P operationName (s.raw.pending D failure)
      rw [hspec] at houtcomes
      constructor
      · rw [List.flatMap_append, List.append_assoc, ← h.whole, houtcomes]
        simp
      · intro hstop
        rcases List.mem_append.1 hstop with hbefore | hnow
        · have hnil := h.stop hbefore
          rw [hnil] at hspec
          exact (congrArg Prod.snd hspec).symm
        · have hout := (List.mem_singleton.1 hnow).symm
          have hleft := nextItem_stop P operationName ((congrArg Prod.fst hspec).trans hout)
          rw [hspec] at hleft
          exact hleft
    · exact h

/-- **Delivery.** However the bytes are cut into chunks, and however loops are started, broken off and resumed: what the
loops were given is, in order, the outcomes of the first items of the whole byte string, and the rest is still to come. A
loop that ran to its end has left nothing. -/
theorem iteration_delivers (chunks : List (List α)) (initial : Bool) (ops : List Op) :
    let s := run (step D P operationName failure) (start D P failure chunks initial) ops
    s.log.flatMap delivered ++ (s.raw.pending D failure).filterMap (outcome P operationName) =
        (available D failure chunks.flatten initial).filterMap (outcome P operationName) ∧
      (.stop ∈ s.log → s.raw.pending D failure = []) := by
  have hstart : Inv D P operationName failure (available D failure chunks.flatten initial)
      (start D P failure chunks initial) := by
    constructor
    · rw [start_pending]; rfl
    · intro hstop
      exact absurd hstop List.not_mem_nil
  have hrun := run_inv (step_inv D P operationName failure (available D failure chunks.flatten initial)) hstart ops
  exact ⟨hrun.whole, hrun.stop⟩

/-! ## Cuts -/

/-- two states that only differ in how the bytes to come are cut -/
structure Alike (s s' : St α μ π ξ) : Prop where
  pending : s.raw.pending D failure = s'.raw.pending D failure
  gens : s.gens = s'.gens
  log : s.log = s'.log

theorem step_alike {s s' : St α μ π ξ} (h : Alike D failure s s') (o : Op) :
    Alike D failure (step D P operationName failure s o) (step D P operationName failure s' o) := by
  have hspec := anext_spec D P operationName failure s.raw
  have hspec' := anext_spec D P operationName failure s'.raw
  rw [h.pending, hspec'] at hspec
  obtain ⟨hout, hraw⟩ := Prod.mk.inj hspec
  cases o with
  | aiter => exact ⟨h.pending, by simp [step, h.gens], h.log⟩
  | aclose g => exact ⟨h.pending, by simp [step, h.gens], h.log⟩
  | anext g =>
    simp only [step, h.gens]
    split
    · exact ⟨hraw.symm, by simp [hout], by simp [hout, h.log]⟩
    · exact ⟨h.pending, h.gens, h.log⟩

theorem run_alike {s s' : St α μ π ξ} (h : Alike D failure s s') (ops : List Op) :
    Alike D failure (run (step D P operationName failure) s ops) (run (step D P operationName failure) s' ops) := by
  induction ops generalizing s s' with
  | nil => exact h
  | cons o ops ih => exact ih (step_alike D P operationName failure h o)

/-- **Two cuts of the same bytes** give every loop the same. -/
theorem chunking_irrelevant {chunks chunks' : List (List α)} (h : chunks.flatten = chunks'.flatten) (initial : Bool)
    (ops : List Op) :
    (run (step D P operationName failure) (start D P failure chunks initial) ops).log =
      (run (step D P operationName failure) (start D P failure chunks' initial) ops).log := by
  have hstart : Alike D failure (start D P failure chunks initial) (start D P failure chunks' initial) := by
    constructor
    · rw [start_pending, start_pending, h]
    · rfl
    · rfl
  exact (run_alike D P operationName failure hstart ops).log

/-! ## The parsers -/

/-- `AioJSONParser._handle_event_stream` and `AioRpcV2CBORParser._handle_event_stream`: `parseBody` is the parser's own
reading of the first event's payload (`_handle_json_body`, `_initial_body_parse`) -/
def handleEventStream {β : Type*} (parseBody : μ → Except ξ β) (r : Raw α) : Except (Err π ξ) (β × Raw α) :=
  match getInitialResponse (π := π) D P failure r with
  | (.ok event, stream) => (parseBody event).mapError .other |>.map (·, stream)
  | (.error .noInitialResponse, _) =>
    .error (.responseParserError "First event was not of type initial-response")
  | (.error e, _) => .error e

/-- the parsed response carries the stream behind its initial response -/
theorem handleEventStream_spec {β : Type*} (parseBody : μ → Except ξ β) (chunks : List (List α)) {parsed : β}
    {stream : Raw α}
    (h : handleEventStream (π := π) D P failure parseBody (.suspended ⟨[], chunks⟩) = .ok (parsed, stream)) :
    ∃ event, (items D failure chunks.flatten).head? = some (.message event) ∧
      P.eventType event = some "initial-response" ∧ parseBody event = .ok parsed ∧
      (⟨stream, [], []⟩ : St α μ π ξ) = start D P failure chunks true := by
  have hspec := (getInitialResponse_spec D P (π := π) failure (.suspended ⟨[], chunks⟩)).2
  unfold handleEventStream at h
  split at h
  · rename_i event stream' hinit
    rw [hinit] at hspec
    obtain ⟨hhead, htype⟩ := (hspec event).1 rfl
    refine ⟨event, hhead, htype, ?_⟩
    cases hbody : parseBody event with
    | error e => simp [hbody, Except.mapError, Except.map] at h
    | ok b =>
      simp only [hbody, Except.mapError, Except.map, Except.ok.injEq, Prod.mk.injEq] at h
      obtain ⟨rfl, rfl⟩ := h
      simp [start, hinit]
  · cases h
  · cases h

end AioBotocore.EventStream

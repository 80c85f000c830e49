/-
`iter_lines` splits the whole body into lines, however it arrives.

- `Feeds`: a class of bodies whose reads give the next bytes, and none only at the end.
- `Reads`: where `iter_lines` stands. What it has yielded, the lines it has ready and the pending one are the lines of
  the bytes read so far.
- `iter_lines_splits`: the four classes.
-/
import Mathlib.Tactic
import AioBotocore.Response.EndOfStream

namespace AioBotocore.Response

open Async Octets

/-! ## Bodies that feed their reader -/

/-- `rest` are the bytes a body has still to give; no read fails as an empty list of lines would -/
structure Feeds {β : Type*} (C : BodyClass β) where
  Valid : β → Prop
  rest : β → Bytes
  ok : ∀ b (n : ℕ+) c, Valid b → (C.read b (some n)).1 = .ok c →
    Valid (C.read b (some n)).2 ∧ rest b = c ++ rest (C.read b (some n)).2 ∧ (c = [] → rest b = [])
  error : ∀ b (n : ℕ+) e, (C.read b (some n)).1 = .error e → e ≠ .index

/-- the bytes that are still to come from an `aiohttp.StreamReader` -/
structure Content {ρ : Type*} (R : StreamReader ρ) where
  rest : ρ → Bytes
  read_rest : ∀ r n c, 0 < n → (R.read r n).1 = .ok c → rest r = c ++ rest (R.read r n).2
  eof_rest : ∀ r, R.atEof r = true → rest r = []

theorem convert_ne_index (url : String) (e : StreamExn) : e.convert url ≠ .index := by
  cases e <;> simp [StreamExn.convert]

theorem map_error {ε α β : Type*} {x : Except ε α} {f : α → β} {e : ε} (h : x.map f = .error e) : x = .error e := by
  cases x with
  | error e' => simpa [Except.map] using h
  | ok a => cases h

theorem verify_ne_index {contentLength : Option ℤ} {count : ℕ} {c : Bytes} {e : Exn}
    (h : ((verifyContentLength contentLength count).map fun _ => c) = .error e) : e ≠ .index := by
  have hv := map_error h
  unfold verifyContentLength at hv
  split at hv
  · cases hv
  · split_ifs at hv
    obtain rfl := Except.error.inj hv
    simp

def aioStreamingBody_feeds {ρ : Type*} {R : StreamReader ρ} (T : Content R) : Feeds (aioStreamingBody R) where
  Valid _ := True
  rest s := T.rest s.content
  ok s n c _ h := by
    have hn : (0 : ℤ) < n := by exact_mod_cast n.pos
    have hrest := T.read_rest s.content n
    have hnil := R.nil_eof s.content n hn
    simp only [aioStreamingBody, AioStreamingBody.read, Option.getD_some] at h ⊢
    cases hr : R.read s.content n with
    | mk res content =>
      rw [hr] at h hrest hnil
      cases res with
      | error e => cases h
      | ok chunk =>
        have hend : ∀ c, c = chunk → True ∧ T.rest s.content = c ++ T.rest content ∧ (c = [] → T.rest s.content = []) := by
          rintro c rfl
          refine ⟨trivial, hrest c hn rfl, ?_⟩
          rintro rfl
          rw [hrest [] hn rfl, T.eof_rest content (hnil rfl)]
          rfl
        simp only at h ⊢
        split_ifs at h ⊢
        · obtain ⟨_, -, hc⟩ := map_ok h
          exact hend c hc.symm
        · exact hend c (Except.ok.inj h).symm
  error s n e h := by
    simp only [aioStreamingBody, AioStreamingBody.read, Option.getD_some] at h
    cases hr : R.read s.content n with
    | mk res content =>
      rw [hr] at h
      cases res with
      | error e' =>
        obtain rfl := Except.error.inj h
        exact convert_ne_index _ _
      | ok chunk =>
        simp only at h
        split_ifs at h
        exact verify_ne_index h

theorem fillBuffer_ne_index (url : String) (minBytes : ℕ) (buffer : Bytes) (exhausted : Bool) (stream : List Event)
    {e : Exn} (h : (fillBuffer url minBytes buffer exhausted stream).1 = .error e) : e ≠ .index := by
  induction stream generalizing buffer with
  | nil => simp [fillBuffer] at h
  | cons ev rest ih =>
    cases ev with
    | chunk c =>
      simp only [fillBuffer] at h
      split_ifs at h
      · exact ih _ h
    | raises e' =>
      simp only [fillBuffer] at h
      split_ifs at h
      · obtain rfl := Except.error.inj h
        exact convert_ne_index _ _

open AioHttpxStreamingBody in
theorem httpx_read_ok (s : AioHttpxStreamingBody) (n : ℕ+) (c : Bytes) (hv : s.Valid)
    (h : (aioHttpxStreamingBody.read s (some n)).1 = .ok c) :
    (aioHttpxStreamingBody.read s (some n)).2.Valid ∧ s.rest = c ++ (aioHttpxStreamingBody.read s (some n)).2.rest ∧
      (c = [] → s.rest = []) := by
  have hneg : ¬ ((n : ℕ) : ℤ) < 0 := by omega
  obtain ⟨hc, hs⟩ := read_refines (q := ⟨s.tell, s.rest⟩) ⟨hv, rfl, rfl⟩ h
  have hwant : (Call.read (some ((n : ℕ) : ℤ))).wanted = some (n : ℕ) := by simp [Call.wanted, hneg]
  rw [hwant] at hc
  refine ⟨hs.valid, ?_, fun hnil => ?_⟩
  · have hleft : (s.read (some n)).2.rest = s.rest.drop c.length := hs.left
    rw [aioHttpxStreamingBody, hleft, hc]
    exact (dequeue_append s.rest (some n)).symm
  · have hpos := n.pos
    exact (List.take_eq_nil_iff.1 (hc.symm.trans hnil)).resolve_left (by omega)

open AioHttpxStreamingBody in
theorem httpx_read_error (s : AioHttpxStreamingBody) (n : ℕ+) (e : Exn)
    (h : (aioHttpxStreamingBody.read s (some n)).1 = .error e) : e ≠ .index := by
  have hneg : ¬ ((n : ℕ) : ℤ) < 0 := by omega
  have hzero : ¬ ((n : ℕ) : ℤ) = 0 := by have := n.pos; omega
  simp only [aioHttpxStreamingBody, AioHttpxStreamingBody.read, if_neg hneg, if_neg hzero, Int.toNat_natCast,
    readSome, fill] at h
  have hfill := fillBuffer_ne_index s.url n s.buffer s.streamExhausted s.stream (e := e)
  cases hr : fillBuffer s.url n s.buffer s.streamExhausted s.stream with
  | mk res t =>
    rw [hr] at h hfill
    cases res with
    | error e' =>
      have he : e' = e := Except.error.inj h
      exact hfill (congrArg Except.error he)
    | ok u =>
      simp only [counted] at h
      split_ifs at h
      exact verify_ne_index h

def aioHttpxStreamingBody_feeds : Feeds aioHttpxStreamingBody :=
  ⟨AioHttpxStreamingBody.Valid, AioHttpxStreamingBody.rest, httpx_read_ok, httpx_read_error⟩

def checksumMixin_feeds {β : Type*} {C : BodyClass β} (F : Feeds C) (digest : Bytes → Bytes) :
    Feeds (checksumMixin digest C) where
  Valid s := F.Valid s.body
  rest s := F.rest s.body
  ok s n c hv h := by
    have hread := F.ok s.body n
    simp only [checksumMixin] at h ⊢
    cases hr : C.read s.body (some n) with
    | mk res body =>
      rw [hr] at hread
      cases res with
      | error e => rw [ChecksumBody.read_of_error digest hr] at h; cases h
      | ok chunk =>
        rw [ChecksumBody.read_of_ok digest hr] at h ⊢
        simp only at h ⊢
        split_ifs at h
        · obtain rfl := (validate_ok h).1
          exact hread chunk hv rfl
        · obtain rfl := Except.ok.inj h
          exact hread chunk hv rfl
  error s n e h := by
    have herror := F.error s.body n
    simp only [checksumMixin] at h
    cases hr : C.read s.body (some n) with
    | mk res body =>
      rw [hr] at herror
      cases res with
      | error e' =>
        rw [ChecksumBody.read_of_error digest hr] at h
        exact herror e h
      | ok chunk =>
        rw [ChecksumBody.read_of_ok digest hr] at h
        simp only at h
        split_ifs at h
        have hv := map_error h
        unfold ChecksumBody.validateChecksum at hv
        split at hv
        · obtain rfl := Except.error.inj hv; simp
        · split_ifs at hv
          obtain rfl := Except.error.inj hv; simp

/-! ## The iterator -/

/-- what iterator 0, made by `iter_lines`, does in `count` steps -/
def iterLines {β : Type*} (C : BodyClass β) (b : β) (size : ℕ+) (keepends : Bool) (count : ℕ) : List Ret :=
  (trace (step C) (step C (init b) (.iterLines size keepends)).2 (List.replicate count (.advance 0))).1

def Ret.line? : Ret → Option Bytes
  | .bytes l => some l
  | _ => none

/-- the lines yielded -/
def yielded (rs : List Ret) : List Bytes := rs.filterMap Ret.line?

/-- one by one, `lines` without or with their ends -/
def Cut (keepends : Bool) (lines cut : List Bytes) : Prop :=
  List.Forall₂ (fun line l => splitlines keepends line = [l]) lines cut

theorem Cut.unique {keepends : Bool} {lines cut cut' : List Bytes} (h : Cut keepends lines cut)
    (h' : Cut keepends lines cut') : cut = cut' := by
  induction h generalizing cut' with
  | nil => cases h'; rfl
  | cons hl _ ih =>
    cases h' with
    | cons hl' h' =>
      rw [hl] at hl'
      rw [ih h', (List.cons.inj hl').1]

theorem cut_splitlines (keepends : Bool) (s : Bytes) : Cut keepends (splitlines true s) (splitlines keepends s) :=
  splitlinesFrom_lines keepends fun _ hc => by cases hc

theorem exists_cut (keepends : Bool) {s line : Bytes} (h : line ∈ splitlines true s) :
    ∃ l, splitlines keepends line = [l] := by
  have hcut := cut_splitlines keepends s
  generalize splitlines true s = lines at h hcut
  generalize splitlines keepends s = cut at hcut
  induction hcut with
  | nil => cases h
  | cons hl _ ih =>
    rcases List.mem_cons.1 h with rfl | h
    · exact ⟨_, hl⟩
    · exact ih h

section Iterator

variable {β : Type*} {C : BodyClass β} (F : Feeds C) (body : Bytes) (size : ℕ+) (keepends : Bool)

/-- `iter_lines` has yielded `ys` -/
inductive Reads (s : St β) (ys : List Bytes) : Prop
  | start (hg : s.gens = [.lines size keepends [] []]) (hv : F.Valid s.body) (hrest : F.rest s.body = body) (hys : ys = [])
  | middle (read pending : Bytes) (done ready : List Bytes) (hg : s.gens = [.lines size keepends ready pending])
      (hv : F.Valid s.body) (hrest : read ++ F.rest s.body = body)
      (hlines : splitlines true read = done ++ ready ++ [pending]) (hys : Cut keepends done ys)
  | ending (hg : s.gens = [.lastLine] ∨ s.gens = [.ended]) (hys : ys = splitlines keepends body)

/-- how many more steps do not end the iteration, at most -/
def stepsLeft (s : St β) (ys : List Bytes) : ℕ :=
  (F.rest s.body).length + ((splitlines keepends body).length - ys.length)

variable {F body size keepends} {s : St β} {ys : List Bytes}

theorem Reads.isPrefix (h : Reads F body size keepends s ys) : ys <+: splitlines keepends body := by
  cases h with
  | start _ _ _ hys => rw [hys]; exact List.nil_prefix
  | ending _ hys => rw [hys]
  | middle read pending done ready _ _ hrest hlines hys =>
    have hbody : splitlines true body = done ++ (ready ++ splitlines true (pending ++ F.rest s.body)) := by
      rw [← hrest, splitlines_resplit _ hlines, List.append_assoc]
    have hcut := List.forall₂_take done.length (cut_splitlines keepends body)
    rw [hbody, List.take_left] at hcut
    rw [hys.unique hcut]
    exact List.take_prefix _ _

theorem read_cases (F : Feeds C) (size : ℕ+) (hv : F.Valid s.body) :
    (∃ e s', s.read C (some size) = (.error e, s') ∧ e ≠ .index) ∨
    ∃ c s', s.read C (some size) = (.ok c, s') ∧ F.Valid s'.body ∧ F.rest s.body = c ++ F.rest s'.body ∧
      (c = [] → F.rest s.body = []) ∧ s'.gens = s.gens := by
  have hok := F.ok s.body size
  have herror := F.error s.body size
  unfold St.read
  cases hr : C.read s.body (some size) with
  | mk res b =>
    rw [hr] at hok herror
    cases res with
    | error e => exact .inl ⟨e, _, rfl, herror e rfl⟩
    | ok c =>
      obtain ⟨hvalid, hrest, hnil⟩ := hok c hv rfl
      exact .inr ⟨c, _, rfl, hvalid, hrest, hnil, rfl⟩

/-- one step of the iterator: a read failed, or it ended with all lines, or it goes on -/
def Steps (F : Feeds C) (body : Bytes) (size : ℕ+) (keepends : Bool) (s : St β) (ys : List Bytes) (r : Ret)
    (s' : St β) : Prop :=
  (∃ e, e ≠ .index ∧ r = .raised e) ∨
  (r = .stopAsyncIteration ∧ ys = splitlines keepends body ∧ Reads F body size keepends s' ys) ∨
  (r ≠ .stopAsyncIteration ∧ (∀ e, r ≠ .raised e) ∧ Reads F body size keepends s' (ys ++ r.line?.toList) ∧
    stepsLeft F body keepends s' (ys ++ r.line?.toList) < stepsLeft F body keepends s ys)

/-- the iterator asks for the next chunk; `done` are the lines of `read` but for the pending one, if there is one -/
theorem steps_read {read pending : Bytes} {done : List Bytes} (hg : s.gens = [.lines size keepends [] pending])
    (hv : F.Valid s.body) (hrest : read ++ F.rest s.body = body)
    (hsplit : ∀ t, splitlines true (read ++ t) = done ++ splitlines true (pending ++ t))
    (hpending : pending ≠ [] → splitlines true pending = [pending]) (hys : Cut keepends done ys) :
    Steps F body size keepends s ys (advanceLines C s 0 size keepends pending).1
      (advanceLines C s 0 size keepends pending).2 := by
  unfold advanceLines
  rcases read_cases F size hv with ⟨e, s', hr, he⟩ | ⟨c, s', hr, hv', hbytes, hnil, hgens⟩
  · rw [hr]
    exact .inl ⟨e, he, rfl⟩
  · rw [hr]
    rw [hg] at hgens
    cases c with
    | nil =>
      -- the end of the stream: `read` is the whole body
      have hbody : read = body := by rw [← hrest, hnil rfl, List.append_nil]
      have hlines : splitlines true body = done ++ splitlines true pending := by simpa [hbody] using hsplit []
      have hcut := cut_splitlines keepends body
      rw [hlines] at hcut
      by_cases hp : pending = []
      · subst hp
        rw [show splitlines true [] = [] from rfl, List.append_nil] at hcut
        have hall := hys.unique hcut
        simp only [if_true]
        exact .inr (.inl ⟨rfl, hall, .ending (.inr (by simp [St.setGen, hgens])) hall⟩)
      · rw [hpending hp] at hcut
        obtain ⟨l, hl⟩ := exists_cut keepends (show pending ∈ splitlines true pending by rw [hpending hp]; simp)
        have hall : ys ++ [l] = splitlines keepends body :=
          Cut.unique (List.rel_append hys (.cons hl .nil)) hcut
        have hlen : (splitlines keepends body).length = ys.length + 1 := by rw [← hall]; simp
        simp only [if_neg hp, yieldLine, hl]
        refine .inr (.inr ⟨by simp, by simp, .ending (.inl (by simp [St.setGen, hgens])) hall, ?_⟩)
        simp only [stepsLeft, St.setGen, hbytes, List.nil_append, Ret.line?, Option.toList_some, List.length_append,
          List.length_singleton]
        omega
    | cons c cs =>
      have hne : splitlines true (pending ++ c :: cs) ≠ [] := fun h => by simpa using (splitlinesFrom_eq_nil h).2
      have hlast : (splitlines true (pending ++ c :: cs)).getLast? =
          some ((splitlines true (pending ++ c :: cs)).getLast hne) := List.getLast?_eq_some_getLast hne
      simp only [hlast]
      refine .inr (.inr ⟨by simp, by simp, ?_, ?_⟩)
      · refine .middle (read ++ c :: cs) ((splitlines true (pending ++ c :: cs)).getLast hne) done
          (splitlines true (pending ++ c :: cs)).dropLast (by simp [St.setGen, hgens]) hv' ?_ ?_ (by simpa [Ret.line?])
        · rw [List.append_assoc, ← hrest, hbytes]
          rfl
        · rw [hsplit, List.append_assoc, List.dropLast_append_getLast hne]
      · simp only [stepsLeft, St.setGen, hbytes, Ret.line?, Option.toList_none, List.append_nil, List.length_append,
          List.length_cons]
        omega

/-- **One step of `iter_lines`** -/
theorem Reads.steps (h : Reads F body size keepends s ys) :
    Steps F body size keepends s ys (advance C s 0).1 (advance C s 0).2 := by
  cases h with
  | start hg hv hrest hys =>
    rw [advance, hg]
    refine steps_read hg hv (show [] ++ F.rest s.body = body from hrest)
      (show ∀ t, splitlines true ([] ++ t) = [] ++ splitlines true ([] ++ t) from fun _ => rfl) (fun h => absurd rfl h) ?_
    rw [hys]
    exact .nil
  | ending hg hys =>
    unfold advance
    rcases hg with hg | hg
    · rw [hg]
      exact .inr (.inl ⟨rfl, hys, .ending (.inr (by simp [St.setGen, hg])) hys⟩)
    · rw [hg]
      exact .inr (.inl ⟨rfl, hys, .ending (.inr hg) hys⟩)
  | middle read pending done ready hg hv hrest hlines hys =>
    rw [advance, hg]
    cases ready with
    | nil =>
      rw [List.append_nil] at hlines
      have hsplit := fun t => splitlines_resplit t hlines
      refine steps_read hg hv hrest hsplit (fun _ => ?_) hys
      have hread := hsplit []
      rw [List.append_nil, List.append_nil, hlines] at hread
      exact (List.append_cancel_left hread).symm
    | cons line ready =>
      obtain ⟨l, hl⟩ := exists_cut keepends (show line ∈ splitlines true read by rw [hlines]; simp)
      have hnext : Reads F body size keepends (s.setGen 0 (.lines size keepends ready pending)) (ys ++ [l]) := by
        refine .middle read pending (done ++ [line]) ready (by simp [St.setGen, hg]) hv hrest ?_
          (List.rel_append hys (.cons hl .nil))
        rw [hlines]
        simp
      have hlen := hnext.isPrefix.length_le
      simp only [List.getElem?_cons_zero, yieldLine, hl]
      refine .inr (.inr ⟨by simp, by simp, hnext, ?_⟩)
      simp only [stepsLeft, St.setGen, Ret.line?, Option.toList_some, List.length_append, List.length_singleton] at hlen ⊢
      omega

theorem yielded_cons (r : Ret) (rs : List Ret) : yielded (r :: rs) = r.line?.toList ++ yielded rs := by
  cases hr : r.line? <;> simp [yielded, hr]

/-- a failed read raises; the exception of the iterator itself would be an index into an empty list of lines -/
def NoReadFails (rs : List Ret) : Prop := ∀ e, .raised e ∈ rs → e = .index

/-- **Run lemma.** Unless a read fails, the iterator raises nothing, what it has yielded are the first lines, and it
ends with all of them after at most `stepsLeft` steps. -/
theorem Reads.run (h : Reads F body size keepends s ys) (count : ℕ) {rs : List Ret}
    (hrs : rs = (trace (step C) s (List.replicate count (.advance 0))).1) (hok : NoReadFails rs) :
    (∀ e, .raised e ∉ rs) ∧ ys ++ yielded rs <+: splitlines keepends body ∧
      (.stopAsyncIteration ∈ rs → ys ++ yielded rs = splitlines keepends body) ∧
      (stepsLeft F body keepends s ys < count → .stopAsyncIteration ∈ rs) := by
  induction count generalizing s ys rs with
  | zero =>
    obtain rfl : rs = [] := hrs
    exact ⟨by simp, by simpa [yielded] using h.isPrefix, by simp, by simp⟩
  | succ n ih =>
    obtain ⟨tail, rfl, htail⟩ : ∃ tail, rs = (advance C s 0).1 :: tail ∧
        tail = (trace (step C) (advance C s 0).2 (List.replicate n (.advance 0))).1 := ⟨_, hrs, rfl⟩
    have hoktail : NoReadFails tail := fun e he => hok e (List.mem_cons_of_mem _ he)
    rcases h.steps with ⟨e, he, hr⟩ | ⟨hr, hall, hnext⟩ | ⟨hr, hnot, hnext, hless⟩
    · exact absurd (hok e (by rw [hr]; simp)) he
    · obtain ⟨hnone, hpre, -, -⟩ := ih hnext htail hoktail
      rw [yielded_cons, hr]
      have hlen := hpre.length_le
      rw [← hall, List.length_append] at hlen
      have hnil : yielded tail = [] := List.length_eq_zero_iff.1 (by omega)
      exact ⟨by simpa using hnone, by simpa [Ret.line?] using hpre, by simp [Ret.line?, hnil, hall], by simp⟩
    · obtain ⟨hnone, hpre, hstop, hends⟩ := ih hnext htail hoktail
      rw [List.append_assoc, ← yielded_cons] at hpre hstop
      refine ⟨fun e he => ?_, hpre, fun hmem => ?_, fun hlt => ?_⟩
      · exact (List.mem_cons.1 he).elim (fun h => hnot e h.symm) (hnone e)
      · exact hstop ((List.mem_cons.1 hmem).resolve_left fun h => hr h.symm)
      · exact List.mem_cons_of_mem _ (hends (by omega))

end Iterator

/-! ## Main result -/

/-- In any number of steps, none of whose reads fails, `iter_lines` over the body `b` raises nothing and yields the
first lines of `body`; where it ends it has yielded them all, and it ends. -/
def SplitsLines {β : Type*} (C : BodyClass β) (b : β) (body : Bytes) (size : ℕ+) (keepends : Bool) : Prop :=
  ∀ count, NoReadFails (iterLines C b size keepends count) →
    (∀ e, .raised e ∉ iterLines C b size keepends count) ∧
      yielded (iterLines C b size keepends count) <+: splitlines keepends body ∧
      (.stopAsyncIteration ∈ iterLines C b size keepends count →
        yielded (iterLines C b size keepends count) = splitlines keepends body) ∧
      (body.length + (splitlines keepends body).length < count →
        .stopAsyncIteration ∈ iterLines C b size keepends count)

theorem Feeds.splitsLines {β : Type*} {C : BodyClass β} (F : Feeds C) {b : β} (hv : F.Valid b) (size : ℕ+)
    (keepends : Bool) : SplitsLines C b (F.rest b) size keepends := by
  intro count hok
  have hstart : Reads F (F.rest b) size keepends (step C (init b) (.iterLines size keepends)).2 [] :=
    .start rfl hv rfl rfl
  exact hstart.run count rfl hok

/-- For every reader or event stream, every chunk size and both values of `keepends`, `iter_lines` yields the lines of
the complete body: what the reader has to give, or the chunks of the stream together. -/
theorem iter_lines_splits {ρ : Type*} {R : StreamReader ρ} (T : Content R) (content : ρ) (events : List Event)
    (url : String) (contentLength : Option ℤ) (digest : Bytes → Bytes) (expected : String) (size : ℕ+)
    (keepends : Bool) :
    let aiohttp := AioStreamingBody.new url content contentLength
    let httpx := AioHttpxStreamingBody.new url events contentLength
    SplitsLines (aioStreamingBody R) aiohttp (T.rest content) size keepends ∧
    SplitsLines aioHttpxStreamingBody httpx (undelivered events) size keepends ∧
    SplitsLines (checksumMixin digest (aioStreamingBody R)) (ChecksumBody.new aiohttp expected) (T.rest content) size
      keepends ∧
    SplitsLines (checksumMixin digest aioHttpxStreamingBody) (ChecksumBody.new httpx expected) (undelivered events) size
      keepends := by
  intro aiohttp httpx
  have hvalid : httpx.Valid := fun h => absurd h Bool.false_ne_true
  exact ⟨(aioStreamingBody_feeds T).splitsLines (b := aiohttp) trivial size keepends,
    aioHttpxStreamingBody_feeds.splitsLines (b := httpx) hvalid size keepends,
    (checksumMixin_feeds (aioStreamingBody_feeds T) digest).splitsLines (b := ChecksumBody.new aiohttp expected) trivial
      size keepends,
    (checksumMixin_feeds aioHttpxStreamingBody_feeds digest).splitsLines (b := ChecksumBody.new httpx expected) hvalid
      size keepends⟩

/-! ## A reader -/

theorem readFirst_rest {n : ℕ} {r : List Event} {c : Bytes} (h : (readFirst n r).1 = .ok c) :
    undelivered r = c ++ undelivered (readFirst n r).2 := by
  induction r with
  | nil =>
    obtain rfl := Except.ok.inj h
    rfl
  | cons e rest ih =>
    cases e with
    | raises e => cases h
    | chunk d =>
      cases d with
      | nil => exact ih h
      | cons d ds =>
        obtain rfl := Except.ok.inj h
        rw [readFirst, undelivered_chunk, undelivered_chunk, ← List.append_assoc, List.take_append_drop]

/-- the reader fed by the events of a connection gives their bytes -/
def eventContent : Content eventReader where
  rest := undelivered
  read_rest r n c hn h := by
    simp only [eventReader, readEvents, hn.ne', not_lt_of_gt hn, if_false] at h ⊢
    exact readFirst_rest h
  eof_rest _ := undelivered_empty

-- a line break split between two chunks is one line break
example : yielded (iterLines (aioStreamingBody eventReader)
    (AioStreamingBody.new "" [.chunk [97, cr], .chunk [lf, 98]] none) 2 false 9) = [[97], [98]] := by decide

end AioBotocore.Response

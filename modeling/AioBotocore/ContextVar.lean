/-
Context variables: a value in each context, which `set` changes for a token, and `reset` sets back for the token.

Contexts are numbered. `Ops` is what users of a variable call, and `Lawful` what they rely on; `standard` is the variable
of Python's `contextvars`, where a token is good for one `reset` in the context it was made in.

Code that resets what it has set, the last set first, keeps the sets it is in as a stack of frames.

- `Nested`: each frame is in what the frame below it has in force, and the tokens not used yet belong to their frames.
- `Nested.push`, `Nested.pop`, `Nested.lift`, `Nested.drop`: what the frames of a context go through.
- `Nested.set_other`, `Nested.copy_other`: what other contexts do is not noticed.
- `Nested.get_eq`: frames that keep a value in force, above one that has it.
- `standard_lawful`.
-/
import Mathlib.Tactic
import Mathlib.Logic.Function.Basic

namespace ContextVar

variable {V τ α : Type*}

inductive Exn where
  | runtimeError
  | valueError
deriving DecidableEq, Repr

structure Ops (V τ α : Type*) where
  get : V → ℕ → α
  set : V → ℕ → α → V × τ
  reset : V → ℕ → τ → Except Exn V
  /-- the second context begins as a copy of the first -/
  copy : V → ℕ → ℕ → V
  /-- the context that a token not used yet is good for, and the value it sets back -/
  holds : V → τ → Option (ℕ × α)

variable [DecidableEq τ]

structure Ops.Lawful (P : Ops V τ α) : Prop where
  get_set : ∀ v k a j, P.get (P.set v k a).1 j = if j = k then a else P.get v j
  /-- a new token is not one that is still good -/
  fresh : ∀ v k a, P.holds v (P.set v k a).2 = none
  holds_set : ∀ v k a t, P.holds (P.set v k a).1 t = if t = (P.set v k a).2 then some (k, P.get v k) else P.holds v t
  reset : ∀ v k t a, P.holds v t = some (k, a) → ∃ w, P.reset v k t = .ok w ∧
    (∀ j, P.get w j = if j = k then a else P.get v j) ∧ ∀ u, P.holds w u = if u = t then none else P.holds v u
  get_copy : ∀ v k child j, P.get (P.copy v k child) j = if j = child then P.get v k else P.get v j
  holds_copy : ∀ v k child t, P.holds (P.copy v k child) t = P.holds v t

/-! ## Frames -/

/-- the value that was in force outside, the one in force inside, and the token while it is not used -/
structure Frame (τ α : Type*) where
  outer : α
  inside : α
  token : Option τ

/-- the frames from the innermost out, where `a` is in force: each is in what the next one has inside -/
def Chained : α → List (Frame τ α) → Prop
  | _, [] => True
  | a, f :: fs => a = f.inside ∧ Chained f.outer fs

structure Nested (P : Ops V τ α) (v : V) (k : ℕ) (fs : List (Frame τ α)) : Prop where
  chained : Chained (P.get v k) fs
  live : ∀ f ∈ fs, ∀ t, f.token = some t → P.holds v t = some (k, f.outer)
  nodup : (fs.filterMap Frame.token).Nodup

section Nested

omit [DecidableEq τ]

variable {P : Ops V τ α} {v : V} {k : ℕ} {f : Frame τ α} {fs : List (Frame τ α)}

theorem nested_nil (P : Ops V τ α) (v : V) (k : ℕ) : Nested P v k [] :=
  ⟨trivial, fun _ h => absurd h List.not_mem_nil, List.nodup_nil⟩

/-- a frame that has set nothing, or has set it back -/
theorem Nested.lift (h : Nested P v k fs) : Nested P v k (⟨P.get v k, P.get v k, none⟩ :: fs) := by
  refine ⟨⟨rfl, h.chained⟩, ?_, h.nodup⟩
  intro f hf t ht
  rcases List.mem_cons.1 hf with rfl | hf
  · cases ht
  · exact h.live f hf t ht

theorem Nested.drop {outer : α} (h : Nested P v k (⟨outer, outer, none⟩ :: fs)) :
    P.get v k = outer ∧ Nested P v k fs := by
  obtain ⟨hget, hchain⟩ := h.chained
  refine ⟨hget, ?_, ?_, h.nodup⟩
  · rw [hget]
    exact hchain
  · intro f hf t ht
    exact h.live f (List.mem_cons_of_mem _ hf) t ht

/-- frames are nested wherever the value and the tokens of their context are the same -/
theorem Nested.congr (h : Nested P v k fs) {w : V} (hget : P.get w k = P.get v k)
    (hholds : ∀ t a, P.holds v t = some (k, a) → P.holds w t = some (k, a)) : Nested P w k fs := by
  refine ⟨?_, ?_, h.nodup⟩
  · rw [hget]
    exact h.chained
  · intro f hf t ht
    exact hholds t f.outer (h.live f hf t ht)

/-- above a frame with `a` inside, frames that have `a` inside or leave what they are in leave `a` in force -/
theorem Nested.get_eq {a : α} {pre : List (Frame τ α)} (h : Nested P v k (pre ++ f :: fs)) (hf : f.inside = a)
    (hpre : ∀ g ∈ pre, g.inside = a ∨ g.inside = g.outer) : P.get v k = a := by
  have hchain := h.chained
  clear h
  generalize P.get v k = b at hchain
  induction pre generalizing b with
  | nil => exact hchain.1.trans hf
  | cons g pre ih =>
    obtain ⟨hb, hrest⟩ := hchain
    have houter : g.outer = a := ih (fun g' hg' => hpre g' (List.mem_cons_of_mem _ hg')) g.outer hrest
    rcases hpre g List.mem_cons_self with hg | hg
    · exact hb.trans hg
    · calc b = g.inside := hb
        _ = g.outer := hg
        _ = a := houter

end Nested

section Lawful

variable {P : Ops V τ α} (hP : P.Lawful) {v : V} {k j : ℕ} {f : Frame τ α} {fs : List (Frame τ α)}
include hP

/-- `set` opens a frame -/
theorem Nested.push (h : Nested P v k fs) (a : α) :
    Nested P (P.set v k a).1 k (⟨P.get v k, a, some (P.set v k a).2⟩ :: fs) := by
  have hfresh : ∀ g ∈ fs, g.token ≠ some (P.set v k a).2 := by
    intro g hg ht
    have hholds := h.live g hg _ ht
    rw [hP.fresh] at hholds
    cases hholds
  refine ⟨⟨?_, h.chained⟩, ?_, ?_⟩
  · rw [hP.get_set, if_pos rfl]
  · intro g hg t ht
    rw [hP.holds_set]
    rcases List.mem_cons.1 hg with rfl | hg
    · rw [if_pos (Option.some.inj ht).symm]
    · rw [if_neg]
      · exact h.live g hg t ht
      · rintro rfl
        exact hfresh g hg ht
  · show ((P.set v k a).2 :: fs.filterMap Frame.token).Nodup
    rw [List.nodup_cons]
    refine ⟨?_, h.nodup⟩
    intro hmem
    obtain ⟨g, hg, ht⟩ := List.mem_filterMap.1 hmem
    exact hfresh g hg ht

theorem Nested.set_other (h : Nested P v j fs) (hj : j ≠ k) (a : α) : Nested P (P.set v k a).1 j fs := by
  refine h.congr ?_ ?_
  · rw [hP.get_set, if_neg hj]
  · intro t b ht
    rw [hP.holds_set, if_neg]
    · exact ht
    · rintro rfl
      rw [hP.fresh] at ht
      cases ht

theorem Nested.copy_other (h : Nested P v j fs) {child : ℕ} (hj : j ≠ child) : Nested P (P.copy v k child) j fs := by
  refine h.congr ?_ ?_
  · rw [hP.get_copy, if_neg hj]
  · intro t b ht
    rw [hP.holds_copy]
    exact ht

/-- `reset` with the token of the innermost frame sets back what was in force outside it, and no other context
notices -/
theorem Nested.pop {t : τ} (h : Nested P v k (f :: fs)) (ht : f.token = some t) :
    ∃ w, P.reset v k t = .ok w ∧ P.get w k = f.outer ∧ Nested P w k fs ∧
      ∀ j ≠ k, ∀ gs, Nested P v j gs → Nested P w j gs := by
  have hlive : P.holds v t = some (k, f.outer) := h.live f List.mem_cons_self t ht
  obtain ⟨w, hw, hget, hholds⟩ := hP.reset v k t f.outer hlive
  have hnodup := h.nodup
  rw [List.filterMap_cons_some ht, List.nodup_cons] at hnodup
  have hself : P.get w k = f.outer := by rw [hget, if_pos rfl]
  refine ⟨w, hw, hself, ⟨?_, ?_, hnodup.2⟩, ?_⟩
  · rw [hself]
    exact h.chained.2
  · intro g hg u hu
    rw [hholds, if_neg]
    · exact h.live g (List.mem_cons_of_mem _ hg) u hu
    · rintro rfl
      exact hnodup.1 (List.mem_filterMap.2 ⟨g, hg, hu⟩)
  · intro j hj gs hgs
    refine hgs.congr ?_ ?_
    · rw [hget, if_neg hj]
    · intro u b hu
      rw [hholds, if_neg]
      · exact hu
      · rintro rfl
        -- the token is good for one context
        rw [hlive] at hu
        exact hj (congrArg Prod.fst (Option.some.inj hu)).symm

end Lawful

/-! ## The standard variable -/

structure Token (α : Type*) where
  context : ℕ
  old : α
  used : Bool
deriving DecidableEq, Repr

/-- the context a token can be used in, and the value it sets back there -/
def Token.good (token : Token α) : Option (ℕ × α) := if token.used then none else some (token.context, token.old)

/-- the value in each context, and the tokens in the order they were made -/
structure Var (α : Type*) where
  value : ℕ → α
  tokens : List (Token α)

namespace Var

variable (v : Var α) (k : ℕ)

def set (a : α) : Var α × ℕ :=
  (⟨Function.update v.value k a, v.tokens ++ [⟨k, v.value k, false⟩]⟩, v.tokens.length)

/-- a token is good once, and where it was made -/
def reset (t : ℕ) : Except Exn (Var α) :=
  match v.tokens[t]? with
  | none => .error .valueError
  | some token =>
    if token.used then .error .runtimeError
    else if token.context ≠ k then .error .valueError
    else .ok ⟨Function.update v.value k token.old, v.tokens.set t { token with used := true }⟩

def holds (t : ℕ) : Option (ℕ × α) := v.tokens[t]?.bind Token.good

theorem holds_set (a : α) (t : ℕ) :
    (v.set k a).1.holds t = if t = v.tokens.length then some (k, v.value k) else v.holds t := by
  simp only [set, holds]
  split_ifs with ht
  · rw [ht, List.getElem?_concat_length]
    rfl
  · rcases lt_or_gt_of_ne ht with hlt | hgt
    · rw [List.getElem?_append_left hlt]
    · rw [List.getElem?_eq_none hgt.le, List.getElem?_eq_none]
      rw [List.length_append, List.length_singleton]
      exact hgt

variable {v k}

theorem tokens_of_holds {t : ℕ} {a : α} (h : v.holds t = some (k, a)) : v.tokens[t]? = some ⟨k, a, false⟩ := by
  obtain ⟨⟨context, old, used⟩, htoken, hgood⟩ := Option.bind_eq_some_iff.1 h
  cases used with
  | true => cases hgood
  | false =>
    obtain ⟨rfl, rfl⟩ := Prod.mk.inj (Option.some.inj hgood)
    exact htoken

theorem reset_of_holds {t : ℕ} {a : α} (h : v.holds t = some (k, a)) :
    v.reset k t = .ok ⟨Function.update v.value k a, v.tokens.set t ⟨k, a, true⟩⟩ := by
  simp [reset, tokens_of_holds h]

theorem holds_used (t : ℕ) (value : ℕ → α) (context : ℕ) (old : α) (u : ℕ) :
    (⟨value, v.tokens.set t ⟨context, old, true⟩⟩ : Var α).holds u = if u = t then none else v.holds u := by
  simp only [holds]
  split_ifs with hu
  · rw [hu, List.getElem?_set_self']
    cases v.tokens[t]? with
    | none => rfl
    | some token => rfl
  · rw [List.getElem?_set_ne (Ne.symm hu)]

end Var

def standard : Ops (Var α) ℕ α where
  get v := v.value
  set := Var.set
  reset := Var.reset
  copy v k child := { v with value := Function.update v.value child (v.value k) }
  holds := Var.holds

theorem standard_lawful : (standard : Ops (Var α) ℕ α).Lawful where
  get_set _ _ _ _ := Function.update_apply ..
  fresh v _ _ := by
    show v.tokens[v.tokens.length]?.bind Token.good = none
    rw [List.getElem?_eq_none le_rfl]
    rfl
  holds_set v k a t := v.holds_set k a t
  reset v k t a h := ⟨_, Var.reset_of_holds h, fun _ => Function.update_apply .., v.holds_used t _ k a⟩
  get_copy _ _ _ _ := Function.update_apply ..
  holds_copy _ _ _ _ := rfl

end ContextVar

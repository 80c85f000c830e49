/-
Mutable objects behind references. A program that holds a reference sees every change made to the object through any
other reference; what is only created, or changed while it is new, leaves the objects that were there.

- `Keeps`: every object that was there is as it was. Creating keeps (`keeps_alloc`), and so does changing an object
  created since (`Keeps.write_new`); `write_keeps_iff` says when a change of an old object is none.
- `deref_of_keeps`: what is read of an old object is the same afterwards.
- `make_spec`: an object that is created and then changed.
-/
import Mathlib.Tactic

namespace Heap

abbrev Ref : Type := ℕ

/-- the objects in the order of their creation, the reference of an object being its place -/
abbrev Objects (β : Type*) : Type _ := List β

variable {β : Type*}

def alloc (b : β) (s : Objects β) : Ref × Objects β := (s.length, s ++ [b])

/-- a change in place -/
def write (r : Ref) (f : β → β) (s : Objects β) : Objects β := s.modify r f

/-- what is behind a reference -/
def deref [EmptyCollection β] (r : Ref) (s : Objects β) : β := s[r]?.getD ∅

/-! ## Reading -/

@[simp] theorem alloc_fst (b : β) (s : Objects β) : (alloc b s).1 = s.length := rfl

@[simp] theorem alloc_snd (b : β) (s : Objects β) : (alloc b s).2 = s ++ [b] := rfl

@[simp] theorem length_write (r : Ref) (f : β → β) (s : Objects β) : (write r f s).length = s.length := by
  simp [write]

@[simp] theorem get_write_self (r : Ref) (f : β → β) (s : Objects β) : (write r f s)[r]? = s[r]?.map f := by
  simp [write]

theorem get_write_of_ne {r r' : Ref} (h : r' ≠ r) (f : β → β) (s : Objects β) : (write r f s)[r']? = s[r']? := by
  simp [write, h.symm]

theorem write_write (r : Ref) (f g : β → β) (s : Objects β) : write r g (write r f s) = write r (fun b => g (f b)) s := by
  apply List.ext_getElem?
  intro r'
  by_cases h : r' = r
  · rw [h, get_write_self, get_write_self, get_write_self, Option.map_map]
    rfl
  · rw [get_write_of_ne h, get_write_of_ne h, get_write_of_ne h]

theorem write_id (r : Ref) (s : Objects β) : write r (fun b => b) s = s := by
  apply List.ext_getElem?
  intro r'
  by_cases h : r' = r
  · rw [h, get_write_self, Option.map_id']
  · exact get_write_of_ne h _ s

section Deref

variable [EmptyCollection β]

theorem get_eq_deref {r : Ref} {s : Objects β} (hr : r < s.length) : s[r]? = some (deref r s) := by
  rw [deref, List.getElem?_eq_getElem hr]
  rfl

theorem deref_alloc (b : β) (s : Objects β) : deref (alloc b s).1 (alloc b s).2 = b := by
  simp [deref]

theorem deref_write (f : β → β) {r : Ref} {s : Objects β} (hr : r < s.length) :
    deref r (write r f s) = f (deref r s) := by
  rw [deref, get_write_self, get_eq_deref hr]
  rfl

end Deref

/-! ## What stays -/

/-- every object that was there is as it was -/
def Keeps (s s' : Objects β) : Prop := s <+: s'

theorem Keeps.refl (s : Objects β) : Keeps s s := List.prefix_refl s

theorem Keeps.trans {s s' s'' : Objects β} (h : Keeps s s') (h' : Keeps s' s'') : Keeps s s'' := List.IsPrefix.trans h h'

theorem keeps_alloc (b : β) (s : Objects β) : Keeps s (alloc b s).2 := List.prefix_append s [b]

theorem get_of_keeps {s s' : Objects β} (h : Keeps s s') {r : Ref} (hr : r < s.length) : s'[r]? = s[r]? := by
  obtain ⟨t, rfl⟩ := h
  exact List.getElem?_append_left hr

theorem deref_of_keeps [EmptyCollection β] {s s' : Objects β} (h : Keeps s s') {r : Ref} (hr : r < s.length) :
    deref r s' = deref r s := by
  rw [deref, deref, get_of_keeps h hr]

theorem Keeps.length_le {s s' : Objects β} (h : Keeps s s') : s.length ≤ s'.length := List.IsPrefix.length_le h

theorem keeps_iff {s s' : Objects β} (hlen : s.length ≤ s'.length) : Keeps s s' ↔ ∀ r, r < s.length → s'[r]? = s[r]? := by
  constructor
  · intro h r hr
    exact get_of_keeps h hr
  · intro h
    rw [Keeps, List.prefix_iff_eq_take]
    apply List.ext_getElem?
    intro r
    by_cases hr : r < s.length
    · rw [List.getElem?_take_of_lt hr, h r hr]
    · rw [List.getElem?_eq_none (by omega), List.getElem?_eq_none (by rw [List.length_take]; omega)]

/-- what is kept at the end was kept on the way, if nothing on the way was lost -/
theorem Keeps.of_keeps {s s' s'' : Objects β} (h : Keeps s s'') (h' : Keeps s' s'') (hlen : s.length ≤ s'.length) :
    Keeps s s' := List.prefix_of_prefix_length_le h h' hlen

/-- what was created since may be changed -/
theorem Keeps.write_new {s s' : Objects β} (h : Keeps s s') {r : Ref} (hr : s.length ≤ r) (f : β → β) :
    Keeps s (write r f s') := by
  have hlen := h.length_le
  rw [keeps_iff (by simpa using hlen)]
  intro r' hr'
  have hne : r' ≠ r := Nat.ne_of_lt (hr'.trans_le hr)
  rw [get_write_of_ne hne, get_of_keeps h hr']

theorem write_eq_self_iff {r : Ref} {s : Objects β} {b : β} (hr : s[r]? = some b) (f : β → β) :
    write r f s = s ↔ f b = b := by
  constructor
  · intro h
    have hself := get_write_self r f s
    rw [h, hr] at hself
    exact (Option.some.inj hself).symm
  · intro h
    apply List.ext_getElem?
    intro r'
    by_cases hr' : r' = r
    · rw [hr', get_write_self, hr, Option.map_some, h]
    · exact get_write_of_ne hr' f s

/-- a change of an old object shows, unless it is none -/
theorem Keeps.write_iff {s s' : Objects β} (h : Keeps s s') {r : Ref} (hr : r < s.length) {b : β}
    (hb : s'[r]? = some b) (f : β → β) : Keeps s (write r f s') ↔ f b = b := by
  constructor
  · intro hw
    have hself := get_write_self r f s'
    rw [get_of_keeps hw hr, ← get_of_keeps h hr, hb] at hself
    exact (Option.some.inj hself).symm
  · intro hf
    rw [(write_eq_self_iff hb f).2 hf]
    exact h

/-- a new object is made and changed: the old ones stay -/
theorem make_spec [EmptyCollection β] (b : β) (f : β → β) (s : Objects β) :
    Keeps s (write (alloc b s).1 f (alloc b s).2) ∧
      deref (alloc b s).1 (write (alloc b s).1 f (alloc b s).2) = f b ∧
      (alloc b s).1 < (write (alloc b s).1 f (alloc b s).2).length := by
  refine ⟨(keeps_alloc b s).write_new le_rfl f, ?_, by simp⟩
  rw [deref_write f (by simp), deref_alloc]

end Heap

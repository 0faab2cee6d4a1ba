/-!
# Steps that may fail

Steps are taken one after another up to the first that fails. Where all succeed, each has a result.
Where the steps are taken for the items of a list, the one that fails is told by the items before it,
which are all good.
-/

namespace SqlBatch

theorem exists_of_bind_eq_ok {ε α β : Type} {x : Except ε α} {f : α → Except ε β} {b : β}
    (h : x >>= f = .ok b) : ∃ a, x = .ok a ∧ f a = .ok b := by
  cases x with
  | error e => cases h
  | ok a => exact ⟨a, rfl, h⟩

/-- The first item of a list that is not good is bad, given its place. -/
def FirstAt {α : Type} (good : α → Prop) (bad : Nat → α → Prop) (xs : List α) : Prop :=
  ∃ before x after, xs = before ++ x :: after ∧ (∀ y ∈ before, good y) ∧ bad before.length x

section FirstAt

variable {α : Type} {good : α → Prop} {bad : Nat → α → Prop} {x : α} {xs : List α}

theorem not_firstAt_nil : ¬FirstAt good bad [] := by
  rintro ⟨before, x, after, hnil, -⟩
  exact absurd hnil.symm (List.append_ne_nil_of_right_ne_nil before (List.cons_ne_nil x after))

theorem firstAt_cons : FirstAt good bad (x :: xs) ↔
    bad 0 x ∨ good x ∧ FirstAt good (fun n => bad (n + 1)) xs := by
  constructor
  · rintro ⟨_ | ⟨y, before⟩, z, after, hxs, hgood, hbad⟩
    · obtain ⟨rfl, rfl⟩ := List.cons.inj hxs
      exact .inl hbad
    · obtain ⟨rfl, rfl⟩ := List.cons.inj hxs
      obtain ⟨hx, hbefore⟩ := List.forall_mem_cons.mp hgood
      exact .inr ⟨hx, before, z, after, rfl, hbefore, hbad⟩
  · rintro (hbad | ⟨hx, before, z, after, rfl, hbefore, hbad⟩)
    · exact ⟨[], x, xs, rfl, fun _ hmem => absurd hmem List.not_mem_nil, hbad⟩
    · exact ⟨x :: before, z, after, rfl, List.forall_mem_cons.mpr ⟨hx, hbefore⟩, hbad⟩

theorem forall_or_firstAt (good : α → Prop) (xs : List α) :
    (∀ x ∈ xs, good x) ∨ FirstAt good (fun _ x => ¬good x) xs := by
  induction xs with
  | nil => exact .inl fun _ hmem => absurd hmem List.not_mem_nil
  | cons x xs ih =>
      rw [firstAt_cons, List.forall_mem_cons]
      by_cases hx : good x
      · exact ih.imp (fun hxs => ⟨hx, hxs⟩) fun hfirst => .inr ⟨hx, hfirst⟩
      · exact .inr (.inl hx)

end FirstAt

end SqlBatch

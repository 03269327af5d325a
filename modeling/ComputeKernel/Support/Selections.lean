import Mathlib.Data.List.Basic

/-! Two selections from one list, of which one selects what the other does and perhaps
more. -/
namespace Selections

variable {α β : Type*} {f g : α → Option β} {l : List α}

theorem filterMap_sublist (extends_ : ∀ a ∈ l, ∀ b, g a = some b → f a = some b) :
    List.Sublist (l.filterMap g) (l.filterMap f) := by
  induction l with
  | nil => exact List.Sublist.slnil
  | cons a l ih =>
      have rest := ih (fun b member => extends_ b (List.mem_cons_of_mem a member))
      cases chosen : g a with
      | some b =>
          rw [List.filterMap_cons_some chosen,
            List.filterMap_cons_some (extends_ a List.mem_cons_self b chosen)]
          exact rest.cons_cons b
      | none =>
          rw [List.filterMap_cons_none chosen]
          cases more : f a with
          | none => rwa [List.filterMap_cons_none more]
          | some b =>
              rw [List.filterMap_cons_some more]
              exact rest.cons b

/-- A selection that selects more shows it in its result. -/
theorem filterMap_eq_iff (extends_ : ∀ a ∈ l, ∀ b, g a = some b → f a = some b) :
    l.filterMap f = l.filterMap g ↔ ∀ a ∈ l, f a = g a := by
  constructor
  · intro same
    induction l with
    | nil => exact nofun
    | cons a l ih =>
        have behind : ∀ a ∈ l, ∀ b, g a = some b → f a = some b :=
          fun b member => extends_ b (List.mem_cons_of_mem a member)
        have here : f a = g a := by
          cases chosen : g a with
          | some b => exact extends_ a List.mem_cons_self b chosen
          | none =>
              cases more : f a with
              | none => rfl
              | some b =>
                  rw [List.filterMap_cons_some more, List.filterMap_cons_none chosen] at same
                  have shorter := (filterMap_sublist behind).length_le
                  rw [← same, List.length_cons] at shorter
                  exact absurd shorter (Nat.not_succ_le_self _)
        rw [List.forall_mem_cons]
        refine ⟨here, ih behind ?_⟩
        rw [List.filterMap_cons, List.filterMap_cons, here] at same
        cases chosen : g a with
        | none => rwa [chosen] at same
        | some b =>
            rw [chosen] at same
            exact (List.cons.inj same).2
  · intro same
    exact List.filterMap_congr same

end Selections

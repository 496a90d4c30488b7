import Mathlib.Data.List.Forall2

/-! Lists whose items are related one by one. What is made of such lists is the same if it is the same for
related items (`filterMap_eq_of_related`, `map_eq_of_related`, `flatMap_eq_of_related`), and a search that
related items pass alike finds related ones (`find?_related`). -/

namespace NestClient

variable {α β : Type} {r : α → α → Prop} {items items' : List α}

theorem filterMap_eq_of_related {f f' : α → Option β} (h : List.Forall₂ r items items')
    (hf : ∀ a a', r a a' → f' a' = f a) : items'.filterMap f' = items.filterMap f := by
  induction h with
  | nil => rfl
  | cons hr _ ih => rw [List.filterMap_cons, List.filterMap_cons, hf _ _ hr, ih]

theorem map_eq_of_related {f f' : α → β} (h : List.Forall₂ r items items')
    (hf : ∀ a a', r a a' → f' a' = f a) : items'.map f' = items.map f := by
  rw [← List.filterMap_eq_map, ← List.filterMap_eq_map]
  exact filterMap_eq_of_related h fun a a' hr => congrArg some (hf a a' hr)

theorem flatMap_eq_of_related {f f' : α → List β} (h : List.Forall₂ r items items')
    (hf : ∀ a a', r a a' → f' a' = f a) : items'.flatMap f' = items.flatMap f := by
  rw [List.flatMap_def, List.flatMap_def, map_eq_of_related h hf]

theorem find?_related {p : α → Bool} (h : List.Forall₂ r items items')
    (hp : ∀ a a', r a a' → p a' = p a) : Option.Rel r (items.find? p) (items'.find? p) := by
  induction h with
  | nil => exact .none
  | @cons a a' _ _ hr _ ih =>
    rw [List.find?_cons, List.find?_cons, hp a a' hr]
    cases p a with
    | true => exact .some hr
    | false => exact ih

end NestClient

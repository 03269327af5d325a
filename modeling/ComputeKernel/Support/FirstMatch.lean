import Mathlib.Data.List.Basic

/-! Search by predicate followed by an update of the element found, as a mutable
iterator's `find` allows it. Elements after the first match are never touched,
also when they match. -/
namespace FirstMatch

variable {α β : Type*}

/-- Update the first element that matches, if there is one. -/
def editFirst (found : α → Bool) (edit : α → α) (items : List α) : List α :=
  match items.findIdx? found with
  | some i => items.modify i edit
  | none => items

theorem getElem?_findIdx? {found : α → Bool} {items : List α} {i : Nat}
    (h : items.findIdx? found = some i) : items[i]? = items.find? found := by
  induction items generalizing i with
  | nil => simp at h
  | cons item items ih =>
      rw [List.findIdx?_cons] at h
      cases test : found item with
      | true =>
          simp only [test, if_true, Option.some.injEq] at h
          subst h
          simp [test]
      | false =>
          simp only [test, Bool.false_eq_true, if_false, Option.map_eq_some_iff] at h
          obtain ⟨j, hj, rfl⟩ := h
          simp [test, ih hj]

@[simp] theorem editFirst_length (found : α → Bool) (edit : α → α) (items : List α) :
    (editFirst found edit items).length = items.length := by
  unfold editFirst
  split <;> simp

theorem editFirst_of_find?_none {found : α → Bool} (edit : α → α) {items : List α}
    (h : items.find? found = none) : editFirst found edit items = items := by
  have absent : items.findIdx? found = none := by
    simpa only [List.findIdx?_eq_none_iff, List.find?_eq_none, Bool.not_eq_true] using h
  simp [editFirst, absent]

/-- Entry by entry, an edit either leaves the element alone or edits the match
that `find?` reports. -/
theorem editFirst_getElem? (found : α → Bool) (edit : α → α) {items : List α} {i : Nat} {a : α}
    (h : items[i]? = some a) :
    (editFirst found edit items)[i]? = some a ∨
      (items.find? found = some a ∧ (editFirst found edit items)[i]? = some (edit a)) := by
  unfold editFirst
  cases at_ : items.findIdx? found with
  | none => exact .inl h
  | some j =>
      by_cases same : j = i
      · subst same
        exact .inr ⟨(getElem?_findIdx? at_).symm.trans h, by simp [h]⟩
      · exact .inl (by simp [same, h])

/-- The element at the index that is found is edited, and no other. -/
theorem getElem?_editFirst (found : α → Bool) (edit : α → α) (items : List α) (i : Nat) :
    (editFirst found edit items)[i]? =
      if items.findIdx? found = some i then items[i]?.map edit else items[i]? := by
  unfold editFirst
  cases at_ : items.findIdx? found with
  | none => rfl
  | some j =>
      dsimp only
      rw [List.getElem?_modify]
      by_cases same : j = i
      · simp [same]
      · simp [same]

/-- Only the value of the edit at the element found matters. -/
theorem editFirst_congr {found : α → Bool} {edit other : α → α} {items : List α}
    (same : ∀ a, items.find? found = some a → edit a = other a) :
    editFirst found edit items = editFirst found other items := by
  unfold editFirst
  cases at_ : items.findIdx? found with
  | none => rfl
  | some i =>
      apply List.ext_getElem?
      intro j
      simp only [List.getElem?_modify]
      split
      · next here =>
          subst here
          cases h : items[i]? with
          | none => rfl
          | some a =>
              have hit := same a ((getElem?_findIdx? at_).symm.trans h)
              simp [hit]
      · rfl

theorem editFirst_fixed {found : α → Bool} {edit : α → α} {items : List α}
    (fixed : ∀ a, items.find? found = some a → edit a = a) :
    editFirst found edit items = items := by
  apply List.ext_getElem?
  intro i
  cases h : items[i]? with
  | none => simpa only [List.getElem?_eq_none_iff, editFirst_length] using h
  | some a =>
      rcases editFirst_getElem? found edit h with same | ⟨hit, edited⟩
      · exact same
      · rw [edited, fixed a hit]

/-- A field that the edit does not write is read back unchanged. -/
theorem editFirst_map {found : α → Bool} {edit : α → α} (field : α → β)
    (kept : ∀ a, field (edit a) = field a) (items : List α) :
    (editFirst found edit items).map field = items.map field := by
  apply List.ext_getElem?
  intro i
  simp only [List.getElem?_map]
  cases h : items[i]? with
  | none =>
      have out : (editFirst found edit items)[i]? = none := by
        simpa only [List.getElem?_eq_none_iff, editFirst_length] using h
      rw [out]
  | some a =>
      rcases editFirst_getElem? found edit h with same | ⟨_, edited⟩
      · rw [same]
      · simp [edited, kept]

theorem editFirst_cons (found : α → Bool) (edit : α → α) (item : α) (items : List α) :
    editFirst found edit (item :: items) =
      if found item then edit item :: items else item :: editFirst found edit items := by
  unfold editFirst
  rw [List.findIdx?_cons]
  cases found item with
  | true => simp
  | false =>
      cases items.findIdx? found with
      | none => simp
      | some i => simp

/-- The element that is edited, between those before and after it. -/
theorem editFirst_split {found : α → Bool} (edit : α → α) {before after : List α} {a : α}
    (earlier : ∀ b ∈ before, found b = false) (here : found a = true) :
    editFirst found edit (before ++ a :: after) = before ++ edit a :: after := by
  induction before with
  | nil => rw [List.nil_append, editFirst_cons, if_pos here, List.nil_append]
  | cons b before ih =>
      have missed := earlier b List.mem_cons_self
      rw [List.cons_append, editFirst_cons, missed, if_neg (by decide),
        ih (fun other member => earlier other (List.mem_cons_of_mem b member)), List.cons_append]

/-- With at most one match, an edit of the first match is an edit of all matches. -/
theorem editFirst_eq_map {found : α → Bool} (edit : α → α) {items : List α}
    (unique : items.Pairwise (fun a b => found a = true → found b = false)) :
    editFirst found edit items = items.map (fun a => if found a then edit a else a) := by
  induction items with
  | nil => rfl
  | cons item items ih =>
      obtain ⟨apart, rest⟩ := List.pairwise_cons.mp unique
      rw [editFirst_cons, List.map_cons]
      cases test : found item with
      | false => simp [ih rest]
      | true =>
          have untouched : items.map (fun a => if found a then edit a else a) = items.map id := by
            apply List.map_congr_left
            intro a member
            simp [apart a member test]
          simp [untouched]

/-- A search finds the only element that matches. -/
theorem find?_of_unique {found : α → Bool} {items : List α} {a : α} (member : a ∈ items)
    (matches_ : found a = true) (unique : ∀ b ∈ items, found b = true → b = a) :
    items.find? found = some a := by
  cases result : items.find? found with
  | none => exact absurd matches_ (List.find?_eq_none.mp result a member)
  | some b => rw [unique b (List.mem_of_find?_eq_some result) (List.find?_some result)]

end FirstMatch

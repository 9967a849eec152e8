import Mathlib.Data.List.Basic

/-!
# Filling slots first come, first served

A vector of slots is offered a list of candidates one after the other. A candidate takes every free
slot it wants and keeps it. In the end each slot holds the first candidate that wanted it.

* `fill` — one candidate.
* `fillAll` — a list of candidates, with `getElem?_fillAll` for what each slot ends up with.
* `countFree` — the slots that are left.
-/

namespace Fill

variable {α : Type} (wants : α → Nat → Bool)

/-- Offer the free slots to `w`. -/
def fill (w : α) (slots : List (Option α)) : List (Option α) :=
  slots.mapIdx fun i o => o.or (if wants w i then some w else none)

/-- Offer the free slots to the candidates in turn. -/
def fillAll (ws : List α) (slots : List (Option α)) : List (Option α) :=
  ws.foldl (fun slots w => fill wants w slots) slots

def countFree (slots : List (Option α)) : Nat := slots.countP Option.isNone

/-- The slots that were free and are taken. -/
def countSet (slots slots' : List (Option α)) : Nat :=
  (slots.zip slots').countP fun p => p.1.isNone && p.2.isSome

@[simp] theorem length_fill (w : α) (slots : List (Option α)) :
    (fill wants w slots).length = slots.length := by
  simp [fill]

theorem getElem?_fill (w : α) (slots : List (Option α)) (i : Nat) :
    (fill wants w slots)[i]? = slots[i]?.map fun o => o.or (if wants w i then some w else none) := by
  simp [fill]

@[simp] theorem fillAll_nil (slots : List (Option α)) : fillAll wants [] slots = slots := rfl

@[simp] theorem fillAll_cons (w : α) (ws : List α) (slots : List (Option α)) :
    fillAll wants (w :: ws) slots = fillAll wants ws (fill wants w slots) := rfl

/-- What a slot holds after an offer was there before, or it is the candidate. -/
theorem mem_fill {w a : α} {slots : List (Option α)} (h : some a ∈ fill wants w slots) :
    some a ∈ slots ∨ a = w := by
  obtain ⟨i, hi⟩ := List.mem_iff_getElem?.mp h
  rw [getElem?_fill] at hi
  obtain ⟨o, ho, heq⟩ := Option.map_eq_some_iff.mp hi
  cases o with
  | some b =>
      rw [Option.some_or] at heq
      cases heq
      exact .inl (List.mem_of_getElem? ho)
  | none =>
      rw [Option.none_or] at heq
      split at heq
      · cases heq
        exact .inr rfl
      · cases heq

theorem mem_fill_of_mem {a : α} (w : α) {slots : List (Option α)} (h : some a ∈ slots) :
    some a ∈ fill wants w slots := by
  obtain ⟨i, hi⟩ := List.mem_iff_getElem?.mp h
  apply List.mem_of_getElem? (i := i)
  rw [getElem?_fill, hi]
  rfl

/-- An offer that changes the slots is in one of them. -/
theorem mem_fill_of_ne {w : α} {slots : List (Option α)} (h : fill wants w slots ≠ slots) :
    some w ∈ fill wants w slots := by
  by_contra hnot
  apply h
  apply List.ext_getElem?
  intro i
  rw [getElem?_fill]
  cases ho : slots[i]? with
  | none => rfl
  | some o =>
      cases o with
      | some v => rfl
      | none =>
          cases hw : wants w i with
          | false => rfl
          | true =>
              refine absurd (List.mem_of_getElem? (i := i) ?_) hnot
              rw [getElem?_fill, ho, hw]
              rfl

theorem fillAll_append (ws ws' : List α) (slots : List (Option α)) :
    fillAll wants (ws ++ ws') slots = fillAll wants ws' (fillAll wants ws slots) := by
  simp [fillAll]

/-- Each slot keeps what it holds, or gets the first candidate that wants it. -/
theorem getElem?_fillAll (ws : List α) (slots : List (Option α)) (i : Nat) :
    (fillAll wants ws slots)[i]? =
      slots[i]?.map fun o => o.or (ws.find? fun w => wants w i) := by
  induction ws generalizing slots with
  | nil => simp
  | cons w ws ih =>
      rw [fillAll_cons, ih, getElem?_fill]
      cases slots[i]? with
      | none => rfl
      | some o =>
          cases o with
          | some v => rfl
          | none => by_cases h : wants w i <;> simp [h]

@[simp] theorem length_fillAll (ws : List α) (slots : List (Option α)) :
    (fillAll wants ws slots).length = slots.length := by
  induction ws generalizing slots with
  | nil => rfl
  | cons w ws ih => rw [fillAll_cons, ih, length_fill]

theorem countFree_eq_zero {slots : List (Option α)} :
    countFree slots = 0 ↔ ∀ o ∈ slots, o ≠ none := by
  simp [countFree, List.countP_eq_zero]

theorem countFree_replicate (n : Nat) : countFree (List.replicate n (none : Option α)) = n := by
  simp [countFree, List.countP_replicate]

theorem countFree_set {slots : List (Option α)} {i : Nat} (w : α) (h : slots[i]? = some none) :
    countFree (slots.set i (some w)) = countFree slots - 1 := by
  obtain ⟨hi, hget⟩ := List.getElem?_eq_some_iff.mp h
  simp [countFree, List.countP_set, hi, hget]

theorem countFree_map {β : Type} (f : α → β) (slots : List (Option α)) :
    countFree (slots.map (Option.map f)) = countFree slots := by
  unfold countFree
  rw [List.countP_map]
  congr 1
  funext o
  cases o <;> rfl

/-- Nothing changes once every slot is taken. -/
theorem fillAll_of_full (ws : List α) {slots : List (Option α)} (h : countFree slots = 0) :
    fillAll wants ws slots = slots := by
  rw [countFree_eq_zero] at h
  apply List.ext_getElem?
  intro i
  rw [getElem?_fillAll]
  cases ho : slots[i]? with
  | none => rfl
  | some o =>
      have hne := h o (List.mem_of_getElem? ho)
      obtain ⟨v, rfl⟩ := Option.ne_none_iff_exists'.mp hne
      rfl

theorem fill_of_full (w : α) {slots : List (Option α)} (h : countFree slots = 0) :
    fill wants w slots = slots :=
  fillAll_of_full wants [w] h

/-- A candidate that wants none of the free slots changes nothing. -/
theorem fill_eq_self_iff (w : α) (slots : List (Option α)) :
    fill wants w slots = slots ↔ ∀ i, slots[i]? = some none → wants w i = false := by
  constructor
  · intro h i hi
    have := getElem?_fill wants w slots i
    rw [h, hi] at this
    simpa using this
  · intro h
    apply List.ext_getElem?
    intro i
    rw [getElem?_fill]
    cases ho : slots[i]? with
    | none => rfl
    | some o =>
        cases o with
        | some v => rfl
        | none => simp [h i ho]

/-- A second offer changes nothing. -/
theorem fill_fill (w : α) (slots : List (Option α)) :
    fill wants w (fill wants w slots) = fill wants w slots := by
  rw [fill_eq_self_iff]
  intro i hi
  rw [getElem?_fill, Option.map_eq_some_iff] at hi
  obtain ⟨o, _, ho⟩ := hi
  cases hw : wants w i with
  | false => rfl
  | true =>
      rw [hw] at ho
      cases o <;> simp at ho

theorem fill_cons (w : α) (o : Option α) (slots : List (Option α)) :
    fill wants w (o :: slots) =
      o.or (if wants w 0 then some w else none) :: fill (fun w i => wants w (i + 1)) w slots :=
  List.mapIdx_cons

/-- The slots an offer leaves free and the slots it takes. -/
theorem countFree_fill (w : α) (slots : List (Option α)) :
    countFree (fill wants w slots) + countSet slots (fill wants w slots) = countFree slots := by
  induction slots generalizing wants with
  | nil => rfl
  | cons o slots ih =>
      have htail := ih fun w i => wants w (i + 1)
      rw [fill_cons]
      simp only [countFree, countSet, List.zip_cons_cons, List.countP_cons] at htail ⊢
      cases o with
      | some v =>
          simp only [Option.some_or, Option.isNone_some, Option.isSome_some, Bool.false_and,
            Bool.false_eq_true, if_false]
          omega
      | none => cases wants w 0 <;> simp <;> omega

/-- A candidate that wants every slot leaves none free. -/
theorem countFree_fill_of_wants {w : α} {slots : List (Option α)}
    (h : ∀ i, i < slots.length → wants w i = true) : countFree (fill wants w slots) = 0 := by
  rw [countFree_eq_zero]
  intro o ho hnone
  obtain ⟨i, hi⟩ := List.mem_iff_getElem?.mp ho
  rw [getElem?_fill] at hi
  obtain ⟨o', ho', heq⟩ := Option.map_eq_some_iff.mp hi
  obtain ⟨hlt, _⟩ := List.getElem?_eq_some_iff.mp ho'
  rw [h i hlt, hnone] at heq
  cases o' <;> cases heq

theorem fill_map {β : Type} {f : α → β} {wants' : β → Nat → Bool}
    (hf : ∀ w i, wants' (f w) i = wants w i) (w : α) (slots : List (Option α)) :
    (fill wants w slots).map (Option.map f) = fill wants' (f w) (slots.map (Option.map f)) := by
  apply List.ext_getElem?
  intro i
  rw [List.getElem?_map, getElem?_fill, getElem?_fill, List.getElem?_map, hf]
  cases slots[i]? with
  | none => rfl
  | some o => cases o <;> cases wants w i <;> rfl

theorem fillAll_map {β : Type} {f : α → β} {wants' : β → Nat → Bool}
    (hf : ∀ w i, wants' (f w) i = wants w i) (ws : List α) (slots : List (Option α)) :
    (fillAll wants ws slots).map (Option.map f) =
      fillAll wants' (ws.map f) (slots.map (Option.map f)) := by
  induction ws generalizing slots with
  | nil => rfl
  | cons w ws ih => rw [fillAll_cons, ih, fill_map wants hf, List.map_cons, fillAll_cons]

end Fill

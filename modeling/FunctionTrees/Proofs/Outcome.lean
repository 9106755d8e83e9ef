import Mathlib.Data.List.Forall2
import Mathlib.Data.List.Nodup

/-!
# Outcomes of traversals

* `nodup_of_getElem?_unique` : lists without repeats;
* `forall₂_trans`, `forall₂_zipWith`, `exists_of_forall₂`, `exists_mem_of_forall₂`, `exists_mem_zip_of_forall₂` : lists
  that are related element by element;
* `bind_eq_ok_iff`, `map_eq_ok_iff`, `mapError_eq_ok_iff` : what a step yields;
* `mapM_eq_ok_iff` : a traversal succeeds exactly if it does so element by element;
* `mapM_eq_ok_of_forall₂` : what holds of all elements and their results, and makes them succeed, makes it succeed;
* `mapM_congr_ok` : what one traversal yields, any other yields that agrees on the elements;
* `run_mapM_append` : runs that keep a state go on where they have ended;
* `Reports outcome faults` : the outcome is a value where there is no fault, and otherwise the first one.
-/

set_option autoImplicit false

namespace FunctionTrees.Outcome

variable {ε α β : Type}

/-! ## Distinct items -/

/-- Items are distinct if each has one place only. -/
theorem nodup_of_getElem?_unique {items : List α}
    (h : ∀ (first second : Nat) item, items[first]? = some item → items[second]? = some item → first = second) :
    items.Nodup := by
  rw [List.nodup_iff_getElem?_ne_getElem?]
  intro first second hlt hsecond heq
  rw [List.getElem?_eq_getElem hsecond] at heq
  exact absurd (h first second _ heq (List.getElem?_eq_getElem hsecond)) (Nat.ne_of_lt hlt)

/-! ## Related lists -/

/-- What is related to what lies between is related. -/
theorem forall₂_trans {γ : Type} {R : α → β → Prop} {S : β → γ → Prop} {T : α → γ → Prop} {as : List α}
    {bs : List β} {cs : List γ} (hR : List.Forall₂ R as bs) (hS : List.Forall₂ S bs cs)
    (h : ∀ a b c, R a b → S b c → T a c) : List.Forall₂ T as cs := by
  induction hR generalizing cs with
  | nil =>
    cases hS with
    | nil => exact .nil
  | cons hhead _ ih =>
    cases hS with
    | cons hhead' htail' => exact .cons (h _ _ _ hhead hhead') (ih htail')

/-- Lists that one list is related to are so pair by pair. -/
theorem forall₂_zipWith {γ δ : Type} {R : α → β → Prop} {S : α → γ → Prop} {T : α → δ → Prop} {f : β → γ → δ}
    {as : List α} {bs : List β} {cs : List γ} (hR : List.Forall₂ R as bs) (hS : List.Forall₂ S as cs)
    (h : ∀ a b c, R a b → S a c → T a (f b c)) : List.Forall₂ T as (List.zipWith f bs cs) := by
  induction hR generalizing cs with
  | nil =>
    cases hS with
    | nil => exact .nil
  | cons hhead _ ih =>
    cases hS with
    | cons hhead' htail' => exact .cons (h _ _ _ hhead hhead') (ih htail')

theorem exists_of_forall₂ {R : α → β → Prop} {as : List α} {bs : List β} (h : List.Forall₂ R as bs) {index : Nat}
    {a : α} (ha : as[index]? = some a) : ∃ b, bs[index]? = some b ∧ R a b := by
  obtain ⟨hlt, rfl⟩ := List.getElem?_eq_some_iff.1 ha
  have hlt' : index < bs.length := h.length_eq ▸ hlt
  exact ⟨bs[index], List.getElem?_eq_getElem hlt', h.get hlt hlt'⟩

theorem exists_mem_of_forall₂ {R : α → β → Prop} {as : List α} {bs : List β} (h : List.Forall₂ R as bs) {a : α}
    (ha : a ∈ as) : ∃ b ∈ bs, R a b := by
  obtain ⟨index, hindex⟩ := List.mem_iff_getElem?.1 ha
  obtain ⟨b, hb, hrel⟩ := exists_of_forall₂ h hindex
  exact ⟨b, List.mem_of_getElem? hb, hrel⟩

theorem exists_mem_zip_of_forall₂ {R : α → β → Prop} {as : List α} {bs : List β} (h : List.Forall₂ R as bs) {b : β}
    (hb : b ∈ bs) : ∃ a, (a, b) ∈ as.zip bs ∧ R a b := by
  induction h with
  | nil => cases hb
  | cons hhead htail ih =>
    rcases List.mem_cons.1 hb with rfl | hb
    · exact ⟨_, List.mem_cons_self, hhead⟩
    · obtain ⟨a, hmem, hrel⟩ := ih hb
      exact ⟨a, List.mem_cons_of_mem _ hmem, hrel⟩

theorem rel_head?_of_forall₂ {R : α → β → Prop} {as : List α} {bs : List β} (h : List.Forall₂ R as bs) :
    Option.Rel R as.head? bs.head? := by
  cases h with
  | nil => exact .none
  | cons hhead _ => exact .some hhead

theorem forall₂_replicate {R : α → β → Prop} {a : α} {bs : List β} (h : ∀ b ∈ bs, R a b) :
    List.Forall₂ R (List.replicate bs.length a) bs := by
  induction bs with
  | nil => exact .nil
  | cons b bs ih => exact .cons (h b List.mem_cons_self) (ih fun b hmem => h b (List.mem_cons_of_mem _ hmem))

theorem flatMap_eq_of_forall₂ {γ : Type} {f : α → List γ} {g : β → List γ} {as : List α} {bs : List β}
    (h : List.Forall₂ (fun a b => f a = g b) as bs) : as.flatMap f = bs.flatMap g := by
  induction h with
  | nil => rfl
  | cons hhead _ ih => rw [List.flatMap_cons, List.flatMap_cons, hhead, ih]

/-- What becomes of a list of which each item is seen with those before it, when one more item comes. -/
theorem map_zipIdx_concat (f : List α → α → β) (items : List α) (item : α) :
    ((items ++ [item]).zipIdx.map fun (item', index) => f ((items ++ [item]).take index) item') =
      (items.zipIdx.map fun (item', index) => f (items.take index) item') ++ [f items item] := by
  rw [List.zipIdx_append, List.map_append]
  congr 1
  · apply List.map_congr_left
    rintro ⟨other, index⟩ hmem
    have hlt : index < 0 + items.length := (List.mem_zipIdx hmem).2.1
    have htake : (items ++ [item]).take index = items.take index := List.take_append_of_le_length (by omega)
    exact congrArg (f · other) htake
  · simp

theorem isSome_eq_of_rel {R : α → β → Prop} {a : Option α} {b : Option β} (h : Option.Rel R a b) :
    a.isSome = b.isSome := by
  cases h <;> rfl

/-! ## Single steps -/

@[simp] theorem ok_bind (value : α) (next : α → Except ε β) : (Except.ok value >>= next) = next value := rfl

@[simp] theorem error_bind (error : ε) (next : α → Except ε β) :
    ((Except.error error : Except ε α) >>= next) = .error error := rfl

@[simp] theorem pure_eq_ok (value : α) : (pure value : Except ε α) = .ok value := rfl

@[simp] theorem throw_eq_error (error : ε) : (throw error : Except ε α) = .error error := rfl

theorem bind_eq_ok_iff {first : Except ε α} {next : α → Except ε β} {result : β} :
    (first >>= next) = .ok result ↔ ∃ value, first = .ok value ∧ next value = .ok result := by
  cases first with
  | error error => simp
  | ok value => simp

theorem map_eq_ok_iff {first : Except ε α} {f : α → β} {result : β} :
    first.map f = .ok result ↔ ∃ value, first = .ok value ∧ f value = result := by
  cases first with
  | error error => simp [Except.map]
  | ok value => simp [Except.map]

theorem mapError_eq_ok_iff {ε' : Type} {f : ε → ε'} {outcome : Except ε α} {value : α} :
    outcome.mapError f = .ok value ↔ outcome = .ok value := by
  cases outcome <;> simp [Except.mapError]

def errorOf? : Except ε α → Option ε
  | .error error => some error
  | .ok _ => none

/-- Each outcome is a value or an error. -/
theorem length_values_add_length_errors (outcomes : List (Except ε α)) :
    (outcomes.filterMap Except.toOption).length + (outcomes.filterMap errorOf?).length = outcomes.length := by
  induction outcomes with
  | nil => rfl
  | cons outcome outcomes ih =>
    cases outcome with
    | ok value =>
      simp only [List.filterMap_cons, Except.toOption, errorOf?, List.length_cons]
      omega
    | error error =>
      simp only [List.filterMap_cons, Except.toOption, errorOf?, List.length_cons]
      omega

/-! ## Traversals -/

theorem mapM_eq_ok_iff {f : α → Except ε β} {items : List α} {results : List β} :
    items.mapM f = .ok results ↔ List.Forall₂ (fun item result => f item = .ok result) items results := by
  induction items generalizing results with
  | nil => simp [eq_comm]
  | cons item items ih =>
    simp only [List.mapM_cons, bind_eq_ok_iff, ih, pure_eq_ok, Except.ok.injEq, List.forall₂_cons_left_iff]
    constructor
    · rintro ⟨result, hresult, rest, hrest, rfl⟩
      exact ⟨result, rest, hresult, hrest, rfl⟩
    · rintro ⟨result, rest, hresult, hrest, rfl⟩
      exact ⟨result, hresult, rest, hrest, rfl⟩

theorem mapM_eq_ok_of_forall₂ {R : α → β → Prop} {f : α → Except ε β} {items : List α} {results : List β}
    (h : List.Forall₂ R items results) (hf : ∀ item ∈ items, ∀ result, R item result → f item = .ok result) :
    items.mapM f = .ok results := by
  rw [mapM_eq_ok_iff]
  induction h with
  | nil => exact .nil
  | cons hhead _ ih =>
    exact .cons (hf _ List.mem_cons_self _ hhead) (ih fun item hmem => hf item (List.mem_cons_of_mem _ hmem))

theorem mapM_congr_ok {f g : α → Except ε β} {items : List α} {results : List β}
    (hf : ∀ item ∈ items, ∀ result, f item = .ok result → g item = .ok result) (h : items.mapM f = .ok results) :
    items.mapM g = .ok results :=
  mapM_eq_ok_of_forall₂ (mapM_eq_ok_iff.1 h) hf

theorem exists_mapM {f : α → Except ε β} {items : List α} (h : ∀ item ∈ items, ∃ result, f item = .ok result) :
    ∃ results, items.mapM f = .ok results := by
  induction items with
  | nil => exact ⟨[], rfl⟩
  | cons item items ih =>
    rw [List.forall_mem_cons] at h
    obtain ⟨⟨result, hresult⟩, hrest⟩ := h
    obtain ⟨results, hresults⟩ := ih hrest
    exact ⟨result :: results, by rw [List.mapM_cons, hresult, ok_bind, hresults]; rfl⟩

/-- A traversal of which the steps can fail in one way only fails in this way if one of them does. -/
theorem mapM_eq_error {f : α → Except ε β} {items : List α} {fault : ε}
    (hfault : ∀ item ∈ items, ∀ error, f item = .error error → error = fault)
    (h : ∃ item ∈ items, ∃ error, f item = .error error) : items.mapM f = .error fault := by
  induction items with
  | nil => simp at h
  | cons item items ih =>
    rw [List.forall_mem_cons] at hfault
    rw [List.mapM_cons]
    cases hitem : f item with
    | error error => rw [error_bind, hfault.1 error hitem]
    | ok value =>
      have hlater : ∃ item ∈ items, ∃ error, f item = .error error := by simpa [hitem] using h
      rw [ok_bind, ih hfault.2 hlater, error_bind]

theorem mapM?_eq_ok_iff {f : α → Except ε β} {item : Option α} {result : Option β} :
    item.mapM f = .ok result ↔ Option.Rel (fun item result => f item = .ok result) item result := by
  cases item with
  | none =>
    constructor
    · rintro ⟨⟩
      exact .none
    · rintro ⟨⟩
      rfl
  | some item =>
    rw [Option.mapM_some, map_eq_pure_bind, bind_eq_ok_iff]
    constructor
    · rintro ⟨value, hvalue, ⟨⟩⟩
      exact .some hvalue
    · intro hrel
      cases hrel with
      | some hvalue => exact ⟨_, hvalue, rfl⟩

/-! ## Runs with a state -/

/-- A run over two lists is a run over the first one, and from where it ends one over the second one. -/
theorem run_mapM_append {σ : Type} (f : α → StateM σ β) (first second : List α) (state : σ) :
    ((first ++ second).mapM f).run state =
      let (results, next) := (first.mapM f).run state
      let (more, last) := (second.mapM f).run next
      (results ++ more, last) := by
  rw [List.mapM_append]
  rfl

/-! ## First faults -/

/-- The end of a check that may have found a fault. -/
def refuse (fault : Option ε) : Except ε Unit := fault.elim (.ok ()) .error

/-- The outcome is a value where there is no fault, and otherwise the first one. -/
def Reports (outcome : Except ε α) (faults : List ε) : Prop :=
  match outcome with
  | .ok _ => faults = []
  | .error error => faults.head? = some error

namespace Reports

variable {outcome : Except ε α} {faults more : List ε}

theorem exists_ok_iff (h : Reports outcome faults) : (∃ value, outcome = .ok value) ↔ faults = [] := by
  cases outcome with
  | ok value => exact ⟨fun _ => h, fun _ => ⟨value, rfl⟩⟩
  | error error =>
    constructor
    · rintro ⟨value, ⟨⟩⟩
    · rintro rfl
      cases h

theorem eq_error_iff (h : Reports outcome faults) (error : ε) :
    outcome = .error error ↔ faults.head? = some error := by
  cases outcome with
  | ok value =>
    obtain rfl : faults = [] := h
    simp
  | error other =>
    have hhead : faults.head? = some other := h
    rw [hhead, Except.error.injEq, Option.some.injEq]

theorem bind {next : α → Except ε β} (h : Reports outcome faults)
    (hnext : ∀ value, outcome = .ok value → Reports (next value) more) : Reports (outcome >>= next) (faults ++ more) := by
  cases outcome with
  | ok value =>
    obtain rfl : faults = [] := h
    exact hnext value rfl
  | error error =>
    have hhead : faults.head? = some error := h
    show (faults ++ more).head? = some error
    rw [List.head?_append, hhead, Option.some_or]

theorem refuse {fault : Option ε} (h : faults.head? = fault) : Reports (refuse fault) faults := by
  subst h
  cases faults <;> exact rfl

theorem mapM {f : α → Except ε β} {faults : α → List ε} (h : ∀ item, Reports (f item) (faults item)) (items : List α) :
    Reports (items.mapM f) (items.flatMap faults) := by
  induction items with
  | nil => exact rfl
  | cons item items ih =>
    rw [List.mapM_cons, List.flatMap_cons]
    refine (h item).bind fun value _ => ?_
    rw [← List.append_nil (items.flatMap faults)]
    exact ih.bind fun _ _ => rfl

theorem mapM? {f : α → Except ε β} {faults : α → List ε} (h : ∀ item, Reports (f item) (faults item))
    (item : Option α) : Reports (item.mapM f) (item.toList.flatMap faults) := by
  cases item with
  | none => exact rfl
  | some item =>
    rw [Option.mapM_some, map_eq_pure_bind]
    exact (h item).bind fun _ _ => rfl

end Reports

end FunctionTrees.Outcome

import FunctionTrees.Event
import FunctionTrees.Proofs.Outcome

/-!
# Computations with a log

* `instLawfulMonadLogged` : logs are put one after the other;
* `result_bind`, `result_mapM` : the end of a computation does not depend on what is logged;
* `exists_of_result_bind`, `log_mapM_of_ok` : what has been logged where there is a value at the end;
* `Logs p computation` : all that is logged has the property; `Logs.bind`, `Logs.mapM`.
-/

set_option autoImplicit false

namespace FunctionTrees.Logged

variable {ε α β : Type}

theorem ext {first second : Logged ε α} (hlog : first.log = second.log) (hresult : first.result = second.result) :
    first = second := by
  cases first
  cases second
  cases hlog
  cases hresult
  rfl

@[simp] theorem result_pure (value : α) : (pure value : Logged ε α).result = .ok value := rfl

@[simp] theorem result_fail (error : ε) : (fail error : Logged ε α).result = .error error := rfl

@[simp] theorem result_bind (first : Logged ε α) (next : α → Logged ε β) :
    (first >>= next).result = first.result >>= fun value => (next value).result := by
  obtain ⟨log, result⟩ := first
  cases result <;> rfl

theorem pure_bind (value : α) (next : α → Logged ε β) : (pure value >>= next) = next value := rfl

theorem bind_pure (first : Logged ε α) : (first >>= pure) = first := by
  obtain ⟨log, result⟩ := first
  cases result with
  | error error => rfl
  | ok value => exact ext (List.append_nil log) rfl

theorem bind_assoc {γ : Type} (first : Logged ε α) (next : α → Logged ε β) (last : β → Logged ε γ) :
    (first >>= next >>= last) = first >>= fun value => next value >>= last := by
  obtain ⟨log, result⟩ := first
  cases result with
  | error error => rfl
  | ok value =>
    show Logged.bind (Logged.bind ⟨log, .ok value⟩ next) last = Logged.bind ⟨log, .ok value⟩ _
    cases hnext : next value with
    | mk log' result' =>
      cases result' with
      | error error => simp [Logged.bind, Bind.bind, hnext]
      | ok value' => simp [Logged.bind, Bind.bind, hnext]

instance instLawfulMonadLogged : LawfulMonad (Logged ε) :=
  LawfulMonad.mk' (Logged ε) (fun first => bind_pure first) pure_bind bind_assoc

theorem result_mapM (f : α → Logged ε β) (items : List α) :
    (items.mapM f).result = items.mapM fun item => (f item).result := by
  induction items with
  | nil => rfl
  | cons item items ih =>
    simp only [List.mapM_cons, result_bind, result_pure, ih]
    rfl

theorem result_mapM? (f : α → Logged ε β) (item : Option α) :
    (item.mapM f).result = item.mapM fun item => (f item).result := by
  cases item with
  | none => rfl
  | some item =>
    simp only [Option.mapM_some, map_eq_pure_bind, result_bind, result_pure]
    rfl

/-! ## What is logged on the way to a value -/

/-- A computation that ends in a value has gone through its parts, and logged what they log. -/
theorem exists_of_result_bind {first : Logged ε α} {next : α → Logged ε β} {result : β}
    (h : (first >>= next).result = .ok result) : ∃ value, first.result = .ok value ∧ (next value).result = .ok result ∧
      (first >>= next).log = first.log ++ (next value).log := by
  obtain ⟨log, outcome⟩ := first
  cases outcome with
  | error error => cases h
  | ok value => exact ⟨value, rfl, h, rfl⟩

theorem log_mapM_of_ok {f : α → Logged ε β} {items : List α} {values : List β}
    (h : (items.mapM f).result = .ok values) : (items.mapM f).log = items.flatMap fun item => (f item).log := by
  induction items generalizing values with
  | nil => rfl
  | cons item items ih =>
    rw [List.mapM_cons] at h ⊢
    obtain ⟨value, -, hrest, hlog⟩ := exists_of_result_bind h
    obtain ⟨more, hmore, -, hlog'⟩ := exists_of_result_bind hrest
    rw [hlog, hlog', ih hmore, List.flatMap_cons]
    exact congrArg ((f item).log ++ ·) (List.append_nil _)

/-! ## Properties of what is logged -/

def Logs (p : Event → Prop) (computation : Logged ε α) : Prop := ∀ event ∈ computation.log, p event

theorem log_eq_nil_of_logs {computation : Logged ε α} (h : computation.Logs fun _ => False) : computation.log = [] :=
  List.eq_nil_iff_forall_not_mem.2 h

section Logs

variable {p : Event → Prop}

theorem logs_pure (value : α) : (pure value : Logged ε α).Logs p := fun _ hmem => by cases hmem

theorem logs_fail (error : ε) : (fail error : Logged ε α).Logs p := fun _ hmem => by cases hmem

/-- What comes behind a failure is not reached. -/
theorem logs_fail_bind (error : ε) (next : α → Logged ε β) : (fail error >>= next).Logs p := logs_fail error

theorem logs_tellAll {events : List Event} (h : ∀ event ∈ events, p event) : (tellAll events : Logged ε Unit).Logs p := h

theorem Logs.bind {first : Logged ε α} {next : α → Logged ε β} (h : first.Logs p) (hnext : ∀ value, (next value).Logs p) :
    (first >>= next).Logs p := by
  obtain ⟨log, result⟩ := first
  cases result with
  | error error => exact h
  | ok value => exact List.forall_mem_append.2 ⟨h, hnext value⟩

theorem Logs.mapM {f : α → Logged ε β} (h : ∀ item, (f item).Logs p) (items : List α) : (items.mapM f).Logs p := by
  induction items with
  | nil => exact logs_pure _
  | cons item items ih =>
    rw [List.mapM_cons]
    exact (h item).bind fun _ => ih.bind fun _ => logs_pure _

theorem Logs.mapM? {f : α → Logged ε β} (h : ∀ item, (f item).Logs p) (item : Option α) : (item.mapM f).Logs p := by
  cases item with
  | none => exact logs_pure _
  | some item =>
    rw [Option.mapM_some, map_eq_pure_bind]
    exact (h item).bind fun _ => logs_pure _

end Logs

end FunctionTrees.Logged

import Axonyx.Ieee
import Axonyx.Runtime.Preview.Store

/-! Transactions of the preview store and the identifiers it assigns. A transaction writes
nothing or what its operations write one by one; an assigned identifier is one more than the
number of records, which is new as long as no record has it already. -/
namespace Axonyx.Runtime.Preview

open Axonyx.Core (AxValue lookup insertField lookup_insertField)
open Axonyx.Core.Sql (AxRustExpr AxAssignmentPlan AxQueryFilterPlan AxQueryFilterOpPlan)

variable {F : Type} [Float64 F]

section Atomic

variable (eval : Evaluator F)

/-- An operation of a transaction as a step of its own. -/
def AxTransactionOperationPlan.standAlone : AxTransactionOperationPlan → AxStepPlan
  | .insert collection fields => .insert collection fields
  | .update collection fields filters => .update collection fields filters
  | .delete collection filters => .delete collection filters

variable {eval}

theorem executeStep_standAlone (operation : AxTransactionOperationPlan)
    (store : AxPreviewStore F) : executeStep eval operation.standAlone store =
      match preparePreviewTransactionOperation eval operation with
      | .error error => (.error error, store)
      | .ok prepared => (.ok (), applyPreviewTransactionOperation prepared store) := by
  cases operation with
  | insert collection fields =>
    simp only [AxTransactionOperationPlan.standAlone, executeStep,
      preparePreviewTransactionOperation]
    cases evalPreviewFields eval fields [] <;> rfl
  | update collection fields filters =>
    simp only [AxTransactionOperationPlan.standAlone, executeStep,
      preparePreviewTransactionOperation]
    cases evalPreviewFields eval fields [] with
    | error error => rfl
    | ok fields => cases evalPreviewFilters eval filters <;> rfl
  | delete collection filters =>
    simp only [AxTransactionOperationPlan.standAlone, executeStep,
      preparePreviewTransactionOperation]
    cases evalPreviewFilters eval filters <;> rfl

/-- Operations that can all be prepared run one by one to the store of their fold. -/
theorem executeSteps_standAlone {operations : List AxTransactionOperationPlan}
    {prepared : List (PreparedPreviewTransactionOperation F)}
    (ready : prepareAll eval operations = .ok prepared) (store : AxPreviewStore F) :
    executeSteps eval (operations.map AxTransactionOperationPlan.standAlone) store =
      (.ok (), prepared.foldl (fun pending operation =>
        applyPreviewTransactionOperation operation pending) store) := by
  induction operations generalizing prepared store with
  | nil =>
    cases ready
    rfl
  | cons operation rest ih =>
    obtain ⟨first, one, others⟩ := Outcome.bind_ok.mp ready
    obtain ⟨later, all, same⟩ := Outcome.bind_ok.mp others
    cases same
    rw [List.map_cons, executeSteps, executeStep_standAlone, one]
    exact ih all _

/-- A transaction fails and leaves the store, or succeeds with the store that its operations
leave as steps of the action. -/
theorem preview_transaction_atomic (eval : Evaluator F)
    (operations : List AxTransactionOperationPlan) (store : AxPreviewStore F) :
    (∃ error, executePreviewTransaction eval operations store = (.error error, store)) ∨
      ∃ after, executePreviewTransaction eval operations store = (.ok (), after) ∧
        executeSteps eval (operations.map AxTransactionOperationPlan.standAlone) store =
          (.ok (), after) := by
  unfold executePreviewTransaction
  by_cases empty : operations.isEmpty = true
  · rw [if_pos empty]
    exact .inl ⟨_, rfl⟩
  rw [if_neg empty]
  cases ready : prepareAll eval operations with
  | error error => exact .inl ⟨error, rfl⟩
  | ok prepared => exact .inr ⟨_, rfl, executeSteps_standAlone ready store⟩

end Atomic

section Runs

/-- The operations that a step applies; none when it fails. -/
def performed (eval : Evaluator F) : AxStepPlan → List (PreparedPreviewTransactionOperation F)
  | .transaction operations =>
    match prepareAll eval operations with
    | .ok prepared => prepared
    | .error _ => []
  | .insert collection fields => single (.insert collection fields)
  | .update collection fields filters => single (.update collection fields filters)
  | .delete collection filters => single (.delete collection filters)
where
  single (operation : AxTransactionOperationPlan) :
      List (PreparedPreviewTransactionOperation F) :=
    match preparePreviewTransactionOperation eval operation with
    | .ok prepared => [prepared]
    | .error _ => []

def applyAll (operations : List (PreparedPreviewTransactionOperation F))
    (store : AxPreviewStore F) : AxPreviewStore F :=
  operations.foldl (fun store operation => applyPreviewTransactionOperation operation store) store

theorem executeStep_performed (eval : Evaluator F) (step : AxStepPlan) (store : AxPreviewStore F) :
    (executeStep eval step store).2 = applyAll (performed eval step) store := by
  have single (operation : AxTransactionOperationPlan) :
      (executeStep eval operation.standAlone store).2 =
        applyAll (performed.single eval operation) store := by
    rw [executeStep_standAlone]
    unfold performed.single
    cases preparePreviewTransactionOperation eval operation <;> rfl
  cases step with
  | insert collection fields => exact single (.insert collection fields)
  | update collection fields filters => exact single (.update collection fields filters)
  | delete collection filters => exact single (.delete collection filters)
  | transaction operations =>
    cases operations with
    | nil => rfl
    | cons operation rest =>
      simp only [executeStep, executePreviewTransaction, performed, List.isEmpty_cons,
        Bool.false_eq_true, if_false]
      cases prepareAll eval (operation :: rest) <;> rfl

/-- Steps of any actions, each in its own scope; a step that fails changes nothing. -/
def executeRun (run : List (Evaluator F × AxStepPlan)) (store : AxPreviewStore F) :
    AxPreviewStore F :=
  run.foldl (fun store step => (executeStep step.1 step.2 store).2) store

def history (run : List (Evaluator F × AxStepPlan)) :
    List (PreparedPreviewTransactionOperation F) :=
  run.flatMap fun step => performed step.1 step.2

theorem executeRun_history (run : List (Evaluator F × AxStepPlan)) (store : AxPreviewStore F) :
    executeRun run store = applyAll (history run) store := by
  induction run generalizing store with
  | nil => rfl
  | cons step rest ih =>
    unfold executeRun history applyAll at ih ⊢
    rw [List.foldl_cons, List.flatMap_cons, List.foldl_append, ih, executeStep_performed]
    rfl

end Runs

section Identifiers

def idOf (item : AxValue F) : Option (AxValue F) := previewRecordField item "id"

/-- The identifiers of two records are not equal. -/
def Apart (a b : AxValue F) : Prop :=
  ∀ x y, idOf a = some x → idOf b = some y → x.eq y = false

theorem Apart.symm {a b : AxValue F} (apart : Apart a b) : Apart b a := by
  intro x y first second
  rw [AxValue.eq_comm]
  exact apart y x second first

def DistinctIds (items : List (AxValue F)) : Prop := items.Pairwise Apart

/-- An identifier that an operation writes is not in use. -/
def ExplicitNew (store : AxPreviewStore F) : PreparedPreviewTransactionOperation F → Prop
  | .insert collection fields => (lookup fields "id").isSome →
      ∀ item ∈ store.collectionItems collection, Apart item (.record fields)
  | .update collection fields filters => (lookup fields "id").isSome →
      (store.collectionItems collection).Pairwise
        (fun a b => ¬(previewRecordMatchesAll a filters ∧ previewRecordMatchesAll b filters)) ∧
      ∀ a ∈ store.collectionItems collection, previewRecordMatchesAll a filters →
        ∀ b ∈ store.collectionItems collection, ¬previewRecordMatchesAll b filters →
          Apart (applyPreviewFields a fields) b
  | .delete _ _ => True

/-- No record has one more than the number of records as its identifier when an insert leaves
the identifier to the store. -/
def NextFree (store : AxPreviewStore F) : PreparedPreviewTransactionOperation F → Prop
  | .insert collection fields => lookup fields "id" = none →
      ∀ item ∈ store.collectionItems collection,
        idOf item ≠ some (.string (toString ((store.collectionItems collection).length + 1)))
  | _ => True

/-- An insert without an identifier gets one that no record then in the collection has. -/
def AssignsNew (store : AxPreviewStore F) : PreparedPreviewTransactionOperation F → Prop
  | .insert collection fields => lookup fields "id" = none →
      ∀ item ∈ store.collectionItems collection, Apart item
        (.record (assignPreviewId fields (store.collectionItems collection).length))
  | _ => True

/-- A statement about every operation of a list and the store before it. -/
def Throughout (p : AxPreviewStore F → PreparedPreviewTransactionOperation F → Prop) :
    List (PreparedPreviewTransactionOperation F) → AxPreviewStore F → Prop
  | [], _ => True
  | operation :: rest, store =>
    p store operation ∧ Throughout p rest (applyPreviewTransactionOperation operation store)

theorem lookup_apply (fields own : List (String × AxValue F)) (name : String)
    (absent : lookup fields name = none) :
    lookup (fields.foldl (fun own field => insertField own field.1 field.2) own) name =
      lookup own name := by
  induction fields generalizing own with
  | nil => rfl
  | cons field rest ih =>
    obtain ⟨key, value⟩ := field
    rw [Core.lookup_cons] at absent
    by_cases same : key = name
    · rw [if_pos same] at absent
      cases absent
    · rw [if_neg same] at absent
      rw [List.foldl_cons, ih _ absent, lookup_insertField, if_neg (Ne.symm same)]

theorem idOf_apply {fields : List (String × AxValue F)} (absent : lookup fields "id" = none)
    (item : AxValue F) : idOf (applyPreviewFields item fields) = idOf item := by
  cases item with
  | record own => exact lookup_apply fields own "id" absent
  | _ => rfl

theorem idOf_assigned {fields : List (String × AxValue F)} (absent : lookup fields "id" = none)
    (length : Nat) : idOf (.record (assignPreviewId fields length)) =
      some (.string (toString (length + 1))) := by
  simp [idOf, previewRecordField, assignPreviewId, absent, lookup_insertField]

theorem apart_string {item : AxValue F} {fields : List (String × AxValue F)} {text : String}
    (id : idOf (.record fields) = some (.string text)) :
    Apart item (.record fields) ↔ idOf item ≠ some (.string text) := by
  refine ⟨fun apart same => ?_, fun other x y first second => ?_⟩
  · simpa [AxValue.eq] using apart _ _ same id
  · rw [id] at second
    cases second
    cases x with
    | string value =>
      refine beq_eq_false_iff_ne.mpr fun same => other ?_
      rw [first, same]
    | _ => rfl

theorem assignsNew_iff (store : AxPreviewStore F)
    (operation : PreparedPreviewTransactionOperation F) :
    AssignsNew store operation ↔ NextFree store operation := by
  cases operation with
  | insert collection fields =>
    refine forall_congr' fun absent => forall_congr' fun item => forall_congr' fun _ => ?_
    exact apart_string (idOf_assigned absent _)
  | _ => exact Iff.rfl

/-- What an operation leaves has distinct identifiers if those it writes are not in use. -/
theorem apply_distinct {store : AxPreviewStore F}
    {operation : PreparedPreviewTransactionOperation F}
    (distinct : ∀ collection, DistinctIds (store.collectionItems collection))
    (explicit : ExplicitNew store operation) (free : NextFree store operation)
    (collection : String) :
    DistinctIds ((applyPreviewTransactionOperation operation store).collectionItems collection) := by
  have before := distinct collection
  cases operation with
  | insert target fields =>
    simp only [applyPreviewTransactionOperation, collectionItems_change]
    by_cases same : collection = target
    swap
    · rw [if_neg same]
      exact before
    subst same
    rw [if_pos rfl]
    refine List.pairwise_append.mpr ⟨before, List.pairwise_singleton _ _, ?_⟩
    intro item member last single
    rw [List.mem_singleton.mp single]
    cases given : lookup fields "id" with
    | none => exact (assignsNew_iff store (.insert collection fields)).mpr free given item member
    | some id =>
      have kept : assignPreviewId fields (store.collectionItems collection).length = fields := by
        simp [assignPreviewId, given]
      rw [kept]
      exact explicit (by rw [given]; rfl) item member
  | update target fields filters =>
    simp only [applyPreviewTransactionOperation, collectionItems_change]
    by_cases same : collection = target
    swap
    · rw [if_neg same]
      exact before
    subst same
    rw [if_pos rfl]
    refine List.pairwise_map.mpr ?_
    cases given : lookup fields "id" with
    | none =>
      refine before.imp fun {a b} apart x y first second => apart x y ?_ ?_
      · split at first
        · rwa [idOf_apply given] at first
        · exact first
      · split at second
        · rwa [idOf_apply given] at second
        · exact second
    | some id =>
      obtain ⟨once, others⟩ := explicit (by rw [given]; rfl)
      refine List.Pairwise.imp_of_mem ?_ (before.and once)
      rintro a b left right ⟨apart, notBoth⟩
      by_cases first : previewRecordMatchesAll a filters = true
      · have second : ¬previewRecordMatchesAll b filters = true := fun both => notBoth ⟨first, both⟩
        rw [if_pos first, if_neg second]
        exact others a left first b right second
      · rw [if_neg first]
        by_cases second : previewRecordMatchesAll b filters = true
        · rw [if_pos second]
          exact (others b right second a left first).symm
        · rw [if_neg second]
          exact apart
  | delete target filters =>
    simp only [applyPreviewTransactionOperation, collectionItems_change]
    by_cases same : collection = target
    · subst same
      rw [if_pos rfl]
      exact before.filter _
    · rw [if_neg same]
      exact before

theorem throughout_distinct {operations : List (PreparedPreviewTransactionOperation F)}
    {store : AxPreviewStore F}
    (distinct : ∀ collection, DistinctIds (store.collectionItems collection))
    (explicit : Throughout ExplicitNew operations store)
    (free : Throughout NextFree operations store) :
    Throughout (fun store operation => AssignsNew store operation ∧ ∀ collection,
        DistinctIds ((applyPreviewTransactionOperation operation store).collectionItems collection))
      operations store ∧
    ∀ collection, DistinctIds ((applyAll operations store).collectionItems collection) := by
  induction operations generalizing store with
  | nil => exact ⟨trivial, distinct⟩
  | cons operation rest ih =>
    have after := apply_distinct distinct explicit.1 free.1
    obtain ⟨later, final⟩ := ih after explicit.2 free.2
    exact ⟨⟨⟨(assignsNew_iff store operation).mpr free.1, after⟩, later⟩, final⟩

theorem throughout_imp {p q : AxPreviewStore F → PreparedPreviewTransactionOperation F → Prop}
    (imp : ∀ store operation, p store operation → q store operation)
    {operations : List (PreparedPreviewTransactionOperation F)} {store : AxPreviewStore F}
    (holds : Throughout p operations store) : Throughout q operations store := by
  induction operations generalizing store with
  | nil => trivial
  | cons operation rest ih => exact ⟨imp _ _ holds.1, ih holds.2⟩

/-- Over a run of steps whose explicit identifiers are new, every assigned identifier is new and
all identifiers stay distinct exactly when no insert comes to a collection of `n` records that
holds an identifier `n + 1`. -/
theorem preview_ids_distinct_iff (run : List (Evaluator F × AxStepPlan)) (store : AxPreviewStore F)
    (start : ∀ collection, DistinctIds (store.collectionItems collection))
    (explicit : Throughout ExplicitNew (history run) store) :
    (Throughout (fun store operation => AssignsNew store operation ∧ ∀ collection,
        DistinctIds ((applyPreviewTransactionOperation operation store).collectionItems collection))
        (history run) store ∧
      ∀ collection, DistinctIds ((executeRun run store).collectionItems collection)) ↔
    Throughout NextFree (history run) store := by
  rw [executeRun_history]
  refine ⟨fun holds => ?_, throughout_distinct start explicit⟩
  exact throughout_imp (fun store operation both => (assignsNew_iff store operation).mp both.1)
    holds.1

theorem sample_ids (collection : String) :
    (samplePreviewCollectionItems collection : List (AxValue F)).map idOf =
      if collection = "posts" then
        [some (.string "1"), some (.string "2"), some (.string "3")]
      else [some (.string "1"), some (.string "2")] := by
  unfold samplePreviewCollectionItems
  split
  · simp [record, idOf, previewRecordField, lookup_insertField]
  · split <;> simp [record, idOf, previewRecordField, lookup_insertField]

/-- The sample collections have distinct identifiers, touched or not. -/
theorem default_distinct (collection : String) :
    DistinctIds ((AxPreviewStore.default : AxPreviewStore F).collectionItems collection) := by
  have samples : (AxPreviewStore.default : AxPreviewStore F).collectionItems collection =
      samplePreviewCollectionItems collection := by
    unfold AxPreviewStore.default AxPreviewStore.collectionItems
    dsimp only
    split <;> rfl
  have ids : ((samplePreviewCollectionItems collection : List (AxValue F)).map idOf).Pairwise
      (fun a b => ∀ x y, a = some x → b = some y → x.eq y = false) := by
    rw [sample_ids]
    split <;> simp [AxValue.eq]
  rw [samples]
  exact (List.pairwise_map (f := idOf)).mp ids

def textEval : Evaluator F64 := fun expr => .ok (.string expr.code)

def addUser : Evaluator F64 × AxStepPlan := (textEval, .insert "users" [⟨"name", ⟨"Mia"⟩⟩])

theorem preview_ids_distinct_iff_insert :
    DistinctIds ((executeRun [addUser] AxPreviewStore.default).collectionItems "users") := by
  refine ((preview_ids_distinct_iff [addUser] AxPreviewStore.default default_distinct
    ⟨?_, trivial⟩).mpr ⟨?_, trivial⟩).2 "users"
  · intro given
    simp [insertField, lookup] at given
  · intro _ item member
    have ids := List.mem_map_of_mem (f := idOf) member
    change idOf item ∈ (samplePreviewCollectionItems "users").map idOf at ids
    rw [sample_ids] at ids
    change idOf item ≠ some (.string "3")
    rcases List.mem_pair.mp ids with first | second
    · simp [first]
    · simp [second]

/-- Deleting the first of two users and adding one gives two users with the identifier `2`. -/
theorem preview_ids_repeat :
    ((executeRun [(textEval, .delete "users" [⟨"id", .eq, ⟨"1"⟩⟩]), addUser]
      AxPreviewStore.default).collectionItems "users").map idOf =
      [some (.string "2"), some (.string "2")] := by
  rfl

end Identifiers

end Axonyx.Runtime.Preview

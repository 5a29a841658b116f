import Axonyx.StateWasm.Frame
import Axonyx.StateWasm.Program

/-! Running a program from a cursor on: the loop's fuel never matters, and an instruction in
place acts on the stack and moves the cursor behind its operands. -/
namespace Axonyx.StateWasm

open Wire (Bytes utf8)

variable {F : Type} [Float64 F]

section Advance

theorem Reads.le {bytes slice : Bytes} {cursor next : Nat} (read : Reads bytes cursor slice next) :
    cursor ≤ next := by
  rw [read.next_eq]
  exact Nat.le_add_right _ _

theorem take_advances {program raw : Bytes} {cursor length next : Nat}
    (taken : take program cursor length = some (raw, next)) : cursor ≤ next :=
  (take_eq_some_iff.mp taken).2.le

theorem readString_advances {program : Bytes} {cursor next : Nat} {value : String}
    (found : readString program cursor = some (value, next)) : cursor ≤ next := by
  obtain ⟨_, _, read⟩ := readString_eq_some_iff.mp found
  exact read.le

theorem readProgramU16_eq_some_iff {program : Bytes} {cursor value next : Nat} :
    readProgramU16 program cursor = some (value, next) ↔
      value < 2 ^ 16 ∧ Reads program cursor (Wire.leBytes 2 value) next := by
  simp only [readProgramU16, Option.bind_eq_bind, Option.pure_def, Option.bind_eq_some_iff,
    Option.some.injEq, Prod.exists, Prod.mk.injEq]
  constructor
  · rintro ⟨raw, after, taken, rfl, rfl⟩
    obtain ⟨width, read⟩ := take_eq_some_iff.mp taken
    have small := Wire.ofLe_lt raw
    have same := Wire.leBytes_ofLe raw
    rw [width] at small same
    exact ⟨small, by rwa [same]⟩
  · rintro ⟨small, read⟩
    refine ⟨_, _, take_eq_some_iff.mpr ⟨Wire.leBytes_length 2 value, read⟩, ?_, rfl⟩
    exact Wire.ofLe_leBytes 2 value small

theorem readKeys_advances {program : Bytes} {count cursor next : Nat} {keys found : List String}
    (read : readKeys program count cursor keys = some (found, next)) : cursor ≤ next := by
  induction count generalizing cursor keys with
  | zero =>
    cases read
    exact Nat.le_refl _
  | succ count ih =>
    simp only [readKeys, Option.bind_eq_bind, Option.bind_eq_some_iff, Prod.exists] at read
    obtain ⟨key, middle, first, rest⟩ := read
    split at rest
    · cases rest
    · exact Nat.le_trans (readString_advances first) (ih rest)

variable {program : Bytes} {dependencies : List (ExprValue F)}

theorem execOpcode_advances {opcode : UInt8} {cursor next : Nat} {stack after : Stack F}
    (step : execOpcode program dependencies opcode cursor stack = some (after, next)) :
    cursor ≤ next := by
  unfold execOpcode at step
  split at step
  · simp only [Option.bind_eq_bind, Option.bind_eq_some_iff, Prod.exists, Option.pure_def] at step
    obtain ⟨index, middle, read, value, _, same⟩ := step
    cases same
    exact (readProgramU16_eq_some_iff.mp read).2.le
  · cases step
    exact Nat.le_refl _
  · simp only [Option.bind_eq_bind, Option.bind_eq_some_iff, Prod.exists, Option.pure_def] at step
    obtain ⟨value, middle, read, same⟩ := step
    cases same
    exact readString_advances read
  · simp only [Option.bind_eq_bind, Option.bind_eq_some_iff, Prod.exists] at step
    obtain ⟨raw, middle, read, value, _, same⟩ := step
    split at same
    · cases same
    · cases same
      exact take_advances read
  · simp only [Option.bind_eq_bind, Option.bind_eq_some_iff, Prod.exists] at step
    obtain ⟨raw, middle, read, same⟩ := step
    split at same
    · cases same
      exact take_advances read
    · cases same
  · simp only [Option.bind_eq_bind, Option.bind_eq_some_iff, Prod.exists, Option.pure_def] at step
    obtain ⟨raw, middle, read, same⟩ := step
    cases same
    exact take_advances read
  iterate 18
    split at step
    · simp only [Option.bind_eq_bind, Option.bind_eq_some_iff, Option.pure_def] at step
      obtain ⟨result, _, same⟩ := step
      cases same
      exact Nat.le_refl _
    · cases step
  iterate 2
    simp only [Option.bind_eq_bind, Option.bind_eq_some_iff, Prod.exists] at step
    obtain ⟨property, middle, read, same⟩ := step
    split at same
    · simp only [Option.bind_eq_some_iff, Option.pure_def] at same
      obtain ⟨result, _, same⟩ := same
      cases same
      exact readString_advances read
    · cases same
  · simp only [Option.bind_eq_bind, Option.bind_eq_some_iff, Prod.exists] at step
    obtain ⟨count, middle, read, same⟩ := step
    split at same
    · cases same
    · simp only [Option.bind_eq_some_iff, Prod.exists, Option.pure_def] at same
      obtain ⟨values, rest, _, same⟩ := same
      cases same
      exact (readProgramU16_eq_some_iff.mp read).2.le
  · simp only [Option.bind_eq_bind, Option.bind_eq_some_iff, Prod.exists] at step
    obtain ⟨count, middle, read, same⟩ := step
    split at same
    · cases same
    · simp only [Option.bind_eq_some_iff, Prod.exists, Option.pure_def] at same
      obtain ⟨keys, behind, named, values, rest, _, same⟩ := same
      cases same
      exact Nat.le_trans (readProgramU16_eq_some_iff.mp read).2.le (readKeys_advances named)
  · cases step

end Advance

section Resume

variable (program : Bytes) (dependencies : List (ExprValue F))

theorem runProgram_fuel {fuel more cursor : Nat} {stack : Stack F}
    (enough : program.length - cursor < fuel) (also : program.length - cursor < more) :
    runProgram program dependencies fuel cursor stack =
      runProgram program dependencies more cursor stack := by
  induction fuel generalizing more cursor stack with
  | zero => omega
  | succ fuel ih =>
    obtain ⟨more, rfl⟩ : ∃ n, more = n + 1 := ⟨more - 1, by omega⟩
    simp only [runProgram]
    cases found : (program[cursor]? : Option UInt8) with
    | none => rfl
    | some opcode =>
      have inside : cursor < program.length := (List.getElem?_eq_some_iff.mp found).1
      cases step : execOpcode program dependencies opcode (cursor + 1) stack with
      | none => simp only [step, Option.bind_eq_bind, Option.bind_none]
      | some result =>
        have forward := execOpcode_advances step
        simp only [step, Option.bind_eq_bind, Option.bind_some]
        rw [@ih more _ _ (by omega) (by omega)]

/-- The loop from a cursor on. -/
def resume (cursor : Nat) (stack : Stack F) : Option (ExprValue F) :=
  runProgram program dependencies (program.length - cursor + 1) cursor stack

theorem resume_end (stack : Stack F) : resume program dependencies program.length stack =
    match stack with
    | [value] => some value
    | _ => none := by
  simp only [resume, runProgram, List.getElem?_eq_none (Nat.le_refl program.length)]
  all_goals rfl

/-- The machine goes on with a stack unless it is too high. -/
def continueAt (next : Nat) (stack : Stack F) : Option (ExprValue F) :=
  if stack.length > axExpressionStackMaxValues then none else resume program dependencies next stack

variable {program dependencies}

theorem resume_exec {opcode : UInt8} {operands : Bytes} {cursor next : Nat} {stack : Stack F}
    (result : Option (Stack F)) (read : Reads program cursor (opcode :: operands) next)
    (exec : execOpcode program dependencies opcode (cursor + 1) stack =
      result.map fun after => (after, next)) :
    resume program dependencies cursor stack =
      result.bind (continueAt program dependencies next) := by
  have next_eq := read.next_eq
  have bound := read.bound
  rw [List.length_cons] at next_eq
  have found : (program[cursor]? : Option UInt8) = some opcode := by
    have head := congrArg List.head? read.split
    simpa [List.head?_drop] using head
  simp only [resume, runProgram, found, exec]
  cases result with
  | none => rfl
  | some after =>
    simp only [Option.map_some, Option.bind_eq_bind, Option.bind_some, continueAt, resume]
    rw [runProgram_fuel program dependencies (by omega) (Nat.lt_succ_self _)]

variable {cursor next : Nat} {stack : Stack F}

theorem Reads.tail {bytes slice : Bytes} {byte : UInt8}
    (read : Reads bytes cursor (byte :: slice) next) : Reads bytes (cursor + 1) slice next := by
  obtain ⟨middle, first, rest⟩ := reads_append_iff.mp (show Reads bytes cursor ([byte] ++ slice) next from read)
  rwa [first.next_eq] at rest

theorem resume_push {opcode : UInt8} {operands : Bytes} {value : ExprValue F}
    (read : Reads program cursor (opcode :: operands) next)
    (exec : execOpcode program dependencies opcode (cursor + 1) stack =
      some (value :: stack, next)) :
    resume program dependencies cursor stack =
      continueAt program dependencies next (value :: stack) :=
  resume_exec (some (value :: stack)) read exec

theorem resume_dependency {index : Nat} {value : ExprValue F}
    (read : Reads program cursor (0 :: Wire.leBytes 2 index) next) (small : index < 2 ^ 16)
    (found : dependencies[index]? = some value) :
    resume program dependencies cursor stack =
      continueAt program dependencies next (value :: stack) := by
  have operand := readProgramU16_eq_some_iff.mpr ⟨small, read.tail⟩
  apply resume_push read
  simp [execOpcode, operand, found]

theorem resume_null (read : Reads program cursor [1] next) :
    resume program dependencies cursor stack =
      continueAt program dependencies next (.null :: stack) := by
  apply resume_push read
  rw [read.next_eq]
  rfl

theorem resume_string {value : String} {text : Bytes}
    (read : Reads program cursor (2 :: text) next)
    (written : ∃ length, pushU32 (utf8 value).length = some length ∧ text = length ++ utf8 value) :
    resume program dependencies cursor stack =
      continueAt program dependencies next (.string value :: stack) := by
  obtain ⟨length, pushed, rfl⟩ := written
  have operand := readString_eq_some_iff.mpr ⟨length, pushed, read.tail⟩
  apply resume_push read
  simp [execOpcode, operand]

theorem resume_bool {value : Bool}
    (read : Reads program cursor [3, if value then 1 else 0] next) :
    resume program dependencies cursor stack =
      continueAt program dependencies next (.bool value :: stack) := by
  have operand := take_eq_some_iff.mpr ⟨rfl, read.tail⟩
  apply resume_push read
  cases value <;> simp_all [execOpcode]

theorem resume_float {value : F} (finite : Binary64.isFinite value = true)
    (read : Reads program cursor (4 :: Binary64.toLeBytes value) next) :
    resume program dependencies cursor stack =
      continueAt program dependencies next (.float value :: stack) := by
  have operand := take_eq_some_iff.mpr ⟨Binary64.toLeBytes_length value, read.tail⟩
  apply resume_push read
  simp [execOpcode, operand, finite]

theorem resume_int {value : Int64} (read : Reads program cursor (5 :: int64ToLe value) next) :
    resume program dependencies cursor stack =
      continueAt program dependencies next (.int value :: stack) := by
  have operand := take_eq_some_iff.mpr ⟨int64ToLe_length value, read.tail⟩
  apply resume_push read
  simp [execOpcode, operand]

theorem resume_unary {opcode : UInt8} {value : ExprValue F} (unary : opcode = 10 ∨ opcode = 11)
    (read : Reads program cursor [opcode] next) :
    resume program dependencies cursor (value :: stack) =
      (evaluateUnaryOpcode opcode value).bind fun result =>
        continueAt program dependencies next (result :: stack) := by
  have after : cursor + 1 = next := read.next_eq.symm
  rw [resume_exec ((evaluateUnaryOpcode opcode value).map (· :: stack)) read]
  · cases evaluateUnaryOpcode opcode value <;> rfl
  · rw [after, execOpcode_unary program dependencies unary]
    cases evaluateUnaryOpcode opcode value <;> rfl

theorem resume_binary {opcode : UInt8} {left right : ExprValue F} (binary : opcode ∈ binaryOpcodes)
    (read : Reads program cursor [opcode] next) :
    resume program dependencies cursor (right :: left :: stack) =
      (evaluateBinaryOpcode opcode left right).bind fun result =>
        continueAt program dependencies next (result :: stack) := by
  have after : cursor + 1 = next := read.next_eq.symm
  rw [resume_exec ((evaluateBinaryOpcode opcode left right).map (· :: stack)) read]
  · cases evaluateBinaryOpcode opcode left right <;> rfl
  · rw [after, execOpcode_binary program dependencies binary]
    cases evaluateBinaryOpcode opcode left right <;> rfl

theorem resume_member (optional : Bool) {property : String} {text : Bytes} {object : ExprValue F}
    (read : Reads program cursor ((if optional then 42 else 41) :: text) next)
    (written : ∃ length, pushU32 (utf8 property).length = some length ∧
      text = length ++ utf8 property) :
    resume program dependencies cursor (object :: stack) =
      (memberOpcode optional property object).bind fun result =>
        continueAt program dependencies next (result :: stack) := by
  obtain ⟨length, pushed, rfl⟩ := written
  have operand := readString_eq_some_iff.mpr ⟨length, pushed, read.tail⟩
  rw [resume_exec ((memberOpcode optional property object).map (· :: stack)) read]
  · cases memberOpcode optional property object <;> rfl
  · cases optional with
    | false =>
      have opcode : ((41 : UInt8) == 42) = false := rfl
      simp only [Bool.false_eq_true, if_false, execOpcode, operand, Option.bind_eq_bind,
        Option.bind_some, opcode]
      cases memberOpcode false property object <;> rfl
    | true =>
      simp only [if_true, execOpcode, operand, Option.bind_eq_bind, Option.bind_some, beq_self_eq_true]
      cases memberOpcode true property object <;> rfl

omit [Float64 F] in
theorem popExpressionValues_append (values : List (ExprValue F)) (stack : Stack F) :
    popExpressionValues (values.reverse ++ stack) values.length = some (values, stack) := by
  have length : values.length = values.reverse.length := List.length_reverse.symm
  rw [popExpressionValues, if_pos (by simp)]
  rw [length, List.take_left, List.drop_left, List.reverse_reverse]

omit [Float64 F] in
theorem popExpressionValues_length {stack rest : Stack F} {count : Nat}
    {values : List (ExprValue F)} (popped : popExpressionValues stack count = some (values, rest)) :
    values.length + rest.length = stack.length := by
  unfold popExpressionValues at popped
  split at popped
  · cases popped
    rw [List.length_reverse, ← List.length_append, List.take_append_drop]
  · cases popped

theorem resume_list {values : List (ExprValue F)}
    (small : values.length ≤ axExpressionCollectionMaxItems)
    (read : Reads program cursor (50 :: Wire.leBytes 2 values.length) next) :
    resume program dependencies cursor (values.reverse ++ stack) =
      continueAt program dependencies next (.list values :: stack) := by
  have word : values.length < 2 ^ 16 := Nat.lt_of_le_of_lt small (by decide)
  have operand := readProgramU16_eq_some_iff.mpr ⟨word, read.tail⟩
  rw [resume_exec (some (.list values :: stack)) read]
  · rfl
  · simp [execOpcode, operand, Nat.not_lt.mpr small, popExpressionValues_append]

/-- The keys of an object literal behind each other. -/
inductive KeysWritten : List String → Bytes → Prop
  | nil : KeysWritten [] []
  | cons {key : String} {keys : List String} {length text : Bytes}
      (pushed : pushU32 (utf8 key).length = some length) (rest : KeysWritten keys text) :
      KeysWritten (key :: keys) (length ++ utf8 key ++ text)

theorem readKeys_eq {keys seen : List String} {text : Bytes} (written : KeysWritten keys text)
    (read : Reads program cursor text next) (distinct : seen.Nodup) :
    readKeys program keys.length cursor seen =
      if (seen ++ keys).Nodup then some (seen ++ keys, next) else none := by
  induction written generalizing cursor seen with
  | nil =>
    have same : next = cursor := by rw [read.next_eq]; rfl
    simp [readKeys, distinct, same]
  | @cons key keys length text pushed rest ih =>
    obtain ⟨middle, first, later⟩ := reads_append_iff.mp read
    have operand := readString_eq_some_iff.mpr ⟨length, pushed, first⟩
    simp only [List.length_cons, readKeys, operand, Option.bind_eq_bind, Option.bind_some]
    by_cases known : key ∈ seen
    · have twice : ¬ (seen ++ key :: keys).Nodup := by
        rw [List.nodup_append]
        exact fun all => all.2.2 key known key List.mem_cons_self rfl
      simp [known, twice]
    · have fresh : (seen ++ [key]).Nodup := by
        rw [List.nodup_append]
        refine ⟨distinct, by simp, ?_⟩
        rintro a member b same rfl
        exact known (List.mem_singleton.mp same ▸ member)
      simp only [List.contains_eq_mem, known, decide_false, Bool.false_eq_true, if_false]
      rw [ih later fresh, List.append_assoc]
      rfl

theorem resume_object {keys : List String} {values : List (ExprValue F)} {text : Bytes}
    (same : values.length = keys.length) (small : keys.length ≤ axExpressionCollectionMaxItems)
    (written : KeysWritten keys text)
    (read : Reads program cursor (51 :: (Wire.leBytes 2 keys.length ++ text)) next) :
    resume program dependencies cursor (values.reverse ++ stack) =
      if keys.Nodup then continueAt program dependencies next (.object (keys.zip values) :: stack)
      else none := by
  have word : keys.length < 2 ^ 16 := Nat.lt_of_le_of_lt small (by decide)
  obtain ⟨middle, count, rest⟩ := reads_append_iff.mp read.tail
  have operand := readProgramU16_eq_some_iff.mpr ⟨word, count⟩
  have named := readKeys_eq written rest List.nodup_nil
  rw [List.nil_append] at named
  rw [resume_exec (if keys.Nodup then some (.object (keys.zip values) :: stack) else none)
    read]
  · split <;> rfl
  · simp only [execOpcode, operand, Option.bind_eq_bind, Option.bind_some, Nat.not_lt.mpr small,
      if_false, named]
    split
    · simp [← same, popExpressionValues_append]
    · rfl

end Resume

end Axonyx.StateWasm

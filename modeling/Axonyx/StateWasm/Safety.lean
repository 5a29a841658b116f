import Axonyx.Ieee
import Axonyx.StateWasm.Machine

/-! What holds of a program at every opcode, whatever its bytes: where the cursor is, how high
the stack, and that the values on it have finite floats and distinct keys. -/
namespace Axonyx.StateWasm

open Wire (Bytes)

variable {F : Type} [Float64 F]

section Values

/-- No float in it is infinite or a NaN and no object in it binds a key twice. -/
def ExprValue.Sound (value : ExprValue F) : Prop := value.All FiniteFloat ∧ value.All KeysDistinct

omit [Float64 F] in
theorem allItems_iff {p : ExprValue F → Prop} {items : List (ExprValue F)} :
    AllItems p items ↔ ∀ item ∈ items, item.All p := by
  induction items with
  | nil => simp [AllItems]
  | cons item items ih => simp [AllItems, ih]

omit [Float64 F] in
theorem allFields_iff {p : ExprValue F → Prop} {fields : List (String × ExprValue F)} :
    AllFields p fields ↔ ∀ field ∈ fields, field.2.All p := by
  induction fields with
  | nil => simp [AllFields]
  | cons field fields ih => simp [AllFields, ih]

theorem sound_list {items : List (ExprValue F)} :
    (ExprValue.list items).Sound ↔ ∀ item ∈ items, item.Sound := by
  simp only [ExprValue.Sound, ExprValue.All, FiniteFloat, KeysDistinct, true_and, allItems_iff,
    ← forall_and]

theorem sound_object {fields : List (String × ExprValue F)} :
    (ExprValue.object fields).Sound ↔
      (fields.map Prod.fst).Nodup ∧ ∀ field ∈ fields, field.2.Sound := by
  simp only [ExprValue.Sound, ExprValue.All, FiniteFloat, KeysDistinct, true_and, allFields_iff]
  rw [and_left_comm]
  simp only [← forall_and]

theorem sound_float {value : F} :
    (ExprValue.float value).Sound ↔ Binary64.isFinite value = true := by
  simp [ExprValue.Sound, ExprValue.All, FiniteFloat, KeysDistinct]

@[simp] theorem sound_null : (ExprValue.null : ExprValue F).Sound := ⟨trivial, trivial⟩
@[simp] theorem sound_string (value : String) : (ExprValue.string value : ExprValue F).Sound :=
  ⟨trivial, trivial⟩
@[simp] theorem sound_bool (value : Bool) : (ExprValue.bool value : ExprValue F).Sound :=
  ⟨trivial, trivial⟩
@[simp] theorem sound_int (value : Int64) : (ExprValue.int value : ExprValue F).Sound :=
  ⟨trivial, trivial⟩

mutual

/-- The encoder writes no float that is not finite, at any depth. -/
theorem finite_of_encode {value : ExprValue F} {depth : Nat} {frame : Bytes}
    (encoded : encodeExprValue value depth = some frame) : value.All FiniteFloat := by
  unfold encodeExprValue at encoded
  split at encoded
  · cases encoded
  · match value with
    | .null | .string _ | .bool _ | .int _ | .bytes _ => trivial
    | .float value =>
      simp only at encoded
      split at encoded
      next finite => exact finite
      · cases encoded
    | .list items =>
      simp only [Option.bind_eq_bind, Option.bind_eq_some_iff] at encoded
      obtain ⟨_, _, _, written, _⟩ := encoded
      exact ⟨trivial, finite_of_encodeItems written⟩
    | .object fields =>
      simp only [Option.bind_eq_bind, Option.bind_eq_some_iff] at encoded
      obtain ⟨_, _, _, written, _⟩ := encoded
      exact ⟨trivial, finite_of_encodeFields written⟩

theorem finite_of_encodeItems {items : List (ExprValue F)} {depth : Nat} {body : Bytes}
    (encoded : encodeItems items depth = some body) : AllItems FiniteFloat items := by
  match items with
  | [] => trivial
  | item :: items =>
    simp only [encodeItems, Option.bind_eq_bind, Option.bind_eq_some_iff] at encoded
    obtain ⟨_, first, _, rest, _⟩ := encoded
    exact ⟨finite_of_encode first, finite_of_encodeItems rest⟩

theorem finite_of_encodeFields {fields : List (String × ExprValue F)} {depth : Nat} {body : Bytes}
    (encoded : encodeFields fields depth = some body) : AllFields FiniteFloat fields := by
  match fields with
  | [] => trivial
  | (key, value) :: fields =>
    simp only [encodeFields, Option.bind_eq_bind, Option.bind_eq_some_iff] at encoded
    obtain ⟨_, _, _, first, _, rest, _⟩ := encoded
    exact ⟨finite_of_encode first, finite_of_encodeFields rest⟩

end

theorem decoded_sound {bytes : Bytes} {depth consumed : Nat} {value : ExprValue F}
    (decoded : decodeExprValue bytes depth = some (value, consumed)) : value.Sound := by
  obtain ⟨frame, encoded, _, distinct⟩ := (decodeExprValue_iff depth).mp decoded
  exact ⟨finite_of_encode encoded, distinct⟩

end Values

section Operators

theorem finiteFloat_sound {value : F} {result : ExprValue F} (checked : finiteFloat value = some result) :
    result.Sound := by
  unfold finiteFloat at checked
  split at checked
  next finite =>
    cases checked
    exact sound_float.mpr finite
  · cases checked

theorem mapped_sound {α : Type} {result : Option α} {value : ExprValue F} {make : α → ExprValue F}
    (every : ∀ a, (make a).Sound) (mapped : result.map make = some value) : value.Sound := by
  obtain ⟨a, _, rfl⟩ := Option.map_eq_some_iff.mp mapped
  exact every a

theorem exprAdd_sound {left right result : ExprValue F} (added : exprAdd left right = some result) :
    result.Sound := by
  unfold exprAdd at added
  split at added
  · exact mapped_sound sound_int added
  · exact finiteFloat_sound added
  · exact finiteFloat_sound added
  · exact finiteFloat_sound added
  iterate 2
    simp only [Option.bind_eq_bind, Option.bind_eq_some_iff, Option.pure_def, Option.some.injEq] at added
    obtain ⟨_, _, _, _, rfl⟩ := added
    exact sound_string _
  · cases added

theorem exprNumeric_sound {left right result : ExprValue F} {intOp : Int64 → Int64 → Option Int64}
    {floatOp : F → F → F} {rejectZero : Bool}
    (computed : exprNumeric left right intOp floatOp rejectZero = some result) : result.Sound := by
  unfold exprNumeric at computed
  split at computed
  · cases computed
  · split at computed
    · exact mapped_sound sound_int computed
    · exact finiteFloat_sound computed
    · exact finiteFloat_sound computed
    · exact finiteFloat_sound computed
    · cases computed

theorem findField_sound {fields : List (String × ExprValue F)} (name : String)
    (sound : (ExprValue.object fields).Sound) : ((findField fields name).getD .null).Sound := by
  unfold findField
  cases found : fields.find? fun field => field.1 == name with
  | none => exact sound_null
  | some field => exact (sound_object.mp sound).2 field (List.mem_of_find?_eq_some found)

theorem exprIndex_sound {object index result : ExprValue F} (sound : object.Sound)
    (indexed : exprIndex object index = some result) : result.Sound := by
  unfold exprIndex at indexed
  split at indexed
  next items index =>
    split at indexed
    · cases indexed
      exact sound_null
    · cases indexed
      cases found : items[index.toInt.toNat]? with
      | none => exact sound_null
      | some item => exact sound_list.mp sound item (List.mem_of_getElem? found)
  next fields key =>
    cases indexed
    exact findField_sound key sound
  · cases indexed

theorem evaluateBinaryOpcode_sound {opcode : UInt8} {left right result : ExprValue F}
    (first : left.Sound) (second : right.Sound)
    (computed : evaluateBinaryOpcode opcode left right = some result) : result.Sound := by
  unfold evaluateBinaryOpcode at computed
  split at computed
  · exact exprAdd_sound computed
  iterate 4 exact exprNumeric_sound computed
  iterate 2
    cases computed
    exact sound_bool _
  iterate 4 exact mapped_sound (fun _ => sound_bool _) computed
  · unfold exprIn at computed
    split at computed <;> cases computed
    exact sound_bool _
  iterate 2
    cases computed
    exact sound_bool _
  · cases computed
    split
    · exact second
    · exact first
  · exact exprIndex_sound first computed
  · cases computed

theorem evaluateUnaryOpcode_sound {opcode : UInt8} {value result : ExprValue F}
    (computed : evaluateUnaryOpcode opcode value = some result) : result.Sound := by
  unfold evaluateUnaryOpcode at computed
  split at computed
  · cases computed
    exact sound_bool _
  · split at computed
    · exact mapped_sound sound_int computed
    · exact finiteFloat_sound computed
    · cases computed
  · cases computed

theorem memberOpcode_sound {optional : Bool} {property : String} {object result : ExprValue F}
    (sound : object.Sound) (found : memberOpcode optional property object = some result) :
    result.Sound := by
  unfold memberOpcode at found
  split at found
  · cases found
    exact findField_sound property sound
  · split at found <;> cases found
    exact sound_null

end Operators

section Step

variable {program : Bytes} {dependencies : List (ExprValue F)}

theorem readKeys_bound {count cursor next : Nat} {keys found : List String}
    (inside : cursor ≤ program.length)
    (read : readKeys program count cursor keys = some (found, next)) : next ≤ program.length := by
  induction count generalizing cursor keys with
  | zero =>
    cases read
    exact inside
  | succ count ih =>
    simp only [readKeys, Option.bind_eq_bind, Option.bind_eq_some_iff, Prod.exists] at read
    obtain ⟨key, middle, first, rest⟩ := read
    obtain ⟨_, _, slice⟩ := readString_eq_some_iff.mp first
    split at rest
    · cases rest
    · exact ih slice.bound rest

theorem readKeys_nodup {count cursor next : Nat} {keys found : List String} (distinct : keys.Nodup)
    (read : readKeys program count cursor keys = some (found, next)) :
    found.Nodup ∧ found.length = keys.length + count := by
  induction count generalizing cursor keys with
  | zero =>
    cases read
    exact ⟨distinct, rfl⟩
  | succ count ih =>
    simp only [readKeys, Option.bind_eq_bind, Option.bind_eq_some_iff, Prod.exists] at read
    obtain ⟨key, middle, _, rest⟩ := read
    split at rest
    · cases rest
    next fresh =>
      have more : (keys ++ [key]).Nodup := by
        simp only [List.contains_eq_mem, decide_eq_true_eq] at fresh
        apply List.nodup_append.mpr
        refine ⟨distinct, by simp, ?_⟩
        rintro a member b same rfl
        exact fresh (List.mem_singleton.mp same ▸ member)
      obtain ⟨nodup, length⟩ := ih more rest
      refine ⟨nodup, ?_⟩
      rw [length, List.length_append, List.length_singleton]
      omega

omit [Float64 F] in
theorem popExpressionValues_parts {stack rest : Stack F} {count : Nat} {values : List (ExprValue F)}
    (popped : popExpressionValues stack count = some (values, rest)) :
    values.length = count ∧ rest <:+ stack ∧ ∀ value ∈ values, value ∈ stack := by
  unfold popExpressionValues at popped
  split at popped
  next inside =>
    cases popped
    refine ⟨by simp [inside], List.drop_suffix _ _, ?_⟩
    intro value member
    exact List.mem_of_mem_take (List.mem_reverse.mp member)
  · cases popped

/-- What an opcode leaves: a cursor inside the program and one value more than a lower part of
the stack; the value is sound if those it was made of are. -/
structure Pushes (program : Bytes) (dependencies : List (ExprValue F)) (stack after : Stack F)
    (next : Nat) : Prop where
  inside : next ≤ program.length
  pushed : ∃ value rest, after = value :: rest ∧ rest <:+ stack ∧
    ((∀ dependency ∈ dependencies, dependency.Sound) → (∀ value ∈ stack, value.Sound) → value.Sound)

theorem Pushes.constant {stack : Stack F} {value : ExprValue F} {next : Nat}
    (inside : next ≤ program.length) (sound : value.Sound) :
    Pushes program dependencies stack (value :: stack) next :=
  ⟨inside, value, stack, rfl, List.suffix_rfl, fun _ _ => sound⟩

theorem execOpcode_pushes {opcode : UInt8} {cursor next : Nat} {stack after : Stack F}
    (inside : cursor ≤ program.length)
    (step : execOpcode program dependencies opcode cursor stack = some (after, next)) :
    Pushes program dependencies stack after next := by
  unfold execOpcode at step
  split at step
  · simp only [Option.bind_eq_bind, Option.bind_eq_some_iff, Prod.exists, Option.pure_def] at step
    obtain ⟨index, middle, read, value, found, same⟩ := step
    cases same
    refine ⟨(readProgramU16_eq_some_iff.mp read).2.bound, value, stack, rfl, List.suffix_rfl, ?_⟩
    intro dependencies _
    exact dependencies value (List.mem_of_getElem? found)
  · cases step
    exact .constant inside sound_null
  · simp only [Option.bind_eq_bind, Option.bind_eq_some_iff, Prod.exists, Option.pure_def] at step
    obtain ⟨value, middle, read, same⟩ := step
    cases same
    obtain ⟨_, _, slice⟩ := readString_eq_some_iff.mp read
    exact .constant slice.bound (sound_string value)
  · simp only [Option.bind_eq_bind, Option.bind_eq_some_iff, Prod.exists] at step
    obtain ⟨raw, middle, read, value, _, same⟩ := step
    split at same <;> cases same
    exact .constant (take_eq_some_iff.mp read).2.bound (sound_bool _)
  · simp only [Option.bind_eq_bind, Option.bind_eq_some_iff, Prod.exists] at step
    obtain ⟨raw, middle, read, same⟩ := step
    split at same <;> cases same
    next finite => exact .constant (take_eq_some_iff.mp read).2.bound (sound_float.mpr finite)
  · simp only [Option.bind_eq_bind, Option.bind_eq_some_iff, Prod.exists, Option.pure_def] at step
    obtain ⟨raw, middle, read, same⟩ := step
    cases same
    exact .constant (take_eq_some_iff.mp read).2.bound (sound_int _)
  iterate 2
    split at step
    next value stack =>
      simp only [Option.bind_eq_bind, Option.bind_eq_some_iff, Option.pure_def] at step
      obtain ⟨result, computed, same⟩ := step
      cases same
      refine ⟨inside, result, stack, rfl, List.suffix_cons _ _, ?_⟩
      exact fun _ _ => evaluateUnaryOpcode_sound computed
    · cases step
  iterate 16
    split at step
    next right left stack =>
      simp only [Option.bind_eq_bind, Option.bind_eq_some_iff, Option.pure_def] at step
      obtain ⟨result, computed, same⟩ := step
      cases same
      refine ⟨inside, result, stack, rfl, List.suffix_append [right, left] stack, ?_⟩
      intro _ sound
      exact evaluateBinaryOpcode_sound (sound left (by simp)) (sound right (by simp)) computed
    · cases step
  iterate 2
    simp only [Option.bind_eq_bind, Option.bind_eq_some_iff, Prod.exists] at step
    obtain ⟨property, middle, read, same⟩ := step
    obtain ⟨_, _, slice⟩ := readString_eq_some_iff.mp read
    split at same
    next object stack =>
      simp only [Option.bind_eq_some_iff, Option.pure_def] at same
      obtain ⟨result, found, same⟩ := same
      cases same
      refine ⟨slice.bound, result, stack, rfl, List.suffix_cons _ _, ?_⟩
      intro _ sound
      exact memberOpcode_sound (sound object (by simp)) found
    · cases same
  · simp only [Option.bind_eq_bind, Option.bind_eq_some_iff, Prod.exists] at step
    obtain ⟨count, middle, read, same⟩ := step
    split at same
    · cases same
    · simp only [Option.bind_eq_some_iff, Prod.exists, Option.pure_def] at same
      obtain ⟨values, rest, popped, same⟩ := same
      cases same
      obtain ⟨_, lower, parts⟩ := popExpressionValues_parts popped
      refine ⟨(readProgramU16_eq_some_iff.mp read).2.bound, _, rest, rfl, lower, ?_⟩
      intro _ sound
      exact sound_list.mpr fun value member => sound value (parts value member)
  · simp only [Option.bind_eq_bind, Option.bind_eq_some_iff, Prod.exists] at step
    obtain ⟨count, middle, read, same⟩ := step
    split at same
    · cases same
    · simp only [Option.bind_eq_some_iff, Prod.exists, Option.pure_def] at same
      obtain ⟨keys, behind, named, values, rest, popped, same⟩ := same
      cases same
      have bound := (readProgramU16_eq_some_iff.mp read).2.bound
      obtain ⟨distinct, named_length⟩ := readKeys_nodup List.nodup_nil named
      obtain ⟨length, lower, parts⟩ := popExpressionValues_parts popped
      refine ⟨readKeys_bound bound named, _, rest, rfl, lower, ?_⟩
      intro _ sound
      apply sound_object.mpr
      constructor
      · rw [List.map_fst_zip (by rw [named_length, length]; simp)]
        exact distinct
      · rintro ⟨key, value⟩ member
        exact sound value (parts value (List.of_mem_zip member).2)
  · cases step

end Step

section Run

open Guarded (Usize Guarded returns bind_returns returns_some_bind returns_injective)

variable {usize : Usize} {program : Bytes} {dependencies : List (ExprValue F)} {room : Nat}

theorem iteration_returns (short : program.length < usize.range) {cursor : Nat} {stack : Stack F}
    (inside : cursor < program.length) (free : stack.length < room) :
    Machine.iteration usize room program dependencies cursor stack =
      returns ((execOpcode program dependencies program[cursor] (cursor + 1) stack).bind
        fun after => if after.1.length > axExpressionStackMaxValues then none else some after) := by
  rw [Machine.iteration, List.getElem?_eq_getElem inside, returns_some_bind,
    Guarded.plus_returns (by omega), returns_some_bind]
  apply bind_returns (Machine.execOpcode_returns short _ _ free)
  rintro ⟨after, next⟩ -
  dsimp only
  split <;> rfl

/-- The machine reaches an opcode with its cursor in the program, and never with more values
than the limit. -/
structure Steady (program : Bytes) (cursor : Nat) (stack : Stack F) : Prop where
  inside : cursor ≤ program.length
  bounded : stack.length ≤ axExpressionStackMaxValues
  sound : ∀ value ∈ stack, value.Sound

theorem Steady.start (headed : 4 ≤ program.length) : Steady program 4 ([] : Stack F) :=
  ⟨headed, Nat.zero_le _, fun _ member => nomatch member⟩

theorem Steady.step {cursor next : Nat} {stack after : Stack F} (steady : Steady program cursor stack)
    (dependable : ∀ dependency ∈ dependencies, dependency.Sound) (more : cursor < program.length)
    (passed : execOpcode program dependencies program[cursor] (cursor + 1) stack = some (after, next))
    (low : after.length ≤ axExpressionStackMaxValues) : Steady program next after := by
  obtain ⟨inside, value, rest, rfl, lower, made⟩ := execOpcode_pushes more passed
  refine ⟨inside, low, ?_⟩
  intro other member
  rcases List.mem_cons.mp member with rfl | below
  · exact made dependable steady.sound
  · exact steady.sound other (lower.subset below)

theorem visited_steady (short : program.length < usize.range)
    (dependable : ∀ dependency ∈ dependencies, dependency.Sound)
    (enough : axExpressionStackMaxValues < room) {cursor : Nat} {stack : Stack F}
    (visited : Machine.Visited usize room program dependencies cursor stack) :
    Steady program cursor stack := by
  induction visited with
  | start headed => exact .start headed
  | @step cursor next stack after _ passed steady =>
    by_cases more : cursor < program.length
    · rw [iteration_returns short more (Nat.lt_of_le_of_lt steady.bounded enough)] at passed
      obtain ⟨⟨top, behind⟩, executed, kept⟩ := Option.bind_eq_some_iff.mp (returns_injective passed)
      split at kept
      · cases kept
      next low =>
        cases kept
        exact steady.step dependable more executed (Nat.le_of_not_gt low)
    · rw [Machine.iteration, List.getElem?_eq_none (Nat.le_of_not_lt more)] at passed
      cases returns_injective passed

theorem runProgram_returns (short : program.length < usize.range)
    (dependable : ∀ dependency ∈ dependencies, dependency.Sound)
    (enough : axExpressionStackMaxValues < room) {fuel cursor : Nat} {stack : Stack F}
    (steady : Steady program cursor stack) (fueled : program.length - cursor < fuel) :
    Machine.runProgram usize room program dependencies fuel cursor stack =
      returns (runProgram program dependencies fuel cursor stack) := by
  induction fuel generalizing cursor stack with
  | zero => omega
  | succ fuel ih =>
    unfold Machine.runProgram runProgram
    by_cases more : cursor < program.length
    · rw [if_pos more, List.getElem?_eq_getElem more]
      dsimp only
      have passes : Machine.iteration usize room program dependencies cursor stack = _ :=
        iteration_returns short more (Nat.lt_of_le_of_lt steady.bounded enough)
      cases executed : execOpcode program dependencies program[cursor] (cursor + 1) stack with
      | none =>
        rw [executed] at passes
        rw [passes]
        rfl
      | some result =>
        obtain ⟨after, next⟩ := result
        rw [executed] at passes
        rw [passes]
        simp only [Option.bind_eq_bind, Option.bind_some]
        split
        · rfl
        next low =>
          have forward := execOpcode_advances executed
          have kept := steady.step dependable more executed (Nat.le_of_not_gt low)
          exact ih kept (by omega)
    · rw [if_neg more, List.getElem?_eq_none (Nat.le_of_not_lt more)]
      rcases stack with _ | ⟨value, _ | ⟨other, rest⟩⟩ <;> rfl

theorem runProgram_sound (dependable : ∀ dependency ∈ dependencies, dependency.Sound)
    {fuel cursor : Nat} {stack : Stack F} {value : ExprValue F} (steady : Steady program cursor stack)
    (result : runProgram program dependencies fuel cursor stack = some value) : value.Sound := by
  induction fuel generalizing cursor stack with
  | zero => cases result
  | succ fuel ih =>
    unfold runProgram at result
    split at result
    · split at result
      · cases result
        exact steady.sound value (by simp)
      · cases result
    next opcode found =>
      obtain ⟨more, rfl⟩ := List.getElem?_eq_some_iff.mp found
      simp only [Option.bind_eq_bind, Option.bind_eq_some_iff, Prod.exists] at result
      obtain ⟨after, next, executed, rest⟩ := result
      split at rest
      · cases rest
      next low => exact ih (steady.step dependable more executed (Nat.le_of_not_gt low)) rest

theorem evaluateExpressionProgram_returns (short : program.length < usize.range)
    (dependable : ∀ dependency ∈ dependencies, dependency.Sound)
    (enough : axExpressionStackMaxValues < room) :
    Machine.evaluateExpressionProgram usize room program dependencies =
      returns (evaluateExpressionProgram program dependencies) := by
  rw [Machine.evaluateExpressionProgram, evaluateExpressionProgram]
  by_cases headed : program.length < 4
  · simp [headed, Guarded.refuse]
  · have long : 4 ≤ program.length := Nat.le_of_not_lt headed
    rw [if_neg headed, Guarded.sliceTo_returns long, returns_some_bind]
    have runs := runProgram_returns short dependable enough (.start long)
      (show program.length - 4 < program.length + 1 by omega)
    simp only [headed, decide_false, Bool.false_or]
    split
    · rfl
    · exact runs

theorem evaluateExpressionProgram_sound (dependable : ∀ dependency ∈ dependencies, dependency.Sound)
    {value : ExprValue F} (result : evaluateExpressionProgram program dependencies = some value) :
    value.Sound := by
  unfold evaluateExpressionProgram at result
  split at result
  · cases result
  next headed =>
    simp only [Bool.or_eq_true, decide_eq_true_eq, not_or, Nat.not_lt] at headed
    exact runProgram_sound dependable (.start headed.1) result

end Run

section Request

open Guarded (Usize Guarded returns bind_returns returns_some_bind returns_injective)

variable {usize : Usize}

theorem decodeItems_sound {bytes : Bytes} {count cursor next depth : Nat}
    {items found : List (ExprValue F)} (sound : ∀ item ∈ items, item.Sound)
    (decoded : decodeItems (decodeExprValue · depth) bytes count cursor items = some (found, next)) :
    ∀ item ∈ found, item.Sound := by
  induction count generalizing cursor items with
  | zero =>
    cases decoded
    exact sound
  | succ count ih =>
    simp only [decodeItems, Option.bind_eq_bind, Option.bind_eq_some_iff, Prod.exists] at decoded
    obtain ⟨item, consumed, first, rest⟩ := decoded
    apply ih _ rest
    intro other member
    rcases List.mem_append.mp member with old | new
    · exact sound other old
    · obtain rfl := List.mem_singleton.mp new
      exact decoded_sound first

theorem readRequest_parts {request program : Bytes} {dependencies : List (ExprValue F)}
    (read : readRequest request = some (program, dependencies)) :
    program.length ≤ request.length ∧ ∀ dependency ∈ dependencies, dependency.Sound := by
  simp only [readRequest, Option.bind_eq_bind, Option.bind_eq_some_iff, Prod.exists] at read
  obtain ⟨programLen, start, _, slice, behind, taken, count, cursor, _, rest⟩ := read
  have inside := (take_eq_some_iff.mp taken).2
  have bound := inside.bound
  have length := inside.next_eq
  split at rest
  · cases rest
  · simp only [Option.bind_eq_some_iff, Prod.exists] at rest
    obtain ⟨values, last, decoded, kept⟩ := rest
    split at kept
    · cases kept
    · cases kept
      exact ⟨by omega, decodeItems_sound (by simp) decoded⟩

theorem readRequest_returns (request : Machine.Request usize) :
    (Machine.readRequest usize request : Guarded (Bytes × List (ExprValue F))) =
      returns (readRequest request.bytes) := by
  have addressable := request.addressable
  apply bind_returns (Machine.readU32_returns addressable 0)
  rintro ⟨programLen, cursor⟩ -
  apply bind_returns (Machine.take_returns addressable cursor programLen)
  rintro ⟨program, cursor⟩ -
  apply bind_returns (Machine.readU32_returns addressable cursor)
  rintro ⟨count, cursor⟩ counted
  have inside := (readU32_eq_some_iff.mp counted).2.bound
  dsimp only
  split
  · rfl
  · have frames : Machine.Decodes usize
        (fun frame => Machine.decodeExprValue usize (axStateValueMaxDepth + 2) frame 0)
        (fun frame => (decodeExprValue frame 0 : Option (ExprValue F × Nat))) := by
      constructor
      · intro frame fits
        exact Machine.decodeExprValue_returns (Nat.le_add_right _ 0) (Nat.zero_le _) frame fits
      · intro frame value consumed decoded
        exact (encode_of_decode decoded).1
    apply bind_returns (Machine.decodeItems_returns addressable frames count [] inside)
    rintro ⟨values, last⟩ -
    dsimp only
    split <;> rfl

/-- The machine computes what the reader and the program say. -/
theorem evaluateExpressionRequest_returns (request : Machine.Request usize) {room : Nat}
    (enough : axExpressionStackMaxValues < room) :
    (Machine.evaluateExpressionRequest usize room request : Guarded (ExprValue F)) =
      returns (evaluateExpressionRequest request.bytes) := by
  apply bind_returns (readRequest_returns request)
  rintro ⟨program, dependencies⟩ read
  obtain ⟨length, dependable⟩ := readRequest_parts read
  have short := Nat.lt_of_le_of_lt length request.addressable
  exact evaluateExpressionProgram_returns short dependable enough

theorem evaluateExpressionRequest_sound {request : Bytes} {value : ExprValue F}
    (result : evaluateExpressionRequest request = some value) : value.Sound := by
  simp only [evaluateExpressionRequest, Option.bind_eq_bind, Option.bind_eq_some_iff, Prod.exists]
    at result
  obtain ⟨program, dependencies, read, computed⟩ := result
  exact evaluateExpressionProgram_sound (readRequest_parts read).2 computed

/-- No request, whatever its bytes, makes a sum overflow, an index or a slice leave its range or
the program run on; one value above the limit is all the stack ever holds, and none above it at
the next opcode. What is returned has finite floats and distinct keys. -/
theorem expression_request_safe (request : Machine.Request usize) :
    (∃ result : Option (ExprValue F),
      Machine.evaluateExpressionRequest usize (axExpressionStackMaxValues + 1) request =
        returns result ∧
      ∀ value, result = some value → value.All FiniteFloat ∧ value.All KeysDistinct) ∧
    ∀ (program : Bytes) (dependencies : List (ExprValue F)),
      Machine.readRequest usize request = returns (some (program, dependencies)) →
      ∀ (cursor : Nat) (stack : Stack F),
        Machine.Visited usize (axExpressionStackMaxValues + 1) program dependencies cursor stack →
        cursor ≤ program.length ∧ stack.length ≤ axExpressionStackMaxValues := by
  constructor
  · refine ⟨_, evaluateExpressionRequest_returns request (Nat.lt_succ_self _), ?_⟩
    intro value result
    exact evaluateExpressionRequest_sound result
  · intro program dependencies read cursor stack visited
    rw [readRequest_returns] at read
    obtain ⟨length, dependable⟩ := readRequest_parts (returns_injective read)
    have short := Nat.lt_of_le_of_lt length request.addressable
    have steady := visited_steady short dependable (Nat.lt_succ_self _) visited
    exact ⟨steady.inside, steady.bounded⟩

section Overfull

theorem iteration_null {program : Bytes} {dependencies : List (ExprValue F)} {room cursor : Nat}
    {stack : Stack F} (short : program.length < usize.range) (found : program[cursor]? = some 1)
    (free : stack.length < room) (low : room ≤ axExpressionStackMaxValues) :
    Machine.iteration usize room program dependencies cursor stack =
      returns (some (.null :: stack, cursor + 1)) := by
  obtain ⟨more, opcode⟩ := List.getElem?_eq_some_iff.mp found
  have kept : ¬ axExpressionStackMaxValues < (ExprValue.null :: stack).length := by
    rw [List.length_cons]
    omega
  rw [iteration_returns short more free, opcode, execOpcode, Option.bind_some, if_neg kept]

/-- A stack is filled to its room and pushed on once more. -/
theorem runProgram_full {program : Bytes} {dependencies : List (ExprValue F)} {room : Nat}
    (short : program.length < usize.range) (low : room ≤ axExpressionStackMaxValues)
    {left fuel cursor : Nat} {stack : Stack F} (height : stack.length + left = room)
    (nulls : ∀ index, cursor ≤ index → index ≤ cursor + left → program[index]? = some 1)
    (fueled : left < fuel) :
    Machine.runProgram usize room program dependencies fuel cursor stack = Guarded.fault .full := by
  induction left generalizing fuel cursor stack with
  | zero =>
    obtain ⟨fuel, rfl⟩ : ∃ less, fuel = less + 1 := ⟨fuel - 1, by omega⟩
    obtain ⟨more, opcode⟩ := List.getElem?_eq_some_iff.mp (nulls cursor (Nat.le_refl _) (Nat.le_refl _))
    have filled : ¬ stack.length < room := by omega
    rw [Machine.runProgram, if_pos more, Machine.iteration, List.getElem?_eq_getElem more,
      returns_some_bind, Guarded.plus_returns (by omega), returns_some_bind, opcode,
      Machine.execOpcode, Guarded.push, if_neg filled]
    rfl
  | succ left ih =>
    obtain ⟨fuel, rfl⟩ : ∃ less, fuel = less + 1 := ⟨fuel - 1, by omega⟩
    have found := nulls cursor (Nat.le_refl _) (Nat.le_add_right _ _)
    obtain ⟨more, _⟩ := List.getElem?_eq_some_iff.mp found
    rw [Machine.runProgram, if_pos more, iteration_null short found (by omega) low,
      returns_some_bind]
    apply ih
    · rw [List.length_cons]
      omega
    · intro index above below
      exact nulls index (by omega) (by omega)
    · omega

theorem readRequest_written {program : Bytes} (small : program.length < 2 ^ 32) :
    (readRequest (Wire.leBytes 4 program.length ++ (program ++ Wire.leBytes 4 0)) :
      Option (Bytes × List (ExprValue F))) = some (program, []) := by
  have whole := reads_prefix (Wire.leBytes 4 program.length ++ (program ++ Wire.leBytes 4 0)) []
  rw [List.append_nil] at whole
  obtain ⟨start, first, rest⟩ := reads_append_iff.mp whole
  obtain ⟨behind, second, third⟩ := reads_append_iff.mp rest
  have length := readU32_eq_some_iff.mpr ⟨small, first⟩
  have taken := take_eq_some_iff.mpr ⟨rfl, second⟩
  have count := readU32_eq_some_iff.mpr ⟨by norm_num, third⟩
  rw [readRequest, length]
  dsimp only [Option.bind_eq_bind, Option.bind_some]
  rw [taken]
  dsimp only [Option.bind_some]
  rw [count]
  dsimp only [Option.bind_some, decodeItems]
  rw [if_neg (Nat.not_lt_zero _), bne_self_eq_false]
  rfl

/-- As many nulls as the stack may hold and one more. -/
def overfullProgram : Bytes := [65, 88, 69, 1] ++ List.replicate (axExpressionStackMaxValues + 1) 1

theorem overfullProgram_length : overfullProgram.length = 4101 := by
  rw [overfullProgram, List.length_append, List.length_replicate]
  rfl

def overfullRequest : Machine.Request .wasm32 where
  bytes := Wire.leBytes 4 overfullProgram.length ++ (overfullProgram ++ Wire.leBytes 4 0)
  addressable := by
    norm_num [overfullProgram_length, Usize.wasm32]

/-- The limit is checked behind the push that exceeds it. -/
theorem overfull_request_exceeds_limit :
    (Machine.evaluateExpressionRequest .wasm32 axExpressionStackMaxValues overfullRequest :
      Guarded (ExprValue F64)) = Guarded.fault .full := by
  have small : overfullProgram.length < 2 ^ 32 := by norm_num [overfullProgram_length]
  have short : overfullProgram.length < Usize.wasm32.range := small
  have read : (Machine.readRequest .wasm32 overfullRequest : Guarded (Bytes × List (ExprValue F64))) =
      returns (some (overfullProgram, [])) := by
    rw [readRequest_returns]
    exact congrArg returns (readRequest_written small)
  rw [Machine.evaluateExpressionRequest, read, returns_some_bind]
  dsimp only
  unfold Machine.evaluateExpressionProgram
  have long : 4 ≤ overfullProgram.length := by rw [overfullProgram_length]; decide
  have magic : overfullProgram.take 4 = [65, 88, 69, 1] := rfl
  rw [if_neg (Nat.not_lt.mpr long), Guarded.sliceTo_returns long, returns_some_bind, magic]
  have nulls : ∀ index, 4 ≤ index → index ≤ 4 + axExpressionStackMaxValues →
      overfullProgram[index]? = some 1 := by
    intro index above below
    have inside : index - 4 < axExpressionStackMaxValues + 1 := by omega
    rw [overfullProgram, List.getElem?_append_right above]
    exact List.getElem?_replicate_of_lt inside
  have fueled : axExpressionStackMaxValues < overfullProgram.length + 1 := by
    rw [overfullProgram_length]
    decide
  have height : ([] : Stack F64).length + axExpressionStackMaxValues = axExpressionStackMaxValues :=
    Nat.zero_add _
  simp only [bne_self_eq_false, Bool.false_eq_true, if_false]
  exact runProgram_full short (Nat.le_refl _) height nulls fueled

end Overfull

end Request

end Axonyx.StateWasm
